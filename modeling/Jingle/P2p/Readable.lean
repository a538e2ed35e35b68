/-
Which connections of a channel are readable.

A connection should be readable only after its own port has received a valid
ping from its remote address.  The ping of an unknown address breaks this:
`CreateConnections` makes connections from every port and lets each of them
receive the ping.  `Meets` says when this does no harm, and `readable_earned`
that in a run of such events every readable connection has earned it.

`received` is the history of packets: the port, the address they came from and
the bytes.  Which packets go to a connection and which to the port itself is up
to the port's class, so an event may be either.

`Gains P` is the relation that carries the proof: from one channel to the next
only connections that `P` allows become readable.
-/
import Jingle.P2p.Channel
import Jingle.Lib.Reach

namespace Jingle.P2p

/-- A channel and the packets that its ports have received. -/
structure World where
  ch : Channel
  received : List (ℕ × SocketAddress × List Byte)

/-- What can happen to a channel. -/
inductive Event
  | portReady (dial : Dial) (now : Word) (p : ℕ)
  | candidate (dial : Dial) (now : Word) (remote : Candidate)
  | connectionPacket (now : Word) (i : ℕ) (data : List Byte)
  | portPacket (dial : Dial) (now : Word) (p : ℕ) (addr : SocketAddress) (data : List Byte)
  | sort (now : Word)
  | ping (id : List Byte) (now : Word)
  | allocate
  | requestMessage (i : ℕ) (id : List Byte) (now : Word)
  | connect (i : ℕ)
  | close (i : ℕ)
  | destroy (i : ℕ)
  | deleted (i : ℕ)
  | portDestroyed (p : ℕ)
  | signalingReady
  | reset (connectRequested : Bool)

namespace World

variable (w : World)

/-- An event of a connection of the channel. -/
def onConnection (i : ℕ) (f : Connection → Connection) : World :=
  if i ∈ w.ch.connections then { w with ch := w.ch.set i (f (w.ch.conn i)) } else w

/-- The channel after an event. -/
def act : Event → World
  | .portReady dial now p => { w with ch := w.ch.onPortReady dial now p }
  | .candidate dial now remote => { w with ch := w.ch.onCandidate dial now remote }
  | .connectionPacket now i data =>
    if i ∈ w.ch.connections then
      { ch := w.ch.onConnectionPacket now i data
        received :=
          w.received ++ [((w.ch.conn i).port, (w.ch.conn i).remoteCandidate.address, data)] }
    else w
  | .portPacket dial now p addr data =>
    { ch := (w.ch.onPortPacket dial now p addr data).1
      received := w.received ++ [(p, addr, data)] }
  | .sort now => { w with ch := w.ch.sortConnections now }
  | .ping id now => { w with ch := w.ch.onPing id now }
  | .allocate => { w with ch := w.ch.allocate }
  | .requestMessage i id now => w.onConnection i fun c => c.onRequestMessage id now
  | .connect i => w.onConnection i Connection.onConnect
  | .close i => w.onConnection i Connection.onClose
  | .destroy i => w.onConnection i Connection.destroy
  | .deleted i => { w with ch := w.ch.onConnectionDestroyed i }
  | .portDestroyed p => { w with ch := w.ch.onPortDestroyed p }
  | .signalingReady => { w with ch := w.ch.onSignalingReady }
  | .reset connectRequested => { w with ch := w.ch.reset connectRequested }

/-- Port `p` has received a binding request from `addr` that carries its username
fragment and `remoteUsername`. -/
def Pinged (p : ℕ) (addr : SocketAddress) (remoteUsername : List Byte) : Prop :=
  ∃ from_ data msg, (p, from_, data) ∈ w.received ∧ from_.eqv addr ∧
    StunMessage.new.read data = .ok (msg, []) ∧
    msg.type = StunMessageType.bindingRequest.code ∧
    msg.getByteString .username = some ((w.ch.port p).usernameFragment ++ remoteUsername)

/-- **Readability is earned**: a readable connection's own port was pinged from
its remote address with its remote username. -/
def Earned : Prop :=
  ∀ i ∈ w.ch.connections, (w.ch.conn i).readState = .readable →
    w.Pinged (w.ch.conn i).port (w.ch.conn i).remoteCandidate.address
      (w.ch.conn i).remoteCandidate.username

end World

/-- `CreateConnection` from port `q` would give a connection to the candidate. -/
def Channel.Connects (ch : Channel) (dial : Dial) (q : ℕ) (remote : Candidate) : Prop :=
  match ch.getConnection q remote.address with
  | some i => remote.isEquivalent (ch.conn i).remoteCandidate
  | none => (dial q remote).isSome

/-- A ping from an unknown address finds no other port that connects to it, or
only ports that have received such a ping themselves. -/
def World.Meets (w : World) : Event → Prop
  | .portPacket dial _ p addr data =>
    ∀ msg remoteUsername remote,
      getStunMessage (w.ch.port p).usernameFragment data = .message msg remoteUsername →
      msg.type = StunMessageType.bindingRequest.code →
      w.ch.knownAs remoteUsername addr = some remote →
      ∀ q ∈ w.ch.ports, q ≠ p → w.ch.Connects dial q remote → w.Pinged q addr remoteUsername
  | _ => True

/-! ### Connections -/

namespace Connection

/-- The connection stays where it is and does not become readable. -/
structure Quiet (c d : Connection) : Prop where
  port : d.port = c.port
  remote : d.remoteCandidate = c.remoteCandidate
  readable : d.readState = .readable → c.readState = .readable

variable {c : Connection}

theorem Quiet.refl (c : Connection) : Quiet c c := ⟨rfl, rfl, id⟩

theorem Quiet.trans {c d e : Connection} (h : Quiet c d) (h' : Quiet d e) : Quiet c e :=
  ⟨h'.port.trans h.port, h'.remote.trans h.remote, fun hr => h.readable (h'.readable hr)⟩

theorem quiet_setReadState : Quiet c (c.setReadState .readTimeout) := by
  obtain ⟨n, h⟩ := setReadState_eq (c := c) (r := .readTimeout)
  rw [h]
  exact ⟨rfl, rfl, by simp⟩

theorem quiet_setWriteState (s : WriteState) : Quiet c (c.setWriteState s) := by
  obtain ⟨n, h⟩ := setWriteState_eq (c := c) (w := s)
  rw [h]
  exact ⟨rfl, rfl, id⟩

theorem quiet_retryWriting : Quiet c c.retryWriting := by
  rw [retryWriting]
  split
  · exact quiet_setWriteState _
  · exact .refl c

theorem quiet_updateState (now : Word) : Quiet c (c.updateState now) := by
  refine Quiet.trans (d := c.updateReadState now) ?_ (.trans (d :=
    (c.updateReadState now).updateWritable now) ?_ ?_)
  · rw [updateReadState]
    split
    · exact quiet_setReadState
    · exact .refl c
  · rw [updateWritable]
    split
    · exact quiet_setWriteState _
    · exact .refl _
  · rw [updateState, updateConnect]
    split
    · exact quiet_setWriteState _
    · exact .refl _

theorem quiet_prune : Quiet c c.prune := by
  rw [prune]
  split
  · exact Quiet.trans (d := { c with pruned := true, requests := [] }) ⟨rfl, rfl, id⟩
      (quiet_setWriteState _)
  · exact .refl c

theorem quiet_destroy : Quiet c c.destroy :=
  quiet_setReadState.trans (quiet_setWriteState _)

theorem quiet_onClose : Quiet c c.onClose :=
  Quiet.trans (d := { c with connected := false }) ⟨rfl, rfl, id⟩ (quiet_setWriteState _)

theorem quiet_onRequestMessage (id : List Byte) (now : Word) :
    Quiet c (c.onRequestMessage id now) := by
  rw [onRequestMessage]
  split
  · exact .refl c
  · split <;> exact ⟨rfl, rfl, fun h => h⟩

theorem quiet_checkResponse (msg : StunMessage) (now : Word) :
    Quiet c (c.checkResponse msg now) := by
  rw [checkResponse]
  split
  · exact .refl c
  · next request _ =>
    dsimp only
    split
    · have h := quiet_setWriteState (c := c) .writable
      exact ⟨h.port, h.remote, h.readable⟩
    · split
      · have h : Quiet c (c.onConnectionRequestErrorResponse msg) := by
          rw [onConnectionRequestErrorResponse]
          split_ifs
          · exact .refl c
          · exact .refl c
          · exact quiet_setWriteState _
        exact ⟨h.port, h.remote, h.readable⟩
      · exact .refl c

@[simp] theorem receivedPing_port (now : Word) : (c.receivedPing now).port = c.port := by
  obtain ⟨n, h⟩ := setReadState_eq (c := { c with lastPingReceived := now }) (r := .readable)
  rw [receivedPing, h]

@[simp] theorem receivedPing_remoteCandidate (now : Word) :
    (c.receivedPing now).remoteCandidate = c.remoteCandidate := by
  obtain ⟨n, h⟩ := setReadState_eq (c := { c with lastPingReceived := now }) (r := .readable)
  rw [receivedPing, h]

theorem onReadPacket_cases (frag data : List Byte) (now : Word) :
    (c.onReadPacket frag data now).conn.port = c.port ∧
      (c.onReadPacket frag data now).conn.remoteCandidate = c.remoteCandidate ∧
      ((c.onReadPacket frag data now).conn.readState = .readable → c.readState = .readable ∨
        ∃ msg, StunMessage.new.read data = .ok (msg, []) ∧
          msg.type = StunMessageType.bindingRequest.code ∧
          msg.getByteString .username = some (frag ++ c.remoteCandidate.username)) := by
  have quiet : ∀ d : Connection, Quiet c d → d.port = c.port ∧
      d.remoteCandidate = c.remoteCandidate ∧ (d.readState = .readable → c.readState = .readable ∨
        ∃ msg, StunMessage.new.read data = .ok (msg, []) ∧
          msg.type = StunMessageType.bindingRequest.code ∧
          msg.getByteString .username = some (frag ++ c.remoteCandidate.username)) :=
    fun d h => ⟨h.port, h.remote, fun hr => .inl (h.readable hr)⟩
  rw [onReadPacket]
  rcases hm : getStunMessage frag data with _ | reply | ⟨msg, user⟩ <;> dsimp only
  · split
    · exact quiet _ (Quiet.trans (d := { c with lastDataReceived := now }) ⟨rfl, rfl, id⟩
        quiet_retryWriting)
    · exact quiet _ (.refl c)
  · exact quiet _ (.refl c)
  · split_ifs with huser htype htype
    · exact quiet _ (.refl c)
    · exact quiet _ (.refl c)
    · obtain ⟨hread, hname⟩ := getStunMessage_request hm htype
      have hq := quiet_retryWriting (c := (c.sendBindingResponse msg now).conn)
      rw [sendBindingResponse, hname] at hq ⊢
      refine ⟨hq.port.trans (receivedPing_port now),
        hq.remote.trans (receivedPing_remoteCandidate now), fun _ => .inr ⟨msg, hread, htype, ?_⟩⟩
      rw [hname, not_not.1 huser]
    · exact quiet _ (quiet_checkResponse msg now)

end Connection

/-! ### Channels -/

namespace Channel

/-- All connections in the list have been made. -/
def Fresh (ch : Channel) : Prop := ∀ i ∈ ch.connections, i < ch.nextConn

/-- From `ch` to `ch'` only connections that `P` allows become readable. -/
structure Gains (P : ℕ → Candidate → Prop) (ch ch' : Channel) : Prop where
  port : ch'.port = ch.port
  fresh : ch.Fresh → ch'.Fresh
  readable : ∀ i ∈ ch'.connections, (ch'.conn i).readState = .readable →
    P (ch'.conn i).port (ch'.conn i).remoteCandidate ∨
      i ∈ ch.connections ∧ (ch.conn i).readState = .readable ∧
        (ch'.conn i).port = (ch.conn i).port ∧
        (ch'.conn i).remoteCandidate = (ch.conn i).remoteCandidate

variable {P : ℕ → Candidate → Prop} {ch ch' ch'' : Channel}

theorem mapConnections_conn (ch : Channel) {f : ℕ → Connection → Connection} {i : ℕ}
    (hi : i ∈ ch.connections) : (ch.mapConnections f).conn i = f i (ch.conn i) :=
  if_pos hi

theorem set_conn_self {i : ℕ} {c : Connection} : (ch.set i c).conn i = c := if_pos rfl

theorem set_conn_of_ne {i j : ℕ} {c : Connection} (h : j ≠ i) :
    (ch.set i c).conn j = ch.conn j :=
  if_neg h

theorem Gains.refl (ch : Channel) : Gains P ch ch :=
  ⟨rfl, id, fun _ hi hr => .inr ⟨hi, hr, rfl, rfl⟩⟩

theorem Gains.trans (h : Gains P ch ch') (h' : Gains P ch' ch'') : Gains P ch ch'' where
  port := h'.port.trans h.port
  fresh := fun hf => h'.fresh (h.fresh hf)
  readable := by
    intro i hi hr
    rcases h'.readable i hi hr with hp | ⟨hi', hr', hport, hremote⟩
    · exact .inl hp
    · rw [hport, hremote]
      exact h.readable i hi' hr'

theorem Gains.of_subset (hport : ch'.port = ch.port) (hconn : ch'.conn = ch.conn)
    (hnext : ch'.nextConn = ch.nextConn) (hsub : ch'.connections ⊆ ch.connections) :
    Gains P ch ch' where
  port := hport
  fresh := fun hf i hi => hnext ▸ hf i (hsub hi)
  readable := by
    intro i hi hr
    rw [hconn] at hr ⊢
    exact .inr ⟨hsub hi, hr, rfl, rfl⟩

theorem gains_mapConnections {f : ℕ → Connection → Connection} (h : ∀ i c, Connection.Quiet c (f i c)) :
    Gains P ch (ch.mapConnections f) where
  port := rfl
  fresh := id
  readable := by
    intro i hi hr
    rw [mapConnections_conn ch hi] at hr ⊢
    have hq := h i (ch.conn i)
    exact .inr ⟨hi, hq.readable hr, hq.port, hq.remote⟩

theorem gains_set {i : ℕ} {c : Connection} (hport : c.port = (ch.conn i).port)
    (hremote : c.remoteCandidate = (ch.conn i).remoteCandidate)
    (hr : c.readState = .readable → (ch.conn i).readState = .readable ∨
      P (ch.conn i).port (ch.conn i).remoteCandidate) : Gains P ch (ch.set i c) where
  port := rfl
  fresh := id
  readable := by
    intro j hj hrj
    by_cases hji : j = i
    · subst hji
      rw [set_conn_self] at hrj ⊢
      rw [hport, hremote]
      rcases hr hrj with h | h
      · exact .inr ⟨hj, h, rfl, rfl⟩
      · exact .inl h
    · rw [set_conn_of_ne hji] at hrj ⊢
      exact .inr ⟨hj, hrj, rfl, rfl⟩

theorem gains_set_quiet {i : ℕ} {c : Connection} (h : (ch.conn i).Quiet c) :
    Gains P ch (ch.set i c) :=
  gains_set h.port h.remote fun hr => .inl (h.readable hr)

/-! ### Sorting -/

theorem gains_pruneNetwork (network : ℕ) : Gains P ch (ch.pruneNetwork network) := by
  rw [pruneNetwork]
  split
  · exact .refl ch
  · split
    · exact .refl ch
    · refine gains_mapConnections fun i c => ?_
      split
      · exact Connection.quiet_prune
      · exact .refl c

theorem gains_pruneNetworks (networks : List ℕ) : Gains P ch (networks.foldl pruneNetwork ch) := by
  induction networks generalizing ch with
  | nil => exact .refl ch
  | cons network networks ih => exact (gains_pruneNetwork network).trans ih

theorem gains_chooseBest : Gains P ch ch.chooseBest :=
  .of_subset rfl rfl rfl fun _ hi => (List.mem_insertionSort _).1 hi

theorem gains_sortConnections (now : Word) : Gains P ch (ch.sortConnections now) := by
  have same : ∀ ch : Channel, Gains P ch
      (if 0 < ch.count .writable then ch.handleWritable
        else if 0 < ch.count .writeConnect then ch.handleNotWritable
        else ch.handleAllTimedOut).updateChannelState := by
    intro ch
    split_ifs
    · exact .of_subset rfl rfl rfl fun _ => id
    · rw [handleNotWritable]
      split <;> exact .of_subset rfl rfl rfl fun _ => id
    · rw [handleAllTimedOut]
      split <;> exact .of_subset rfl rfl rfl fun _ => id
  have hupdate : Gains P ch (ch.updateConnectionStates now) :=
    gains_mapConnections fun _ c => c.quiet_updateState now
  exact ((hupdate.trans gains_chooseBest).trans (gains_pruneNetworks _)).trans (same _)

/-! ### Making connections -/

theorem getConnection_some {p i : ℕ} {addr : SocketAddress} (h : ch.getConnection p addr = some i) :
    i ∈ ch.connections ∧ (ch.conn i).port = p ∧ (ch.conn i).remoteCandidate.address.eqv addr := by
  have hp := List.find?_some h
  simp only [decide_eq_true_eq] at hp
  exact ⟨List.mem_of_find?_eq_some h, hp⟩

theorem set_same {i : ℕ} {c : Connection} (hport : c.port = (ch.conn i).port)
    (hremote : c.remoteCandidate = (ch.conn i).remoteCandidate) (j : ℕ) :
    ((ch.set i c).conn j).port = (ch.conn j).port ∧
      ((ch.set i c).conn j).remoteCandidate = (ch.conn j).remoteCandidate := by
  by_cases hj : j = i
  · subst hj
    rw [set_conn_self]
    exact ⟨hport, hremote⟩
  · rw [set_conn_of_ne hj]
    exact ⟨rfl, rfl⟩

theorem getConnection_set {i : ℕ} {c : Connection} (hport : c.port = (ch.conn i).port)
    (hremote : c.remoteCandidate = (ch.conn i).remoteCandidate) (p : ℕ) (addr : SocketAddress) :
    (ch.set i c).getConnection p addr = ch.getConnection p addr := by
  refine List.find?_congr fun j _ => ?_
  obtain ⟨h₁, h₂⟩ := set_same hport hremote j
  rw [h₁, h₂]

theorem addConnection_conn_new {c : Connection} : (ch.addConnection c).conn ch.nextConn = c :=
  if_pos rfl

theorem addConnection_conn_of_ne {i : ℕ} {c : Connection} (h : i ≠ ch.nextConn) :
    (ch.addConnection c).conn i = ch.conn i :=
  if_neg h

theorem getConnection_addConnection (hf : ch.Fresh) (c : Connection) (p : ℕ)
    (addr : SocketAddress) :
    (ch.addConnection c).getConnection p addr =
      (ch.getConnection p addr).or
        (if c.port = p ∧ c.remoteCandidate.address.eqv addr then some ch.nextConn else none) := by
  show (ch.connections ++ [ch.nextConn]).find? _ = _
  rw [List.find?_append]
  congr 1
  · refine List.find?_congr fun j hj => ?_
    rw [addConnection_conn_of_ne (hf j hj).ne]
  · rw [List.find?_singleton, addConnection_conn_new]
    simp

/-- What `CreateConnection` does: nothing, a ping on the connection it finds, or
a new connection at the end of the list. -/
theorem createConnection_cases (ch : Channel) (dial : Dial) (now : Word) (q : ℕ) (remote : Candidate)
    (origin : Option ℕ) (readable : Bool) :
    (ch.createConnection dial now q remote origin readable = (false, ch)) ∨
      (∃ i c, ch.getConnection q remote.address = some i ∧
        remote.isEquivalent (ch.conn i).remoteCandidate ∧
        ch.createConnection dial now q remote origin readable = (true, ch.set i c) ∧
        c.port = (ch.conn i).port ∧ c.remoteCandidate = (ch.conn i).remoteCandidate ∧
        (c.readState = .readable → (ch.conn i).readState = .readable ∨ readable)) ∨
      ∃ c, ch.getConnection q remote.address = none ∧ (dial q remote).isSome ∧
        ch.createConnection dial now q remote origin readable = (true, ch.addConnection c) ∧
        c.port = q ∧ c.remoteCandidate = remote ∧ (c.readState = .readable → readable) := by
  rcases hfind : ch.getConnection q remote.address with _ | i <;>
    simp only [createConnection, hfind]
  · split
    · exact .inl rfl
    · rcases hdial : dial q remote with _ | connected
      · exact .inl rfl
      · refine .inr (.inr ⟨_, trivial, rfl, rfl, ?_, ?_, ?_⟩)
        all_goals
          split
          · simp [Connection.new, *]
          · simp [Connection.new]
  · split
    · exact .inl rfl
    · next heqv =>
      refine .inr (.inl ?_)
      rw [Bool.not_eq_true', Bool.not_eq_false] at heqv
      rcases readable with _ | _
      · refine ⟨i, ch.conn i, rfl, heqv, ?_, rfl, rfl, .inl⟩
        have hset : ch.set i (ch.conn i) = ch := by
          rw [set]
          congr
          funext j
          split
          · next hj => rw [hj]
          · rfl
        rw [hset]
        rfl
      · exact ⟨i, _, rfl, heqv, rfl, by simp, by simp, fun _ => .inr rfl⟩

theorem gains_createConnection {dial : Dial} {now : Word} {q : ℕ} {remote : Candidate}
    {origin : Option ℕ} {readable : Bool}
    (hP : readable → ch.Connects dial q remote → ∀ c : Candidate,
      c.address.eqv remote.address → c.username = remote.username → P q c) :
    Gains P ch (ch.createConnection dial now q remote origin readable).2 := by
  rcases createConnection_cases ch dial now q remote origin readable with
    h | ⟨i, c, hfind, heqv, h, hport, hremote, hr⟩ | ⟨c, hfind, hdial, h, hport, hremote, hr⟩ <;>
    rw [h]
  · exact .refl ch
  · refine gains_set hport hremote fun hread => (hr hread).imp id fun hreadable => ?_
    obtain ⟨-, hp, haddr⟩ := getConnection_some hfind
    rw [hp]
    refine hP hreadable ?_ _ haddr (Candidate.isEquivalent_iff.1 heqv).2.2.2.1.symm
    rw [Connects, hfind]
    exact heqv
  · refine ⟨rfl, fun hf i hi => ?_, fun i hi hread => ?_⟩
    · rcases List.mem_append.1 hi with hi | hi
      · exact Nat.lt_succ_of_lt (hf i hi)
      · rw [List.mem_singleton.1 hi]
        exact Nat.lt_succ_self _
    · by_cases hi' : i = ch.nextConn
      · subst hi'
        rw [addConnection_conn_new] at hread ⊢
        rw [hport, hremote]
        refine .inl (hP (hr hread) ?_ _ (by simp) rfl)
        rw [Connects, hfind]
        exact hdial
      · rw [addConnection_conn_of_ne hi'] at hread ⊢
        rcases List.mem_append.1 hi with hi | hi
        · exact .inr ⟨hi, hread, rfl, rfl⟩
        · exact absurd (List.mem_singleton.1 hi) hi'

theorem createConnection_getConnection (dial : Dial) (now : Word) (q : ℕ) (remote : Candidate)
    (origin : Option ℕ) (readable : Bool) (hf : ch.Fresh) {p i : ℕ} {addr : SocketAddress}
    (h : ch.getConnection p addr = some i) :
    (ch.createConnection dial now q remote origin readable).2.getConnection p addr = some i ∧
      ((ch.createConnection dial now q remote origin readable).2.conn i).remoteCandidate =
        (ch.conn i).remoteCandidate := by
  have hi := (getConnection_some h).1
  rcases createConnection_cases ch dial now q remote origin readable with
    he | ⟨j, c, -, -, he, hport, hremote, -⟩ | ⟨c, -, -, he, -⟩ <;> rw [he]
  · exact ⟨h, rfl⟩
  · exact ⟨(getConnection_set hport hremote p addr).trans h, (set_same hport hremote i).2⟩
  · refine ⟨?_, by rw [addConnection_conn_of_ne (hf i hi).ne]⟩
    rw [getConnection_addConnection hf, h]
    rfl

theorem createConnection_ok {dial : Dial} {now : Word} {q : ℕ} {remote : Candidate}
    {origin : Option ℕ} {readable : Bool} (hf : ch.Fresh)
    (h : (ch.createConnection dial now q remote origin readable).1 = true) :
    ∃ i, (ch.createConnection dial now q remote origin readable).2.getConnection q
        remote.address = some i ∧
      ((ch.createConnection dial now q remote origin readable).2.conn i).remoteCandidate.username =
        remote.username := by
  rcases createConnection_cases ch dial now q remote origin readable with
    he | ⟨j, c, hfind, heqv, he, -⟩ | ⟨c, hfind, -, he, hport, hremote, -⟩
  · rw [he] at h
    cases h
  · obtain ⟨h₁, h₂⟩ := createConnection_getConnection dial now q remote origin readable hf hfind
    refine ⟨j, h₁, ?_⟩
    rw [h₂]
    exact (Candidate.isEquivalent_iff.1 heqv).2.2.2.1.symm
  · refine ⟨ch.nextConn, ?_, ?_⟩ <;> rw [he]
    · rw [getConnection_addConnection hf, hfind, Option.none_or, hport, hremote]
      simp
    · rw [addConnection_conn_new, hremote]

theorem connects_of_createConnection {dial : Dial} {now : Word} {q : ℕ} {remote : Candidate}
    {origin : Option ℕ} {readable : Bool} (hf : ch.Fresh) {q' : ℕ}
    (h : (ch.createConnection dial now q remote origin readable).2.Connects dial q' remote) :
    ch.Connects dial q' remote := by
  rcases hfind : ch.getConnection q' remote.address with _ | i
  · -- no connection of the port: it makes one if the port does
    have hiff : ch.Connects dial q' remote ↔ (dial q' remote).isSome := by rw [Connects, hfind]
    rcases createConnection_cases ch dial now q remote origin readable with
      he | ⟨j, c, -, -, he, hport, hremote, -⟩ | ⟨c, -, hdial, he, hport, -⟩ <;> rw [he] at h
    · exact h
    · rw [Connects, getConnection_set hport hremote, hfind] at h
      exact hiff.2 h
    · by_cases hq : q = q'
      · exact hiff.2 (hq ▸ hdial)
      · rw [Connects, getConnection_addConnection hf, hfind, Option.none_or, hport,
          if_neg fun hc => hq hc.1] at h
        exact hiff.2 h
  · obtain ⟨h₁, h₂⟩ := createConnection_getConnection dial now q remote origin readable hf hfind
    rw [Connects, h₁] at h
    rw [Connects, hfind]
    dsimp only at h ⊢
    rwa [h₂] at h

theorem gains_createOn {dial : Dial} {now : Word} {remote : Candidate} {origin : Option ℕ}
    {readable : Bool} {qs : List ℕ} {created : Bool} (hf : ch.Fresh)
    (hP : readable → ∀ q ∈ qs, ch.Connects dial q remote → ∀ c : Candidate,
      c.address.eqv remote.address → c.username = remote.username → P q c) :
    Gains P ch (createOn dial now remote origin readable qs (created, ch)).2 := by
  induction qs generalizing ch created with
  | nil => exact .refl ch
  | cons q qs ih =>
    have hstep : Gains P ch (ch.createConnection dial now q remote origin readable).2 :=
      gains_createConnection fun hr => hP hr q List.mem_cons_self
    refine hstep.trans (ih (hstep.fresh hf) fun hr q' hq' hc => ?_)
    exact hP hr q' (List.mem_cons_of_mem _ hq') (connects_of_createConnection hf hc)

theorem createOn_created {dial : Dial} {now : Word} {remote : Candidate} {p : ℕ}
    {readable : Bool} {qs : List ℕ} {created : Bool} (hf : ch.Fresh)
    (hc : created → ∃ i, ch.getConnection p remote.address = some i ∧
      (ch.conn i).remoteCandidate.username = remote.username)
    (h : (createOn dial now remote (some p) readable qs (created, ch)).1 = true) :
    ∃ i, (createOn dial now remote (some p) readable qs (created, ch)).2.getConnection p
        remote.address = some i ∧
      ((createOn dial now remote (some p) readable qs (created, ch)).2.conn
        i).remoteCandidate.username = remote.username := by
  induction qs generalizing ch created with
  | nil => exact hc h
  | cons q qs ih =>
    have hfresh : (ch.createConnection dial now q remote (some p) readable).2.Fresh :=
      (gains_createConnection (P := fun _ _ => True) fun _ _ _ _ _ => trivial).fresh hf
    refine ih hfresh (fun hcr => ?_) h
    rw [Bool.or_eq_true, Bool.and_eq_true, decide_eq_true_eq] at hcr
    rcases hcr with hcr | ⟨hok, hq⟩
    · obtain ⟨i, hi, hname⟩ := hc hcr
      obtain ⟨h₁, h₂⟩ := createConnection_getConnection dial now q remote (some p) readable hf hi
      exact ⟨i, h₁, (congrArg Candidate.username h₂).trans hname⟩
    · obtain rfl := Option.some.inj hq
      exact createConnection_ok hf hok

theorem connects_of_createOn {dial : Dial} {now : Word} {remote : Candidate} {origin : Option ℕ}
    {readable : Bool} {qs : List ℕ} {created : Bool} (hf : ch.Fresh) {q' : ℕ}
    (h : (createOn dial now remote origin readable qs (created, ch)).2.Connects dial q' remote) :
    ch.Connects dial q' remote := by
  induction qs generalizing ch created with
  | nil => exact h
  | cons q qs ih =>
    have hfresh : (ch.createConnection dial now q remote origin readable).2.Fresh :=
      (gains_createConnection (P := fun _ _ => True) fun _ _ _ _ _ => trivial).fresh hf
    exact connects_of_createConnection hf (ih hfresh h)

theorem gains_rememberRemoteCandidate (remote : Candidate) (origin : Option ℕ) :
    Gains P ch (ch.rememberRemoteCandidate remote origin) := by
  rw [rememberRemoteCandidate]
  split <;> exact .of_subset rfl rfl rfl fun _ => id

/-- **`CreateConnections`**: only connections from ports that connect to the
candidate become readable, and only when it answers a ping. -/
theorem gains_createConnections {dial : Dial} {now : Word} {remote : Candidate}
    {origin : Option ℕ} {readable : Bool} (hf : ch.Fresh)
    (hP : readable → ∀ q, q ∈ ch.ports ∨ origin = some q → ch.Connects dial q remote →
      ∀ c : Candidate, c.address.eqv remote.address → c.username = remote.username → P q c) :
    Gains P ch (ch.createConnections dial now remote origin readable).2 := by
  have hloop : Gains P ch (createOn dial now remote origin readable ch.ports.reverse
      (false, ch)).2 :=
    gains_createOn hf fun hr q hq => hP hr q (.inl (List.mem_reverse.1 hq))
  rw [createConnections]
  refine Gains.trans ?_ (gains_rememberRemoteCandidate _ _)
  rcases origin with _ | p
  · exact hloop
  · dsimp only
    split
    · exact hloop
    · refine hloop.trans (gains_createOn (hloop.fresh hf) fun hr q hq hc => ?_)
      rw [List.mem_singleton.1 hq] at hc ⊢
      exact hP hr p (.inr rfl) (connects_of_createOn hf hc)

theorem createConnections_created {dial : Dial} {now : Word} {remote : Candidate} {p : ℕ}
    {readable : Bool} (hf : ch.Fresh)
    (h : (ch.createConnections dial now remote (some p) readable).1 = true) :
    ∃ i, (ch.createConnections dial now remote (some p) readable).2.getConnection p
        remote.address = some i ∧
      ((ch.createConnections dial now remote (some p) readable).2.conn
        i).remoteCandidate.username = remote.username := by
  have hremember : ∀ ch : Channel,
      (ch.rememberRemoteCandidate remote (some p)).conn = ch.conn ∧
        (ch.rememberRemoteCandidate remote (some p)).connections = ch.connections := by
    intro ch
    rw [rememberRemoteCandidate]
    split <;> exact ⟨rfl, rfl⟩
  have hloop : (createOn dial now remote (some p) readable ch.ports.reverse (false, ch)).1 = true →
      ∃ i, (createOn dial now remote (some p) readable ch.ports.reverse (false, ch)).2.getConnection
        p remote.address = some i ∧
      ((createOn dial now remote (some p) readable ch.ports.reverse (false, ch)).2.conn
        i).remoteCandidate.username = remote.username := createOn_created hf (by simp)
  have hfresh : (createOn dial now remote (some p) readable ch.ports.reverse (false, ch)).2.Fresh :=
    (gains_createOn (P := fun _ _ => True) hf fun _ _ _ _ _ _ _ => trivial).fresh hf
  rw [createConnections] at h ⊢
  simp only [getConnection, (hremember _).1, (hremember _).2] at h ⊢
  split at h
  · next hp =>
    rw [if_pos hp]
    exact hloop h
  · next hp =>
    rw [if_neg hp]
    exact createOn_created hfresh (fun hc => hloop hc) h

/-! ### Events of the channel -/

theorem gains_createFrom {dial : Dial} {now : Word} {p : ℕ} {rcs : List RemoteCandidate} :
    Gains P ch (createFrom dial now p rcs ch) := by
  induction rcs generalizing ch with
  | nil => exact .refl ch
  | cons rc rcs ih => exact (gains_createConnection (by simp)).trans ih

theorem gains_onPortReady (dial : Dial) (now : Word) (p : ℕ) :
    Gains P ch (ch.onPortReady dial now p) := by
  rw [onPortReady]
  refine Gains.trans ?_ (gains_sortConnections now)
  have hports : Gains P ch { ch with ports := ch.ports ++ [p] } :=
    .of_subset rfl rfl rfl fun _ => id
  exact hports.trans gains_createFrom

theorem gains_onCandidate (hf : ch.Fresh) (dial : Dial) (now : Word) (remote : Candidate) :
    Gains P ch (ch.onCandidate dial now remote) :=
  (gains_createConnections hf (by simp)).trans (gains_sortConnections now)

theorem gains_onPing (id : List Byte) (now : Word) : Gains P ch (ch.onPing id now) := by
  have hupdate : Gains P ch (ch.updateConnectionStates now) :=
    gains_mapConnections fun _ c => c.quiet_updateState now
  rw [onPing]
  split
  · exact hupdate
  · exact hupdate.trans (gains_set_quiet ⟨rfl, rfl, fun h => h⟩)

theorem gains_onSignalingReady : Gains P ch ch.onSignalingReady := by
  rw [onSignalingReady]
  split <;> exact .of_subset rfl rfl rfl fun _ => id

/-- **`OnUnknownAddress`**: the connections that become readable are those of the
port itself and of the other ports that connect to the address. -/
theorem gains_onUnknownAddress (hf : ch.Fresh) (dial : Dial) (now : Word) (p : ℕ)
    (addr : SocketAddress) (request : StunMessage) (remoteUsername : List Byte)
    (hP : ∀ q, (q = p ∨ q ∈ ch.ports ∧ ∃ remote, ch.knownAs remoteUsername addr = some remote ∧
        ch.Connects dial q remote) →
      ∀ c : Candidate, c.address.eqv addr → c.username = remoteUsername → P q c) :
    Gains P ch (ch.onUnknownAddress dial now p addr request remoteUsername).1 := by
  rw [onUnknownAddress]
  rcases hknown : ch.knownAs remoteUsername addr with _ | remote
  · exact .refl ch
  · obtain ⟨haddr, hname⟩ : remote.address = addr ∧ remote.username = remoteUsername := by
      rw [knownAs, Option.map_eq_some_iff] at hknown
      obtain ⟨rc, hrc, rfl⟩ := hknown
      exact ⟨rfl, by simpa using List.find?_some hrc⟩
    have hmake : Gains P ch (ch.createConnections dial now remote (some p) true).2 := by
      refine gains_createConnections hf fun _ q hq hc c hca hcn => ?_
      rw [haddr] at hca
      rw [hname] at hcn
      refine hP q ?_ c hca hcn
      rcases hq with hq | hq
      · exact .inr ⟨hq, remote, hknown, hc⟩
      · exact .inl (Option.some.inj hq).symm
    dsimp only
    split
    · next hcreated =>
      refine hmake.trans (Gains.trans ?_ (gains_sortConnections now))
      obtain ⟨i, hi, hin⟩ := createConnections_created hf hcreated
      rw [haddr] at hi
      rw [sendBindingResponse]
      split
      · exact .refl _
      · rw [hi]
        obtain ⟨-, hport, hia⟩ := getConnection_some hi
        refine gains_set (by simp) (by simp) fun _ => .inr ?_
        rw [hport]
        exact hP p (.inl rfl) _ hia (hin.trans hname)
    · exact hmake

end Channel

/-! ### Runs -/

namespace World

variable {w w' : World}

theorem Pinged.mono {p : ℕ} {addr : SocketAddress} {name : List Byte} (h : w.Pinged p addr name)
    (hport : w'.ch.port = w.ch.port) (hsub : w.received ⊆ w'.received) :
    w'.Pinged p addr name := by
  obtain ⟨from_, data, msg, hmem, haddr, hread, htype, hname⟩ := h
  exact ⟨from_, data, msg, hsub hmem, haddr, hread, htype, by rw [hport, hname]⟩

theorem Pinged.eqv {p : ℕ} {addr addr' : SocketAddress} {name : List Byte}
    (h : w.Pinged p addr name) (haddr : addr.eqv addr') : w.Pinged p addr' name := by
  obtain ⟨from_, data, msg, hmem, ha, h'⟩ := h
  exact ⟨from_, data, msg, hmem, SocketAddress.eqv_trans ha haddr, h'⟩

/-- What a packet has earned. -/
abbrev Allowed (w : World) (q : ℕ) (c : Candidate) : Prop := w.Pinged q c.address c.username

theorem Earned.of_gains (h : w.Earned) (hg : Channel.Gains w'.Allowed w.ch w'.ch)
    (hsub : w.received ⊆ w'.received) : w'.Earned := by
  intro i hi hr
  rcases hg.readable i hi hr with hp | ⟨hi', hr', hport, hremote⟩
  · exact hp
  · rw [hport, hremote]
    exact (h i hi' hr').mono hg.port hsub

theorem gains_act (hf : w.ch.Fresh) {e : Event} (hm : w.Meets e) :
    Channel.Gains (w.act e).Allowed w.ch (w.act e).ch := by
  have onConnection : ∀ (i : ℕ) (f : Connection → Connection) (P : ℕ → Candidate → Prop),
      (∀ c, Connection.Quiet c (f c)) → Channel.Gains P w.ch (w.onConnection i f).ch := by
    intro i f P h
    rw [World.onConnection]
    split
    · exact Channel.gains_set_quiet (h _)
    · exact .refl _
  cases e with
  | portReady dial now p => exact Channel.gains_onPortReady dial now p
  | candidate dial now remote => exact Channel.gains_onCandidate hf dial now remote
  | connectionPacket now i data =>
    rw [act]
    split
    · next hi =>
      obtain ⟨hport, hremote, hr⟩ := (w.ch.conn i).onReadPacket_cases
        (w.ch.port (w.ch.conn i).port).usernameFragment data now
      refine Channel.gains_set hport hremote fun hread => (hr hread).imp id ?_
      rintro ⟨msg, hmsg, htype, hname⟩
      exact ⟨_, data, msg, List.mem_append_right _ List.mem_cons_self, by simp, hmsg, htype, hname⟩
    · exact .refl _
  | portPacket dial now p addr data =>
    show Channel.Gains _ w.ch (w.ch.onPortPacket dial now p addr data).1
    rw [Channel.onPortPacket]
    rcases hmsg : getStunMessage (w.ch.port p).usernameFragment data with _ | reply | ⟨msg, user⟩
    · exact .refl _
    · exact .refl _
    · dsimp only
      split
      · next htype =>
        have hport : (w.act (.portPacket dial now p addr data)).ch.port = w.ch.port := by
          refine Channel.Gains.port (P := fun _ _ => True) ?_
          show Channel.Gains _ w.ch (w.ch.onPortPacket dial now p addr data).1
          rw [Channel.onPortPacket, hmsg]
          dsimp only
          rw [if_pos htype]
          exact Channel.gains_onUnknownAddress hf dial now p addr msg user
            fun _ _ _ _ _ => trivial
        refine Channel.gains_onUnknownAddress hf dial now p addr msg user
          fun q hq c hca hcn => ?_
        have hearned : (w.act (.portPacket dial now p addr data)).Pinged q addr user := by
          by_cases hqp : q = p
          · obtain ⟨hread, hname⟩ := getStunMessage_request hmsg htype
            subst hqp
            exact ⟨addr, data, msg, List.mem_append_right _ List.mem_cons_self, by simp, hread,
              htype, by rw [hport, hname]⟩
          · obtain ⟨hmem, remote, hknown, hconn⟩ := hq.resolve_left hqp
            exact (hm msg user remote hmsg htype hknown q hmem hqp hconn).mono hport
              (List.subset_append_left _ _)
        rw [Allowed, hcn]
        exact hearned.eqv (SocketAddress.eqv_symm hca)
      · exact .refl _
  | sort now => exact Channel.gains_sortConnections now
  | ping id now => exact Channel.gains_onPing id now
  | allocate => exact .of_subset rfl rfl rfl fun _ => id
  | requestMessage i id now => exact onConnection i _ _ fun c => c.quiet_onRequestMessage id now
  | connect i => exact onConnection i _ _ fun c => ⟨rfl, rfl, fun h => h⟩
  | close i => exact onConnection i _ _ fun c => c.quiet_onClose
  | destroy i => exact onConnection i _ _ fun c => c.quiet_destroy
  | deleted i => exact .of_subset rfl rfl rfl fun _ hj => List.mem_of_mem_erase hj
  | portDestroyed p => exact .of_subset rfl rfl rfl fun _ => id
  | signalingReady => exact Channel.gains_onSignalingReady
  | reset b => exact .of_subset rfl rfl rfl (List.nil_subset _)

theorem received_subset_act (w : World) (e : Event) : w.received ⊆ (w.act e).received := by
  have onConnection : ∀ (i : ℕ) (f : Connection → Connection),
      w.received ⊆ (w.onConnection i f).received := by
    intro i f
    rw [World.onConnection]
    split <;> exact fun _ => id
  cases e with
  | connectionPacket now i data =>
    rw [act]
    split
    · exact List.subset_append_left _ _
    · exact fun _ => id
  | portPacket dial now p addr data => exact List.subset_append_left _ _
  | requestMessage i id now => exact onConnection i _
  | connect i => exact onConnection i _
  | close i => exact onConnection i _
  | destroy i => exact onConnection i _
  | _ => exact fun _ => id

/-- A channel before it has ports. -/
def Start (w : World) : Prop :=
  (∃ port conn incomingOnly, w.ch = Channel.new port conn incomingOnly) ∧ w.received = []

/-- One event under the condition. -/
def Next (w w' : World) : Prop := ∃ e, w.Meets e ∧ w' = w.act e

/-- **Readability is earned** in every run in which no ping from an unknown
address reaches the connections of other ports. -/
theorem readable_earned : ∀ w, Reach Start Next w → w.Earned := by
  intro w hw
  have hinv : w.Earned ∧ w.ch.Fresh := by
    refine Reach.invariant (I := fun w => w.Earned ∧ w.ch.Fresh) ?_ ?_ w hw
    · rintro w ⟨⟨port, conn, incomingOnly, hch⟩, -⟩
      rw [Earned, Channel.Fresh, hch]
      exact ⟨fun i hi => absurd hi (List.not_mem_nil), fun i hi => absurd hi (List.not_mem_nil)⟩
    · rintro w _ - ⟨he, hf⟩ ⟨e, hm, rfl⟩
      have hg := gains_act hf hm
      exact ⟨he.of_gains hg (w.received_subset_act e), hg.fresh hf⟩
  exact hinv.1

/-! ### A connection that was never pinged -/

/-- A candidate of the other side, known by the username of its pings. -/
def offered : Candidate where
  name := textBytes "rtp"
  protocol := textBytes "udp"
  address := { hostname := [], ip := 0x0A000001, port := 5000 }
  preference := 1
  username := textBytes "peer"
  password := []
  type := textBytes "local"
  networkName := []
  generation := 0

/-- The address from which the other side's packets really come. -/
def mapped : SocketAddress := { hostname := [], ip := 0x01020304, port := 6000 }

/-- A ping for the port with fragment `port`. -/
def firstPing : List Byte :=
  (bindingRequest (textBytes "012345678901") (textBytes "port") (textBytes "peer")).write

/-- Two ports on two networks; the second has another fragment. -/
def twoPorts (p : ℕ) : Port where
  usernameFragment := if p = 0 then textBytes "port" else textBytes "next"
  preference := 1
  generation := 0
  network := p

/-- A channel that has no port yet. -/
def beforePorts : World where
  ch := Channel.new twoPorts (fun _ => Connection.new 0 offered true) false
  received := []

/-- No port makes a connection. -/
def silent : Dial := fun _ _ => none

/-- Both ports are ready and the candidate is known; neither port calls it. -/
def ready : World :=
  ((beforePorts.act (.portReady silent 0 0)).act (.portReady silent 0 1)).act
    (.candidate silent 0 offered)

/-- The first port receives the ping from the new address and only it connects there. -/
theorem readable_earned_alone :
    (ready.act (.portPacket (fun p _ => if p = 0 then some true else none) 1 0 mapped
      firstPing)).Earned := by
  refine readable_earned _ (.step (.step (.step (.step (.init ⟨⟨_, _, _, rfl⟩, rfl⟩)
    ⟨.portReady silent 0 0, trivial, rfl⟩) ⟨.portReady silent 0 1, trivial, rfl⟩)
    ⟨.candidate silent 0 offered, trivial, rfl⟩) ⟨_, ?_, rfl⟩)
  intro msg user remote _ _ hknown q _ hq hconn
  have hnone : ready.ch.getConnection q remote.address = none := by
    have hlist : ready.ch.connections = [] := by decide
    rw [Channel.getConnection, hlist]
    rfl
  have hfalse : ¬ready.ch.Connects (fun p _ => if p = 0 then some true else none) q remote := by
    rw [Channel.Connects, hnone, if_neg hq]
    simp
  exact absurd hconn hfalse

/-- **A connection that was never pinged is readable**: the ping is received by
port 0, and the connection of port 1 becomes readable with it. -/
theorem readable_unearned :
    ¬∀ w, Reach Start (fun w w' => ∃ e, w' = w.act e) w → w.Earned := by
  intro h
  have hw := h (ready.act (.portPacket (fun _ _ => some true) 1 0 mapped firstPing))
    (.step (.step (.step (.step (.init ⟨⟨_, _, _, rfl⟩, rfl⟩) ⟨.portReady silent 0 0, rfl⟩)
      ⟨.portReady silent 0 1, rfl⟩) ⟨.candidate silent 0 offered, rfl⟩) ⟨_, rfl⟩)
  obtain ⟨from_, data, msg, hmem, -⟩ := hw 0 (by decide +kernel) (by decide +kernel)
  have hport : ((ready.act (.portPacket (fun _ _ => some true) 1 0 mapped firstPing)).ch.conn
    0).port = 1 := by decide +kernel
  rw [hport] at hmem
  have hlog : (ready.act (.portPacket (fun _ _ => some true) 1 0 mapped firstPing)).received =
    [(0, mapped, firstPing)] := rfl
  rw [hlog, List.mem_singleton] at hmem
  exact Nat.one_ne_zero (congrArg Prod.fst hmem)

end World

end Jingle.P2p
