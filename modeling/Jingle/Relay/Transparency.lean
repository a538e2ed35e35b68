/-
A relay client and a relay server on one network.

The packets that were sent are kept for ever, so that a run can deliver each of
them at any time, again, or never.  A packet to the client is kept with its
cause, the payload and the host it was sent on for.

`Joined` is what holds in every run: the server's connections of a client's
socket, and the requests on their way to it, are aimed at the address of the
socket's entry.  Its one enemy are the client's own packets: an unwrapped packet
can be a send request itself.  The step condition `Act.Clean` leaves out those
that would aim a connection elsewhere.
-/
import Jingle.Relay.Isolation
import Jingle.Relay.Wire

namespace Jingle.Relay

/-- A packet that the server sends; `cause` is the payload and the host of the
external packet it is sent for. -/
structure Downstream where
  dest : SocketAddress
  bytes : List Byte
  cause : Option (List Byte × SocketAddress)

/-- The client, the server and all packets between them. -/
structure System where
  server : Server
  port : RelayPort
  upstream : List Upstream
  downstream : List Downstream

/-- The packets among the outputs of the server. -/
def packets (cause : Option (List Byte × SocketAddress)) (log : List Output) : List Downstream :=
  log.filterMap fun
    | .sent _ dest bytes => some { dest, bytes, cause }
    | .fault _ => none

/-- What can happen. -/
inductive Act
  /-- The application sends a packet. -/
  | send (id data : List Byte) (addr : SocketAddress) (payload : Bool)
      (socket : Option SocketAddress)
  /-- An entry sends an allocate request. -/
  | allocate (i : ℕ) (id : List Byte)
  /-- An entry connects, or does so again after a failure. -/
  | connect (i : ℕ) (socket : Option SocketAddress)
  /-- A packet of the client arrives at a socket of the server. -/
  | arrive (u : Upstream) (socket : SocketAddress)
  /-- A host sends a packet to an external socket. -/
  | external (socket host : SocketAddress) (bytes : List Byte)
  /-- Any other event of the server. -/
  | other (e : Event)
  /-- An entry reads a packet of the server. -/
  | read (d : Downstream) (i : ℕ)

namespace System

variable (s : System)

/-- An event of the server. -/
def serve (env : Env) (e : Event) (cause : Option (List Byte × SocketAddress)) : System :=
  let server := step env e s.server
  { s with server, downstream := s.downstream ++ packets cause server.log }

/-- Change an entry of the client. -/
def modifyEntry (i : ℕ) (f : RelayEntry → RelayEntry) : System :=
  { s with port := { s.port with entries := s.port.entries.modify i f } }

/-- What an action does. -/
def next (env : Env) : Act → System
  | .send id data addr payload socket =>
    let r := s.port.sendTo id data addr payload socket
    { s with port := r.1, upstream := s.upstream ++ r.2 }
  | .allocate i id =>
    match s.port.entries[i]? with
    | none => s
    | some e =>
      let r := e.sendAllocateRequest s.port.username id
      { s.modifyEntry i fun _ => r.1 with upstream := s.upstream ++ r.2 }
  | .connect i socket => s.modifyEntry i fun e => e.connect socket
  | .arrive u socket => s.serve env (.internalPacket socket u.source u.bytes) none
  | .external socket host bytes =>
    s.serve env (.externalPacket socket host bytes) (some (bytes, host))
  | .other e => s.serve env e none
  | .read d i => s.modifyEntry i fun e => (e.onReadPacket d.bytes).1

/-- An address that nobody has used. -/
structure Unused (L : SocketAddress) : Prop where
  entry : ∀ e ∈ s.port.entries, e.socket ≠ some L
  up : ∀ u ∈ s.upstream, u.source ≠ L
  down : ∀ d ∈ s.downstream, d.dest ≠ L
  conn : ∀ c cn, s.server.view.conn c = some cn → cn.addrPair.source ≠ L

end System

/-- The actions that can happen: a new socket has an address that is not in use, a
transaction id has twelve bytes, a packet arrives that was sent, at a socket
of the server that is not an external one, and other clients have other addresses. -/
def Act.Enabled (s : System) : Act → Prop
  | .send id _ _ _ socket =>
    id.length = kStunTransactionIdLength ∧ ∀ L, socket = some L → s.Unused L
  | .allocate _ id => id.length = kStunTransactionIdLength
  | .connect _ socket => ∀ L, socket = some L → s.Unused L
  | .arrive u socket => u ∈ s.upstream ∧ socket ∉ s.server.externalSockets
  | .external socket host bytes =>
    socket ∈ s.server.externalSockets ∧ host.isAny = false ∧ bytes.length ≤ maxPayload
  | .other e => e.Enabled s.server ∧
    match e with
    | .internalPacket _ remote _ => ∀ en ∈ s.port.entries, en.socket ≠ some remote
    | .externalPacket _ _ _ => False
    | _ => True
  | .read d i => d ∈ s.downstream ∧ ∃ e, s.port.entries[i]? = some e ∧ e.socket = some d.dest

/-- The addresses that a connection from a socket may be aimed at: the address of the
entry with that socket, or none. -/
def RelayPort.Allows (p : RelayPort) (L addr : SocketAddress) : Prop :=
  ∀ e ∈ p.entries, e.socket = some L → addr = e.extAddr ∨ addr.isAny = true

/-- A packet that the client sends unwrapped is not a request that aims its own
connection at another address, and a host's packet that the client gets unwrapped is
not a data indication. -/
def Act.Clean (s : System) : Act → Prop
  | .arrive u socket => u.raw = true → hasMagicCookie u.bytes = true →
    ∀ c cn r dest data,
      s.server.view.connections { source := u.source, dest := socket } = some c →
      s.server.view.conn c = some cn → s.server.view.roster cn.binding = some r →
      sendRequest r.username u.bytes = some (dest, data, true) → s.port.Allows u.source dest
  | .read d _ => ∀ bytes host, d.cause = some (bytes, host) → d.bytes = bytes →
    hasMagicCookie bytes = true → unwrapped bytes = none
  | _ => True

/-- The states of the two before anything is sent. -/
def System.IsStart (s : System) : Prop :=
  Relay.IsStart s.server ∧ (∃ username, s.port = .new username) ∧ s.upstream = [] ∧ s.downstream = []

def System.Next (ok : System → Act → Prop) (s t : System) : Prop :=
  ∃ env a, a.Enabled s ∧ ok s a ∧ t = s.next env a

def System.Reachable (ok : System → Act → Prop) : System → Prop :=
  Reach System.IsStart (System.Next ok)

/-! ### The invariant -/

/-- Different entries have different sockets. -/
def Apart (entries : List RelayEntry) : Prop :=
  ∀ (i j : ℕ) (e e' : RelayEntry) (L : SocketAddress), entries[i]? = some e →
    entries[j]? = some e' → e.socket = some L → e'.socket = some L → i = j

/-- What a packet to the client carries. -/
def Downstream.Carries (p : RelayPort) (d : Downstream) : Prop :=
  ∀ bytes host, d.cause = some (bytes, host) → host.isAny = false ∧ bytes.length ≤ maxPayload ∧
    ((d.bytes = bytes ∧ p.Allows d.dest host) ∨ d.bytes = (dataIndication bytes host).write)

/-- The client and the server fit. -/
structure Joined (s : System) : Prop where
  sound : s.server.view.Sound
  apart : Apart s.port.entries
  aimed : ∀ c cn, s.server.view.conn c = some cn →
    s.port.Allows cn.addrPair.source cn.defaultDest
  asked : ∀ u ∈ s.upstream, u.raw = false → ∀ name dest data,
    sendRequest name u.bytes = some (dest, data, true) → s.port.Allows u.source dest
  carries : ∀ d ∈ s.downstream, d.Carries s.port

/-! ### Changes of the client -/

variable {p q : RelayPort} {s : System}

/-- Every entry with a socket had it before, with the same address or none, or the
socket is a new one. -/
def Follows (p q : RelayPort) (new : Option SocketAddress) : Prop :=
  ∀ e ∈ q.entries, ∀ L, e.socket = some L → new = some L ∨
    ∃ old ∈ p.entries, old.socket = some L ∧ (e.extAddr = old.extAddr ∨ old.extAddr.isAny = true)

theorem Follows.allows {new : Option SocketAddress} (h : Follows p q new) {L addr : SocketAddress}
    (hp : p.Allows L addr) (hL : new ≠ some L) : q.Allows L addr := by
  intro e he hs
  obtain hnew | ⟨old, hold, hos, hext⟩ := h e he L hs
  · exact absurd hnew hL
  rcases hp old hold hos with haddr | hany
  · rcases hext with hext | hany
    · exact .inl (haddr.trans hext.symm)
    · exact .inr (haddr ▸ hany)
  · exact .inr hany

theorem Joined.client (h : Joined s) {new : Option SocketAddress} (hf : Follows s.port q new)
    (hnew : ∀ L, new = some L → s.Unused L) (hq : Apart q.entries)
    (sent : List Upstream)
    (hsent : ∀ u ∈ sent, u.raw = false → ∀ name dest data,
      sendRequest name u.bytes = some (dest, data, true) → q.Allows u.source dest) :
    Joined { s with port := q, upstream := s.upstream ++ sent } where
  sound := h.sound
  apart := hq
  aimed c cn hcn := hf.allows (h.aimed c cn hcn) fun hL => (hnew _ hL).conn c cn hcn rfl
  asked u hu hraw name dest data hreq := by
    rcases List.mem_append.mp hu with hu | hu
    · exact hf.allows (h.asked u hu hraw name dest data hreq) fun hL => (hnew _ hL).up u hu rfl
    · exact hsent u hu hraw name dest data hreq
  carries d hd bytes host hc := by
    obtain ⟨hany, hlen, hcase⟩ := h.carries d hd bytes host hc
    refine ⟨hany, hlen, ?_⟩
    rcases hcase with ⟨hb, hallow⟩ | hb
    · exact .inl ⟨hb, hf.allows hallow fun hL => (hnew _ hL).down d hd rfl⟩
    · exact .inr hb

theorem getElem?_modify_cases {entries : List RelayEntry} {k i : ℕ} {f : RelayEntry → RelayEntry}
    {e : RelayEntry} (h : (entries.modify k f)[i]? = some e) :
    (k ≠ i ∧ entries[i]? = some e) ∨ ∃ old, entries[i]? = some old ∧ k = i ∧ e = f old := by
  rw [List.getElem?_modify] at h
  obtain ⟨old, hold, rfl⟩ := Option.map_eq_some_iff.mp h
  by_cases hk : k = i
  · exact .inr ⟨old, hold, hk, by rw [if_pos hk]⟩
  · exact .inl ⟨hk, by rw [if_neg hk]; exact hold⟩

/-- What an entry may become: it keeps its socket or gets the new one, and keeps its
address or had none. -/
structure Becomes (new : Option SocketAddress) (old e : RelayEntry) : Prop where
  socket : e.socket = old.socket ∨ e.socket = new
  extAddr : e.extAddr = old.extAddr ∨ old.extAddr.isAny = true

theorem Apart.modify {entries : List RelayEntry} (h : Apart entries) {k : ℕ}
    {f : RelayEntry → RelayEntry} {new : Option SocketAddress}
    (hf : ∀ e, entries[k]? = some e → Becomes new e (f e))
    (hnew : ∀ L, new = some L → ∀ e ∈ entries, e.socket ≠ some L) :
    Apart (entries.modify k f) := by
  intro i j e e' L hi hj he he'
  rcases getElem?_modify_cases hi with ⟨hki, hi⟩ | ⟨old, ho, rfl, rfl⟩
  · rcases getElem?_modify_cases hj with ⟨hkj, hj⟩ | ⟨old', ho', rfl, rfl⟩
    · exact h i j e e' L hi hj he he'
    · rcases (hf old' ho').socket with hs | hs
      · exact h i k e old' L hi ho' he (hs.symm.trans he')
      · exact absurd he (hnew L (hs.symm.trans he') e (List.mem_of_getElem? hi))
  · rcases getElem?_modify_cases hj with ⟨hkj, hj⟩ | ⟨old', ho', rfl, rfl⟩
    · rcases (hf old ho).socket with hs | hs
      · exact h k j old e' L ho hj (hs.symm.trans he) he'
      · exact absurd he' (hnew L (hs.symm.trans he) e' (List.mem_of_getElem? hj))
    · rfl

theorem Apart.append {entries : List RelayEntry} (h : Apart entries) {e : RelayEntry}
    (hnew : ∀ L, e.socket = some L → ∀ e ∈ entries, e.socket ≠ some L) :
    Apart (entries ++ [e]) := by
  intro i j e₁ e₂ L hi hj he he'
  rw [List.getElem?_append] at hi hj
  split at hi <;> rename_i hil <;> split at hj <;> rename_i hjl
  · exact h i j e₁ e₂ L hi hj he he'
  · obtain rfl := List.mem_singleton.mp (List.mem_of_getElem? hj)
    exact absurd he (hnew L he' e₁ (List.mem_of_getElem? hi))
  · obtain rfl := List.mem_singleton.mp (List.mem_of_getElem? hi)
    exact absurd he' (hnew L he e₂ (List.mem_of_getElem? hj))
  · have hi' := (List.getElem?_eq_some_iff.mp hi).1
    have hj' := (List.getElem?_eq_some_iff.mp hj).1
    simp only [List.length_singleton] at hi' hj'
    omega

theorem follows_modify {k : ℕ} {f : RelayEntry → RelayEntry} {new : Option SocketAddress}
    (hf : ∀ e, p.entries[k]? = some e → Becomes new e (f e)) :
    Follows p { p with entries := p.entries.modify k f } new := by
  intro e he L hL
  obtain ⟨i, hi⟩ := List.mem_iff_getElem?.mp he
  rcases getElem?_modify_cases hi with ⟨-, hi⟩ | ⟨old, ho, rfl, rfl⟩
  · exact .inr ⟨e, List.mem_of_getElem? hi, hL, .inl rfl⟩
  · obtain ⟨hs, hext⟩ := hf old ho
    rcases hs with hs | hs
    · exact .inr ⟨old, List.mem_of_getElem? ho, hs.symm.trans hL, hext⟩
    · exact .inl (hs.symm.trans hL)

/-! ### What an entry becomes -/

theorem Becomes.refl (new : Option SocketAddress) (e : RelayEntry) : Becomes new e e :=
  ⟨.inl rfl, .inl rfl⟩

theorem becomes_connect (e : RelayEntry) (socket : Option SocketAddress) :
    Becomes socket e (e.connect socket) := by
  rw [RelayEntry.connect]
  split
  · exact .refl _ e
  · exact ⟨.inr rfl, .inl rfl⟩

theorem checkResponse_keeps (e : RelayEntry) (msg : StunMessage) :
    (e.checkResponse msg).1.socket = e.socket ∧ (e.checkResponse msg).1.extAddr = e.extAddr := by
  unfold RelayEntry.checkResponse
  split
  · exact ⟨rfl, rfl⟩
  · dsimp only
    split
    · unfold RelayEntry.onResponse
      split
      · exact ⟨rfl, rfl⟩
      · split <;> exact ⟨rfl, rfl⟩
    · split <;> exact ⟨rfl, rfl⟩

theorem becomes_onReadPacket (e : RelayEntry) (bytes : List Byte) (new : Option SocketAddress) :
    Becomes new e (e.onReadPacket bytes).1 := by
  unfold RelayEntry.onReadPacket
  split
  · split <;> exact .refl _ e
  split
  · exact .refl _ e
  rename_i msg _ _
  obtain ⟨hs, ha⟩ := checkResponse_keeps e msg
  split
  · rename_i hr
    rw [hr] at hs ha
    exact ⟨.inl hs, .inl ha⟩
  · rename_i hr
    rw [hr] at hs ha
    split
    · split
      · exact ⟨.inl hs, .inl ha⟩
      · split <;> exact ⟨.inl hs, .inl ha⟩
    · split <;> exact ⟨.inl hs, .inl ha⟩

theorem becomes_sendAllocateRequest (e : RelayEntry) (username id : List Byte)
    (new : Option SocketAddress) : Becomes new e (e.sendAllocateRequest username id).1 := by
  rw [RelayEntry.sendAllocateRequest]
  split <;> exact ⟨.inl rfl, .inl rfl⟩

theorem becomes_assign (addr : SocketAddress) (payload : Bool) (e : RelayEntry)
    (new : Option SocketAddress) : Becomes new e (RelayPort.assign addr payload e) := by
  rw [RelayPort.assign]
  split
  · rename_i h
    exact ⟨.inl rfl, .inr (Bool.and_eq_true_iff.mp h).1⟩
  · exact .refl _ e

/-! ### What an entry sends -/

theorem sendPacket_mem {e : RelayEntry} {bytes : List Byte} {raw : Bool} {u : Upstream}
    (h : u ∈ e.sendPacket bytes raw) :
    e.socket = some u.source ∧ u.bytes = bytes ∧ u.raw = raw ∧ bytes.length ≤ maxPacketSize := by
  rw [RelayEntry.sendPacket] at h
  split at h
  · exact absurd h (by simp)
  rename_i source hs
  split at h
  · rename_i hle
    rw [List.mem_singleton.mp h]
    exact ⟨hs, rfl, rfl, hle⟩
  · exact absurd h (by simp)

theorem sendTo_asks {e : RelayEntry} {username id data : List Byte} {addr : SocketAddress}
    (hid : id.length = kStunTransactionIdLength) {u : Upstream}
    (h : u ∈ e.sendTo username id data addr) (hraw : u.raw = false) {name : List Byte}
    {dest : SocketAddress} {sent : List Byte}
    (hreq : sendRequest name u.bytes = some (dest, sent, true)) :
    e.socket = some u.source ∧ dest = e.extAddr := by
  rw [RelayEntry.sendTo] at h
  split at h
  · obtain ⟨-, -, hr, -⟩ := sendPacket_mem h
    exact absurd (hr.symm.trans hraw) (by simp)
  · obtain ⟨hs, hb, -, hlen⟩ := sendPacket_mem h
    rw [hb] at hreq
    obtain ⟨hdest, hlock⟩ := sendRequest_sendMessage hid hlen hreq
    exact ⟨hs, hdest.trans (of_decide_eq_true hlock).symm⟩

theorem Apart.allows {entries : List RelayEntry} {username : List Byte} (h : Apart entries)
    {e : RelayEntry} (he : e ∈ entries) {L : SocketAddress} (hs : e.socket = some L) :
    RelayPort.Allows ⟨username, entries⟩ L e.extAddr := by
  intro e' he' hs'
  obtain ⟨i, hi⟩ := List.mem_iff_getElem?.mp he
  obtain ⟨j, hj⟩ := List.mem_iff_getElem?.mp he'
  obtain rfl := h i j e e' L hi hj hs hs'
  obtain rfl := Option.some.inj (hi.symm.trans hj)
  exact .inl rfl

theorem usable_mem {i : Option ℕ} {e : RelayEntry} (h : p.usable i = some e) : e ∈ p.entries := by
  rw [RelayPort.usable] at h
  split at h
  · rename_i e' he'
    obtain rfl := Option.some.inj h
    obtain ⟨hbind, -⟩ := Option.filter_eq_some_iff.mp he'
    obtain ⟨k, -, hk⟩ := Option.bind_eq_some_iff.mp hbind
    exact List.mem_of_getElem? hk
  · obtain ⟨hhead, -⟩ := Option.filter_eq_some_iff.mp h
    exact List.mem_of_mem_head? hhead

/-! ### Actions of the client -/

theorem Joined.modifyEntry (h : Joined s) {k : ℕ} {f : RelayEntry → RelayEntry}
    {new : Option SocketAddress} (hf : ∀ e, s.port.entries[k]? = some e → Becomes new e (f e))
    (hnew : ∀ L, new = some L → s.Unused L) (sent : List Upstream)
    (hsent : ∀ u ∈ sent, ∀ name, sendRequest name u.bytes = none) :
    Joined { s.modifyEntry k f with upstream := s.upstream ++ sent } :=
  h.client (follows_modify hf) hnew
    (h.apart.modify hf fun L hL => (hnew L hL).entry) sent
    fun u hu _ name dest data hreq => absurd hreq (by rw [hsent u hu name]; simp)

theorem Joined.allocate (h : Joined s) (env : Env) (i : ℕ) (id : List Byte) :
    Joined (s.next env (.allocate i id)) := by
  rw [System.next]
  cases hi : s.port.entries[i]? with
  | none => exact h
  | some e =>
    have hb : ∀ e', s.port.entries[i]? = some e' →
        Becomes none e' (e.sendAllocateRequest s.port.username id).1 := by
      intro e' he'
      obtain rfl := Option.some.inj (hi.symm.trans he')
      exact becomes_sendAllocateRequest e _ _ _
    refine h.modifyEntry hb (fun L hL => absurd hL (by simp)) _ ?_
    intro u hu name
    rw [RelayEntry.sendAllocateRequest] at hu
    split at hu
    · exact absurd hu (by simp)
    · obtain ⟨-, hb, -⟩ := sendPacket_mem hu
      rw [hb]
      exact sendRequest_allocateMessage name _ _

theorem entryFor_follows (addr : SocketAddress) (payload : Bool) (socket : Option SocketAddress) :
    Follows p (p.entryFor addr payload socket).1 socket := by
  rw [RelayPort.entryFor]
  split
  · exact follows_modify fun e _ => becomes_assign addr payload e socket
  · split
    · intro e he L hL
      rcases List.mem_append.mp he with he | he
      · exact .inr ⟨e, he, hL, .inl rfl⟩
      · rw [List.mem_singleton.mp he] at hL
        exact .inl hL
    · exact fun e he L hL => .inr ⟨e, he, hL, .inl rfl⟩

theorem entryFor_apart (hp : Apart p.entries) (addr : SocketAddress) (payload : Bool)
    {socket : Option SocketAddress}
    (hnew : ∀ L, socket = some L → ∀ e ∈ p.entries, e.socket ≠ some L) :
    Apart (p.entryFor addr payload socket).1.entries := by
  rw [RelayPort.entryFor]
  split
  · exact hp.modify (fun e _ => becomes_assign addr payload e socket) hnew
  · split
    · exact hp.append hnew
    · exact hp

theorem Joined.send (h : Joined s) (env : Env) {id data : List Byte} {addr : SocketAddress}
    {payload : Bool} {socket : Option SocketAddress}
    (hid : id.length = kStunTransactionIdLength) (hnew : ∀ L, socket = some L → s.Unused L) :
    Joined (s.next env (.send id data addr payload socket)) := by
  have hf := entryFor_follows (p := s.port) addr payload socket
  have ha := entryFor_apart h.apart addr payload fun L hL => (hnew L hL).entry
  rw [System.next]
  dsimp only [RelayPort.sendTo]
  split
  · exact h.client hf hnew ha [] fun u hu => absurd hu (by simp)
  · rename_i e he
    refine h.client hf hnew ha _ fun u hu hraw name dest sent hreq => ?_
    obtain ⟨hs, rfl⟩ := sendTo_asks hid hu hraw hreq
    exact ha.allows (usable_mem he) hs

/-! ### Events of the server -/

section Server

variable {v w : View} {e : Event} {out : List Output} {A : SocketAddress → SocketAddress → Prop}

/-- Every connection is aimed at an address that its source may be aimed at. -/
def View.Aimed (A : SocketAddress → SocketAddress → Prop) (v : View) : Prop :=
  ∀ c cn, v.conn c = some cn → A cn.addrPair.source cn.defaultDest

theorem View.Aimed.enter (h : v.Aimed A) (hany : ∀ L addr, addr.isAny = true → A L addr)
    (f : ℕ → Roster → Roster) (b : ℕ) (ap : SocketAddressPair) (socket : SocketAddress) :
    (v.enter f b ap socket).Aimed A := by
  intro c cn hcn
  rcases View.enter_conn hcn with ⟨-, hold⟩ | ⟨-, rfl⟩
  · exact h c cn hold
  · exact hany _ _ rfl

theorem View.Aimed.lock (h : v.Aimed A) (c : ℕ) : (v.lock c).Aimed A := by
  intro c' cn hcn
  obtain ⟨old, hold, ⟨-, rfl⟩ | ⟨-, rfl⟩⟩ := View.modify_conn hcn
  · exact h c' _ hold
  · exact h c' old hold

theorem View.Aimed.aim (h : v.Aimed A) {c : ℕ} {cn : Connection} (hcn : v.conn c = some cn)
    {addr : SocketAddress} (ha : A cn.addrPair.source addr) : (v.aim c addr).Aimed A := by
  intro c' cn' hcn'
  obtain ⟨old, hold, ⟨-, rfl⟩ | ⟨rfl, rfl⟩⟩ := View.modify_conn hcn'
  · exact h c' _ hold
  · obtain rfl := Option.some.inj (hcn.symm.trans hold)
    exact ha

theorem View.Aimed.drop (h : v.Aimed A) (b : ℕ) : (v.drop b).Aimed A := by
  cases hr : v.roster b with
  | none =>
    rw [View.drop_of_none hr]
    exact h
  | some r =>
    rw [View.drop_of_some hr]
    intro c cn hcn
    have hcn' : (r.members.foldl View.deleteConnection v).conn c = some cn := hcn
    rw [View.foldl_deleteConnection_conn] at hcn'
    split at hcn'
    · exact absurd hcn' (by simp)
    · exact h c cn hcn'

/-- A send request of a client that aims its connection. -/
def Aims (v : View) (e : Event) (remote dest : SocketAddress) : Prop :=
  ∃ socket bytes c cn r data, e = .internalPacket socket remote bytes ∧
    v.connections { source := remote, dest := socket } = some c ∧ v.conn c = some cn ∧
    v.roster cn.binding = some r ∧ hasMagicCookie bytes = true ∧
    sendRequest r.username bytes = some (dest, data, true)

theorem Effect.aimed (h : Effect v e w out) (hv : v.Sound) (hA : v.Aimed A)
    (hany : ∀ L addr, addr.isAny = true → A L addr)
    (hreq : ∀ remote dest, Aims v e remote dest → A remote dest) : w.Aimed A := by
  cases h with
  | refused => exact hA
  | allocated username v₁ b out hnone hb _ =>
    rcases hb with ⟨hb, rfl⟩ | ⟨hb, rfl, rfl⟩
    · exact hA.enter hany _ _ _ _
    · exact View.Aimed.enter (v := v.openBinding username) hA hany _ _ _ _
  | answered => exact hA
  | forwarded => exact hA
  | requested c e cn r ext data lk v₁ _ _ _ hk hcn hr hcookie hsend ht =>
    have h₁ : v₁.Aimed A ∧ v₁.conn c = some cn := by
      cases ht with
      | found => exact ⟨hA, hcn⟩
      | made => exact ⟨hA.enter hany _ _ _ _, hv.conn_enter hcn⟩
    cases lk with
    | false => exact h₁.1
    | true =>
      refine h₁.1.aim h₁.2 ?_
      obtain ⟨cn', hcn', hap⟩ := hv.key_live hk
      obtain rfl := Option.some.inj (hcn.symm.trans hcn')
      rw [hap]
      exact hreq _ _ ⟨_, _, c, cn, r, data, rfl, hk, hcn, hr, hcookie, hsend⟩
  | relayed => exact hA.lock _
  | dropped => exact hA
  | admitted => exact (hA.enter hany _ _ _ _).lock _
  | checked => exact hA
  | disposed b => exact hA.drop b

/-- What an external packet is sent on as: as it is if the connection is aimed at its
host, else in an indication. -/
theorem Effect.sent_for {socket host dest : SocketAddress} {bytes packet : List Byte}
    {sock : SocketAddress} (h : Effect v (.externalPacket socket host bytes) w out) (hv : v.Sound)
    (hA : v.Aimed A) (hw : w.Aimed A) (ho : .sent sock dest packet ∈ out) :
    (packet = bytes ∧ A dest host) ∨ packet = (dataIndication bytes host).write := by
  have key : ∀ {u : View} {b : ℕ} {fromAddr : SocketAddress}, u.Aimed A →
      Delivered u b bytes fromAddr out →
      (packet = bytes ∧ A dest fromAddr) ∨ packet = (dataIndication bytes fromAddr).write := by
    intro u b fromAddr hu hdel
    cases hdel with
    | sent r i cn hr hi hcn =>
      obtain ⟨-, rfl, rfl⟩ := Output.sent.inj (List.mem_singleton.mp ho)
      rw [Connection.packetFrom]
      split
      · rename_i hlock
        rw [← of_decide_eq_true (Bool.and_eq_true_iff.mp hlock).2]
        exact .inl ⟨rfl, hu i cn hcn⟩
      · exact .inr rfl
    | dangling => exact absurd ho (by simp)
    | nobody => exact absurd ho (by simp)
  cases h with
  | relayed e en _ hk hen hout =>
    obtain ⟨en', hen', hap⟩ := hv.key_live hk
    obtain rfl := Option.some.inj (hen.symm.trans hen')
    have hdel := key hA hout
    rwa [hap] at hdel
  | dropped => exact absurd ho (by simp)
  | admitted _ _ _ _ _ hout => exact key hw hout

end Server

theorem mem_packets {cause : Option (List Byte × SocketAddress)} {log : List Output}
    {d : Downstream} (h : d ∈ packets cause log) :
    d.cause = cause ∧ ∃ socket, .sent socket d.dest d.bytes ∈ log := by
  obtain ⟨o, ho, hd⟩ := List.mem_filterMap.mp h
  cases o with
  | sent socket dest bytes =>
    obtain rfl := Option.some.inj hd
    exact ⟨rfl, socket, ho⟩
  | fault f => exact absurd hd (by simp)

theorem Joined.serve (h : Joined s) (env : Env) {e : Event}
    {cause : Option (List Byte × SocketAddress)} (ha : Arrives s.server.view e)
    (hreq : ∀ remote dest, Aims s.server.view e remote dest → s.port.Allows remote dest)
    (hcause : ∀ bytes host, cause = some (bytes, host) → host.isAny = false ∧
      bytes.length ≤ maxPayload ∧ ∃ socket, e = .externalPacket socket host bytes) :
    Joined (s.serve env e cause) := by
  have heff := step_effect env e s.server
  have hany : ∀ L addr, addr.isAny = true → s.port.Allows L addr :=
    fun L addr haddr en _ _ => .inr haddr
  have haimed : (step env e s.server).view.Aimed s.port.Allows :=
    heff.aimed h.sound h.aimed hany hreq
  refine ⟨heff.sound h.sound ha, h.apart, haimed, h.asked, fun d hd => ?_⟩
  rcases List.mem_append.mp hd with hd | hd
  · exact h.carries d hd
  obtain ⟨hdc, socket, hsent⟩ := mem_packets hd
  intro bytes host hc
  obtain ⟨hhost, hlen, sock, rfl⟩ := hcause bytes host (hdc.symm.trans hc)
  exact ⟨hhost, hlen, heff.sent_for h.sound h.aimed haimed hsent⟩

/-! ### Runs -/

theorem Joined.next (h : Joined s) (env : Env) {a : Act} (hen : a.Enabled s) (hc : a.Clean s) :
    Joined (s.next env a) := by
  cases a with
  | send id data addr payload socket => exact h.send env hen.1 hen.2
  | allocate i id => exact h.allocate env i id
  | connect i socket =>
    have hb : ∀ e, s.port.entries[i]? = some e → Becomes socket e (e.connect socket) :=
      fun e _ => becomes_connect e socket
    have hj := h.modifyEntry hb hen [] (by simp)
    rwa [List.append_nil] at hj
  | arrive u socket =>
    refine h.serve env hen.2 (fun remote dest haims => ?_) (fun _ _ hcause => absurd hcause (by simp))
    obtain ⟨_, _, c, cn, r, data, he, hk, hcn, hr, hcookie, hreq⟩ := haims
    obtain ⟨rfl, rfl, rfl⟩ := Event.internalPacket.inj he
    cases hraw : u.raw with
    | false => exact h.asked u hen.1 hraw r.username dest data hreq
    | true => exact hc hraw hcookie c cn r dest data hk hcn hr hreq
  | external socket host bytes =>
    refine h.serve env hen.1 (fun remote dest haims => ?_) (fun bytes' host' hcause => ?_)
    · obtain ⟨_, _, _, _, _, _, he, -⟩ := haims
      exact absurd he (by simp)
    · obtain ⟨rfl, rfl⟩ := Prod.mk.inj (Option.some.inj hcause)
      exact ⟨hen.2.1, hen.2.2, socket, rfl⟩
  | other e =>
    refine h.serve env hen.1.arrives (fun remote dest haims => ?_)
      (fun _ _ hcause => absurd hcause (by simp))
    obtain ⟨_, _, _, _, _, _, rfl, -⟩ := haims
    exact fun en hmem hs => absurd hs (hen.2 en hmem)
  | read d i =>
    have hb : ∀ e, s.port.entries[i]? = some e → Becomes none e (e.onReadPacket d.bytes).1 :=
      fun e _ => becomes_onReadPacket e d.bytes none
    have hj := h.modifyEntry hb (fun L hL => absurd hL (by simp)) [] (by simp)
    rwa [List.append_nil] at hj

theorem System.Reachable.joined (h : System.Reachable (fun s a => a.Clean s) s) : Joined s := by
  refine Reach.invariant (I := Joined) ?_ ?_ s h
  · rintro ⟨_, _, _, _⟩ ⟨⟨socket, others, rfl⟩, ⟨username, rfl⟩, rfl, rfl⟩
    refine ⟨sound_start socket others, ?_, ?_, by simp, by simp⟩
    · intro i j e e' L hi hj he
      obtain rfl := List.mem_singleton.mp (List.mem_of_getElem? hi)
      exact absurd he (by simp [RelayEntry.new])
    · exact fun c cn hcn => absurd hcn (by simp [Server.start, Server.view])
  · rintro s t - hj ⟨env, a, hen, hc, rfl⟩
    exact hj.next env hen hc

/-- **Relay transparency.**  What an entry passes on because of a packet of a host is
that packet and that host. -/
theorem relay_transparent (h : System.Reachable (fun s a => a.Clean s) s) (d : Downstream) (i : ℕ)
    (hen : (Act.read d i).Enabled s) (hclean : (Act.read d i).Clean s) (bytes : List Byte)
    (host : SocketAddress) (hc : d.cause = some (bytes, host)) (e : RelayEntry)
    (he : s.port.entries[i]? = some e) (passed : List Byte × SocketAddress)
    (hpass : (e.onReadPacket d.bytes).2 = some passed) : passed = (bytes, host) := by
  obtain ⟨hd, e', he', hs⟩ := hen
  obtain rfl := Option.some.inj (he.symm.trans he')
  obtain ⟨hhost, hlen, hcase⟩ := h.joined.carries d hd bytes host hc
  rw [onReadPacket_passes] at hpass
  rcases hcase with ⟨hb, hallow⟩ | hb
  · rw [hb] at hpass
    cases hcookie : hasMagicCookie bytes with
    | true =>
      rw [hcookie, if_pos rfl, hclean bytes host hc hb hcookie] at hpass
      exact absurd hpass (by simp)
    | false =>
      rw [hcookie, if_neg (by simp)] at hpass
      split at hpass
      · -- the entry's address is the host the connection was aimed at
        have hext : host = e.extAddr :=
          (hallow e (List.mem_of_getElem? he) hs).resolve_right (by simp [hhost])
        rw [← Option.some.inj hpass, hext]
      · exact absurd hpass (by simp)
  · rw [hb, hasMagicCookie_dataIndication, if_pos rfl, unwrapped_dataIndication hlen] at hpass
    exact (Option.some.inj hpass).symm

/-! ### A client that locks its connection to a peer -/

/-- The packet at a position, for the run below. -/
def System.packet (s : System) (k : ℕ) : Downstream := s.downstream.getD k ⟨.nil, [], none⟩

def System.request (s : System) (k : ℕ) : Upstream := s.upstream.getD k ⟨.nil, [], false⟩

/-- A packet that the entry at a position can read. -/
def System.canRead (s : System) (k i : ℕ) : Bool :=
  k < s.downstream.length && (s.port.entries[i]?.bind RelayEntry.socket) = some (s.packet k).dest

theorem System.canRead_enabled {k i : ℕ} (h : s.canRead k i = true) :
    (Act.read (s.packet k) i).Enabled s := by
  rw [System.canRead, Bool.and_eq_true_iff, decide_eq_true_eq, decide_eq_true_eq] at h
  obtain ⟨hk, hs⟩ := h
  refine ⟨?_, Option.bind_eq_some_iff.mp hs⟩
  rw [System.packet, List.getD_eq_getElem?_getD, List.getElem?_eq_getElem hk]
  exact List.getElem_mem hk

theorem System.request_mem {k : ℕ} (h : k < s.upstream.length) : s.request k ∈ s.upstream := by
  rw [System.request, List.getD_eq_getElem?_getD, List.getElem?_eq_getElem h]
  exact List.getElem_mem h

theorem System.Reachable.readOwn (h : System.Reachable (fun s a => a.Clean s) s) {k i : ℕ}
    (hk : s.canRead k i = true) (hc : (s.packet k).cause = none) :
    System.Reachable (fun s a => a.Clean s) (s.next calm (.read (s.packet k) i)) :=
  .step h ⟨calm, _, System.canRead_enabled hk,
    fun bytes host hcause => absurd (hc.symm.trans hcause) (by simp), rfl⟩

theorem System.Reachable.arriveOwn (h : System.Reachable (fun s a => a.Clean s) s) {k : ℕ}
    (hk : k < s.upstream.length) (hraw : (s.request k).raw = false)
    (hs : serverInternal ∉ s.server.externalSockets) :
    System.Reachable (fun s a => a.Clean s)
      (s.next calm (.arrive (s.request k) serverInternal)) :=
  .step h ⟨calm, .arrive (s.request k) serverInternal, ⟨System.request_mem hk, hs⟩,
    fun h => absurd (hraw.symm.trans h) (by simp), rfl⟩

def started : System where
  server := .start serverExternal []
  port := .new nameOne
  upstream := []
  downstream := []

def firstId : List Byte := List.replicate 12 65

def secondId : List Byte := List.replicate 12 66

/-- The client has sent its allocate request. -/
def asking : System :=
  (started.next calm (.connect 0 (some clientOne))).next calm (.allocate 0 firstId)

def granted : System := asking.next calm (.arrive (asking.request 0) serverInternal)

def connected : System := granted.next calm (.read (granted.packet 0) 0)

/-- The peer has named the client's binding, and the client sends it a byte. -/
def sending : System :=
  (connected.next calm (.external serverExternal peer
    ((turnMessage .bindingRequest).addAttribute (byteStringAttr .username nameOne)).write)).next calm
      (.send secondId [7] peer true none)

def aimedAtPeer : System := sending.next calm (.arrive (sending.request 1) serverInternal)

/-- The client has got the answer to its send request. -/
def lockedToPeer : System := aimedAtPeer.next calm (.read (aimedAtPeer.packet 3) 0)

theorem lockedToPeer_reachable : System.Reachable (fun s a => a.Clean s) lockedToPeer := by
  have h₀ : System.Reachable (fun s a => a.Clean s) started :=
    .init ⟨⟨serverExternal, [], rfl⟩, ⟨nameOne, rfl⟩, rfl, rfl⟩
  have hunused : started.Unused clientOne :=
    ⟨by decide, by decide, by decide, fun c cn hcn => absurd hcn (by simp [started, Server.start, Server.view])⟩
  have h₁ := Reach.step h₀ ⟨calm, .connect 0 (some clientOne),
    fun L hL => Option.some.inj hL ▸ hunused, trivial, rfl⟩
  have h₂ : System.Reachable (fun s a => a.Clean s) asking :=
    Reach.step h₁ ⟨calm, .allocate 0 firstId, List.length_replicate .., trivial, rfl⟩
  have h₃ : System.Reachable (fun s a => a.Clean s) granted :=
    h₂.arriveOwn (by decide) (by decide) (by decide)
  have h₄ : System.Reachable (fun s a => a.Clean s) connected :=
    h₃.readOwn (by decide) (by decide)
  have h₅ := Reach.step h₄ ⟨calm, .external serverExternal peer
    ((turnMessage .bindingRequest).addAttribute (byteStringAttr .username nameOne)).write,
    ⟨by decide, by decide, by decide⟩, trivial, rfl⟩
  have h₆ : System.Reachable (fun s a => a.Clean s) sending :=
    Reach.step h₅ ⟨calm, .send secondId [7] peer true none,
      ⟨by decide, fun L hL => absurd hL (by simp)⟩, trivial, rfl⟩
  have h₇ : System.Reachable (fun s a => a.Clean s) aimedAtPeer :=
    h₆.arriveOwn (by decide) (by decide) (by decide)
  exact h₇.readOwn (by decide) (by decide)

/-- The system after another packet of the peer. -/
def afterPeer (bytes : List Byte) : System :=
  lockedToPeer.next calm (.external serverExternal peer bytes)

theorem afterPeer_reachable {bytes : List Byte} (h : bytes.length ≤ maxPayload) :
    System.Reachable (fun s a => a.Clean s) (afterPeer bytes) :=
  .step lockedToPeer_reachable ⟨calm, .external serverExternal peer bytes,
    ⟨by decide, by decide, h⟩, trivial, rfl⟩

/-- What the entry at a position passes on of a packet. -/
def System.passes (s : System) (k i : ℕ) : Option (List Byte × SocketAddress) :=
  s.port.entries[i]?.bind fun e => (e.onReadPacket (s.packet k).bytes).2

/-- An unwrapped packet of the peer. -/
theorem relay_transparent_raw :
    (afterPeer [5]).passes 4 0 = some ([5], peer) ∧ ((afterPeer [5]).packet 4).bytes = [5] ∧
      ∀ e passed, (afterPeer [5]).port.entries[0]? = some e →
        (e.onReadPacket ((afterPeer [5]).packet 4).bytes).2 = some passed → passed = ([5], peer) := by
  have hr : System.Reachable (fun s a => a.Clean s) (afterPeer [5]) :=
    afterPeer_reachable (by decide)
  refine ⟨by decide, by decide, fun e passed he hpass => ?_⟩
  refine relay_transparent hr ((afterPeer [5]).packet 4) 0
    (System.canRead_enabled (by decide)) ?_ [5] peer (by decide) e he passed hpass
  intro bytes host hc _ hcookie
  have hbytes : bytes = [5] := by
    have : ((afterPeer [5]).packet 4).cause = some ([5], peer) := by decide
    exact (Prod.mk.inj (Option.some.inj (hc.symm.trans this))).1
  rw [hbytes] at hcookie
  exact absurd hcookie (by decide)

/-- A packet of the peer that says that one byte came from a stranger. -/
def forged : List Byte := (dataIndication [9] clientTwo).write

/-- The client is told that a stranger has sent it a byte. -/
theorem relay_forged :
    System.Reachable (fun s a => a.Clean s) (afterPeer forged) ∧
      (Act.read ((afterPeer forged).packet 4) 0).Enabled (afterPeer forged) ∧
      ((afterPeer forged).packet 4).cause = some (forged, peer) ∧
      (afterPeer forged).passes 4 0 = some ([9], clientTwo) ∧
      (forged, peer) ≠ ([9], clientTwo) :=
  ⟨afterPeer_reachable (by decide), System.canRead_enabled (by decide),
    by decide, by decide, by decide⟩

end Jingle.Relay
