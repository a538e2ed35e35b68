/-
A tunnel: the session, its `TunnelSession`, the `PseudoTcpChannel` and the three
threads that use it (talk/session/tunnel/{pseudotcpchannel,tunnelsessionclient}.cc).

`World` holds the members of the channel, the `PseudoTcp` it owns, the streams it
made, the messages that are queued for it and the state of the session.  The
functions of the channel hold its lock, so each of them is one step of the
thread that calls it.  The functions of the session and of the tunnel client do
not: the signaling thread works through a list of statements (`todo`), and steps
of the other threads may fall between any two of them.

Messages that the session receives are taken as parsed, with a tunnel content.
-/
import Jingle.PseudoTcp.Api
import Jingle.Tunnel.Session

namespace Jingle

namespace Tunnel

/-! ### Messages -/

/-- The error of an event: none, the one of an unconnected tunnel, or that of TCP. -/
inductive EventError
  | none | unconnected | tcp (err : Errno)
  deriving DecidableEq, Repr

/-- `EventData` of `MSG_ST_EVENT`. -/
structure EventData where
  seOpen : Bool := false
  seRead : Bool := false
  seWrite : Bool := false
  seClose : Bool := false
  error : EventError := .none
  deriving DecidableEq, Repr

/-- The messages of the signaling thread: `MSG_STATE` of the session, and
`MSG_SI_DESTROYCHANNEL` and `MSG_SI_DESTROY` of the channel. -/
inductive SignalMessage
  | state | destroyChannel | destroy
  deriving DecidableEq, Repr

/-- The rest of what the signaling thread is doing. -/
inductive Statement
  | setState (st : SessionState)
  /-- `SignalState`, which calls `TunnelSession::OnSessionState`. -/
  | signalState (st : SessionState)
  /-- The end of `SetState`. -/
  | postState
  /-- `SignalIncomingTunnel`: the user may answer at once. -/
  | incoming
  | accept (sent : Bool)
  | terminate
  | connect
  | onSessionTerminate
  /-- `TunnelSession::GetStream`, whose result goes to the user. -/
  | getStream
  /-- `OnSessionDestroy`, which calls `ReleaseSession`. -/
  | releaseSession
  | deleteSession
  deriving DecidableEq, Repr

/-- An `InternalStream`. -/
structure InternalStream where
  /-- `parent_` is set. -/
  parent : Bool := true
  /-- The user has got it. -/
  handed : Bool
  deleted : Bool := false
  deriving DecidableEq, Repr

/-! ### The state -/

structure World where
  /-- `Session::initiator()`. -/
  initiator : Bool
  /-- The state of the session. -/
  state : SessionState := .init
  /-- The session has not been deleted. -/
  alive : Bool := true
  /-- The `TunnelSession` exists, and refers to the channel. -/
  tunnel : Bool := true
  /-- The statements that the signaling thread has still to execute. -/
  todo : List Statement
  /-- The queue of the signaling thread. -/
  signals : List SignalMessage := []
  /-- How often the channel was deleted. -/
  deleted : ℕ := 0
  /-- `worker_thread_` is set, and so on. -/
  workerThread : Bool := false
  session : Bool := true
  channel : Bool := false
  tcp : Option PseudoTcp := none
  /-- `stream_`, as a position in `streams`. -/
  stream : Option ℕ := none
  streamReadable : Bool := false
  pendingReadEvent : Bool := false
  readyToConnect : Bool := false
  /-- The streams that were made. -/
  streams : List InternalStream := []
  /-- `MSG_ST_EVENT` on the stream thread. -/
  events : List EventData := []
  /-- All events that were ever queued. -/
  history : List EventData := []
  /-- The last `Read` returned `SR_BLOCK`, and no `SE_READ` was delivered since. -/
  blocked : Bool := false
  /-- `MSG_WK_CLOCK` on the worker thread. -/
  clocks : ℕ := 0
  /-- The worker thread has taken a clock message and waits for the lock. -/
  clockTaken : Bool := false
  /-- `MSG_WK_PURGE` on the worker thread. -/
  purges : ℕ := 0
  /-- A null pointer or a deleted channel was used. -/
  fault : Bool := false

namespace World

variable (w : World)

/-! ### `PseudoTcpChannel` -/

/-- `stream_thread_->Post(this, MSG_ST_EVENT, ..)`. -/
def postEvent (e : EventData) : World :=
  { w with events := w.events ++ [e], history := w.history ++ [e] }

def onTcpOpen : World :=
  if w.stream = none then w
  else { w with streamReadable := true, pendingReadEvent := true }.postEvent
    { seOpen := true, seRead := true, seWrite := true }

def onTcpReadable : World :=
  if w.stream = none then w
  else if w.pendingReadEvent then { w with streamReadable := true }
  else { w with streamReadable := true, pendingReadEvent := true }.postEvent { seRead := true }

def onTcpWriteable : World := if w.stream = none then w else w.postEvent { seWrite := true }

def onTcpClosed (nError : Errno) : World :=
  if w.stream = none then w else w.postEvent { seClose := true, error := .tcp nError }

/-- What `tcp_` tells its owner. -/
def onTcp (w : World) : Event → World
  | .onTcpOpen => w.onTcpOpen
  | .onTcpReadable => w.onTcpReadable
  | .onTcpWriteable => w.onTcpWriteable
  | .onTcpClosed nError => w.onTcpClosed nError
  | _ => w

/-- A call on `tcp_`. -/
def callTcp (env : Env) (op : Op) (tcp : PseudoTcp) : World :=
  (step env op tcp).2.log.foldl onTcp { w with tcp := some (step env op tcp).2 }

def adjustClock (now : Word) (clear : Bool) : World :=
  match w.tcp with
  | none => { w with fault := true }
  | some tcp =>
    match tcp.getNextClock now with
    | some _ => { w with clocks := (if clear then 0 else w.clocks) + 1 }
    | none =>
      { w with
        tcp := none
        readyToConnect := false
        signals := if w.channel then w.signals ++ [.destroyChannel] else w.signals }

def checkDestroy : World :=
  if w.workerThread = true ∨ w.stream ≠ none then w
  else { w with signals := w.signals ++ [.destroy] }

/-- `Connect`.  The new `PseudoTcp` is that of `init`. -/
def connect (rbuf sbuf : ℕ → Byte) (now : Word) : World :=
  if 0 < w.deleted then { w with fault := true }
  else if w.channel then w
  else if w.session = false then { w with fault := true }
  else
    { w with
      workerThread := true
      channel := true
      tcp := some (.init rbuf sbuf now 0)
      readyToConnect := w.readyToConnect || w.initiator }

def getStream (handed : Bool) : World :=
  if 0 < w.deleted then { w with fault := true }
  else
    match w.stream with
    | none =>
      { w with
        stream := some w.streams.length
        streams := w.streams ++ [{ handed := handed }] }
    | some i =>
      { w with streams := w.streams.modify i fun s => { s with handed := s.handed || handed } }

def onSessionTerminate : World :=
  if 0 < w.deleted then { w with fault := true }
  else if w.session = true ∧ w.channel = false then
    let w := { w with session := false }
    if w.stream = none then w else w.postEvent { seClose := true, error := .unconnected }
  else w

/-- `OnChannelDestroyed`, up to the signal to the `TunnelSession`. -/
def channelDestroyed (now : Word) : World :=
  let tcp := w.tcp
  let w := { w with
    signals := w.signals.filter (· ≠ SignalMessage.destroyChannel)
    clocks := 0
    purges := w.purges + 1
    session := false
    channel := false }
  let w :=
    if w.stream ≠ none ∧ tcp.all (fun t => t.state ≠ .closed) then w.postEvent { seClose := true }
    else w
  match tcp with
  | none => w
  | some t => { w with tcp := some (t.close true) }.adjustClock now true

/-- `TunnelSession::OnChannelClosed`: `Terminate`, whose state signal finds no session in
the channel any more. -/
def onChannelClosed : World :=
  if w.tunnel = true ∧ w.state.canTerminate then
    { w with state := .sentTerminate, signals := w.signals ++ [.state] }
  else w

def onChannelDestroyed (now : Word) : World := (w.channelDestroyed now).onChannelClosed

def read (env : Env) (len : ℕ) : World :=
  match w.tcp with
  | none => { w with blocked := true }
  | some tcp =>
    let r := step env (.recv len) tcp
    let w := { w with streamReadable := false }.callTcp env (.recv len) tcp
    match r.1 with
    | .bytes value _ =>
      if 0 < value then
        let w := { w with streamReadable := true, blocked := false }
        if w.pendingReadEvent then w
        else { w with pendingReadEvent := true }.postEvent { seRead := true }
      else { w with blocked := r.2.error = .ewouldblock }
    | _ => w

def write (env : Env) (data : List Byte) : World :=
  match w.tcp with
  | none => w
  | some tcp => w.callTcp env (.send data) tcp

def close (now : Word) : World :=
  let w := { w with stream := none, events := [] }
  match w.tcp with
  | some tcp => { w with tcp := some (tcp.close false) }.adjustClock now true
  | none => w.checkDestroy

/-! ### The signaling thread -/

/-- `SignalState`: `TunnelSession::OnSessionState`. -/
def onSessionState (st : SessionState) : List Statement :=
  if w.tunnel = false then []
  else
    match st with
    | .receivedInitiate => [.incoming]
    | .sentAccept | .receivedAccept => [.connect]
    | .sentTerminate | .receivedTerminate => [.onSessionTerminate]
    | _ => []

/-- The session is deleted, with its transport channel and its messages. -/
def deleteSession (now : Word) : World :=
  let w := { w with alive := false, signals := w.signals.filter (· ≠ SignalMessage.state) }
  if w.channel = true ∧ w.deleted = 0 then w.onChannelDestroyed now else w

/-- A statement of the signaling thread; `rest` follows it. -/
def execute (rbuf sbuf : ℕ → Byte) (now : Word) (stmt : Statement) (rest : List Statement) : World :=
  match stmt with
  | .setState st =>
    if st = w.state then { w with todo := rest }
    else { w with state := st, todo := .signalState st :: .postState :: rest }
  | .signalState st => { w with todo := w.onSessionState st ++ rest }
  | .postState => { w with signals := w.signals ++ [.state], todo := rest }
  | .incoming => { w with todo := rest }
  | .accept sent =>
    { w with todo := if w.state.canAccept ∧ sent then .setState .sentAccept :: rest else rest }
  | .terminate =>
    { w with todo := if w.state.canTerminate then .setState .sentTerminate :: rest else rest }
  | .connect => { w with todo := rest }.connect rbuf sbuf now
  | .onSessionTerminate => { w with todo := rest }.onSessionTerminate
  | .getStream => { w with todo := rest }.getStream true
  | .releaseSession => { w with tunnel := false, todo := rest }
  | .deleteSession => { w with todo := rest }.deleteSession now

/-- `Session::OnMessage` for `MSG_STATE`. -/
def stateStatements : List Statement :=
  (match w.state.completed with
    | some .sentTerminate => [.terminate]
    | some st => [.setState st]
    | none => []) ++
  if w.state.isTerminated then [.releaseSession, .deleteSession] else []

/-- The first message of the signaling thread is handled. -/
def dispatch (now : Word) : World :=
  match w.signals with
  | [] => w
  | .state :: rest => { w with signals := rest, todo := w.stateStatements }
  | .destroyChannel :: rest =>
    if w.channel then { w with signals := rest }.onChannelDestroyed now
    else { w with signals := rest, fault := true }
  | .destroy :: rest =>
    -- the destructor clears what is queued
    { w with
      signals := rest.filter (· = SignalMessage.state), deleted := w.deleted + 1
      events := [], clocks := 0, purges := 0 }

/-! ### Steps -/

/-- The session messages of the peer. -/
inductive PeerMessage
  | initiate | accept | reject | terminate
  deriving DecidableEq, Repr

/-- The steps of the three threads. -/
inductive Action
  -- the signaling thread
  | execute (rbuf sbuf : ℕ → Byte) (now : Word)
  | dispatch (now : Word)
  | onIncomingMessage (m : PeerMessage)
  | acceptTunnel (sent : Bool)
  | declineTunnel
  | terminate
  | findSessionByStream
  | destroySession
  -- the worker thread
  | onChannelWritableState (env : Env) (now : Word) (writable : Bool)
  | onChannelRead (env : Env) (now : Word) (data : List Byte)
  | onChannelConnectionChanged (env : Env) (now : Word) (mtu : BitVec 16)
  | takeClock
  | clock (env : Env) (time now : Word)
  | purge
  -- the stream thread
  | read (i : ℕ) (env : Env) (len : ℕ)
  | write (i : ℕ) (env : Env) (data : List Byte)
  | close (i : ℕ) (now : Word)
  | delete (i : ℕ) (now : Word)
  | deliver

/-- What a message of the peer leads to. -/
def peerStatements (m : PeerMessage) : List Statement :=
  match m with
  | .initiate => if w.state = .init then [.setState .receivedInitiate] else []
  | .accept => if w.state = .sentInitiate then [.setState .receivedAccept] else []
  | .reject => if w.state = .sentInitiate then [.setState .receivedReject] else []
  | .terminate => [.setState .receivedTerminate]

/-- A call of the user on the signaling thread: at rest, or in `SignalIncomingTunnel`. -/
def mayCall : Prop :=
  w.alive = true ∧ w.tunnel = true ∧ (w.todo = [] ∨ w.todo.head? = some .incoming)

instance : Decidable w.mayCall := inferInstanceAs (Decidable (_ ∧ _))

/-- A function of the worker thread that uses `tcp_`. -/
def onWorker (now : Word) (call : PseudoTcp → World) : World :=
  if 0 < w.deleted ∨ w.clockTaken = true ∨ w.channel = false then w
  else
    match w.tcp with
    | none => w
    | some tcp => (call tcp).adjustClock now true

/-- A call of the user on a stream that was handed out.  A stream without a parent
answers by itself. -/
def onStream (i : ℕ) (call : World) : World :=
  match w.streams[i]? with
  | none => w
  | some s =>
    if s.handed = false ∨ s.deleted = true ∨ s.parent = false then w
    else if 0 < w.deleted then { w with fault := true }
    else call

/-- `InternalStream::Close`. -/
def closeStream (i : ℕ) (now : Word) : World :=
  w.onStream i
    { w.close now with streams := w.streams.modify i fun s => { s with parent := false } }

/-- A stream that was handed out is deleted; its destructor closes it. -/
def deleteStream (i : ℕ) (now : Word) : World :=
  let v := w.closeStream i now
  { v with streams := v.streams.modify i fun s => { s with deleted := s.deleted || s.handed } }

/-- `MSG_ST_EVENT`. -/
def deliver : World :=
  match w.events with
  | [] => w
  | e :: rest =>
    let w := { w with events := rest, fault := w.fault || w.stream.isNone }
    if e.seRead then { w with pendingReadEvent := false, blocked := false } else w

/-- One step of a thread. -/
def act (a : Action) : World :=
  match a with
  | .execute rbuf sbuf now =>
    match w.todo with
    | [] => w
    | stmt :: rest => w.execute rbuf sbuf now stmt rest
  | .dispatch now => if w.todo = [] then w.dispatch now else w
  | .onIncomingMessage m =>
    if w.alive = true ∧ w.todo = [] then
      { w with
        todo := w.peerStatements m
        initiator := w.initiator && !(m = .initiate ∧ w.state = .init) }
    else w
  | .acceptTunnel sent =>
    if w.mayCall then { w with todo := .accept sent :: .getStream :: w.todo } else w
  | .declineTunnel =>
    if w.mayCall ∧ w.state.canReject then { w with todo := .setState .sentReject :: w.todo } else w
  | .terminate => if w.mayCall then { w with todo := .terminate :: w.todo } else w
  | .findSessionByStream => if w.mayCall then w.getStream false else w
  | .destroySession =>
    if w.alive = true ∧ w.todo = [] then { w with todo := [.releaseSession, .deleteSession] } else w
  | .onChannelWritableState env now writable =>
    if w.readyToConnect = true ∧ writable = true then
      w.onWorker now fun tcp => { w with readyToConnect := false }.callTcp env .connect tcp
    else w
  | .onChannelRead env now data => w.onWorker now fun tcp => w.callTcp env (.notifyPacket data) tcp
  | .onChannelConnectionChanged env now mtu =>
    w.onWorker now fun tcp => w.callTcp env (.notifyMTU mtu) tcp
  | .takeClock =>
    if w.deleted = 0 ∧ w.clockTaken = false ∧ 0 < w.clocks then
      { w with clocks := w.clocks - 1, clockTaken := true }
    else w
  | .clock env time now =>
    if w.clockTaken = false then w
    else if 0 < w.deleted then { w with clockTaken := false, fault := true }
    else
      let w := { w with clockTaken := false }
      match w.tcp with
      | none => w
      | some tcp => (w.callTcp env (.notifyClock time) tcp).adjustClock now false
  | .purge =>
    if w.clockTaken = false ∧ 0 < w.purges then
      { w with purges := w.purges - 1, workerThread := false }.checkDestroy
    else w
  | .read i env len => w.onStream i (w.read env len)
  | .write i env data => w.onStream i (w.write env data)
  | .close i now => w.closeStream i now
  | .delete i now => w.deleteStream i now
  | .deliver => w.deliver

/-! ### Runs -/

/-- A received session, or one made by `CreateTunnel`, whose initiate message may fail. -/
def IsStart : Prop :=
  w = { initiator := false, todo := [] } ∨
    ∃ sent : Bool, w = { initiator := true
                         todo := (if sent then [.setState .sentInitiate] else []) ++ [.getStream] }

/-- One step that meets `ok`. -/
def Next (ok : Action → World → Prop) (w v : World) : Prop := ∃ a, ok a w ∧ v = w.act a

def Reachable (ok : Action → World → Prop) : World → Prop := Reach IsStart (Next ok)

/-- The tunnel after some steps. -/
def run (w : World) (as : List Action) : World := as.foldl act w

/-- Every step of a run meets `ok`. -/
def Meets (ok : Action → World → Prop) : World → List Action → Prop
  | _, [] => True
  | w, a :: as => ok a w ∧ Meets ok (w.act a) as

theorem reachable_run {ok : Action → World → Prop} {w : World} (h : Reachable ok w)
    {as : List Action} (hok : Meets ok w as) : Reachable ok (w.run as) := by
  induction as generalizing w with
  | nil => exact h
  | cons a as ih => exact ih (Reach.step h ⟨a, hok.1, rfl⟩) hok.2

theorem meets_true (w : World) (as : List Action) : Meets (fun _ _ => True) w as := by
  induction as generalizing w with
  | nil => trivial
  | cons a as ih => exact ⟨trivial, ih _⟩

/-! ### Frames -/

/-- What `tcp_` tells its owner becomes events, if there is a stream. -/
structure Told (w v : World) : Prop where
  rest : v = { w with events := v.events, history := v.history
                      pendingReadEvent := v.pendingReadEvent, streamReadable := v.streamReadable }
  quiet : w.stream = none → v = w

theorem Told.refl (w : World) : Told w w := ⟨rfl, fun _ => rfl⟩

theorem Told.trans {u v : World} (h₁ : Told w u) (h₂ : Told u v) : Told w v := by
  have hs : u.stream = w.stream := by rw [h₁.rest]
  refine ⟨?_, fun hn => ?_⟩
  · rw [h₂.rest, h₁.rest]
  · rw [h₂.quiet (hs.trans hn), h₁.quiet hn]

theorem onTcp_told (e : Event) : Told w (w.onTcp e) := by
  cases e with
  | onTcpOpen =>
    rw [onTcp, onTcpOpen]
    split
    · exact .refl w
    · exact ⟨rfl, fun hn => absurd hn ‹_›⟩
  | onTcpReadable =>
    rw [onTcp, onTcpReadable]
    split
    · exact .refl w
    · split <;> exact ⟨rfl, fun hn => absurd hn ‹_›⟩
  | onTcpWriteable =>
    rw [onTcp, onTcpWriteable]
    split
    · exact .refl w
    · exact ⟨rfl, fun hn => absurd hn ‹_›⟩
  | onTcpClosed err =>
    rw [onTcp, onTcpClosed]
    split
    · exact .refl w
    · exact ⟨rfl, fun hn => absurd hn ‹_›⟩
  | _ => exact .refl w

theorem foldl_onTcp_told (es : List Event) : Told w (es.foldl onTcp w) := by
  induction es generalizing w with
  | nil => exact .refl w
  | cons e es ih => exact (onTcp_told w e).trans w (ih (w.onTcp e))

theorem callTcp_told (env : Env) (op : Op) (tcp : PseudoTcp) :
    Told { w with tcp := some (step env op tcp).2 } (w.callTcp env op tcp) :=
  foldl_onTcp_told _ _

theorem callTcp_tcp (env : Env) (op : Op) (tcp : PseudoTcp) :
    (w.callTcp env op tcp).tcp = some (step env op tcp).2 := by
  rw [(callTcp_told w env op tcp).rest]

theorem getNextClock_forced (tcp : PseudoTcp) (now : Word) :
    (tcp.close true).getNextClock now = none := by
  simp [PseudoTcp.close, PseudoTcp.getNextClock]

theorem channelDestroyed_told (now : Word) : ∃ ready,
    Told { w with signals := w.signals.filter (· ≠ SignalMessage.destroyChannel), clocks := 0
                  purges := w.purges + 1, session := false, channel := false, tcp := none
                  readyToConnect := ready } (w.channelDestroyed now) := by
  rw [channelDestroyed]
  dsimp only
  cases ht : w.tcp with
  | none =>
    refine ⟨w.readyToConnect, ?_⟩
    dsimp only
    split
    · rename_i hs
      exact ⟨rfl, fun hn => absurd hn hs.1⟩
    · exact .refl _
  | some tcp =>
    refine ⟨false, ?_⟩
    dsimp only
    rw [adjustClock]
    dsimp only
    rw [getNextClock_forced]
    dsimp only
    split
    · rename_i hs
      exact ⟨rfl, fun hn => absurd hn hs.1⟩
    · exact .refl _

theorem onChannelDestroyed_eq (now : Word) :
    w.onChannelDestroyed now = w.onChannelClosed.channelDestroyed now := by
  obtain ⟨ready, htold⟩ := channelDestroyed_told w now
  have hframe : (w.channelDestroyed now).tunnel = w.tunnel ∧ (w.channelDestroyed now).state = w.state := by
    rw [htold.rest]
    exact ⟨rfl, rfl⟩
  rw [onChannelDestroyed, onChannelClosed, onChannelClosed, hframe.1, hframe.2]
  split
  · simp only [channelDestroyed, adjustClock, postEvent]
    cases w.tcp with
    | none =>
      dsimp only
      split <;> simp
    | some tcp =>
      dsimp only
      rw [getNextClock_forced]
      dsimp only
      split <;> simp
  · rfl

theorem deleteSession_eq (now : Word) (htun : w.tunnel = false)
    (hc : w.channel = true) (hd : w.deleted = 0) :
    { w with todo := [] }.deleteSession now =
      { w.channelDestroyed now with
        todo := [], alive := false
        signals := (w.channelDestroyed now).signals.filter (· ≠ SignalMessage.state) } := by
  rw [deleteSession]
  dsimp only
  rw [if_pos ⟨hc, hd⟩, onChannelDestroyed, onChannelClosed, if_neg]
  · simp only [channelDestroyed, adjustClock, postEvent]
    cases w.tcp with
    | none =>
      dsimp only
      split <;> simp [Bool.and_comm]
    | some tcp =>
      dsimp only
      rw [getNextClock_forced]
      dsimp only
      split <;> simp [Bool.and_comm]
  · obtain ⟨ready, htold⟩ := channelDestroyed_told
      { w with todo := [], alive := false, signals := w.signals.filter (· ≠ SignalMessage.state) } now
    rw [htold.rest]
    simp [htun]

theorem close_tcp {tcp : PseudoTcp} (ht : w.tcp = some tcp) (now : Word) (l : List InternalStream) :
    { w.close now with streams := l } =
      { w with stream := none, events := [], streams := l
               tcp := some (tcp.close false) }.adjustClock now true := by
  rw [close]
  dsimp only
  rw [ht]
  simp only [adjustClock]
  cases (tcp.close false).getNextClock now <;> rfl

theorem close_unconnected (ht : w.tcp = none) (now : Word) (l : List InternalStream) :
    { w.close now with streams := l } =
      { w with stream := none, events := [], streams := l }.checkDestroy := by
  rw [close]
  dsimp only
  rw [ht]
  simp only [checkDestroy]
  split <;> simp

/-! ### What follows a message -/

theorem stateStatements_cases :
    (w.state.isTerminated = true ∧ w.stateStatements = [.releaseSession, .deleteSession]) ∨
      (w.state.isTerminated = false ∧ (w.stateStatements = [] ∨ w.stateStatements = [.terminate] ∨
        (w.stateStatements = [.setState .inProgress] ∧
          (w.state = .sentAccept ∨ w.state = .receivedAccept)))) := by
  unfold stateStatements
  cases w.state <;> simp [SessionState.completed, SessionState.isTerminated]

end World

end Tunnel

end Jingle
