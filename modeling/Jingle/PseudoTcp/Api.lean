/-
The public interface of `PseudoTcp` as one transition function.

`step env op s` is the API call `op` on the object `s` with the outside `env`:
it starts with an empty log and gives the return value and the object, whose
log then holds what the call did.  `GetNextClock` does not change the object
and is a function of its own (`getNextClock`).
-/
import Jingle.PseudoTcp.Process
import Jingle.Lib.Reach

namespace Jingle

namespace PseudoTcp

def connect (env : Env) (s : PseudoTcp) : ℤ × PseudoTcp :=
  if s.state ≠ .listen then (-1, { s with error := .einval })
  else (0, ({ s with state := .synSent }.queue [ctlConnect] 1 true).2.attemptSend env .none)

def notifyMTU (mtu : BitVec 16) (s : PseudoTcp) : PseudoTcp :=
  let s := { s with cc := { s.cc with mtuAdvise := mtu.setWidth 32 } }
  if s.state = .established then s.adjustMTU else s

/-- It is time to retransmit a segment. -/
def retransmitDue (now : Word) (s : PseudoTcp) : Bool :=
  s.tm.rtoBase ≠ 0 ∧ timeDiff (s.tm.rtoBase + s.tm.rxRto) now ≤ 0

/-- It is time to probe a closed window. -/
def probeDue (now : Word) (s : PseudoTcp) : Bool :=
  s.out.sndWnd = 0 ∧ timeDiff (s.tm.lastsend + s.tm.rxRto) now ≤ 0

/-- It is time to send a delayed acknowledgement. -/
def delayedAckDue (now : Word) (s : PseudoTcp) : Bool :=
  s.tm.tAck ≠ 0 ∧ timeDiff (s.tm.tAck + s.ackDelay) now ≤ 0

/-- The retransmission part of `NotifyClock`.  `false` is an early return. -/
def clockRetransmit (env : Env) (now : Word) (s : PseudoTcp) : Bool × PseudoTcp :=
  if s.retransmitDue now then
    if s.out.slist.isEmpty then (true, s.note (.assertFailed .emptyRetransmit))
    else
      match transmit env 0 now s with
      | (false, s) => (false, s.closedown .econnaborted)
      | (true, s) =>
        let rtoLimit :=
          if s.state = .established ∨ s.state = .closed then maxRto else defRto
        (true, { s with
          cc := { s.cc with
            ssthresh := maxOf (s.inFlight / 2) (2 * s.cc.mss), cwnd := s.cc.mss }
          tm := { s.tm with rxRto := minOf rtoLimit (s.tm.rxRto * 2), rtoBase := now } })
  else (true, s)

/-- The window-probe part of `NotifyClock`. -/
def clockProbe (env : Env) (now : Word) (s : PseudoTcp) : Bool × PseudoTcp :=
  if s.probeDue now then
    if timeDiff now s.tm.lastrecv ≥ 15000 then (false, s.closedown .econnaborted)
    else
      let s := (packet env (s.out.sndNxt - 1) 0 none s).2
      (true, { s with tm := { s.tm with lastsend := now, rxRto := minOf maxRto (s.tm.rxRto * 2) } })
  else (true, s)

/-- The delayed-acknowledgement part of `NotifyClock`. -/
def clockAck (env : Env) (now : Word) (s : PseudoTcp) : PseudoTcp :=
  if s.delayedAckDue now then (packet env s.out.sndNxt 0 none s).2 else s

def notifyClock (env : Env) (now : Word) (s : PseudoTcp) : PseudoTcp :=
  if s.state = .closed then s
  else
    match clockRetransmit env now s with
    | (false, s) => s
    | (true, s) =>
      match clockProbe env now s with
      | (false, s) => s
      | (true, s) => clockAck env now s

/-- `NotifyPacket` and `parse`.  A packet of at least 12 bytes but shorter than
the header is read past its end; what the code does then is undefined, and the
model stops there. -/
def notifyPacket (env : Env) (buffer : List Byte) (s : PseudoTcp) : Bool × PseudoTcp :=
  if maxPacket.toNat < buffer.length then (false, s)
  else if buffer.length < 12 then (false, s)
  else
    match parseSegment buffer with
    | none => (false, s.note .readPastEnd)
    | some seg => s.process env seg

def setOption (opt : SockOption) (value : Word) (s : PseudoTcp) : PseudoTcp :=
  match opt with
  | .noDelay => { s with useNagling := value = 0 }
  | .ackDelay => { s with ackDelay := value }

/-- The window update of `Recv`. -/
def openWindow (env : Env) (s : PseudoTcp) : PseudoTcp :=
  if minOf (kRcvBufSize / 2) s.cc.mss ≤ s.inc.getReceiveBufferSpace - s.inc.rcvWnd then
    let s' := { s with inc := { s.inc with rcvWnd := s.inc.getReceiveBufferSpace } }
    if s.inc.rcvWnd = 0 then s'.attemptSend env .immediateAck else s'
  else s

/-- `Recv` into a buffer of `len` bytes.  The results are the return value and
the bytes copied. -/
def recv (env : Env) (len : ℕ) (s : PseudoTcp) : (ℤ × List Byte) × PseudoTcp :=
  if s.state ≠ .established then ((-1, []), { s with error := .enotconn })
  else
    let s := s.assert (s.inc.rpos ≤ s.inc.rlen) .readPosition
    if s.inc.rlen = s.inc.rpos then
      ((-1, []), { s with bReadEnable := true, error := .ewouldblock })
    else
      let read := minOf (BitVec.ofNat 32 len) (s.inc.rlen - s.inc.rpos)
      let bytes := s.inc.rbuf.read s.inc.rpos.toNat read.toNat
      let s := { s with inc := { s.inc with rpos := s.inc.rpos + read } }
      ((read.toNat, bytes), s.openWindow env)

/-- `Send`.  The results are the return value and the bytes accepted. -/
def send (env : Env) (data : List Byte) (s : PseudoTcp) : (ℤ × List Byte) × PseudoTcp :=
  if s.state ≠ .established then ((-1, []), { s with error := .enotconn })
  else if s.out.slen = kSndBufSize then
    ((-1, []), { s with bWriteEnable := true, error := .ewouldblock })
  else
    let (written, s) := s.queue data (BitVec.ofNat 32 data.length) false
    ((written.toNat, data.take written.toNat), s.attemptSend env .none)

def close (force : Bool) (s : PseudoTcp) : PseudoTcp :=
  { s with shutdown := if force then .forceful else .graceful }

/-- `GetNextClock` and `clock_check`.  `none` is the return value `false`. -/
def getNextClock (now : Word) (s : PseudoTcp) : Option ℤ :=
  if s.shutdown = .forceful then none
  else if s.shutdown = .graceful ∧
      (s.state ≠ .established ∨ (s.out.slen = 0 ∧ s.tm.tAck = 0)) then none
  else if s.state = .closed then some closedTimeout
  else
    let t := defaultTimeout
    let t := if s.tm.tAck ≠ 0 then minOf t (timeDiff (s.tm.tAck + s.ackDelay) now) else t
    let t := if s.tm.rtoBase ≠ 0 then minOf t (timeDiff (s.tm.rtoBase + s.tm.rxRto) now) else t
    let t :=
      if s.out.sndWnd = 0 then minOf t (timeDiff (s.tm.lastsend + s.tm.rxRto) now) else t
    some t

end PseudoTcp

/-- The API calls that change the object. -/
inductive Op
  | connect
  | send (data : List Byte)
  | recv (len : ℕ)
  | close (force : Bool)
  | setOption (opt : SockOption) (value : Word)
  | notifyMTU (mtu : BitVec 16)
  | notifyClock (now : Word)
  | notifyPacket (buffer : List Byte)
  deriving DecidableEq, Repr

/-- Their results: the status, and the bytes moved by `Send` or `Recv`. -/
inductive Ret
  | unit
  | status (value : ℤ)
  | bytes (value : ℤ) (data : List Byte)
  | accepted (value : Bool)
  deriving DecidableEq, Repr

/-- One API call, from an empty log. -/
def step (env : Env) (op : Op) (s : PseudoTcp) : Ret × PseudoTcp :=
  let s := { s with log := [] }
  match op with
  | .connect => (.status (s.connect env).1, (s.connect env).2)
  | .send data => (.bytes (s.send env data).1.1 (s.send env data).1.2, (s.send env data).2)
  | .recv len => (.bytes (s.recv env len).1.1 (s.recv env len).1.2, (s.recv env len).2)
  | .close force => (.unit, s.close force)
  | .setOption opt value => (.unit, s.setOption opt value)
  | .notifyMTU mtu => (.unit, s.notifyMTU mtu)
  | .notifyClock now => (.unit, s.notifyClock env now)
  | .notifyPacket buffer =>
    (.accepted (s.notifyPacket env buffer).1, (s.notifyPacket env buffer).2)

/-- A freshly constructed object. -/
def IsInit (s : PseudoTcp) : Prop := ∃ rbuf sbuf now conv, s = .init rbuf sbuf now conv

/-- One API call that meets the condition `ok` on the state, the outside and
the call. -/
def Next (ok : PseudoTcp → Env → Op → Prop) (s t : PseudoTcp) : Prop :=
  ∃ env op, ok s env op ∧ t = (step env op s).2

/-- The states of runs whose calls all meet `ok`. -/
def Reachable (ok : PseudoTcp → Env → Op → Prop) : PseudoTcp → Prop := Reach IsInit (Next ok)

/-- A packet is at least as long as its header. -/
def WholePacket (op : Op) : Prop := ∀ buffer, op = .notifyPacket buffer → 24 ≤ buffer.length

/-- The object after a list of calls. -/
def run : List (Env × Op) → PseudoTcp → PseudoTcp
  | [], s => s
  | (env, op) :: calls, s => run calls (step env op s).2

/-- Every call of a list meets `ok` when it is made. -/
def Meets (ok : PseudoTcp → Env → Op → Prop) : List (Env × Op) → PseudoTcp → Prop
  | [], _ => True
  | (env, op) :: calls, s => ok s env op ∧ Meets ok calls (step env op s).2

theorem reachable_run {ok : PseudoTcp → Env → Op → Prop} :
    ∀ (calls : List (Env × Op)) (s : PseudoTcp), Reachable ok s → Meets ok calls s →
      Reachable ok (run calls s)
  | [], _, h, _ => h
  | (env, op) :: calls, s, h, hm =>
    reachable_run calls (step env op s).2 (Reach.step h ⟨env, op, hm.1, rfl⟩) hm.2

/-- An outside whose clock stands at `now` and that takes every packet. -/
def Env.steady (now : Word) : Env where
  now := now
  sendNow := now
  ackNow := now
  packetNow _ := now
  write _ := .success

/-- A fresh object with cleared buffers. -/
def PseudoTcp.fresh (now conv : Word) : PseudoTcp := .init (fun _ => 0) (fun _ => 0) now conv

theorem reachable_fresh {ok : PseudoTcp → Env → Op → Prop} (now conv : Word) :
    Reachable ok (.fresh now conv) :=
  Reach.init ⟨_, _, now, conv, rfl⟩

end Jingle
