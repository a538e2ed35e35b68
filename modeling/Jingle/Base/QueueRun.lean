/-
A message queue in a run.

`World` is a queue with its clock and the history of what was posted and where it
went.  The clock counts milliseconds without end; the queue sees the last 32 bits
of it.  A message carries the `Posting` it came with, which the queue passes on.

One thread calls `Get` and `Peek`; any thread may post, clear and let time pass
between the steps of a call.  A step of a call is a scan or the return of the wait
that follows it.
-/
import Jingle.Base.MessageQueue
import Jingle.Lib.Reach

namespace Jingle.Base

/-- How a message came into the queue: which one it was, when, and the time of its
trigger. -/
structure Posting where
  serial : ℕ
  delayed : Bool
  since : ℕ
  trigger : ℤ
  deriving DecidableEq

/-- What `Time` reads when the clock shows `t`. -/
def clockWord (t : ℕ) : Word := BitVec.ofNat 32 t

/-- A call of `Get`, or of `Get` by `Peek`; `waiting` is the timeout while it waits. -/
structure Call where
  peeking : Bool
  cmsWait : ℤ
  msStart : ℕ
  msCurrent : ℕ
  waiting : Option ℤ

/-- A wait of `Get`: the time it reckons from, the timeout, and the triggers of the
messages that are pending. -/
structure Wait where
  since : ℕ
  timeout : ℤ
  triggers : List ℤ

/-- A queue and its history. -/
structure World where
  q : MessageQueue Posting
  now : ℕ
  call : Option Call
  accepted : List (Message Posting)
  /-- delayed messages found triggered, and how many had been accepted by then -/
  taken : List (Message Posting × ℕ)
  /-- what `Get` returned, and when -/
  delivered : List (Message Posting × ℕ)
  /-- what was cleared, and by which `Clear` -/
  removed : List (Message Posting × Option ℕ × Word)
  disposed : List (Message Posting)
  waits : List Wait

/-- What can happen. -/
inductive Event
  | advance (d : ℕ)
  | post (handler : Option ℕ) (id : Word) (timeSensitive : Bool)
  | postDelayed (cmsDelay : Word) (handler : Option ℕ) (id : Word)
  | postAt (tstamp : Word) (handler : Option ℕ) (id : Word)
  | clear (handler : Option ℕ) (id : Word)
  | get (cmsWait : ℤ)
  | peek (cmsWait : ℤ)
  | scan
  | wake (ok : Bool)
  | quit
  | restart

namespace World

variable (w : World)

/-- The history of a post, and its message. -/
def accept (m : Message Posting) (q : MessageQueue Posting) : World :=
  if w.q.fStop then w else { w with q, accepted := w.accepted ++ [m] }

/-- A delayed post with this trigger. -/
def delayPost (tstamp : Word) (trigger : ℤ) (handler : Option ℕ) (id : Word) : World :=
  let posting : Posting := ⟨w.accepted.length, true, w.now, trigger⟩
  w.accept ⟨handler, id, posting, 0⟩ (w.q.doDelayPost tstamp handler id posting)

/-- A message is returned: by `Get` to its caller, by `Peek` it is kept. -/
def found (c : Call) (m : Message Posting) (q : MessageQueue Posting) : World :=
  if c.peeking then { w with q := { q with msgPeek := some m }, call := none }
  else { w with q, call := none, delivered := w.delivered ++ [(m, w.now)] }

/-- No message: the call returns if the queue is stopped, and waits otherwise. -/
def nothingFound (c : Call) (s : MessageQueue.Scan Posting) : World :=
  if s.queue.fStop then { w with q := s.queue, call := none }
  else
    let timeout := MessageQueue.cmsNext c.cmsWait
      (timeDiff (clockWord c.msCurrent) (clockWord c.msStart)) s.cmsDelayNext
    { w with
      q := s.queue
      call := some { c with waiting := some timeout }
      waits := w.waits ++
        [⟨c.msCurrent, timeout, s.queue.dmsgq.toList.map (·.msg.pdata.trigger)⟩] }

/-- A scan of the call, with its history. -/
def scan (c : Call) : World :=
  let s := w.q.scan (clockWord c.msCurrent)
  let w := { w with
    taken := w.taken ++ (w.q.takenBy (clockWord c.msCurrent)).map (·, w.accepted.length)
    disposed := w.disposed ++ w.q.disposedBy (clockWord c.msCurrent) }
  match s.message with
  | some m => w.found c m s.queue
  | none => w.nothingFound c s

/-- The wait of the call is over. -/
def wake (c : Call) (ok : Bool) : World :=
  if !ok then { w with call := none }
  else if MessageQueue.expired c.cmsWait (timeDiff (clockWord w.now) (clockWord c.msStart)) then
    { w with call := none }
  else { w with call := some { c with msCurrent := w.now, waiting := none } }

/-- The start of a call, unless there is one or the kept message is returned. -/
def start (peeking : Bool) (cmsWait : ℤ) : World :=
  match w.call, w.q.msgPeek with
  | some _, _ => w
  | none, some m =>
    if peeking then w
    else { w with q := { w.q with msgPeek := none }, delivered := w.delivered ++ [(m, w.now)] }
  | none, none => { w with call := some ⟨peeking, cmsWait, w.now, w.now, none⟩ }

/-- The world after an event. -/
def act : Event → World
  | .advance d => { w with now := w.now + d }
  | .post handler id timeSensitive =>
    let posting : Posting := ⟨w.accepted.length, false, w.now, w.now⟩
    w.accept ⟨handler, id, posting, if timeSensitive then clockWord w.now + kMaxMsgLatency else 0⟩
      (w.q.post handler id posting timeSensitive (clockWord w.now))
  | .postDelayed cmsDelay handler id =>
    w.delayPost (clockWord w.now + cmsDelay) (w.now + cmsDelay.toNat) handler id
  | .postAt tstamp handler id =>
    w.delayPost tstamp (w.now + timeDiff tstamp (clockWord w.now)) handler id
  | .clear handler id =>
    { w with
      q := w.q.clear handler id
      removed := w.removed ++ (w.q.cleared handler id).map (·, handler, id) }
  | .get cmsWait => w.start false cmsWait
  | .peek cmsWait => w.start true cmsWait
  | .scan =>
    match w.call with
    | some c => if c.waiting = none then w.scan c else w
    | none => w
  | .wake ok =>
    match w.call with
    | some c => if c.waiting = none then w else w.wake c ok
    | none => w
  | .quit => { w with q := w.q.quit }
  | .restart => { w with q := w.q.restart }

/-- A new queue, at any time. -/
def Start : Prop :=
  ∃ now, w = { q := .new, now, call := none, accepted := [], taken := [], delivered := []
               removed := [], disposed := [], waits := [] }

/-- Delays are numbers of 31 bits. -/
def InRange : Event → Prop
  | .postDelayed cmsDelay _ _ => cmsDelay.toNat < 2 ^ 31
  | _ => True

/-- One event. -/
def Next (w w' : World) : Prop := ∃ e, InRange e ∧ w' = w.act e

end World

end Jingle.Base
