/-
The pings that keep the connection alive.

A message `MSG_PING` makes a task that sends a ping.  The task looks once in a second
whether its reply has come, and its handler posts the next message when it has.  The
handler is called until the task is done: a reply sets a flag and wakes the task, and
the task ends when the runner makes its next step.

The runner is the one of the whole client, with other tasks in it.  Its events may
come in any order (`PingEvent.runner`), as long as they do not do what only the task
of a ping does.  `KeepsAlive` is what is promised of every state.
-/
import Jingle.Base.TaskFrame

namespace Jingle.Service

open Base

def stateStart : ℤ := 1
def stateResponse : ℤ := 4

/-- The messages in the queue of the thread: those of `TalkClient`, and the wake-up that a
ping posts to itself. -/
inductive PingMessage
  | ready | ping
  | wake (t : ℕ)
  deriving DecidableEq, Repr

/-- A message that makes a ping; `MSG_READY` falls through to `MSG_PING`. -/
def PingMessage.isPing : PingMessage → Bool
  | .ready | .ping => true
  | .wake _ => false

/-- The client and its pings. -/
structure KeepAlive where
  runner : TaskRunner
  /-- `xmpp_client_`, the parent of every ping. -/
  client : ℕ
  /-- The time, of which `Time` shows 32 bits. -/
  now : ℕ
  /-- The messages and when they are due. -/
  queue : List (ℕ × PingMessage)
  /-- The tasks that are pings. -/
  pings : List ℕ
  /-- When a ping was sent. -/
  sent : ℕ → Option ℕ
  /-- When its first reply came; this is its `done_`. -/
  replied : ℕ → Option ℕ
  /-- For which ping `OnPingTimeout` was raised, and when. -/
  timeouts : List (ℕ × ℕ)

namespace KeepAlive

/-- The low 32 bits of a time. -/
def shown (now : ℕ) : ℤ := ((now % 2 ^ 32 : ℕ) : ℤ)

/-- The end of `InitClientStage2`. -/
def start (runner : TaskRunner) (client now : ℕ) : KeepAlive where
  runner := { runner with current_time := shown now }
  client := client
  now := now
  queue := [(now + 1500, .ready)]
  pings := []
  sent := fun _ => none
  replied := fun _ => none
  timeouts := []

variable (k : KeepAlive)

/-- `PostDelayed`. -/
def post (delay : ℕ) (m : PingMessage) : KeepAlive :=
  { k with queue := k.queue ++ [(k.now + delay, m)] }

/-- `PingTask::timeout`, in seconds. -/
def pingTimeout : ℕ := 5

/-- A ping is made and started, as a child of the client. -/
def newPing : KeepAlive :=
  if k.runner.isThere k.client ∧ (k.runner.task k.client).done = false then
    { k with
      runner := (k.runner.newTask (some k.client)).start k.runner.count
      pings := k.pings ++ [k.runner.count] }
  else k

/-- `OnMessage`, of the client and of a ping; a task that is gone has taken its messages
with it. -/
def onMessage : PingMessage → KeepAlive
  | .ready | .ping => k.newPing
  | .wake t => { k with runner := k.runner.call t TaskRunner.wake }

/-- A message that is due is dispatched, while the runner does not run. -/
def dispatch (m : ℕ × PingMessage) : KeepAlive :=
  if k.runner.tasksRunning = false ∧ m ∈ k.queue ∧ m.1 ≤ k.now then
    { k with queue := k.queue.erase m }.onMessage m.2
  else k

/-- The handler of a ping is there: it was sent, and its task is not done. -/
def listens (t : ℕ) : Bool :=
  k.runner.tasksRunning = false ∧ t ∈ k.pings ∧ k.runner.isThere t ∧
    (k.runner.task t).done = false ∧ (k.sent t).isSome

/-- `HandleStanza` of a ping, with a reply to it. -/
def handleStanza (t : ℕ) : KeepAlive :=
  { k with
    replied := Function.update k.replied t (some ((k.replied t).getD k.now))
    runner := k.runner.wake t }.post (pingTimeout * 1000) .ping

/-- `ProcessStart`: the ping is sent, or `SendStanza` fails. -/
def processStart (t : ℕ) (sends : Bool) : KeepAlive :=
  if sends then
    { k with
      sent := Function.update k.sent t (some k.now)
      runner := (k.runner.setTimeoutSeconds t pingTimeout).processed stateResponse }
  else { k with runner := k.runner.processed stateError }

def processResponse (t : ℕ) : KeepAlive :=
  if (k.replied t).isSome then { k with runner := k.runner.processed stateDone }
  else { k.post 1000 (.wake t) with runner := k.runner.processed stateBlocked }

/-- `Process` of a ping: a timeout goes before everything else. -/
def processPing (t : ℕ) (sends : Bool) : KeepAlive :=
  if k.runner.timedOut t then
    { k with
      timeouts := k.timeouts ++ [(t, k.now)]
      runner := (k.runner.clearTimeout t).processed stateDone }
  else if (k.runner.task t).state = stateInit then
    { k with runner := k.runner.processed stateStart }
  else if (k.runner.task t).state = stateStart then k.processStart t sends
  else if (k.runner.task t).state = stateResponse then k.processResponse t
  else if (k.runner.task t).state = stateDone ∨ (k.runner.task t).state = stateError then
    { k with runner := k.runner.processed stateBlocked }
  else { k with runner := k.runner.processed stateError }

/-- What the rest of the client may do with the runner: it does not call the timeout of a
ping, nor return from its `Process`; it starts a task once, and makes none below a task that
is done. -/
def mayRun : TaskEvent → Bool
  | .start t => t ∉ k.pings ∧ ((k.runner.task t).state = stateInit → t ∉ k.runner.tasks)
  | .newTask parent => ∀ p ∈ parent, (k.runner.task p).done = false
  | .setTimeoutSeconds t _ | .resetTimeout t | .clearTimeout t | .suspendTimeout t
  | .resumeTimeout t => t ∉ k.pings
  | .processed _ => ∀ t ∈ k.runner.processing, t ∉ k.pings
  | .clock _ => false
  | _ => true

end KeepAlive

/-- The type of a reply, which nobody looks at. -/
inductive ReplyType
  | result | error
  deriving DecidableEq, Repr

/-- What happens. -/
inductive PingEvent
  | tick (milliseconds : ℕ)
  | dispatch (m : ℕ × PingMessage)
  | reply (t : ℕ) (type : ReplyType)
  /-- The `Process` of the ping at which the runner is. -/
  | process (sends : Bool)
  | runner (e : TaskEvent)

namespace KeepAlive

variable (k : KeepAlive)

def step : PingEvent → KeepAlive
  | .tick milliseconds =>
    { k with
      now := k.now + milliseconds
      runner := k.runner.step (.clock (shown (k.now + milliseconds))) }
  | .dispatch m => k.dispatch m
  | .reply t _ => if k.listens t then k.handleStanza t else k
  | .process sends =>
    match k.runner.processing with
    | some t => if t ∈ k.pings then k.processPing t sends else k
    | none => k
  | .runner e => if k.mayRun e then { k with runner := k.runner.step e } else k

def run (k : KeepAlive) (es : List PingEvent) : KeepAlive := es.foldl step k

/-! ### What is promised -/

/-- A ping that waits for its reply. -/
def awaits (t : ℕ) : Bool := (k.runner.task t).done = false ∧ k.replied t = none

/-- The pings that wait, and the messages that make pings. -/
def chains : ℕ := k.pings.countP k.awaits + k.queue.countP fun m => m.2.isPing

/-- **The pings are one chain**, and a timeout is raised only for a ping that got no reply
within its five seconds. -/
structure KeepsAlive : Prop where
  single : k.chains ≤ 1
  timeouts : ∀ t now, (t, now) ∈ k.timeouts → ∃ s, k.sent t = some s ∧
    s + pingTimeout * 1000 ≤ now ∧ ∀ r, k.replied t = some r → s + pingTimeout * 1000 ≤ r

/-- A ping whose reply came in time. -/
def RepliedInTime (t : ℕ) : Prop :=
  ∃ s ∈ k.sent t, ∃ r ∈ k.replied t, r < s + pingTimeout * 1000

instance (t : ℕ) : Decidable (k.RepliedInTime t) :=
  inferInstanceAs (Decidable (∃ s ∈ k.sent t, ∃ r ∈ k.replied t, r < s + pingTimeout * 1000))

/-- A step in a state in which it does what it should.  No ping hears a second reply before
its task is done; the runner comes to a ping that was replied to in time before its timeout;
and a ping is not sent in the last five seconds of the 32-bit clock. -/
def Fine (k : KeepAlive) : PingEvent → Prop
  | .reply t _ => k.listens t = true → k.replied t = none
  | .process sends => ∀ t ∈ k.runner.processing, t ∈ k.pings →
      (k.RepliedInTime t → k.runner.timedOut t = false) ∧
      ((k.runner.task t).state = stateStart → sends = true →
        shown k.now + pingTimeout * 1000 < 2 ^ 32)
  | _ => True

/-- All steps of a run are fine. -/
def FineRun : KeepAlive → List PingEvent → Prop
  | _, [] => True
  | k, e :: es => k.Fine e ∧ FineRun (k.step e) es

instance (k : KeepAlive) : DecidablePred k.Fine
  | .reply t _ => inferInstanceAs (Decidable (k.listens t = true → k.replied t = none))
  | .process sends => inferInstanceAs (Decidable (∀ t ∈ k.runner.processing, t ∈ k.pings →
      (k.RepliedInTime t → k.runner.timedOut t = false) ∧
      ((k.runner.task t).state = stateStart → sends = true →
        shown k.now + pingTimeout * 1000 < 2 ^ 32)))
  | .tick _ | .dispatch _ | .runner _ => inferInstanceAs (Decidable True)

instance decidableFineRun : ∀ (k : KeepAlive) (es : List PingEvent), Decidable (k.FineRun es)
  | _, [] => inferInstanceAs (Decidable True)
  | k, e :: es =>
    have := decidableFineRun (k.step e) es
    inferInstanceAs (Decidable (k.Fine e ∧ FineRun (k.step e) es))

end KeepAlive

end Jingle.Service
