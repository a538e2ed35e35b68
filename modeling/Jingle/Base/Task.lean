/-
Tasks, their tree and their runner.

A task makes a step when the runner finds it unblocked; within the step its `Process`
may start, wake, fail and abort tasks, itself among them, and may call the runner, which
does not run again inside.  Finished tasks stay in the runner's list until a run has no
more to do.

An object is its number, in the order of construction: a child has a greater number than
its parent.  `WakeTasks` is the application's: it runs the tasks now or later, and so
does nothing here.  A call is made on an object that there is.

* `abort` — with fuel; more than there are tasks is enough, as `abort_spec` shows, since a
  child has a greater number than its parent.
-/
import Jingle.Lib.Word

namespace Jingle.Base

def stateBlocked : ℤ := -1
def stateInit : ℤ := 0
def stateDone : ℤ := 2
def stateError : ℤ := 3

structure Task where
  /-- The parent, where it is not the runner. -/
  parent : Option ℕ
  state : ℤ
  blocked : Bool
  done : Bool
  aborted : Bool
  busy : Bool
  error : Bool
  timeout_time : ℤ
  timeout_seconds : ℤ
  timeout_suspended : Bool

def Task.new (parent : Option ℕ) : Task :=
  ⟨parent, stateInit, false, false, false, false, false, 0, 0, false⟩

/-- Where `InternalRunTasks` is: at an index of its loop, or in the `Process` of the task
there, with what it has run so far. -/
inductive Control
  | idle
  | scan (i : ℕ) (did_run : Bool)
  | process (i : ℕ) (did_run : Bool)

structure TaskRunner where
  /-- How many tasks were made. -/
  count : ℕ
  task : ℕ → Task
  /-- `children_`, of the runner and of each task. -/
  children : Option ℕ → List ℕ
  tasks : List ℕ
  next_timeout_task : Option ℕ
  current_time : ℤ
  control : Control
  /-- The timeout that a run began with. -/
  previous_timeout_time : ℤ
  /-- How often `OnTimeoutChange` was called. -/
  timeout_changes : ℕ
  /-- How often a task was started, was taken from its parent and was deleted. -/
  started : ℕ → ℕ
  stopped : ℕ → ℕ
  deleted : ℕ → ℕ

namespace TaskRunner

def init : TaskRunner where
  count := 0
  task := fun _ => .new none
  children := fun _ => []
  tasks := []
  next_timeout_task := none
  current_time := 0
  control := .idle
  previous_timeout_time := 0
  timeout_changes := 0
  started := fun _ => 0
  stopped := fun _ => 0
  deleted := fun _ => 0

def modify (w : TaskRunner) (t : ℕ) (f : Task → Task) : TaskRunner :=
  { w with task := Function.update w.task t (f (w.task t)) }

/-! ### Timeouts -/

def nextTaskTimeout (w : TaskRunner) : ℤ :=
  match w.next_timeout_task with
  | some t => (w.task t).timeout_time
  | none => 0

/-- The task with the earliest timeout, of those that `RecalcNextTimeout` does not exclude;
of equals the last. -/
def recalcNextTimeout (w : TaskRunner) (exclude_task : Option ℕ) : TaskRunner :=
  { w with next_timeout_task := w.tasks.foldl (fun next t =>
      if (w.task t).done = false ∧ 0 < (w.task t).timeout_time ∧ exclude_task ≠ some t ∧
          (∀ n ∈ next, (w.task t).timeout_time ≤ (w.task n).timeout_time) then some t
      else next) none }

def checkForTimeoutChange (w : TaskRunner) (previous_timeout_time : ℤ) : TaskRunner :=
  let next_timeout := w.nextTaskTimeout
  if (previous_timeout_time = 0 ∧ next_timeout ≠ 0) ∨ next_timeout < previous_timeout_time ∨
      (previous_timeout_time ≤ w.current_time ∧ previous_timeout_time ≠ next_timeout) then
    { w with timeout_changes := w.timeout_changes + 1 }
  else w

def tasksRunning (w : TaskRunner) : Bool :=
  match w.control with
  | .idle => false
  | _ => true

/-- The part of `UpdateTaskTimeout` that sets `next_timeout_task_`. -/
def trackTimeout (w : TaskRunner) (t : ℕ) : TaskRunner :=
  if (w.task t).timeout_time ≠ 0 then
    if ∀ n ∈ w.next_timeout_task, (w.task t).timeout_time ≤ (w.task n).timeout_time then
      { w with next_timeout_task := some t }
    else w
  else if w.next_timeout_task = some t then w.recalcNextTimeout (some t)
  else w

def updateTaskTimeout (w : TaskRunner) (t : ℕ) (previous_task_timeout_time : ℤ) : TaskRunner :=
  let previous_timeout_time :=
    if w.next_timeout_task = some t then previous_task_timeout_time else w.nextTaskTimeout
  let w := w.trackTimeout t
  if w.tasksRunning then w else w.checkForTimeoutChange previous_timeout_time

/-- The time at which a timeout of a task runs out that begins now. -/
def newTimeoutTime (w : TaskRunner) (task : Task) : ℤ :=
  if task.timeout_seconds ≠ 0 ∧ (task.state ≠ stateInit ∧ task.state ≠ stateDone ∧
      task.state ≠ stateError) ∧ task.timeout_suspended = false then
    let time := w.current_time + task.timeout_seconds * 1000
    if time > 0xFFFFFFFF then time - 0xFFFFFFFF else time
  else 0

def resetTimeout (w : TaskRunner) (t : ℕ) : TaskRunner :=
  let previous := (w.task t).timeout_time
  (w.modify t fun task => { task with timeout_time := w.newTimeoutTime task }).updateTaskTimeout
    t previous

def clearTimeout (w : TaskRunner) (t : ℕ) : TaskRunner :=
  let previous := (w.task t).timeout_time
  (w.modify t fun task => { task with timeout_time := 0 }).updateTaskTimeout t previous

def setTimeoutSeconds (w : TaskRunner) (t : ℕ) (timeout_seconds : ℤ) : TaskRunner :=
  (w.modify t fun task => { task with timeout_seconds := timeout_seconds }).resetTimeout t

def suspendTimeout (w : TaskRunner) (t : ℕ) : TaskRunner :=
  if (w.task t).timeout_suspended then w
  else (w.modify t fun task => { task with timeout_suspended := true }).resetTimeout t

def resumeTimeout (w : TaskRunner) (t : ℕ) : TaskRunner :=
  if (w.task t).timeout_suspended then
    (w.modify t fun task => { task with timeout_suspended := false }).resetTimeout t
  else w

def timedOut (w : TaskRunner) (t : ℕ) : Bool :=
  (w.task t).timeout_seconds ≠ 0 ∧ (w.task t).timeout_time ≠ 0 ∧
    (w.task t).timeout_time ≤ w.current_time

/-! ### The tree -/

/-- A task is constructed. -/
def newTask (w : TaskRunner) (parent : Option ℕ) : TaskRunner :=
  { w with
    count := w.count + 1
    task := Function.update w.task w.count (.new parent)
    children := Function.update w.children parent (w.children parent ++ [w.count]) }

def onChildStopped (w : TaskRunner) (child : ℕ) : TaskRunner :=
  let parent := (w.task child).parent
  { w with
    children := Function.update w.children parent ((w.children parent).erase child)
    stopped := Function.update w.stopped child (w.stopped child + 1) }

/-- `Abort`, of a task and of the children of a task that is done by it. -/
def abort : ℕ → TaskRunner → ℕ → TaskRunner
  | 0, w, _ => w
  | n + 1, w, t =>
    if (w.task t).done then w
    else
      let w := w.modify t fun task => { task with aborted := true }
      if (w.task t).busy then w
      else
        let w := w.modify t fun task => { task with done := true, blocked := true, error := true }
        ((w.children (some t)).foldl (fun w c => abort n w c) w).onChildStopped t

/-- Enough for the tree. -/
def fuel (w : TaskRunner) : ℕ := w.count + 1

def abortTask (w : TaskRunner) (t : ℕ) : TaskRunner := abort w.fuel w t

/-- `Stop`: the children are aborted, and the parent is told. -/
def stop (w : TaskRunner) (t : ℕ) : TaskRunner :=
  ((w.children (some t)).foldl (fun w' c => abort w.fuel w' c) w).onChildStopped t

/-- The runner has a task more. -/
def pushTask (w : TaskRunner) (t : ℕ) : TaskRunner :=
  { w with tasks := w.tasks ++ [t], started := Function.update w.started t (w.started t + 1) }

def start (w : TaskRunner) (t : ℕ) : TaskRunner :=
  if (w.task t).state ≠ stateInit then w else (w.pushTask t).updateTaskTimeout t 0

def wake (w : TaskRunner) (t : ℕ) : TaskRunner :=
  if (w.task t).done ∨ (w.task t).blocked = false then w
  else w.modify t fun task => { task with blocked := false }

def onError (w : TaskRunner) (t : ℕ) : TaskRunner :=
  if (w.task t).error ∨ (w.task t).done then w
  else (w.modify t fun task => { task with error := true }).wake t

/-! ### A step and a run -/

/-- `Step` of a task up to its `Process`. -/
def beginStep (w : TaskRunner) (i : ℕ) (did_run : Bool) (t : ℕ) : TaskRunner :=
  if (w.task t).done then
    { w.modify t fun task => { task with blocked := true } with control := .scan i true }
  else if (w.task t).error then
    { (w.modify t fun task => { task with done := true, state := stateError, blocked := true }).stop
        t with control := .scan i true }
  else
    { w.modify t fun task => { task with busy := true } with control := .process i did_run }

/-- The state that `Process` has returned. -/
def setState (w : TaskRunner) (t : ℕ) (new_state : ℤ) : TaskRunner :=
  if new_state = stateBlocked then w.modify t fun task => { task with blocked := true }
  else (w.modify t fun task => { task with state := new_state, blocked := false }).resetTimeout t

/-- The rest of `Step`, with the result of `Process`. -/
def endStep (w : TaskRunner) (t : ℕ) (new_state : ℤ) : TaskRunner :=
  let w := w.modify t fun task => { task with busy := false }
  if (w.task t).aborted then w.abortTask t
  else
    let w := w.setState t new_state
    if new_state = stateDone then
      ((w.modify t fun task => { task with done := true }).stop t).modify t
        fun task => { task with blocked := true }
    else if new_state = stateError then
      ((w.modify t fun task => { task with done := true, error := true }).stop t).modify t
        fun task => { task with blocked := true }
    else w

/-- The end of `InternalRunTasks`: finished tasks are deleted. -/
def sweep (w : TaskRunner) : TaskRunner :=
  let recalc := w.next_timeout_task.any fun n => n ∈ w.tasks ∧ (w.task n).done
  let w' := { w with
    next_timeout_task := if recalc then none else w.next_timeout_task
    deleted := fun t => w.deleted t + if (w.task t).done then w.tasks.count t else 0
    tasks := w.tasks.filter fun t => (w.task t).done = false }
  if recalc then w'.recalcNextTimeout none else w'

end TaskRunner

/-- What happens to the runner and its tasks. -/
inductive TaskEvent
  | newTask (parent : Option ℕ)
  | start (t : ℕ)
  | wake (t : ℕ)
  | error (t : ℕ)
  | abort (t : ℕ)
  | setTimeoutSeconds (t : ℕ) (seconds : ℤ)
  | resetTimeout (t : ℕ)
  | clearTimeout (t : ℕ)
  | suspendTimeout (t : ℕ)
  | resumeTimeout (t : ℕ)
  /-- `CurrentTime` has another value. -/
  | clock (time : ℤ)
  | runTasks
  | pollTasks
  /-- The loop of `InternalRunTasks` goes on. -/
  | advance
  /-- `Process` returns. -/
  | processed (new_state : ℤ)

namespace TaskRunner

/-- The application runs: outside of `InternalRunTasks`, or in some `Process`. -/
def applicationRuns (w : TaskRunner) : Bool :=
  match w.control with
  | .scan _ _ => false
  | _ => true

/-- There is the task, and it is not deleted. -/
def isThere (w : TaskRunner) (t : ℕ) : Bool := t < w.count ∧ w.deleted t = 0

/-- A call of the application on a task. -/
def call (w : TaskRunner) (t : ℕ) (f : TaskRunner → ℕ → TaskRunner) : TaskRunner :=
  if w.applicationRuns ∧ w.isThere t then f w t else w

/-- `InternalRunTasks`, from its beginning to its loop. -/
def runTasks (w : TaskRunner) : TaskRunner :=
  match w.control with
  | .idle => { w with control := .scan 0 false, previous_timeout_time := w.nextTaskTimeout }
  | _ => w

/-- The end of a run: finished tasks are deleted, and a change of the timeout is told. -/
def finishRun (w : TaskRunner) : TaskRunner :=
  { w.sweep.checkForTimeoutChange w.previous_timeout_time with control := .idle }

/-- The loop goes on by one test: of a task, or of its own condition. -/
def advance (w : TaskRunner) : TaskRunner :=
  match w.control with
  | .scan i did_run =>
    match w.tasks[i]? with
    | some t =>
      if (w.task t).blocked then { w with control := .scan (i + 1) did_run }
      else w.beginStep i did_run t
    | none => if did_run then { w with control := .scan 0 false } else w.finishRun
  | _ => w

def processed (w : TaskRunner) (new_state : ℤ) : TaskRunner :=
  match w.control with
  | .process i _ =>
    match w.tasks[i]? with
    | some t => { w.endStep t new_state with control := .scan i true }
    | none => w
  | _ => w

/-- `PollTasks`, up to its call of `WakeTasks`; where that runs the tasks at once, the loop
is another poll. -/
def pollTasks (w : TaskRunner) : TaskRunner :=
  match w.next_timeout_task with
  | some t => if w.timedOut t then w.wake t else w
  | none => w

def step (w : TaskRunner) : TaskEvent → TaskRunner
  | .newTask parent => if w.applicationRuns ∧ parent.all w.isThere then w.newTask parent else w
  | .start t => w.call t start
  | .wake t => w.call t wake
  | .error t => w.call t onError
  | .abort t => w.call t abortTask
  | .setTimeoutSeconds t seconds => w.call t fun w t => w.setTimeoutSeconds t seconds
  | .resetTimeout t => w.call t resetTimeout
  | .clearTimeout t => w.call t clearTimeout
  | .suspendTimeout t => w.call t suspendTimeout
  | .resumeTimeout t => w.call t resumeTimeout
  | .clock time => { w with current_time := time }
  | .runTasks => w.runTasks
  | .pollTasks => if w.applicationRuns then w.pollTasks else w
  | .advance => w.advance
  | .processed new_state => w.processed new_state

def run (w : TaskRunner) (es : List TaskEvent) : TaskRunner := es.foldl step w

end TaskRunner

end Jingle.Base
