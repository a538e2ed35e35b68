/-
What the runner leaves of a task.

The timeout of a task is the task's own: it is set by calls that name the task and by
its own steps.  Whatever else happens in the runner, it stays; the state of the task
stays, unless it becomes that of an error; and a task that is done stays done.

* **`holds_step`** — this holds of every event that is not about the task.
* `endStep_self` — what the end of its own step does to its timeout.
-/
import Jingle.Base.TaskLife

namespace Jingle.Base

/-- What a task keeps while it makes no step. -/
structure Task.Holds (a b : Task) : Prop where
  timeout_time : b.timeout_time = a.timeout_time
  timeout_seconds : b.timeout_seconds = a.timeout_seconds
  state : b.state = a.state ∨ b.state = stateError
  done : a.done = true → b.done = true

theorem Task.Holds.refl (a : Task) : a.Holds a := ⟨rfl, rfl, .inl rfl, fun h => h⟩

theorem Task.Holds.trans {a b c : Task} (h : a.Holds b) (h' : b.Holds c) : a.Holds c where
  timeout_time := h'.timeout_time.trans h.timeout_time
  timeout_seconds := h'.timeout_seconds.trans h.timeout_seconds
  state := by
    obtain hs | hs := h'.state
    · rw [hs]
      exact h.state
    · exact .inr hs
  done := fun hd => h'.done (h.done hd)

namespace TaskRunner

/-- The runner has gone on, and the task has held still. -/
structure Holds (t : ℕ) (w w' : TaskRunner) : Prop where
  count : w.count ≤ w'.count
  current_time : w'.current_time = w.current_time
  task : (w.task t).Holds (w'.task t)

variable {w w' w'' : TaskRunner} {t u : ℕ}

namespace Holds

theorem refl (t : ℕ) (w : TaskRunner) : Holds t w w := ⟨le_rfl, rfl, .refl _⟩

theorem trans (h : Holds t w w') (h' : Holds t w' w'') : Holds t w w'' :=
  ⟨h.count.trans h'.count, h'.current_time.trans h.current_time, h.task.trans h'.task⟩

theorem of_eq (hcount : w'.count = w.count) (htime : w'.current_time = w.current_time)
    (htask : w'.task = w.task) : Holds t w w' := by
  refine ⟨hcount.ge, htime, ?_⟩
  rw [htask]
  exact .refl _

theorem modify (u : ℕ) {f : Task → Task} (hf : (w.task u).Holds (f (w.task u))) :
    Holds t w (w.modify u f) := by
  refine ⟨le_rfl, rfl, ?_⟩
  obtain rfl | hne := eq_or_ne t u
  · rw [modify_self]
    exact hf
  · rw [modify_other w f hne]
    exact .refl _

theorem modify_ne (h : t ≠ u) (f : Task → Task) : Holds t w (w.modify u f) := by
  refine ⟨le_rfl, rfl, ?_⟩
  rw [modify_other w f h]
  exact .refl _

theorem foldl {f : TaskRunner → ℕ → TaskRunner} (hf : ∀ w c, Holds t w (f w c)) (cs : List ℕ)
    (w : TaskRunner) : Holds t w (cs.foldl f w) := by
  induction cs generalizing w with
  | nil => exact .refl t w
  | cons c cs ih => exact (hf w c).trans (ih (f w c))

end Holds

/-! ### The bookkeeping of the runner -/

theorem holds_checkForTimeoutChange (w : TaskRunner) (previous : ℤ) :
    Holds t w (w.checkForTimeoutChange previous) := by
  rw [checkForTimeoutChange]
  split_ifs
  · exact .of_eq rfl rfl rfl
  · exact .refl t w

theorem holds_trackTimeout (w : TaskRunner) (u : ℕ) : Holds t w (w.trackTimeout u) := by
  rw [trackTimeout]
  split_ifs
  · exact .of_eq rfl rfl rfl
  · exact .refl t w
  · exact .of_eq rfl rfl rfl
  · exact .refl t w

theorem holds_updateTaskTimeout (w : TaskRunner) (u : ℕ) (previous : ℤ) :
    Holds t w (w.updateTaskTimeout u previous) := by
  have htrack : Holds t w (w.trackTimeout u) := holds_trackTimeout w u
  rw [updateTaskTimeout]
  split_ifs
  · exact htrack
  · exact htrack.trans (holds_checkForTimeoutChange _ _)
  · exact htrack.trans (holds_checkForTimeoutChange _ _)

theorem holds_finishRun (w : TaskRunner) : Holds t w w.finishRun := by
  have hsweep : Holds t w w.sweep := by
    rw [sweep]
    split_ifs
    · exact .of_eq rfl rfl rfl
    · exact .of_eq rfl rfl rfl
  have hcheck := hsweep.trans (holds_checkForTimeoutChange w.sweep w.previous_timeout_time)
  exact ⟨hcheck.count, hcheck.current_time, hcheck.task⟩

/-! ### Calls -/

theorem holds_resetTimeout (h : t ≠ u) : Holds t w (w.resetTimeout u) :=
  (Holds.modify_ne h _).trans (holds_updateTaskTimeout _ _ _)

theorem holds_clearTimeout (h : t ≠ u) : Holds t w (w.clearTimeout u) :=
  (Holds.modify_ne h _).trans (holds_updateTaskTimeout _ _ _)

theorem holds_setTimeoutSeconds (h : t ≠ u) (seconds : ℤ) :
    Holds t w (w.setTimeoutSeconds u seconds) :=
  (Holds.modify_ne h _).trans (holds_resetTimeout h)

theorem holds_suspendTimeout (h : t ≠ u) : Holds t w (w.suspendTimeout u) := by
  rw [suspendTimeout]
  split_ifs
  · exact .refl t w
  · exact (Holds.modify_ne h _).trans (holds_resetTimeout h)

theorem holds_resumeTimeout (h : t ≠ u) : Holds t w (w.resumeTimeout u) := by
  rw [resumeTimeout]
  split_ifs
  · exact (Holds.modify_ne h _).trans (holds_resetTimeout h)
  · exact .refl t w

theorem holds_wake (w : TaskRunner) (u : ℕ) : Holds t w (w.wake u) := by
  rw [wake]
  split_ifs
  · exact .refl t w
  · exact .modify u ⟨rfl, rfl, .inl rfl, fun h => h⟩

theorem holds_onError (w : TaskRunner) (u : ℕ) : Holds t w (w.onError u) := by
  rw [onError]
  split_ifs
  · exact .refl t w
  · exact (Holds.modify u ⟨rfl, rfl, .inl rfl, fun h => h⟩).trans (holds_wake _ u)

theorem holds_onChildStopped (w : TaskRunner) (u : ℕ) : Holds t w (w.onChildStopped u) :=
  .of_eq rfl rfl rfl

theorem holds_abort (n : ℕ) (w : TaskRunner) (u : ℕ) : Holds t w (abort n w u) := by
  induction n generalizing w u with
  | zero => exact .refl t w
  | succ n ih =>
    rw [abort]
    split_ifs with hdone
    · exact .refl t w
    · have hmark : Holds t w (w.modify u fun task => { task with aborted := true }) :=
        .modify u ⟨rfl, rfl, .inl rfl, fun h => h⟩
      dsimp only
      split_ifs with hbusy
      · exact hmark
      · have hdone : ∀ w : TaskRunner, Holds t w (w.modify u fun task =>
            { task with done := true, blocked := true, error := true }) :=
          fun w => .modify u ⟨rfl, rfl, .inl rfl, fun _ => rfl⟩
        refine hmark.trans ((hdone _).trans ?_)
        exact (Holds.foldl ih _ _).trans (holds_onChildStopped _ u)

theorem holds_abortTask (w : TaskRunner) (u : ℕ) : Holds t w (w.abortTask u) :=
  holds_abort w.fuel w u

theorem done_abortTask (h : (w.task u).busy = false) : ((w.abortTask u).task u).done = true := by
  rw [abortTask, fuel, abort]
  split_ifs with hdone
  · exact hdone
  · have hbusy : ((w.modify u fun task => { task with aborted := true }).task u).busy = false := by
      rw [modify_self]
      exact h
    dsimp only
    rw [hbusy, if_neg Bool.false_ne_true]
    set w' := (w.modify u fun task => { task with aborted := true }).modify u fun task =>
      { task with done := true, blocked := true, error := true } with hw'
    have hmark : (w'.task u).done = true := by
      rw [hw', modify_self]
    exact ((Holds.foldl (holds_abort w.count) _ w').trans
      (holds_onChildStopped _ u)).task.done hmark

theorem holds_stop (w : TaskRunner) (u : ℕ) : Holds t w (w.stop u) :=
  (Holds.foldl (holds_abort w.fuel) _ w).trans (holds_onChildStopped _ u)

theorem holds_start (w : TaskRunner) (u : ℕ) : Holds t w (w.start u) := by
  rw [start]
  split_ifs
  · exact .refl t w
  · exact (Holds.of_eq rfl rfl rfl : Holds t w (w.pushTask u)).trans (holds_updateTaskTimeout _ _ _)

theorem holds_newTask (h : t < w.count) (parent : Option ℕ) : Holds t w (w.newTask parent) := by
  refine ⟨Nat.le_succ _, rfl, ?_⟩
  have hother : (w.newTask parent).task t = w.task t := Function.update_of_ne h.ne _ _
  rw [hother]
  exact .refl _

/-! ### Steps -/

theorem Holds.control (h : Holds t w w') (c : Control) : Holds t w { w' with control := c } :=
  ⟨h.count, h.current_time, h.task⟩

theorem holds_beginStep (w : TaskRunner) (i : ℕ) (did_run : Bool) (u : ℕ) :
    Holds t w (w.beginStep i did_run u) := by
  rw [beginStep]
  split_ifs
  · exact (Holds.modify u ⟨rfl, rfl, .inl rfl, fun h => h⟩).control _
  · exact ((Holds.modify u ⟨rfl, rfl, .inr rfl, fun _ => rfl⟩).trans (holds_stop _ u)).control _
  · exact (Holds.modify u ⟨rfl, rfl, .inl rfl, fun h => h⟩).control _

theorem holds_setState (h : t ≠ u) (new_state : ℤ) : Holds t w (w.setState u new_state) := by
  rw [setState]
  split_ifs
  · exact .modify_ne h _
  · exact (Holds.modify_ne h _).trans (holds_resetTimeout h)

theorem holds_endStep (h : t ≠ u) (new_state : ℤ) : Holds t w (w.endStep u new_state) := by
  have hidle : Holds t w (w.modify u fun task => { task with busy := false }) := .modify_ne h _
  have hset := hidle.trans (holds_setState h new_state)
  rw [endStep]
  dsimp only
  split_ifs
  · exact hidle.trans (holds_abortTask _ u)
  · exact hset.trans ((Holds.modify_ne h _).trans ((holds_stop _ u).trans (.modify_ne h _)))
  · exact hset.trans ((Holds.modify_ne h _).trans ((holds_stop _ u).trans (.modify_ne h _)))
  · exact hset

theorem resetTimeout_self (w : TaskRunner) (u : ℕ) :
    ({ w.task u with timeout_time := w.newTimeoutTime (w.task u) } : Task).Holds
      ((w.resetTimeout u).task u) := by
  have hupdate := (holds_updateTaskTimeout (t := u) (w.modify u fun task =>
    { task with timeout_time := w.newTimeoutTime task }) u (w.task u).timeout_time).task
  rw [modify_self] at hupdate
  exact hupdate

theorem clearTimeout_self (w : TaskRunner) (u : ℕ) :
    ({ w.task u with timeout_time := 0 } : Task).Holds ((w.clearTimeout u).task u) := by
  have hupdate := (holds_updateTaskTimeout (t := u) (w.modify u fun task =>
    { task with timeout_time := 0 }) u (w.task u).timeout_time).task
  rw [modify_self] at hupdate
  exact hupdate

theorem setTimeoutSeconds_self (w : TaskRunner) (u : ℕ) (seconds : ℤ) :
    ({ w.task u with
        timeout_seconds := seconds
        timeout_time := w.newTimeoutTime { w.task u with timeout_seconds := seconds } } :
      Task).Holds ((w.setTimeoutSeconds u seconds).task u) := by
  have hreset := resetTimeout_self (w.modify u fun task =>
    { task with timeout_seconds := seconds }) u
  rw [modify_self] at hreset
  exact hreset

/-- **The end of a step of the task**: its timeout is left, as it is blocked or done, or
begins anew in its state. -/
theorem endStep_self (w : TaskRunner) (u : ℕ) (new_state : ℤ) :
    (w.task u).Holds ((w.endStep u new_state).task u) ∧
        (new_state = stateBlocked ∨ ((w.endStep u new_state).task u).done = true) ∨
      new_state ≠ stateBlocked ∧ ({ w.task u with
          state := new_state
          timeout_time := w.newTimeoutTime { w.task u with state := new_state } } : Task).Holds
        ((w.endStep u new_state).task u) := by
  set w₀ := w.modify u fun task => { task with busy := false } with hw₀
  have hidle : Holds u w w₀ := .modify u ⟨rfl, rfl, .inl rfl, fun h => h⟩
  -- what follows the new state sets flags only
  have hend : ∀ w' : TaskRunner, ((w₀.task u).aborted = true → w' = w₀) →
      ((w₀.task u).aborted = false → w' = w₀.setState u new_state) →
      (w'.task u).Holds ((w.endStep u new_state).task u) := by
    intro w' haborted hset
    have hdone : ∀ v : TaskRunner, ∀ f : Task → Task, (∀ a : Task, a.Holds (f a)) →
        Holds u v (((v.modify u f).stop u).modify u fun task => { task with blocked := true }) := by
      intro v f hf
      exact (Holds.modify u (hf _)).trans ((holds_stop _ u).trans
        (.modify u ⟨rfl, rfl, .inl rfl, fun h => h⟩))
    rw [endStep]
    dsimp only
    split_ifs with ha hd he
    · rw [haborted ha]
      exact (holds_abortTask w₀ u).task
    · rw [hset (Bool.eq_false_iff.2 ha)]
      exact (hdone _ (fun task => { task with done := true })
        fun a => ⟨rfl, rfl, .inl rfl, fun _ => rfl⟩).task
    · rw [hset (Bool.eq_false_iff.2 ha)]
      exact (hdone _ (fun task => { task with done := true, error := true })
        fun a => ⟨rfl, rfl, .inl rfl, fun _ => rfl⟩).task
    · rw [hset (Bool.eq_false_iff.2 ha)]
      exact .refl _
  cases ha : (w₀.task u).aborted with
  | true =>
    refine .inl ⟨hidle.task.trans (hend w₀ (fun _ => rfl) fun hf => ?_), .inr ?_⟩
    · exact absurd (ha.symm.trans hf) Bool.false_ne_true.symm
    · rw [endStep]
      dsimp only
      rw [← hw₀, if_pos ha]
      refine done_abortTask ?_
      rw [hw₀, modify_self]
  | false =>
    have hset := hend (w₀.setState u new_state)
      (fun ht => absurd (ha.symm.trans ht) Bool.false_ne_true) fun _ => rfl
    by_cases hb : new_state = stateBlocked
    · have hblock : Holds u w₀ (w₀.setState u new_state) := by
        rw [setState, if_pos hb]
        exact .modify u ⟨rfl, rfl, .inl rfl, fun h => h⟩
      exact .inl ⟨hidle.task.trans (hblock.task.trans hset), .inl hb⟩
    · refine .inr ⟨hb, Task.Holds.trans ?_ hset⟩
      have hreset := resetTimeout_self (w₀.modify u fun task =>
        { task with state := new_state, blocked := false }) u
      rw [setState, if_neg hb]
      rw [modify_self, hw₀, modify_self] at hreset
      exact ⟨hreset.timeout_time, hreset.timeout_seconds, hreset.state, hreset.done⟩

theorem holds_call {f : TaskRunner → ℕ → TaskRunner} (hf : Holds t w (f w u)) :
    Holds t w (w.call u f) := by
  rw [call]
  split_ifs
  · exact hf
  · exact .refl t w

/-- The task whose `Process` runs. -/
def processing (w : TaskRunner) : Option ℕ :=
  match w.control with
  | .process i _ => w.tasks[i]?
  | _ => none

theorem processing_iff : w.processing = some t ↔ w.Processing t := by
  rw [processing, Processing]
  split
  · next i did_run hc =>
    refine ⟨fun h => ⟨i, did_run, hc, h⟩, ?_⟩
    rintro ⟨i', did_run', hc', h⟩
    obtain ⟨rfl, -⟩ := Control.process.inj (hc.symm.trans hc')
    exact h
  · next hno =>
    refine iff_of_false (Option.some_ne_none t).symm ?_
    rintro ⟨i, did_run, hc, -⟩
    exact hno i did_run hc

/-- An event that is about a task: a call of its timeout, or the end of its step; the clock
is about all of them. -/
def About (w : TaskRunner) (t : ℕ) : TaskEvent → Prop
  | .setTimeoutSeconds u _ | .resetTimeout u | .clearTimeout u | .suspendTimeout u
  | .resumeTimeout u => t = u
  | .processed _ => w.processing = some t
  | .clock _ => True
  | _ => False

theorem task_processed (h : w.processing = some u) (new_state : ℤ) :
    (w.processed new_state).task = (w.endStep u new_state).task := by
  rw [processing] at h
  split at h
  · next i did_run hc =>
    rw [processed, hc]
    dsimp only
    rw [h]
  · cases h

theorem holds_processed (h : w.processing = some u) (ht : t ≠ u) (new_state : ℤ) :
    Holds t w (w.processed new_state) := by
  rw [processing] at h
  split at h
  · next i did_run hc =>
    rw [processed, hc]
    dsimp only
    rw [h]
    exact (holds_endStep ht new_state).control _
  · cases h

theorem holds_step (e : TaskEvent) (ht : t < w.count ∨ ∀ parent, e ≠ .newTask parent)
    (he : ¬w.About t e) : Holds t w (w.step e) := by
  cases e with
  | newTask parent =>
    obtain ht | hne := ht
    · rw [step]
      split_ifs
      · exact holds_newTask ht parent
      · exact .refl t w
    · exact absurd rfl (hne parent)
  | start u => exact holds_call (holds_start w u)
  | wake u => exact holds_call (holds_wake w u)
  | error u => exact holds_call (holds_onError w u)
  | abort u => exact holds_call (holds_abortTask w u)
  | setTimeoutSeconds u seconds =>
    exact holds_call (f := fun w u => w.setTimeoutSeconds u seconds)
      (holds_setTimeoutSeconds he seconds)
  | resetTimeout u => exact holds_call (holds_resetTimeout he)
  | clearTimeout u => exact holds_call (holds_clearTimeout he)
  | suspendTimeout u => exact holds_call (holds_suspendTimeout he)
  | resumeTimeout u => exact holds_call (holds_resumeTimeout he)
  | clock time => exact absurd trivial he
  | runTasks =>
    rw [step, runTasks]
    split
    · exact .of_eq rfl rfl rfl
    · exact .refl t w
  | pollTasks =>
    rw [step, pollTasks]
    split_ifs
    · split
      · split_ifs
        · exact holds_wake w _
        · exact .refl t w
      · exact .refl t w
    · exact .refl t w
  | advance =>
    rw [step, advance]
    split
    · split
      · split_ifs
        · exact .of_eq rfl rfl rfl
        · exact holds_beginStep w _ _ _
      · split_ifs
        · exact .of_eq rfl rfl rfl
        · exact holds_finishRun w
    · exact .refl t w
  | processed new_state =>
    rw [step, processed]
    split
    · rename_i i did_run hc
      split
      · rename_i u hu
        have hne : t ≠ u := by
          rintro rfl
          refine he ?_
          rw [About, processing, hc]
          exact hu
        exact (holds_endStep hne new_state).control _
      · exact .refl t w
    · exact .refl t w

theorem exists_not_about {e : TaskEvent} (he : ∀ time, e ≠ .clock time) : ∃ t, ¬w.About t e := by
  cases e with
  | setTimeoutSeconds u seconds => exact ⟨u + 1, Nat.succ_ne_self u⟩
  | resetTimeout u => exact ⟨u + 1, Nat.succ_ne_self u⟩
  | clearTimeout u => exact ⟨u + 1, Nat.succ_ne_self u⟩
  | suspendTimeout u => exact ⟨u + 1, Nat.succ_ne_self u⟩
  | resumeTimeout u => exact ⟨u + 1, Nat.succ_ne_self u⟩
  | clock time => exact absurd rfl (he time)
  | processed new_state =>
    cases hp : w.processing with
    | none => exact ⟨0, fun h => absurd (hp.symm.trans h) (by simp)⟩
    | some u => exact ⟨u + 1, fun h => Nat.succ_ne_self u (Option.some.inj (h.symm.trans hp))⟩
  | newTask parent => exact ⟨0, id⟩
  | start u => exact ⟨0, id⟩
  | wake u => exact ⟨0, id⟩
  | error u => exact ⟨0, id⟩
  | abort u => exact ⟨0, id⟩
  | runTasks => exact ⟨0, id⟩
  | pollTasks => exact ⟨0, id⟩
  | advance => exact ⟨0, id⟩

theorem goes_step {e : TaskEvent} (he : ∀ time, e ≠ .clock time) :
    w.count ≤ (w.step e).count ∧ (w.step e).current_time = w.current_time := by
  by_cases hnew : ∃ parent, e = .newTask parent
  · obtain ⟨parent, rfl⟩ := hnew
    rw [step]
    split_ifs
    · exact ⟨Nat.le_succ _, rfl⟩
    · exact ⟨le_rfl, rfl⟩
  · obtain ⟨t, ht⟩ := exists_not_about (w := w) he
    have hholds := holds_step e (.inr (not_exists.1 hnew)) ht
    exact ⟨hholds.count, hholds.current_time⟩

theorem current_time_setTimeoutSeconds (w : TaskRunner) (u : ℕ) (seconds : ℤ) :
    (w.setTimeoutSeconds u seconds).current_time = w.current_time :=
  (holds_setTimeoutSeconds (Nat.succ_ne_self u) seconds).current_time

theorem processing_of_life (h : w'.life = w.life) : w'.processing = w.processing := by
  have hlife : w'.life.processing = w.life.processing := by rw [h]
  exact hlife

end TaskRunner

end Jingle.Base
