/-
Timeouts on a clock that wraps around.

`CurrentTime` is a clock of 32 bits, whose reading `ResetTimeout` adds the timeout to; a sum
past the end of the clock is folded back by hand, and `TimedOut` compares it with the reading
of a later time as it stands.

* **`timedOut_iff_reliable`** — between the setting of a timeout and a check of it, whatever
  else the tasks do, the check tells whether the timeout has passed just when the two times
  are `Reliable`.
* `not_timedOut_nearWrap` — a timeout that is set at the end of the clock is over at once.
-/
import Jingle.Base.TaskFrame

namespace Jingle.Base

/-- What `XmppPump::CurrentTime` returns at a time, in milliseconds. -/
def clockReading (time : ℕ) : ℤ := ((time % 2 ^ 32 : ℕ) : ℤ)

/-- A check at the time `b` of a timeout of `d` milliseconds that was set at the time `a`: both
counted from the beginning of the round of the clock in which it was set. -/
def Reliable (a b d : ℕ) : Prop :=
  if a % 2 ^ 32 + d < 2 ^ 32 then
    -- the check is in the same round, or its reading is behind the deadline again
    a % 2 ^ 32 + (b - a) < 2 ^ 32 ∨ a % 2 ^ 32 + d ≤ (a % 2 ^ 32 + (b - a)) % 2 ^ 32
  else
    -- the check is in the next round but not at the deadline, or the same in a later one
    2 ^ 32 ≤ a % 2 ^ 32 + (b - a) ∧ b ≠ a + d ∧
      (a % 2 ^ 32 + (b - a) < 2 * 2 ^ 32 ∨
        a % 2 ^ 32 + d + 1 - 2 ^ 32 ≤ (a % 2 ^ 32 + (b - a)) % 2 ^ 32)

instance (a b d : ℕ) : Decidable (Reliable a b d) := inferInstanceAs (Decidable (ite _ _ _))

/-- The deadline that `ResetTimeout` comes to. -/
def deadline (a d : ℕ) : ℕ :=
  if a % 2 ^ 32 + d < 2 ^ 32 then a % 2 ^ 32 + d else a % 2 ^ 32 + d + 1 - 2 ^ 32

theorem deadline_le_iff {a b d : ℕ} (hab : a ≤ b) (hd : d < 2 ^ 31) :
    (deadline a d ≤ b % 2 ^ 32 ↔ a + d ≤ b) ↔ Reliable a b d := by
  have hround : (a % 2 ^ 32 + (b - a)) % 2 ^ 32 = b % 2 ^ 32 := by omega
  rw [deadline, Reliable, hround]
  by_cases hfold : a % 2 ^ 32 + d < 2 ^ 32
  · rw [if_pos hfold, if_pos hfold]
    omega
  · rw [if_neg hfold, if_neg hfold]
    omega

namespace TaskRunner

variable {w : TaskRunner} {t : ℕ}

/-- An event that sets the timeout of the task. -/
def SetsTimeout (w : TaskRunner) (t : ℕ) (e : TaskEvent) : Prop :=
  w.About t e ∧ ∀ time, e ≠ .clock time

/-- No event of a run sets the timeout of the task. -/
def Undisturbed (t : ℕ) : TaskRunner → List TaskEvent → Prop
  | _, [] => True
  | w, e :: es => ¬w.SetsTimeout t e ∧ Undisturbed t (w.step e) es

/-- The timeout that a task has is what it was. -/
structure KeepsTimeout (t : ℕ) (w w' : TaskRunner) : Prop where
  count : w.count ≤ w'.count
  timeout_time : (w'.task t).timeout_time = (w.task t).timeout_time
  timeout_seconds : (w'.task t).timeout_seconds = (w.task t).timeout_seconds

theorem keepsTimeout_step (ht : t < w.count) {e : TaskEvent} (he : ¬w.SetsTimeout t e) :
    KeepsTimeout t w (w.step e) := by
  by_cases hclock : ∃ time, e = .clock time
  · obtain ⟨time, rfl⟩ := hclock
    exact ⟨le_rfl, rfl, rfl⟩
  · have habout : ¬w.About t e := fun h => he ⟨h, fun time heq => hclock ⟨time, heq⟩⟩
    have hholds := holds_step e (.inl ht) habout
    exact ⟨hholds.count, hholds.task.timeout_time, hholds.task.timeout_seconds⟩

theorem keepsTimeout_run (ht : t < w.count) {es : List TaskEvent} (hes : Undisturbed t w es) :
    KeepsTimeout t w (w.run es) := by
  induction es generalizing w with
  | nil => exact ⟨le_rfl, rfl, rfl⟩
  | cons e es ih =>
    have hstep := keepsTimeout_step ht hes.1
    have hrest := ih (ht.trans_le hstep.count) hes.2
    exact ⟨hstep.count.trans hrest.count, hrest.timeout_time.trans hstep.timeout_time,
      hrest.timeout_seconds.trans hstep.timeout_seconds⟩

/-- `ResetTimeout` of a task that may have a timeout. -/
structure MayTimeOut (w : TaskRunner) (t : ℕ) : Prop where
  running : (w.task t).state ≠ stateInit ∧ (w.task t).state ≠ stateDone ∧
    (w.task t).state ≠ stateError
  not_suspended : (w.task t).timeout_suspended = false

theorem newTimeoutTime_eq (h : w.MayTimeOut t) {s a : ℕ} (hs : 0 < s)
    (hseconds : (w.task t).timeout_seconds = s) (ha : w.current_time = clockReading a) :
    w.newTimeoutTime (w.task t) = deadline a (s * 1000) := by
  rw [newTimeoutTime, if_pos ⟨by rw [hseconds]; omega, h.running, h.not_suspended⟩, hseconds, ha,
    clockReading, deadline]
  dsimp only
  split_ifs
  · omega
  · omega
  · omega
  · omega

/-- **A timeout is over when it has passed**, if the two times allow it to be told. -/
theorem timedOut_iff_reliable (h : w.MayTimeOut t) (ht : t < w.count) {s : ℕ} (hs : 0 < s)
    (hseconds : (w.task t).timeout_seconds = s) (hlt : s * 1000 < 2 ^ 31) {a b : ℕ} (hab : a ≤ b)
    (ha : w.current_time = clockReading a) {es : List TaskEvent}
    (hes : Undisturbed t (w.resetTimeout t) es)
    (hb : ((w.resetTimeout t).run es).current_time = clockReading b) :
    (((w.resetTimeout t).run es).timedOut t = true ↔ a + s * 1000 ≤ b) ↔
      Reliable a b (s * 1000) := by
  have hself := resetTimeout_self w t
  have hcount : t < (w.resetTimeout t).count :=
    ht.trans_le (holds_resetTimeout (Nat.succ_ne_self t)).count
  have hrun := keepsTimeout_run hcount hes
  have htime : (((w.resetTimeout t).run es).task t).timeout_time = deadline a (s * 1000) := by
    rw [hrun.timeout_time, hself.timeout_time]
    exact newTimeoutTime_eq h hs hseconds ha
  have hseconds' : (((w.resetTimeout t).run es).task t).timeout_seconds = s := by
    rw [hrun.timeout_seconds, hself.timeout_seconds]
    exact hseconds
  have hpos : 0 < deadline a (s * 1000) := by
    rw [deadline]
    split_ifs
    · omega
    · omega
  rw [← deadline_le_iff hab hlt, timedOut, decide_eq_true_iff, htime, hseconds', hb, clockReading]
  refine iff_congr ?_ Iff.rfl
  constructor
  · rintro ⟨-, -, hle⟩
    exact Int.ofNat_le.1 hle
  · intro hle
    exact ⟨by omega, by omega, Int.ofNat_le.2 hle⟩

/-- A task that has begun to run, with a timeout of some seconds. -/
def begun (time : ℕ) (seconds : ℤ) : TaskRunner :=
  init.run [.clock (clockReading time), .newTask none, .setTimeoutSeconds 0 seconds, .start 0,
    .runTasks, .advance, .processed 1]

theorem timedOut_iff_reliable_begun :
    ((((begun 1000 5).resetTimeout 0).run [.clock 7000]).timedOut 0 = true ↔
        1000 + 5 * 1000 ≤ 7000) ↔ Reliable 1000 7000 (5 * 1000) :=
  timedOut_iff_reliable (w := begun 1000 5) (s := 5) ⟨by decide, by decide⟩ (by decide)
    (by decide) (by decide) (by decide) (by decide) (by decide)
    ⟨fun hsets => hsets.2 7000 rfl, trivial⟩ (by decide)

/-- **At the end of the clock** a timeout of a second is over at once. -/
theorem not_timedOut_nearWrap : ¬∀ (w : TaskRunner) (t s a b : ℕ) (es : List TaskEvent),
    w.MayTimeOut t → t < w.count → 0 < s → (w.task t).timeout_seconds = s →
    s * 1000 < 2 ^ 31 → a ≤ b → w.current_time = clockReading a →
    Undisturbed t (w.resetTimeout t) es →
    ((w.resetTimeout t).run es).current_time = clockReading b →
    (((w.resetTimeout t).run es).timedOut t = true ↔ a + s * 1000 ≤ b) := by
  intro h
  have hcheck := h (begun 4294967295 1) 0 1 4294967295 4294967295 [] ⟨by decide, by decide⟩
    (by decide) (by decide) (by decide) (by decide) le_rfl (by decide) trivial (by decide)
  exact absurd (hcheck.1 (by decide)) (by decide)

end TaskRunner

end Jingle.Base
