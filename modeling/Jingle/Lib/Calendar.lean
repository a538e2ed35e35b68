/-
Days of the Gregorian calendar.

Days are counted from the first one of 1970, the months of a year from zero.  The number of a
day adds up the years and months before it; `posixDays` is the closed form that POSIX gives
for it, where the divisions count the leap days.
-/
import Mathlib.Tactic

namespace Jingle.Calendar

open Finset

def IsLeap (y : ℕ) : Prop := y % 4 = 0 ∧ (y % 100 ≠ 0 ∨ y % 400 = 0)

instance (y : ℕ) : Decidable (IsLeap y) := inferInstanceAs (Decidable (_ ∧ _))

def daysInYear (y : ℕ) : ℕ := if IsLeap y then 366 else 365

/-- The days of a month; what is no month has none. -/
def daysInMonth (y : ℕ) : ℕ → ℕ
  | 1 => if IsLeap y then 29 else 28
  | 3 | 5 | 8 | 10 => 30
  | 0 | 2 | 4 | 6 | 7 | 9 | 11 => 31
  | _ => 0

theorem daysInMonth_le (y m : ℕ) : daysInMonth y m ≤ 31 := by
  unfold daysInMonth
  split
  · split_ifs <;> omega
  all_goals omega

def daysBeforeYear (y : ℕ) : ℕ := ∑ k ∈ range (y - 1970), daysInYear (1970 + k)

def daysBeforeMonth (y m : ℕ) : ℕ := ∑ k ∈ range m, daysInMonth y k

/-- The number of a day. -/
def dayNumber (y m d : ℕ) : ℕ := daysBeforeYear y + daysBeforeMonth y m + (d - 1)

/-- The number of the day `yday` of a year. -/
def posixDays (y yday : ℤ) : ℤ :=
  yday + (y - 1970) * 365 + (y - 1969) / 4 - (y - 1901) / 100 + (y - 1601) / 400

theorem posixDays_succ (y : ℕ) (yday : ℤ) :
    posixDays (y + 1) yday = posixDays y yday + daysInYear y := by
  rw [posixDays, posixDays, daysInYear]
  split_ifs with h
  · rw [IsLeap] at h
    push_cast
    omega
  · rw [IsLeap, not_and_or, not_or, not_not] at h
    push_cast
    omega

theorem posixDays_eq {y : ℕ} (hy : 1970 ≤ y) (yday : ℤ) :
    posixDays y yday = daysBeforeYear y + yday := by
  obtain ⟨n, rfl⟩ := Nat.exists_eq_add_of_le hy
  rw [daysBeforeYear, Nat.add_sub_cancel_left]
  induction n with
  | zero => simp [posixDays]
  | succ n ih =>
    have hstep := posixDays_succ (1970 + n) yday
    have ih := ih (Nat.le_add_right 1970 n)
    rw [sum_range_succ]
    push_cast at hstep ih ⊢
    rw [← add_assoc, hstep, ih]
    ring

theorem daysBeforeMonth_zero (y : ℕ) : daysBeforeMonth y 0 = 0 := rfl

theorem daysBeforeMonth_june (y : ℕ) : daysBeforeMonth y 5 = 151 ∨ daysBeforeMonth y 5 = 152 := by
  simp only [daysBeforeMonth, sum_range_succ, range_zero, sum_empty, daysInMonth]
  split_ifs <;> omega

end Jingle.Calendar
