/-
Comparing times of a clock that wraps around.

Times are words of `w` bits.  A comparison of two of them as unsigned numbers
looks at their distance from the origin, so it depends on where the origin is:
when the same `d` is added to both, the comparison keeps its value if both wrap
around or neither does, and has the other value if only one of them does.
`Straddles d x y` says the latter; `add_le_add_iff` and `add_lt_add_iff` are the
two rules.

Where the true times are known, `reading` is what the clock shows, and
`reading_le_reading_iff` says when the readings of a deadline and of the present
tell whether the deadline has passed.
-/
import Mathlib.Tactic

namespace Jingle.Clock

variable {w : ℕ}

/-- Adding `d` to the time `x` passes the end of the clock. -/
def Wraps (d x : BitVec w) : Prop := 2 ^ w ≤ x.toNat + d.toNat

instance (d x : BitVec w) : Decidable (Wraps d x) := inferInstanceAs (Decidable (_ ≤ _))

/-- Adding `d` takes only one of the times `x` and `y` past the end of the clock. -/
def Straddles (d x y : BitVec w) : Prop := ¬(Wraps d x ↔ Wraps d y)

instance (d x y : BitVec w) : Decidable (Straddles d x y) := inferInstanceAs (Decidable (¬_))

theorem straddles_comm {d x y : BitVec w} : Straddles d x y ↔ Straddles d y x :=
  not_congr iff_comm

theorem toNat_add_cases (d x : BitVec w) :
    (Wraps d x ∧ (x + d).toNat + 2 ^ w = x.toNat + d.toNat) ∨
      (¬Wraps d x ∧ (x + d).toNat = x.toNat + d.toNat) := by
  have hx := x.isLt
  have hd := d.isLt
  rw [BitVec.toNat_add, Wraps]
  rcases le_or_gt (2 ^ w) (x.toNat + d.toNat) with h | h
  · refine .inl ⟨h, ?_⟩
    rw [Nat.mod_eq_sub_mod h, Nat.mod_eq_of_lt (by omega)]
    omega
  · exact .inr ⟨by omega, Nat.mod_eq_of_lt h⟩

theorem shift_add (x d y : BitVec w) : x + d + y = x + y + d := by
  rw [BitVec.add_assoc, BitVec.add_comm d, ← BitVec.add_assoc]

theorem add_le_add_iff (d x y : BitVec w) : x + d ≤ y + d ↔ ¬(x ≤ y ↔ Straddles d x y) := by
  have hx := x.isLt
  have hy := y.isLt
  have hd := d.isLt
  rw [Straddles, BitVec.le_def, BitVec.le_def]
  rcases toNat_add_cases d x with ⟨hwx, ex⟩ | ⟨hwx, ex⟩ <;>
    rcases toNat_add_cases d y with ⟨hwy, ey⟩ | ⟨hwy, ey⟩ <;>
    simp only [hwx, hwy, iff_true, iff_false, not_true, not_false_eq_true, not_not] <;>
    rw [Wraps] at hwx hwy <;> omega

theorem add_lt_add_iff (d x y : BitVec w) : x + d < y + d ↔ ¬(x < y ↔ Straddles d x y) := by
  have h := add_le_add_iff d y x
  rw [straddles_comm] at h
  rw [← BitVec.not_le, h, ← BitVec.not_le]
  tauto

theorem le_iff_of_not_straddles {d x y : BitVec w} (h : ¬Straddles d x y) :
    x + d ≤ y + d ↔ x ≤ y := by
  rw [add_le_add_iff]
  tauto

theorem lt_iff_of_not_straddles {d x y : BitVec w} (h : ¬Straddles d x y) :
    x + d < y + d ↔ x < y := by
  rw [add_lt_add_iff]
  tauto

/-! ### Readings of the true time -/

/-- What a clock of `w` bits shows at the time `t`. -/
def reading (w t : ℕ) : BitVec w := BitVec.ofNat w t

/-- The clock is in the turn in which the deadline `d` falls, or in a later one and past the
deadline's reading. -/
def Comparable (w d t : ℕ) : Prop :=
  d / 2 ^ w = t / 2 ^ w ∨ d / 2 ^ w < t / 2 ^ w ∧ d % 2 ^ w ≤ t % 2 ^ w

instance (w d t : ℕ) : Decidable (Comparable w d t) := inferInstanceAs (Decidable (_ ∨ _))

theorem reading_add (w s t : ℕ) : reading w (s + t) = reading w s + reading w t :=
  BitVec.ofNat_add _ _

theorem reading_toNat (x : BitVec w) : reading w x.toNat = x := by
  rw [reading, BitVec.ofNat_toNat, BitVec.setWidth_eq]

theorem turn_le {a b : ℕ} (w : ℕ) (h : a < b) : 2 ^ w * a + 2 ^ w ≤ 2 ^ w * b := by
  rw [← Nat.mul_succ]
  exact Nat.mul_le_mul_left _ h

/-- **Readings of a deadline less than a turn ahead** tell whether it has passed if and only
if they are comparable. -/
theorem reading_le_reading_iff {d t : ℕ} (h : d < t + 2 ^ w) :
    (reading w d ≤ reading w t ↔ d ≤ t) ↔ Comparable w d t := by
  have hd := Nat.div_add_mod d (2 ^ w)
  have ht := Nat.div_add_mod t (2 ^ w)
  have hmod := Nat.mod_lt d (Nat.two_pow_pos w)
  have hmod' := Nat.mod_lt t (Nat.two_pow_pos w)
  rw [reading, reading, BitVec.le_def, BitVec.toNat_ofNat, BitVec.toNat_ofNat, Comparable]
  obtain hlt | heq | hgt := lt_trichotomy (d / 2 ^ w) (t / 2 ^ w)
  · have := turn_le w hlt
    omega
  · rw [heq] at hd
    omega
  · -- the deadline is ahead and its reading is small
    have := turn_le w hgt
    omega

end Jingle.Clock
