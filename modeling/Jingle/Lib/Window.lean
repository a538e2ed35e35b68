/-
The last values that were written.

A buffer of `n` slots is written at one slot after the other, around its end.  `Latest` says
what the slots hold: the last `n` values, or the value of the beginning where fewer were
written.  So the slot that comes next holds the value from `n` writes ago (`Latest.oldest`).

When values come in order, that one value tells how many of the last ones reach a bound:

* **`countP_lt_iff`** — fewer than `n` values of a list are above a bound just when the `n`-th
  of them is not.
-/
import Mathlib.Tactic

namespace Jingle

variable {α : Type}

/-- The slots hold the values of `past`, the latest first, which end at the slot before
`next`; a slot that was not written holds `d`. -/
def Latest (slots : List α) (next : ℕ) (past : List α) (d : α) : Prop :=
  ∀ i < slots.length, slots[(next + (slots.length - 1 - i)) % slots.length]? = some (past.getD i d)

namespace Latest

variable {slots past : List α} {next : ℕ} {d : α}

theorem replicate (n : ℕ) (d : α) : Latest (List.replicate n d) 0 [] d := by
  intro i hi
  have hpos : 0 < (List.replicate n d).length := Nat.zero_lt_of_lt hi
  have hlt := Nat.mod_lt (0 + ((List.replicate n d).length - 1 - i)) hpos
  rw [List.getElem?_eq_getElem hlt, List.getElem_replicate]
  rfl

theorem oldest (h : Latest slots next past d) (hnext : next < slots.length) :
    slots[next]? = some (past.getD (slots.length - 1) d) := by
  have hlast := h (slots.length - 1) (by omega)
  rwa [Nat.sub_self, Nat.add_zero, Nat.mod_eq_of_lt hnext] at hlast

theorem push (h : Latest slots next past d) (hnext : next < slots.length) (a : α) :
    Latest (slots.set next a) ((next + 1) % slots.length) (a :: past) d := by
  intro i hi
  rw [List.length_set] at hi
  rw [List.length_set, Nat.mod_add_mod]
  cases i with
  | zero =>
    -- all the way around
    have hround : next + 1 + (slots.length - 1 - 0) = next + slots.length := by omega
    rw [hround, Nat.add_mod_right, Nat.mod_eq_of_lt hnext, List.getElem?_set_self hnext]
    rfl
  | succ i =>
    have hback : next + 1 + (slots.length - 1 - (i + 1)) = next + (slots.length - 1 - i) := by
      omega
    have hne : next ≠ (next + (slots.length - 1 - i)) % slots.length := by
      intro heq
      have hmod : (next + (slots.length - 1 - i)) % slots.length = next % slots.length := by
        rw [← heq, Nat.mod_eq_of_lt hnext]
      have hdvd : slots.length ∣ slots.length - 1 - i := (Nat.modEq_iff_dvd' (by omega)).1 hmod.symm
        |>.trans (by rw [Nat.add_sub_cancel_left])
      exact absurd (Nat.le_of_dvd (by omega) hdvd) (by omega)
    rw [hback, List.getElem?_set_ne hne, h i (by omega)]
    rfl

end Latest

/-! ### Counting the last values -/

variable [LinearOrder α] {l : List α} {n : ℕ}

theorem countP_lt_iff (hl : l.Pairwise (· ≥ ·)) (hn : 0 < n) {P : α → Prop} [DecidablePred P]
    (hP : ∀ a b, a ≤ b → P a → P b) :
    l.countP (fun a => P a) < n ↔ ∀ a, l[n - 1]? = some a → ¬P a := by
  induction l generalizing n with
  | nil => simpa using hn
  | cons a l ih =>
    rw [List.pairwise_cons] at hl
    by_cases ha : P a
    · rw [List.countP_cons_of_pos (by simpa using ha)]
      obtain _ | _ | n := n
      · omega
      · simpa using ha
      · simpa [Nat.succ_lt_succ_iff] using ih hl.2 (Nat.succ_pos n)
    · -- nothing behind a value that does not reach the bound reaches it
      have hall : ∀ b ∈ a :: l, ¬P b := by
        intro b hb hPb
        obtain rfl | hb := List.mem_cons.1 hb
        · exact ha hPb
        · exact ha (hP b a (hl.1 b hb) hPb)
      have hzero : (a :: l).countP (fun a => P a) = 0 := List.countP_eq_zero.2 (by simpa using hall)
      rw [hzero]
      exact iff_of_true hn fun b hb => hall b (List.mem_of_getElem? hb)

end Jingle
