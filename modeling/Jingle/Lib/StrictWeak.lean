/-
Strict weak orders on a set.

A sort needs a comparison that is a strict weak order on what it sorts.  A
comparison that first looks at a key of a linear order, and at `r` where the keys
are the same, is one if and only if `r` is one among the values of each key
(`strictWeakOn_thenBy_iff`).
-/
import Mathlib.Order.Basic
import Mathlib.Data.Set.Image

namespace Jingle

variable {κ β : Type}

/-- Neither of two values comes before the other one. -/
def Incomparable (r : κ → κ → Prop) (a b : κ) : Prop := ¬r a b ∧ ¬r b a

/-- A strict weak order on the values of a set. -/
structure StrictWeakOn (S : Set κ) (r : κ → κ → Prop) : Prop where
  irrefl : ∀ a ∈ S, ¬r a a
  trans : ∀ a ∈ S, ∀ b ∈ S, ∀ c ∈ S, r a b → r b c → r a c
  incomparable : ∀ a ∈ S, ∀ b ∈ S, ∀ c ∈ S,
    Incomparable r a b → Incomparable r b c → Incomparable r a c

/-- A comparison by a key, and by `r` where the keys are the same. -/
def ThenBy [LinearOrder β] (key : κ → β) (r : κ → κ → Prop) (a b : κ) : Prop :=
  key a < key b ∨ key a = key b ∧ r a b

section

variable [LinearOrder β] {key : κ → β} {r : κ → κ → Prop} {a b c : κ} {S : Set κ}

theorem thenBy_of_eq (h : key a = key b) : ThenBy key r a b ↔ r a b := by
  rw [ThenBy, h]
  simp

theorem key_le_of_thenBy (h : ThenBy key r a b) : key a ≤ key b :=
  h.elim le_of_lt fun h => h.1.le

theorem incomparable_thenBy_iff :
    Incomparable (ThenBy key r) a b ↔ key a = key b ∧ Incomparable r a b := by
  constructor
  · rintro ⟨hab, hba⟩
    have heq : key a = key b :=
      le_antisymm (not_lt.1 fun h => hba (.inl h)) (not_lt.1 fun h => hab (.inl h))
    exact ⟨heq, fun h => hab (.inr ⟨heq, h⟩), fun h => hba (.inr ⟨heq.symm, h⟩)⟩
  · rintro ⟨heq, hab, hba⟩
    exact ⟨fun h => hab ((thenBy_of_eq heq).1 h), fun h => hba ((thenBy_of_eq heq.symm).1 h)⟩

/-- **A comparison by a key first** is a strict weak order if and only if the second one is,
among the values of each key. -/
theorem strictWeakOn_thenBy_iff :
    StrictWeakOn S (ThenBy key r) ↔ ∀ v, StrictWeakOn {a ∈ S | key a = v} r := by
  constructor
  · rintro h v
    refine ⟨?_, ?_, ?_⟩
    · rintro a ⟨ha, -⟩ haa
      exact h.irrefl a ha ((thenBy_of_eq rfl).2 haa)
    · rintro a ⟨ha, ka⟩ b ⟨hb, kb⟩ c ⟨hc, kc⟩ hab hbc
      refine (thenBy_of_eq (ka.trans kc.symm)).1 (h.trans a ha b hb c hc ?_ ?_)
      · exact (thenBy_of_eq (ka.trans kb.symm)).2 hab
      · exact (thenBy_of_eq (kb.trans kc.symm)).2 hbc
    · rintro a ⟨ha, ka⟩ b ⟨hb, kb⟩ c ⟨hc, kc⟩ hab hbc
      refine (incomparable_thenBy_iff.1 (h.incomparable a ha b hb c hc ?_ ?_)).2
      · exact incomparable_thenBy_iff.2 ⟨ka.trans kb.symm, hab⟩
      · exact incomparable_thenBy_iff.2 ⟨kb.trans kc.symm, hbc⟩
  · intro h
    refine ⟨fun a ha haa => ?_, fun a ha b hb c hc hab hbc => ?_, fun a ha b hb c hc hab hbc => ?_⟩
    · exact (h (key a)).irrefl a ⟨ha, rfl⟩ ((thenBy_of_eq rfl).1 haa)
    · -- one of the steps goes up in the key, or all three have the same
      obtain hlt | heq := ((key_le_of_thenBy hab).trans (key_le_of_thenBy hbc)).lt_or_eq
      · exact .inl hlt
      · have kab : key a = key b :=
          le_antisymm (key_le_of_thenBy hab) (heq ▸ key_le_of_thenBy hbc)
        refine .inr ⟨heq, (h (key a)).trans a ⟨ha, rfl⟩ b ⟨hb, kab.symm⟩ c ⟨hc, heq.symm⟩ ?_ ?_⟩
        · exact (thenBy_of_eq kab).1 hab
        · exact (thenBy_of_eq (kab.symm.trans heq)).1 hbc
    · obtain ⟨kab, hab⟩ := incomparable_thenBy_iff.1 hab
      obtain ⟨kbc, hbc⟩ := incomparable_thenBy_iff.1 hbc
      refine incomparable_thenBy_iff.2 ⟨kab.trans kbc, ?_⟩
      exact (h (key a)).incomparable a ⟨ha, rfl⟩ b ⟨hb, kab.symm⟩ c ⟨hc, (kab.trans kbc).symm⟩
        hab hbc

end

end Jingle
