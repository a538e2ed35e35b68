/-
Comparisons that follow a linear order.

A three-way comparison is `OrderedBy` a key if its answers say how the keys lie in
their order.  Such comparisons are antisymmetric and transitive, and one after the
other they compare pairs lexicographically.
-/
import Mathlib.Data.List.Lex
import Mathlib.Data.Prod.Lex
import Mathlib.Order.WithBot

namespace Jingle

/-- A comparison says how the keys lie in their order. -/
structure OrderedBy {α β : Type} [LinearOrder β] (f : α → α → Ordering) (key : α → β) : Prop where
  lt : ∀ a b, f a b = .lt ↔ key a < key b
  eq : ∀ a b, f a b = .eq ↔ key a = key b

namespace OrderedBy

variable {α β γ : Type} [LinearOrder β] [LinearOrder γ] {f g : α → α → Ordering} {key : α → β}
  {key' : α → γ}

theorem gt (h : OrderedBy f key) (a b : α) : f a b = .gt ↔ key b < key a := by
  have hlt := h.lt a b
  have heq := h.eq a b
  rcases hf : f a b with _ | _ | _ <;> rw [hf] at hlt heq
  · exact iff_of_false (by simp) (hlt.1 rfl).not_gt
  · exact iff_of_false (by simp) (heq.1 rfl).not_gt
  · refine iff_of_true rfl ((lt_or_gt_of_ne fun hk => ?_).resolve_left fun hk => ?_)
    · exact absurd (heq.2 hk) (by simp)
    · exact absurd (hlt.2 hk) (by simp)

theorem swap (h : OrderedBy f key) (a b : α) : f b a = (f a b).swap := by
  rcases hf : f a b with _ | _ | _
  · exact (h.gt b a).2 ((h.lt a b).1 hf)
  · exact (h.eq b a).2 ((h.eq a b).1 hf).symm
  · exact (h.lt b a).2 ((h.gt a b).1 hf)

theorem trans (h : OrderedBy f key) {a b c : α} (hab : f a b ≠ .gt) (hbc : f b c ≠ .gt) :
    f a c ≠ .gt := by
  rw [Ne, h.gt, not_lt] at hab hbc ⊢
  exact hab.trans hbc

theorem thenBy (h : OrderedBy f key) (h' : OrderedBy g key') :
    OrderedBy (fun a b => (f a b).then (g a b)) fun a => toLex (key a, key' a) where
  lt := by
    intro a b
    rw [Prod.Lex.toLex_lt_toLex, ← h.lt, ← h.eq, ← h'.lt]
    rcases f a b with _ | _ | _ <;> simp [Ordering.then]
  eq := by
    intro a b
    rw [toLex_inj, Prod.mk.injEq, ← h.eq, ← h'.eq]
    rcases f a b with _ | _ | _ <;> simp [Ordering.then]

theorem comap {δ : Type} (h : OrderedBy f key) (part : δ → α) :
    OrderedBy (fun a b => f (part a) (part b)) fun a => key (part a) where
  lt := fun a b => h.lt (part a) (part b)
  eq := fun a b => h.eq (part a) (part b)

end OrderedBy

end Jingle
