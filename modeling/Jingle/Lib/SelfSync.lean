/-
Codes whose words show where they begin.

In a self-synchronizing code a letter tells by itself whether a word begins with it, and no word
is the beginning of another one.  So the places of a text where a word begins are those of its
first letters, and a piece of it that consists of words is made of its first words.

* `exists_split_of_first` — a text is cut into words before a first letter.
* `exists_split_of_prefix` — a beginning that consists of words.
* `prefix_take_of_cut` — the longest such beginning ends before the last first letter.
-/
import Mathlib.Data.List.Infix

namespace Jingle

variable {γ β : Type}

/-- A code of words for what is in `γ`. -/
structure SelfSync (γ β : Type) where
  code : γ → List β
  first : β → Bool
  exists_lead : ∀ c, ∃ lead trailers, code c = lead :: trailers ∧ first lead = true ∧
    ∀ b ∈ trailers, first b = false
  eq_of_prefix : ∀ c d, code c <+: code d → code c = code d

namespace SelfSync

variable (C : SelfSync γ β)

/-- The text of some words. -/
def text (cs : List γ) : List β := cs.flatMap C.code

@[simp] theorem text_nil : C.text [] = [] := rfl

@[simp] theorem text_cons (c : γ) (cs : List γ) : C.text (c :: cs) = C.code c ++ C.text cs := rfl

@[simp] theorem text_append (cs ds : List γ) : C.text (cs ++ ds) = C.text cs ++ C.text ds :=
  List.flatMap_append

theorem first_head {cs : List γ} {b : β} {rest : List β} (h : C.text cs = b :: rest) :
    C.first b = true := by
  cases cs with
  | nil => cases h
  | cons c cs =>
    obtain ⟨lead, trailers, hcode, hlead, -⟩ := C.exists_lead c
    rw [text_cons, hcode, List.cons_append] at h
    rw [← (List.cons.inj h).1]
    exact hlead

theorem exists_split_of_first {cs : List γ} {before rest : List β} {b : β}
    (h : C.text cs = before ++ b :: rest) (hb : C.first b = true) :
    ∃ ds es, cs = ds ++ es ∧ C.text ds = before := by
  induction cs generalizing before with
  | nil => exact absurd h.symm (by simp)
  | cons c cs ih =>
    by_cases hnil : before = []
    · exact ⟨[], c :: cs, rfl, hnil.symm⟩
    · have hword : C.code c <+: before := by
        by_contra hnot
        -- the first letter would stand behind the first one of the word
        have hin : before ++ [b] <+: C.code c := by
          have htext : before ++ [b] <+: C.code c ++ C.text cs := ⟨rest, by simpa using h.symm⟩
          have hlt : before.length < (C.code c).length := by
            by_contra hle
            refine hnot (List.prefix_of_prefix_length_le ⟨C.text cs, h⟩
              (List.prefix_append before (b :: rest)) (Nat.not_lt.1 hle))
          refine List.prefix_of_prefix_length_le htext (List.prefix_append _ _) ?_
          rw [List.length_append, List.length_singleton]
          exact hlt
        obtain ⟨lead, trailers, hcode, -, htrailers⟩ := C.exists_lead c
        obtain ⟨b', before, rfl⟩ := List.exists_cons_of_ne_nil hnil
        rw [hcode, List.cons_append, List.cons_prefix_cons] at hin
        have hmem : b ∈ trailers := hin.2.subset (by simp)
        rw [htrailers b hmem] at hb
        cases hb
      obtain ⟨before, rfl⟩ := hword
      rw [text_cons, List.append_assoc, List.append_cancel_left_eq] at h
      obtain ⟨ds, es, rfl, hds⟩ := ih h
      exact ⟨c :: ds, es, rfl, by rw [text_cons, hds]⟩

theorem exists_split_of_prefix {cs ds : List γ} (h : C.text ds <+: C.text cs) :
    ∃ cs₁ cs₂, cs = cs₁ ++ cs₂ ∧ C.text cs₁ = C.text ds := by
  induction ds generalizing cs with
  | nil => exact ⟨[], cs, rfl, rfl⟩
  | cons d ds ih =>
    cases cs with
    | nil =>
      obtain ⟨lead, trailers, hcode, -⟩ := C.exists_lead d
      rw [text_cons, hcode] at h
      cases h.length_le
    | cons c cs =>
      rw [text_cons, text_cons] at h
      have hd : C.code d <+: C.code c ++ C.text cs := (List.prefix_append _ _).trans h
      have heq : C.code d = C.code c := by
        obtain hle | hle := le_total (C.code d).length (C.code c).length
        · exact C.eq_of_prefix d c
            (List.prefix_of_prefix_length_le hd (List.prefix_append _ _) hle)
        · exact (C.eq_of_prefix c d
            (List.prefix_of_prefix_length_le (List.prefix_append _ _) hd hle)).symm
      rw [heq, List.prefix_append_right_inj] at h
      obtain ⟨cs₁, cs₂, rfl, hcs₁⟩ := ih h
      exact ⟨c :: cs₁, cs₂, rfl, by rw [text_cons, text_cons, hcs₁, heq]⟩

/-- **The longest beginning of words**: no such beginning of at most `n` letters ends behind the
last first letter there. -/
theorem prefix_take_of_cut {cs ds : List γ} {n cut : ℕ} (hn : n < (C.text cs).length)
    (hcut : ∀ k (hk : k < (C.text cs).length), cut < k → k ≤ n →
      C.first ((C.text cs).get ⟨k, hk⟩) = false)
    (h : C.text ds <+: C.text cs) (hlength : (C.text ds).length ≤ n) :
    C.text ds <+: (C.text cs).take cut := by
  obtain ⟨cs₁, cs₂, rfl, hcs₁⟩ := C.exists_split_of_prefix h
  refine List.prefix_take_iff.2 ⟨h, ?_⟩
  by_contra hgt
  have hlt : (C.text ds).length < (C.text (cs₁ ++ cs₂)).length := hlength.trans_lt hn
  have hfalse := hcut _ hlt (Nat.not_le.1 hgt) hlength
  obtain ⟨b, rest, hrest⟩ := List.exists_cons_of_ne_nil (l := C.text cs₂) (by
    intro hnil
    rw [text_append, hnil, hcs₁, List.append_nil] at hlt
    exact lt_irrefl _ hlt)
  have hget : (C.text (cs₁ ++ cs₂)).get ⟨(C.text ds).length, hlt⟩ = b := by
    simp [text_append, hcs₁, hrest]
  rw [hget, C.first_head hrest] at hfalse
  cases hfalse

end SelfSync

end Jingle
