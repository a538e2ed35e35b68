/-
Prefixes and the namespaces they stand for.

The printer looks for a prefix that stands for a namespace (`PrefixForNs`) and
invents one where there is none (`AddNewPrefix`).  An invented prefix is a new name
that nothing in scope declares, so that it changes what no other
prefix stands for (`Covers`), and afterwards every name of the element has its prefix
(`newXmlns_invented`).  A name printed with its prefix is read as itself
(`resolveQName_formatQName`).
-/
import Jingle.Lib.Xml
import Jingle.Xmllite.Printer
import Jingle.Xmllite.Tree

namespace Jingle.Xmllite

open Signaling Xml

namespace XmlnsStack

variable {s t x : XmlnsStack}

/-! ### What a prefix stands for -/

theorem nsForPrefix_addXmlns (pre ns q : Text) :
    (s.addXmlns pre ns).nsForPrefix q =
      if isXmlPrefix q = false ∧ q = pre then some ns else s.nsForPrefix q := by
  unfold nsForPrefix addXmlns
  by_cases hx : isXmlPrefix q = true
  · simp [hx]
  · by_cases hq : q = pre
    · subst hq
      simp [hx]
    · have hne : (q == pre) = false := by simpa using hq
      simp [hx, hq, List.lookup_cons, hne]

theorem mem_of_nsForPrefix {q ns : Text} (hx : isXmlPrefix q = false) (hq : q ≠ [])
    (h : s.nsForPrefix q = some ns) : (q, ns) ∈ s.xmlns := by
  unfold nsForPrefix at h
  rw [hx] at h
  simp only [Bool.false_eq_true, if_false] at h
  cases hl : s.xmlns.lookup q with
  | none => simp [hl, hq] at h
  | some ns' =>
    rw [hl] at h
    cases h
    obtain ⟨l₁, l₂, hs, -⟩ := List.lookup_eq_some_iff.mp hl
    rw [hs]
    simp

/-- Every declaration of `x` is in `s`, and what stands for a namespace in `x` stands
for it in `s`. -/
structure Covers (s x : XmlnsStack) : Prop where
  bound : ∀ q ns, x.nsForPrefix q = some ns → s.nsForPrefix q = some ns
  mem : ∀ d ∈ x.xmlns, d ∈ s.xmlns

theorem Covers.refl (s : XmlnsStack) : Covers s s := ⟨fun _ _ => id, fun _ => id⟩

theorem Covers.trans (h : Covers t s) (h' : Covers s x) : Covers t x :=
  ⟨fun q ns hq => h.bound q ns (h'.bound q ns hq), fun d hd => h.mem d (h'.mem d hd)⟩

theorem Covers.addXmlns (h : Covers s x) (pre ns : Text) :
    Covers (s.addXmlns pre ns) (x.addXmlns pre ns) where
  bound := by
    intro q ns' hq
    rw [nsForPrefix_addXmlns] at hq ⊢
    split_ifs at hq ⊢
    · exact hq
    · exact h.bound q ns' hq
  mem := by
    intro d hd
    rcases List.mem_cons.mp hd with rfl | hd
    · exact List.mem_cons_self
    · exact List.mem_cons_of_mem _ (h.mem d hd)

theorem Covers.of_free {pre : Text} (hfree : s.nsForPrefix pre = none) (ns : Text) :
    Covers (s.addXmlns pre ns) s where
  bound := by
    intro q ns' hq
    rw [nsForPrefix_addXmlns, if_neg ?_]
    · exact hq
    · rintro ⟨-, rfl⟩
      rw [hfree] at hq
      cases hq
  mem := fun d hd => List.mem_cons_of_mem _ hd

/-! ### The prefix of a namespace -/

/-- A namespace that needs no new prefix. -/
def HasPrefix (s : XmlnsStack) (ns : Text) (isAttr : Bool) : Prop :=
  ns = nsXml ∨ ns = nsXmlns ∨ (isAttr = true ∧ ns = []) ∨
    (isAttr = false ∧ s.nsForPrefix [] = some ns) ∨
    ∃ pre, (pre, ns) ∈ s.xmlns ∧ (isAttr = true → pre ≠ []) ∧ s.nsForPrefix pre = some ns

theorem HasPrefix.mono {ns : Text} {isAttr : Bool} (h : HasPrefix x ns isAttr)
    (hc : Covers s x) : HasPrefix s ns isAttr := by
  rcases h with h | h | h | ⟨ha, hd⟩ | ⟨pre, hm, hne, hp⟩
  · exact .inl h
  · exact .inr (.inl h)
  · exact .inr (.inr (.inl h))
  · exact .inr (.inr (.inr (.inl ⟨ha, hc.bound _ _ hd⟩)))
  · exact .inr (.inr (.inr (.inr ⟨pre, hc.mem _ hm, hne, hc.bound _ _ hp⟩)))

theorem prefixForNs_some {ns pre : Text} {isAttr : Bool} (h : s.prefixForNs ns isAttr = some pre) :
    (pre = [] ∧ (isAttr = true → ns = []) ∧ (isAttr = false → s.nsForPrefix [] = some ns)) ∨
      (pre ≠ [] ∧ s.nsForPrefix pre = some ns ∧
        ((pre = textBytes "xml" ∧ ns = nsXml) ∨ (pre = textBytes "xmlns" ∧ ns = nsXmlns) ∨
          (isXmlPrefix pre = false ∧ ns ≠ nsXmlns ∧ (pre, ns) ∈ s.xmlns))) := by
  unfold prefixForNs at h
  by_cases h₁ : ns = nsXml
  · rw [if_pos h₁] at h
    cases h
    exact .inr ⟨by decide, h₁ ▸ rfl, .inl ⟨rfl, h₁⟩⟩
  rw [if_neg h₁] at h
  by_cases h₂ : ns = nsXmlns
  · rw [if_pos h₂] at h
    cases h
    exact .inr ⟨by decide, h₂ ▸ rfl, .inr (.inl ⟨rfl, h₂⟩)⟩
  rw [if_neg h₂] at h
  by_cases h₃ : if isAttr = true then ns = [] else s.prefixMatchesNs [] ns = true
  · rw [if_pos h₃] at h
    cases h
    refine .inl ⟨rfl, fun ha => ?_, fun ha => ?_⟩
    · rwa [if_pos ha] at h₃
    · rw [if_neg (by simp [ha])] at h₃
      simpa [prefixMatchesNs] using h₃
  · rw [if_neg h₃] at h
    obtain ⟨d, hd, rfl⟩ := Option.map_eq_some_iff.mp h
    have hm := List.mem_of_find?_eq_some hd
    have hp := List.find?_some hd
    simp only [Bool.and_eq_true, decide_eq_true_eq, Bool.or_eq_true, Bool.not_eq_true',
      prefixMatchesNs] at hp
    obtain ⟨⟨hns, hattr⟩, hmatch⟩ := hp
    by_cases hne : d.1 = []
    · -- the default namespace would have been found before
      rw [hne] at hmatch
      refine absurd ?_ h₃
      cases ha : isAttr with
      | true => simp [hne, ha] at hattr
      | false => simpa [prefixMatchesNs] using hmatch
    · refine .inr ⟨hne, hmatch, .inr (.inr ⟨?_, h₂, hns ▸ hm⟩)⟩
      by_contra hx
      have hx : isXmlPrefix d.1 = true := by simpa using hx
      unfold nsForPrefix at hmatch
      rw [if_pos hx] at hmatch
      split_ifs at hmatch
      · cases hmatch
        exact h₁ rfl
      · cases hmatch
        exact h₂ rfl

theorem prefixForNs_none {ns : Text} {isAttr : Bool} (h : s.prefixForNs ns isAttr = none) :
    ¬ s.HasPrefix ns isAttr := by
  unfold prefixForNs at h
  rintro (h₁ | h₂ | ⟨ha, hns⟩ | ⟨ha, hdef⟩ | ⟨pre, hm, hne, hp⟩)
  · rw [if_pos h₁] at h
    cases h
  · split_ifs at h with h₁
  · subst ha
    simp [hns] at h
    split_ifs at h
  · subst ha
    simp [prefixMatchesNs, hdef] at h
    split_ifs at h
  · have hfind : (s.xmlns.find? fun d =>
        d.2 = ns && (!isAttr || d.1 ≠ []) && s.prefixMatchesNs d.1 ns) = none := by
      split_ifs at h
      all_goals exact Option.map_eq_none_iff.mp h
    refine List.find?_eq_none.mp hfind (pre, ns) hm ?_
    cases ha : isAttr with
    | true => simp [prefixMatchesNs, hp, hne ha]
    | false => simp [prefixMatchesNs, hp]

theorem hasPrefix_of_prefixForNs {ns pre : Text} {isAttr : Bool}
    (h : s.prefixForNs ns isAttr = some pre) : s.HasPrefix ns isAttr := by
  rcases prefixForNs_some h with ⟨rfl, ha, hd⟩ | ⟨hne, hpre, hcase⟩
  · cases hattr : isAttr with
    | true => exact .inr (.inr (.inl ⟨rfl, ha hattr⟩))
    | false => exact .inr (.inr (.inr (.inl ⟨rfl, hd hattr⟩)))
  · rcases hcase with ⟨-, h⟩ | ⟨-, h⟩ | ⟨-, -, hm⟩
    · exact .inl h
    · exact .inr (.inl h)
    · exact .inr (.inr (.inr (.inr ⟨pre, hm, fun _ => hne, hpre⟩)))

/-! ### New prefixes -/

/-- Lower-case letters that do not begin with `xml`. -/
structure IsBase (base : Text) : Prop where
  ne_nil : base ≠ []
  letters : ∀ b ∈ base, 0x61 ≤ b.toNat ∧ b.toNat ≤ 0x7A
  notXml : base.take 3 ≠ textBytes "xml"

theorem suggestPrefix_isBase (ns : Text) : IsBase (suggestPrefix ns) := by
  unfold suggestPrefix
  set letters := (((chopEnding ns).reverse.dropWhile fun ch => !isAsciiLetter ch).takeWhile
    isAsciiLetter).reverse with hletters
  have hall : ∀ b ∈ letters, isAsciiLetter b = true := by
    intro b hb
    rw [hletters, List.mem_reverse] at hb
    exact List.all_eq_true.mp List.all_takeWhile b hb
  set chosen := if letters.length > 4 then letters.take 3 else letters with hchosen
  have hsub : ∀ b ∈ chosen, b ∈ letters := by
    intro b hb
    rw [hchosen] at hb
    split_ifs at hb
    · exact List.mem_of_mem_take hb
    · exact hb
  dsimp only
  by_cases h : letters ≠ [] ∧ (asciiLower chosen).take 3 ≠ textBytes "xml"
  · rw [if_pos h]
    obtain ⟨hne, hxml⟩ := h
    have hc : chosen ≠ [] := by
      rw [hchosen]
      split_ifs
      · simp [hne]
      · exact hne
    refine ⟨by simpa [asciiLower] using hc, fun b hb => ?_, hxml⟩
    obtain ⟨a, ha, rfl⟩ := List.mem_map.mp hb
    have hl := hall a (hsub a ha)
    simp only [isAsciiLetter, Bool.or_eq_true, Bool.and_eq_true, decide_eq_true_eq,
      BitVec.le_def, BitVec.reduceToNat] at hl
    split_ifs with hup
    · simp only [BitVec.le_def, BitVec.reduceToNat] at hup
      rw [BitVec.toNat_add]
      simp only [BitVec.reduceToNat]
      omega
    · simp only [BitVec.le_def, BitVec.reduceToNat] at hup
      omega
  · rw [if_neg h]
    exact ⟨by decide, by decide, by decide⟩

/-- The prefixes that `AddNewPrefix` tries. -/
def candidate (base : Text) : ℕ → Text
  | 0 => base
  | k + 1 => base ++ Numeral.decimal (k + 2)

theorem candidate_injective (base : Text) : Function.Injective (candidate base) := by
  intro i j h
  cases i with
  | zero =>
    cases j with
    | zero => rfl
    | succ j =>
      have hnil : Numeral.decimal (j + 2) = [] := List.self_eq_append_right.mp h
      exact absurd hnil (Numeral.decimal_ne_nil _)
  | succ i =>
    cases j with
    | zero =>
      have hnil : Numeral.decimal (i + 2) = [] := List.append_right_eq_self.mp h
      exact absurd hnil (Numeral.decimal_ne_nil _)
    | succ j =>
      have hd : Numeral.decimal (i + 2) = Numeral.decimal (j + 2) := List.append_cancel_left h
      have hv := congrArg (Numeral.value 10) hd
      rw [Numeral.value_decimal, Numeral.value_decimal] at hv
      omega

/-- What an invented prefix is. -/
structure IsInvented (pre : Text) : Prop where
  name : isNCName pre
  notXml : isXmlPrefix pre = false

theorem isInvented_candidate {base : Text} (h : IsBase base) (k : ℕ) :
    IsInvented (candidate base k) := by
  obtain ⟨digits, hk, hdigits⟩ : ∃ digits, candidate base k = base ++ digits ∧
      ∀ b ∈ digits, Numeral.isDigit b := by
    cases k with
    | zero => exact ⟨[], (List.append_nil _).symm, by simp⟩
    | succ k => exact ⟨_, rfl, fun b hb => Numeral.isDigit_of_mem_decimal hb⟩
  rw [hk]
  obtain ⟨hne, hletters, hxml⟩ := h
  have hdigit {b : Byte} (hb : b ∈ digits) : 0x30 ≤ b.toNat ∧ b.toNat ≤ 0x39 := by
    simpa [Numeral.isDigit] using hdigits b hb
  obtain ⟨a, base, rfl⟩ := List.exists_cons_of_ne_nil hne
  refine ⟨?_, ?_⟩
  · -- letters and digits are ASCII
    have hascii : ∀ b ∈ a :: base ++ digits, b.toNat < 0x80 := by
      intro b hb
      rcases List.mem_append.mp hb with hb | hb
      · have := hletters b hb
        omega
      · have := hdigit hb
        omega
    unfold isNCName
    rw [decode_ascii hascii, List.cons_append, List.map_cons]
    dsimp only
    rw [Bool.and_eq_true, List.all_eq_true]
    refine ⟨by simp [isNameStart, hletters a List.mem_cons_self], fun c hc => ?_⟩
    obtain ⟨b, hb, rfl⟩ := List.mem_map.mp hc
    rcases List.mem_append.mp hb with hb | hb
    · exact isNameChar_of_start (by simp [isNameStart, hletters b (List.mem_cons_of_mem _ hb)])
    · simp [isNameChar, hdigit hb]
  · have hno (b lower upper : Byte) (hl : 0x41 ≤ lower.toNat) (hu : 0x41 ≤ upper.toNat)
        (hb : b ∈ digits) : isLetter lower upper b = false := by
      have hd := hdigit hb
      have h₁ : b ≠ lower := fun heq => by rw [heq] at hd; omega
      have h₂ : b ≠ upper := fun heq => by rw [heq] at hd; omega
      simp [isLetter, h₁, h₂]
    have hlower {b lower upper : Byte} (hb : b ∈ a :: base) (hu : upper.toNat < 0x61)
        (hl : isLetter lower upper b = true) : b = lower := by
      have hne : b ≠ upper := fun heq => by
        have := hletters b hb
        rw [heq] at this
        omega
      simpa [isLetter, hne] using hl
    by_contra hx
    have hx : isXmlPrefix (a :: base ++ digits) = true := by simpa using hx
    rcases base with _ | ⟨b, _ | ⟨c, base⟩⟩
    · rcases digits with _ | ⟨d, _ | ⟨d', digits⟩⟩
      · cases hx
      · cases hx
      · have hd := hno d 0x6D#8 0x4D#8 (by decide) (by decide) (by simp)
        simp [isXmlPrefix, hd] at hx
    · rcases digits with _ | ⟨d, digits⟩
      · cases hx
      · have hd := hno d 0x6C#8 0x4C#8 (by decide) (by decide) (by simp)
        simp [isXmlPrefix, hd] at hx
    · -- three letters that are `xml`
      simp only [List.cons_append, isXmlPrefix, Bool.and_eq_true] at hx
      obtain ⟨⟨ha, hb⟩, hc⟩ := hx
      have ha := hlower (by simp) (by decide) ha
      have hb := hlower (by simp) (by decide) hb
      have hc := hlower (by simp) (by decide) hc
      exact hxml (by rw [ha, hb, hc]; rfl)

theorem freePrefix_spec (base : Text) (fuel : ℕ) : ∀ k j : ℕ, k ≤ j → j < k + fuel →
    s.nsForPrefix (candidate base j) = none →
      ∃ i, s.freePrefix base fuel (k + 2) (candidate base k) = candidate base i ∧
        s.nsForPrefix (candidate base i) = none := by
  induction fuel with
  | zero => exact fun k j hkj hj => absurd hj (by omega)
  | succ fuel ih =>
    intro k j hkj hj hfree
    rw [freePrefix]
    by_cases hk : s.nsForPrefix (candidate base k) = none
    · exact ⟨k, if_pos hk, hk⟩
    · rw [if_neg hk]
      have hne : k ≠ j := fun heq => hk (heq ▸ hfree)
      exact ih (k + 1) j (by omega) (by omega) hfree

theorem exists_free {base : Text} (h : IsBase base) :
    ∃ j, j < s.xmlns.length + 2 ∧ s.nsForPrefix (candidate base j) = none := by
  by_contra hno
  have hall : ∀ j, j < s.xmlns.length + 2 → candidate base j ∈ s.xmlns.map Prod.fst := by
    intro j hj
    cases hn : s.nsForPrefix (candidate base j) with
    | none => exact absurd ⟨j, hj, hn⟩ hno
    | some ns =>
      have hi := isInvented_candidate h j
      exact List.mem_map.mpr
        ⟨_, mem_of_nsForPrefix hi.notXml (isNCName_ne_nil hi.name) hn, rfl⟩
  have hsub : (List.range (s.xmlns.length + 2)).map (candidate base) ⊆ s.xmlns.map Prod.fst := by
    intro c hc
    obtain ⟨j, hj, rfl⟩ := List.mem_map.mp hc
    exact hall j (List.mem_range.mp hj)
  have hnodup : ((List.range (s.xmlns.length + 2)).map (candidate base)).Nodup :=
    List.nodup_range.map (candidate_injective base)
  have hlen := (hnodup.subperm hsub).length_le
  simp at hlen

theorem addNewPrefix_some {ns : Text} {isAttr : Bool} (h : s.prefixForNs ns isAttr = none) :
    ∃ pre, s.addNewPrefix ns isAttr = (some pre, s.addXmlns pre ns) ∧ IsInvented pre ∧
      s.nsForPrefix pre = none := by
  have hbase := suggestPrefix_isBase ns
  obtain ⟨j, hj, hfree⟩ := s.exists_free hbase
  obtain ⟨i, hi, hnone⟩ := s.freePrefix_spec (suggestPrefix ns) (s.xmlns.length + 2) 0 j
    (Nat.zero_le _) (by omega) hfree
  refine ⟨candidate (suggestPrefix ns) i, ?_, isInvented_candidate hbase i, hnone⟩
  unfold addNewPrefix
  rw [h]
  dsimp only
  have hi' : s.freePrefix (suggestPrefix ns) (s.xmlns.length + 2) 2 (suggestPrefix ns) =
    candidate (suggestPrefix ns) i := hi
  rw [hi']

/-- Declarations that are added one after the other. -/
def addAll (s : XmlnsStack) (decls : List (Text × Text)) : XmlnsStack :=
  decls.foldl (fun s d => s.addXmlns d.1 d.2) s

theorem Covers.addAll (h : Covers s x) (decls : List (Text × Text)) :
    Covers (s.addAll decls) (x.addAll decls) := by
  induction decls generalizing s x with
  | nil => exact h
  | cons d decls ih => exact ih (h.addXmlns d.1 d.2)

theorem mem_addAll {d : Text × Text} (decls : List (Text × Text)) :
    d ∈ (s.addAll decls).xmlns ↔ d ∈ decls ∨ d ∈ s.xmlns := by
  induction decls generalizing s with
  | nil => simp [addAll]
  | cons d' decls ih =>
    show d ∈ ((s.addXmlns d'.1 d'.2).addAll decls).xmlns ↔ _
    rw [ih]
    simp only [addXmlns, List.mem_cons]
    tauto

theorem nsForPrefix_addAll_ne_none {q : Text} (decls : List (Text × Text))
    (h : s.nsForPrefix q ≠ none) : (s.addAll decls).nsForPrefix q ≠ none := by
  induction decls generalizing s with
  | nil => exact h
  | cons d decls ih =>
    refine @ih (s.addXmlns d.1 d.2) ?_
    rw [nsForPrefix_addXmlns]
    split_ifs
    · simp
    · exact h

theorem nsForPrefix_addAll_of_mem {d : Text × Text} (hx : isXmlPrefix d.1 = false)
    {decls : List (Text × Text)} (hd : d ∈ decls) : (s.addAll decls).nsForPrefix d.1 ≠ none := by
  induction decls generalizing s with
  | nil => exact absurd hd (by simp)
  | cons e decls ih =>
    show ((s.addXmlns e.1 e.2).addAll decls).nsForPrefix d.1 ≠ none
    rcases List.mem_cons.mp hd with rfl | hd
    · refine nsForPrefix_addAll_ne_none decls ?_
      rw [nsForPrefix_addXmlns, if_pos ⟨hx, rfl⟩]
      simp
    · exact ih hd

/-- What `newXmlns` does for some names. -/
structure Invented (s : XmlnsStack) (names : List (Text × Bool)) (decls : List (Text × Text))
    (s' : XmlnsStack) : Prop where
  stack : s' = s.addAll decls
  covers : Covers s' s
  prefixed : ∀ n ∈ names, s'.HasPrefix n.1 n.2
  fresh : ∀ d ∈ decls, IsInvented d.1 ∧ s.nsForPrefix d.1 = none
  nodup : (decls.map Prod.fst).Nodup
  needed : ∀ d ∈ decls, ∃ isAttr, (d.2, isAttr) ∈ names ∧ ¬ s.HasPrefix d.2 isAttr

theorem newXmlns_invented (names : List (Text × Bool)) :
    Invented s names (newXmlns s names).1 (newXmlns s names).2 := by
  induction names generalizing s with
  | nil => exact ⟨rfl, .refl s, by simp, by simp [newXmlns], by simp [newXmlns], by simp [newXmlns]⟩
  | cons n names ih =>
    obtain ⟨ns, isAttr⟩ := n
    cases hp : s.prefixForNs ns isAttr with
    | some pre =>
      have hnew : newXmlns s ((ns, isAttr) :: names) = newXmlns s names := by
        rw [newXmlns, addNewPrefix, hp]
      have hhas : s.HasPrefix ns isAttr := hasPrefix_of_prefixForNs hp
      have h := @ih s
      rw [hnew]
      refine ⟨h.stack, h.covers, ?_, h.fresh, h.nodup, ?_⟩
      · intro n hn
        rcases List.mem_cons.mp hn with rfl | hn
        · exact hhas.mono h.covers
        · exact h.prefixed n hn
      · intro d hd
        obtain ⟨a, ha, hno⟩ := h.needed d hd
        exact ⟨a, List.mem_cons_of_mem _ ha, hno⟩
    | none =>
      obtain ⟨pre, hadd, hinv, hfree⟩ := addNewPrefix_some hp
      have hnew : newXmlns s ((ns, isAttr) :: names) =
          ((pre, ns) :: (newXmlns (s.addXmlns pre ns) names).1,
            (newXmlns (s.addXmlns pre ns) names).2) := by
        rw [newXmlns, hadd]
      have hcov : Covers (s.addXmlns pre ns) s := .of_free hfree ns
      have hbound : (s.addXmlns pre ns).nsForPrefix pre = some ns := by
        rw [nsForPrefix_addXmlns, if_pos ⟨hinv.notXml, rfl⟩]
      have h := @ih (s.addXmlns pre ns)
      rw [hnew]
      refine ⟨h.stack, h.covers.trans hcov, ?_, ?_, ?_, ?_⟩
      · intro n hn
        rcases List.mem_cons.mp hn with rfl | hn
        · have hhas : (s.addXmlns pre ns).HasPrefix ns isAttr :=
            .inr (.inr (.inr (.inr ⟨pre, List.mem_cons_self, fun _ => isNCName_ne_nil hinv.name,
              hbound⟩)))
          exact hhas.mono h.covers
        · exact h.prefixed n hn
      · intro d hd
        rcases List.mem_cons.mp hd with rfl | hd
        · exact ⟨hinv, hfree⟩
        · obtain ⟨hi, hn⟩ := h.fresh d hd
          refine ⟨hi, ?_⟩
          cases hq : s.nsForPrefix d.1 with
          | none => rfl
          | some ns' =>
            rw [hcov.bound _ _ hq] at hn
            cases hn
      · rw [List.map_cons, List.nodup_cons]
        refine ⟨fun hm => ?_, h.nodup⟩
        obtain ⟨d, hd, hd1⟩ := List.mem_map.mp hm
        have hn := (h.fresh d hd).2
        rw [hd1, hbound] at hn
        cases hn
      · intro d hd
        rcases List.mem_cons.mp hd with rfl | hd
        · exact ⟨isAttr, List.mem_cons_self, prefixForNs_none hp⟩
        · obtain ⟨a, ha, hno⟩ := h.needed d hd
          exact ⟨a, List.mem_cons_of_mem _ ha, fun hh => hno (hh.mono hcov)⟩

/-! ### Printed names -/

/-- The prefixes that were declared are names. -/
def Named (s : XmlnsStack) : Prop := ∀ d ∈ s.xmlns, d.1 = [] ∨ isNCName d.1

theorem formatQName_cases (hs : s.Named) {name : QName} {isAttr : Bool}
    (hp : s.HasPrefix name.namespace_ isAttr) :
    (s.formatQName name isAttr = name.localPart ∧ (isAttr = true → name.namespace_ = []) ∧
        (isAttr = false → s.nsForPrefix [] = some name.namespace_)) ∨
      ∃ pre, s.formatQName name isAttr = pre ++ 0x3A#8 :: name.localPart ∧ isNCName pre ∧
        s.nsForPrefix pre = some name.namespace_ ∧
        (pre = textBytes "xml" ∨ (pre = textBytes "xmlns" ∧ name.namespace_ = nsXmlns) ∨
          (isXmlPrefix pre = false ∧ name.namespace_ ≠ nsXmlns)) := by
  cases hq : s.prefixForNs name.namespace_ isAttr with
  | none => exact absurd hp (prefixForNs_none hq)
  | some pre =>
    rcases prefixForNs_some hq with ⟨rfl, ha, hd⟩ | ⟨hne, hpre, hcase⟩
    · exact .inl ⟨by simp [formatQName, hq], ha, hd⟩
    · have hform : s.formatQName name isAttr = pre ++ 0x3A#8 :: name.localPart := by
        rw [formatQName, hq, Option.getD_some, if_neg hne, List.append_assoc]
        rfl
      refine .inr ⟨pre, hform, ?_, hpre, ?_⟩
      · rcases hcase with ⟨rfl, -⟩ | ⟨rfl, -⟩ | ⟨-, -, hm⟩
        · decide
        · decide
        · exact (hs _ hm).resolve_left hne
      · rcases hcase with ⟨h, -⟩ | h | ⟨hx, hns, -⟩
        · exact .inl h
        · exact .inr (.inl h)
        · exact .inr (.inr ⟨hx, hns⟩)

end XmlnsStack

open XmlnsStack

variable {s : XmlnsStack} {name : QName} {isAttr : Bool}

theorem isQName_formatQName (hs : s.Named) (hl : isNCName name.localPart)
    (hp : s.HasPrefix name.namespace_ isAttr) : isQName (s.formatQName name isAttr) := by
  rcases formatQName_cases hs hp with ⟨hf, -⟩ | ⟨pre, hf, hpre, -⟩
  · rw [hf]
    exact isQName_of_isNCName hl
  · rw [hf]
    exact isQName_append hpre hl

theorem takeWhile_colon {l : Text} (hl : isNCName l) (rest : Text) :
    (l ++ 0x3A#8 :: rest).takeWhile (· ≠ 0x3A#8) = l := by
  refine Numeral.takeWhile_append_stop (fun b hb => ?_) (by simp [Numeral.StopsAt])
  simpa using ne_of_mem_isNCName hl hb (by decide) (by decide)

theorem takeWhile_noColon {l : Text} (hl : isNCName l) : l.takeWhile (· ≠ 0x3A#8) = l := by
  have hstop : (l ++ []).takeWhile (· ≠ 0x3A#8) = l := by
    refine Numeral.takeWhile_append_stop (fun b hb => ?_) Numeral.stopsAt_nil
    simpa using ne_of_mem_isNCName hl hb (by decide) (by decide)
  simpa using hstop

theorem resolveQName_formatQName (hs : s.Named) (hl : isNCName name.localPart)
    (hp : s.HasPrefix name.namespace_ isAttr) {c : ParseContext} (hc : c.xmlnsstack = s) :
    c.resolveQName (s.formatQName name isAttr) isAttr = name := by
  unfold ParseContext.resolveQName
  rcases formatQName_cases hs hp with ⟨hf, ha, hd⟩ | ⟨pre, hf, hpre, hns, -⟩
  · rw [hf, takeWhile_noColon hl]
    dsimp only
    rw [if_neg (lt_irrefl _)]
    cases isAttr with
    | true =>
      rw [if_pos rfl, ← ha rfl]
    | false =>
      rw [if_neg (by simp), hc, hd rfl]
  · rw [hf, takeWhile_colon hpre]
    dsimp only
    rw [if_pos (by simp), hc, hns]
    simp

end Jingle.Xmllite
