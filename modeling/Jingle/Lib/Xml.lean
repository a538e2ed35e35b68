/-
Reading XML 1.0.

`readDocument` reads a document and gives its start tags, end tags and texts, or
nothing.  It reads a part of XML 1.0 only: one element, attributes in double quotes
with one space before each, names with at most one colon, the references of XML
itself, no comments, declarations or processing instructions.  What it reads is well
formed, and has these parts; about other documents it says nothing.

A document is a list of bytes, in UTF-8.  The reader keeps the names of the open
elements.  `Reads` says what it reads from some content, whatever its fuel; for each
kind of tag there is a rule: `Reads.text`, `Reads.empty`, `Reads.start`, `Reads.stop`.
-/
import Jingle.Lib.Numeral

namespace Jingle.Xml

open Numeral (StopsAt takeWhile_append_stop dropWhile_append_stop)

/-! ### Characters -/

/-- UTF-8 after a byte of which `n` more are due: `acc` is what they add to, and the
character may not be less than `least`. -/
def decodeFrom : ℕ → ℕ → ℕ → List Byte → Option (List ℕ)
  | 0, _, _, [] => some []
  | _ + 1, _, _, [] => none
  | 0, _, _, b :: t =>
    if b.toNat < 0x80 then (decodeFrom 0 0 0 t).map (b.toNat :: ·)
    else if b.toNat < 0xC0 then none
    else if b.toNat < 0xE0 then decodeFrom 1 (b.toNat - 0xC0) 0x80 t
    else if b.toNat < 0xF0 then decodeFrom 2 (b.toNat - 0xE0) 0x800 t
    else if b.toNat < 0xF8 then decodeFrom 3 (b.toNat - 0xF0) 0x10000 t
    else none
  | n + 1, acc, least, b :: t =>
    if 0x80 ≤ b.toNat ∧ b.toNat < 0xC0 then
      let c := 64 * acc + (b.toNat - 0x80)
      if n = 0 then if least ≤ c then (decodeFrom 0 0 0 t).map (c :: ·) else none
      else decodeFrom n c least t
    else none

/-- The characters of a text. -/
def decode (t : List Byte) : Option (List ℕ) := decodeFrom 0 0 0 t

/-- `Char`. -/
def isChar (c : ℕ) : Bool :=
  c = 0x9 || c = 0xA || c = 0xD || (0x20 ≤ c && c ≤ 0xD7FF) || (0xE000 ≤ c && c ≤ 0xFFFD) ||
    (0x10000 ≤ c && c ≤ 0x10FFFF)

/-- `NameStartChar`, but for the colon. -/
def isNameStart (c : ℕ) : Bool :=
  (0x41 ≤ c && c ≤ 0x5A) || c = 0x5F || (0x61 ≤ c && c ≤ 0x7A) || (0xC0 ≤ c && c ≤ 0xD6) ||
    (0xD8 ≤ c && c ≤ 0xF6) || (0xF8 ≤ c && c ≤ 0x2FF) || (0x370 ≤ c && c ≤ 0x37D) ||
    (0x37F ≤ c && c ≤ 0x1FFF) || (0x200C ≤ c && c ≤ 0x200D) || (0x2070 ≤ c && c ≤ 0x218F) ||
    (0x2C00 ≤ c && c ≤ 0x2FEF) || (0x3001 ≤ c && c ≤ 0xD7FF) || (0xF900 ≤ c && c ≤ 0xFDCF) ||
    (0xFDF0 ≤ c && c ≤ 0xFFFD) || (0x10000 ≤ c && c ≤ 0xEFFFF)

/-- `NameChar`, but for the colon. -/
def isNameChar (c : ℕ) : Bool :=
  isNameStart c || c = 0x2D || c = 0x2E || (0x30 ≤ c && c ≤ 0x39) || c = 0xB7 ||
    (0x300 ≤ c && c ≤ 0x36F) || (0x203F ≤ c && c ≤ 0x2040)

/-- A text of characters that XML allows. -/
def isLegal (t : List Byte) : Bool := (decode t).any fun cs => cs.all isChar

/-- `NCName`. -/
def isNCName (t : List Byte) : Bool :=
  match decode t with
  | some (c :: cs) => isNameStart c && cs.all isNameChar
  | _ => false

/-- `QName`. -/
def isQName (t : List Byte) : Bool :=
  let pre := t.takeWhile (· ≠ 0x3A#8)
  if pre.length < t.length then isNCName pre && isNCName (t.drop (pre.length + 1))
  else isNCName t

theorem mem_of_decodeFrom (t : List Byte) : ∀ {n acc least : ℕ} {cs : List ℕ},
    decodeFrom n acc least t = some cs → ∀ b ∈ t, b.toNat < 0x80 → b.toNat ∈ cs := by
  induction t with
  | nil => exact fun _ b hb => absurd hb (by simp)
  | cons a t ih =>
    intro n acc least cs h b hb hlt
    cases n with
    | zero =>
      rw [decodeFrom] at h
      split_ifs at h with h₁ h₂ h₃ h₄ h₅
      · obtain ⟨cs', hcs, rfl⟩ := Option.map_eq_some_iff.mp h
        rcases List.mem_cons.mp hb with rfl | hb
        · exact List.mem_cons_self
        · exact List.mem_cons_of_mem _ (ih hcs b hb hlt)
      all_goals
        rcases List.mem_cons.mp hb with rfl | hb
        · omega
        · exact ih h b hb hlt
    | succ n =>
      rw [decodeFrom] at h
      dsimp only at h
      split_ifs at h with h₁ h₂ h₃
      · obtain ⟨cs', hcs, rfl⟩ := Option.map_eq_some_iff.mp h
        rcases List.mem_cons.mp hb with rfl | hb
        · omega
        · exact List.mem_cons_of_mem _ (ih hcs b hb hlt)
      · rcases List.mem_cons.mp hb with rfl | hb
        · omega
        · exact ih h b hb hlt

theorem decode_ascii {t : List Byte} (h : ∀ b ∈ t, b.toNat < 0x80) :
    decode t = some (t.map BitVec.toNat) := by
  unfold decode
  induction t with
  | nil => rfl
  | cons a t ih =>
    rw [decodeFrom, if_pos (h a (by simp)), ih fun b hb => h b (by simp [hb])]
    rfl

theorem decodeFrom_append {u : List Byte} {cs' : List ℕ} (hu : decode u = some cs')
    (t : List Byte) : ∀ {n acc least : ℕ} {cs : List ℕ},
      decodeFrom n acc least t = some cs → decodeFrom n acc least (t ++ u) = some (cs ++ cs') := by
  induction t with
  | nil =>
    intro n acc least cs h
    cases n with
    | zero =>
      cases h
      -- nothing is due
      cases u with
      | nil => exact hu
      | cons b u => exact hu
    | succ n => cases h
  | cons a t ih =>
    intro n acc least cs h
    cases n with
    | zero =>
      rw [decodeFrom] at h
      rw [List.cons_append, decodeFrom]
      split_ifs at h ⊢
      · obtain ⟨cs₀, hcs, rfl⟩ := Option.map_eq_some_iff.mp h
        rw [ih hcs]
        rfl
      all_goals exact ih h
    | succ n =>
      rw [decodeFrom] at h
      rw [List.cons_append, decodeFrom]
      dsimp only at h ⊢
      split_ifs at h ⊢
      · obtain ⟨cs₀, hcs, rfl⟩ := Option.map_eq_some_iff.mp h
        rw [ih hcs]
        rfl
      · exact ih h

theorem isLegal_append {t u : List Byte} (ht : isLegal t) (hu : isLegal u) :
    isLegal (t ++ u) := by
  unfold isLegal at ht hu ⊢
  obtain ⟨cs, hcs, ht⟩ := (Option.any_eq_true _ _).mp ht
  obtain ⟨cs', hcs', hu⟩ := (Option.any_eq_true _ _).mp hu
  have hdec : decode (t ++ u) = some (cs ++ cs') := decodeFrom_append hcs' t hcs
  rw [hdec]
  simp only [Option.any_some, List.all_append, ht, hu, Bool.and_self]

theorem isNameChar_of_start {c : ℕ} (h : isNameStart c) : isNameChar c := by
  simp [isNameChar, h]

theorem exists_of_isNCName {t : List Byte} (h : isNCName t) :
    ∃ cs, decode t = some cs ∧ cs ≠ [] ∧ ∀ c ∈ cs, isNameChar c := by
  unfold isNCName at h
  split at h
  next c cs hcs =>
    obtain ⟨hc, hall⟩ := Bool.and_eq_true_iff.mp h
    refine ⟨c :: cs, hcs, by simp, fun x hx => ?_⟩
    rcases List.mem_cons.mp hx with rfl | hx
    · exact isNameChar_of_start hc
    · exact List.all_eq_true.mp hall x hx
  next => cases h

theorem isNCName_ne_nil {t : List Byte} (h : isNCName t) : t ≠ [] := by
  rintro rfl
  simp [isNCName, decode, decodeFrom] at h

theorem isNameChar_of_mem {t : List Byte} (h : isNCName t) {b : Byte} (hb : b ∈ t)
    (hlt : b.toNat < 0x80) : isNameChar b.toNat := by
  obtain ⟨cs, hcs, -, hall⟩ := exists_of_isNCName h
  exact hall _ (mem_of_decodeFrom t hcs b hb hlt)

theorem ne_of_mem_isNCName {t : List Byte} (h : isNCName t) {b : Byte} (hb : b ∈ t) {x : Byte}
    (hx : x.toNat < 0x80) (hn : isNameChar x.toNat = false) : b ≠ x := by
  rintro rfl
  rw [isNameChar_of_mem h hb hx] at hn
  cases hn

/-! ### References -/

/-- The characters that XML names. -/
def entity (name : List Byte) : Option Byte :=
  if name = [0x6C#8, 0x74#8] then some 0x3C#8
  else if name = [0x67#8, 0x74#8] then some 0x3E#8
  else if name = [0x61#8, 0x6D#8, 0x70#8] then some 0x26#8
  else if name = [0x71#8, 0x75#8, 0x6F#8, 0x74#8] then some 0x22#8
  else if name = [0x61#8, 0x70#8, 0x6F#8, 0x73#8] then some 0x27#8
  else none

/-- What a text stands for; within a reference, with its name so far.  The bytes that
are `bad` may not stand in it as they are. -/
def unescape (bad : Byte → Bool) : Option (List Byte) → List Byte → Option (List Byte)
  | none, [] => some []
  | some _, [] => none
  | none, b :: t =>
    if b = 0x26#8 then unescape bad (some []) t
    else if bad b then none
    else (unescape bad none t).map (b :: ·)
  | some name, b :: t =>
    if b = 0x3B#8 then (entity name).bind fun c => (unescape bad none t).map (c :: ·)
    else unescape bad (some (name ++ [b])) t

/-- What may not stand in a text: a tag, and what a reader of XML changes. -/
def badText (b : Byte) : Bool := b = 0x3C#8 || b = 0x3E#8 || b = 0xD#8

/-- What may not stand in the value of an attribute. -/
def badValue (b : Byte) : Bool :=
  b = 0x3C#8 || b = 0x22#8 || b = 0xD#8 || b = 0xA#8 || b = 0x9#8

section Unescape

variable {bad : Byte → Bool}

theorem unescape_plain {b : Byte} (hb : bad b = false) (hne : b ≠ 0x26#8) (t : List Byte) :
    unescape bad none (b :: t) = (unescape bad none t).map (b :: ·) := by
  rw [unescape, if_neg hne, hb]
  rfl

theorem unescape_name {name : List Byte} (hname : 0x3B#8 ∉ name) (t : List Byte) :
    ∀ before : List Byte, unescape bad (some before) (name ++ 0x3B#8 :: t) =
      (entity (before ++ name)).bind fun c => (unescape bad none t).map (c :: ·) := by
  induction name with
  | nil =>
    intro before
    rw [List.nil_append, List.append_nil, unescape, if_pos rfl]
  | cons a name ih =>
    intro before
    have ha : a ≠ 0x3B#8 := fun h => hname (by simp [h])
    rw [List.cons_append, unescape, if_neg ha, ih fun h => hname (by simp [h]),
      List.append_assoc]
    rfl

theorem unescape_entity {name : List Byte} {c : Byte} (hname : 0x3B#8 ∉ name)
    (hc : entity name = some c) (t : List Byte) :
    unescape bad none (0x26#8 :: (name ++ 0x3B#8 :: t)) =
      (unescape bad none t).map (c :: ·) := by
  rw [unescape, if_pos rfl, unescape_name hname, List.nil_append, hc]
  rfl

theorem unescape_self {t : List Byte} (h : ∀ b ∈ t, bad b = false ∧ b ≠ 0x26#8) :
    unescape bad none t = some t := by
  induction t with
  | nil => rfl
  | cons b t ih =>
    obtain ⟨hb, hne⟩ := h b (by simp)
    rw [unescape_plain hb hne, ih fun x hx => h x (by simp [hx])]
    rfl

end Unescape

/-! ### Tags -/

/-- What is not the end of a name. -/
def nameByte (b : Byte) : Bool := b ≠ 0x20#8 && b ≠ 0x3D#8 && b ≠ 0x2F#8 && b ≠ 0x3E#8

/-- The attributes of a tag and its end: whether it is an empty element's, and what
follows. -/
def readAttrs : ℕ → List Byte → Option (List (List Byte × List Byte) × Bool × List Byte)
  | 0, _ => none
  | _ + 1, [] => none
  | fuel + 1, b :: t =>
    if b = 0x3E#8 then some ([], false, t)
    else if b = 0x2F#8 then
      if t.head? = some 0x3E#8 then some ([], true, t.tail) else none
    else if b = 0x20#8 then
      let name := t.takeWhile nameByte
      let rest := t.dropWhile nameByte
      if isQName name ∧ rest.take 2 = [0x3D#8, 0x22#8] then
        let raw := (rest.drop 2).takeWhile (· ≠ 0x22#8)
        let after := (rest.drop 2).dropWhile (· ≠ 0x22#8)
        match unescape badValue none raw with
        | some value =>
          if isLegal value ∧ after ≠ [] then
            (readAttrs fuel after.tail).map fun r => ((name, value) :: r.1, r.2)
          else none
        | none => none
      else none
    else none

/-- The parts of a document. -/
inductive Event
  | start (name : List Byte) (atts : List (List Byte × List Byte))
  | stop (name : List Byte)
  | text (text : List Byte)
  deriving DecidableEq, Repr

/-- After a tag: the document ends with its only element. -/
def next (content : List (List Byte) → List Byte → Option (List Event))
    (names : List (List Byte)) (t : List Byte) : Option (List Event) :=
  if names = [] then if t = [] then some [] else none else content names t

/-- The content of the innermost of the open elements, and what follows. -/
def read : ℕ → List (List Byte) → List Byte → Option (List Event)
  | 0, _, _ => none
  | _ + 1, _, [] => none
  | fuel + 1, names, b :: t =>
    if b = 0x3C#8 then
      if t.head? = some 0x2F#8 then
        let name := t.tail.takeWhile (· ≠ 0x3E#8)
        let rest := t.tail.dropWhile (· ≠ 0x3E#8)
        match names with
        | [] => none
        | top :: outer =>
          if name = top ∧ rest ≠ [] then
            (next (read fuel) outer rest.tail).map (.stop name :: ·)
          else none
      else
        let name := t.takeWhile nameByte
        if isQName name then
          match readAttrs (t.length + 1) (t.dropWhile nameByte) with
          | none => none
          | some (atts, empty, rest) =>
            if (atts.map Prod.fst).Nodup then
              if empty then
                (next (read fuel) names rest).map fun evs => .start name atts :: .stop name :: evs
              else (read fuel (name :: names) rest).map (.start name atts :: ·)
            else none
        else none
    else if names = [] then none
    else
      match unescape badText none ((b :: t).takeWhile (· ≠ 0x3C#8)) with
      | none => none
      | some text =>
        if isLegal text then
          (read fuel names ((b :: t).dropWhile (· ≠ 0x3C#8))).map (.text text :: ·)
        else none

/-- **A document.** -/
def readDocument (t : List Byte) : Option (List Event) := read (t.length + 1) [] t

/-! ### Names in tags -/

theorem isQName_of_isNCName {t : List Byte} (h : isNCName t) : isQName t := by
  have hall : t.takeWhile (· ≠ 0x3A#8) = t := by
    have hstop : (t ++ []).takeWhile (· ≠ 0x3A#8) = t := by
      refine takeWhile_append_stop (fun b hb => ?_) Numeral.stopsAt_nil
      simpa using ne_of_mem_isNCName h hb (by decide) (by decide)
    simpa using hstop
  unfold isQName
  rw [hall, if_neg (lt_irrefl _)]
  exact h

theorem isQName_append {p l : List Byte} (hp : isNCName p) (hl : isNCName l) :
    isQName (p ++ 0x3A#8 :: l) := by
  have htake : (p ++ 0x3A#8 :: l).takeWhile (· ≠ 0x3A#8) = p := by
    refine takeWhile_append_stop (fun b hb => ?_) (by simp [StopsAt])
    simpa using ne_of_mem_isNCName hp hb (by decide) (by decide)
  have hdrop : (p ++ 0x3A#8 :: l).drop (p.length + 1) = l := by simp
  unfold isQName
  rw [htake]
  dsimp only
  rw [hdrop, if_pos (by simp)]
  simp [hp, hl]

theorem isQName_cases {t : List Byte} (h : isQName t) :
    isNCName t ∨ ∃ p l, t = p ++ 0x3A#8 :: l ∧ isNCName p ∧ isNCName l := by
  unfold isQName at h
  dsimp only at h
  split_ifs at h with hlt
  · obtain ⟨hp, hl⟩ := Bool.and_eq_true_iff.mp h
    refine .inr ⟨_, _, ?_, hp, hl⟩
    have hsplit := List.takeWhile_append_dropWhile (p := (· ≠ 0x3A#8)) (l := t)
    cases hd : t.dropWhile (· ≠ 0x3A#8) with
    | nil =>
      rw [hd, List.append_nil] at hsplit
      rw [hsplit] at hlt
      exact absurd hlt (lt_irrefl _)
    | cons c l =>
      -- the rest begins with the colon
      have hc : c = 0x3A#8 := by
        have hhead := List.head?_dropWhile_not (· ≠ 0x3A#8) t
        rw [hd] at hhead
        simpa using hhead
      rw [hd, hc] at hsplit
      have hdrop : ∀ pre : List Byte, pre ++ 0x3A#8 :: l = t → t.drop (pre.length + 1) = l := by
        rintro pre rfl
        simp
      rw [hdrop _ hsplit]
      exact hsplit.symm
  · exact .inl h

theorem nameByte_of_mem {t : List Byte} (h : isQName t) {b : Byte} (hb : b ∈ t) :
    nameByte b := by
  have hpart {u : List Byte} (hu : isNCName u) (hbu : b ∈ u) : nameByte b := by
    have h₁ := ne_of_mem_isNCName hu hbu (x := 0x20#8) (by decide) (by decide)
    have h₂ := ne_of_mem_isNCName hu hbu (x := 0x3D#8) (by decide) (by decide)
    have h₃ := ne_of_mem_isNCName hu hbu (x := 0x2F#8) (by decide) (by decide)
    have h₄ := ne_of_mem_isNCName hu hbu (x := 0x3E#8) (by decide) (by decide)
    simp [nameByte, h₁, h₂, h₃, h₄]
  rcases isQName_cases h with h | ⟨p, l, rfl, hp, hl⟩
  · exact hpart h hb
  · rcases List.mem_append.mp hb with hb | hb
    · exact hpart hp hb
    · rcases List.mem_cons.mp hb with rfl | hb
      · decide
      · exact hpart hl hb

theorem isQName_ne_nil {t : List Byte} (h : isQName t) : t ≠ [] := by
  rcases isQName_cases h with h | ⟨p, l, rfl, -, -⟩
  · exact isNCName_ne_nil h
  · simp

/-! ### The rules of the reader -/

/-- An attribute as it stands in a tag. -/
def renderAttr (name raw : List Byte) : List Byte :=
  0x20#8 :: (name ++ 0x3D#8 :: 0x22#8 :: (raw ++ [0x22#8]))

/-- The text between the quotes stands for this value. -/
structure ReadsValue (raw value : List Byte) : Prop where
  closed : 0x22#8 ∉ raw
  unescaped : unescape badValue none raw = some value
  legal : isLegal value

/-- The end of a tag. -/
def tagEnd (empty : Bool) : List Byte := if empty then [0x2F#8, 0x3E#8] else [0x3E#8]

theorem readAttrs_end (empty : Bool) (rest : List Byte) {fuel : ℕ} (hfuel : 0 < fuel) :
    readAttrs fuel (tagEnd empty ++ rest) = some ([], empty, rest) := by
  obtain ⟨n, rfl⟩ : ∃ n, fuel = n + 1 := ⟨fuel - 1, by omega⟩
  cases empty <;> rfl

theorem readAttrs_render (atts : List (List Byte × List Byte × List Byte))
    (h : ∀ a ∈ atts, isQName a.1 ∧ ReadsValue a.2.1 a.2.2) (empty : Bool) (rest : List Byte)
    {fuel : ℕ} (hfuel : atts.length < fuel) :
    readAttrs fuel (atts.flatMap (fun a => renderAttr a.1 a.2.1) ++ (tagEnd empty ++ rest)) =
      some (atts.map fun a => (a.1, a.2.2), empty, rest) := by
  induction atts generalizing fuel with
  | nil => exact readAttrs_end empty rest (by simpa using hfuel)
  | cons a atts ih =>
    obtain ⟨name, raw, value⟩ := a
    obtain ⟨hn, hv⟩ := h _ List.mem_cons_self
    obtain ⟨n, rfl⟩ : ∃ n, fuel = n + 1 := ⟨fuel - 1, by omega⟩
    generalize htail : atts.flatMap (fun a => renderAttr a.1 a.2.1) ++ (tagEnd empty ++ rest) =
      tail at ih
    have htext : ((name, raw, value) :: atts).flatMap (fun a => renderAttr a.1 a.2.1) ++
        (tagEnd empty ++ rest) =
        0x20#8 :: (name ++ 0x3D#8 :: 0x22#8 :: (raw ++ 0x22#8 :: tail)) := by
      rw [← htail]
      simp [renderAttr]
    have hname : (name ++ 0x3D#8 :: 0x22#8 :: (raw ++ 0x22#8 :: tail)).takeWhile nameByte =
        name := takeWhile_append_stop (fun b hb => nameByte_of_mem hn hb) (by simp [StopsAt]; decide)
    have hrest : (name ++ 0x3D#8 :: 0x22#8 :: (raw ++ 0x22#8 :: tail)).dropWhile nameByte =
        0x3D#8 :: 0x22#8 :: (raw ++ 0x22#8 :: tail) :=
      dropWhile_append_stop (fun b hb => nameByte_of_mem hn hb) (by simp [StopsAt]; decide)
    have hraw : (raw ++ 0x22#8 :: tail).takeWhile (· ≠ 0x22#8) = raw := by
      refine takeWhile_append_stop (fun b hb => ?_) (by simp [StopsAt])
      have hne : b ≠ 0x22#8 := fun heq => hv.closed (heq ▸ hb)
      simpa using hne
    have hafter : (raw ++ 0x22#8 :: tail).dropWhile (· ≠ 0x22#8) = 0x22#8 :: tail := by
      refine dropWhile_append_stop (fun b hb => ?_) (by simp [StopsAt])
      have hne : b ≠ 0x22#8 := fun heq => hv.closed (heq ▸ hb)
      simpa using hne
    have hih := @ih (fun a ha => h a (List.mem_cons_of_mem _ ha)) n
      (by simpa using hfuel)
    rw [htext, readAttrs]
    simp only [hname, hrest, List.drop_succ_cons, List.drop_zero, hraw, hafter, hv.unescaped]
    simp [hn, hv.legal, hih]

/-- What is read from the content of some open elements. -/
def Reads (names : List (List Byte)) (t : List Byte) (evs : List Event) : Prop :=
  ∀ fuel, t.length < fuel → read fuel names t = some evs

/-- What is read after a tag. -/
def ReadsNext (names : List (List Byte)) (t : List Byte) (evs : List Event) : Prop :=
  ∀ fuel, t.length < fuel → next (read fuel) names t = some evs

theorem readsNext_nil : ReadsNext [] [] [] := fun _ _ => rfl

variable {names : List (List Byte)} {rest : List Byte} {evs : List Event}

theorem Reads.next (hn : names ≠ []) (h : Reads names rest evs) : ReadsNext names rest evs := by
  intro fuel hfuel
  rw [Xml.next, if_neg hn]
  exact h fuel hfuel

theorem Reads.text (hn : names ≠ []) {raw text : List Byte} (hne : raw ≠ [])
    (hraw : 0x3C#8 ∉ raw) (hun : unescape badText none raw = some text) (hleg : isLegal text)
    (h : Reads names (0x3C#8 :: rest) evs) :
    Reads names (raw ++ 0x3C#8 :: rest) (.text text :: evs) := by
  intro fuel hfuel
  obtain ⟨b, raw, rfl⟩ := List.exists_cons_of_ne_nil hne
  obtain ⟨n, rfl⟩ : ∃ n, fuel = n + 1 := ⟨fuel - 1, by omega⟩
  have hmem : ∀ x ∈ b :: raw, decide (x ≠ 0x3C#8) = true := by
    intro x hx
    simpa using fun heq : x = 0x3C#8 => hraw (heq ▸ hx)
  have htake : (b :: (raw ++ 0x3C#8 :: rest)).takeWhile (· ≠ 0x3C#8) = b :: raw :=
    @takeWhile_append_stop _ (b :: raw) _ hmem (by simp [StopsAt])
  have hdrop : (b :: (raw ++ 0x3C#8 :: rest)).dropWhile (· ≠ 0x3C#8) = 0x3C#8 :: rest :=
    @dropWhile_append_stop _ (b :: raw) _ hmem (by simp [StopsAt])
  have hb : b ≠ 0x3C#8 := by simpa using hmem b (by simp)
  have hread : read n names (0x3C#8 :: rest) = some evs :=
    h n (by simp at hfuel ⊢; omega)
  rw [List.cons_append, read, if_neg hb, if_neg hn, htake, hun, hdrop, hread]
  simp [hleg]

theorem Reads.stop {name : List Byte} (hq : isQName name) (h : ReadsNext names rest evs) :
    Reads (name :: names) (0x3C#8 :: 0x2F#8 :: (name ++ 0x3E#8 :: rest)) (.stop name :: evs) := by
  intro fuel hfuel
  obtain ⟨n, rfl⟩ : ∃ n, fuel = n + 1 := ⟨fuel - 1, by omega⟩
  have hmem : ∀ x ∈ name, decide (x ≠ 0x3E#8) = true := by
    intro x hx
    have hx := nameByte_of_mem hq hx
    simp only [nameByte, Bool.and_eq_true] at hx
    exact hx.2
  have htake : (name ++ 0x3E#8 :: rest).takeWhile (· ≠ 0x3E#8) = name :=
    takeWhile_append_stop hmem (by simp [StopsAt])
  have hdrop : (name ++ 0x3E#8 :: rest).dropWhile (· ≠ 0x3E#8) = 0x3E#8 :: rest :=
    dropWhile_append_stop hmem (by simp [StopsAt])
  have hnext : Xml.next (read n) names rest = some evs := h n (by simp at hfuel; omega)
  rw [read, if_pos rfl, List.head?_cons, if_pos rfl]
  simp only [List.tail_cons, htake, hdrop]
  simp [hnext]

/-- What a tag with these attributes is. -/
structure ReadsTag (name : List Byte) (atts : List (List Byte × List Byte × List Byte)) :
    Prop where
  name : isQName name
  values : ∀ a ∈ atts, isQName a.1 ∧ ReadsValue a.2.1 a.2.2
  distinct : (atts.map Prod.fst).Nodup

/-- A start tag or the tag of an empty element. -/
def renderTag (name : List Byte) (atts : List (List Byte × List Byte × List Byte))
    (empty : Bool) : List Byte :=
  0x3C#8 :: (name ++ (atts.flatMap (fun a => renderAttr a.1 a.2.1) ++ tagEnd empty))

theorem length_le_flatMap_renderAttr (atts : List (List Byte × List Byte × List Byte)) :
    atts.length ≤ (atts.flatMap fun a => renderAttr a.1 a.2.1).length := by
  induction atts with
  | nil => simp
  | cons a atts ih =>
    simp only [List.flatMap_cons, List.length_append, List.length_cons, renderAttr] at ih ⊢
    omega

theorem stopsAt_attrs (atts : List (List Byte × List Byte × List Byte)) (empty : Bool)
    (rest : List Byte) :
    StopsAt nameByte (atts.flatMap (fun a => renderAttr a.1 a.2.1) ++ (tagEnd empty ++ rest)) := by
  cases atts with
  | nil => cases empty <;> simp [StopsAt, tagEnd, nameByte]
  | cons a atts => simp [StopsAt, renderAttr, nameByte]

theorem read_tag {name : List Byte} {atts : List (List Byte × List Byte × List Byte)}
    (ht : ReadsTag name atts) (empty : Bool) (n : ℕ) :
    read (n + 1) names (renderTag name atts empty ++ rest) =
      if empty then (Xml.next (read n) names rest).map fun evs =>
        .start name (atts.map fun a => (a.1, a.2.2)) :: .stop name :: evs
      else (read n (name :: names) rest).map
        (.start name (atts.map fun a => (a.1, a.2.2)) :: ·) := by
  set attrs := atts.flatMap fun a => renderAttr a.1 a.2.1 with hattrs
  have htext : renderTag name atts empty ++ rest =
      0x3C#8 :: (name ++ (attrs ++ (tagEnd empty ++ rest))) := by
    simp [renderTag, hattrs]
  have hstop : StopsAt nameByte (attrs ++ (tagEnd empty ++ rest)) := stopsAt_attrs atts empty rest
  have hname := takeWhile_append_stop (fun b hb => nameByte_of_mem ht.name hb) hstop
  have hrest := dropWhile_append_stop (fun b hb => nameByte_of_mem ht.name hb) hstop
  -- a name does not begin with a slash
  have hslash : (name ++ (attrs ++ (tagEnd empty ++ rest))).head? ≠ some 0x2F#8 := by
    obtain ⟨c, cs, rfl⟩ := List.exists_cons_of_ne_nil (isQName_ne_nil ht.name)
    have hc := nameByte_of_mem ht.name (List.mem_cons_self (a := c) (l := cs))
    intro hq
    have hc' : c = 0x2F#8 := by simpa using hq
    rw [hc'] at hc
    exact absurd hc (by decide)
  have hfuel : atts.length < (name ++ (attrs ++ (tagEnd empty ++ rest))).length + 1 := by
    have := length_le_flatMap_renderAttr atts
    simp only [List.length_append, hattrs]
    omega
  have hattr : readAttrs ((name ++ (attrs ++ (tagEnd empty ++ rest))).length + 1)
      (attrs ++ (tagEnd empty ++ rest)) = some (atts.map fun a => (a.1, a.2.2), empty, rest) :=
    readAttrs_render atts ht.values empty rest hfuel
  rw [htext, read, if_pos rfl, if_neg hslash]
  simp only [hname, hrest, hattr]
  have hdist : ((atts.map fun a => (a.1, a.2.2)).map Prod.fst).Nodup := by
    rw [List.map_map]
    exact ht.distinct
  rw [if_pos ht.name, if_pos hdist]


theorem Reads.start {name : List Byte} {atts : List (List Byte × List Byte × List Byte)}
    (ht : ReadsTag name atts) (h : Reads (name :: names) rest evs) :
    Reads names (renderTag name atts false ++ rest)
      (.start name (atts.map fun a => (a.1, a.2.2)) :: evs) := by
  intro fuel hfuel
  obtain ⟨n, rfl⟩ : ∃ n, fuel = n + 1 := ⟨fuel - 1, by omega⟩
  rw [read_tag ht, h n (by simp [renderTag] at hfuel; omega)]
  rfl

theorem Reads.empty {name : List Byte} {atts : List (List Byte × List Byte × List Byte)}
    (ht : ReadsTag name atts) (h : ReadsNext names rest evs) :
    Reads names (renderTag name atts true ++ rest)
      (.start name (atts.map fun a => (a.1, a.2.2)) :: .stop name :: evs) := by
  intro fuel hfuel
  obtain ⟨n, rfl⟩ : ∃ n, fuel = n + 1 := ⟨fuel - 1, by omega⟩
  rw [read_tag ht, h n (by simp [renderTag] at hfuel; omega)]
  rfl

theorem Reads.document {t : List Byte} (h : Reads [] t evs) : readDocument t = some evs :=
  h _ (Nat.lt_succ_self _)

end Jingle.Xml
