/-
Attributes of an HTTP header that are written and read back.

`HttpComposeAttributes` writes a name alone when its value is empty, and
`IsEndOfAttributeName` does not know the separator: a name without a value takes the comma
behind it along.

* **`parse_compose_iff`** — a list is read back exactly when all its attributes but the last
  one have a value; no text has more attributes than bytes.
-/
import Jingle.Base.HttpAttributes
import Jingle.Base.StringRoundTrip

namespace Jingle.Base.Http

open Numeral (isSpace)
open StringEncode (escape escapeCode string_escape)

/-! ### Writing -/

def escapeAttribute (value : Text) : Text :=
  (escape (value.length * 2 + 1) value (textBytes "\"") 92#8).string

/-- What `HttpComposeAttributes` writes for one attribute. -/
def composeAttribute (a : HttpAttribute) : Text :=
  a.1 ++
    if a.2 = [] then [] else 61#8 :: 34#8 :: (escapeAttribute a.2 ++ [34#8])

def httpComposeAttributes (attributes : HttpAttributeList) (separator : Byte) : Text :=
  match attributes with
  | [] => []
  | first :: rest => composeAttribute first ++
      rest.flatMap fun a => separator :: 32#8 :: composeAttribute a

/-- A name that has no white space, comma, quote or equal sign. -/
def IsAttributeName (name : Text) : Prop :=
  name ≠ [] ∧ ∀ b ∈ name, isSpace b = false ∧ b ≠ 44#8 ∧ b ≠ 34#8 ∧ b ≠ 61#8

instance (name : Text) : Decidable (IsAttributeName name) := inferInstanceAs (Decidable (_ ∧ _))

theorem httpComposeAttributes_cons_cons (a b : HttpAttribute) (rest : HttpAttributeList)
    (separator : Byte) : httpComposeAttributes (a :: b :: rest) separator =
      composeAttribute a ++ separator :: 32#8 :: httpComposeAttributes (b :: rest) separator := rfl

theorem httpComposeAttributes_singleton (a : HttpAttribute) (separator : Byte) :
    httpComposeAttributes [a] separator = composeAttribute a := List.append_nil _

theorem escapeAttribute_eq (value : Text) :
    escapeAttribute value = value.flatMap (escapeCode (textBytes "\"") 92#8) :=
  string_escape value _ _ (by omega)

/-! ### One attribute is read back -/

theorem isEndOfAttributeName_of_ne {b : Byte} (hspace : isSpace b = false) (h : b ≠ 61#8)
    (rest : Text) : isEndOfAttributeName (b :: rest) = false := by
  rcases rest with _ | ⟨c, rest⟩
  · exact hspace
  · simp [isEndOfAttributeName, hspace, h]

theorem attributeName_append_of {name : Text} (h : ∀ b ∈ name, isSpace b = false ∧ b ≠ 61#8)
    {rest : Text} (hrest : isEndOfAttributeName rest = true) :
    attributeName (name ++ rest) = (name, rest) := by
  induction name with
  | nil =>
    rcases rest with _ | ⟨b, rest⟩
    · rfl
    · rw [List.nil_append, attributeName, if_pos hrest]
  | cons b name ih =>
    obtain ⟨hb, hname⟩ := List.forall_mem_cons.1 h
    rw [List.cons_append, attributeName, isEndOfAttributeName_of_ne hb.1 hb.2,
      if_neg Bool.false_ne_true, ih hname]

theorem quotedValue_escape (value rest : Text) :
    quotedValue (value.flatMap (escapeCode (textBytes "\"") 92#8) ++ 34#8 :: rest) =
      (value, rest) := by
  induction value with
  | nil => rcases rest with _ | ⟨c, rest⟩ <;> rfl
  | cons b value ih =>
    rw [List.flatMap_cons, List.append_assoc, escapeCode]
    split_ifs with hesc
    · rw [List.cons_append, List.singleton_append, quotedValue, if_neg (by decide), if_pos rfl, ih]
    · -- the byte stands for itself: it is neither a quote nor a backslash
      rw [not_or] at hesc
      have hquote : b ≠ 34#8 := by
        rintro rfl
        exact hesc.2 (by decide)
      obtain ⟨c, tail, htail⟩ := List.exists_cons_of_ne_nil (List.append_ne_nil_of_right_ne_nil
        (value.flatMap (escapeCode (textBytes "\"") 92#8)) (List.cons_ne_nil 34#8 rest))
      rw [htail] at ih ⊢
      rw [List.singleton_append, quotedValue, if_neg hquote, if_neg hesc.1, ih]

theorem isEndOfAttributeName_value (rest : Text) :
    isEndOfAttributeName (61#8 :: 34#8 :: rest) = true := rfl

theorem parseAttribute_composeAttribute {a : HttpAttribute} (hname : IsAttributeName a.1)
    (hvalue : a.2 ≠ []) (rest : Text) : parseAttribute (composeAttribute a ++ rest) =
      (a, if rest.head? = some 44#8 then rest.drop 1 else rest) := by
  have hcompose : composeAttribute a ++ rest = a.1 ++ 61#8 :: 34#8 ::
      (a.2.flatMap (escapeCode (textBytes "\"") 92#8) ++ 34#8 :: rest) := by
    rw [composeAttribute, if_neg hvalue, escapeAttribute_eq]
    simp only [List.append_assoc, List.cons_append, List.nil_append]
  rw [parseAttribute, hcompose, attributeName_append_of
    (fun b hb => ⟨(hname.2 b hb).1, (hname.2 b hb).2.2.2⟩) (isEndOfAttributeName_value _)]
  dsimp only
  rw [attributeValue, quotedValue_escape]

theorem parseAttribute_name {name : Text} (h : ∀ b ∈ name, isSpace b = false ∧ b ≠ 61#8)
    {rest : Text} (hrest : rest = [] ∨ ∃ tail, rest = 32#8 :: tail) :
    parseAttribute (name ++ rest) = ((name, []), rest) := by
  have hend : isEndOfAttributeName rest = true := by
    obtain rfl | ⟨tail, rfl⟩ := hrest
    · rfl
    · rcases tail with _ | ⟨c, tail⟩ <;> rfl
  rw [parseAttribute, attributeName_append_of h hend]
  obtain rfl | ⟨tail, rfl⟩ := hrest <;> rfl

/-! ### The list -/

theorem httpParseAttributes_nil : httpParseAttributes [] = [] := by
  rw [httpParseAttributes]
  rfl

theorem httpParseAttributes_space {b : Byte} (hb : isSpace b = true) (data : Text) :
    httpParseAttributes (b :: data) = httpParseAttributes data := by
  rw [httpParseAttributes, httpParseAttributes, List.dropWhile_cons_of_pos hb]

theorem httpParseAttributes_of_not_space {b : Byte} (hb : isSpace b = false) (data : Text) :
    httpParseAttributes (b :: data) =
      (parseAttribute (b :: data)).1 :: httpParseAttributes (parseAttribute (b :: data)).2 := by
  have hdrop : (b :: data).dropWhile isSpace = b :: data :=
    List.dropWhile_cons_of_neg (Bool.eq_false_iff.1 hb)
  rw [httpParseAttributes]
  split
  · next h =>
    rw [hdrop] at h
    cases h
  · next h =>
    rw [hdrop] at h
    cases h
    rfl

theorem httpParseAttributes_name {name : Text} (h : IsAttributeName name) (rest : Text) :
    httpParseAttributes (name ++ rest) = (parseAttribute (name ++ rest)).1 ::
      httpParseAttributes (parseAttribute (name ++ rest)).2 := by
  obtain ⟨b, name, rfl⟩ := List.exists_cons_of_ne_nil h.1
  exact httpParseAttributes_of_not_space (h.2 b List.mem_cons_self).1 _

theorem httpParseAttributes_length_le (data : Text) :
    (httpParseAttributes data).length ≤ data.length := by
  fun_induction httpParseAttributes data with
  | case1 => exact Nat.zero_le _
  | case2 data b rest hdata ih =>
    have hb : isSpace b = false := by
      have hhead := List.head?_dropWhile_not isSpace data
      rw [hdata] at hhead
      simpa using hhead
    have hlt := parseAttribute_length_lt rest hb
    have hle := List.length_dropWhile_le isSpace data
    rw [hdata] at hle
    rw [List.length_cons]
    omega

theorem parse_composeAttribute {a : HttpAttribute} (hname : IsAttributeName a.1)
    (hvalue : a.2 ≠ []) (rest : Text) : httpParseAttributes (composeAttribute a ++ rest) =
      a :: httpParseAttributes (if rest.head? = some 44#8 then rest.drop 1 else rest) := by
  have hround := httpParseAttributes_name hname
    ((if a.2 = [] then [] else 61#8 :: 34#8 :: (escapeAttribute a.2 ++ [34#8])) ++ rest)
  rw [← List.append_assoc] at hround
  rw [composeAttribute]
  exact hround.trans (by
    rw [← composeAttribute, parseAttribute_composeAttribute hname hvalue])

theorem parse_composeAttribute_comma {a : HttpAttribute} (hname : IsAttributeName a.1)
    (hvalue : a.2 = []) (rest : Text) :
    httpParseAttributes (composeAttribute a ++ 44#8 :: 32#8 :: rest) =
      (a.1 ++ [44#8], []) :: httpParseAttributes rest := by
  have hbytes : ∀ b ∈ a.1 ++ [44#8], isSpace b = false ∧ b ≠ 61#8 := by
    intro b hb
    obtain hb | hb := List.mem_append.1 hb
    · exact ⟨(hname.2 b hb).1, (hname.2 b hb).2.2.2⟩
    · obtain rfl := List.mem_singleton.1 hb
      decide
  have hround := httpParseAttributes_name hname (44#8 :: 32#8 :: rest)
  rw [show a.1 ++ 44#8 :: 32#8 :: rest = a.1 ++ [44#8] ++ 32#8 :: rest by simp,
    parseAttribute_name hbytes (.inr ⟨rest, rfl⟩), httpParseAttributes_space rfl rest] at hround
  rw [composeAttribute, if_pos hvalue, List.append_nil, ← hround, List.append_assoc,
    List.singleton_append]

theorem parse_composeAttribute_last {a : HttpAttribute} (hname : IsAttributeName a.1) :
    httpParseAttributes (composeAttribute a) = [a] := by
  by_cases hvalue : a.2 = []
  · have hround := httpParseAttributes_name hname []
    rw [parseAttribute_name (fun b hb => ⟨(hname.2 b hb).1, (hname.2 b hb).2.2.2⟩) (.inl rfl),
      List.append_nil] at hround
    rw [composeAttribute, if_pos hvalue, List.append_nil, hround, httpParseAttributes_nil, ← hvalue]
  · have hround := parse_composeAttribute hname hvalue []
    rw [List.append_nil] at hround
    rw [hround]
    exact congrArg _ httpParseAttributes_nil

theorem parse_compose {attributes : HttpAttributeList}
    (h : ∀ a ∈ attributes, IsAttributeName a.1) :
    httpParseAttributes (httpComposeAttributes attributes 44#8) = attributes ↔
      ∀ a ∈ attributes.dropLast, a.2 ≠ [] := by
  induction attributes with
  | nil => simp [httpComposeAttributes, httpParseAttributes_nil]
  | cons a rest ih =>
    obtain ⟨ha, hrest⟩ := List.forall_mem_cons.1 h
    rcases rest with _ | ⟨b, rest⟩
    · rw [httpComposeAttributes_singleton, parse_composeAttribute_last ha]
      simp
    · rw [httpComposeAttributes_cons_cons, List.dropLast_cons_cons, List.forall_mem_cons,
        ← ih hrest]
      by_cases hvalue : a.2 = []
      · rw [parse_composeAttribute_comma ha hvalue]
        refine iff_of_false (fun heq => ?_) (fun hand => hand.1 hvalue)
        have hlen := congrArg List.length (congrArg Prod.fst (List.cons.inj heq).1)
        rw [List.length_append, List.length_singleton] at hlen
        omega
      · rw [parse_composeAttribute ha hvalue, if_pos List.head?_cons, List.drop_one, List.tail_cons,
          httpParseAttributes_space rfl, List.cons.injEq]
        exact and_congr_left' (iff_of_true rfl hvalue)

/-- **A list of attributes is read back exactly when all but the last one have a value.**  The
reader ends on every text: it finds no more attributes than there are bytes. -/
theorem parse_compose_iff {attributes : HttpAttributeList}
    (h : ∀ a ∈ attributes, IsAttributeName a.1) :
    (∀ data, (httpParseAttributes data).length ≤ data.length) ∧
      (httpParseAttributes (httpComposeAttributes attributes 44#8) = attributes ↔
        ∀ a ∈ attributes.dropLast, a.2 ≠ []) :=
  ⟨httpParseAttributes_length_le, parse_compose h⟩

/-- A value with a comma and a directive at the end. -/
theorem parse_compose_iff_stale :
    httpParseAttributes (httpComposeAttributes
      [(textBytes "realm", textBytes "a, b"), (textBytes "stale", [])] 44#8) =
      [(textBytes "realm", textBytes "a, b"), (textBytes "stale", [])] :=
  (parse_compose_iff (by decide)).2.2 (by decide)

/-- Two directives: the first one is read with its comma. -/
theorem not_parse_compose : ¬∀ attributes : HttpAttributeList,
    (∀ a ∈ attributes, IsAttributeName a.1) → (∀ a ∈ attributes, (0#8 : Byte) ∉ a.2) →
      httpParseAttributes (httpComposeAttributes attributes 44#8) = attributes := by
  intro h
  have hread := h [([97#8], []), ([98#8], [])] (by decide) (by decide)
  have hcompose : httpComposeAttributes [([97#8], []), ([98#8], [])] 44#8 =
      composeAttribute ([97#8], []) ++ 44#8 :: 32#8 :: [98#8] := rfl
  rw [hcompose, parse_composeAttribute_comma (by decide) rfl] at hread
  exact absurd (congrArg Prod.fst (List.cons.inj hread).1) (by decide)

end Jingle.Base.Http
