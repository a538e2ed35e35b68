/-
The attributes of an HTTP header.

`HttpParseAttributes` reads a list of names, each with a value behind an equal sign or without
one.  A name ends at white space or at an equal sign that a value follows: a comma behind a
name without a value belongs to the name.

* **`parseAttribute_length_lt`** — every attribute takes something of the text, which is why the
  list ends.
-/
import Jingle.Lib.Strtoul

namespace Jingle.Base.Http

open Numeral (isSpace)

/-- A text. -/
abbrev Text := List Byte

abbrev HttpAttribute := Text × Text

abbrev HttpAttributeList := List HttpAttribute

/-! ### One attribute -/

/-- `IsEndOfAttributeName`, of the text from the position on. -/
def isEndOfAttributeName : Text → Bool
  | [] => true
  | [b] => isSpace b
  | b :: c :: _ => isSpace b || (b = 61#8 && !isSpace c && c ≠ 61#8)

/-- The name at the beginning of a text, and what follows it. -/
def attributeName : Text → Text × Text
  | [] => ([], [])
  | b :: rest =>
    if isEndOfAttributeName (b :: rest) then ([], b :: rest)
    else ((attributeName rest).1.cons b, (attributeName rest).2)

/-- A quoted value, behind its first quote. -/
def quotedValue : Text → Text × Text
  | [] => ([], [])
  | [b] => if b = 34#8 then ([], []) else ([b], [])
  | b :: c :: rest =>
    if b = 34#8 then ([], c :: rest)
    else if b = 92#8 then ((quotedValue rest).1.cons c, (quotedValue rest).2)
    else ((quotedValue (c :: rest)).1.cons b, (quotedValue (c :: rest)).2)

/-- A byte that does not end a value without quotes. -/
def isValueByte (b : Byte) : Bool := !isSpace b && b ≠ 44#8

/-- The value behind a name, if there is an equal sign. -/
def attributeValue : Text → Text × Text
  | 61#8 :: 34#8 :: rest => quotedValue rest
  | 61#8 :: rest => (rest.takeWhile isValueByte, rest.dropWhile isValueByte)
  | rest => ([], rest)

/-- One round of the loop: an attribute, and what is left of the text. -/
def parseAttribute (data : Text) : HttpAttribute × Text :=
  let name := attributeName data
  let value := attributeValue name.2
  ((name.1, value.1), if value.2.head? = some 44#8 then value.2.drop 1 else value.2)

/-! ### The list -/

theorem attributeName_append (data : Text) :
    (attributeName data).1 ++ (attributeName data).2 = data := by
  induction data with
  | nil => rfl
  | cons b rest ih =>
    rw [attributeName]
    split_ifs
    · rfl
    · rw [List.cons_append, ih]

theorem quotedValue_length_le (data : Text) : (quotedValue data).2.length ≤ data.length := by
  fun_induction quotedValue data with
  | case1 => exact le_rfl
  | case2 => exact Nat.zero_le _
  | case3 => exact Nat.zero_le _
  | case4 => simp
  | case5 =>
    simp only [List.length_cons]
    omega
  | case6 =>
    simp only [List.length_cons] at *
    omega

theorem attributeValue_length_le (data : Text) : (attributeValue data).2.length ≤ data.length := by
  fun_cases attributeValue data with
  | case1 rest =>
    have hle := quotedValue_length_le rest
    simp only [List.length_cons]
    omega
  | case2 rest =>
    have hle := List.length_dropWhile_le isValueByte rest
    simp only [List.length_cons]
    omega
  | case3 => exact le_rfl

theorem parseAttribute_length_lt {b : Byte} (rest : Text) (hb : isSpace b = false) :
    (parseAttribute (b :: rest)).2.length < (b :: rest).length := by
  have hdrop : ∀ s : Text, (if s.head? = some 44#8 then s.drop 1 else s).length ≤ s.length := by
    intro s
    split_ifs
    · simp
    · exact le_rfl
  refine (hdrop _).trans_lt ?_
  by_cases hend : isEndOfAttributeName (b :: rest) = true
  · -- the name is empty: the equal sign and a value follow
    have hname : attributeName (b :: rest) = ([], b :: rest) := by rw [attributeName, if_pos hend]
    obtain _ | ⟨c, rest⟩ := rest
    · rw [isEndOfAttributeName, hb] at hend
      cases hend
    · rw [isEndOfAttributeName, hb, Bool.false_or, Bool.and_eq_true, Bool.and_eq_true] at hend
      obtain rfl : b = 61#8 := by simpa using hend.1.1
      rw [hname]
      by_cases hquote : c = 34#8
      · have hle := quotedValue_length_le rest
        subst hquote
        simp only [attributeValue, List.length_cons]
        omega
      · have hle := List.length_dropWhile_le isValueByte (c :: rest)
        have hvalue : attributeValue (61#8 :: c :: rest) =
            ((c :: rest).takeWhile isValueByte, (c :: rest).dropWhile isValueByte) := by
          rw [attributeValue]
          rintro rest' heq
          exact hquote (List.cons.inj heq).1
        rw [hvalue]
        exact Nat.lt_succ_of_le hle
  · have hname : (attributeName (b :: rest)).2 = (attributeName rest).2 := by
      rw [attributeName, if_neg hend]
    have happ := congrArg List.length (attributeName_append rest)
    have hle := attributeValue_length_le (attributeName (b :: rest)).2
    rw [hname] at hle
    rw [List.length_append] at happ
    rw [hname, List.length_cons]
    omega

def httpParseAttributes (data : Text) : HttpAttributeList :=
  match _hdata : data.dropWhile isSpace with
  | [] => []
  | b :: rest =>
    (parseAttribute (b :: rest)).1 :: httpParseAttributes (parseAttribute (b :: rest)).2
termination_by data.length
decreasing_by
  have hle := List.length_dropWhile_le isSpace data
  have hb : isSpace b = false := by
    have hhead := List.head?_dropWhile_not isSpace data
    rw [_hdata] at hhead
    simpa using hhead
  have hlt := parseAttribute_length_lt rest hb
  rw [_hdata] at hle
  omega

/-- `HttpHasAttribute`: the value of the first attribute of the name. -/
def httpHasAttribute (attributes : HttpAttributeList) (name : Text) : Option Text :=
  (attributes.find? fun it => it.1 = name).map (·.2)

end Jingle.Base.Http
