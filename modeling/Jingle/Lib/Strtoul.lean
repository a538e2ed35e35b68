/-
`strtoul` and `sscanf("%u")` of any text.

Both skip space, take a sign and convert the digits that follow; a sign of minus is
the negation of the unsigned number, and a number that does not fit is the greatest
one.  `strtoul` reads the prefix of a base that is not fixed, and gives the text that
it did not convert.  A text ends at its first zero byte: `cString`.
-/
import Jingle.Lib.Numeral
import Mathlib.Data.List.TakeWhile

namespace Jingle.Numeral

/-- What a function that takes a C string sees of an array. -/
def cString (s : List Byte) : List Byte := s.takeWhile (· ≠ 0)

theorem cString_eq_self_iff {s : List Byte} : cString s = s ↔ 0#8 ∉ s := by
  rw [cString, List.takeWhile_eq_self_iff]
  constructor
  · intro h hmem
    simpa using h _ hmem
  · intro h b hb
    simpa using ne_of_mem_of_not_mem hb h

theorem zero_notMem_cString (s : List Byte) : 0#8 ∉ cString s := by
  intro h
  simpa using List.mem_takeWhile_imp h

/-- A digit of a base up to sixteen. -/
def isDigitOf (base : ℕ) (b : Byte) : Bool := isHex b ∧ digitValue b < base

/-- A sign of minus, and the text behind a sign. -/
def sign (s : List Byte) : Bool × List Byte :=
  if s.head? = some 45#8 then (true, s.drop 1)
  else if s.head? = some 43#8 then (false, s.drop 1)
  else (false, s)

/-- An `unsigned long` of 64 bits. -/
def unsignedLong (negative : Bool) (n : ℕ) : ℕ :=
  if 2 ^ 64 ≤ n then 2 ^ 64 - 1 else if negative then (2 ^ 64 - n) % 2 ^ 64 else n

/-- The base of the digits and the text behind the prefix that says so. -/
def basePrefix (base : ℕ) (s : List Byte) : ℕ × List Byte :=
  if (base = 0 ∨ base = 16) ∧ s.head? = some 48#8 ∧ (s[1]? = some 120#8 ∨ s[1]? = some 88#8) ∧
      s[2]?.any isHex then (16, s.drop 2)
  else if base = 0 then (if s.head? = some 48#8 then 8 else 10, s)
  else (base, s)

theorem unsignedLong_lt (negative : Bool) (n : ℕ) : unsignedLong negative n < 2 ^ 64 := by
  rw [unsignedLong]
  split_ifs
  · decide
  · exact Nat.mod_lt _ (by decide)
  · omega

/-- `strtoul(s, &end, base)` for the bases 0, 8, 10 and 16: the number and the text
from `end` on. -/
def strtoulIn (base : ℕ) (s : List Byte) : ℕ × List Byte :=
  let signed := sign (s.dropWhile isSpace)
  let (base, digits) := basePrefix base signed.2
  if (digits.takeWhile (isDigitOf base)).isEmpty then (0, s)
  else (unsignedLong signed.1 (value base (digits.takeWhile (isDigitOf base))),
    digits.dropWhile (isDigitOf base))

/-- One `%u` of `sscanf`: the number as 32 bits hold it, and the text behind it. -/
def scanUnsigned (s : List Byte) : Option (ℕ × List Byte) :=
  let signed := sign (s.dropWhile isSpace)
  if (signed.2.takeWhile isDigit).isEmpty then none
  else some (unsignedLong signed.1 (value 10 (signed.2.takeWhile isDigit)) % 2 ^ 32,
    signed.2.dropWhile isDigit)

theorem strtoulIn_lt (base : ℕ) (s : List Byte) : (strtoulIn base s).1 < 2 ^ 64 := by
  rw [strtoulIn]
  dsimp only
  split_ifs
  · exact Nat.two_pow_pos 64
  · exact unsignedLong_lt _ _

theorem scanUnsigned_lt {s : List Byte} {p : ℕ × List Byte} (h : scanUnsigned s = some p) :
    p.1 < 2 ^ 32 := by
  rw [scanUnsigned] at h
  split_ifs at h
  rw [← Option.some.inj h]
  exact Nat.mod_lt _ (by decide)

/-- Letters of either case are the same. -/
def toLower (b : Byte) : Byte := if 65 ≤ b.toNat ∧ b.toNat ≤ 90 then b + 32 else b

/-- `_strnicmp(s, word, n) == 0` for a word of `n` letters without a zero byte. -/
def hasPrefix (word s : List Byte) : Bool := (s.take word.length).map toLower = word.map toLower

theorem isDigitOf_ten (b : Byte) : isDigitOf 10 b = isDigit b := by
  rw [isDigitOf, Bool.eq_iff_iff, decide_eq_true_eq]
  constructor
  · rintro ⟨hhex, hlt⟩
    simp only [isHex, isDigit, digitValue, decide_eq_true_eq] at hhex hlt ⊢
    split_ifs at hlt <;> omega
  · intro h
    simp only [isHex, digitValue, decide_eq_true_eq]
    refine ⟨.inl h, ?_⟩
    simp only [isDigit, decide_eq_true_eq] at h
    rw [if_pos h.2]
    omega

theorem strtoulIn_decimal {n : ℕ} (hn : n < 2 ^ 64) {rest : List Byte} (h : StopsAt isDigit rest) :
    strtoulIn 10 (decimal n ++ rest) = (n, rest) := by
  obtain ⟨b, ds, hds⟩ := List.exists_cons_of_ne_nil (decimal_ne_nil n)
  have hb : isDigit b := isDigit_of_mem_decimal (hds ▸ List.mem_cons_self)
  simp only [isDigit, decide_eq_true_eq] at hb
  have hspace : isSpace b = false := by
    simp only [isSpace, decide_eq_false_iff_not]
    omega
  have hsign : sign (decimal n ++ rest) = (false, decimal n ++ rest) := by
    have hminus : b ≠ 45#8 := by
      rintro rfl
      exact absurd hb (by decide)
    have hplus : b ≠ 43#8 := by
      rintro rfl
      exact absurd hb (by decide)
    rw [sign, hds, List.cons_append, List.head?_cons, if_neg (by simpa), if_neg (by simpa)]
  have hdrop : (decimal n ++ rest).dropWhile isSpace = decimal n ++ rest := by
    rw [hds, List.cons_append, List.dropWhile_cons_of_neg (by simp [hspace])]
  have hdigits : isDigitOf 10 = isDigit := funext isDigitOf_ten
  rw [strtoulIn, hdrop, hsign, basePrefix, if_neg (by omega), if_neg (by omega)]
  dsimp only
  rw [hdigits, takeWhile_append_stop (fun b => isDigit_of_mem_decimal) h,
    dropWhile_append_stop (fun b => isDigit_of_mem_decimal) h, value_decimal,
    if_neg (by simp [decimal_ne_nil]), unsignedLong, if_neg (by omega), if_neg (by simp)]

/-! ### Numbers of digits only -/

/-- The number that a text of digits stands for. -/
def digitsValue (base : ℕ) (s : List Byte) : Option ℕ :=
  if s ≠ [] ∧ ∀ b ∈ s, isDigitOf base b = true then some (value base s) else none

theorem digitsValue_eq_some {base n : ℕ} {s : List Byte} (h : digitsValue base s = some n) :
    s ≠ [] ∧ (∀ b ∈ s, isDigitOf base b = true) ∧ n = value base s := by
  rw [digitsValue] at h
  split_ifs at h with hs
  exact ⟨hs.1, hs.2, (Option.some.inj h).symm⟩

theorem isDigitOf_cases {base : ℕ} {b : Byte} (h : isDigitOf base b = true) :
    isSpace b = false ∧ b ≠ 43#8 ∧ b ≠ 45#8 ∧ b ≠ 88#8 ∧ b ≠ 120#8 := by
  simp only [isDigitOf, isHex, isDigit, decide_eq_true_eq] at h
  refine ⟨?_, ?_, ?_, ?_, ?_⟩
  · simp only [isSpace, decide_eq_false_iff_not]
    omega
  all_goals
    rintro rfl
    exact absurd h.1 (by decide)

/-- The text begins with white space, or there is none. -/
def BeginsWithSpace (rest : List Byte) : Prop := ∀ b ∈ rest.head?, isSpace b = true

theorem beginsWithSpace_nil : BeginsWithSpace [] := fun b hb => by cases hb

theorem BeginsWithSpace.stopsAt {base : ℕ} {rest : List Byte} (h : BeginsWithSpace rest) :
    StopsAt (isDigitOf base) rest := by
  intro b hb
  by_contra hdigit
  have hspace := (isDigitOf_cases (by simpa using hdigit)).1
  rw [h b hb] at hspace
  cases hspace

theorem sign_digits {base : ℕ} {ds rest : List Byte} (hne : ds ≠ [])
    (hds : ∀ b ∈ ds, isDigitOf base b = true) :
    sign ((ds ++ rest).dropWhile isSpace) = (false, ds ++ rest) := by
  obtain ⟨b, ds, rfl⟩ := List.exists_cons_of_ne_nil hne
  obtain ⟨hspace, hplus, hminus, -, -⟩ := isDigitOf_cases (hds b List.mem_cons_self)
  rw [List.cons_append, List.dropWhile_cons_of_neg (by simp [hspace]), sign, List.head?_cons,
    if_neg (by simpa using hminus), if_neg (by simpa using hplus)]

theorem basePrefix_digits {base : ℕ} (hbase : base ≠ 0) {ds rest : List Byte} (hne : ds ≠ [])
    (hds : ∀ b ∈ ds, isDigitOf base b = true) (hrest : BeginsWithSpace rest) :
    basePrefix base (ds ++ rest) = (base, ds ++ rest) := by
  have hsecond : ∀ b, (ds ++ rest)[1]? = some b → b ≠ 120#8 ∧ b ≠ 88#8 := by
    intro b hb
    obtain ⟨d, ds, rfl⟩ := List.exists_cons_of_ne_nil hne
    obtain _ | ⟨d', ds⟩ := ds
    · -- one digit, and then space
      have hspace : isSpace b = true := by
        refine hrest b ?_
        rw [List.head?_eq_getElem?]
        simpa using hb
      refine ⟨?_, ?_⟩
      · rintro rfl
        exact absurd hspace (by decide)
      · rintro rfl
        exact absurd hspace (by decide)
    · obtain rfl : d' = b := by simpa using hb
      have hd := isDigitOf_cases (hds d' (by simp))
      exact ⟨hd.2.2.2.2, hd.2.2.2.1⟩
  rw [basePrefix, if_neg, if_neg hbase]
  rintro ⟨-, -, hx, -⟩
  obtain hx | hx := hx
  · exact (hsecond _ hx).1 rfl
  · exact (hsecond _ hx).2 rfl

theorem strtoulIn_digits {base : ℕ} (hbase : base ≠ 0) {ds rest : List Byte} (hne : ds ≠ [])
    (hds : ∀ b ∈ ds, isDigitOf base b = true) (hrest : BeginsWithSpace rest) :
    strtoulIn base (ds ++ rest) = (unsignedLong false (value base ds), rest) := by
  rw [strtoulIn, sign_digits hne hds, basePrefix_digits hbase hne hds hrest]
  dsimp only
  rw [takeWhile_append_stop hds hrest.stopsAt, dropWhile_append_stop hds hrest.stopsAt,
    if_neg (by simpa using hne)]

theorem scanUnsigned_digits {ds rest : List Byte} (hne : ds ≠ [])
    (hds : ∀ b ∈ ds, isDigitOf 10 b = true) (hrest : BeginsWithSpace rest) :
    scanUnsigned (ds ++ rest) = some (unsignedLong false (value 10 ds) % 2 ^ 32, rest) := by
  have hdigits : isDigitOf 10 = isDigit := funext isDigitOf_ten
  rw [scanUnsigned, sign_digits hne hds]
  dsimp only
  rw [← hdigits, takeWhile_append_stop hds hrest.stopsAt, dropWhile_append_stop hds hrest.stopsAt,
    if_neg (by simpa using hne)]

theorem cString_digits {base : ℕ} {ds rest : List Byte}
    (hds : ∀ b ∈ ds, isDigitOf base b = true) : cString (ds ++ rest) = ds ++ cString rest := by
  refine List.takeWhile_append_of_pos fun b hb => ?_
  have hne : b ≠ 0#8 := by
    rintro rfl
    have hzero := hds 0#8 hb
    simp only [isDigitOf, isHex, isDigit, decide_eq_true_eq] at hzero
    exact absurd hzero.1 (by decide)
  simpa using hne

theorem BeginsWithSpace.cString {rest : List Byte} (h : BeginsWithSpace rest) :
    BeginsWithSpace (Numeral.cString rest) := by
  intro b hb
  refine h b ?_
  obtain _ | ⟨c, rest⟩ := rest
  · exact hb
  · rw [Numeral.cString, List.takeWhile_cons] at hb
    split_ifs at hb
    · exact hb
    · cases hb

/-! ### Text before white space -/

theorem takeWhile_append_of_stopsAt {p : Byte → Bool} {s rest : List Byte} (h : StopsAt p rest) :
    (s ++ rest).takeWhile p = s.takeWhile p := by
  induction s with
  | nil => exact takeWhile_append_stop (by simp) h
  | cons b s ih => rw [List.cons_append, List.takeWhile_cons, List.takeWhile_cons, ih]

theorem dropWhile_append_of_stopsAt {p : Byte → Bool} {s rest : List Byte} (h : StopsAt p rest) :
    (s ++ rest).dropWhile p = s.dropWhile p ++ rest := by
  induction s with
  | nil => exact dropWhile_append_stop (by simp) h
  | cons b s ih =>
    rw [List.cons_append, List.dropWhile_cons, List.dropWhile_cons, ih]
    split_ifs
    · rfl
    · rfl

theorem sign_append {s : List Byte} (hne : s ≠ []) (rest : List Byte) :
    sign (s ++ rest) = ((sign s).1, (sign s).2 ++ rest) := by
  obtain ⟨b, s, rfl⟩ := List.exists_cons_of_ne_nil hne
  simp only [sign, List.cons_append, List.head?_cons, List.drop_one, List.tail_cons]
  split_ifs
  · rfl
  · rfl
  · rfl

theorem isSpace_cases {b : Byte} (h : isSpace b = true) :
    isHex b = false ∧ b ≠ 48#8 ∧ b ≠ 88#8 ∧ b ≠ 120#8 := by
  simp only [isSpace, decide_eq_true_eq] at h
  refine ⟨?_, ?_, ?_, ?_⟩
  · simp only [isHex, isDigit, decide_eq_false_iff_not, decide_eq_true_eq]
    omega
  all_goals
    rintro rfl
    exact absurd h (by decide)

theorem basePrefix_append {base : ℕ} {s rest : List Byte} (h : BeginsWithSpace rest) :
    basePrefix base (s ++ rest) = ((basePrefix base s).1, (basePrefix base s).2 ++ rest) := by
  obtain _ | ⟨r, rest⟩ := rest
  · rw [List.append_nil, List.append_nil]
  · obtain ⟨hhex, hzero, hX, hx⟩ := isSpace_cases (h r rfl)
    rcases s with _ | ⟨a, _ | ⟨b, _ | ⟨c, s⟩⟩⟩
    · simp [basePrefix, hzero]
      split_ifs <;> rfl
    · simp [basePrefix, hX, hx]
      split_ifs <;> rfl
    · simp [basePrefix, hhex]
      split_ifs <;> rfl
    · simp only [basePrefix, List.cons_append, List.head?_cons, List.getElem?_cons_succ,
        List.getElem?_cons_zero, List.drop_succ_cons, List.drop_zero]
      split_ifs <;> rfl

theorem dropWhile_ne_nil {s : List Byte} (hs : ∃ b ∈ s, isSpace b = false) :
    s.dropWhile isSpace ≠ [] := by
  obtain ⟨b, hb, hspace⟩ := hs
  intro hnil
  rw [List.dropWhile_eq_nil_iff] at hnil
  rw [hnil b hb] at hspace
  cases hspace

theorem dropWhile_isSpace_append {s : List Byte} (hs : ∃ b ∈ s, isSpace b = false)
    (rest : List Byte) : (s ++ rest).dropWhile isSpace = s.dropWhile isSpace ++ rest := by
  rw [List.dropWhile_append, if_neg (by simpa using dropWhile_ne_nil hs)]

theorem strtoulIn_append {base : ℕ} {s rest : List Byte} (hs : ∃ b ∈ s, isSpace b = false)
    (h : BeginsWithSpace rest) :
    strtoulIn base (s ++ rest) = ((strtoulIn base s).1, (strtoulIn base s).2 ++ rest) := by
  rw [strtoulIn, strtoulIn, dropWhile_isSpace_append hs, sign_append (dropWhile_ne_nil hs)]
  dsimp only
  rw [basePrefix_append h]
  dsimp only
  rw [takeWhile_append_of_stopsAt h.stopsAt, dropWhile_append_of_stopsAt h.stopsAt]
  split_ifs
  · rfl
  · rfl

theorem scanUnsigned_append {s rest : List Byte} (hs : ∃ b ∈ s, isSpace b = false)
    (h : BeginsWithSpace rest) :
    scanUnsigned (s ++ rest) = (scanUnsigned s).map fun p => (p.1, p.2 ++ rest) := by
  have hdigits : isDigit = isDigitOf 10 := (funext isDigitOf_ten).symm
  rw [scanUnsigned, scanUnsigned, dropWhile_isSpace_append hs, sign_append (dropWhile_ne_nil hs),
    hdigits]
  dsimp only
  rw [takeWhile_append_of_stopsAt h.stopsAt, dropWhile_append_of_stopsAt h.stopsAt]
  split_ifs
  · rfl
  · rfl

theorem cString_append_of_mem {s : List Byte} (h : 0#8 ∈ s) (rest : List Byte) :
    cString (s ++ rest) = cString s := by
  rw [cString, cString, List.takeWhile_append, if_neg]
  intro hlength
  have hself : cString s = s := (List.takeWhile_prefix _).eq_of_length hlength
  exact cString_eq_self_iff.1 hself h

theorem cString_append_of_notMem {s : List Byte} (h : 0#8 ∉ s) (rest : List Byte) :
    cString (s ++ rest) = s ++ cString rest := by
  refine List.takeWhile_append_of_pos fun b hb => ?_
  simpa using ne_of_mem_of_not_mem hb h

end Jingle.Numeral
