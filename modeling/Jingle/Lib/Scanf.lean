/-
Texts that are read by a format.

A format of `sscanf` is a list of directives, which are followed one after the other until one
of them fails: the result is what was converted before that.  A word and a number are looked
for behind white space, a literal and the characters of `%c` are not.  `%5c` takes the
characters that there are when fewer than five are left.

`strtol`, which reads a number for `%d` and `atoi`, keeps a number that does not fit at the end
of the range of 64 bits; what of it an `int` holds are the last 32 bits.
-/
import Jingle.Lib.Strtoul

namespace Jingle.Numeral

/-! ### Signed numbers -/

/-- The number that a text begins with, after space and a sign; zero if there is none. -/
def integerOf (s : List Byte) : ℤ :=
  match extract s with
  | none => 0
  | some (negative, n) => if negative then -n else n

/-- A `long` of 64 bits, as `strtol` returns it. -/
def signedLong (n : ℤ) : ℤ := max (-2 ^ 63) (min (2 ^ 63 - 1) n)

/-- An `int` of 32 bits that is made of a number. -/
def intOf (n : ℤ) : ℤ := (BitVec.ofInt 32 n).toInt

def atoi (s : List Byte) : ℤ := intOf (signedLong (integerOf s))

theorem signedLong_of_range {n : ℤ} (h : -2 ^ 63 ≤ n ∧ n < 2 ^ 63) : signedLong n = n := by
  rw [signedLong]
  omega

theorem intOf_of_range {n : ℤ} (h : -2 ^ 31 ≤ n ∧ n < 2 ^ 31) : intOf n = n := by
  rw [intOf, BitVec.toInt_ofInt, Int.bmod_eq_of_le (by omega) (by omega)]

/-! ### Formats -/

/-- What a format consists of. -/
inductive Directive where
  | space
  | literal (b : Byte)
  | int
  | word (width : ℕ)
  | skipWord (width : ℕ)
  | chars (width : ℕ)

/-- A value that was converted. -/
inductive Item where
  | int (n : ℤ)
  | text (s : List Byte)
  deriving DecidableEq

/-- `%d`: the number, and the text behind it. -/
def scanInt (s : List Byte) : Option (ℤ × List Byte) :=
  let signed := sign (s.dropWhile isSpace)
  let digits := signed.2.takeWhile isDigit
  if digits.isEmpty then none
  else
    let n : ℤ := if signed.1 then -value 10 digits else value 10 digits
    some (intOf (signedLong n), signed.2.dropWhile isDigit)

/-- `%s` with a width. -/
def scanWord (width : ℕ) (s : List Byte) : Option (List Byte × List Byte) :=
  let s := s.dropWhile isSpace
  let word := (s.take width).takeWhile fun b => !isSpace b
  if word.isEmpty then none else some (word, s.drop word.length)

/-- One directive: what it converts, and the text behind it. -/
def Directive.scan : Directive → List Byte → Option (List Item × List Byte)
  | .space, s => some ([], s.dropWhile isSpace)
  | .literal b, s => if s.head? = some b then some ([], s.drop 1) else none
  | .int, s => (scanInt s).map fun p => ([.int p.1], p.2)
  | .word width, s => (scanWord width s).map fun p => ([.text p.1], p.2)
  | .skipWord width, s => (scanWord width s).map fun p => ([], p.2)
  | .chars width, s => if s.isEmpty then none else some ([.text (s.take width)], s.drop width)

/-- `sscanf` of the text up to its first zero byte. -/
def scanFrom : List Directive → List Byte → List Item
  | [], _ => []
  | d :: ds, s =>
    match d.scan s with
    | none => []
    | some (items, rest) => items ++ scanFrom ds rest

def sscanf (format : List Directive) (s : List Byte) : List Item := scanFrom format (cString s)

/-! ### Texts that fit a format -/

theorem scanFrom_cons {d : Directive} {ds : List Directive} {s rest : List Byte}
    {items : List Item} (h : d.scan s = some (items, rest)) :
    scanFrom (d :: ds) s = items ++ scanFrom ds rest := by
  rw [scanFrom, h]

theorem dropWhile_isSpace_of_head {s : List Byte} (h : StopsAt isSpace s) :
    s.dropWhile isSpace = s := by
  rcases s with _ | ⟨b, s⟩
  · rfl
  · exact List.dropWhile_cons_of_neg (by simp [h b rfl])

theorem scan_space {s : List Byte} (h : StopsAt isSpace s) :
    Directive.space.scan (32#8 :: s) = some ([], s) := by
  rw [Directive.scan, List.dropWhile_cons_of_pos (by decide), dropWhile_isSpace_of_head h]

theorem scan_literal (b : Byte) (s : List Byte) :
    (Directive.literal b).scan (b :: s) = some ([], s) := if_pos rfl

theorem scanWord_append {word : List Byte} (hne : word ≠ [])
    (hword : ∀ b ∈ word, isSpace b = false) (rest : List Byte) :
    scanWord word.length (word ++ rest) = some (word, rest) := by
  obtain ⟨b, tail, rfl⟩ := List.exists_cons_of_ne_nil hne
  have hspace : ((b :: tail) ++ rest).dropWhile isSpace = (b :: tail) ++ rest :=
    dropWhile_isSpace_of_head fun c hc => Option.some.inj hc ▸ hword b List.mem_cons_self
  rw [scanWord, hspace, List.take_left, List.takeWhile_eq_self_iff.2 fun c hc => by
    rw [hword c hc]; rfl]
  rw [if_neg (by simp), List.drop_left]

theorem scan_int {ds rest : List Byte} {n : ℕ} (h : digitsValue 10 ds = some n) (hn : n < 2 ^ 31)
    (hrest : StopsAt isDigit rest) : Directive.int.scan (ds ++ rest) = some ([.int n], rest) := by
  obtain ⟨hne, hten, rfl⟩ := digitsValue_eq_some h
  have hds : ∀ b ∈ ds, isDigit b = true := fun b hb => isDigitOf_ten b ▸ hten b hb
  rw [Directive.scan, scanInt, sign_digits hne hten]
  dsimp only
  rw [takeWhile_append_stop hds hrest, dropWhile_append_stop hds hrest, if_neg (by simpa using hne),
    if_neg Bool.false_ne_true, signedLong_of_range (by omega), intOf_of_range (by omega)]
  rfl

theorem scan_chars {s : List Byte} {width : ℕ} (hne : s ≠ []) (h : s.length ≤ width) :
    (Directive.chars width).scan s = some ([.text s], []) := by
  rw [Directive.scan, if_neg (by simpa using hne), List.take_of_length_le h,
    List.drop_of_length_le h]

/-! ### Numbers with leading zeros -/

/-- Two digits of a number below a hundred. -/
def twoDigits (n : ℕ) : List Byte := [digit (n / 10), digit (n % 10)]

theorem digitsValue_of {ds : List Byte} (hne : ds ≠ []) (hds : ∀ b ∈ ds, isDigit b = true) :
    digitsValue 10 ds = some (value 10 ds) :=
  if_pos ⟨hne, fun b hb => (isDigitOf_ten b).trans (hds b hb)⟩

theorem digitsValue_decimal (n : ℕ) : digitsValue 10 (decimal n) = some n := by
  rw [digitsValue_of (decimal_ne_nil n) fun b => isDigit_of_mem_decimal, value_decimal]

theorem digitsValue_twoDigits {n : ℕ} (h : n < 100) : digitsValue 10 (twoDigits n) = some n := by
  have hdigits : ∀ b ∈ twoDigits n, isDigit b = true := by
    intro b hb
    obtain rfl | hb := List.mem_cons.1 hb
    · exact isDigit_digit (by omega)
    · obtain rfl := List.mem_singleton.1 hb
      exact isDigit_digit (Nat.mod_lt _ (by omega))
  have hvalue : value 10 (twoDigits n) = n := by
    rw [twoDigits, value, List.foldl_cons, List.foldl_cons, List.foldl_nil,
      digitValue_digit (by omega), digitValue_digit (Nat.mod_lt _ (by omega))]
    omega
  exact (digitsValue_of (List.cons_ne_nil _ _) hdigits).trans (congrArg some hvalue)

theorem zero_notMem_of_digitsValue {base n : ℕ} {ds : List Byte}
    (h : digitsValue base ds = some n) : 0#8 ∉ ds := by
  obtain ⟨-, hds, -⟩ := digitsValue_eq_some h
  intro hzero
  have hhex := hds _ hzero
  simp only [isDigitOf, decide_eq_true_eq] at hhex
  exact absurd hhex.1 (by decide)

end Jingle.Numeral
