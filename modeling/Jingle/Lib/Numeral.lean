/-
Numbers in a text.

A text is a list of bytes.  `decimal n` is the number `n` as it is printed.
The readers are those of C and C++: `strtoul` takes the base from the prefix of
the number, `extractInt` and `extractUnsigned` are the input operators of a
stream, which skip space, take a sign and saturate.  Each reader gives a printed
number back: `strtoul_decimal`, `extractInt_decimal`, `extractUnsigned_decimal`.
-/
import Jingle.Lib.Word

namespace Jingle.Numeral

/-! ### Digits -/

/-- The character of a digit below ten. -/
def digit (d : ℕ) : Byte := BitVec.ofNat 8 (48 + d)

def isDigit (b : Byte) : Bool := 48 ≤ b.toNat ∧ b.toNat ≤ 57

def isOctal (b : Byte) : Bool := 48 ≤ b.toNat ∧ b.toNat ≤ 55

def isHex (b : Byte) : Bool :=
  isDigit b ∨ 65 ≤ b.toNat ∧ b.toNat ≤ 70 ∨ 97 ≤ b.toNat ∧ b.toNat ≤ 102

/-- The white space of the C locale. -/
def isSpace (b : Byte) : Bool := b.toNat = 32 ∨ 9 ≤ b.toNat ∧ b.toNat ≤ 13

/-- The number that a digit of any base up to sixteen stands for. -/
def digitValue (b : Byte) : ℕ :=
  if b.toNat ≤ 57 then b.toNat - 48 else if b.toNat ≤ 70 then b.toNat - 55 else b.toNat - 87

/-- The number that digits stand for, most significant first. -/
def value (base : ℕ) (ds : List Byte) : ℕ := ds.foldl (fun n b => base * n + digitValue b) 0

theorem toNat_digit {d : ℕ} (h : d < 10) : (digit d).toNat = 48 + d := by
  rw [digit, BitVec.toNat_ofNat]
  omega

theorem isDigit_digit {d : ℕ} (h : d < 10) : isDigit (digit d) := by
  simp only [isDigit, toNat_digit h, decide_eq_true_eq]
  omega

theorem digitValue_digit {d : ℕ} (h : d < 10) : digitValue (digit d) = d := by
  rw [digitValue, toNat_digit h, if_pos (by omega)]
  omega

theorem value_reverse_map_digit (base : ℕ) (ds : List ℕ) (h : ∀ d ∈ ds, d < 10) :
    value base (ds.map digit).reverse = Nat.ofDigits base ds := by
  induction ds with
  | nil => rfl
  | cons d ds ih =>
    have hd := digitValue_digit (h d (by simp))
    have htail := ih fun e he => h e (by simp [he])
    simp only [value] at htail
    simp only [value, List.map_cons, List.reverse_cons, List.foldl_append, htail,
      List.foldl_cons, List.foldl_nil, hd, Nat.ofDigits_cons]
    ring

/-! ### Printing -/

/-- A number as it is printed. -/
def decimal (n : ℕ) : List Byte :=
  if n = 0 then [digit 0] else ((Nat.digits 10 n).map digit).reverse

theorem decimal_ne_nil (n : ℕ) : decimal n ≠ [] := by
  rw [decimal]
  split
  · simp
  · simpa [Nat.digits_ne_nil_iff_ne_zero]

theorem isDigit_of_mem_decimal {n : ℕ} {b : Byte} (h : b ∈ decimal n) : isDigit b := by
  rw [decimal] at h
  split at h
  · obtain rfl := List.mem_singleton.1 h
    exact isDigit_digit (by omega)
  · rw [List.mem_reverse, List.mem_map] at h
    obtain ⟨d, hd, rfl⟩ := h
    exact isDigit_digit (Nat.digits_lt_base (by omega) hd)

@[simp] theorem value_decimal (n : ℕ) : value 10 (decimal n) = n := by
  rw [decimal]
  split
  · rename_i h
    rw [h]
    rfl
  · rw [value_reverse_map_digit 10 _ fun d hd => Nat.digits_lt_base (by omega) hd,
      Nat.ofDigits_digits]

theorem head?_decimal {n : ℕ} (h : n ≠ 0) : (decimal n).head? ≠ some 48#8 := by
  have hne : Nat.digits 10 n ≠ [] := Nat.digits_ne_nil_iff_ne_zero.2 h
  have hlast : (Nat.digits 10 n).getLast hne ≠ 0 := Nat.getLast_digit_ne_zero 10 h
  have hlt : (Nat.digits 10 n).getLast hne < 10 :=
    Nat.digits_lt_base (by omega) (List.getLast_mem hne)
  rw [decimal, if_neg h, List.head?_reverse, List.getLast?_map,
    List.getLast?_eq_some_getLast hne, Option.map_some, Ne, Option.some.injEq]
  intro heq
  have := congrArg BitVec.toNat heq
  rw [toNat_digit hlt] at this
  change 48 + _ = 48 at this
  omega

/-! ### Reading -/

/-- The text does not begin with a character that `p` accepts. -/
def StopsAt (p : Byte → Bool) (rest : List Byte) : Prop := ∀ b ∈ rest.head?, p b = false

theorem stopsAt_nil {p : Byte → Bool} : StopsAt p [] := by simp [StopsAt]

theorem takeWhile_append_stop {p : Byte → Bool} {ds rest : List Byte} (hds : ∀ b ∈ ds, p b)
    (hrest : StopsAt p rest) : (ds ++ rest).takeWhile p = ds := by
  rw [List.takeWhile_append_of_pos hds]
  cases rest with
  | nil => simp
  | cons b rest => simp [hrest b (by simp)]

theorem dropWhile_append_stop {p : Byte → Bool} {ds rest : List Byte} (hds : ∀ b ∈ ds, p b)
    (hrest : StopsAt p rest) : (ds ++ rest).dropWhile p = rest := by
  rw [List.dropWhile_append_of_pos hds]
  cases rest with
  | nil => rfl
  | cons b rest => simp [hrest b (by simp)]

/-- `strtoul` in base 0, of a text that begins with a digit: the number and the
text that follows it. -/
def strtoul (s : List Byte) : ℕ × List Byte :=
  if s.head? ≠ some 48#8 then (value 10 (s.takeWhile isDigit), s.dropWhile isDigit)
  else if (s[1]? = some 120#8 ∨ s[1]? = some 88#8) ∧ s[2]?.any isHex then
    (value 16 ((s.drop 2).takeWhile isHex), (s.drop 2).dropWhile isHex)
  else (value 8 (s.takeWhile isOctal), s.dropWhile isOctal)

/-- The text neither continues a number nor turns a zero into a prefix. -/
def EndsNumber (rest : List Byte) : Prop :=
  ∀ b ∈ rest.head?, isDigit b = false ∧ b ≠ 120#8 ∧ b ≠ 88#8

theorem strtoul_decimal (n : ℕ) {rest : List Byte} (h : EndsNumber rest) :
    strtoul (decimal n ++ rest) = (n, rest) := by
  have hstop : StopsAt isDigit rest := fun b hb => (h b hb).1
  by_cases hn : n = 0
  · have hzero : decimal n = [48#8] := by
      rw [hn]
      rfl
    have hoct : StopsAt isOctal rest := fun b hb => by
      have := hstop b hb
      simp only [isDigit, isOctal, decide_eq_false_iff_not] at this ⊢
      omega
    have hds : ∀ b ∈ [48#8], isOctal b := by decide
    rw [hzero, strtoul, if_neg (by simp), if_neg ?_, takeWhile_append_stop hds hoct,
      dropWhile_append_stop hds hoct, hn]
    · rfl
    · cases rest with
      | nil => simp
      | cons b rest =>
        have := h b (by simp)
        simp [this]
  · rw [strtoul, if_pos ?_, takeWhile_append_stop (fun b => isDigit_of_mem_decimal) hstop,
      dropWhile_append_stop (fun b => isDigit_of_mem_decimal) hstop, value_decimal]
    rw [List.head?_append_of_ne_nil _ (decimal_ne_nil n)]
    exact head?_decimal hn

/-- The sign and the digits of the number at the beginning of a text, after space. -/
def extract (s : List Byte) : Option (Bool × ℕ) :=
  let s := s.dropWhile isSpace
  let negative := s.head? = some 45#8
  let ds := (if negative ∨ s.head? = some 43#8 then s.drop 1 else s).takeWhile isDigit
  if ds = [] then none else some (negative, value 10 ds)

/-- `istream >> int`. -/
def extractInt (s : List Byte) : ℤ :=
  match extract s with
  | none => 0
  | some (true, n) => max (-2 ^ 31) (-n)
  | some (false, n) => min (2 ^ 31 - 1) n

/-- `istream >> unsigned`: the negative numbers wrap around. -/
def extractUnsigned (s : List Byte) : Word :=
  match extract s with
  | none => 0
  | some (negative, n) =>
    if 2 ^ 32 ≤ n then BitVec.ofNat 32 (2 ^ 32 - 1)
    else if negative then -BitVec.ofNat 32 n else BitVec.ofNat 32 n

theorem extract_decimal (n : ℕ) : extract (decimal n) = some (false, n) := by
  obtain ⟨b, ds, hds⟩ := List.exists_cons_of_ne_nil (decimal_ne_nil n)
  have hb : isDigit b := isDigit_of_mem_decimal (hds ▸ List.mem_cons_self)
  have hspace : isSpace b = false := by
    simp only [isDigit, isSpace, decide_eq_true_eq, decide_eq_false_iff_not] at hb ⊢
    omega
  have hminus : b ≠ 45#8 := by
    rintro rfl
    simp [isDigit] at hb
  have hplus : b ≠ 43#8 := by
    rintro rfl
    simp [isDigit] at hb
  have htake : (b :: ds).takeWhile isDigit = b :: ds := by
    have hall : ∀ c ∈ b :: ds, isDigit c := fun c hc => isDigit_of_mem_decimal (hds ▸ hc)
    have := takeWhile_append_stop hall stopsAt_nil
    rwa [List.append_nil] at this
  have hvalue := value_decimal n
  rw [hds] at hvalue ⊢
  simp [extract, hspace, hminus, hplus, htake, hvalue]

theorem extractInt_decimal {n : ℕ} (h : n < 2 ^ 31) : extractInt (decimal n) = n := by
  simp only [extractInt, extract_decimal]
  omega

theorem extractUnsigned_decimal (x : Word) : extractUnsigned (decimal x.toNat) = x := by
  have := x.isLt
  simp only [extractUnsigned, extract_decimal]
  rw [if_neg (by omega), if_neg (by simp), BitVec.ofNat_toNat, BitVec.setWidth_eq]

end Jingle.Numeral
