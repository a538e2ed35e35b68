/-
The other encoder of URLs.

`InternalUrlEncode` writes into a buffer of `max` bytes.  It asks for room for three bytes
and the terminator before it writes a byte in hexadecimal, but a character that stands for
itself may take the last byte.  Lengths are compared as 32-bit numbers.  Characters are
signed, and the letters and digits are those of the C locale.

* **`urlEncode_iff`** — the encoder stays inside of its buffer, and the decoder is its inverse,
  just when no character that is written as it is ends in the last byte, and the lengths fit
  into their type.
* `not_urlEncode` — one letter into a buffer of one byte.
-/
import Jingle.Lib.Bits
import Jingle.Base.StringEncode

namespace Jingle.Base.UrlEncode

open Buffer Numeral StringEncode

/-! ### The code -/

def isalnum (ch : Byte) : Bool :=
  (48 ≤ ch.toNat ∧ ch.toNat ≤ 57) ∨ (65 ≤ ch.toNat ∧ ch.toNat ≤ 90) ∨
    (97 ≤ ch.toNat ∧ ch.toNat ≤ 122)

def isValidUrlChar (ch : Byte) (unsafe_only : Bool) : Bool :=
  if unsafe_only then
    !(decide (ch.toInt ≤ 32) || strchr (textBytes "\\\"^&`<>[]\x7b\x7d") ch)
  else isalnum ch || strchr (textBytes "-_.!~*'()") ch

def digits : List Byte := textBytes "0123456789ABCDEF"

/-- `%` and the digits of a byte. -/
def hexCode (ch : Byte) : List Byte :=
  [37#8, digits.getD ((ch >>> 4) &&& 0x0F#8).toNat 0, digits.getD (ch &&& 0x0F#8).toNat 0]

/-- A length as an unsigned number of 32 bits. -/
def unsigned (n : ℕ) : ℕ := n % 2 ^ 32

/-- The loop of `InternalUrlEncode`. -/
def encodeLoop (max : ℕ) (encode_space_as_plus unsafe_only : Bool) :
    List Byte → Buffer Byte → Buffer Byte
  | [], dest => dest
  | ch :: source, dest =>
    if unsigned dest.bufpos < max then
      if ch = 32#8 ∧ encode_space_as_plus = true ∧ unsafe_only = false then
        encodeLoop max encode_space_as_plus unsafe_only source (dest.put 43#8)
      else if isValidUrlChar ch unsafe_only then
        encodeLoop max encode_space_as_plus unsafe_only source (dest.put ch)
      else if unsigned (unsigned dest.bufpos + 4) > max then dest
      else encodeLoop max encode_space_as_plus unsafe_only source (dest.puts (hexCode ch))
    else dest

def internalUrlEncode (source : List Byte) (max : ℕ) (encode_space_as_plus unsafe_only : Bool) :
    Buffer Byte :=
  if max = 0 then start
  else (encodeLoop max encode_space_as_plus unsafe_only source start).terminate 0#8

/-- The digit of `HexPairValue`. -/
def digitValue (ch : Byte) : Option ℕ :=
  if 48 ≤ ch.toNat ∧ ch.toNat ≤ 57 then some (ch.toNat - 48)
  else if 65 ≤ ch.toNat ∧ ch.toNat ≤ 70 then some (ch.toNat - 65 + 10)
  else if 97 ≤ ch.toNat ∧ ch.toNat ≤ 102 then some (ch.toNat - 97 + 10)
  else none

def hexPairValue (c₁ c₂ : Byte) : Option ℕ :=
  (digitValue c₁).bind fun high => (digitValue c₂).map fun low => (high <<< 4) + low

/-- What `InternalUrlDecode` makes of a character that stands for itself. -/
def decodeChar (encode_space_as_plus : Bool) (ch : Byte) : Byte :=
  if ch = 43#8 ∧ encode_space_as_plus = true then 32#8 else ch

def internalUrlDecode (encode_space_as_plus : Bool) : List Byte → List Byte
  | ch :: c₁ :: c₂ :: source =>
    if ch = 37#8 then
      match hexPairValue c₁ c₂ with
      | some value => BitVec.ofNat 8 value :: internalUrlDecode encode_space_as_plus source
      | none => 63#8 :: internalUrlDecode encode_space_as_plus (c₁ :: c₂ :: source)
    else
      decodeChar encode_space_as_plus ch ::
        internalUrlDecode encode_space_as_plus (c₁ :: c₂ :: source)
  | ch :: source =>
    (if ch = 37#8 then 63#8 else decodeChar encode_space_as_plus ch) ::
      internalUrlDecode encode_space_as_plus source
  | [] => []

/-- `return buf`: the string up to the terminator, if one has been written. -/
def stringOf (buf : Buffer Byte) : Option (List Byte) :=
  if buf.cells buf.bufpos = some 0#8 then some (cString buf.string) else none

def internalUrlEncodeString (decoded : List Byte) (encode_space_as_plus unsafe_only : Bool) :
    Option (List Byte) :=
  stringOf (internalUrlEncode (cString decoded) (unsigned (decoded.length * 3 + 1))
    encode_space_as_plus unsafe_only)

def internalUrlDecodeString (encoded : List Byte) (encode_space_as_plus : Bool) : List Byte :=
  cString (internalUrlDecode encode_space_as_plus (cString encoded))

def urlEncodeString (decoded : List Byte) : Option (List Byte) :=
  internalUrlEncodeString decoded true false

def urlEncodeStringWithoutEncodingSpaceAsPlus (decoded : List Byte) : Option (List Byte) :=
  internalUrlEncodeString decoded false false

def urlDecodeString (encoded : List Byte) : List Byte := internalUrlDecodeString encoded true

def urlDecodeStringWithoutEncodingSpaceAsPlus (encoded : List Byte) : List Byte :=
  internalUrlDecodeString encoded false

/-! ### What the encoder writes -/

section

variable {max : ℕ} {plus only : Bool} {source : List Byte} {ch : Byte}

/-- The encoding of a character. -/
def charCode (plus only : Bool) (ch : Byte) : List Byte :=
  if ch = 32#8 ∧ plus = true ∧ only = false then [43#8]
  else if isValidUrlChar ch only then [ch]
  else hexCode ch

/-- The encoding of a text. -/
def code (plus only : Bool) (x : List Byte) : List Byte := x.flatMap (charCode plus only)

/-- A character that takes one byte. -/
def Single (plus only : Bool) (ch : Byte) : Prop :=
  (ch = 32#8 ∧ plus = true ∧ only = false) ∨ isValidUrlChar ch only = true

instance (plus only : Bool) (ch : Byte) : Decidable (Single plus only ch) :=
  inferInstanceAs (Decidable (_ ∨ _))

/-- The encoder finds room for a character behind `n` bytes. -/
def Room (max : ℕ) (plus only : Bool) (n : ℕ) (ch : Byte) : Prop :=
  unsigned n < max ∧ (Single plus only ch ∨ unsigned (unsigned n + 4) ≤ max)

instance (max : ℕ) (plus only : Bool) (n : ℕ) (ch : Byte) : Decidable (Room max plus only n ch) :=
  inferInstanceAs (Decidable (_ ∧ _))

/-- The characters that are encoded behind `n` bytes. -/
def fitting (max : ℕ) (plus only : Bool) : ℕ → List Byte → List Byte
  | _, [] => []
  | n, ch :: source =>
    if Room max plus only n ch then
      ch :: fitting max plus only (n + (charCode plus only ch).length) source
    else []

theorem length_charCode (plus only : Bool) (ch : Byte) :
    (charCode plus only ch).length = if Single plus only ch then 1 else 3 := by
  rw [charCode]
  by_cases hspace : ch = 32#8 ∧ plus = true ∧ only = false
  · rw [if_pos hspace, if_pos (.inl hspace)]
    rfl
  by_cases hvalid : isValidUrlChar ch only = true
  · rw [if_neg hspace, if_pos hvalid, if_pos (.inr hvalid)]
    rfl
  · rw [if_neg hspace, if_neg hvalid, if_neg fun h => h.elim hspace hvalid]
    rfl

theorem code_cons (ch : Byte) (x : List Byte) :
    code plus only (ch :: x) = charCode plus only ch ++ code plus only x := List.flatMap_cons

theorem encodeLoop_eq (as : List Byte) : encodeLoop max plus only source (ofList as) =
    ofList (as ++ code plus only (fitting max plus only as.length source)) := by
  induction source generalizing as with
  | nil => rw [encodeLoop, fitting, code, List.flatMap_nil, List.append_nil]
  | cons ch source ih =>
    have hpos : (ofList as).bufpos = as.length := rfl
    have hstep : ∀ bs, encodeLoop max plus only source (ofList (as ++ bs)) =
        ofList (as ++ (bs ++ code plus only
          (fitting max plus only (as.length + bs.length) source))) := fun bs => by
      rw [ih, List.length_append, List.append_assoc]
    rw [encodeLoop, fitting, hpos]
    by_cases hroom : unsigned as.length < max
    swap
    · rw [if_neg hroom, if_neg fun h => hroom h.1, code, List.flatMap_nil, List.append_nil]
    rw [if_pos hroom]
    by_cases hspace : ch = 32#8 ∧ plus = true ∧ only = false
    · rw [if_pos hspace, if_pos ⟨hroom, .inl (.inl hspace)⟩, put_ofList, hstep, code_cons,
        charCode, if_pos hspace]
    rw [if_neg hspace]
    by_cases hvalid : isValidUrlChar ch only = true
    · rw [if_pos hvalid, if_pos ⟨hroom, .inl (.inr hvalid)⟩, put_ofList, hstep, code_cons,
        charCode, if_neg hspace, if_pos hvalid]
    rw [if_neg hvalid]
    by_cases hfour : unsigned (unsigned as.length + 4) > max
    · rw [if_pos hfour, if_neg, code, List.flatMap_nil, List.append_nil]
      rintro ⟨-, h | h⟩
      · exact h.elim hspace hvalid
      · exact absurd hfour (Nat.not_lt.2 h)
    · rw [if_neg hfour, if_pos ⟨hroom, .inr (Nat.not_lt.1 hfour)⟩, puts_ofList, hstep, code_cons,
        charCode, if_neg hspace, if_neg hvalid]

theorem internalUrlEncode_eq (source : List Byte) (plus only : Bool) (hmax : max ≠ 0) :
    internalUrlEncode source max plus only =
      (ofList (code plus only (fitting max plus only 0 source))).terminate 0#8 := by
  rw [internalUrlEncode, if_neg hmax, start_eq, encodeLoop_eq]
  rfl

/-! ### Bounds -/

/-- No character ends in the last byte of the buffer but with its own terminator: one that
takes one byte is not written there, and no length comes near to the end of its type. -/
def Fits (max : ℕ) (plus only : Bool) (n : ℕ) (source : List Byte) : Prop :=
  ∀ x ch rest, source = x ++ ch :: rest → n + (code plus only x).length < max →
    if Single plus only ch then n + (code plus only x).length + 1 ≠ max
    else n + (code plus only x).length + 4 < 2 ^ 32

theorem fits_cons {n : ℕ} (hn : n < max) : Fits max plus only n (ch :: source) ↔
    (if Single plus only ch then n + 1 ≠ max else n + 4 < 2 ^ 32) ∧
      Fits max plus only (n + (charCode plus only ch).length) source := by
  constructor
  · intro h
    refine ⟨h [] ch source rfl hn, fun x c rest heq hlt => ?_⟩
    have hlen : (code plus only (ch :: x)).length =
        (charCode plus only ch).length + (code plus only x).length := by
      rw [code_cons, List.length_append]
    have hsource : ch :: source = (ch :: x) ++ c :: rest := congrArg (ch :: ·) heq
    have hx := h (ch :: x) c rest hsource (by omega)
    rw [hlen, ← Nat.add_assoc] at hx
    exact hx
  · rintro ⟨hhead, htail⟩ x c rest heq hlt
    rcases x with _ | ⟨c', x⟩
    · obtain ⟨rfl, rfl⟩ := List.cons.inj heq
      exact hhead
    · obtain ⟨rfl, hsource⟩ := List.cons.inj heq
      rw [code_cons, List.length_append, ← Nat.add_assoc] at hlt ⊢
      exact htail x c rest hsource hlt

theorem fits_of_le {n : ℕ} (hn : max ≤ n) : Fits max plus only n source :=
  fun x ch rest _ hlt => absurd hlt (by omega)

theorem fitting_lt_iff (plus only : Bool) (source : List Byte) (hmax : max < 2 ^ 32) {n : ℕ}
    (hn : n < max) :
    n + (code plus only (fitting max plus only n source)).length < max ↔
      Fits max plus only n source := by
  induction source generalizing n with
  | nil =>
    refine iff_of_true hn fun x ch rest heq _ => ?_
    rcases x with _ | ⟨c, x⟩
    · cases heq
    · cases heq
  | cons ch source ih =>
    have hlen := length_charCode plus only ch
    have hself : unsigned n = n := Nat.mod_eq_of_lt (hn.trans hmax)
    rw [fits_cons hn, fitting]
    by_cases hroom : Room max plus only n ch
    · rw [if_pos hroom, code_cons, List.length_append, ← Nat.add_assoc]
      by_cases hnext : n + (charCode plus only ch).length < max
      · rw [ih hnext]
        refine (and_iff_right ?_).symm
        split_ifs at hlen ⊢
        · omega
        · omega
      · -- the character has taken the last byte
        refine iff_of_false (by omega) fun h => ?_
        obtain ⟨hhead, -⟩ := h
        obtain ⟨-, hsingle | hfour⟩ := hroom
        · rw [if_pos hsingle] at hhead hlen
          omega
        · split_ifs at hhead hlen with hsingle
          · omega
          · rw [hself, unsigned, Nat.mod_eq_of_lt hhead] at hfour
            omega
    · rw [if_neg hroom, code, List.flatMap_nil, List.length_nil, Nat.add_zero]
      refine iff_of_true hn ⟨?_, ?_⟩
      · by_cases hsingle : Single plus only ch
        · exact absurd ⟨hself.trans_lt hn, .inl hsingle⟩ hroom
        · rw [if_neg hsingle]
          by_contra hlarge
          refine hroom ⟨hself.trans_lt hn, .inr ?_⟩
          rw [hself, unsigned, Nat.mod_eq_sub_mod (by omega), Nat.mod_eq_of_lt (by omega)]
          omega
      · by_cases hsingle : Single plus only ch
        · exact absurd ⟨hself.trans_lt hn, .inl hsingle⟩ hroom
        · rw [if_neg hsingle] at hlen
          refine fits_of_le ?_
          by_contra hlt
          refine hroom ⟨hself.trans_lt hn, .inr ?_⟩
          rw [hself, unsigned, Nat.mod_eq_of_lt (by omega)]
          omega

/-- What is promised of the encoder: it writes the encoding of a part of the text from its
beginning on, with a terminator, into at most `max` bytes. -/
structure Encodes (max : ℕ) (plus only : Bool) (source : List Byte) (dest : Buffer Byte) :
    Prop where
  bounded : Bounded 0#8 max dest
  part : ∃ x, x <+: source ∧ dest.string = code plus only x

theorem fitting_prefix (n : ℕ) : fitting max plus only n source <+: source := by
  induction source generalizing n with
  | nil => exact List.nil_prefix
  | cons ch source ih =>
    rw [fitting]
    split_ifs
    · exact (List.prefix_cons_inj ch).2 (ih _)
    · exact List.nil_prefix

theorem encodes_iff (source : List Byte) (plus only : Bool) (hpos : 1 ≤ max)
    (hmax : max < 2 ^ 32) :
    Encodes max plus only source (internalUrlEncode source max plus only) ↔
      Fits max plus only 0 source := by
  have hlt := fitting_lt_iff plus only source hmax hpos
  rw [Nat.zero_add] at hlt
  rw [← hlt, internalUrlEncode_eq source plus only (by omega)]
  refine ⟨fun h => h.bounded.length_lt, fun h => ⟨bounded_terminate h, ?_⟩⟩
  exact ⟨_, fitting_prefix 0, string_terminate ..⟩

/-! ### The inverse -/

theorem digits_eq : digits = [48#8, 49#8, 50#8, 51#8, 52#8, 53#8, 54#8, 55#8, 56#8, 57#8, 65#8,
    66#8, 67#8, 68#8, 69#8, 70#8] := by
  decide +kernel

theorem digitValue_digits : ∀ n : Fin 16,
    digitValue (digits.getD n 0) = some n.val ∧ digits.getD n 0 ≠ 0#8 := by
  simp only [digits_eq]
  decide

theorem toNat_halves (ch : Byte) : ((ch >>> 4) &&& 0x0F#8).toNat = ch.toNat / 16 ∧
    (ch &&& 0x0F#8).toNat = ch.toNat % 16 := by
  have hlt := ch.isLt
  have hhigh : ((ch >>> 4) &&& 0x0F#8).toNat = ch.toNat / 16 % 16 :=
    toNat_shr_and ch 4 (k := 4) (by omega)
  exact ⟨hhigh.trans (Nat.mod_eq_of_lt (by omega)), toNat_and_mask ch (k := 4) (by omega)⟩

theorem not_mem_hexCode (ch : Byte) : 0#8 ∉ hexCode ch := by
  have hlt := ch.isLt
  obtain ⟨hhigh, hlow⟩ := toNat_halves ch
  have h₁ := (digitValue_digits ⟨ch.toNat / 16, by omega⟩).2
  have h₂ := (digitValue_digits ⟨ch.toNat % 16, by omega⟩).2
  rw [hexCode, hhigh, hlow]
  simp only [List.mem_cons, List.not_mem_nil, or_false, not_or]
  exact ⟨by decide, h₁.symm, h₂.symm⟩

theorem hexPairValue_digits (ch : Byte) :
    hexPairValue (digits.getD ((ch >>> 4) &&& 0x0F#8).toNat 0)
      (digits.getD (ch &&& 0x0F#8).toNat 0) = some ch.toNat := by
  have hlt := ch.isLt
  obtain ⟨hhigh, hlow⟩ := toNat_halves ch
  have h₁ := (digitValue_digits ⟨ch.toNat / 16, by omega⟩).1
  have h₂ := (digitValue_digits ⟨ch.toNat % 16, by omega⟩).1
  rw [hhigh, hlow, hexPairValue, h₁, Option.bind_some, h₂, Option.map_some, Nat.shiftLeft_eq]
  exact congrArg some (by dsimp only; omega)

theorem ne_of_valid (h : isValidUrlChar ch false = true) : ch ≠ 37#8 ∧ ch ≠ 43#8 := by
  constructor
  · rintro rfl
    exact absurd h (by decide +kernel)
  · rintro rfl
    exact absurd h (by decide +kernel)

theorem ofNat_toNat (ch : Byte) : BitVec.ofNat 8 ch.toNat = ch := by
  rw [BitVec.ofNat_toNat, BitVec.setWidth_eq]

theorem internalUrlDecode_cons (hch : ch ≠ 37#8) : internalUrlDecode plus (ch :: source) =
    decodeChar plus ch :: internalUrlDecode plus source := by
  rcases source with _ | ⟨c₁, _ | ⟨c₂, source⟩⟩
  · rw [internalUrlDecode, if_neg hch]
    simp
  · rw [internalUrlDecode, if_neg hch]
    simp
  · rw [internalUrlDecode, if_neg hch]

theorem internalUrlDecode_hexCode (ch : Byte) (source : List Byte) :
    internalUrlDecode plus (hexCode ch ++ source) = ch :: internalUrlDecode plus source := by
  rw [hexCode, List.cons_append, List.cons_append, List.cons_append, List.nil_append,
    internalUrlDecode, if_pos rfl, hexPairValue_digits]
  exact congrArg (· :: _) (ofNat_toNat ch)

theorem internalUrlDecode_charCode (ch : Byte) (source : List Byte) :
    internalUrlDecode plus (charCode plus false ch ++ source) =
      ch :: internalUrlDecode plus source := by
  rw [charCode]
  split_ifs with hspace hvalid
  · rw [List.singleton_append, internalUrlDecode_cons (by decide), decodeChar,
      if_pos ⟨rfl, hspace.2.1⟩, hspace.1]
  · obtain ⟨hpercent, hplus⟩ := ne_of_valid hvalid
    rw [List.singleton_append, internalUrlDecode_cons hpercent, decodeChar,
      if_neg fun h => hplus h.1]
  · exact internalUrlDecode_hexCode ch source

theorem internalUrlDecode_code (x : List Byte) :
    internalUrlDecode plus (code plus false x) = x := by
  induction x with
  | nil => rfl
  | cons ch x ih => rw [code_cons, internalUrlDecode_charCode, ih]

theorem not_mem_code {x : List Byte} (hx : 0#8 ∉ x) : 0#8 ∉ code plus only x := by
  rw [code, List.mem_flatMap]
  rintro ⟨ch, hch, hzero⟩
  rw [charCode] at hzero
  split_ifs at hzero
  · exact absurd (List.mem_singleton.1 hzero) (by decide)
  · rw [← List.mem_singleton.1 hzero] at hch
    exact hx hch
  · exact not_mem_hexCode ch hzero

/-- Every character finds room. -/
def AllRoom (max : ℕ) (plus only : Bool) (n : ℕ) (source : List Byte) : Prop :=
  ∀ x ch rest, source = x ++ ch :: rest → Room max plus only (n + (code plus only x).length) ch

theorem fitting_eq_iff (n : ℕ) :
    fitting max plus only n source = source ↔ AllRoom max plus only n source := by
  induction source generalizing n with
  | nil =>
    refine iff_of_true rfl fun x ch rest heq => ?_
    rcases x with _ | ⟨c, x⟩
    · cases heq
    · cases heq
  | cons ch source ih =>
    rw [fitting]
    by_cases hroom : Room max plus only n ch
    · rw [if_pos hroom, List.cons_inj_right, ih]
      constructor
      · intro h x c rest heq
        rcases x with _ | ⟨c', x⟩
        · obtain ⟨rfl, rfl⟩ := List.cons.inj heq
          exact hroom
        · obtain ⟨rfl, hsource⟩ := List.cons.inj heq
          rw [code_cons, List.length_append, ← Nat.add_assoc]
          exact h x c rest hsource
      · intro h x c rest heq
        have hx := h (ch :: x) c rest (congrArg (ch :: ·) heq)
        rw [code_cons, List.length_append, ← Nat.add_assoc] at hx
        exact hx
    · rw [if_neg hroom]
      exact iff_of_false (by simp) fun h => hroom (h [] ch source rfl)

end

/-- The decoder of a string undoes its encoder. -/
def Inverse (plus : Bool) (s : List Byte) : Prop :=
  (internalUrlEncodeString s plus false).map (internalUrlDecodeString · plus) = some s

theorem inverse_iff {plus : Bool} {s : List Byte} (hs : 0#8 ∉ s) :
    Inverse plus s ↔ AllRoom (unsigned (s.length * 3 + 1)) plus false 0 s := by
  rw [← fitting_eq_iff, Inverse, internalUrlEncodeString, cString_eq_self_iff.2 hs]
  by_cases hmax : unsigned (s.length * 3 + 1) = 0
  · -- nothing is written, although there is something to write
    have hnone : stringOf (internalUrlEncode s 0 plus false) = none := rfl
    rw [hmax, hnone, Option.map_none]
    refine iff_of_false (by simp) fun h => ?_
    rcases s with _ | ⟨ch, s⟩
    · exact absurd hmax (by decide)
    · rw [fitting, if_neg fun hroom => absurd hroom.1 (Nat.not_lt_zero _)] at h
      cases h
  · rw [internalUrlEncode_eq s plus false hmax]
    generalize hx : fitting (unsigned (s.length * 3 + 1)) plus false 0 s = x
    have hx : 0#8 ∉ x := fun hmem => hs ((hx ▸ fitting_prefix 0).subset hmem)
    have hend : ((ofList (code plus false x)).terminate 0#8).cells
        ((ofList (code plus false x)).terminate 0#8).bufpos = some 0#8 := by
      rw [cells_terminate]
      exact List.getElem?_concat_length
    rw [stringOf, if_pos hend, string_terminate, cString_eq_self_iff.2 (not_mem_code hx),
      Option.map_some, internalUrlDecodeString, cString_eq_self_iff.2 (not_mem_code hx),
      internalUrlDecode_code, cString_eq_self_iff.2 hx, Option.some_inj]

/-- **The encoder and its buffer, and the decoder.** -/
theorem urlEncode_iff {s : List Byte} (hs : 0#8 ∉ s) :
    (∀ max plus only, 1 ≤ max → max < 2 ^ 32 →
      (Encodes max plus only s (internalUrlEncode s max plus only) ↔ Fits max plus only 0 s)) ∧
    ((urlEncodeString s).map urlDecodeString = some s ↔
      AllRoom (unsigned (s.length * 3 + 1)) true false 0 s) ∧
    ((urlEncodeStringWithoutEncodingSpaceAsPlus s).map
        urlDecodeStringWithoutEncodingSpaceAsPlus = some s ↔
      AllRoom (unsigned (s.length * 3 + 1)) false false 0 s) :=
  ⟨fun _ plus only hpos hmax => encodes_iff s plus only hpos hmax, inverse_iff hs, inverse_iff hs⟩

theorem urlEncode_iff_letter :
    (∀ max plus only, 1 ≤ max → max < 2 ^ 32 →
      (Encodes max plus only [97] (internalUrlEncode [97] max plus only) ↔
        Fits max plus only 0 [97])) ∧
    ((urlEncodeString [97]).map urlDecodeString = some [97] ↔
      AllRoom (unsigned 4) true false 0 [97]) ∧
    ((urlEncodeStringWithoutEncodingSpaceAsPlus [97]).map
        urlDecodeStringWithoutEncodingSpaceAsPlus = some [97] ↔
      AllRoom (unsigned 4) false false 0 [97]) := urlEncode_iff (by decide)

/-- **A letter into a buffer of one byte**: its terminator goes behind the end. -/
theorem not_urlEncode : ¬∀ s : List Byte, 0#8 ∉ s →
    (∀ max plus only, 1 ≤ max → max < 2 ^ 32 →
      Encodes max plus only s (internalUrlEncode s max plus only)) ∧
    (urlEncodeString s).map urlDecodeString = some s ∧
    (urlEncodeStringWithoutEncodingSpaceAsPlus s).map
      urlDecodeStringWithoutEncodingSpaceAsPlus = some s := by
  intro h
  have hbounded := ((h [97] (by decide)).1 1 true false le_rfl (by decide)).bounded
  exact absurd hbounded.length_lt (by decide +kernel)

end Jingle.Base.UrlEncode
