/-
Base64.

The decoder takes quanta of four characters; the flags say which characters it skips,
whether padding is needed and where the text may end.  The locals of `GetNextQuantum` are
a `QuantumState`: the values that it has taken, the pads after them and the position.

* `decode_encode` — the strict decoder reads what the encoder writes.
* `encode_of_decode` — **and reads nothing else**: a text that it accepts is what its
  result is written as.
-/
import Jingle.Lib.Bits

namespace Jingle.Base

namespace Base64

def kPad : Byte := 61

/-- What is not a value: padding, whitespace and an illegal character. -/
def pd : Byte := 0xFD
def sp : Byte := 0xFE
def il : Byte := 0xFF

def base64Table : List Byte :=
  textBytes "ABCDEFGHIJKLMNOPQRSTUVWXYZabcdefghijklmnopqrstuvwxyz0123456789+/"

/-- The table of the values of characters. -/
def decodeTable (ch : Byte) : Byte :=
  if (9 ≤ ch ∧ ch ≤ 13) ∨ ch = 32 then sp
  else if ch = 43 then 62
  else if ch = 47 then 63
  else if 48 ≤ ch ∧ ch ≤ 57 then ch + 4
  else if ch = 61 then pd
  else if 65 ≤ ch ∧ ch ≤ 90 then ch - 65
  else if 97 ≤ ch ∧ ch ≤ 122 then ch - 71
  else il

def toChar (c : Byte) : Byte := base64Table.getD c.toNat 0

/-- `EncodeFromArray`, by where the data ends. -/
def encodeFromArray : List Byte → List Byte
  | [] => []
  | [a] => [toChar ((a >>> 2) &&& 0x3f#8), toChar ((a <<< 4) &&& 0x3f#8), kPad, kPad]
  | [a, b] =>
    [toChar ((a >>> 2) &&& 0x3f#8), toChar (((a <<< 4) &&& 0x3f#8) ||| ((b >>> 4) &&& 0x0f#8)),
      toChar ((b <<< 2) &&& 0x3f#8), kPad]
  | a :: b :: c :: data =>
    toChar ((a >>> 2) &&& 0x3f#8) :: toChar (((a <<< 4) &&& 0x3f#8) ||| ((b >>> 4) &&& 0x0f#8)) ::
      toChar (((b <<< 2) &&& 0x3f#8) ||| ((c >>> 6) &&& 0x03#8)) :: toChar (c &&& 0x3f#8) ::
        encodeFromArray data

/-- Which characters are skipped. -/
inductive ParseFlag
  | strict
  | white
  | any
  deriving DecidableEq

/-- What is made of padding. -/
inductive PadFlag
  | yes
  | any
  | no
  deriving DecidableEq

/-- Where the text may end. -/
inductive TermFlag
  | buffer
  | char
  | any
  deriving DecidableEq

structure DecodeFlags where
  parse : ParseFlag
  pad : PadFlag
  term : TermFlag

def doStrict : DecodeFlags := ⟨.strict, .yes, .buffer⟩

structure QuantumState where
  /-- The values so far; there are `byte_len` of them. -/
  qbuf : List Byte
  pad_len : ℕ
  pad_start : ℕ
  dpos : ℕ

def QuantumState.skip (s : QuantumState) : QuantumState := { s with dpos := s.dpos + 1 }

/-- The loop of `GetNextQuantum`. -/
def quantumLoop (parse_flags : ParseFlag) (illegal_pads : Bool) :
    List Byte → QuantumState → QuantumState
  | [], s => s
  | ch :: data, s =>
    if s.qbuf.length ≥ 4 then s
    else
      let q := decodeTable ch
      if q = il ∨ (illegal_pads = true ∧ q = pd) then
        if parse_flags ≠ .any then s else quantumLoop parse_flags illegal_pads data s.skip
      else if q = sp then
        if parse_flags = .strict then s else quantumLoop parse_flags illegal_pads data s.skip
      else if q = pd then
        if s.qbuf.length < 2 then
          if parse_flags ≠ .any then s else quantumLoop parse_flags illegal_pads data s.skip
        else if s.qbuf.length + s.pad_len ≥ 4 then
          if parse_flags ≠ .any then s else quantumLoop parse_flags illegal_pads data s.skip
        else
          quantumLoop parse_flags illegal_pads data
            { s with
              pad_len := s.pad_len + 1
              pad_start := if s.pad_len = 0 then s.dpos else s.pad_start
              dpos := s.dpos + 1 }
      else if s.pad_len > 0 ∧ parse_flags ≠ .any then s
      else
        quantumLoop parse_flags illegal_pads data
          { s with qbuf := s.qbuf ++ [q], pad_len := 0, dpos := s.dpos + 1 }

structure Quantum where
  byte_len : ℕ
  qbuf : ℕ → Byte
  padded : Bool
  dpos : ℕ

def getNextQuantum (parse_flags : ParseFlag) (illegal_pads : Bool) (data : List Byte)
    (dpos : ℕ) : Quantum :=
  let s := quantumLoop parse_flags illegal_pads (data.drop dpos) ⟨[], 0, 0, dpos⟩
  { byte_len := s.qbuf.length
    qbuf := fun i => s.qbuf.getD i 0
    padded := 4 = s.qbuf.length + s.pad_len
    dpos := if 4 = s.qbuf.length + s.pad_len then s.dpos
      else if s.pad_len ≠ 0 then s.pad_start else s.dpos }

/-- The bytes of a quantum. -/
def Quantum.bytes (q : Quantum) : List Byte :=
  [(q.qbuf 0 <<< 2) ||| ((q.qbuf 1 >>> 4) &&& 0x3#8),
    ((q.qbuf 1 <<< 4) &&& 0xf0#8) ||| ((q.qbuf 2 >>> 2) &&& 0xf#8),
    ((q.qbuf 2 <<< 6) &&& 0xc0#8) ||| q.qbuf 3]

/-- What is left of the values after the bytes that they make. -/
def Quantum.unused (q : Quantum) : Byte :=
  if q.byte_len ≥ 4 then 0 else q.bytes.getD (q.byte_len - 1) 0

structure Decoded where
  success : Bool
  result : List Byte
  data_used : ℕ
  deriving DecidableEq

/-- The loop of `DecodeFromArray`; a quantum that does not end it has four characters or
more, so that it goes round less often than there are characters. -/
def decodeLoop (flags : DecodeFlags) (data : List Byte) : ℕ → ℕ → List Byte → Decoded
  | 0, dpos, result => ⟨true, result, dpos⟩
  | n + 1, dpos, result =>
    if dpos < data.length then
      let q := getNextQuantum flags.parse (flags.pad = .no) data dpos
      let result := result ++ q.bytes.take (q.byte_len - 1)
      if q.byte_len < 4 then
        ⟨!decide ((flags.term ≠ .any ∧ q.unused ≠ 0) ∨ (flags.pad = .yes ∧ q.padded = false)),
          result, q.dpos⟩
      else decodeLoop flags data n q.dpos result
    else ⟨true, result, dpos⟩

def decodeFromArray (data : List Byte) (flags : DecodeFlags) : Decoded :=
  let d := decodeLoop flags data data.length 0 []
  if flags.term = .buffer ∧ d.data_used ≠ data.length then { d with success := false } else d

/-! ### The tables -/

/-- A character that has a value. -/
def IsValue (ch : Byte) : Prop := decodeTable ch < 64

instance (ch : Byte) : Decidable (IsValue ch) := inferInstanceAs (Decidable (_ < _))

set_option maxRecDepth 20000 in
theorem decodeTable_toChar : ∀ c : Fin 64, decodeTable (toChar (BitVec.ofNat 8 c)) =
    BitVec.ofNat 8 c := by
  decide

set_option maxRecDepth 20000 in
theorem toChar_decodeTable : ∀ n : Fin 256, IsValue (BitVec.ofNat 8 n) →
    toChar (decodeTable (BitVec.ofNat 8 n)) = BitVec.ofNat 8 n := by
  decide

theorem value_char {c : Byte} (hc : c < 64) : decodeTable (toChar c) = c := by
  have h := decodeTable_toChar ⟨c.toNat, hc⟩
  rwa [BitVec.ofNat_toNat, BitVec.setWidth_eq] at h

theorem char_value {ch : Byte} (h : IsValue ch) : toChar (decodeTable ch) = ch := by
  have hch := toChar_decodeTable ⟨ch.toNat, ch.isLt⟩
  rw [BitVec.ofNat_toNat, BitVec.setWidth_eq] at hch
  exact hch h

theorem isValue_char {c : Byte} (hc : c < 64) : IsValue (toChar c) := by
  rw [IsValue, value_char hc]
  exact hc

/-! ### The bits -/

/-- The four values of three bytes, -/
def sextet1 (a : Byte) : Byte := (a >>> 2) &&& 0x3f#8
def sextet2 (a b : Byte) : Byte := ((a <<< 4) &&& 0x3f#8) ||| ((b >>> 4) &&& 0x0f#8)
def sextet3 (b c : Byte) : Byte := ((b <<< 2) &&& 0x3f#8) ||| ((c >>> 6) &&& 0x03#8)
def sextet4 (c : Byte) : Byte := c &&& 0x3f#8

/-- and the three bytes of four values. -/
def octet1 (p q : Byte) : Byte := (p <<< 2) ||| ((q >>> 4) &&& 0x3#8)
def octet2 (q r : Byte) : Byte := ((q <<< 4) &&& 0xf0#8) ||| ((r >>> 2) &&& 0xf#8)
def octet3 (r s : Byte) : Byte := ((r <<< 6) &&& 0xc0#8) ||| s

theorem toNat_sextet1 (a : Byte) : (sextet1 a).toNat = a.toNat / 4 := by
  have h : ((a >>> 2) &&& 0x3f#8).toNat = a.toNat / 4 % 64 :=
    toNat_shr_and a 2 (k := 6) (by omega)
  have hlt := a.isLt
  rw [sextet1]
  omega

theorem toNat_sextet2 (a b : Byte) : (sextet2 a b).toNat = a.toNat * 16 % 64 + b.toNat / 16 := by
  have ha : ((a <<< 4) &&& 0x3f#8).toNat = a.toNat * 16 % 64 :=
    toNat_shl_and a 4 (k := 6) (by omega)
  have hb : ((b >>> 4) &&& 0x0f#8).toNat = b.toNat / 16 % 16 :=
    toNat_shr_and b 4 (k := 4) (by omega)
  have hlt := b.isLt
  rw [sextet2, toNat_or_of_low (i := 4) _ _ (by omega) (by omega)]
  omega

theorem toNat_sextet3 (b c : Byte) : (sextet3 b c).toNat = b.toNat * 4 % 64 + c.toNat / 64 := by
  have hb : ((b <<< 2) &&& 0x3f#8).toNat = b.toNat * 4 % 64 :=
    toNat_shl_and b 2 (k := 6) (by omega)
  have hc : ((c >>> 6) &&& 0x03#8).toNat = c.toNat / 64 % 4 :=
    toNat_shr_and c 6 (k := 2) (by omega)
  have hlt := c.isLt
  rw [sextet3, toNat_or_of_low (i := 2) _ _ (by omega) (by omega)]
  omega

theorem toNat_sextet4 (c : Byte) : (sextet4 c).toNat = c.toNat % 64 :=
  toNat_and_mask c (k := 6) (by omega)

theorem toNat_octet1 (p q : Byte) (hq : q < 64) :
    (octet1 p q).toNat = p.toNat * 4 % 256 + q.toNat / 16 := by
  have hp : (p <<< 2).toNat = p.toNat * 4 % 256 := by
    rw [BitVec.toNat_shiftLeft, Nat.shiftLeft_eq]
  have hr : ((q >>> 4) &&& 0x3#8).toNat = q.toNat / 16 % 4 :=
    toNat_shr_and q 4 (k := 2) (by omega)
  have hlt : q.toNat < 64 := hq
  rw [octet1, toNat_or_of_low (i := 2) _ _ (by omega) (by omega)]
  omega

theorem toNat_octet2 (q r : Byte) (hr : r < 64) :
    (octet2 q r).toNat = q.toNat * 16 % 256 + r.toNat / 4 := by
  have hmask : (q <<< 4) &&& 0xf0#8 = q <<< 4 := by
    ext i hi
    interval_cases i <;> simp
  have hq : (q <<< 4).toNat = q.toNat * 16 % 256 := by
    rw [BitVec.toNat_shiftLeft, Nat.shiftLeft_eq]
  have hs : ((r >>> 2) &&& 0xf#8).toNat = r.toNat / 4 % 16 :=
    toNat_shr_and r 2 (k := 4) (by omega)
  have hlt : r.toNat < 64 := hr
  rw [octet2, hmask, toNat_or_of_low (i := 4) _ _ (by omega) (by omega)]
  omega

theorem toNat_octet3 (r s : Byte) (hs : s < 64) :
    (octet3 r s).toNat = r.toNat * 64 % 256 + s.toNat := by
  have hmask : (r <<< 6) &&& 0xc0#8 = r <<< 6 := by
    ext i hi
    interval_cases i <;> simp
  have hr : (r <<< 6).toNat = r.toNat * 64 % 256 := by
    rw [BitVec.toNat_shiftLeft, Nat.shiftLeft_eq]
  have hlt : s.toNat < 64 := hs
  rw [octet3, hmask, toNat_or_of_low (i := 6) _ _ (by omega) (by omega), hr]

theorem sextet1_lt (a : Byte) : sextet1 a < 64 := by
  have h := toNat_sextet1 a
  have hlt := a.isLt
  rw [BitVec.lt_def]
  change _ < 64
  omega

theorem sextet2_lt (a b : Byte) : sextet2 a b < 64 := by
  have h := toNat_sextet2 a b
  have hlt := b.isLt
  rw [BitVec.lt_def]
  change _ < 64
  omega

theorem sextet3_lt (b c : Byte) : sextet3 b c < 64 := by
  have h := toNat_sextet3 b c
  have hlt := c.isLt
  rw [BitVec.lt_def]
  change _ < 64
  omega

theorem sextet4_lt (c : Byte) : sextet4 c < 64 := by
  have h := toNat_sextet4 c
  rw [BitVec.lt_def]
  change _ < 64
  omega

theorem octet1_sextets (a b : Byte) : octet1 (sextet1 a) (sextet2 a b) = a := by
  apply BitVec.eq_of_toNat_eq
  have h := a.isLt
  have hb := b.isLt
  rw [toNat_octet1 _ _ (sextet2_lt a b), toNat_sextet1, toNat_sextet2]
  omega

theorem octet2_sextets (a b c : Byte) : octet2 (sextet2 a b) (sextet3 b c) = b := by
  apply BitVec.eq_of_toNat_eq
  have h := b.isLt
  have hc := c.isLt
  rw [toNat_octet2 _ _ (sextet3_lt b c), toNat_sextet2, toNat_sextet3]
  omega

theorem octet3_sextets (b c : Byte) : octet3 (sextet3 b c) (sextet4 c) = c := by
  apply BitVec.eq_of_toNat_eq
  have h := c.isLt
  rw [toNat_octet3 _ _ (sextet4_lt c), toNat_sextet3, toNat_sextet4]
  omega

theorem sextet1_octet (p : Byte) {q : Byte} (hp : p < 64) (hq : q < 64) :
    sextet1 (octet1 p q) = p := by
  apply BitVec.eq_of_toNat_eq
  have hp : p.toNat < 64 := hp
  have hlt : q.toNat < 64 := hq
  rw [toNat_sextet1, toNat_octet1 p q hq]
  omega

theorem sextet2_octets (p : Byte) {q r : Byte} (hq : q < 64) (hr : r < 64) :
    sextet2 (octet1 p q) (octet2 q r) = q := by
  apply BitVec.eq_of_toNat_eq
  have hlt : q.toNat < 64 := hq
  have hlt' : r.toNat < 64 := hr
  rw [toNat_sextet2, toNat_octet1 p q hq, toNat_octet2 q r hr]
  omega

theorem sextet3_octets (q : Byte) {r s : Byte} (hr : r < 64) (hs : s < 64) :
    sextet3 (octet2 q r) (octet3 r s) = r := by
  apply BitVec.eq_of_toNat_eq
  have hlt : r.toNat < 64 := hr
  have hlt' : s.toNat < 64 := hs
  rw [toNat_sextet3, toNat_octet2 q r hr, toNat_octet3 r s hs]
  omega

theorem sextet4_octet (r : Byte) {s : Byte} (hs : s < 64) : sextet4 (octet3 r s) = s := by
  apply BitVec.eq_of_toNat_eq
  have hlt : s.toNat < 64 := hs
  rw [toNat_sextet4, toNat_octet3 r s hs]
  omega

/-! ### A strict quantum -/

section Strict

variable {data : List Byte} {s : QuantumState} {ch : Byte}

set_option maxRecDepth 20000 in
theorem kPad_of_pd : ∀ n : Fin 256, decodeTable (BitVec.ofNat 8 n) = pd →
    BitVec.ofNat 8 n = kPad := by
  decide

theorem eq_kPad (h : decodeTable ch = pd) : ch = kPad := by
  have hpad := kPad_of_pd ⟨ch.toNat, ch.isLt⟩
  rw [BitVec.ofNat_toNat, BitVec.setWidth_eq] at hpad
  exact hpad h

set_option maxRecDepth 20000 in
theorem isValue_or : ∀ n : Fin 256, IsValue (BitVec.ofNat 8 n) ∨
    decodeTable (BitVec.ofNat 8 n) = il ∨ decodeTable (BitVec.ofNat 8 n) = sp ∨
      decodeTable (BitVec.ofNat 8 n) = pd := by
  decide

theorem isValue_of_not (hil : decodeTable ch ≠ il) (hsp : decodeTable ch ≠ sp)
    (hpd : decodeTable ch ≠ pd) : IsValue ch := by
  have h := isValue_or ⟨ch.toNat, ch.isLt⟩
  rw [BitVec.ofNat_toNat, BitVec.setWidth_eq] at h
  exact h.resolve_right fun hor => hor.elim hil fun hor => hor.elim hsp hpd

theorem IsValue.ne (h : IsValue ch) :
    decodeTable ch ≠ il ∧ decodeTable ch ≠ sp ∧ decodeTable ch ≠ pd := by
  refine ⟨fun heq => ?_, fun heq => ?_, fun heq => ?_⟩
  all_goals
    rw [IsValue, heq] at h
    exact absurd h (by decide)

theorem quantumLoop_full (h : s.qbuf.length ≥ 4) : quantumLoop .strict false data s = s := by
  cases data with
  | nil => rw [quantumLoop]
  | cons ch data => rw [quantumLoop, if_pos h]

theorem quantumLoop_value (hlen : s.qbuf.length < 4) (hpad : s.pad_len = 0) (h : IsValue ch) :
    quantumLoop .strict false (ch :: data) s = quantumLoop .strict false data
      { s with qbuf := s.qbuf ++ [decodeTable ch], pad_len := 0, dpos := s.dpos + 1 } := by
  obtain ⟨hil, hsp, hpd⟩ := h.ne
  rw [quantumLoop, if_neg (Nat.not_le.mpr hlen)]
  simp only [hil, hsp, hpd, hpad, false_or, and_false, if_false, Nat.lt_irrefl, false_and]

theorem quantumLoop_pad (htwo : 2 ≤ s.qbuf.length) (hlen : s.qbuf.length + s.pad_len < 4) :
    quantumLoop .strict false (kPad :: data) s = quantumLoop .strict false data
      { s with
        pad_len := s.pad_len + 1
        pad_start := if s.pad_len = 0 then s.dpos else s.pad_start
        dpos := s.dpos + 1 } := by
  have hk : decodeTable kPad = pd := by decide
  have hil : pd ≠ il := by decide
  have hsp : pd ≠ sp := by decide
  rw [quantumLoop, if_neg (by omega)]
  simp only [hk, hil, hsp, false_or, Bool.false_eq_true, false_and, if_false, if_true,
    if_neg (Nat.not_lt.mpr htwo), if_neg (Nat.not_le.mpr hlen)]

/-- What a strict quantum has taken: values, and pads after them. -/
structure Taken (data : List Byte) (s s' : QuantumState) (vs : List Byte) (k : ℕ)
    (rest : List Byte) : Prop where
  data_eq : data = vs ++ (List.replicate k kPad ++ rest)
  values : ∀ v ∈ vs, IsValue v
  /-- No value comes after a pad. -/
  padding : 0 < s.pad_len → vs = []
  qbuf : s'.qbuf = s.qbuf ++ vs.map decodeTable
  pad_len : s'.pad_len = s.pad_len + k
  dpos : s'.dpos = s.dpos + (vs.length + k)
  total : s'.qbuf.length + s'.pad_len ≤ 4
  two : 0 < s'.pad_len → 2 ≤ s'.qbuf.length

theorem quantumLoop_spec (data : List Byte) (s : QuantumState)
    (htotal : s.qbuf.length + s.pad_len ≤ 4) (htwo : 0 < s.pad_len → 2 ≤ s.qbuf.length) :
    ∃ vs k rest, Taken data s (quantumLoop .strict false data s) vs k rest := by
  have hstop : ∀ data, Taken data s s [] 0 data := fun data =>
    ⟨rfl, fun _ hv => absurd hv List.not_mem_nil, fun _ => rfl, (List.append_nil _).symm, rfl, rfl,
      htotal, htwo⟩
  induction data generalizing s with
  | nil => exact ⟨[], 0, [], hstop []⟩
  | cons ch data ih =>
    by_cases hfull : s.qbuf.length ≥ 4
    · rw [quantumLoop_full hfull]
      exact ⟨[], 0, _, hstop _⟩
    by_cases hvalue : IsValue ch
    · by_cases hpad : s.pad_len = 0
      · rw [quantumLoop_value (Nat.not_le.mp hfull) hpad hvalue]
        have htotal' : (s.qbuf ++ [decodeTable ch]).length + 0 ≤ 4 := by
          rw [List.length_append, List.length_singleton]
          omega
        obtain ⟨vs, k, rest, h⟩ := ih
          { s with qbuf := s.qbuf ++ [decodeTable ch], pad_len := 0, dpos := s.dpos + 1 }
          htotal' (fun hpos => absurd hpos (Nat.lt_irrefl 0)) fun data =>
            ⟨rfl, fun _ hv => absurd hv List.not_mem_nil, fun _ => rfl, (List.append_nil _).symm,
              rfl, rfl, htotal', fun hpos => absurd hpos (Nat.lt_irrefl 0)⟩
        refine ⟨ch :: vs, k, rest, ?_, ?_, fun hpos => absurd hpos (by omega), ?_, ?_, ?_,
          h.total, h.two⟩
        · rw [h.data_eq, List.cons_append]
        · exact List.forall_mem_cons.mpr ⟨hvalue, h.values⟩
        · rw [h.qbuf, List.append_assoc, List.map_cons, List.singleton_append]
        · rw [h.pad_len, hpad]
        · rw [h.dpos, List.length_cons]
          show s.dpos + 1 + _ = _
          omega
      · -- a value after padding ends the quantum
        obtain ⟨hil, hsp, hpd⟩ := hvalue.ne
        have hend : quantumLoop .strict false (ch :: data) s = s := by
          rw [quantumLoop, if_neg hfull]
          simp only [hil, hsp, hpd, Nat.pos_of_ne_zero hpad, false_or, and_false, if_false,
            true_and, ne_eq, reduceCtorEq, not_false_eq_true, if_true]
        rw [hend]
        exact ⟨[], 0, _, hstop _⟩
    by_cases hpd : decodeTable ch = pd
    · obtain rfl := eq_kPad hpd
      by_cases hroom : 2 ≤ s.qbuf.length ∧ s.qbuf.length + s.pad_len < 4
      · rw [quantumLoop_pad hroom.1 hroom.2]
        obtain ⟨vs, k, rest, h⟩ := ih
          { s with
            pad_len := s.pad_len + 1
            pad_start := if s.pad_len = 0 then s.dpos else s.pad_start
            dpos := s.dpos + 1 } hroom.2 (fun _ => hroom.1) fun data =>
            ⟨rfl, fun _ hv => absurd hv List.not_mem_nil, fun _ => rfl, (List.append_nil _).symm,
              rfl, rfl, hroom.2, fun _ => hroom.1⟩
        have hvs : vs = [] := h.padding (Nat.succ_pos _)
        refine ⟨vs, k + 1, rest, ?_, h.values, fun _ => hvs, h.qbuf, ?_, ?_, h.total, h.two⟩
        · rw [h.data_eq, hvs, List.nil_append, List.nil_append, List.replicate_succ,
            List.cons_append]
        · rw [h.pad_len, Nat.add_assoc, Nat.add_comm 1 k]
        · rw [h.dpos]
          show s.dpos + 1 + _ = _
          omega
      · have hend : quantumLoop .strict false (kPad :: data) s = s := by
          have hil : pd ≠ il := by decide
          have hsp : pd ≠ sp := by decide
          rw [quantumLoop, if_neg hfull]
          simp only [hpd, hil, hsp, false_or, Bool.false_eq_true, false_and, if_false, if_true,
            ne_eq, reduceCtorEq, not_false_eq_true]
          rw [not_and, not_lt] at hroom
          by_cases htwo' : s.qbuf.length < 2
          · rw [if_pos htwo']
          · rw [if_neg htwo', if_pos (hroom (Nat.not_lt.mp htwo'))]
        rw [hend]
        exact ⟨[], 0, _, hstop _⟩
    · have hend : quantumLoop .strict false (ch :: data) s = s := by
        rw [quantumLoop, if_neg hfull]
        by_cases hil : decodeTable ch = il
        · simp only [hil, true_or, if_true, ne_eq, reduceCtorEq, not_false_eq_true]
        · have hsp : decodeTable ch = sp := by
            by_contra hsp
            exact hvalue (isValue_of_not hil hsp hpd)
          have hne : sp ≠ il ∧ sp ≠ pd := by decide
          simp only [hsp, hne.1, hne.2, and_false, or_false, if_false, if_true]
      rw [hend]
      exact ⟨[], 0, _, hstop _⟩

theorem quantum_eq (data : List Byte) (dpos : ℕ) {rest : List Byte} {s : QuantumState}
    (hdata : data.drop dpos = rest)
    (hs : quantumLoop .strict false rest ⟨[], 0, 0, dpos⟩ = s)
    (hpadded : 4 = s.qbuf.length + s.pad_len) :
    getNextQuantum .strict false data dpos =
      ⟨s.qbuf.length, fun i => s.qbuf.getD i 0, true, s.dpos⟩ := by
  rw [getNextQuantum, hdata, hs, if_pos hpadded, decide_eq_true hpadded]

theorem quantumLoop_char {c : Byte} (hc : c < 64) (qbuf : List Byte) (start dpos : ℕ)
    (hlen : qbuf.length < 4) :
    quantumLoop .strict false (toChar c :: data) ⟨qbuf, 0, start, dpos⟩ =
      quantumLoop .strict false data ⟨qbuf ++ [c], 0, start, dpos + 1⟩ := by
  rw [quantumLoop_value hlen rfl (isValue_char hc), value_char hc]

theorem quantum_four (data : List Byte) (dpos : ℕ) {rest : List Byte} {p q r t : Byte}
    (hp : p < 64) (hq : q < 64) (hr : r < 64) (ht : t < 64)
    (hdata : data.drop dpos = toChar p :: toChar q :: toChar r :: toChar t :: rest) :
    getNextQuantum .strict false data dpos =
      ⟨4, fun i => [p, q, r, t].getD i 0, true, dpos + 4⟩ := by
  refine quantum_eq data dpos hdata (s := ⟨[p, q, r, t], 0, 0, dpos + 4⟩) ?_ rfl
  rw [quantumLoop_char hp, quantumLoop_char hq, quantumLoop_char hr, quantumLoop_char ht,
    quantumLoop_full]
  · rfl
  all_goals simp

theorem quantum_three (data : List Byte) (dpos : ℕ) {p q r : Byte}
    (hp : p < 64) (hq : q < 64) (hr : r < 64)
    (hdata : data.drop dpos = [toChar p, toChar q, toChar r, kPad]) :
    getNextQuantum .strict false data dpos =
      ⟨3, fun i => [p, q, r].getD i 0, true, dpos + 4⟩ := by
  refine quantum_eq data dpos hdata (s := ⟨[p, q, r], 1, dpos + 3, dpos + 4⟩) ?_ rfl
  rw [quantumLoop_char hp, quantumLoop_char hq, quantumLoop_char hr, quantumLoop_pad,
    quantumLoop]
  · rfl
  all_goals simp

theorem quantum_two (data : List Byte) (dpos : ℕ) {p q : Byte} (hp : p < 64) (hq : q < 64)
    (hdata : data.drop dpos = [toChar p, toChar q, kPad, kPad]) :
    getNextQuantum .strict false data dpos =
      ⟨2, fun i => [p, q].getD i 0, true, dpos + 4⟩ := by
  refine quantum_eq data dpos hdata (s := ⟨[p, q], 2, dpos + 2, dpos + 4⟩) ?_ rfl
  rw [quantumLoop_char hp, quantumLoop_char hq, quantumLoop_pad, quantumLoop_pad, quantumLoop]
  · rfl
  all_goals simp

end Strict

/-! ### The strict decoder -/

theorem decodeLoop_end (flags : DecodeFlags) {data : List Byte} {dpos : ℕ} (n : ℕ)
    (result : List Byte) (h : data.length ≤ dpos) :
    decodeLoop flags data n dpos result = ⟨true, result, dpos⟩ := by
  cases n with
  | zero => rw [decodeLoop]
  | succ n => rw [decodeLoop, if_neg (Nat.not_lt.mpr h)]

theorem sextet2_zero (a : Byte) : sextet2 a 0 = (a <<< 4) &&& 0x3f#8 := by
  rw [sextet2]
  exact BitVec.or_zero

theorem sextet3_zero (b : Byte) : sextet3 b 0 = (b <<< 2) &&& 0x3f#8 := by
  rw [sextet3]
  exact BitVec.or_zero

theorem decodeLoop_strict {data : List Byte} {dpos n : ℕ} {result : List Byte} {q : Quantum}
    (hlt : dpos < data.length) (hq : getNextQuantum .strict false data dpos = q) :
    decodeLoop doStrict data (n + 1) dpos result =
      if q.byte_len < 4 then
        ⟨!decide (q.unused ≠ 0 ∨ q.padded = false), result ++ q.bytes.take (q.byte_len - 1), q.dpos⟩
      else decodeLoop doStrict data n q.dpos (result ++ q.bytes.take (q.byte_len - 1)) := by
  subst hq
  rw [decodeLoop, if_pos hlt]
  simp only [doStrict, reduceCtorEq, decide_false, ne_eq, not_false_eq_true, true_and]

theorem bytes_eq (n : ℕ) (f : ℕ → Byte) (padded : Bool) (dpos : ℕ) :
    (Quantum.mk n f padded dpos).bytes =
      [octet1 (f 0) (f 1), octet2 (f 1) (f 2), octet3 (f 2) (f 3)] := rfl

theorem decodeLoop_encode (x pre : List Byte) (n : ℕ) (result : List Byte)
    (hn : (encodeFromArray x).length ≤ n) :
    decodeLoop doStrict (pre ++ encodeFromArray x) n pre.length result =
      ⟨true, result ++ x, (pre ++ encodeFromArray x).length⟩ := by
  induction x using encodeFromArray.induct generalizing pre n result with
  | case1 =>
    rw [encodeFromArray, List.append_nil, List.append_nil, decodeLoop_end _ _ _ (Nat.le_refl _)]
  | case2 a =>
    have henc : encodeFromArray [a] = [toChar (sextet1 a), toChar (sextet2 a 0), kPad, kPad] := by
      rw [encodeFromArray, sextet2_zero, sextet1]
    rw [henc] at hn ⊢
    obtain ⟨m, rfl⟩ := Nat.exists_eq_add_of_le' (Nat.le_trans (Nat.le_add_left 1 3) hn)
    have hquantum := quantum_two _ _ (sextet1_lt a) (sextet2_lt a 0)
      (@List.drop_left _ pre _)
    have hunused : octet2 (sextet2 a 0#8) 0#8 = 0#8 := by
      have h := octet2_sextets a 0#8 0#8
      rwa [show sextet3 0#8 0#8 = 0#8 by decide] at h
    have hfirst : octet1 (sextet1 a) (sextet2 a 0#8) = a := octet1_sextets a 0
    rw [decodeLoop_strict (by simp) hquantum, if_pos (show 2 < 4 by omega), bytes_eq]
    simp [Quantum.unused, bytes_eq, hunused, hfirst]
  | case3 a b =>
    have henc : encodeFromArray [a, b] =
        [toChar (sextet1 a), toChar (sextet2 a b), toChar (sextet3 b 0), kPad] := by
      rw [encodeFromArray, sextet3_zero, sextet1, sextet2]
    rw [henc] at hn ⊢
    obtain ⟨m, rfl⟩ := Nat.exists_eq_add_of_le' (Nat.le_trans (Nat.le_add_left 1 3) hn)
    have hquantum := quantum_three _ _ (sextet1_lt a) (sextet2_lt a b) (sextet3_lt b 0)
      (@List.drop_left _ pre _)
    have hunused : octet3 (sextet3 b 0#8) 0#8 = 0#8 := by
      have h := octet3_sextets b 0#8
      rwa [show sextet4 0#8 = 0#8 by decide] at h
    have hsecond : octet2 (sextet2 a b) (sextet3 b 0#8) = b := octet2_sextets a b 0
    rw [decodeLoop_strict (by simp) hquantum, if_pos (show 3 < 4 by omega), bytes_eq]
    simp [Quantum.unused, bytes_eq, hunused, hsecond, octet1_sextets]
  | case4 a b c data ih =>
    have henc : encodeFromArray (a :: b :: c :: data) = toChar (sextet1 a) ::
        toChar (sextet2 a b) :: toChar (sextet3 b c) :: toChar (sextet4 c) ::
          encodeFromArray data := by
      rw [encodeFromArray, sextet1, sextet2, sextet3, sextet4]
    rw [henc] at hn ⊢
    obtain ⟨m, rfl⟩ := Nat.exists_eq_add_of_le' (Nat.le_trans (Nat.le_add_left 1 _) hn)
    have hquantum := quantum_four _ _ (sextet1_lt a) (sextet2_lt a b) (sextet3_lt b c)
      (sextet4_lt c) (@List.drop_left _ pre (toChar (sextet1 a) :: toChar (sextet2 a b) ::
        toChar (sextet3 b c) :: toChar (sextet4 c) :: encodeFromArray data))
    rw [decodeLoop_strict (by simp) hquantum, if_neg (show ¬4 < 4 by omega), bytes_eq]
    -- the rest of the text is read after these four characters
    have hrest := ih (pre ++ [toChar (sextet1 a), toChar (sextet2 a b), toChar (sextet3 b c),
      toChar (sextet4 c)]) m (result ++ [a, b, c]) (by
        simp only [List.length_cons] at hn
        omega)
    simp only [List.append_assoc, List.cons_append, List.nil_append, List.length_append,
      List.length_cons, List.length_nil] at hrest ⊢
    simpa [octet1_sextets, octet2_sextets, octet3_sextets] using hrest

theorem decode_encode (x : List Byte) :
    decodeFromArray (encodeFromArray x) doStrict = ⟨true, x, (encodeFromArray x).length⟩ := by
  have h := decodeLoop_encode x [] (encodeFromArray x).length [] (Nat.le_refl _)
  rw [List.nil_append, List.length_nil, List.nil_append] at h
  rw [decodeFromArray, h]
  exact if_neg fun hne => hne.2 rfl

theorem encode_one {u v : Byte} (hu : IsValue u) (hv : IsValue v)
    (hunused : octet2 (decodeTable v) 0 = 0) :
    encodeFromArray [octet1 (decodeTable u) (decodeTable v)] = [u, v, kPad, kPad] := by
  have hsecond := sextet2_octets (decodeTable u) hv (show (0 : Byte) < 64 by decide)
  rw [hunused] at hsecond
  rw [encodeFromArray, ← sextet2_zero, hsecond, char_value hv]
  have hfirst := sextet1_octet (decodeTable u) hu hv
  rw [sextet1] at hfirst
  rw [hfirst, char_value hu]

theorem encode_two {u v w : Byte} (hu : IsValue u) (hv : IsValue v) (hw : IsValue w)
    (hunused : octet3 (decodeTable w) 0 = 0) :
    encodeFromArray [octet1 (decodeTable u) (decodeTable v),
      octet2 (decodeTable v) (decodeTable w)] = [u, v, w, kPad] := by
  have hthird := sextet3_octets (decodeTable v) hw (show (0 : Byte) < 64 by decide)
  rw [hunused] at hthird
  rw [encodeFromArray, ← sextet3_zero, hthird, char_value hw]
  have hfirst := sextet1_octet (decodeTable u) hu hv
  have hsecond := sextet2_octets (decodeTable u) hv hw
  rw [sextet1] at hfirst
  rw [sextet2] at hsecond
  rw [hfirst, hsecond, char_value hu, char_value hv]

theorem encode_three {u v w z : Byte} (hu : IsValue u) (hv : IsValue v) (hw : IsValue w)
    (hz : IsValue z) (x : List Byte) :
    encodeFromArray (octet1 (decodeTable u) (decodeTable v) ::
      octet2 (decodeTable v) (decodeTable w) :: octet3 (decodeTable w) (decodeTable z) :: x) =
      u :: v :: w :: z :: encodeFromArray x := by
  have hfirst := sextet1_octet (decodeTable u) hu hv
  have hsecond := sextet2_octets (decodeTable u) hv hw
  have hthird := sextet3_octets (decodeTable v) hw hz
  have hfourth := sextet4_octet (decodeTable w) hz
  rw [sextet1] at hfirst
  rw [sextet2] at hsecond
  rw [sextet3] at hthird
  rw [sextet4] at hfourth
  rw [encodeFromArray, hfirst, hsecond, hthird, hfourth, char_value hu, char_value hv,
    char_value hw, char_value hz]

theorem strictQuantum {data : List Byte} {dpos k : ℕ} {s' : QuantumState} {vs rest : List Byte}
    (h : Taken (data.drop dpos) ⟨[], 0, 0, dpos⟩ s' vs k rest)
    (hs : s' = quantumLoop .strict false (data.drop dpos) ⟨[], 0, 0, dpos⟩) :
    ∃ end_, getNextQuantum .strict false data dpos =
      ⟨vs.length, fun i => (vs.map decodeTable).getD i 0, 4 = vs.length + k, end_⟩ ∧
      (4 = vs.length + k → end_ = dpos + 4) := by
  have hqbuf : s'.qbuf = vs.map decodeTable := h.qbuf
  have hpad : s'.pad_len = k := h.pad_len.trans (Nat.zero_add k)
  have hlen : s'.qbuf.length = vs.length := by rw [hqbuf, List.length_map]
  have hdpos : s'.dpos = dpos + (vs.length + k) := h.dpos
  rw [getNextQuantum, ← hs, hlen, hpad, hqbuf]
  refine ⟨_, rfl, fun hfour => ?_⟩
  rw [if_pos hfour, hdpos, ← hfour]

theorem encode_of_decodeLoop {data : List Byte} (n dpos : ℕ) (result : List Byte)
    (hle : dpos ≤ data.length)
    (hsuccess : (decodeLoop doStrict data n dpos result).success = true)
    (hused : (decodeLoop doStrict data n dpos result).data_used = data.length) :
    ∃ x, (decodeLoop doStrict data n dpos result).result = result ++ x ∧
      data.drop dpos = encodeFromArray x := by
  induction n generalizing dpos result with
  | zero =>
    rw [decodeLoop] at hused ⊢
    refine ⟨[], (List.append_nil _).symm, ?_⟩
    rw [encodeFromArray]
    exact List.drop_eq_nil_of_le (Nat.le_of_eq hused.symm)
  | succ n ih =>
    rcases Nat.lt_or_ge dpos data.length with hlt | hge
    · obtain ⟨vs, k, rest, h⟩ := quantumLoop_spec (data.drop dpos) ⟨[], 0, 0, dpos⟩
        (Nat.zero_le 4) fun hpos => absurd hpos (Nat.lt_irrefl 0)
      obtain ⟨end_, hquantum, hend⟩ := strictQuantum h rfl
      have hlen : dpos + (vs.length + (k + rest.length)) = data.length := by
        have heq := congrArg List.length h.data_eq
        rw [List.length_drop, List.length_append, List.length_append, List.length_replicate] at heq
        omega
      have htotal : vs.length + k ≤ 4 := by
        have htotal := h.total
        rwa [h.qbuf, h.pad_len, List.nil_append, List.length_map, Nat.zero_add] at htotal
      have htwo : 0 < k → 2 ≤ vs.length := by
        have htwo := h.two
        rwa [h.qbuf, h.pad_len, List.nil_append, List.length_map, Nat.zero_add] at htwo
      have hdata := h.data_eq
      have hvalues := h.values
      rw [decodeLoop_strict hlt hquantum] at hsuccess hused ⊢
      by_cases hshort : vs.length < 4
      · -- the last quantum: it is padded, and nothing is left of its values
        rw [if_pos hshort] at hsuccess hused ⊢
        have hgood := of_decide_eq_false ((Bool.not_eq_true' _).mp hsuccess)
        rw [not_or, not_not, Bool.not_eq_false] at hgood
        obtain ⟨hunused, hpadded⟩ := hgood
        have hfour : 4 = vs.length + k := of_decide_eq_true hpadded
        have hrest : rest = [] := by
          have hdpos : end_ = data.length := hused
          rw [hend hfour] at hdpos
          exact List.length_eq_zero_iff.mp (by omega)
        have htwo := htwo (by omega)
        rw [hrest, List.append_nil] at hdata
        rcases Nat.lt_or_ge vs.length 3 with hlen2 | hlen3
        · obtain ⟨u, v, rfl⟩ := List.length_eq_two.mp (Nat.le_antisymm (Nat.le_of_lt_succ hlen2) htwo)
          obtain rfl : k = 2 := by
            rw [List.length_cons, List.length_singleton] at hfour
            omega
          refine ⟨[octet1 (decodeTable u) (decodeTable v)], rfl, ?_⟩
          exact hdata.trans (encode_one (hvalues u (by simp)) (hvalues v (by simp)) hunused).symm
        · obtain ⟨u, v, w, rfl⟩ := List.length_eq_three.mp
            (Nat.le_antisymm (Nat.le_of_lt_succ hshort) hlen3)
          obtain rfl : k = 1 := by
            rw [List.length_cons, List.length_cons, List.length_singleton] at hfour
            omega
          refine ⟨[octet1 (decodeTable u) (decodeTable v),
            octet2 (decodeTable v) (decodeTable w)], rfl, ?_⟩
          exact hdata.trans (encode_two (hvalues u (by simp)) (hvalues v (by simp))
            (hvalues w (by simp)) hunused).symm
      · rw [if_neg hshort] at hsuccess hused ⊢
        have hfour : vs.length = 4 := by omega
        have hk : k = 0 := by omega
        have hdpos := hend (by omega)
        have hle' : dpos + 4 ≤ data.length := by omega
        cases vs with
        | nil => cases hfour
        | cons u vs =>
          obtain ⟨v, w, z, rfl⟩ := List.length_eq_three.mp (Nat.succ.inj hfour)
          subst hk hdpos
          obtain ⟨x, hresult, hrest⟩ := ih _ _ hle' hsuccess hused
          refine ⟨octet1 (decodeTable u) (decodeTable v) :: octet2 (decodeTable v) (decodeTable w) ::
            octet3 (decodeTable w) (decodeTable z) :: x,
            hresult.trans (List.append_assoc _ _ x), ?_⟩
          rw [encode_three (hvalues u (by simp)) (hvalues v (by simp)) (hvalues w (by simp))
            (hvalues z (by simp)), ← hrest]
          show data.drop dpos = u :: v :: w :: z :: data.drop (dpos + 4)
          rw [← List.drop_drop, hdata]
          rfl
    · rw [decodeLoop_end _ _ _ hge]
      refine ⟨[], (List.append_nil _).symm, ?_⟩
      rw [encodeFromArray]
      exact List.drop_eq_nil_of_le hge

theorem encode_of_decode {s : List Byte} (h : (decodeFromArray s doStrict).success = true) :
    s = encodeFromArray (decodeFromArray s doStrict).result := by
  rw [decodeFromArray] at h ⊢
  by_cases hused : (decodeLoop doStrict s s.length 0 []).data_used = s.length
  · have hno : ¬(doStrict.term = .buffer ∧
        (decodeLoop doStrict s s.length 0 []).data_used ≠ s.length) := fun hne => hne.2 hused
    simp only [if_neg hno] at h ⊢
    obtain ⟨x, hresult, hdata⟩ := encode_of_decodeLoop s.length 0 [] (Nat.zero_le _) h hused
    rw [hresult, List.nil_append, ← hdata, List.drop_zero]
  · have hno : doStrict.term = .buffer ∧
        (decodeLoop doStrict s s.length 0 []).data_used ≠ s.length := ⟨rfl, hused⟩
    simp only [if_pos hno] at h
    cases h

/-- **Strict decoding is the inverse of encoding**: it reads the texts that are written,
and no others. -/
theorem strict_inverse :
    (∀ x, decodeFromArray (encodeFromArray x) doStrict =
      ⟨true, x, (encodeFromArray x).length⟩) ∧
    ∀ s, (decodeFromArray s doStrict).success = true →
      s = encodeFromArray (decodeFromArray s doStrict).result :=
  ⟨decode_encode, fun _ h => encode_of_decode h⟩

end Base64

end Jingle.Base
