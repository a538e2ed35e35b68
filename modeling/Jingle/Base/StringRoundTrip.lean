/-
The round trips of the string transforms.

Each encoder writes a code for every symbol of its source, a byte or, in `html_encode`, a
character of UTF-8; its decoder takes the codes one by one.  `produces_flatMap` makes the
round trip of a text from that of its symbols.

* `round_trips` — **what the six encoders have written is decoded to their source**, in
  buffers with room for the longest codes.
-/
import Jingle.Base.StringBounds
import Jingle.Lib.Bits
import Jingle.Lib.Utf8

namespace Jingle.Base.StringEncode

open Numeral Buffer

/-! ### Codes of bytes -/

theorem flatMap_byte (x : List Byte) : x.flatMap (fun b => [b]) = x := List.flatMap_singleton' x

theorem produces_code {body : ℕ → ℕ → List Byte → Option (List Byte × List Byte)}
    {code : Byte → List Byte} (hcode : ∀ b, code b ≠ [])
    (hrun : ∀ buflen bufpos b rest, bufpos + (code b).length < buflen →
      body buflen bufpos (b :: rest) = some (code b, rest)) (x : List Byte) :
    Produces body x (x.flatMap code) := by
  have h : Produces body (x.flatMap fun b => [b]) (x.flatMap code) := produces_flatMap
    (fun b => [b]) code (P := fun _ => True) (fun b _ => ⟨List.cons_ne_nil _ _, hcode b,
      fun buflen bufpos rest => hrun buflen bufpos b rest⟩) x fun _ _ => trivial
  rwa [flatMap_byte] at h

theorem produces_byte {body : ℕ → ℕ → List Byte → Option (List Byte × List Byte)}
    {code : Byte → List Byte} (hcode : ∀ b, code b ≠ [])
    (hrun : ∀ buflen bufpos b rest, bufpos + 1 < buflen →
      body buflen bufpos (code b ++ rest) = some ([b], rest)) (x : List Byte) :
    Produces body (x.flatMap code) x := by
  have h : Produces body (x.flatMap code) (x.flatMap fun b => [b]) := produces_flatMap
    code (fun b => [b]) (P := fun _ => True) (fun b _ => ⟨hcode b, List.cons_ne_nil _ _,
      fun buflen bufpos rest => hrun buflen bufpos b rest⟩) x fun _ _ => trivial
  rwa [flatMap_byte] at h

theorem length_flatMap_le {code : Byte → List Byte} {n : ℕ} (h : ∀ b, (code b).length ≤ n)
    (x : List Byte) : (x.flatMap code).length ≤ n * x.length := by
  induction x with
  | nil => exact Nat.zero_le _
  | cons b x ih =>
    rw [List.flatMap_cons, List.length_append, List.length_cons, Nat.mul_succ]
    have := h b
    omega

/-! ### Escaping -/

def escapeCode (illegal : List Byte) (esc ch : Byte) : List Byte :=
  if ch = esc ∨ strchr illegal ch then [esc, ch] else [ch]

theorem escapeCode_ne_nil (illegal : List Byte) (esc b : Byte) : escapeCode illegal esc b ≠ [] := by
  rw [escapeCode]
  split_ifs <;> exact List.cons_ne_nil _ _

theorem length_escapeCode (illegal : List Byte) (esc b : Byte) :
    (escapeCode illegal esc b).length ≤ 2 := by
  rw [escapeCode]
  split_ifs <;> simp

theorem produces_escape (x illegal : List Byte) (esc : Byte) :
    Produces (escapeBody illegal esc) x (x.flatMap (escapeCode illegal esc)) := by
  refine produces_code (escapeCode_ne_nil illegal esc) (fun buflen bufpos b rest hroom => ?_) x
  rw [escapeCode] at hroom ⊢
  rw [escapeBody]
  split_ifs with hesc hfull
  · rw [if_pos hesc] at hroom
    exact absurd hroom (not_lt.2 hfull)
  · rfl
  · rfl

theorem string_escape (x illegal : List Byte) (esc : Byte) {buflen : ℕ}
    (hbuflen : 2 * x.length < buflen) :
    (escape buflen x illegal esc).string = x.flatMap (escapeCode illegal esc) :=
  string_fill (produces_escape x illegal esc)
    ((length_flatMap_le (length_escapeCode illegal esc) x).trans_lt hbuflen)

theorem unescape_escape (x illegal : List Byte) (esc : Byte) {buflen backlen : ℕ}
    (hbuflen : 2 * x.length < buflen) (hbacklen : x.length < backlen) :
    (unescape backlen (escape buflen x illegal esc).string esc).string = x := by
  refine string_fill_fill (produces_escape x illegal esc)
    (produces_byte (escapeCode_ne_nil illegal esc) (fun buflen bufpos b rest _ => ?_) x)
    ((length_flatMap_le (length_escapeCode illegal esc) x).trans_lt hbuflen) hbacklen
  rw [escapeCode]
  split_ifs with hesc
  · exact if_pos rfl
  · rw [not_or] at hesc
    rcases rest with _ | ⟨c, rest⟩
    · rfl
    · exact if_neg hesc.1

/-! ### Hexadecimal codes -/

theorem hexDecodeDigit_hexEncodeDigit : ∀ n : Fin 16,
    hexDecodeDigit (hexEncodeDigit (BitVec.ofNat 8 n)) = some (BitVec.ofNat 8 n) := by decide

theorem hexDecodeDigit_of_lt {b : Byte} (h : b.toNat < 16) :
    hexDecodeDigit (hexEncodeDigit b) = some b := by
  have hb := hexDecodeDigit_hexEncodeDigit ⟨b.toNat, h⟩
  rwa [BitVec.ofNat_toNat, BitVec.setWidth_eq] at hb

theorem ofHexPair_hexPair (ch : Byte) : ofHexPair (hexEncodeDigit ((ch >>> 4) &&& 0xF#8))
    (hexEncodeDigit (ch &&& 0xF#8)) = some ch := by
  have hlt := ch.isLt
  have hhigh : ((ch >>> 4) &&& 0xF#8).toNat = ch.toNat / 16 := by
    have h := toNat_shr_and ch 4 (k := 4) (by omega)
    change _ = ch.toNat / 16 % 16 at h
    rw [show 0xF#8 = BitVec.ofNat 8 (2 ^ 4 - 1) from rfl, h]
    omega
  have hlow : (ch &&& 0xF#8).toNat = ch.toNat % 16 := toNat_and_mask ch (k := 4) (by omega)
  have hshift : (((ch >>> 4) &&& 0xF#8) <<< 4).toNat = 16 * (ch.toNat / 16) := by
    rw [BitVec.toNat_shiftLeft, hhigh, Nat.shiftLeft_eq]
    omega
  rw [ofHexPair, hexDecodeDigit_of_lt (by omega), hexDecodeDigit_of_lt (by omega),
    Option.bind_some, Option.map_some]
  refine congrArg some (BitVec.eq_of_toNat_eq ?_)
  rw [toNat_or_of_low _ _ (i := 4) (hshift ▸ Dvd.intro _ rfl) (by rw [hlow]; omega), hshift, hlow]
  omega

theorem escaped_hexPair (esc ch : Byte) (rest : List Byte) :
    escaped esc esc (hexPair ch ++ rest) = some (ch, rest) := by
  rw [hexPair, List.cons_append, List.cons_append, List.nil_append, escaped, if_pos rfl,
    ofHexPair_hexPair, Option.map_some]

theorem escaped_of_ne {esc ch : Byte} (h : ch ≠ esc) (rest : List Byte) :
    escaped esc ch rest = none := by
  rcases rest with _ | ⟨c₁, _ | ⟨c₂, rest⟩⟩
  · rfl
  · rfl
  · rw [escaped, if_neg h]

def encodeCode (plain : Byte → Bool) (esc ch : Byte) : List Byte :=
  if plain ch then [ch] else esc :: hexPair ch

theorem encodeCode_of_plain {plain : Byte → Bool} {ch : Byte} (h : plain ch = true) (esc : Byte) :
    encodeCode plain esc ch = [ch] := if_pos h

theorem encodeCode_of_not_plain {plain : Byte → Bool} {ch : Byte} (h : plain ch = false)
    (esc : Byte) : encodeCode plain esc ch = esc :: hexPair ch :=
  if_neg (Bool.eq_false_iff.1 h)

theorem encodeCode_ne_nil (plain : Byte → Bool) (esc ch : Byte) : encodeCode plain esc ch ≠ [] := by
  rw [encodeCode]
  split_ifs <;> exact List.cons_ne_nil _ _

theorem length_encodeCode (plain : Byte → Bool) (esc ch : Byte) :
    (encodeCode plain esc ch).length ≤ 3 := by
  rw [encodeCode]
  split_ifs
  · exact Nat.le_add_left 1 2
  · exact le_rfl

/-- The code of a byte for `encode`. -/
def plainOr (illegal : List Byte) (esc : Byte) : Byte → List Byte :=
  encodeCode (fun ch => ch ≠ esc ∧ ¬strchr illegal ch) esc

theorem produces_encode (x illegal : List Byte) (esc : Byte) :
    Produces (encodeBody illegal esc) x (x.flatMap (plainOr illegal esc)) := by
  refine produces_code (encodeCode_ne_nil _ esc) (fun buflen bufpos b rest hroom => ?_) x
  rw [encodeBody]
  by_cases hplain : b ≠ esc ∧ ¬strchr illegal b
  · rw [if_pos hplain, encodeCode_of_plain (by simpa using hplain)]
  · have hcode : encodeCode (fun ch => ch ≠ esc ∧ ¬strchr illegal ch) esc b = esc :: hexPair b :=
      encodeCode_of_not_plain (decide_eq_false hplain) esc
    rw [hcode] at hroom ⊢
    rw [if_neg hplain, if_neg (show ¬bufpos + 3 ≥ buflen from not_le.2 hroom)]

theorem string_encode (x illegal : List Byte) (esc : Byte) {buflen : ℕ}
    (hbuflen : 3 * x.length < buflen) :
    (encode buflen x illegal esc).string = x.flatMap (plainOr illegal esc) :=
  string_fill (produces_encode x illegal esc)
    ((length_flatMap_le (length_encodeCode _ esc) x).trans_lt hbuflen)

theorem decode_encode (x illegal : List Byte) (esc : Byte) {buflen backlen : ℕ}
    (hbuflen : 3 * x.length < buflen) (hbacklen : x.length < backlen) :
    (decode backlen (encode buflen x illegal esc).string esc).string = x := by
  refine string_fill_fill (produces_encode x illegal esc)
    (produces_byte (encodeCode_ne_nil _ esc) (fun buflen bufpos b rest _ => ?_) x)
    ((length_flatMap_le (length_encodeCode _ esc) x).trans_lt hbuflen) hbacklen
  by_cases hplain : b ≠ esc ∧ ¬strchr illegal b
  · rw [encodeCode_of_plain (by simpa using hplain), List.singleton_append, decodeBody,
      escaped_of_ne hplain.1]
  · rw [encodeCode_of_not_plain (decide_eq_false hplain), List.cons_append, decodeBody,
      escaped_hexPair]

/-- The code of a byte in a URL. -/
def urlCode (ch : Byte) : List Byte := encodeCode (fun ch => !urlUnsafe ch) 37#8 ch

theorem urlCode_ne_nil (ch : Byte) : urlCode ch ≠ [] := encodeCode_ne_nil _ _ ch

theorem produces_url_encode (x : List Byte) : Produces urlEncodeBody x (x.flatMap urlCode) := by
  refine produces_code urlCode_ne_nil (fun buflen bufpos b rest hroom => ?_) x
  rw [urlEncodeBody]
  by_cases hescape : urlUnsafe b
  · have hcode : urlCode b = 37#8 :: hexPair b := encodeCode_of_not_plain (by simp [hescape]) _
    rw [hcode] at hroom ⊢
    rw [if_pos hescape, if_neg (show ¬bufpos + 3 ≥ buflen from not_le.2 hroom)]
  · have hcode : urlCode b = [b] := encodeCode_of_plain (by simp [hescape]) _
    rw [hcode, if_neg hescape]

theorem produces_url_decode (x : List Byte) : Produces urlDecodeBody (x.flatMap urlCode) x := by
  refine produces_byte urlCode_ne_nil (fun buflen bufpos b rest _ => ?_) x
  by_cases hescape : urlUnsafe b
  · have hcode : urlCode b = 37#8 :: hexPair b := encodeCode_of_not_plain (by simp [hescape]) _
    rw [hcode, List.cons_append, urlDecodeBody, if_neg (by decide), escaped_hexPair]
  · -- neither a plus nor a percent sign is left as it is
    have hplus : b ≠ 43#8 := by
      rintro rfl
      exact hescape (by decide)
    have hpercent : b ≠ 37#8 := by
      rintro rfl
      exact hescape (by decide)
    have hcode : urlCode b = [b] := encodeCode_of_plain (by simp [hescape]) _
    rw [hcode, List.singleton_append, urlDecodeBody, if_neg hplus, escaped_of_ne hpercent]

theorem url_decode_url_encode (x : List Byte) {buflen backlen : ℕ}
    (hbuflen : 3 * x.length < buflen) (hbacklen : x.length < backlen) :
    (url_decode backlen (url_encode buflen x).string).string = x :=
  string_fill_fill (produces_url_encode x) (produces_url_decode x)
    ((length_flatMap_le (length_encodeCode _ _) x).trans_lt hbuflen) hbacklen

theorem length_le_flatMap {code : Byte → List Byte} (h : ∀ b, code b ≠ []) (x : List Byte) :
    x.length ≤ (x.flatMap code).length := by
  induction x with
  | nil => exact Nat.zero_le _
  | cons b x ih =>
    rw [List.flatMap_cons, List.length_append, List.length_cons]
    have := List.length_pos_iff.2 (h b)
    omega

theorem s_url_decode_s_url_encode (x : List Byte) :
    s_transform (s_transform x urlEncode) urlDecode = x := by
  have hthere : s_transform x urlEncode = x.flatMap urlCode := by
    refine string_fill (produces_url_encode x) ?_
    have := length_flatMap_le (length_encodeCode (fun ch => !urlUnsafe ch) 37#8) x
    show (x.flatMap (encodeCode _ 37#8)).length < x.length * 3 + 1
    omega
  rw [hthere]
  refine string_fill (produces_url_decode x) ?_
  exact Nat.lt_succ_of_le (length_le_flatMap urlCode_ne_nil x)

theorem hex_decode_hex_encode (x : List Byte) {buflen backlen : ℕ}
    (hbuflen : 2 * x.length < buflen) (hbacklen : x.length < backlen) :
    (hex_decode backlen (hex_encode buflen x).string).string = x := by
  have hproduces : Produces hexDecodeBody (x.flatMap hexPair) x := by
    refine produces_byte (fun b => List.cons_ne_nil _ _) (fun buflen bufpos b rest _ => ?_) x
    show (ofHexPair _ _).map (fun b => ([b], rest)) = _
    rw [ofHexPair_hexPair, Option.map_some]
  rw [hex_encode_eq x (by omega), string_terminate, List.take_of_length_le (by omega)]
  exact string_fill hproduces hbacklen

/-! ### XML -/

theorem asciiClass_unsafe : ∀ n : Fin 128, asciiClass.getD n 0 &&& 2 ≠ 0 →
    n.val = 60 ∨ n.val = 62 ∨ n.val = 39 ∨ n.val = 34 ∨ n.val = 38 := by decide

theorem xmlUnsafe_cases {ch : Byte} (h : xmlUnsafe ch) :
    ch = 60#8 ∨ ch = 62#8 ∨ ch = 39#8 ∨ ch = 34#8 ∨ ch = 38#8 := by
  obtain ⟨hlt, hclass⟩ := of_decide_eq_true h
  have heq : ∀ n : ℕ, ch.toNat = n → ch = BitVec.ofNat 8 n := by
    rintro n rfl
    rw [BitVec.ofNat_toNat, BitVec.setWidth_eq]
  obtain h | h | h | h | h := asciiClass_unsafe ⟨ch.toNat, hlt⟩ hclass
  · exact .inl (heq _ h)
  · exact .inr (.inl (heq _ h))
  · exact .inr (.inr (.inl (heq _ h)))
  · exact .inr (.inr (.inr (.inl (heq _ h))))
  · exact .inr (.inr (.inr (.inr (heq _ h))))

theorem xmlItem_of_ne {ch : Byte} (h : ch ≠ 38#8) (after rest : List Byte) :
    xmlItem after (ch :: rest) = some (.byte ch, rest) := if_pos h

theorem xmlDecodeBody_byte {after src rest : List Byte} {b : Byte} (buflen bufpos : ℕ)
    (h : xmlItem after src = some (.byte b, rest)) :
    xmlDecodeBody after buflen bufpos src = some ([b], rest) := by
  rw [xmlDecodeBody, h, Option.bind_some]
  exact if_neg (List.cons_ne_nil _ _)

def xmlCode (ch : Byte) : List Byte :=
  if xmlUnsafe ch then escseq (textBytes "&apos;") ch else [ch]

theorem xmlCode_ne_nil (ch : Byte) : xmlCode ch ≠ [] := by
  rw [xmlCode]
  split_ifs with h
  · obtain rfl | rfl | rfl | rfl | rfl := xmlUnsafe_cases h <;> decide
  · exact List.cons_ne_nil _ _

theorem length_xmlCode (ch : Byte) : (xmlCode ch).length ≤ 6 := by
  rw [xmlCode]
  split_ifs with h
  · obtain rfl | rfl | rfl | rfl | rfl := xmlUnsafe_cases h <;> decide
  · exact Nat.le_add_left 1 5

theorem ne_ampersand {ch : Byte} (h : ¬xmlUnsafe ch) : ch ≠ 38#8 := by
  rintro rfl
  exact h (by decide)

theorem xmlItem_xmlCode (ch : Byte) (after rest : List Byte) :
    xmlItem after (xmlCode ch ++ rest) = some (.byte ch, rest) := by
  rw [xmlCode]
  split_ifs with h
  · obtain rfl | rfl | rfl | rfl | rfl := xmlUnsafe_cases h <;> rfl
  · exact xmlItem_of_ne (ne_ampersand h) after rest

theorem xml_decode_xml_encode (x after : List Byte) {buflen backlen : ℕ}
    (hbuflen : 6 * x.length < buflen) (hbacklen : x.length < backlen) :
    (xml_decode backlen (xml_encode buflen x).string after).string = x := by
  refine string_fill_fill (produces_code xmlCode_ne_nil (fun buflen bufpos b rest hroom => ?_) x)
    (produces_byte xmlCode_ne_nil (fun buflen bufpos b rest _ => ?_) x)
    ((length_flatMap_le length_xmlCode x).trans_lt hbuflen) hbacklen
  · rw [xmlCode] at hroom ⊢
    rw [xmlEncodeBody]
    dsimp only
    split_ifs with hescape hfull
    · rw [if_pos hescape] at hroom
      exact absurd hroom (not_lt.2 hfull)
    · rfl
    · rfl
  · exact xmlDecodeBody_byte buflen bufpos (xmlItem_xmlCode b after rest)

/-! ### UTF-8 -/

theorem lead_two : ∀ a : Fin 32, BitVec.ofNat 8 (192 + a) &&& 0x80#8 ≠ 0#8 ∧
    BitVec.ofNat 8 (192 + a) &&& 0xE0#8 = 0xC0#8 ∧
    (BitVec.ofNat 8 (192 + a) &&& 0x1F#8).toNat = a ∧
    0xC0#8 ||| BitVec.ofNat 8 a = BitVec.ofNat 8 (192 + a) := by decide

theorem lead_three : ∀ a : Fin 16, BitVec.ofNat 8 (224 + a) &&& 0x80#8 ≠ 0#8 ∧
    BitVec.ofNat 8 (224 + a) &&& 0xE0#8 ≠ 0xC0#8 ∧
    BitVec.ofNat 8 (224 + a) &&& 0xF0#8 = 0xE0#8 ∧
    (BitVec.ofNat 8 (224 + a) &&& 0x0F#8).toNat = a ∧
    0xE0#8 ||| BitVec.ofNat 8 a = BitVec.ofNat 8 (224 + a) := by decide

theorem lead_four : ∀ a : Fin 8, BitVec.ofNat 8 (240 + a) &&& 0x80#8 ≠ 0#8 ∧
    BitVec.ofNat 8 (240 + a) &&& 0xE0#8 ≠ 0xC0#8 ∧
    BitVec.ofNat 8 (240 + a) &&& 0xF0#8 ≠ 0xE0#8 ∧
    BitVec.ofNat 8 (240 + a) &&& 0xF8#8 = 0xF0#8 ∧
    (BitVec.ofNat 8 (240 + a) &&& 0x07#8).toNat = a ∧
    0xF0#8 ||| BitVec.ofNat 8 a = BitVec.ofNat 8 (240 + a) := by decide

theorem trailing : ∀ a : Fin 64, trails (BitVec.ofNat 8 (128 + a)) ∧
    trailerBits (BitVec.ofNat 8 (128 + a)) = a ∧
    0x80#8 ||| BitVec.ofNat 8 a = BitVec.ofNat 8 (128 + a) := by decide

theorem trails_utf8Trailer (v k : ℕ) : trails (utf8Trailer v k) :=
  (trailing ⟨v / 64 ^ k % 64, Nat.mod_lt _ (by omega)⟩).1

theorem trailerBits_utf8Trailer (v k : ℕ) : trailerBits (utf8Trailer v k) = v / 64 ^ k % 64 :=
  (trailing ⟨v / 64 ^ k % 64, Nat.mod_lt _ (by omega)⟩).2.1

theorem trailer_eq (v k : ℕ) : trailer v (6 * k) = utf8Trailer v k := by
  have hbits : (v >>> (6 * k)) &&& 0x3F = v / 64 ^ k % 64 := by
    rw [Nat.shiftRight_eq_div_pow, pow_mul, show 0x3F = 2 ^ 6 - 1 from rfl,
      Nat.and_two_pow_sub_one_eq_mod]
    norm_num
  rw [trailer, hbits]
  exact (trailing ⟨v / 64 ^ k % 64, Nat.mod_lt _ (by omega)⟩).2.2

theorem shift_or {a b : ℕ} (k : ℕ) (h : b < 2 ^ k) : (a <<< k) ||| b = a * 2 ^ k + b := by
  rw [← Nat.shiftLeft_add_eq_or_of_lt h, Nat.shiftLeft_eq]

theorem utf8_encode_eq_utf8 {v : ℕ} (hv : IsUtf8Value v) : utf8_encode 4 v = utf8 v := by
  rw [IsUtf8Value] at hv
  rw [utf8_encode, utf8]
  by_cases h₁ : v < 0x80
  · rw [if_pos h₁, if_pos (by omega)]
  rw [if_neg h₁, if_neg (by omega)]
  by_cases h₂ : v < 0x800
  · have hlead := (lead_two ⟨v / 64, by omega⟩).2.2.2
    rw [if_pos h₂, if_pos (by omega), trailer_eq v 0, Nat.shiftRight_eq_div_pow]
    exact congrArg (· :: _) hlead
  rw [if_neg h₂, if_neg (by omega)]
  by_cases h₃ : v < 0x10000
  · have hlead := (lead_three ⟨v / 4096, by omega⟩).2.2.2.2
    rw [if_pos h₃, if_pos (by omega), trailer_eq v 0, trailer_eq v 1, Nat.shiftRight_eq_div_pow]
    exact congrArg (· :: _) hlead
  · have hlead := (lead_four ⟨v / 262144, by omega⟩).2.2.2.2.2
    rw [if_neg h₃, if_neg (by omega), if_pos (by omega), trailer_eq v 0, trailer_eq v 1,
      trailer_eq v 2, Nat.shiftRight_eq_div_pow]
    exact congrArg (· :: _) hlead

theorem utf8_decode_two {s₀ s₁ : Byte} (rest : List Byte) (h₀ : s₀ &&& 0x80#8 ≠ 0#8)
    (h₁ : trails s₁) (hlead : s₀ &&& 0xE0#8 = 0xC0#8) : utf8_decode (s₀ :: s₁ :: rest) =
      some (2, ((s₀ &&& 0x1F#8).toNat <<< 6) ||| trailerBits s₁) := by
  simp [utf8_decode, h₀, h₁, hlead]

theorem utf8_decode_three {s₀ s₁ s₂ : Byte} (rest : List Byte) (h₀ : s₀ &&& 0x80#8 ≠ 0#8)
    (h₁ : trails s₁) (h₂ : trails s₂) (hne : s₀ &&& 0xE0#8 ≠ 0xC0#8)
    (hlead : s₀ &&& 0xF0#8 = 0xE0#8) : utf8_decode (s₀ :: s₁ :: s₂ :: rest) =
      some (3, ((s₀ &&& 0x0F#8).toNat <<< 12) |||
        ((trailerBits s₁ <<< 6) ||| trailerBits s₂)) := by
  have hlen : ¬rest.length + 1 + 1 + 1 < 3 := by omega
  simp [utf8_decode, h₀, h₁, h₂, hne, hlead, hlen]

theorem utf8_decode_four {s₀ s₁ s₂ s₃ : Byte} (rest : List Byte) (h₀ : s₀ &&& 0x80#8 ≠ 0#8)
    (h₁ : trails s₁) (h₂ : trails s₂) (h₃ : trails s₃) (hne : s₀ &&& 0xE0#8 ≠ 0xC0#8)
    (hne' : s₀ &&& 0xF0#8 ≠ 0xE0#8) (hlead : s₀ &&& 0xF8#8 = 0xF0#8) :
    utf8_decode (s₀ :: s₁ :: s₂ :: s₃ :: rest) =
      some (4, ((s₀ &&& 0x07#8).toNat <<< 18) |||
        ((((trailerBits s₁ <<< 6) ||| trailerBits s₂) <<< 6) ||| trailerBits s₃)) := by
  have hlen₃ : ¬rest.length + 1 + 1 + 1 + 1 < 3 := by omega
  have hlen₄ : ¬rest.length + 1 + 1 + 1 + 1 < 4 := by omega
  simp [utf8_decode, h₀, h₁, h₂, h₃, hne, hne', hlead, hlen₃, hlen₄]

theorem utf8_decode_utf8 {v : ℕ} (hlow : 0x80 ≤ v) (hv : IsUtf8Value v) (rest : List Byte) :
    utf8_decode (utf8 v ++ rest) = some ((utf8 v).length, v) := by
  rw [IsUtf8Value] at hv
  have htrails := trails_utf8Trailer v
  have hlast := trailerBits_utf8Trailer v 0
  have hmid := trailerBits_utf8Trailer v 1
  have hfirst := trailerBits_utf8Trailer v 2
  rw [utf8, if_neg (by omega)]
  by_cases h₂ : v < 0x800
  · obtain ⟨hascii, hlead, hbits, -⟩ := lead_two ⟨v / 64, by omega⟩
    dsimp only at hascii hlead hbits
    rw [if_pos h₂]
    refine (utf8_decode_two rest hascii (htrails 0) hlead).trans ?_
    rw [hbits, hlast, shift_or 6 (by omega)]
    refine congrArg (fun n => some (2, n)) ?_
    omega
  rw [if_neg h₂]
  by_cases h₃ : v < 0x10000
  · obtain ⟨hascii, hne, hlead, hbits, -⟩ := lead_three ⟨v / 4096, by omega⟩
    dsimp only at hascii hne hlead hbits
    rw [if_pos h₃]
    refine (utf8_decode_three rest hascii (htrails 1) (htrails 0) hne hlead).trans ?_
    rw [show v / 64 ^ 2 = v / 4096 from rfl, hbits, hlast, hmid, shift_or 6 (by omega),
      shift_or 12 (by omega)]
    refine congrArg (fun n => some (3, n)) ?_
    omega
  · obtain ⟨hascii, hne, hne', hlead, hbits, -⟩ := lead_four ⟨v / 262144, by omega⟩
    dsimp only at hascii hne hne' hlead hbits
    rw [if_neg h₃]
    refine (utf8_decode_four rest hascii (htrails 2) (htrails 1) (htrails 0) hne hne' hlead).trans ?_
    rw [show v / 64 ^ 3 = v / 262144 from rfl, hbits, hlast, hmid, hfirst, shift_or 6 (by omega),
      shift_or 6 (by omega), shift_or 18 (by omega)]
    refine congrArg (fun n => some (4, n)) ?_
    omega

/-! ### HTML -/

theorem length_decimal_le {v k : ℕ} (hk : k ≠ 0) (h : v < 10 ^ k) : (decimal v).length ≤ k := by
  rw [decimal]
  split_ifs
  · exact Nat.one_le_iff_ne_zero.2 hk
  · rw [List.length_reverse, List.length_map]
    exact (Nat.digits_length_le_iff (by omega) v).2 h

theorem charRef_eq {v : ℕ} (hv : IsUtf8Value v) :
    charRef v = 38#8 :: 35#8 :: (decimal v ++ [59#8]) := by
  rw [IsUtf8Value] at hv
  have hlen := length_decimal_le (v := v) (k := 7) (by omega) (by omega)
  refine List.take_of_length_le ?_
  show (decimal v ++ [59#8]).length + 2 ≤ 10
  rw [List.length_append, List.length_singleton]
  omega

theorem numericReference_decimal {v : ℕ} (hv : v < 2 ^ 64) (after rest : List Byte) :
    numericReference after (decimal v ++ 59#8 :: rest) = some (.character v, rest) := by
  obtain ⟨b, ds, hds⟩ := List.exists_cons_of_ne_nil (decimal_ne_nil v)
  have hb : isDigit b := isDigit_of_mem_decimal (hds ▸ List.mem_cons_self)
  have hx : ¬(decimal v ++ 59#8 :: rest).head? = some 120#8 := by
    rw [hds, List.cons_append, List.head?_cons, Option.some.injEq]
    rintro rfl
    exact absurd hb (by decide)
  have hread : strtoulIn 10 (decimal v ++ 59#8 :: rest ++ after) = (v, 59#8 :: (rest ++ after)) := by
    rw [List.append_assoc]
    refine strtoulIn_decimal hv fun b hb => ?_
    obtain rfl := Option.some.inj hb
    decide
  rw [numericReference, if_neg hx]
  dsimp only
  rw [hread]
  dsimp only
  rw [if_pos ⟨by rw [List.length_cons, List.length_append]; omega, rfl⟩, List.drop_one,
    List.tail_cons, List.length_cons, List.length_append, Nat.add_sub_cancel, Nat.add_sub_cancel,
    List.take_left]

theorem xmlItem_reference {v : ℕ} (hv : v < 2 ^ 64) (after rest : List Byte) :
    xmlItem after (38#8 :: 35#8 :: (decimal v ++ 59#8 :: rest)) = some (.character v, rest) := by
  rw [← numericReference_decimal hv after rest]
  rfl

theorem xmlDecodeBody_character {after src rest : List Byte} {v buflen bufpos : ℕ}
    (hv : IsUtf8Value v) (h : xmlItem after src = some (.character v, rest))
    (hroom : bufpos + (utf8 v).length < buflen) :
    xmlDecodeBody after buflen bufpos src = some (utf8 v, rest) := by
  have hbytes : (XmlItem.character v).bytes 4 = utf8 v := utf8_encode_eq_utf8 hv
  have hsize : (XmlItem.character v).size ≤ buflen - bufpos := by
    rw [XmlItem.size, hbytes]
    omega
  rw [xmlDecodeBody_eq h (by omega), if_pos ⟨hbytes ▸ utf8_ne_nil v, hsize⟩, hbytes]

/-- The code of a character in HTML. -/
def htmlCode (v : ℕ) : List Byte :=
  if v < 128 then
    if xmlUnsafe (BitVec.ofNat 8 v) then escseq (textBytes "&#39;") (BitVec.ofNat 8 v)
    else [BitVec.ofNat 8 v]
  else charRef v

theorem utf8_of_lt {v : ℕ} (h : v < 128) : utf8 v = [BitVec.ofNat 8 v] := if_pos h

theorem toNat_ofNat_of_lt {v : ℕ} (h : v < 128) : (BitVec.ofNat 8 v).toNat = v := by
  rw [BitVec.toNat_ofNat]
  omega

theorem utf8_head {v : ℕ} (hlow : 128 ≤ v) (hv : IsUtf8Value v) :
    ∃ b bs, utf8 v = b :: bs ∧ 128 ≤ b.toNat := by
  rw [IsUtf8Value] at hv
  rw [utf8, if_neg (by omega)]
  split_ifs
  all_goals
    refine ⟨_, _, rfl, ?_⟩
    rw [BitVec.toNat_ofNat]
    omega

theorem html_encode_run {buflen bufpos v : ℕ} (hv : IsUtf8Value v) (rest : List Byte)
    (hroom : bufpos + (htmlCode v).length < buflen) :
    htmlEncodeBody buflen bufpos (utf8 v ++ rest) = some (htmlCode v, rest) := by
  by_cases hascii : v < 128
  · rw [htmlCode, if_pos hascii] at hroom ⊢
    rw [utf8_of_lt hascii, List.singleton_append, htmlEncodeBody,
      if_pos (by rwa [toNat_ofNat_of_lt hascii])]
    dsimp only
    split_ifs with hescape hfull
    · rw [if_pos hescape] at hroom
      exact absurd hroom (not_lt.2 hfull)
    · rfl
    · rfl
  · obtain ⟨b, bs, hutf8, hb⟩ := utf8_head (not_lt.1 hascii) hv
    have hdecode := utf8_decode_utf8 (not_lt.1 hascii) hv rest
    rw [htmlCode, if_neg hascii] at hroom ⊢
    rw [hutf8, List.cons_append] at hdecode ⊢
    rw [htmlEncodeBody, if_neg (not_lt.2 hb), hdecode, Option.getD_some]
    dsimp only
    rw [if_neg (not_le.2 hroom), ← List.cons_append, List.drop_left]

theorem html_decode_run {buflen bufpos v : ℕ} (hv : IsUtf8Value v) (after rest : List Byte)
    (hroom : bufpos + (utf8 v).length < buflen) :
    xmlDecodeBody after buflen bufpos (htmlCode v ++ rest) = some (utf8 v, rest) := by
  by_cases hascii : v < 128
  · rw [htmlCode, if_pos hascii]
    split_ifs with hescape
    · by_cases hquote : BitVec.ofNat 8 v = 39#8
      · -- the apostrophe has no name
        have hv' : v = 39 := by
          rw [← toNat_ofNat_of_lt hascii, hquote]
          rfl
        subst hv'
        refine xmlDecodeBody_character hv (v := 39) ?_ hroom
        exact xmlItem_reference (v := 39) (by omega) after rest
      · rw [utf8_of_lt hascii]
        refine xmlDecodeBody_byte buflen bufpos ?_
        obtain h | h | h | h | h := xmlUnsafe_cases hescape
        · rw [h]
          rfl
        · rw [h]
          rfl
        · exact absurd h hquote
        · rw [h]
          rfl
        · rw [h]
          rfl
    · rw [utf8_of_lt hascii]
      exact xmlDecodeBody_byte buflen bufpos (xmlItem_of_ne (ne_ampersand hescape) after rest)
  · rw [htmlCode, if_neg hascii, charRef_eq hv]
    refine xmlDecodeBody_character hv ?_ hroom
    rw [IsUtf8Value] at hv
    rw [List.cons_append, List.cons_append, List.append_assoc, List.singleton_append]
    exact xmlItem_reference (by omega) after rest

theorem htmlCode_ne_nil {v : ℕ} (hv : IsUtf8Value v) : htmlCode v ≠ [] := by
  rw [htmlCode]
  split_ifs with hascii hescape
  · obtain h | h | h | h | h := xmlUnsafe_cases hescape <;> rw [h] <;> decide
  · exact List.cons_ne_nil _ _
  · rw [charRef_eq hv]
    exact List.cons_ne_nil _ _

theorem length_htmlCode (v : ℕ) : (htmlCode v).length ≤ 6 * (utf8 v).length := by
  by_cases hascii : v < 128
  · rw [utf8_of_lt hascii, htmlCode, if_pos hascii]
    split_ifs with hescape
    · obtain h | h | h | h | h := xmlUnsafe_cases hescape <;> rw [h] <;> decide
    · exact Nat.le_add_left 1 5
  · have hshort : (charRef v).length ≤ 10 := List.length_take_le _ _
    have hlong : 2 ≤ (utf8 v).length := by
      rw [utf8, if_neg (by omega)]
      split_ifs <;> simp
    rw [htmlCode, if_neg hascii]
    omega

theorem html_decode_html_encode {x : List Byte} (hx : IsShortestForm x) (after : List Byte)
    {buflen backlen : ℕ} (hbuflen : 6 * x.length < buflen) (hbacklen : x.length < backlen) :
    (html_decode backlen (html_encode buflen x).string after).string = x := by
  obtain ⟨vs, hvs, rfl⟩ := hx
  have hlen : (vs.flatMap htmlCode).length ≤ 6 * (vs.flatMap utf8).length := by
    clear hvs hbuflen hbacklen
    induction vs with
    | nil => exact Nat.zero_le _
    | cons v vs ih =>
      have := length_htmlCode v
      rw [List.flatMap_cons, List.flatMap_cons, List.length_append, List.length_append]
      omega
  refine string_fill_fill (produces_flatMap _ _ (P := IsUtf8Value) (fun v hv => ?_) vs hvs)
    (produces_flatMap _ _ (P := IsUtf8Value) (fun v hv => ?_) vs hvs) (hlen.trans_lt hbuflen) hbacklen
  · exact ⟨utf8_ne_nil v, htmlCode_ne_nil hv, fun buflen bufpos rest hroom =>
      html_encode_run hv rest hroom⟩
  · exact ⟨htmlCode_ne_nil hv, utf8_ne_nil v, fun buflen bufpos rest hroom =>
      html_decode_run hv after rest hroom⟩

/-! ### All of them -/

/-- **What the encoders have written is decoded to their source**: in every buffer that has
room for codes of the greatest length, and in the buffers of `s_transform`. -/
theorem round_trips (x after : List Byte) :
    (∀ illegal esc buflen backlen, 2 * x.length < buflen → x.length < backlen →
      (unescape backlen (escape buflen x illegal esc).string esc).string = x) ∧
    (∀ illegal esc buflen backlen, 3 * x.length < buflen → x.length < backlen →
      (decode backlen (encode buflen x illegal esc).string esc).string = x) ∧
    (∀ buflen backlen, 3 * x.length < buflen → x.length < backlen →
      (url_decode backlen (url_encode buflen x).string).string = x) ∧
    s_transform (s_transform x urlEncode) urlDecode = x ∧
    (∀ buflen backlen, 6 * x.length < buflen → x.length < backlen →
      (xml_decode backlen (xml_encode buflen x).string after).string = x) ∧
    (∀ buflen backlen, 2 * x.length < buflen → x.length < backlen →
      (hex_decode backlen (hex_encode buflen x).string).string = x) ∧
    (IsShortestForm x → ∀ buflen backlen, 6 * x.length < buflen → x.length < backlen →
      (html_decode backlen (html_encode buflen x).string after).string = x) :=
  ⟨fun illegal esc _ _ => unescape_escape x illegal esc,
    fun illegal esc _ _ => decode_encode x illegal esc,
    fun _ _ => url_decode_url_encode x, s_url_decode_s_url_encode x,
    fun _ _ => xml_decode_xml_encode x after, fun _ _ => hex_decode_hex_encode x,
    fun hx _ _ => html_decode_html_encode hx after⟩

/-- A text of the euro sign. -/
theorem round_trips_euro : (html_decode 5 (html_encode 20 [0xE2#8, 0x82#8, 0xAC#8]).string
    []).string = [0xE2#8, 0x82#8, 0xAC#8] :=
  (round_trips [0xE2#8, 0x82#8, 0xAC#8] []).2.2.2.2.2.2
    ⟨[0x20AC], by simp [IsUtf8Value], by decide⟩ 20 5 (by decide) (by decide)

end Jingle.Base.StringEncode
