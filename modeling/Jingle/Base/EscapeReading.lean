/-
What the decoders take for an encoded byte.

`decode` and `url_decode` look for an escape character with two hexadecimal digits behind it,
`hex_decode` for the two digits alone.  The three of them ask one function what a digit is,
and it takes every letter for one.

* **`recognizes_iff`** — at every place that it comes to, a decoder takes two hexadecimal
  digits for the byte `16 * high + low` and nothing else for a byte, just when a correct
  reading comes to no pair of letters and digits with a letter behind F.
* `not_recognizes` — `%GZ`.
-/
import Jingle.Base.StringEncode

namespace Jingle.Base.StringEncode

open Buffer

/-! ### A correct reading -/

/-- The value of a hexadecimal digit: 0 to 9, A to F and a to f. -/
def hexValue (ch : Byte) : Option ℕ :=
  if 48 ≤ ch.toNat ∧ ch.toNat ≤ 57 then some (ch.toNat - 48)
  else if 65 ≤ ch.toNat ∧ ch.toNat ≤ 70 then some (ch.toNat - 65 + 10)
  else if 97 ≤ ch.toNat ∧ ch.toNat ≤ 102 then some (ch.toNat - 97 + 10)
  else none

/-- A letter or a digit. -/
def alphanumeric (ch : Byte) : Bool :=
  (48 ≤ ch.toNat ∧ ch.toNat ≤ 57) ∨ (65 ≤ ch.toNat ∧ ch.toNat ≤ 90) ∨
    (97 ≤ ch.toNat ∧ ch.toNat ≤ 122)

/-- Two hexadecimal digits, and the text behind them. -/
def readPair : List Byte → Option (Byte × List Byte)
  | c₁ :: c₂ :: rest =>
    (hexValue c₁).bind fun high => (hexValue c₂).map fun low =>
      (BitVec.ofNat 8 (16 * high + low), rest)
  | _ => none

inductive Decoder
  | decode (escape : Byte)
  | url_decode
  | hex_decode

namespace Decoder

def body : Decoder → ℕ → ℕ → List Byte → Option (List Byte × List Byte)
  | decode escape => decodeBody escape
  | url_decode => urlDecodeBody
  | hex_decode => hexDecodeBody

/-- The text behind the mark of an encoded byte, which `hex_decode` does without. -/
def marked : Decoder → List Byte → Option (List Byte)
  | decode escape, ch :: rest => if ch = escape then some rest else none
  | url_decode, ch :: rest => if ch = 37#8 then some rest else none
  | hex_decode, src => some src
  | _, [] => none

/-- What is made of a text that does not begin with an encoded byte: its first character is
copied, a plus sign of a URL as a space, and `hex_decode` ends. -/
def plain : Decoder → List Byte → Option (List Byte × List Byte)
  | decode _, ch :: rest => some ([ch], rest)
  | url_decode, ch :: rest => some ([if ch = 43#8 then 32#8 else ch], rest)
  | _, _ => none

/-- What the decoder makes of the text at a place, if it reads it correctly. -/
def read (d : Decoder) (src : List Byte) : Option (List Byte × List Byte) :=
  match (d.marked src).bind readPair with
  | some (b, rest) => some ([b], rest)
  | none => d.plain src

/-- **The claim on a decoder**: it reads correctly wherever it comes to. -/
def Recognizes (d : Decoder) (buflen : ℕ) (source : List Byte) : Prop :=
  ∀ p ∈ places d.body buflen source.length 0 source, d.body buflen p.1 p.2 = d.read p.2

/-- Two letters or digits that are not two hexadecimal digits stand where a byte is expected. -/
def Misleads (d : Decoder) (src : List Byte) : Prop :=
  ∃ c₁ c₂ rest, d.marked src = some (c₁ :: c₂ :: rest) ∧ alphanumeric c₁ = true ∧
    alphanumeric c₂ = true ∧ (hexValue c₁ = none ∨ hexValue c₂ = none)

/-! ### Digits -/

set_option maxRecDepth 20000 in
theorem hexDecodeDigit_table : ∀ n : Fin 256,
    (hexDecodeDigit (BitVec.ofNat 8 n)).isSome = alphanumeric (BitVec.ofNat 8 n) ∧
      ∀ v ∈ hexValue (BitVec.ofNat 8 n), v < 16 ∧
        hexDecodeDigit (BitVec.ofNat 8 n) = some (BitVec.ofNat 8 v) := by
  decide

theorem isSome_hexDecodeDigit (ch : Byte) : (hexDecodeDigit ch).isSome = alphanumeric ch := by
  have h := (hexDecodeDigit_table ⟨ch.toNat, ch.isLt⟩).1
  rwa [BitVec.ofNat_toNat, BitVec.setWidth_eq] at h

theorem hexDecodeDigit_of_hexValue {ch : Byte} {v : ℕ} (h : hexValue ch = some v) :
    v < 16 ∧ hexDecodeDigit ch = some (BitVec.ofNat 8 v) := by
  have htable := (hexDecodeDigit_table ⟨ch.toNat, ch.isLt⟩).2
  rw [BitVec.ofNat_toNat, BitVec.setWidth_eq] at htable
  exact htable v h

theorem shl_or_digits : ∀ high low : Fin 16, (BitVec.ofNat 8 high <<< 4) ||| BitVec.ofNat 8 low =
    BitVec.ofNat 8 (16 * high + low) := by
  decide

theorem ofHexPair_eq {c₁ c₂ : Byte} (rest : List Byte)
    (h : alphanumeric c₁ = true → alphanumeric c₂ = true →
      (hexValue c₁).isSome ∧ (hexValue c₂).isSome) :
    (ofHexPair c₁ c₂).map (·, rest) = readPair (c₁ :: c₂ :: rest) := by
  have hnone : ∀ {c : Byte}, alphanumeric c = false →
      hexDecodeDigit c = none ∧ hexValue c = none := by
    intro c hc
    rw [← isSome_hexDecodeDigit, Option.isSome_eq_false_iff, Option.isNone_iff_eq_none] at hc
    refine ⟨hc, Option.eq_none_iff_forall_ne_some.2 fun v hv => ?_⟩
    rw [(hexDecodeDigit_of_hexValue hv).2] at hc
    cases hc
  rw [ofHexPair, readPair]
  rcases h₁ : alphanumeric c₁ with _ | _
  · rw [(hnone h₁).1, (hnone h₁).2]
    rfl
  rcases h₂ : alphanumeric c₂ with _ | _
  · rw [(hnone h₂).1, (hnone h₂).2]
    cases hexDecodeDigit c₁ <;> cases hexValue c₁ <;> rfl
  · obtain ⟨hsome₁, hsome₂⟩ := h h₁ h₂
    obtain ⟨high, hhigh⟩ := Option.isSome_iff_exists.1 hsome₁
    obtain ⟨low, hlow⟩ := Option.isSome_iff_exists.1 hsome₂
    obtain ⟨hlt₁, hdigit₁⟩ := hexDecodeDigit_of_hexValue hhigh
    obtain ⟨hlt₂, hdigit₂⟩ := hexDecodeDigit_of_hexValue hlow
    rw [hhigh, hlow, hdigit₁, hdigit₂]
    exact congrArg (fun b => some (b, rest)) (shl_or_digits ⟨high, hlt₁⟩ ⟨low, hlt₂⟩)

theorem ofHexPair_misleading {c₁ c₂ : Byte} (rest : List Byte) (h₁ : alphanumeric c₁ = true)
    (h₂ : alphanumeric c₂ = true) (h : hexValue c₁ = none ∨ hexValue c₂ = none) :
    (∃ b, ofHexPair c₁ c₂ = some b) ∧ readPair (c₁ :: c₂ :: rest) = none := by
  rw [← isSome_hexDecodeDigit] at h₁ h₂
  obtain ⟨v₁, hv₁⟩ := Option.isSome_iff_exists.1 h₁
  obtain ⟨v₂, hv₂⟩ := Option.isSome_iff_exists.1 h₂
  refine ⟨⟨(v₁ <<< 4) ||| v₂, ?_⟩, ?_⟩
  · rw [ofHexPair, hv₁, hv₂]
    rfl
  · rw [readPair]
    obtain h | h := h
    · rw [h, Option.bind_none]
    · rw [h]
      cases hexValue c₁
      · rfl
      · rfl

/-- Two characters that the code takes for digits, and the text behind them. -/
def codePair : List Byte → Option (Byte × List Byte)
  | c₁ :: c₂ :: rest => (ofHexPair c₁ c₂).map (·, rest)
  | _ => none

/-- A text begins with a misleading pair. -/
def MisleadingPair (src : List Byte) : Prop :=
  ∃ c₁ c₂ rest, src = c₁ :: c₂ :: rest ∧ alphanumeric c₁ = true ∧ alphanumeric c₂ = true ∧
    (hexValue c₁ = none ∨ hexValue c₂ = none)

theorem codePair_cases (src : List Byte) :
    (codePair src = readPair src ∧ ¬MisleadingPair src) ∨
      ∃ b rest, codePair src = some (b, rest) ∧ readPair src = none ∧ MisleadingPair src ∧
        rest.length < src.length := by
  rcases src with _ | ⟨c₁, _ | ⟨c₂, rest⟩⟩
  · refine .inl ⟨rfl, ?_⟩
    rintro ⟨c₁, c₂, rest, heq, -⟩
    cases heq
  · refine .inl ⟨rfl, ?_⟩
    rintro ⟨c₁, c₂, rest, heq, -⟩
    cases heq
  by_cases h : MisleadingPair (c₁ :: c₂ :: rest)
  · obtain ⟨_, _, _, heq, h₁, h₂, hnone⟩ := h
    cases heq
    obtain ⟨⟨b, hb⟩, hread⟩ := ofHexPair_misleading rest h₁ h₂ hnone
    refine .inr ⟨b, rest, ?_, hread, ⟨_, _, _, rfl, h₁, h₂, hnone⟩, by simp⟩
    rw [codePair, hb]
    rfl
  · refine .inl ⟨ofHexPair_eq rest fun h₁ h₂ => ?_, h⟩
    rw [Option.isSome_iff_ne_none, Option.isSome_iff_ne_none, ← not_or]
    exact fun hnone => h ⟨_, _, _, rfl, h₁, h₂, hnone⟩

theorem escaped_eq (esc ch : Byte) (rest : List Byte) :
    escaped esc ch rest = if ch = esc then codePair rest else none := by
  rcases rest with _ | ⟨c₁, _ | ⟨c₂, rest⟩⟩
  · exact (ite_self none).symm
  · exact (ite_self none).symm
  · rfl

theorem misleads_iff {d : Decoder} {src rest : List Byte} (h : d.marked src = some rest) :
    d.Misleads src ↔ MisleadingPair rest := by
  rw [Misleads, h]
  simp only [Option.some.injEq]
  rfl

theorem marked_run {d : Decoder} {src rest : List Byte} {o : Option (List Byte × List Byte)}
    (hmarked : d.marked src = some rest) (hplain : d.plain src = o)
    (hlen : ∀ r ∈ o, rest.length ≤ r.2.length) :
    (match codePair rest with
      | some (b, left) => some ([b], left)
      | none => o) = d.read src ↔ ¬d.Misleads src := by
  rw [misleads_iff hmarked, read, hmarked, Option.bind_some, hplain]
  obtain ⟨heq, hgood⟩ | ⟨b, left, hcode, hread, hbad, hlt⟩ := codePair_cases rest
  · rw [heq]
    exact iff_of_true rfl hgood
  · rw [hcode, hread]
    refine iff_of_false (fun h => ?_) fun h => h hbad
    exact absurd (hlen _ h.symm) (Nat.not_le.2 hlt)

theorem unmarked_run {d : Decoder} {src : List Byte} (hmarked : d.marked src = none) :
    d.plain src = d.read src ↔ ¬d.Misleads src := by
  refine iff_of_true ?_ ?_
  · rw [read, hmarked, Option.bind_none]
  · rintro ⟨c₁, c₂, rest, h, -⟩
    rw [hmarked] at h
    cases h

theorem body_eq_read_iff (d : Decoder) (buflen bufpos : ℕ) (src : List Byte) :
    d.body buflen bufpos src = d.read src ↔ ¬d.Misleads src := by
  cases d with
  | decode esc =>
    rcases src with _ | ⟨ch, rest⟩
    · exact unmarked_run (show (decode esc).marked [] = none from rfl)
    by_cases hesc : ch = esc
    · have hmark : (decode esc).marked (ch :: rest) = some rest := if_pos hesc
      have hrun := marked_run hmark rfl fun r hr => by
        obtain rfl := Option.some.inj hr
        exact le_rfl
      rw [← hrun, body, decodeBody, escaped_eq, if_pos hesc]
      rfl
    · have hmark : (decode esc).marked (ch :: rest) = none := if_neg hesc
      rw [← unmarked_run hmark, body, decodeBody, escaped_eq, if_neg hesc]
      rfl
  | url_decode =>
    rcases src with _ | ⟨ch, rest⟩
    · exact unmarked_run (show url_decode.marked [] = none from rfl)
    by_cases hesc : ch = 37#8
    · have hplus : ch ≠ 43#8 := by
        rw [hesc]
        decide
      have hmark : url_decode.marked (ch :: rest) = some rest := if_pos hesc
      have hcopy : url_decode.plain (ch :: rest) = some ([ch], rest) := by
        rw [plain, if_neg hplus]
      have hrun := marked_run hmark hcopy fun r hr => by
        obtain rfl := Option.some.inj hr
        exact le_rfl
      rw [← hrun, body, urlDecodeBody, escaped_eq, if_pos hesc]
      exact iff_of_eq (congrArg (· = url_decode.read (ch :: rest)) (if_neg hplus))
    · have hmark : url_decode.marked (ch :: rest) = none := if_neg hesc
      rw [← unmarked_run hmark, body, urlDecodeBody, escaped_eq, if_neg hesc, plain]
      split_ifs
      · rfl
      · rfl
  | hex_decode =>
    have hmark : hex_decode.marked src = some src := rfl
    have hrun := marked_run hmark rfl fun r hr => by cases hr
    rw [← hrun, body]
    rcases src with _ | ⟨c₁, _ | ⟨c₂, rest⟩⟩
    · rfl
    · rfl
    · rw [hexDecodeBody, codePair]
      cases ofHexPair c₁ c₂
      · rfl
      · rfl

/-- **The decoders take a byte for a byte**, unless letters mislead them. -/
theorem recognizes_iff (d : Decoder) (buflen : ℕ) (source : List Byte) :
    d.Recognizes buflen source ↔
      ∀ p ∈ places (fun _ _ => d.read) buflen source.length 0 source, ¬d.Misleads p.2 :=
  places_agree_iff d.body (fun _ _ => d.read) (body_eq_read_iff d buflen) source.length 0 source

/-- **Letters behind F** are taken for digits. -/
theorem not_recognizes : ¬∀ (d : Decoder) (buflen : ℕ) (source : List Byte),
    d.Recognizes buflen source := by
  intro h
  exact absurd (h url_decode 8 (textBytes "%GZ") (0, textBytes "%GZ") (by decide)) (by decide)

end Decoder

end Jingle.Base.StringEncode
