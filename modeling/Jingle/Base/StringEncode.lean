/-
The string transforms.

Each transform is the loop `fill` with its own body; the body of a transform says what one
run takes from the text and stores, under the same tests of the room that is left.  A source
is its bytes; only `xml_decode` reads behind them, where `strtoul` runs past the end of the
data, so it takes the memory there as well.  Every run takes something from the text, so each
loop ends by itself.
-/
import Jingle.Lib.BufferLoop
import Jingle.Lib.Strtoul

namespace Jingle.Base.StringEncode

open Numeral Buffer

/-! ### Hexadecimal digits and character classes -/

/-- `hex_encode(val)`. -/
def hexEncodeDigit (val : Byte) : Byte :=
  if val.toNat < 16 then (textBytes "0123456789abcdef").getD val.toNat 0 else 33#8

/-- `hex_decode(ch, &val)`, which takes every letter for a digit. -/
def hexDecodeDigit (ch : Byte) : Option Byte :=
  if 48 ≤ ch.toNat ∧ ch.toNat ≤ 57 then some (ch - 48#8)
  else if 65 ≤ ch.toNat ∧ ch.toNat ≤ 90 then some (ch - 65#8 + 10#8)
  else if 97 ≤ ch.toNat ∧ ch.toNat ≤ 122 then some (ch - 97#8 + 10#8)
  else none

/-- The two digits of a byte. -/
def hexPair (ch : Byte) : List Byte :=
  [hexEncodeDigit ((ch >>> 4) &&& 0xF#8), hexEncodeDigit (ch &&& 0xF#8)]

/-- The byte of two digits. -/
def ofHexPair (c₁ c₂ : Byte) : Option Byte :=
  (hexDecodeDigit c₁).bind fun h₁ => (hexDecodeDigit c₂).map fun h₂ => (h₁ <<< 4) ||| h₂

/-- `strchr(illegal, ch) != NULL`; the search finds the terminator, too. -/
def strchr (illegal : List Byte) (ch : Byte) : Bool := ch = 0 ∨ ch ∈ cString illegal

def asciiClass : List ℕ := [
  1,1,1,1,1,1,1,1,1,1,1,1,1,1,1,1,1,1,1,1,1,1,1,1,1,1,1,1,1,1,1,1,
  1,0,3,1,1,1,3,2,0,0,0,1,1,0,0,1,0,0,0,0,0,0,0,0,0,0,1,1,3,1,3,1,
  1,0,0,0,0,0,0,0,0,0,0,0,0,0,0,0,0,0,0,0,0,0,0,0,0,0,0,1,1,1,1,0,
  1,0,0,0,0,0,0,0,0,0,0,0,0,0,0,0,0,0,0,0,0,0,0,0,0,0,0,1,1,1,0,1]

/-- `(ch < 128) && (ASCII_CLASS[ch] & URL_UNSAFE)`. -/
def urlUnsafe (ch : Byte) : Bool := ch.toNat < 128 ∧ asciiClass.getD ch.toNat 0 &&& 1 ≠ 0

/-- `(ch < 128) && (ASCII_CLASS[ch] & XML_UNSAFE)`, and the same for `HTML_UNSAFE`. -/
def xmlUnsafe (ch : Byte) : Bool := ch.toNat < 128 ∧ asciiClass.getD ch.toNat 0 &&& 2 ≠ 0

/-! ### Escaping and encoding -/

def escapeBody (illegal : List Byte) (escape : Byte) (buflen bufpos : ℕ) :
    List Byte → Option (List Byte × List Byte)
  | [] => none
  | ch :: rest =>
    if ch = escape ∨ strchr illegal ch then
      if bufpos + 2 ≥ buflen then none else some ([escape, ch], rest)
    else some ([ch], rest)

def escape (buflen : ℕ) (source illegal : List Byte) (escape : Byte) : Buffer Byte :=
  fill (escapeBody illegal escape) 0#8 buflen source

def unescapeBody (escape : Byte) (_buflen _bufpos : ℕ) :
    List Byte → Option (List Byte × List Byte)
  | [] => none
  | [ch] => some ([ch], [])
  | ch :: next :: rest =>
    if ch = escape then some ([next], rest) else some ([ch], next :: rest)

def unescape (buflen : ℕ) (source : List Byte) (escape : Byte) : Buffer Byte :=
  fill (unescapeBody escape) 0#8 buflen source

def encodeBody (illegal : List Byte) (escape : Byte) (buflen bufpos : ℕ) :
    List Byte → Option (List Byte × List Byte)
  | [] => none
  | ch :: rest =>
    if ch ≠ escape ∧ ¬strchr illegal ch then some ([ch], rest)
    else if bufpos + 3 ≥ buflen then none
    else some (escape :: hexPair ch, rest)

def encode (buflen : ℕ) (source illegal : List Byte) (escape : Byte) : Buffer Byte :=
  fill (encodeBody illegal escape) 0#8 buflen source

/-- The escape character and two digits, where they stand in front of `rest`. -/
def escaped (escape ch : Byte) (rest : List Byte) : Option (Byte × List Byte) :=
  match rest with
  | c₁ :: c₂ :: rest => if ch = escape then (ofHexPair c₁ c₂).map (·, rest) else none
  | _ => none

def decodeBody (escape : Byte) (_buflen _bufpos : ℕ) : List Byte → Option (List Byte × List Byte)
  | [] => none
  | ch :: rest =>
    match escaped escape ch rest with
    | some (b, rest) => some ([b], rest)
    | none => some ([ch], rest)

def decode (buflen : ℕ) (source : List Byte) (escape : Byte) : Buffer Byte :=
  fill (decodeBody escape) 0#8 buflen source

/-! ### URLs -/

def urlEncodeBody (buflen bufpos : ℕ) : List Byte → Option (List Byte × List Byte)
  | [] => none
  | ch :: rest =>
    if urlUnsafe ch then
      if bufpos + 3 ≥ buflen then none else some (37#8 :: hexPair ch, rest)
    else some ([ch], rest)

def url_encode (buflen : ℕ) (source : List Byte) : Buffer Byte :=
  fill urlEncodeBody 0#8 buflen source

def urlDecodeBody (_buflen _bufpos : ℕ) : List Byte → Option (List Byte × List Byte)
  | [] => none
  | ch :: rest =>
    if ch = 43#8 then some ([32#8], rest)
    else
      match escaped 37#8 ch rest with
      | some (b, rest) => some ([b], rest)
      | none => some ([ch], rest)

def url_decode (buflen : ℕ) (source : List Byte) : Buffer Byte :=
  fill urlDecodeBody 0#8 buflen source

/-! ### UTF-8 -/

/-- A trailing byte: `(b & 0xC0) == 0x80`. -/
def trails (b : Byte) : Bool := b &&& 0xC0#8 = 0x80#8

/-- The six bits of a trailing byte. -/
def trailerBits (b : Byte) : ℕ := (b &&& 0x3F#8).toNat

/-- `utf8_decode`: the length of the sequence and its value, or nothing where it returns zero. -/
def utf8_decode (s : List Byte) : Option (ℕ × ℕ) :=
  let s₀ := s.getD 0 0
  if s₀ &&& 0x80#8 = 0#8 then some (1, s₀.toNat)
  else if s.length < 2 ∨ ¬trails (s.getD 1 0) then none
  else
    let value16 := trailerBits (s.getD 1 0)
    if s₀ &&& 0xE0#8 = 0xC0#8 then some (2, ((s₀ &&& 0x1F#8).toNat <<< 6) ||| value16)
    else if s.length < 3 ∨ ¬trails (s.getD 2 0) then none
    else
      let value16 := (value16 <<< 6) ||| trailerBits (s.getD 2 0)
      if s₀ &&& 0xF0#8 = 0xE0#8 then some (3, ((s₀ &&& 0x0F#8).toNat <<< 12) ||| value16)
      else if s.length < 4 ∨ ¬trails (s.getD 3 0) then none
      else
        let value16 := (value16 <<< 6) ||| trailerBits (s.getD 3 0)
        if s₀ &&& 0xF8#8 = 0xF0#8 then some (4, ((s₀ &&& 0x07#8).toNat <<< 18) ||| value16)
        else none

/-- The trailing byte with the six bits of `value` from `shift` on. -/
def trailer (value shift : ℕ) : Byte := 0x80#8 ||| BitVec.ofNat 8 ((value >>> shift) &&& 0x3F)

/-- `utf8_encode` into `buflen` bytes: what it stores, nothing where it returns zero. -/
def utf8_encode (buflen value : ℕ) : List Byte :=
  if value ≤ 0x7F ∧ 1 ≤ buflen then [BitVec.ofNat 8 value]
  else if value ≤ 0x7FF ∧ 2 ≤ buflen then
    [0xC0#8 ||| BitVec.ofNat 8 (value >>> 6), trailer value 0]
  else if value ≤ 0xFFFF ∧ 3 ≤ buflen then
    [0xE0#8 ||| BitVec.ofNat 8 (value >>> 12), trailer value 6, trailer value 0]
  else if value ≤ 0x1FFFFF ∧ 4 ≤ buflen then
    [0xF0#8 ||| BitVec.ofNat 8 (value >>> 18), trailer value 12, trailer value 6,
      trailer value 0]
  else []

/-! ### HTML and XML -/

/-- The sequence for a character of the class; `apostrophe` is what the two formats differ in. -/
def escseq (apostrophe : List Byte) (ch : Byte) : List Byte :=
  if ch = 60#8 then textBytes "&lt;"
  else if ch = 62#8 then textBytes "&gt;"
  else if ch = 39#8 then apostrophe
  else if ch = 34#8 then textBytes "&quot;"
  else if ch = 38#8 then textBytes "&amp;"
  else []

/-- `sprintfn(escseq, 11, "&#%lu;", val)`, which cuts the text off at ten characters. -/
def charRef (val : ℕ) : List Byte := (textBytes "&#" ++ decimal val ++ textBytes ";").take 10

def htmlEncodeBody (buflen bufpos : ℕ) : List Byte → Option (List Byte × List Byte)
  | [] => none
  | ch :: rest =>
    if ch.toNat < 128 then
      if xmlUnsafe ch then
        let seq := escseq (textBytes "&#39;") ch
        if bufpos + seq.length ≥ buflen then none else some (seq, rest)
      else some ([ch], rest)
    else
      -- not a valid sequence: the raw character
      let (vallen, val) := (utf8_decode (ch :: rest)).getD (1, ch.toNat)
      let seq := charRef val
      if bufpos + seq.length ≥ buflen then none else some (seq, (ch :: rest).drop vallen)

def html_encode (buflen : ℕ) (source : List Byte) : Buffer Byte :=
  fill htmlEncodeBody 0#8 buflen source

def xmlEncodeBody (buflen bufpos : ℕ) : List Byte → Option (List Byte × List Byte)
  | [] => none
  | ch :: rest =>
    if xmlUnsafe ch then
      let seq := escseq (textBytes "&apos;") ch
      if bufpos + seq.length ≥ buflen then none else some (seq, rest)
    else some ([ch], rest)

def xml_encode (buflen : ℕ) (source : List Byte) : Buffer Byte :=
  fill xmlEncodeBody 0#8 buflen source

/-- What `xml_decode` takes a part of the text for: a byte, or the number of a character. -/
inductive XmlItem
  | byte (b : Byte)
  | character (val : ℕ)
  deriving DecidableEq, Repr

/-- The reference behind `&#`, with the memory `after` the data in the reach of `strtoul`. -/
def numericReference (after digits : List Byte) : Option (XmlItem × List Byte) :=
  let (base, digits) := if digits.head? = some 120#8 then (16, digits.drop 1) else (10, digits)
  let (val, ptr) := strtoulIn base (digits ++ after)
  if after.length < ptr.length ∧ ptr.head? = some 59#8 then
    some (.character val, (ptr.drop 1).take (ptr.length - 1 - after.length))
  else none

/-- The references behind `&` that have a name. -/
def entities : List (List Byte × Byte) :=
  [(textBytes "lt;", 60#8), (textBytes "gt;", 62#8), (textBytes "apos;", 39#8),
    (textBytes "quot;", 34#8), (textBytes "amp;", 38#8)]

/-- The next item of the text, nothing at an escape sequence that is not valid. -/
def xmlItem (after : List Byte) : List Byte → Option (XmlItem × List Byte)
  | [] => none
  | ch :: rest =>
    if ch ≠ 38#8 then some (.byte ch, rest)
    else
      match entities.find? fun e => rest.take e.1.length = e.1 with
      | some e => some (.byte e.2, rest.drop e.1.length)
      | none =>
        match rest with
        | [] => none
        | c :: digits => if c = 35#8 then numericReference after digits else none

/-- What is stored for an item where `room` bytes are left, nothing if it does not go in. -/
def XmlItem.bytes (room : ℕ) : XmlItem → List Byte
  | .byte b => [b]
  | .character val => utf8_encode room val

def xmlDecodeBody (after : List Byte) (buflen bufpos : ℕ) (src : List Byte) :
    Option (List Byte × List Byte) :=
  (xmlItem after src).bind fun (item, rest) =>
    if item.bytes (buflen - bufpos) = [] then none
    else some (item.bytes (buflen - bufpos), rest)

def xml_decode (buflen : ℕ) (source after : List Byte) : Buffer Byte :=
  fill (xmlDecodeBody after) 0#8 buflen source

def html_decode (buflen : ℕ) (source after : List Byte) : Buffer Byte :=
  xml_decode buflen source after

/-! ### Hexadecimal text -/

def hex_encode (buflen : ℕ) (source : List Byte) : Buffer Byte :=
  if buflen = 0 then start
  else
    ((source.take (min source.length ((buflen - 1) / 2))).foldl
      (fun o ch => o.puts (hexPair ch)) start).terminate 0#8

def hexDecodeBody (_buflen _bufpos : ℕ) : List Byte → Option (List Byte × List Byte)
  | c₁ :: c₂ :: rest => (ofHexPair c₁ c₂).map fun b => ([b], rest)
  | _ => none

def hex_decode (buflen : ℕ) (source : List Byte) : Buffer Byte :=
  fill hexDecodeBody 0#8 buflen source

/-! ### `s_transform` -/

/-- A transform with the size that it asks for where it is called without a buffer. -/
structure Transform where
  estimate : ℕ → ℕ
  run : ℕ → List Byte → Buffer Byte

def urlEncode : Transform := ⟨fun srclen => srclen * 3 + 1, url_encode⟩

def urlDecode : Transform := ⟨fun srclen => srclen + 1, url_decode⟩

def s_transform (source : List Byte) (t : Transform) : List Byte :=
  (t.run (t.estimate source.length) source).string

end Jingle.Base.StringEncode
