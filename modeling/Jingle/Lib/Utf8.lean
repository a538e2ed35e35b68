/-
The shortest form of UTF-8.

`utf8 v` are the bytes of the character number `v`, as few as its bits need; a text is in
shortest form if it is the bytes of a list of numbers that have one.
-/
import Jingle.Lib.Word

namespace Jingle

/-- The `k`-th group of six bits of `v`, in a trailing byte. -/
def utf8Trailer (v k : ℕ) : Byte := BitVec.ofNat 8 (128 + v / 64 ^ k % 64)

def utf8 (v : ℕ) : List Byte :=
  if v < 0x80 then [BitVec.ofNat 8 v]
  else if v < 0x800 then [BitVec.ofNat 8 (192 + v / 64), utf8Trailer v 0]
  else if v < 0x10000 then [BitVec.ofNat 8 (224 + v / 64 ^ 2), utf8Trailer v 1, utf8Trailer v 0]
  else [BitVec.ofNat 8 (240 + v / 64 ^ 3), utf8Trailer v 2, utf8Trailer v 1, utf8Trailer v 0]

/-- The numbers of at most 21 bits, which the four bytes of the longest form can hold. -/
def IsUtf8Value (v : ℕ) : Prop := v < 0x200000

/-- A text of characters in their shortest form. -/
def IsShortestForm (x : List Byte) : Prop :=
  ∃ vs : List ℕ, (∀ v ∈ vs, IsUtf8Value v) ∧ x = vs.flatMap utf8

theorem utf8_ne_nil (v : ℕ) : utf8 v ≠ [] := by
  rw [utf8]
  split_ifs <;> exact List.cons_ne_nil _ _

end Jingle
