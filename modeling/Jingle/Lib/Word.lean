/-
Machine words and their byte representation.

`Word` and `Byte` are the 32-bit and 8-bit unsigned integers, with wrap-around
arithmetic and unsigned comparison.  `be32` and `be16` write a word in network
byte order; `ofBe32` and `ofBe16` read it back (`ofBe32_be32`, `ofBe16_be16`).

`minOf` and `maxOf` are the two-way comparisons of a type with a decidable
order, written as a single test, so that they evaluate.
-/
import Mathlib.Tactic

namespace Jingle

/-- An unsigned 8-bit integer. -/
abbrev Byte := BitVec 8

/-- An unsigned 32-bit integer. -/
abbrev Word := BitVec 32

instance lawfulBEq_byte : LawfulBEq Byte := inferInstance

instance lawfulBEq_bytes : LawfulBEq (List Byte) := inferInstance

/-- The bytes of a text. -/
def textBytes (text : String) : List Byte := text.toList.map fun c => BitVec.ofNat 8 c.toNat

/-- The smaller of two values: the first one unless it exceeds the second. -/
def minOf {α : Type} [LT α] [DecidableLT α] (a b : α) : α := if b < a then b else a

/-- The larger of two values: the first one unless the second exceeds it. -/
def maxOf {α : Type} [LT α] [DecidableLT α] (a b : α) : α := if a < b then b else a

@[simp] theorem toNat_minOf {w : ℕ} (a b : BitVec w) :
    (minOf a b).toNat = min a.toNat b.toNat := by
  rw [minOf]
  split <;> rename_i h <;> rw [BitVec.lt_def] at h <;> omega

@[simp] theorem toNat_maxOf {w : ℕ} (a b : BitVec w) :
    (maxOf a b).toNat = max a.toNat b.toNat := by
  rw [maxOf]
  split <;> rename_i h <;> rw [BitVec.lt_def] at h <;> omega

theorem minOf_int (a b : ℤ) : minOf a b = min a b := by
  rw [minOf]
  split <;> omega

/-! ### Network byte order -/

/-- The four bytes of a word, most significant first. -/
def be32 (x : Word) : List Byte :=
  [BitVec.ofNat 8 (x.toNat / 2 ^ 24), BitVec.ofNat 8 (x.toNat / 2 ^ 16),
    BitVec.ofNat 8 (x.toNat / 2 ^ 8), BitVec.ofNat 8 x.toNat]

/-- The two bytes of a 16-bit word, most significant first. -/
def be16 (x : BitVec 16) : List Byte :=
  [BitVec.ofNat 8 (x.toNat / 2 ^ 8), BitVec.ofNat 8 x.toNat]

/-- The word with the given bytes, most significant first. -/
def ofBe32 (a b c d : Byte) : Word :=
  BitVec.ofNat 32 (a.toNat * 2 ^ 24 + b.toNat * 2 ^ 16 + c.toNat * 2 ^ 8 + d.toNat)

/-- The 16-bit word with the given bytes, most significant first. -/
def ofBe16 (a b : Byte) : BitVec 16 := BitVec.ofNat 16 (a.toNat * 2 ^ 8 + b.toNat)

@[simp] theorem length_be32 (x : Word) : (be32 x).length = 4 := rfl

@[simp] theorem length_be16 (x : BitVec 16) : (be16 x).length = 2 := rfl

theorem ofBe32_be32 (x : Word) :
    ofBe32 (BitVec.ofNat 8 (x.toNat / 2 ^ 24)) (BitVec.ofNat 8 (x.toNat / 2 ^ 16))
      (BitVec.ofNat 8 (x.toNat / 2 ^ 8)) (BitVec.ofNat 8 x.toNat) = x := by
  apply BitVec.eq_of_toNat_eq
  simp only [ofBe32, BitVec.toNat_ofNat]
  omega

theorem ofBe16_be16 (x : BitVec 16) :
    ofBe16 (BitVec.ofNat 8 (x.toNat / 2 ^ 8)) (BitVec.ofNat 8 x.toNat) = x := by
  apply BitVec.eq_of_toNat_eq
  simp only [ofBe16, BitVec.toNat_ofNat]
  omega

end Jingle
