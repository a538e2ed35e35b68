/-
Reading a buffer from its front.

A reader takes a value from the front of a list of bytes and leaves the rest, or
takes nothing.  Each reader has two equations: what it does to the bytes it is
meant for (`readUInt16_be16` and its like, one for each width) and what a
successful read says about the buffer (`readUInt16_some` and its like).
-/
import Jingle.Lib.Word

namespace Jingle

/-- The bytes of a buffer that are still to be read. -/
abbrev ByteBuffer := List Byte

variable {buf rest : ByteBuffer}

/-- One byte. -/
def readUInt8 : ByteBuffer → Option (Byte × ByteBuffer)
  | b :: buf => some (b, buf)
  | _ => none

/-- Two bytes, most significant first. -/
def readUInt16 : ByteBuffer → Option (BitVec 16 × ByteBuffer)
  | a :: b :: buf => some (ofBe16 a b, buf)
  | _ => none

/-- Four bytes, most significant first. -/
def readUInt32 : ByteBuffer → Option (Word × ByteBuffer)
  | a :: b :: c :: d :: buf => some (ofBe32 a b c d, buf)
  | _ => none

/-- `n` bytes as they stand. -/
def readBytes (n : ℕ) (buf : ByteBuffer) : Option (List Byte × ByteBuffer) :=
  if buf.length < n then none else some (buf.take n, buf.drop n)

@[simp] theorem readUInt8_cons (b : Byte) : readUInt8 (b :: rest) = some (b, rest) := rfl

@[simp] theorem readUInt16_be16 (x : BitVec 16) :
    readUInt16 (be16 x ++ rest) = some (x, rest) := by
  simp only [be16, List.cons_append, List.nil_append, readUInt16, ofBe16_be16]

@[simp] theorem readUInt32_be32 (x : Word) :
    readUInt32 (be32 x ++ rest) = some (x, rest) := by
  simp only [be32, List.cons_append, List.nil_append, readUInt32, ofBe32_be32]

theorem readBytes_append {n : ℕ} {bs : List Byte} (h : bs.length = n) :
    readBytes n (bs ++ rest) = some (bs, rest) := by
  rw [readBytes, if_neg (by rw [List.length_append]; omega), ← h, List.take_left, List.drop_left]

/-! ### What a successful read says -/

theorem be16_ofBe16 (a b : Byte) : be16 (ofBe16 a b) = [a, b] := by
  have ha := a.isLt
  have hb := b.isLt
  have hn : (ofBe16 a b).toNat = a.toNat * 2 ^ 8 + b.toNat := by
    rw [ofBe16, BitVec.toNat_ofNat]
    omega
  rw [be16, hn]
  congr 1
  · apply BitVec.eq_of_toNat_eq
    rw [BitVec.toNat_ofNat]
    omega
  · congr 1
    apply BitVec.eq_of_toNat_eq
    rw [BitVec.toNat_ofNat]
    omega

theorem be32_ofBe32 (a b c d : Byte) : be32 (ofBe32 a b c d) = [a, b, c, d] := by
  have ha := a.isLt
  have hb := b.isLt
  have hc := c.isLt
  have hd := d.isLt
  have hn : (ofBe32 a b c d).toNat =
      a.toNat * 2 ^ 24 + b.toNat * 2 ^ 16 + c.toNat * 2 ^ 8 + d.toNat := by
    rw [ofBe32, BitVec.toNat_ofNat]
    omega
  have hbyte : ∀ (m : ℕ) (x : Byte), m % 2 ^ 8 = x.toNat → BitVec.ofNat 8 m = x := by
    intro m x h
    apply BitVec.eq_of_toNat_eq
    rw [BitVec.toNat_ofNat, h]
  rw [be32, hn, hbyte _ a (by omega), hbyte _ b (by omega), hbyte _ c (by omega),
    hbyte _ d (by omega)]

theorem readUInt8_some {b : Byte} (h : readUInt8 buf = some (b, rest)) : buf = b :: rest := by
  unfold readUInt8 at h
  split at h
  · obtain ⟨rfl, rfl⟩ := Prod.mk.inj (Option.some.inj h)
    rfl
  · exact absurd h (by simp)

theorem readUInt16_some {x : BitVec 16} (h : readUInt16 buf = some (x, rest)) :
    buf = be16 x ++ rest := by
  unfold readUInt16 at h
  split at h
  · obtain ⟨rfl, rfl⟩ := Prod.mk.inj (Option.some.inj h)
    rw [be16_ofBe16]
    rfl
  · exact absurd h (by simp)

theorem readUInt32_some {x : Word} (h : readUInt32 buf = some (x, rest)) :
    buf = be32 x ++ rest := by
  unfold readUInt32 at h
  split at h
  · obtain ⟨rfl, rfl⟩ := Prod.mk.inj (Option.some.inj h)
    rw [be32_ofBe32]
    rfl
  · exact absurd h (by simp)

theorem readBytes_some {n : ℕ} {bs : List Byte} (h : readBytes n buf = some (bs, rest)) :
    buf = bs ++ rest ∧ bs.length = n := by
  rw [readBytes] at h
  split at h
  · exact absurd h (by simp)
  · obtain ⟨rfl, rfl⟩ := Prod.mk.inj (Option.some.inj h)
    refine ⟨(List.take_append_drop n buf).symm, ?_⟩
    rw [List.length_take]
    omega

/-! ### When a read fails -/

theorem readUInt8_none (h : readUInt8 buf = none) : buf = [] := by
  cases buf with
  | nil => rfl
  | cons b buf => exact absurd h (by simp)

theorem readUInt16_none (h : readUInt16 buf = none) : buf.length < 2 := by
  match buf, h with
  | [], _ => decide
  | [_], _ => simp

theorem readUInt32_none (h : readUInt32 buf = none) : buf.length < 4 := by
  match buf, h with
  | [], _ => decide
  | [_], _ => simp
  | [_, _], _ => simp
  | [_, _, _], _ => simp

end Jingle
