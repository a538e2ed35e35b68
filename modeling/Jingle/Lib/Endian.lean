/-
Numbers as bytes, in either order.

`leBytes n v` and `beBytes n v` are the `n` bytes of `v`; what does not fit is cut off.  A
longer number, cut to its low bytes, is the shorter one (`take_leBytes`, `drop_beBytes`).
-/
import Jingle.Lib.Word

namespace Jingle

/-- The bytes of a number, the lowest first. -/
def leBytes : ℕ → ℕ → List Byte
  | 0, _ => []
  | n + 1, v => BitVec.ofNat 8 v :: leBytes n (v / 256)

/-- The number of some bytes, the lowest first. -/
def ofLe : List Byte → ℕ
  | [] => 0
  | b :: bs => b.toNat + 256 * ofLe bs

def beBytes (n v : ℕ) : List Byte := (leBytes n v).reverse

def ofBe (bs : List Byte) : ℕ := ofLe bs.reverse

@[simp] theorem length_leBytes (n v : ℕ) : (leBytes n v).length = n := by
  induction n generalizing v with
  | zero => rfl
  | succ n ih => rw [leBytes, List.length_cons, ih]

@[simp] theorem length_beBytes (n v : ℕ) : (beBytes n v).length = n := by
  rw [beBytes, List.length_reverse, length_leBytes]

theorem ofLe_leBytes (n v : ℕ) : ofLe (leBytes n v) = v % 256 ^ n := by
  induction n generalizing v with
  | zero => rw [leBytes, ofLe, Nat.pow_zero, Nat.mod_one]
  | succ n ih =>
    have hmod := Nat.mod_mul (x := v) (a := 256) (b := 256 ^ n)
    rw [leBytes, ofLe, ih, BitVec.toNat_ofNat, Nat.pow_succ' (n := n), hmod]

theorem ofBe_beBytes (n v : ℕ) : ofBe (beBytes n v) = v % 256 ^ n := by
  rw [ofBe, beBytes, List.reverse_reverse, ofLe_leBytes]

theorem leBytes_ofLe (bs : List Byte) : leBytes bs.length (ofLe bs) = bs := by
  induction bs with
  | nil => rfl
  | cons b bs ih =>
    have hb := b.isLt
    have hlow : BitVec.ofNat 8 (b.toNat + 256 * ofLe bs) = b := by
      apply BitVec.eq_of_toNat_eq
      rw [BitVec.toNat_ofNat]
      omega
    have hhigh : (b.toNat + 256 * ofLe bs) / 256 = ofLe bs := by omega
    rw [List.length_cons, ofLe, leBytes, hlow, hhigh, ih]

theorem beBytes_ofBe (bs : List Byte) : beBytes bs.length (ofBe bs) = bs := by
  rw [beBytes, ofBe, ← List.length_reverse, leBytes_ofLe, List.reverse_reverse]

theorem take_leBytes {n m : ℕ} (h : n ≤ m) (v : ℕ) : (leBytes m v).take n = leBytes n v := by
  induction n generalizing m v with
  | zero => rfl
  | succ n ih =>
    obtain ⟨k, rfl⟩ := Nat.exists_eq_add_of_le' h
    rw [← Nat.add_assoc, leBytes, List.take_succ_cons, ih (Nat.le_add_left n k), leBytes]

theorem drop_beBytes {n m : ℕ} (h : n ≤ m) (v : ℕ) :
    (beBytes m v).drop (m - n) = beBytes n v := by
  rw [beBytes, beBytes, List.drop_reverse, length_leBytes, Nat.sub_sub_self h, take_leBytes h]

theorem ofLe_append_zero (bs : List Byte) (k : ℕ) : ofLe (bs ++ List.replicate k 0) = ofLe bs := by
  induction bs with
  | nil =>
    induction k with
    | zero => rfl
    | succ k ih =>
      rw [List.nil_append] at ih
      rw [List.nil_append, List.replicate_succ, ofLe.eq_2, ih]
      rfl
  | cons b bs ih => rw [List.cons_append, ofLe, ih, ofLe]

theorem ofBe_zero_append (bs : List Byte) (k : ℕ) : ofBe (List.replicate k 0 ++ bs) = ofBe bs := by
  rw [ofBe, List.reverse_append, List.reverse_replicate, ofLe_append_zero, ofBe]

end Jingle
