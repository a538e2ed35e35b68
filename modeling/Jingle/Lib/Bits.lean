/-
The bits of a byte as arithmetic.

A shift with a mask is a quotient or a product, taken modulo a power of two; a
disjunction of parts that do not overlap is their sum.
-/
import Jingle.Lib.Word

namespace Jingle

theorem mask_lt {k : ℕ} (hk : k ≤ 8) : 2 ^ k - 1 < 2 ^ 8 :=
  Nat.lt_of_lt_of_le (Nat.sub_one_lt (Nat.two_pow_pos k).ne') (Nat.pow_le_pow_right (by omega) hk)

theorem toNat_and_mask (x : Byte) {k : ℕ} (hk : k ≤ 8) :
    (x &&& BitVec.ofNat 8 (2 ^ k - 1)).toNat = x.toNat % 2 ^ k := by
  rw [BitVec.toNat_and, BitVec.toNat_ofNat, Nat.mod_eq_of_lt (mask_lt hk),
    Nat.and_two_pow_sub_one_eq_mod]

theorem toNat_shr_and (x : Byte) (s : ℕ) {k : ℕ} (hk : k ≤ 8) :
    ((x >>> s) &&& BitVec.ofNat 8 (2 ^ k - 1)).toNat = x.toNat / 2 ^ s % 2 ^ k := by
  rw [toNat_and_mask _ hk, BitVec.toNat_ushiftRight, Nat.shiftRight_eq_div_pow]

theorem toNat_shl_and (x : Byte) (s : ℕ) {k : ℕ} (hk : k ≤ 8) :
    ((x <<< s) &&& BitVec.ofNat 8 (2 ^ k - 1)).toNat = x.toNat * 2 ^ s % 2 ^ k := by
  rw [toNat_and_mask _ hk, BitVec.toNat_shiftLeft, Nat.shiftLeft_eq,
    Nat.mod_mod_of_dvd _ (Nat.pow_dvd_pow 2 hk)]

theorem toNat_or_of_low (x y : Byte) {i : ℕ} (hx : 2 ^ i ∣ x.toNat) (hy : y.toNat < 2 ^ i) :
    (x ||| y).toNat = x.toNat + y.toNat := by
  obtain ⟨n, hn⟩ := hx
  rw [BitVec.toNat_or, hn, Nat.two_pow_add_eq_or_of_lt hy]

end Jingle
