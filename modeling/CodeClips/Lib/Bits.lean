import Mathlib.Algebra.GroupWithZero.Nat
import Mathlib.Data.List.Basic

/-!
# Masks and shifts as arithmetic

Fields that share a word are put there with shifts and `or`, and taken out with shifts and
masks. As numbers these are products, quotients and remainders by powers of two. An arithmetic
shift is covered as well, where the mask clears the copies of the sign.
-/

namespace CodeClips

section Bits
variable {w : Nat}

/-- Under a mask of ones that fits, an arithmetic shift is a division. -/
theorem toNat_sshiftRight_and (x : BitVec w) {mask : BitVec w} (n m : Nat) (ones : mask.toNat = 2 ^ m - 1)
    (fits : m + n ≤ w) : (x.sshiftRight n &&& mask).toNat = x.toNat / 2 ^ n % 2 ^ m := by
  have logical : x.sshiftRight n &&& mask = x >>> n &&& mask := by
    apply BitVec.eq_of_getLsbD_eq
    intro i inside
    rw [BitVec.getLsbD_and, BitVec.getLsbD_and, BitVec.getLsbD_sshiftRight, BitVec.getLsbD_ushiftRight]
    rcases Nat.lt_or_ge i m with low | high
    · rw [if_pos (by omega)]
      simp [inside, Nat.not_le.mpr inside]
    · have clear : mask.getLsbD i = false := by
        rw [BitVec.getLsbD, ones, Nat.testBit_two_pow_sub_one]
        exact decide_eq_false (by omega)
      rw [clear, Bool.and_false, Bool.and_false]
  rw [logical, BitVec.toNat_and, ones, Nat.and_two_pow_sub_one_eq_mod, BitVec.toNat_ushiftRight,
    Nat.shiftRight_eq_div_pow]

/-- A mask of ones takes the remainder. -/
theorem toNat_and_mask (x : BitVec w) {mask : BitVec w} (m : Nat) (ones : mask.toNat = 2 ^ m - 1) :
    (x &&& mask).toNat = x.toNat % 2 ^ m := by
  rw [BitVec.toNat_and, ones, Nat.and_two_pow_sub_one_eq_mod]

/-- A number in the upper bits and one in the lower are added. -/
theorem toNat_shiftLeft_or {x y : BitVec w} {n : Nat} (high : x.toNat * 2 ^ n < 2 ^ w) (low : y.toNat < 2 ^ n) :
    (x <<< n ||| y).toNat = x.toNat * 2 ^ n + y.toNat := by
  rw [BitVec.toNat_or, BitVec.toNat_shiftLeft, Nat.shiftLeft_eq, Nat.mod_eq_of_lt high, ← Nat.shiftLeft_eq,
    ← Nat.shiftLeft_add_eq_or_of_lt low]

end Bits

end CodeClips
