import CodeClips.Lib.Bits
import CodeClips.Lib.Smear
import CodeClips.Ovs.Hmap

/-!
# The mask for a capacity

A mask is one less than a power of two, and the buckets are at least half the capacity.
-/

namespace CodeClips.Ovs

/-- The size of an array of so many buckets. -/
theorem toNat_size {new_mask : BitVec 64} {k : Nat} (pow : new_mask.toNat + 1 = 2 ^ k) (small : k ≤ 60) :
    (8 * (new_mask + 1)).toNat / 8 = new_mask.toNat + 1 := by
  have most : 2 ^ k ≤ 2 ^ 60 := Nat.pow_le_pow_right Nat.two_pos small
  rw [BitVec.toNat_mul, BitVec.toNat_add]
  show 8 * ((new_mask.toNat + 1) % 2 ^ 64) % 2 ^ 64 / 8 = _
  rw [Nat.mod_eq_of_lt (by omega), Nat.mod_eq_of_lt (by omega)]
  omega

/-- The assertion of `resize`. -/
theorem is_pow2_of_pow {new_mask : BitVec 64} {k : Nat} (pow : new_mask.toNat + 1 = 2 ^ k) (small : k ≤ 60) :
    is_pow2 (new_mask + 1) = true := by
  have most : 2 ^ k ≤ 2 ^ 60 := Nat.pow_le_pow_right Nat.two_pos small
  have next : (new_mask + 1).toNat = 2 ^ k := by
    rw [BitVec.toNat_add]
    show (new_mask.toNat + 1) % 2 ^ 64 = _
    rw [Nat.mod_eq_of_lt (by omega), pow]
  rw [is_pow2, Bool.and_eq_true, decide_eq_true_eq, decide_eq_true_eq]
  constructor
  · intro zero
    rw [zero] at next
    exact Nat.ne_of_gt (Nat.two_pow_pos k) next.symm
  · apply BitVec.eq_of_toNat_eq
    have before : (new_mask + 1 - 1).toNat = 2 ^ k - 1 := by
      rw [BitVec.add_sub_cancel]
      omega
    rw [toNat_and_mask _ k before, next, Nat.mod_self]
    rfl

/-- The last step sets the bit 1 next to the bit 0. -/
theorem toNat_or_two {y : BitVec 64} {size : Nat} (ones : y.toNat = 2 ^ size - 1) :
    (y ||| (y &&& 1) <<< 1).toNat = 2 ^ (if size = 1 then 2 else size) - 1 := by
  have low : (y &&& 1).toNat = if size = 0 then 0 else 1 := by
    rw [toNat_and_mask y 1 rfl, ones]
    cases size with
    | zero => rfl
    | succ size =>
      rw [if_neg (Nat.succ_ne_zero size), Nat.pow_succ]
      have some : 0 < 2 ^ size := Nat.two_pow_pos size
      omega
  rw [BitVec.toNat_or, BitVec.toNat_shiftLeft, low, ones]
  rcases size with _ | _ | size
  · rfl
  · rfl
  · apply Nat.eq_of_testBit_eq
    intro i
    have two : (if size + 2 = 0 then 0 else 1) <<< 1 % 2 ^ 64 = 2 ^ 1 := rfl
    rw [two, Nat.testBit_or, Nat.testBit_two_pow, if_neg (by omega), Nat.testBit_two_pow_sub_one,
      Bool.eq_iff_iff, Bool.or_eq_true, decide_eq_true_eq, decide_eq_true_eq]
    omega

theorem toNat_calc_mask (capacity : BitVec 64) :
    (calc_mask capacity).toNat =
      2 ^ (if (capacity.toNat / 2).size = 1 then 2 else (capacity.toNat / 2).size) - 1 := by
  have smeared := ((((((smears_self (capacity / 2)).shift).shift).shift).shift).shift).shift
  have ones := smeared.toNat_eq (Nat.le_refl 64)
  rw [BitVec.toNat_udiv] at ones
  exact toNat_or_two ones

/-- **The mask**: a power of two less one, at least half the capacity. For fewer than `2 ^ 61` nodes
the size of the array does not wrap. -/
theorem calc_mask_spec (capacity : BitVec 64) :
    ∃ k, (calc_mask capacity).toNat + 1 = 2 ^ k ∧ capacity.toNat / 2 ≤ (calc_mask capacity).toNat ∧
      (capacity.toNat < 2 ^ 61 → k ≤ 60) := by
  refine ⟨if (capacity.toNat / 2).size = 1 then 2 else (capacity.toNat / 2).size, ?_, ?_, ?_⟩
  · rw [toNat_calc_mask]
    exact Nat.sub_add_cancel Nat.one_le_two_pow
  · rw [toNat_calc_mask]
    have size := Nat.lt_size_self (capacity.toNat / 2)
    have more : 2 ^ (capacity.toNat / 2).size ≤
        2 ^ (if (capacity.toNat / 2).size = 1 then 2 else (capacity.toNat / 2).size) := by
      apply Nat.pow_le_pow_right Nat.two_pos
      split <;> omega
    omega
  · intro few
    have size : (capacity.toNat / 2).size ≤ 60 := Nat.size_le.mpr (by omega)
    split <;> omega

end CodeClips.Ovs
