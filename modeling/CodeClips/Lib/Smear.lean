import Mathlib.Algebra.GroupWithZero.Nat
import Mathlib.Data.Nat.Size

/-!
# Filling the bits below the highest

A word `or`ed with its shifts by 1, 2, 4 and so on has every bit set below the highest bit of the
word it began with: `Smears w x y` says that a bit of `y` stands for `w` bits of `x`, and one
step doubles `w`. With a `w` below the width this is right where `x` has no gap of `w` bits
(`Smears.toNat_eq_iff`).
-/

namespace CodeClips

section Smear
variable {n : Nat}

/-- A bit of `y` is set if one of the `w` bits of `x` from there on is. -/
def Smears (w : Nat) (x y : BitVec n) : Prop :=
  ∀ i, y.getLsbD i = true ↔ ∃ j, i ≤ j ∧ j < i + w ∧ x.getLsbD j = true

theorem smears_self (x : BitVec n) : Smears 1 x x := by
  intro i
  constructor
  · intro set
    exact ⟨i, Nat.le_refl i, Nat.lt_succ_self i, set⟩
  · rintro ⟨j, from_i, below, set⟩
    obtain rfl : i = j := by omega
    exact set

theorem Smears.shift {w : Nat} {x y : BitVec n} (smears : Smears w x y) : Smears (w + w) x (y ||| y >>> w) := by
  intro i
  rw [BitVec.getLsbD_or, BitVec.getLsbD_ushiftRight, Bool.or_eq_true, smears i, smears (w + i)]
  constructor
  · rintro (⟨j, from_i, below, set⟩ | ⟨j, from_i, below, set⟩)
    · exact ⟨j, from_i, by omega, set⟩
    · exact ⟨j, by omega, by omega, set⟩
  · rintro ⟨j, from_i, below, set⟩
    by_cases near : j < i + w
    · exact .inl ⟨j, from_i, near, set⟩
    · exact .inr ⟨j, by omega, by omega, set⟩

/-- What is set in `x` stays set. -/
theorem Smears.le {w : Nat} {x y : BitVec n} (smears : Smears w x y) (some : 0 < w) : x.toNat ≤ y.toNat := by
  have kept : x ||| y = y := by
    apply BitVec.eq_of_getLsbD_eq
    intro i _
    rw [BitVec.getLsbD_or, Bool.or_eq_right_iff_imp]
    intro set
    exact (smears i).mpr ⟨i, Nat.le_refl i, Nat.lt_add_of_pos_right some, set⟩
  rw [← kept, BitVec.toNat_or]
  exact Nat.left_le_or

/-- No bit is set above the highest of `x`. -/
theorem Smears.lt_size {w : Nat} {x y : BitVec n} (smears : Smears w x y) : y.toNat < 2 ^ x.toNat.size := by
  apply Nat.lt_pow_two_of_testBit
  intro i above
  rw [Bool.eq_false_iff]
  intro set
  obtain ⟨j, from_i, -, set⟩ := (smears i).mp set
  have big : 2 ^ j ≤ x.toNat := Nat.ge_two_pow_of_testBit set
  have inside := Nat.lt_size.mpr big
  omega

/-- A word is the mask of the size of `x` exactly if in `x` every `w` bits from below the highest have one that is set. -/
theorem Smears.toNat_eq_iff {w : Nat} {x y : BitVec n} (smears : Smears w x y) :
    y.toNat = 2 ^ x.toNat.size - 1 ↔ ∀ i < x.toNat.size, ∃ j, i ≤ j ∧ j < i + w ∧ x.getLsbD j = true := by
  have bit : ∀ i, y.toNat.testBit i = true ↔ ∃ j, i ≤ j ∧ j < i + w ∧ x.getLsbD j = true := smears
  constructor
  · intro same i inside
    rw [← bit i, same, Nat.testBit_two_pow_sub_one]
    exact decide_eq_true inside
  · intro all
    apply Nat.eq_of_testBit_eq
    intro i
    rw [Nat.testBit_two_pow_sub_one, Bool.eq_iff_iff, decide_eq_true_eq, Nat.lt_size]
    constructor
    · intro set
      obtain ⟨j, from_i, -, set⟩ := (bit i).mp set
      exact Nat.le_trans (Nat.pow_le_pow_right Nat.two_pos from_i) (Nat.ge_two_pow_of_testBit set)
    · intro big
      exact (bit i).mpr (all i (Nat.lt_size.mpr big))

/-- A word that stands for all bits of `x` is the mask of its size. -/
theorem Smears.toNat_eq {w : Nat} {x y : BitVec n} (smears : Smears w x y) (all : n ≤ w) :
    y.toNat = 2 ^ x.toNat.size - 1 := by
  apply smears.toNat_eq_iff.mpr
  intro i inside
  obtain ⟨j, from_i, set⟩ := Nat.exists_ge_and_testBit_of_ge_two_pow (Nat.lt_size.mp inside)
  have below : j < n := BitVec.lt_of_getLsbD set
  exact ⟨j, from_i, by omega, set⟩

end Smear

end CodeClips
