import CodeClips.Lib.Smear

/-!
# `find_next_power_of_two`

The function has two bodies, of which one is compiled. One counts the leading zeros of the number
itself, and is wrong for the powers of two; the other fills the bits of the number before it with
shifts that reach over 32 bits. `next_power_iff` says for which numbers both are right.
-/

namespace CodeClips.Strbuf

/-- The body without `HAVE_BUILTIN_CLZLL`. -/
def find_next_power_of_two (number : BitVec 64) : BitVec 64 :=
  let number := number - 1
  let number := number ||| number >>> 1
  let number := number ||| number >>> 2
  let number := number ||| number >>> 4
  let number := number ||| number >>> 8
  let number := number ||| number >>> 16
  number + 1

/-- The body with it, where a `size_t` is an `unsigned long`. Neither `__builtin_clzl(0)` nor a shift by all
64 bits is defined. -/
def find_next_power_of_two_clz (number : BitVec 64) : Option (BitVec 64) :=
  let shift := 64 - number.clz.toNat
  if number ≠ 0 ∧ shift < 64 then some ((1 : BitVec 64) <<< shift) else none

/-- The smallest power of two that is not less. -/
structure NextPower (number power : Nat) : Prop where
  pow : ∃ k, power = 2 ^ k
  le : number ≤ power
  least : ∀ k, number ≤ 2 ^ k → power ≤ 2 ^ k

/-- Both bodies return the same, and it is right. -/
def Agree (number : BitVec 64) : Prop :=
  ∃ power, find_next_power_of_two number = power ∧ find_next_power_of_two_clz number = some power ∧
    NextPower number.toNat power.toNat

/-- Of 32 bits in a row that begin below the highest one that is set, one is set. -/
def NoGap (x : BitVec 64) : Prop := ∀ i < x.toNat.size, ∃ j, i ≤ j ∧ j < i + 32 ∧ x.getLsbD j = true

variable {number : BitVec 64}

theorem size_of_clz (some : number ≠ 0) : 64 - number.clz.toNat = number.toNat.size := by
  have low := BitVec.two_pow_sub_clz_le_toNat_of_ne_zero (by decide) some
  have high := @BitVec.toNat_lt_two_pow_sub_clz _ number
  have few : number.clz.toNat < 64 := BitVec.lt_def.mp (BitVec.clz_lt_iff_ne_zero.mpr some)
  have above := Nat.lt_size.mpr low
  have below := Nat.size_le.mpr high
  omega

theorem clz_iff {power : BitVec 64} :
    find_next_power_of_two_clz number = .some power ↔
      number ≠ 0 ∧ number.toNat < 2 ^ 63 ∧ power.toNat = 2 ^ number.toNat.size := by
  rw [find_next_power_of_two_clz, Option.ite_none_right_eq_some, and_assoc]
  apply and_congr_right
  intro some
  rw [size_of_clz some, Nat.lt_succ_iff (n := 63), Nat.size_le]
  apply and_congr_right
  intro small
  have inside : number.toNat.size < 64 := Nat.lt_succ_of_le (Nat.size_le.mpr small)
  rw [← BitVec.toNat_twoPow_of_lt inside, Option.some.injEq, ← BitVec.toNat_inj]
  exact eq_comm

/-- The power above the highest bit is right but for the powers of two. -/
theorem nextPower_size_iff {n : Nat} : NextPower n (2 ^ n.size) ↔ ¬ ∃ k, n = 2 ^ k := by
  constructor
  · rintro next ⟨k, rfl⟩
    have less := Nat.lt_size_self (2 ^ k)
    exact Nat.not_lt.mpr (next.least k (Nat.le_refl _)) less
  · intro notPower
    refine ⟨⟨n.size, rfl⟩, Nat.le_of_lt (Nat.lt_size_self n), fun k le => ?_⟩
    have less : n < 2 ^ k := Nat.lt_of_le_of_ne le fun same => notPower ⟨k, same⟩
    exact Nat.pow_le_pow_right Nat.two_pos (Nat.size_le.mpr less)

/-- Only a power of two has a bit more than the number before it. -/
theorem size_pred {n : Nat} (notPower : ¬ ∃ k, n = 2 ^ k) : (n - 1).size = n.size := by
  apply Nat.le_antisymm (Nat.size_le_size (Nat.sub_le n 1))
  have below := Nat.lt_size_self (n - 1)
  apply Nat.size_le.mpr
  apply Nat.lt_of_le_of_ne (by omega)
  exact fun same => notPower ⟨_, same⟩

theorem exists_smears (number : BitVec 64) :
    ∃ y, Smears 32 (number - 1) y ∧ find_next_power_of_two number = y + 1 :=
  ⟨_, smears_self (number - 1) |>.shift.shift.shift.shift.shift, rfl⟩

theorem toNat_pred (some : number ≠ 0) : (number - 1).toNat = number.toNat - 1 := by
  have positive : 0 < number.toNat := Nat.pos_of_ne_zero fun zero => some (BitVec.eq_of_toNat_eq zero)
  rw [BitVec.toNat_sub]
  show (2 ^ 64 - 1 + number.toNat) % 2 ^ 64 = _
  have bound := number.isLt
  omega

/-- What the compiled body returns is not less than the number, up to the highest power that there is. -/
theorem le_find_next_power_of_two (some : number ≠ 0) (small : number.toNat ≤ 2 ^ 63) :
    number.toNat ≤ (find_next_power_of_two number).toNat ∧ (find_next_power_of_two number).toNat ≤ 2 ^ 63 := by
  obtain ⟨y, smears, next⟩ := exists_smears number
  have low := smears.le (by decide)
  have high := smears.lt_size
  rw [toNat_pred some] at low high
  have few : 2 ^ (number.toNat - 1).size ≤ 2 ^ 63 := by
    apply Nat.pow_le_pow_right Nat.two_pos
    apply Nat.size_le.mpr
    have positive := Nat.pos_of_ne_zero fun zero => some (BitVec.eq_of_toNat_eq zero)
    omega
  rw [next, BitVec.toNat_add]
  show number.toNat ≤ (y.toNat + 1) % 2 ^ 64 ∧ (y.toNat + 1) % 2 ^ 64 ≤ 2 ^ 63
  omega

/-- **Agreement**: the two bodies are right for the numbers that are no power of two and have no gap of 32
bits below the highest. -/
theorem next_power_iff {number : BitVec 64} (low : 1 ≤ number.toNat) (high : number.toNat ≤ 2 ^ 63) :
    Agree number ↔ (¬ ∃ k, number.toNat = 2 ^ k) ∧ NoGap (number - 1) := by
  have some : number ≠ 0 := by
    rintro rfl
    exact absurd low (by decide)
  obtain ⟨y, smears, next⟩ := exists_smears number
  have gap : NoGap (number - 1) ↔ y.toNat = 2 ^ (number.toNat - 1).size - 1 := by
    rw [← toNat_pred some]
    exact smears.toNat_eq_iff.symm
  have bound := smears.lt_size
  rw [toNat_pred some] at bound
  constructor
  · rintro ⟨power, smeared, counted, right⟩
    obtain ⟨-, small, value⟩ := clz_iff.mp counted
    rw [value, nextPower_size_iff] at right
    have inside : 2 ^ number.toNat.size ≤ 2 ^ 63 := Nat.pow_le_pow_right Nat.two_pos (Nat.size_le.mpr small)
    rw [next] at smeared
    rw [size_pred right] at bound gap
    refine ⟨right, gap.mpr ?_⟩
    rw [← smeared, BitVec.toNat_add] at value
    change (y.toNat + 1) % 2 ^ 64 = _ at value
    omega
  · rintro ⟨notPower, noGap⟩
    have small : number.toNat < 2 ^ 63 := Nat.lt_of_le_of_ne high fun same => notPower ⟨63, same⟩
    have inside : 2 ^ number.toNat.size ≤ 2 ^ 63 := Nat.pow_le_pow_right Nat.two_pos (Nat.size_le.mpr small)
    have filled := gap.mp noGap
    rw [size_pred notPower] at filled
    have value : (find_next_power_of_two number).toNat = 2 ^ number.toNat.size := by
      rw [next, BitVec.toNat_add, filled]
      show (2 ^ number.toNat.size - 1 + 1) % 2 ^ 64 = _
      have positive := Nat.two_pow_pos number.toNat.size
      omega
    refine ⟨_, rfl, clz_iff.mpr ⟨some, small, value⟩, ?_⟩
    rw [value]
    exact nextPower_size_iff.mpr notPower

theorem next_power_iff_three : Agree 3 ↔ (¬ ∃ k, (3 : BitVec 64).toNat = 2 ^ k) ∧ NoGap (3 - 1) :=
  next_power_iff (by decide) (by decide)

/-- For 64 the counted power is 128. -/
theorem not_agree_64 : ¬ Agree 64 := by
  rintro ⟨power, smeared, counted, -⟩
  rw [← smeared] at counted
  revert counted
  decide

/-- For `2 ^ 32 + 1`, no power of two, the shifts leave the lowest bit. -/
theorem not_agree_gap : ¬ Agree 0x100000001 := by
  rintro ⟨power, smeared, counted, -⟩
  rw [← smeared] at counted
  revert counted
  decide

end CodeClips.Strbuf
