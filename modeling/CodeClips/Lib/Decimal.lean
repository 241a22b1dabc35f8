import Mathlib.Data.List.Basic
import Mathlib.Data.List.Induction
import Mathlib.Data.Option.Basic

/-!
# Decimal numbers

A number is one digit or more, with or without a sign. `toDigits` writes it again without the
zeros at its beginning (`toDigits_ofDigitChars`).
-/

namespace CodeClips.Decimal

/-- Digits only. -/
def natural (s : List Char) : Option Nat :=
  if s ≠ [] ∧ s.all Char.isDigit then some (Nat.ofDigitChars 10 s 0) else none

/-- Digits with a sign or without. -/
def integer : List Char → Option Int
  | '+' :: s => (natural s).map Int.ofNat
  | '-' :: s => (natural s).map fun n : Nat => -Int.ofNat n
  | s => (natural s).map Int.ofNat

/-- A number without zeros in front of another digit, and without a sign in front of zero. -/
def numeral : List Char → Option Int
  | '-' :: s => if s.head? = some '0' then none else (natural s).map fun n : Nat => -Int.ofNat n
  | s => if s.head? = some '0' ∧ s ≠ ['0'] then none else (natural s).map Int.ofNat

/-- Without the zeros before the first other digit; the last digit stays. -/
def unpadded (s : List Char) : List Char := if s.dropWhile (· = '0') = [] then ['0'] else s.dropWhile (· = '0')

variable {s : List Char} {c : Char} {n : Nat}

/-- Digits only, and one at least; the number is their value. -/
theorem natural_iff : natural s = some n ↔ s ≠ [] ∧ (∀ c ∈ s, c.isDigit) ∧ Nat.ofDigitChars 10 s 0 = n := by
  rw [natural, Option.ite_none_right_eq_some, List.all_eq_true, and_assoc, Option.some.injEq]

/-- Without a sign the number is that of the digits. -/
theorem integer_of_natural (read : natural s = some n) : integer s = some (n : Int) := by
  obtain ⟨-, digits, -⟩ := natural_iff.mp read
  unfold integer
  split
  · next s => exact absurd (digits '+' List.mem_cons_self) (by decide)
  · next s => exact absurd (digits '-' List.mem_cons_self) (by decide)
  · rw [read]
    rfl

/-- A number has only digits and a sign. -/
theorem integer_chars {z : Int} (read : integer s = some z) : s ≠ [] ∧ ∀ c ∈ s, c.isDigit ∨ c = '+' ∨ c = '-' := by
  have digits {s : List Char} {f : Nat → Int} (read : (natural s).map f = some z) : s ≠ [] ∧ ∀ c ∈ s, c.isDigit := by
    obtain ⟨n, found, -⟩ := Option.map_eq_some_iff.mp read
    exact (natural_iff.mp found).imp_right And.left
  unfold integer at read
  split at read
  · exact ⟨List.cons_ne_nil _ _, List.forall_mem_cons.mpr ⟨.inr (.inl rfl), fun c member => .inl ((digits read).2 c member)⟩⟩
  · exact ⟨List.cons_ne_nil _ _, List.forall_mem_cons.mpr ⟨.inr (.inr rfl), fun c member => .inl ((digits read).2 c member)⟩⟩
  · exact ⟨(digits read).1, fun c member => .inl ((digits read).2 c member)⟩

/-! ## Leading zeros -/

/-- The ten digits. -/
theorem digitChar_digit (digit : c.isDigit) : ∃ d < 10, c = Nat.digitChar d := by
  simp only [Char.isDigit, Bool.and_eq_true, decide_eq_true_eq] at digit
  have low : 48 ≤ c.toNat := digit.1
  have high : c.toNat ≤ 57 := digit.2
  refine ⟨c.toNat - 48, by omega, ?_⟩
  apply Char.toNat_inj.mp
  have each : ∀ d < 10, (Nat.digitChar d).toNat = d + 48 := by decide
  rw [each _ (by omega)]
  omega

/-- What begins with another digit than zero is written as it is. -/
theorem toDigits_of_head (digits : ∀ c ∈ s, c.isDigit) (nonempty : s ≠ []) (head : s.head? ≠ some '0') :
    0 < Nat.ofDigitChars 10 s 0 ∧ Nat.toDigits 10 (Nat.ofDigitChars 10 s 0) = s := by
  induction s using List.reverseRecOn with
  | nil => exact absurd rfl nonempty
  | append_singleton s c ih =>
    obtain ⟨d, small, rfl⟩ := digitChar_digit (digits c (List.mem_append_right s List.mem_cons_self))
    rw [Nat.ofDigitChars_append, Nat.ofDigitChars_cons_digitChar_of_lt_ten small, Nat.ofDigitChars_nil]
    cases s with
    | nil =>
      have other : d ≠ 0 := by
        rintro rfl
        exact head rfl
      rw [Nat.ofDigitChars_nil, Nat.mul_zero, Nat.zero_add, Nat.toDigits_of_lt_base small]
      exact ⟨Nat.pos_of_ne_zero other, rfl⟩
    | cons e s =>
      obtain ⟨positive, written⟩ := ih (fun c member => digits c (List.mem_append_left _ member)) (List.cons_ne_nil e s) head
      refine ⟨by omega, ?_⟩
      rw [Nat.toDigits_of_base_le (by decide) (by omega), Nat.mul_add_div (by decide), Nat.div_eq_of_lt small, Nat.add_zero,
        Nat.mul_add_mod, Nat.mod_eq_of_lt small, written]

/-- Zeros in front do not count. -/
theorem ofDigitChars_dropWhile (s : List Char) : Nat.ofDigitChars 10 (s.dropWhile (· = '0')) 0 = Nat.ofDigitChars 10 s 0 := by
  induction s with
  | nil => rfl
  | cons c s ih =>
    by_cases zero : c = '0'
    · subst zero
      rw [List.dropWhile_cons_of_pos (by decide), ih, Nat.ofDigitChars_cons]
      rfl
    · rw [List.dropWhile_cons_of_neg (by simpa using zero)]

/-! ## Numerals -/

/-- A number is read back from its digits. -/
theorem natural_toDigits (n : Nat) : natural (Nat.toDigits 10 n) = some n :=
  natural_iff.mpr ⟨Nat.toDigits_ne_nil, fun _ => Nat.isDigit_of_mem_toDigits (by decide) (by decide),
    Nat.ofDigitChars_ten_toDigits⟩

/-- No zero is printed in front. -/
theorem head_toDigits (positive : 0 < n) : (Nat.toDigits 10 n).head? ≠ some '0' := by
  induction n using Nat.strongRecOn with
  | ind n ih =>
    rcases Nat.lt_or_ge n 10 with small | large
    · rw [Nat.toDigits_of_lt_base small, List.head?_cons]
      have each : ∀ d < 10, 0 < d → some (Nat.digitChar d) ≠ some '0' := by decide
      exact each n small positive
    · rw [Nat.toDigits_of_base_le (by decide) large, List.head?_append_of_ne_nil _ Nat.toDigits_ne_nil]
      exact ih (n / 10) (by omega) (by omega)

/-- So the digits of a number are a numeral. -/
theorem numeral_toDigits (n : Nat) : numeral (Nat.toDigits 10 n) = some (n : Int) := by
  have read := natural_toDigits n
  unfold numeral
  split
  · next s same =>
    rw [same] at read
    exact absurd ((natural_iff.mp read).2.1 '-' List.mem_cons_self) (by decide)
  · rw [read, if_neg]
    · rfl
    · rintro ⟨zero, more⟩
      rcases Nat.eq_zero_or_pos n with rfl | positive
      · exact more (Nat.toDigits_zero 10)
      · exact head_toDigits positive zero

/-- And with a sign, but for zero. -/
theorem numeral_negative (positive : 0 < n) : numeral ('-' :: Nat.toDigits 10 n) = some (-(n : Int)) := by
  rw [numeral, if_neg (head_toDigits positive), natural_toDigits]
  rfl

/-- **Written again**, a number has no leading zeros. -/
theorem toDigits_ofDigitChars (digits : ∀ c ∈ s, c.isDigit) : Nat.toDigits 10 (Nat.ofDigitChars 10 s 0) = unpadded s := by
  rw [unpadded, ← ofDigitChars_dropWhile]
  split_ifs with none
  · rw [none]
    rfl
  · refine (toDigits_of_head (fun c member => digits c (List.dropWhile_subset _ member)) none ?_).2
    intro zero
    have stopped := List.head?_dropWhile_not (· = '0') s
    rw [zero] at stopped
    cases stopped

end CodeClips.Decimal
