import Mathlib.Algebra.BigOperators.Group.List.Basic
import Mathlib.Tactic.Linarith
import Mathlib.Tactic.Ring

/-!
# One's-complement sums

Words are numbers up to `m`, which is one less than a power of two: a sum above `m` loses `m + 1`
and its carry is added again, at the other end. Such sums are those modulo `m` with two zeros, and
`onesSum_eq_top_iff` says when they are the upper one. A checksum is the complement of a
sum of the other words; `dvd_add_complement_iff` is what it takes when the sum has been
accumulated in two words and the upper one is then added to the lower one without its carry.
-/

namespace CodeClips

section OnesComplement
variable {m : Nat}

/-- Addition with an end-around carry. -/
def onesAdd (m a b : Nat) : Nat := if m < a + b then a + b - m else a + b

/-- The words are added one by one, with the carry brought round. -/
def onesSum (m : Nat) (words : List Nat) : Nat := words.foldl (onesAdd m) 0

/-- The upper word is added to the lower one. -/
def foldWords (m n : Nat) : Nat := n / (m + 1) + n % (m + 1)

/-- The sum fits into a word. -/
theorem onesAdd_le {a b : Nat} (left : a ≤ m) (right : b ≤ m) : onesAdd m a b ≤ m := by
  rw [onesAdd]
  split_ifs <;> omega

/-- It is the sum modulo the largest word. -/
theorem onesAdd_mod (a b : Nat) : onesAdd m a b % m = (a + b) % m := by
  rw [onesAdd]
  split_ifs with carry
  · exact (Nat.mod_eq_sub_mod (Nat.le_of_lt carry)).symm
  · rfl

/-- It is 0 for two zeros only. -/
theorem onesAdd_eq_zero {a b : Nat} : onesAdd m a b = 0 ↔ a + b = 0 := by
  rw [onesAdd]
  split_ifs <;> omega

/-- A sum that has begun stays a word, is the sum modulo `m`, and is only 0 if all words are. -/
theorem foldl_onesAdd {words : List Nat} (small : ∀ word ∈ words, word ≤ m) {a : Nat} (begun : a ≤ m) :
    words.foldl (onesAdd m) a ≤ m ∧ words.foldl (onesAdd m) a % m = (a + words.sum) % m ∧
      (words.foldl (onesAdd m) a = 0 ↔ a + words.sum = 0) := by
  induction words generalizing a with
  | nil => exact ⟨begun, rfl, Iff.rfl⟩
  | cons word words ih =>
    have first : word ≤ m := small word List.mem_cons_self
    obtain ⟨le, mod, zero⟩ := ih (fun word' inside => small word' (List.mem_cons_of_mem _ inside))
      (onesAdd_le begun first)
    rw [List.foldl_cons, List.sum_cons, ← Nat.add_assoc]
    refine ⟨le, ?_, ?_⟩
    · rw [mod, Nat.add_mod, onesAdd_mod, ← Nat.add_mod]
    · have either := onesAdd_eq_zero (m := m) (a := a) (b := word)
      rw [zero]
      omega

/-- The sum is the largest word if the numbers add up to a multiple of it, and not to 0. -/
theorem onesSum_eq_top_iff {words : List Nat} (small : ∀ word ∈ words, word ≤ m) (positive : 0 < m) :
    onesSum m words = m ↔ m ∣ words.sum ∧ words.sum ≠ 0 := by
  obtain ⟨le, mod, zero⟩ := foldl_onesAdd small (Nat.zero_le m)
  rw [Nat.zero_add] at mod zero
  change onesSum m words ≤ m at le
  change onesSum m words % m = _ at mod
  change onesSum m words = 0 ↔ _ at zero
  rw [Nat.dvd_iff_mod_eq_zero, ← mod]
  constructor
  · intro top
    rw [top, Nat.mod_self]
    exact ⟨rfl, by omega⟩
  · rintro ⟨divides, nonzero⟩
    obtain ⟨k, k_eq⟩ := Nat.dvd_of_mod_eq_zero divides
    have one : k = 1 := by
      have lower : k ≠ 0 := by
        rintro rfl
        omega
      have upper : k < 2 := by nlinarith
      omega
    rw [k_eq, one, Nat.mul_one]

/-- After one fold there is at most one more bit. -/
theorem foldWords_lt {n : Nat} (fits : n < (m + 1) * (m + 1)) : foldWords m n < 2 * (m + 1) := by
  have high : n / (m + 1) < m + 1 := Nat.div_lt_of_lt_mul fits
  have low : n % (m + 1) < m + 1 := Nat.mod_lt _ (Nat.succ_pos m)
  rw [foldWords]
  omega

/-- What the complement of the lower word of the folded sum leaves, modulo `m`: what has been
carried out of the two words, and the carry of the folding. -/
theorem add_complement (n : Nat) :
    ∃ q, n + (m - foldWords m (n % ((m + 1) * (m + 1))) % (m + 1)) =
      m * q + (n / ((m + 1) * (m + 1)) + foldWords m (n % ((m + 1) * (m + 1))) / (m + 1)) := by
  generalize sum : n % ((m + 1) * (m + 1)) = a
  generalize lost : n / ((m + 1) * (m + 1)) = k
  generalize folded : foldWords m a = f
  have n_eq : n = (m + 1) * (m + 1) * k + a := by rw [← lost, ← sum, Nat.div_add_mod]
  have a_eq : a = (m + 1) * (a / (m + 1)) + a % (m + 1) := (Nat.div_add_mod a (m + 1)).symm
  have f_eq : (m + 1) * (f / (m + 1)) + f % (m + 1) = a / (m + 1) + a % (m + 1) := by
    rw [Nat.div_add_mod, ← folded, foldWords]
  have low : f % (m + 1) < m + 1 := Nat.mod_lt _ (Nat.succ_pos m)
  obtain ⟨t, t_eq⟩ : ∃ t, m = f % (m + 1) + t := ⟨m - f % (m + 1), by omega⟩
  have complement : m - f % (m + 1) = t := by omega
  refine ⟨(m + 2) * k + a / (m + 1) + f / (m + 1) + 1, ?_⟩
  rw [complement, n_eq]
  generalize a / (m + 1) = q at *
  generalize a % (m + 1) = r at *
  generalize f / (m + 1) = e at *
  generalize f % (m + 1) = s at *
  rw [a_eq]
  have last : q + r + t = (m + 1) * e + m := by omega
  calc (m + 1) * (m + 1) * k + ((m + 1) * q + r) + t
    _ = (m + 1) * (m + 1) * k + m * q + (q + r + t) := by ring
    _ = (m + 1) * (m + 1) * k + m * q + ((m + 1) * e + m) := by rw [last]
    _ = m * ((m + 2) * k + q + e + 1) + (k + e) := by ring

theorem dvd_add_complement_iff {n : Nat} (carries : n / ((m + 1) * (m + 1)) + 1 < m) :
    m ∣ n + (m - foldWords m (n % ((m + 1) * (m + 1))) % (m + 1)) ↔ foldWords m n ≤ m := by
  obtain ⟨q, q_eq⟩ := add_complement (m := m) n
  have square : 0 < (m + 1) * (m + 1) := Nat.mul_pos (Nat.succ_pos m) (Nat.succ_pos m)
  have once := foldWords_lt (Nat.mod_lt n square)
  have e_lt : foldWords m (n % ((m + 1) * (m + 1))) / (m + 1) < 2 := Nat.div_lt_of_lt_mul (by omega)
  rw [q_eq, Nat.dvd_add_right ⟨q, rfl⟩]
  constructor
  · intro divides
    obtain ⟨none_lost, none_carried⟩ :=
      Nat.add_eq_zero_iff.mp (Nat.eq_zero_of_dvd_of_lt divides (by omega))
    have within : n < (m + 1) * (m + 1) := (Nat.div_eq_zero_iff.mp none_lost).resolve_left (by omega)
    rw [Nat.mod_eq_of_lt within] at none_carried
    exact Nat.le_of_lt_succ ((Nat.div_eq_zero_iff.mp none_carried).resolve_left (by omega))
  · intro folded
    have high : n / (m + 1) < m + 1 := by
      rw [foldWords] at folded
      omega
    have within : n < (m + 1) * (m + 1) := (Nat.div_lt_iff_lt_mul (Nat.succ_pos m)).mp high
    rw [Nat.mod_eq_of_lt within, Nat.div_eq_of_lt within, Nat.div_eq_of_lt (by omega)]
    exact Nat.dvd_zero m

/-- The checksum of words, among words whose sum it has been added to. -/
theorem onesSum_complement_iff {words words' : List Nat} (small : ∀ word ∈ words', word ≤ m)
    (carries : words.sum / ((m + 1) * (m + 1)) + 1 < m)
    (sum : words'.sum = words.sum + (m - foldWords m (words.sum % ((m + 1) * (m + 1))) % (m + 1))) :
    onesSum m words' = m ↔ foldWords m words.sum ≤ m := by
  have positive : 0 < m := Nat.lt_of_le_of_lt (Nat.zero_le _) carries
  rw [onesSum_eq_top_iff small positive, sum, ← dvd_add_complement_iff carries]
  apply and_iff_left
  intro zero
  obtain ⟨none_summed, full⟩ := Nat.add_eq_zero_iff.mp zero
  rw [none_summed] at full
  simp [foldWords] at full
  exact positive.ne' full

end OnesComplement

end CodeClips
