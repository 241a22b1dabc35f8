import Mathlib.Order.Lattice
import Mathlib.Order.Monotone.Basic
import Mathlib.Tactic.SplitIfs

/-!
# The calendar

Dates of the Gregorian calendar with a time of day, and the seconds from the beginning of the
year 0 to them. The seconds are ordered as the fields are, the largest unit first
(`compare_seconds`): at each level the units before one are a whole number of blocks, and what
is added stays within the block (`compare_block`).
-/

namespace CodeClips.Calendar

/-- The leap years of the Gregorian calendar. -/
def IsLeap (y : Nat) : Prop := y % 4 = 0 ∧ y % 100 ≠ 0 ∨ y % 400 = 0

instance (y : Nat) : Decidable (IsLeap y) := inferInstanceAs (Decidable (_ ∨ _))

/-- The days of a month; there is no month 0. -/
def daysIn (y : Nat) : Nat → Nat
  | 0 => 0
  | 2 => if IsLeap y then 29 else 28
  | 4 => 30
  | 6 => 30
  | 9 => 30
  | 11 => 30
  | _ => 31

/-- The days of a year. -/
def yearDays (y : Nat) : Nat := if IsLeap y then 366 else 365

/-- The days of the months before. -/
def beforeMonth (y : Nat) : Nat → Nat
  | 0 => 0
  | m + 1 => beforeMonth y m + daysIn y m

/-- The days of the years before. -/
def beforeYear : Nat → Nat
  | 0 => 0
  | y + 1 => beforeYear y + yearDays y

@[ext] structure Date where
  year : Nat
  month : Nat
  day : Nat
  hour : Nat
  min : Nat
  sec : Nat
  month_valid : 1 ≤ month ∧ month ≤ 12
  day_valid : 1 ≤ day ∧ day ≤ daysIn year month
  hour_valid : hour < 24
  min_valid : min < 60
  sec_valid : sec < 60

namespace Date

/-- The days before. -/
def days (d : Date) : Nat := beforeYear d.year + (beforeMonth d.year d.month + (d.day - 1))

/-- The seconds since the beginning of the year 0, if each day has 86400. -/
def seconds (d : Date) : Nat := ((d.days * 24 + d.hour) * 60 + d.min) * 60 + d.sec

end Date

/-! ## Blocks -/

section Blocks
variable {f size : Nat → Nat}

/-- Where each block has a size, the starts of the blocks are in order. -/
theorem block_le (step : ∀ n, f (n + 1) = f n + size n) {m n : Nat} (le : m ≤ n) : f m ≤ f n :=
  monotone_nat_of_le_succ (fun n => (step n).symm ▸ Nat.le_add_right _ _) le

/-- What lies in a block is before the next one. -/
theorem block_lt (step : ∀ n, f (n + 1) = f n + size n) {m n a : Nat} (inside : a < size m) (lt : m < n) (b : Nat) :
    f m + a < f n + b := by
  have next : f (m + 1) ≤ f n := block_le step lt
  have here := step m
  omega

/-- What lies in different blocks is ordered as the blocks are. -/
theorem compare_block (step : ∀ n, f (n + 1) = f n + size n) {m n a b : Nat} (inside : a < size m) (inside' : b < size n) :
    compare (f m + a) (f n + b) = (compare m n).then (compare a b) := by
  rcases Nat.lt_trichotomy m n with lt | rfl | gt
  · rw [Nat.compare_eq_lt.mpr (block_lt step inside lt b), Nat.compare_eq_lt.mpr lt]
    rfl
  · have same : compare (f m + a) (f m + b) = compare a b := by
      simp only [compare, compareOfLessAndEq, Nat.add_lt_add_iff_left, Nat.add_left_cancel_iff]
    rw [same, Nat.compare_eq_eq.mpr rfl]
    rfl
  · rw [Nat.compare_eq_gt.mpr (block_lt step inside' gt a), Nat.compare_eq_gt.mpr gt]
    rfl

/-- Blocks of one size. -/
theorem compare_mul {k m n a b : Nat} (inside : a < k) (inside' : b < k) :
    compare (m * k + a) (n * k + b) = (compare m n).then (compare a b) :=
  @compare_block (· * k) (fun _ => k) (fun n => Nat.succ_mul n k) m n a b inside inside'

end Blocks

/-! ## The order -/

/-- The twelve months are the whole year. -/
theorem beforeMonth_year (y : Nat) : beforeMonth y 13 = yearDays y := by
  by_cases leap : IsLeap y <;> simp [beforeMonth, daysIn, yearDays, leap]

theorem daysIn_le (y m : Nat) : daysIn y m ≤ 31 := by
  unfold daysIn
  split
  any_goals decide
  split_ifs <;> decide

namespace Date

theorem day_lt (d : Date) : d.day - 1 < daysIn d.year d.month := by
  have valid := d.day_valid
  omega

/-- A day is in its year. -/
theorem day_of_year_lt (d : Date) : beforeMonth d.year d.month + (d.day - 1) < yearDays d.year := by
  have next : beforeMonth d.year (d.month + 1) ≤ beforeMonth d.year 13 :=
    block_le (fun _ => rfl) (Nat.succ_le_succ d.month_valid.2)
  rw [beforeMonth_year] at next
  exact Nat.lt_of_lt_of_le (Nat.add_lt_add_left d.day_lt _) next

/-- Dates are compared by the year, the month and the day, in this order. -/
theorem compare_days (d e : Date) :
    compare d.days e.days = (compare d.year e.year).then ((compare d.month e.month).then (compare d.day e.day)) := by
  rw [days, days, compare_block (fun _ => rfl) d.day_of_year_lt e.day_of_year_lt]
  have days : compare (d.day - 1) (e.day - 1) = compare d.day e.day := by
    have one := d.day_valid.1
    have one' := e.day_valid.1
    rw [Nat.compare_eq_ite_lt, Nat.compare_eq_ite_lt]
    split_ifs <;> first | rfl | omega
  by_cases same : d.year = e.year
  · have inside := d.day_lt
    rw [same] at inside ⊢
    rw [compare_block (fun _ => rfl) inside e.day_lt, days]
  · rcases Nat.lt_or_gt_of_ne same with lt | gt
    · rw [Nat.compare_eq_lt.mpr lt]
      rfl
    · rw [Nat.compare_eq_gt.mpr gt]
      rfl

/-- **The order of time** is that of the fields, from the year down to the second. -/
theorem compare_seconds (d e : Date) :
    compare d.seconds e.seconds =
      (compare d.year e.year).then ((compare d.month e.month).then ((compare d.day e.day).then
        ((compare d.hour e.hour).then ((compare d.min e.min).then (compare d.sec e.sec))))) := by
  rw [seconds, seconds, compare_mul d.sec_valid e.sec_valid, compare_mul d.min_valid e.min_valid,
    compare_mul d.hour_valid e.hour_valid, compare_days]
  simp only [Ordering.then_assoc]

/-- The seconds tell the date. -/
theorem seconds_injective : Function.Injective seconds := by
  intro d e same
  have fields := compare_seconds d e
  rw [same, Nat.compare_eq_eq.mpr rfl] at fields
  simp only [eq_comm (a := Ordering.eq), Ordering.then_eq_eq, Nat.compare_eq_eq] at fields
  obtain ⟨year, month, day, hour, min, sec⟩ := fields
  ext <;> assumption

/-- Earlier dates are smaller. -/
instance : LinearOrder Date := LinearOrder.lift' seconds seconds_injective

theorem lt_iff {d e : Date} : d < e ↔ d.seconds < e.seconds := Iff.rfl

end Date

end CodeClips.Calendar
