import CodeClips.Lib.Calendar
import CodeClips.Lua.Utils
import Mathlib.Tactic.IntervalCases

/-!
# The order of dates

`get_date` writes numbers with a fixed number of digits, so that the strings `diff_date`
compares are ordered as the numbers are. It looks at the fields in the order of the calendar,
and what it returns is the order of the times.
-/

namespace CodeClips.Lua.Utils

open Calendar (Date)

/-! ## Digits -/

/-- The last `w` digits of a number. -/
def digits : Nat → Nat → Str
  | 0, _ => []
  | w + 1, n => Nat.digitChar (n / 10 ^ w % 10) :: digits w n

theorem digitChar_lt : ∀ a < 10, ∀ b < 10, (Nat.digitChar a < Nat.digitChar b ↔ a < b) := by decide

theorem digitChar_inj : ∀ a < 10, ∀ b < 10, (Nat.digitChar a = Nat.digitChar b ↔ a = b) := by decide

theorem digitChar_isDigit : ∀ a < 10, (Nat.digitChar a).isDigit := by decide

theorem isDigit_digits (w n : Nat) : ∀ c ∈ digits w n, c.isDigit := by
  induction w with
  | zero => exact List.forall_mem_nil _
  | succ w ih => exact List.forall_mem_cons.mpr ⟨digitChar_isDigit _ (Nat.mod_lt _ (by decide)), ih⟩

theorem length_digits (w n : Nat) : (digits w n).length = w := by
  induction w with
  | zero => rfl
  | succ w ih => rw [digits, List.length_cons, ih]

/-- As strings the digits are ordered as the numbers. -/
theorem digits_lt_mod (w m n : Nat) : digits w m < digits w n ↔ m % 10 ^ w < n % 10 ^ w := by
  induction w with
  | zero => simp [digits, Nat.mod_one]
  | succ w ih =>
    have first (n : Nat) : n / 10 ^ w % 10 < 10 := Nat.mod_lt _ (by decide)
    have rest (n : Nat) : n % 10 ^ w < 10 ^ w := Nat.mod_lt _ (Nat.pow_pos (by decide))
    rw [digits, digits, List.cons_lt_cons_iff, digitChar_lt _ (first m) _ (first n), digitChar_inj _ (first m) _ (first n),
      ih, Nat.mod_pow_succ, Nat.mod_pow_succ, Nat.add_comm, Nat.add_comm (n % 10 ^ w), Nat.mul_comm, Nat.mul_comm (10 ^ w)]
    rw [← Nat.compare_eq_lt (a := m / 10 ^ w % 10 * 10 ^ w + m % 10 ^ w), Calendar.compare_mul (rest m) (rest n),
      Ordering.then_eq_lt, Nat.compare_eq_lt, Nat.compare_eq_lt, Nat.compare_eq_eq]

theorem digits_lt {w m n : Nat} (inside : m < 10 ^ w) (inside' : n < 10 ^ w) : digits w m < digits w n ↔ m < n := by
  rw [digits_lt_mod, Nat.mod_eq_of_lt inside, Nat.mod_eq_of_lt inside']

/-- A year is written without leading zeros. -/
theorem toDigits_year {y : Nat} (low : 1000 ≤ y) (high : y ≤ 9999) : Nat.toDigits 10 y = digits 4 y := by
  have ten : 1 < 10 := by decide
  rw [Nat.toDigits_of_base_le ten (by omega), Nat.toDigits_of_base_le ten (by omega),
    Nat.toDigits_of_base_le ten (by omega), Nat.toDigits_of_lt_base (by omega)]
  have thousands : y / 10 / 10 / 10 = y / 10 ^ 3 % 10 := by omega
  have hundreds : y / 10 / 10 % 10 = y / 10 ^ 2 % 10 := by omega
  have tens : y / 10 % 10 = y / 10 ^ 1 % 10 := by omega
  have ones : y % 10 = y / 10 ^ 0 % 10 := by omega
  rw [thousands, hundreds, tens, ones]
  rfl

/-- The table of numbers has two digits for each. -/
theorem NUM_eq : ∀ n < 60, NUM[n]? = some (String.ofList (digits 2 n)) := by decide

/-! ## The words of a date -/

theorem not_blank_of_isDigit {c : Char} (digit : c.isDigit) : ¬ blank.test c := by
  intro space
  have mem : c ∈ [' ', '\t', '\n', '\x0b', '\x0c', '\r'] := of_decide_eq_true space
  have none : [' ', '\t', '\n', '\x0b', '\x0c', '\r'].all fun d => !d.isDigit := by decide
  have other := List.all_eq_true.mp none c mem
  rw [digit] at other
  cases other

theorem not_colon_of_isDigit {c : Char} (digit : c.isDigit) : ¬ colon.test c := by
  intro same
  rw [← LuaPattern.lit_test.mp same] at digit
  cases digit

theorem digits_ne_nil (w n : Nat) : digits (w + 1) n ≠ [] := List.cons_ne_nil _ _

theorem isWord_digits (w n : Nat) : IsWord blank (digits (w + 1) n) :=
  ⟨digits_ne_nil w n, fun c member => not_blank_of_isDigit (isDigit_digits _ n c member)⟩

/-- Hours, minutes and seconds. -/
def clock (hour min sec : Nat) : Str := spaced (digits 2 hour) [([':'], digits 2 min), ([':'], digits 2 sec)]

section Clock
variable (hour min sec : Nat)

theorem split_clock : split (clock hour min sec) ":".toList = .ok [digits 2 hour, digits 2 min, digits 2 sec] := by
  have word (n : Nat) : IsWord colon (digits 2 n) :=
    ⟨digits_ne_nil 1 n, fun c member => not_colon_of_isDigit (isDigit_digits 2 n c member)⟩
  refine split_spaced compile_colon isSep_colon (word hour) ?_
  simp only [List.forall_mem_cons]
  exact ⟨⟨isSep_colon, word min⟩, ⟨isSep_colon, word sec⟩, List.forall_mem_nil _⟩

theorem isWord_clock : IsWord blank (clock hour min sec) := by
  refine ⟨List.append_ne_nil_of_left_ne_nil (digits_ne_nil 1 hour) _, ?_⟩
  intro c member
  have cases : c.isDigit ∨ c = ':' := by
    simp only [clock, spaced, List.mem_append, List.mem_singleton] at member
    rcases member with digit | rfl | digit | rfl | digit
    · exact .inl (isDigit_digits 2 hour c digit)
    · exact .inr rfl
    · exact .inl (isDigit_digits 2 min c digit)
    · exact .inr rfl
    · exact .inl (isDigit_digits 2 sec c digit)
  rcases cases with digit | rfl
  · exact not_blank_of_isDigit digit
  · decide

end Clock

theorem WEEK_word : ∀ i, 1 ≤ i ∧ i ≤ 7 → ∃ w, fromOne WEEK i = some w ∧ IsWord blank w.toList := by
  rintro i ⟨low, high⟩
  interval_cases i <;> exact ⟨_, rfl, by decide⟩

/-- The name that is written for a month is one that the parser knows. -/
theorem MONTH_word : ∀ i, 1 ≤ i ∧ i ≤ 12 → ∃ w, fromOne MONTH i = some w ∧ index monthNumber (some w.toList) = some i ∧
    IsWord blank w.toList := by
  rintro i ⟨low, high⟩
  interval_cases i <;> exact ⟨_, rfl, by decide⟩

/-! ## Dates -/

/-- A date with a year of four digits, and some day of the week. -/
structure Stamp extends Date where
  wday : Nat
  year_valid : 1000 ≤ year ∧ year ≤ 9999
  wday_valid : 1 ≤ wday ∧ wday ≤ 7

def Stamp.table (d : Stamp) : DateTable where
  year := d.year
  month := d.month
  day := d.day
  hour := d.hour
  min := d.min
  sec := d.sec
  wday := d.wday

/-- What `parse_date` finds in a date that `get_date` has written, but for the weekday. -/
structure Parsed (d : Date) (item : DateItem) : Prop where
  year : item.year = some (digits 4 d.year)
  month : item.month = some d.month
  day : item.day = some (digits 2 d.day)
  hour : item.hour = some (digits 2 d.hour)
  min : item.min = some (digits 2 d.min)
  sec : item.sec = some (digits 2 d.sec)

theorem checkstring_some (arg s : String) : checkstring arg (some s) = .ok s.toList := rfl

theorem NUM_checkstring (arg : String) {n : Nat} (inside : n < 60) : checkstring arg NUM[n]? = .ok (digits 2 n) := by
  rw [NUM_eq n inside, checkstring_some, String.toList_ofList]

/-- Every field is found again where it was written. -/
theorem parse_format (d : Stamp) : ∃ s item, format_date d.table = .ok s ∧ parse_date s = .ok item ∧ Parsed d.toDate item := by
  obtain ⟨week, named, weekWord⟩ := WEEK_word d.wday d.wday_valid
  obtain ⟨month, named', number, monthWord⟩ := MONTH_word d.month d.month_valid
  have day : d.day < 60 := Nat.lt_of_le_of_lt (d.day_valid.2.trans (Calendar.daysIn_le _ _)) (by decide)
  let s : Str := spaced week.toList [([' '], digits 2 d.day), ([' '], month.toList), ([' '], digits 4 d.year),
    ([' '], clock d.hour d.min d.sec), ([' '], "GMT".toList)]
  refine ⟨s, _, ?_, parse_date_spaced weekWord ?_ (split_clock d.hour d.min d.sec), ?_⟩
  · have hour : d.hour < 60 := d.hour_valid.trans (by decide)
    simp only [format_date, Stamp.table, named, named', NUM_checkstring _ hour, NUM_checkstring _ d.min_valid,
      NUM_checkstring _ d.sec_valid, NUM_checkstring _ day, checkstring_some, toDigits_year d.year_valid.1 d.year_valid.2,
      bind, Except.bind, pure, Except.pure]
    simp only [s, spaced, clock, List.append_assoc, List.cons_append, List.nil_append]
  · simp only [List.forall_mem_cons]
    exact ⟨⟨isSep_blank, isWord_digits 1 _⟩, ⟨isSep_blank, monthWord⟩, ⟨isSep_blank, isWord_digits 3 _⟩,
      ⟨isSep_blank, isWord_clock _ _ _⟩, ⟨isSep_blank, by decide⟩, List.forall_mem_nil _⟩
  · exact ⟨rfl, number, rfl, rfl, rfl, rfl⟩

/-! ## Comparing -/

/-- What `diff_date` returns for an order. -/
def sign : Ordering → Int
  | .lt => -1
  | .eq => 0
  | .gt => 1

section Fields
variable {α : Type} [LT α] [DecidableLT α] {a b : α} {m n : Nat}

/-- A field whose values are ordered as the numbers are. -/
theorem diff_field_eq (type : String) (lt : a < b ↔ m < n) (gt : b < a ↔ n < m) (o : Ordering) :
    diff_field type (some a) (some b) (.ok (sign o)) = .ok (sign ((compare m n).then o)) := by
  simp only [diff_field, less, bind, Except.bind, pure, Except.pure, decide_eq_true_eq, lt, gt]
  rcases Nat.lt_trichotomy m n with less | rfl | greater
  · rw [if_pos less, Nat.compare_eq_lt.mpr less]
    rfl
  · rw [if_neg (Nat.lt_irrefl m), if_neg (Nat.lt_irrefl m), Nat.compare_eq_eq.mpr rfl]
    rfl
  · rw [if_neg (Nat.lt_asymm greater), if_pos greater, Nat.compare_eq_gt.mpr greater]
    rfl

theorem diff_field_digits {w : Nat} (inside : m < 10 ^ w) (inside' : n < 10 ^ w) (o : Ordering) :
    diff_field "string" (some (digits w m)) (some (digits w n)) (.ok (sign o)) = .ok (sign ((compare m n).then o)) :=
  diff_field_eq "string" (digits_lt inside inside') (digits_lt inside' inside) o

end Fields

/-- `diff_date` after the parsing. -/
def diff_items (date1 date2 : DateItem) : Except String Int :=
  diff_field "string" date1.year date2.year <|
    diff_field "number" date1.month date2.month <|
    diff_field "string" date1.day date2.day <|
    diff_field "string" date1.hour date2.hour <|
    diff_field "string" date1.min date2.min <|
    diff_field "string" date1.sec date2.sec <| .ok 0

/-- Two digits are enough for all fields but the year. -/
theorem two_digits (d : Stamp) : d.day < 10 ^ 2 ∧ d.hour < 10 ^ 2 ∧ d.min < 10 ^ 2 ∧ d.sec < 10 ^ 2 := by
  have day := d.day_valid.2.trans (Calendar.daysIn_le d.year d.month)
  have hour := d.hour_valid
  have min := d.min_valid
  have sec := d.sec_valid
  omega

theorem four_digits (d : Stamp) : d.year < 10 ^ 4 := Nat.lt_succ_of_le d.year_valid.2

/-- The fields are compared in the order of the calendar. -/
theorem diff_items_eq {d₁ d₂ : Stamp} {item₁ item₂ : DateItem} (parsed₁ : Parsed d₁.toDate item₁)
    (parsed₂ : Parsed d₂.toDate item₂) : diff_items item₁ item₂ = .ok (sign (compare d₁.seconds d₂.seconds)) := by
  obtain ⟨day, hour, min, sec⟩ := two_digits d₁
  obtain ⟨day', hour', min', sec'⟩ := two_digits d₂
  have last := diff_field_digits sec sec' .eq
  rw [Ordering.then_eq] at last
  rw [diff_items, parsed₁.year, parsed₁.month, parsed₁.day, parsed₁.hour, parsed₁.min, parsed₁.sec, parsed₂.year,
    parsed₂.month, parsed₂.day, parsed₂.hour, parsed₂.min, parsed₂.sec, Calendar.Date.compare_seconds]
  rw [show (Except.ok 0 : Except String Int) = .ok (sign .eq) from rfl, last, diff_field_digits min min',
    diff_field_digits hour hour', diff_field_digits day day', diff_field_eq "number" Iff.rfl Iff.rfl,
    diff_field_digits (four_digits d₁) (four_digits d₂)]

/-- Strings that are the same are of the same time. -/
theorem diff_date_eq {d₁ d₂ : Stamp} {s₁ s₂ : Str} {item₁ item₂ : DateItem} (read₁ : parse_date s₁ = .ok item₁)
    (read₂ : parse_date s₂ = .ok item₂) (parsed₁ : Parsed d₁.toDate item₁) (parsed₂ : Parsed d₂.toDate item₂) :
    diff_date s₁ s₂ = .ok (sign (compare d₁.seconds d₂.seconds)) := by
  rw [diff_date]
  split_ifs with same
  · subst same
    obtain rfl : item₁ = item₂ := Except.ok.inj (read₁.symm.trans read₂)
    have twice := (diff_items_eq parsed₁ parsed₁).symm.trans (diff_items_eq parsed₁ parsed₂)
    rw [Nat.compare_eq_eq.mpr rfl] at twice
    exact twice
  · rw [read₁, read₂]
    exact diff_items_eq parsed₁ parsed₂

theorem sign_neg {o : Ordering} : sign o < 0 ↔ o = .lt := by cases o <;> decide

theorem sign_zero {o : Ordering} : sign o = 0 ↔ o = .eq := by cases o <;> decide

theorem sign_pos {o : Ordering} : 0 < sign o ↔ o = .gt := by cases o <;> decide

/-- **The order of time**: for any two calls of `get_date`, whatever dates `os.date` returns,
`diff_date` is negative, zero or positive as the first date is before, the same as or after the
second in the linear order of the dates by their seconds. -/
theorem diff_date_chronological (os_date : Int → Stamp) (time₁ time₂ : Int) (delay₁ timezone₁ delay₂ timezone₂ : Option Int) :
    let d₁ := (os_date (time₁ - 3600 * timezone₁.getD 8 + delay₁.getD 0)).toDate
    let d₂ := (os_date (time₂ - 3600 * timezone₂.getD 8 + delay₂.getD 0)).toDate
    ∃ s₁ s₂ r, get_date (fun t => (os_date t).table) time₁ delay₁ timezone₁ = .ok s₁ ∧
      get_date (fun t => (os_date t).table) time₂ delay₂ timezone₂ = .ok s₂ ∧ diff_date s₁ s₂ = .ok r ∧
      (r < 0 ↔ d₁ < d₂) ∧ (r = 0 ↔ d₁ = d₂) ∧ (0 < r ↔ d₂ < d₁) ∧
      (d₁ < d₂ ↔ d₁.seconds < d₂.seconds) ∧ (d₁ = d₂ ↔ d₁.seconds = d₂.seconds) := by
  intro d₁ d₂
  obtain ⟨s₁, item₁, written₁, read₁, parsed₁⟩ := parse_format (os_date (time₁ - 3600 * timezone₁.getD 8 + delay₁.getD 0))
  obtain ⟨s₂, item₂, written₂, read₂, parsed₂⟩ := parse_format (os_date (time₂ - 3600 * timezone₂.getD 8 + delay₂.getD 0))
  have same : d₁ = d₂ ↔ d₁.seconds = d₂.seconds := Date.seconds_injective.eq_iff.symm
  refine ⟨s₁, s₂, _, written₁, written₂, diff_date_eq read₁ read₂ parsed₁ parsed₂, ?_, ?_, ?_, Iff.rfl, same⟩
  · rw [sign_neg, Nat.compare_eq_lt, Calendar.Date.lt_iff]
  · rw [sign_zero, Nat.compare_eq_eq, same]
  · rw [sign_pos, Nat.compare_eq_gt, Calendar.Date.lt_iff]

end CodeClips.Lua.Utils
