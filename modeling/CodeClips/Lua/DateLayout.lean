import CodeClips.Lua.DateOrder

/-!
# The layout of a date

The comment of `parse_date` and its test have the month and the day before the time, and the
year at the end. The words are taken apart as `get_date` writes them, where the day comes first,
then the month and the year, then the time.
-/

namespace CodeClips.Lua.Utils

open Calendar (Date)

/-- The words of a date as the comment has them, with the blanks between. -/
structure Layout (d : Date) where
  wday : Str
  month : Str
  day : Str
  b₁ : Str
  b₂ : Str
  b₃ : Str
  b₄ : Str
  wday_word : IsWord blank wday
  month_word : IsWord blank month
  month_name : ∀ c ∈ month.head?, ¬ c.isDigit
  day_text : day = digits 2 d.day ∨ day = Nat.toDigits 10 d.day
  blanks : ∀ b ∈ [b₁, b₂, b₃, b₄], IsSep blank .plus b
  year_valid : 1000 ≤ d.year ∧ d.year ≤ 9999

namespace Layout
variable {d : Date} (L : Layout d)

/-- `Wday Mon DD HH:MM:SS YYYY` -/
def text : Str :=
  spaced L.wday [(L.b₁, L.month), (L.b₂, L.day), (L.b₃, clock d.hour d.min d.sec), (L.b₄, Nat.toDigits 10 d.year)]

/-- The fields are those of the date; `wday` is the number of its weekday. -/
structure Right (wday : Nat) (item : DateItem) : Prop where
  wday : item.wday = some wday
  month : item.month = some d.month
  day : item.day = some L.day
  hour : item.hour = some (digits 2 d.hour)
  min : item.min = some (digits 2 d.min)
  sec : item.sec = some (digits 2 d.sec)
  year : item.year = some (Nat.toDigits 10 d.year)

theorem day_digits : L.day ≠ [] ∧ ∀ c ∈ L.day, c.isDigit := by
  rcases L.day_text with text | text
  · rw [text]
    exact ⟨digits_ne_nil 1 _, isDigit_digits 2 _⟩
  · rw [text]
    exact ⟨Nat.toDigits_ne_nil, fun c => Nat.isDigit_of_mem_toDigits (by decide) (by decide)⟩

theorem day_word : IsWord blank L.day := ⟨L.day_digits.1, fun c member => not_blank_of_isDigit (L.day_digits.2 c member)⟩

/-- No month has a number for its name. -/
theorem month_of_day : index monthNumber (some L.day) = none := by
  obtain ⟨some, all⟩ := L.day_digits
  have letters : ∀ p ∈ monthNumber, p.1.toList.all fun c => !c.isDigit := by decide
  rw [index, Option.bind_some, List.lookup_eq_none_iff]
  intro p member
  rw [bne_iff_ne]
  intro same
  obtain ⟨c, first⟩ := List.exists_mem_of_ne_nil _ some
  have letter := List.all_eq_true.mp (letters p member) c (by rwa [← same, String.toList_ofList])
  rw [all c first] at letter
  cases letter

theorem month_ne_day : L.month ≠ L.day := by
  intro same
  obtain ⟨some, all⟩ := L.day_digits
  obtain ⟨c, rest, begins⟩ := List.exists_cons_of_ne_nil some
  have letter := L.month_name c (by rw [same, begins]; rfl)
  exact letter (all c (by rw [begins]; exact List.mem_cons_self))

/-- Month and day are exchanged, and so are the time and the year. -/
theorem parse_text : parse_date L.text = .ok {
    wday := index weekNumber (some L.wday)
    day := some L.month
    month := none
    year := some (clock d.hour d.min d.sec)
    hour := some (Nat.toDigits 10 d.year)
    min := none
    sec := none } := by
  have year : Nat.toDigits 10 d.year = digits 4 d.year := toDigits_year L.year_valid.1 L.year_valid.2
  have read : split (digits 4 d.year) ":".toList = .ok [digits 4 d.year] :=
    split_spaced compile_colon isSep_colon
      ⟨digits_ne_nil 3 _, fun c member => not_colon_of_isDigit (isDigit_digits 4 _ c member)⟩ (List.forall_mem_nil _)
  have words : ∀ pair ∈ [(L.b₁, L.month), (L.b₂, L.day), (L.b₃, clock d.hour d.min d.sec), (L.b₄, digits 4 d.year)],
      IsSep blank .plus pair.1 ∧ IsWord blank pair.2 := by
    have blanks := L.blanks
    simp only [List.forall_mem_cons] at blanks ⊢
    obtain ⟨b₁, b₂, b₃, b₄, -⟩ := blanks
    exact ⟨⟨b₁, L.month_word⟩, ⟨b₂, L.day_word⟩, ⟨b₃, isWord_clock _ _ _⟩, ⟨b₄, isWord_digits 3 _⟩, List.forall_mem_nil _⟩
  rw [text, year, parse_date_spaced L.wday_word words read, L.month_of_day]
  rfl

end Layout

/-- **No date is read right**: whatever the weekday and the month are called, and however many
blanks there are, every field but the weekday is wrong. -/
theorem parse_date_never (d : Date) (L : Layout d) :
    ∃ item, parse_date L.text = .ok item ∧ item.month = none ∧ item.day ≠ some L.day ∧
      item.hour ≠ some (digits 2 d.hour) ∧ item.min = none ∧ item.sec = none ∧
      item.year ≠ some (Nat.toDigits 10 d.year) ∧ ∀ wday, ¬ L.Right wday item := by
  have year : Nat.toDigits 10 d.year = digits 4 d.year := toDigits_year L.year_valid.1 L.year_valid.2
  refine ⟨_, L.parse_text, rfl, ?_, ?_, rfl, rfl, ?_, ?_⟩
  · exact fun same => L.month_ne_day (Option.some.inj same)
  · intro same
    have lengths := congrArg List.length (Option.some.inj same)
    rw [year, length_digits, length_digits] at lengths
    exact absurd lengths (by decide)
  · intro same
    have lengths := congrArg List.length (Option.some.inj same)
    rw [year, length_digits] at lengths
    simp only [clock, spaced, List.length_append, length_digits] at lengths
    exact absurd lengths (by decide)
  · intro wday right
    cases right.month

/-- The date of the test. -/
def july21 : Date where
  year := 2014
  month := 7
  day := 21
  hour := 10
  min := 42
  sec := 3
  month_valid := by decide
  day_valid := by decide
  hour_valid := by decide
  min_valid := by decide
  sec_valid := by decide

/-- `Mon Jul 21 10:42:03 2014` -/
def july21_layout : Layout july21 where
  wday := "Mon".toList
  month := "Jul".toList
  day := "21".toList
  b₁ := [' ']
  b₂ := [' ']
  b₃ := [' ']
  b₄ := [' ']
  wday_word := by decide
  month_word := by decide
  month_name := by
    rintro c ⟨⟩
    decide
  day_text := .inl (by decide)
  blanks := by decide
  year_valid := by decide

/-- The month is not found. -/
theorem july21_not_right : july21_layout.text = "Mon Jul 21 10:42:03 2014".toList ∧
    ¬ ∃ item, parse_date july21_layout.text = .ok item ∧ july21_layout.Right 2 item := by
  refine ⟨by decide, ?_⟩
  rintro ⟨item, read, right⟩
  rw [july21_layout.parse_text] at read
  cases read
  cases right.month

end CodeClips.Lua.Utils
