import CodeClips.Lib.LuaPattern
import CodeClips.Lua.Path

/-!
# Dates in `utils.lua`

`get_date` writes a date into an HTTP header, `parse_date` takes one apart into words, and
`diff_date` compares two that are taken apart, field by field. `os_date` is the library's
`os.date("*t", t)`. A field that the parser does not find is nil, and comparing it is an error;
strings are compared in the C locale, in which a Lua program starts.
-/

namespace CodeClips.Lua.Utils

open LuaPattern (Single Quant Item Cap Pattern compile search captures)

/-! ## The code -/

/-- The loop over the matches: `pString` is what is left after `last_end`, of a string with
`size` characters. The fuel says how many matches there may be. -/
def split_from (fpat : Pattern) (size : Nat) : Nat → Str → List Str
  | 0, _ => []
  | fuel + 1, pString =>
    match search fpat pString with
    | none => if pString = [] then [] else [pString]
    | some (start, rest, cs) =>
      let cap := (captures start rest cs).headD []
      (if start.length ≠ size ∨ cap ≠ [] then [cap] else []) ++ split_from fpat size fuel rest

/-- `split`: what lies before, between and after the matches of the pattern. -/
def split (pString pPattern : Str) : Except String (List Str) :=
  match compile ("(.-)".toList ++ pPattern) with
  | none => .error "malformed pattern"
  | some fpat => .ok (split_from fpat pString.length (pString.length + 1) pString)

/-- What `os.date("*t", t)` returns. -/
structure DateTable where
  year : Nat
  month : Nat
  day : Nat
  hour : Nat
  min : Nat
  sec : Nat
  wday : Nat
  deriving DecidableEq

def WEEK : List String := ["Sun.", "Mon.", "Tues.", "Wed.", "Thur.", "Fri.", "Sta."]

def MONTH : List String := ["Jan", "Feb", "Mar", "Apr", "May", "Jun", "Jul", "Aug", "Sept", "Oct", "Nov", "Dec"]

/-- The entry with the index 0 is in the table too. -/
def NUM : List String :=
  ["00", "01", "02", "03", "04", "05", "06", "07", "08", "09", "10", "11", "12", "13", "14", "15",
    "16", "17", "18", "19", "20", "21", "22", "23", "24", "25", "26", "27", "28", "29", "30",
    "31", "32", "33", "34", "35", "36", "37", "38", "39", "40", "41", "42", "43", "44", "45",
    "46", "47", "48", "49", "50", "51", "52", "53", "54", "55", "56", "57", "58", "59"]

/-- A table whose indices begin at 1. -/
def fromOne (table : List String) (i : Nat) : Option String := if i = 0 then none else table[i - 1]?

/-- An argument of `string.format` for `%s`. -/
def checkstring (arg : String) : Option String → Except String Str
  | some s => .ok s.toList
  | none => .error ("bad argument #" ++ arg ++ " to 'format' (string expected, got nil)")

/-- `get_date` after the call of `os.date`. -/
def format_date (date : DateTable) : Except String Str := do
  let hour ← checkstring "2" NUM[date.hour]?
  let min ← checkstring "3" NUM[date.min]?
  let sec ← checkstring "4" NUM[date.sec]?
  let time := hour ++ ':' :: min ++ ':' :: sec
  let week ← checkstring "2" (fromOne WEEK date.wday)
  let day ← checkstring "3" NUM[date.day]?
  let month ← checkstring "4" (fromOne MONTH date.month)
  return week ++ ' ' :: day ++ ' ' :: month ++ ' ' :: Nat.toDigits 10 date.year ++ ' ' :: time ++ ' ' :: "GMT".toList

/-- The delay and the timezone have a default. -/
def get_date (os_date : Int → DateTable) (os_time : Int) (delay timezone : Option Int) : Except String Str :=
  format_date (os_date (os_time - 3600 * timezone.getD 8 + delay.getD 0))

/-- The number of a weekday, with a comma after it or without. -/
def weekNumber : List (String × Nat) :=
  [("Sun,", 1), ("Mon,", 2), ("Tues,", 3), ("Wed,", 4), ("Thur,", 5), ("Fri,", 6), ("Sta,", 7),
    ("Sun", 1), ("Mon", 2), ("Tues", 3), ("Wed", 4), ("Thur", 5), ("Fri", 6), ("Sta", 7)]

def monthNumber : List (String × Nat) :=
  [("Jan", 1), ("Feb", 2), ("Mar", 3), ("Apr", 4), ("May", 5), ("Jun", 6), ("Jul", 7), ("Aug", 8),
    ("Sept", 9), ("Oct", 10), ("Nov", 11), ("Dec", 12)]

/-- A table indexed by a word, which may be nil. -/
def index (table : List (String × Nat)) (word : Option Str) : Option Nat :=
  word.bind fun w => table.lookup (String.ofList w)

/-- `date_item`. Only the weekday and the month are numbers. -/
structure DateItem where
  wday : Option Nat
  day : Option Str
  month : Option Nat
  year : Option Str
  hour : Option Str
  min : Option Str
  sec : Option Str
  deriving DecidableEq

def parse_date (date : Str) : Except String DateItem := do
  let date_table ← split date "%s+".toList
  match date_table[4]? with
  | none => .error "bad argument #1 to 'find' (string expected, got nil)"
  | some word =>
    let time ← split word ":".toList
    return {
      wday := index weekNumber date_table[0]?
      day := date_table[1]?
      month := index monthNumber date_table[2]?
      year := date_table[3]?
      hour := time[0]?
      min := time[1]?
      sec := time[2]? }

section Diff
variable {α : Type} [LT α] [DecidableLT α]

/-- The operator `<` on two values of the type, or nil. -/
def less (type : String) : Option α → Option α → Except String Bool
  | some a, some b => .ok (a < b)
  | none, none => .error "attempt to compare two nil values"
  | none, some _ => .error ("attempt to compare nil with " ++ type)
  | some _, none => .error ("attempt to compare " ++ type ++ " with nil")

/-- One field, and what follows where it is the same in both dates. -/
def diff_field (type : String) (a b : Option α) (rest : Except String Int) : Except String Int := do
  if ← less type a b then return -1
  else if ← less type b a then return 1
  else rest

end Diff

def diff_date (date1 date2 : Str) : Except String Int :=
  if date1 = date2 then .ok 0
  else do
    let date1 ← parse_date date1
    let date2 ← parse_date date2
    diff_field "string" date1.year date2.year <|
      diff_field "number" date1.month date2.month <|
      diff_field "string" date1.day date2.day <|
      diff_field "string" date1.hour date2.hour <|
      diff_field "string" date1.min date2.min <|
      diff_field "string" date1.sec date2.sec <| .ok 0

/-! ## Words -/

/-- `(.-)` and a separator. -/
def sepItems (x : Single) (q : Quant) : List Item := [.opens, .rep .any .minus, .closes, .rep x q]

/-- `(.-)%s+` -/
theorem compile_blanks :
    compile ("(.-)".toList ++ "%s+".toList) = some { anchor := false, items := sepItems (.elem (.cls 's')) .plus } := by
  simp [compile, LuaPattern.items, LuaPattern.single, LuaPattern.quant, sepItems]

/-- `(.-):` -/
theorem compile_colon :
    compile ("(.-)".toList ++ ":".toList) = some { anchor := false, items := sepItems (.elem (.lit ':')) .one } := by
  simp [compile, LuaPattern.items, LuaPattern.single, LuaPattern.quant, sepItems]

def IsWord (x : Single) (w : Str) : Prop := w ≠ [] ∧ ∀ c ∈ w, ¬ x.test c

/-- What the quantifier takes before a word. -/
def IsSep (x : Single) (q : Quant) (sep : Str) : Prop :=
  (q = .plus ∨ q = .one ∧ sep.length = 1) ∧ sep ≠ [] ∧ ∀ c ∈ sep, x.test c

instance (x : Single) (w : Str) : Decidable (IsWord x w) := @instDecidableAnd _ _ _ (List.decidableBAll _ w)

instance (x : Single) (q : Quant) (sep : Str) : Decidable (IsSep x q sep) :=
  @instDecidableAnd _ _ _ (@instDecidableAnd _ _ _ (List.decidableBAll _ sep))

/-- A word, and others after separators. -/
def spaced (w : Str) : List (Str × Str) → Str
  | [] => w
  | (sep, v) :: more => w ++ (sep ++ spaced v more)

section Words
variable {x : Single} {q : Quant} {w sep rest : Str}

theorem head_spaced (word : w ≠ []) (more : List (Str × Str)) : (spaced w more).head? = w.head? := by
  cases more with
  | nil => rfl
  | cons pair more => exact List.head?_append_of_ne_nil w word

theorem IsWord.head (word : IsWord x w) (more : List (Str × Str)) : ∀ c ∈ (spaced w more).head?, ¬ x.test c := by
  intro c first
  rw [head_spaced word.1] at first
  exact word.2 c (List.mem_of_mem_head? first)

theorem IsSep.expand {R : Type} {k : Str → Option R} {y : R} (isSep : IsSep x q sep) (stop : ∀ c ∈ rest.head?, ¬ x.test c)
    (here : k rest = some y) : q.expand x.test k (sep ++ rest) = some y := by
  obtain ⟨rfl | ⟨rfl, one⟩, full, all⟩ := isSep
  · cases sep with
    | nil => exact absurd rfl full
    | cons c sep =>
      obtain ⟨first, others⟩ := List.forall_mem_cons.mp all
      rw [List.cons_append, Quant.expand, if_pos first]
      exact LuaPattern.maxExpand_append others stop here
  · obtain ⟨c, rfl⟩ := List.length_eq_one_iff.mp one
    rw [List.singleton_append, Quant.expand, if_pos (all c List.mem_cons_self), here]

theorem IsSep.expand_none {R : Type} (k : Str → Option R) {c : Char} (isSep : IsSep x q sep) (other : ¬ x.test c) (s : Str) :
    q.expand x.test k (c :: s) = none := by
  obtain ⟨rfl | ⟨rfl, -⟩, -, -⟩ := isSep
  · exact if_neg other
  · exact if_neg other

/-- The capture is the word before the separator. -/
theorem doMatch_word (word : ∀ c ∈ w, ¬ x.test c) (isSep : IsSep x q sep) (stop : ∀ c ∈ rest.head?, ¬ x.test c) :
    LuaPattern.doMatch (sepItems x q) (w ++ (sep ++ rest)) [] = some (rest, [.closed w]) := by
  have any : ∀ c ∈ w, Single.any.test c := fun _ _ => rfl
  refine LuaPattern.minExpand_append any ?_ ?_
  · intro v suffix full
    cases v with
    | nil => exact absurd rfl full
    | cons c v =>
      rw [List.cons_append, LuaPattern.doMatch, LuaPattern.doMatch]
      exact isSep.expand_none _ (word c (suffix.subset List.mem_cons_self)) _
  · refine isSep.expand stop ?_
    simp only [LuaPattern.doMatch, LuaPattern.closeCap, LuaPattern.take_before]

theorem captures_closed (start rest w : Str) : captures start rest [.closed w] = [w] := if_neg (List.cons_ne_nil _ _)

theorem search_none (word : ∀ c ∈ w, ¬ x.test c) (isSep : IsSep x q sep) :
    search { anchor := false, items := sepItems x q } w = none := by
  rw [Option.eq_none_iff_forall_not_mem]
  rintro ⟨u, r, ds⟩ found
  obtain ⟨t, rfl, matched⟩ := LuaPattern.search_sound found
  simp only [sepItems, LuaPattern.matches_opens, LuaPattern.matches_minus, LuaPattern.matches_closes] at matched
  obtain ⟨a, b, rfl, -, v, s, rfl, ⟨count, all⟩, -⟩ := matched
  have some : v ≠ [] := by
    rintro rfl
    obtain ⟨rfl | ⟨rfl, -⟩, -, -⟩ := isSep
    · exact absurd count (Nat.not_succ_le_zero 0)
    · exact absurd count Nat.zero_ne_one
  obtain ⟨c, first⟩ := List.exists_mem_of_ne_nil v some
  exact word c (by simp [first]) (all c first)

/-- Words with separators between them come out of the loop. -/
theorem split_from_spaced {more : List (Str × Str)} {fuel size : Nat} (some : IsSep x q sep) (word : IsWord x w)
    (words : ∀ pair ∈ more, IsSep x q pair.1 ∧ IsWord x pair.2) (enough : more.length < fuel) :
    split_from { anchor := false, items := sepItems x q } size fuel (spaced w more) = w :: more.map Prod.snd := by
  induction more generalizing w fuel with
  | nil =>
    obtain ⟨fuel, rfl⟩ := Nat.exists_eq_succ_of_ne_zero (Nat.ne_zero_of_lt enough)
    rw [spaced, split_from, search_none word.2 some]
    dsimp only
    rw [if_neg word.1]
    rfl
  | cons pair more ih =>
    obtain ⟨⟨isSep, next⟩, others⟩ := List.forall_mem_cons.mp words
    obtain ⟨fuel, rfl⟩ := Nat.exists_eq_succ_of_ne_zero (Nat.ne_zero_of_lt enough)
    have found := doMatch_word word.2 isSep (next.head more)
    rw [spaced, split_from, LuaPattern.search_here found]
    dsimp only
    rw [captures_closed, ih next others (Nat.lt_of_succ_lt_succ enough), List.headD_cons, if_pos (.inr word.1),
      List.singleton_append, List.map_cons]

theorem length_spaced (word : w ≠ []) {more : List (Str × Str)} (words : ∀ pair ∈ more, pair.2 ≠ []) :
    more.length < (spaced w more).length := by
  induction more generalizing w with
  | nil => exact List.length_pos_iff.mpr word
  | cons pair more ih =>
    obtain ⟨next, others⟩ := List.forall_mem_cons.mp words
    have longer := ih next others
    have some := List.length_pos_iff.mpr word
    rw [spaced, List.length_cons, List.length_append, List.length_append]
    omega

/-- **`split`** gives back words with separators between them. -/
theorem split_spaced {pPattern : Str} (read : compile ("(.-)".toList ++ pPattern) =
      some { anchor := false, items := sepItems x q }) (some : IsSep x q sep) (word : IsWord x w)
    {more : List (Str × Str)} (words : ∀ pair ∈ more, IsSep x q pair.1 ∧ IsWord x pair.2) :
    split (spaced w more) pPattern = .ok (w :: more.map Prod.snd) := by
  have short := length_spaced word.1 fun pair member => (words pair member).2.1
  rw [split, read]
  dsimp only
  rw [split_from_spaced some word words (by omega)]

end Words

/-- `%s` -/
abbrev blank : Single := .elem (.cls 's')

abbrev colon : Single := .elem (.lit ':')

theorem isSep_blank : IsSep blank .plus [' '] := by decide

theorem isSep_colon : IsSep colon .one [':'] := by decide

/-- The parser goes by the positions of the words. -/
theorem parse_date_spaced {wday day month year clock b₁ b₂ b₃ b₄ : Str} {rest : List (Str × Str)} {time : List Str}
    (word : IsWord blank wday)
    (words : ∀ pair ∈ (b₁, day) :: (b₂, month) :: (b₃, year) :: (b₄, clock) :: rest,
      IsSep blank .plus pair.1 ∧ IsWord blank pair.2)
    (read : split clock ":".toList = .ok time) :
    parse_date (spaced wday ((b₁, day) :: (b₂, month) :: (b₃, year) :: (b₄, clock) :: rest)) =
      .ok {
        wday := index weekNumber (some wday)
        day := some day
        month := index monthNumber (some month)
        year := some year
        hour := time[0]?
        min := time[1]?
        sec := time[2]? } := by
  rw [parse_date, split_spaced compile_blanks isSep_blank word words]
  simp only [List.map_cons, bind, Except.bind, List.getElem?_cons_succ, List.getElem?_cons_zero, read]
  rfl

end CodeClips.Lua.Utils
