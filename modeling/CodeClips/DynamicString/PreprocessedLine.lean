import CodeClips.DynamicString.Ds
import CodeClips.Lib.Lines
import Mathlib.Algebra.GroupWithZero.Nat
import Mathlib.Algebra.Ring.Int.Defs
import Mathlib.Data.List.TakeWhile

/-!
# `ds_get_preprocessed_line`

A line is read and searched as a C string: a comment is cut off by a NUL in its place, behind
which `length` still counts the bytes that were read, and what comes after a NUL of the file is not
seen. `NextLine` says what a call is to return.
-/

namespace CodeClips.DynamicString

section Reading
variable (junk : Nat → Byte)

/-- The characters that are read into the string, whether there is a line, and what is left of the file. -/
def ds_get_line.loop (ds : Ds) : List Byte → Option (Ds × List Byte × Bool)
  | [] => some (ds, [], ds.length ≠ 0)
  | c :: file =>
    if c = char '\n' then some (ds, file, true)
    else (ds_put_char junk ds c).bind fun ds => ds_get_line.loop ds file

/-- `false` stands for `EOF`. -/
def ds_get_line (ds : Ds) (file : List Byte) : Option (Ds × List Byte × Bool) :=
  ds_get_line.loop junk (ds_clear ds) file

/-- The place of a character in front of the NUL. -/
def strchr (s : List Byte) (c : Byte) : Option Nat := (s.takeWhile (· ≠ 0)).findIdx? (· = c)

def strspn (s accept : List Byte) : Nat := (s.takeWhile (· ∈ accept)).length

def spaces : List Byte := [char ' ', char '\t', char '\n']

/-- `++*line_numberp`; an overflow is undefined. -/
def increment (n : BitVec 32) : Option (BitVec 32) := if n = BitVec.intMax 32 then none else some (n + 1)

/-- A NUL in the place of the character that begins a comment. -/
def delete_comment (ds : Ds) : Option Ds :=
  ds.string.bind fun line =>
    match strchr line (char '#') with
    | some comment => ds.write comment [0]
    | none => some ds

/-- What is done with a line, and whether it is not all spaces. -/
def preprocess (ds : Ds) (line_number : Option (BitVec 32)) : Option (Ds × Option (BitVec 32) × Bool) := do
  let ds ← ds_cstr junk ds
  let line_number ← line_number.mapM increment
  let ds ← delete_comment ds
  let line ← ds.string
  let c ← (line)[strspn line spaces]?
  some (ds, line_number, c ≠ 0)

theorem ds_get_line.loop_length {ds ds' : Ds} {file file' : List Byte} {found : Bool}
    (read : ds_get_line.loop junk ds file = some (ds', file', found)) : file'.length ≤ file.length - 1 := by
  induction file generalizing ds with
  | nil =>
    cases read
    exact Nat.zero_le _
  | cons c file ih =>
    rw [loop] at read
    rw [List.length_cons, Nat.add_sub_cancel]
    split_ifs at read
    · cases read
      exact le_rfl
    · obtain ⟨ds₁, -, rest⟩ := Option.bind_eq_some_iff.mp read
      exact (ih rest).trans (Nat.sub_le _ _)

theorem ds_get_line_length {ds ds' : Ds} {file file' : List Byte}
    (read : ds_get_line junk ds file = some (ds', file', true)) : file'.length < file.length := by
  cases file with
  | nil => cases read
  | cons c file => exact Nat.lt_succ_of_le (ds_get_line.loop_length junk read)

/-- The string, what is left of the file, the line number and whether there is a line. -/
def ds_get_preprocessed_line (ds : Ds) (file : List Byte) (line_number : Option (BitVec 32)) :
    Option (Ds × List Byte × Option (BitVec 32) × Bool) :=
  match _read : ds_get_line junk ds file with
  | none => none
  | some (ds, file, false) => some (ds, file, line_number, false)
  | some (ds, file, true) =>
    (preprocess junk ds line_number).bind fun (ds, line_number, found) =>
      if found then some (ds, file, line_number, true) else ds_get_preprocessed_line ds file line_number
termination_by file.length
decreasing_by exact ds_get_line_length junk _read

end Reading

/-! ## The next line -/

/-- What is in front of a comment. -/
def content (l : List Byte) : List Byte := l.takeWhile (· ≠ char '#')

def blankLine (l : List Byte) : Bool := (content l).all (· ∈ spaces)

/-- The call returns the next line that is not blank, without its comment, or `EOF` if there is none;
all the lines read are counted. -/
def Right (file : List Byte) (line_number : Option (BitVec 32))
    (result : Option (Ds × List Byte × Option (BitVec 32) × Bool)) : Prop :=
  let next := nextLine blankLine (lines (char '\n') file)
  ∃ ds file' line_number', result = some (ds, file', line_number', next.line.isSome) ∧
    (∀ l ∈ next.line, ds.Holds (content l)) ∧ lines (char '\n') file' = next.rest ∧
    line_number'.map BitVec.toInt = line_number.map fun n => n.toInt + (next.read : Int)

variable {junk : Nat → Byte} {ds : Ds} {bytes old file l : List Byte} {n : BitVec 32} {line_number : Option (BitVec 32)}

/-! ## Reading a line -/

theorem ds_get_line.loop_spec (holds : ds.Holds bytes) (inside : char '\n' ∉ bytes) :
    ∃ ds' file' l, (ds_get_line.loop junk ds file = some (ds', file', true) ∧ ds'.Holds l ∧
        lines (char '\n') (bytes ++ file) = l :: lines (char '\n') file' ∧ file'.length < (bytes ++ file).length) ∨
      (ds_get_line.loop junk ds file = some (ds', [], false) ∧ ds'.Holds [] ∧ bytes = [] ∧ file = []) := by
  induction file generalizing ds bytes with
  | nil =>
    rw [loop, List.append_nil]
    by_cases empty : bytes = []
    · subst empty
      have length := holds.length
      rw [List.length_nil] at length
      exact ⟨ds, [], [], .inr ⟨by rw [length]; rfl, holds, rfl, rfl⟩⟩
    · have length := holds.length
      have positive := List.length_pos_iff.mpr empty
      have ends : decide (ds.length ≠ 0) = true := decide_eq_true (by omega)
      exact ⟨ds, [], bytes, .inl ⟨by rw [ends], holds, lines_last inside empty, positive⟩⟩
  | cons c file ih =>
    rw [loop]
    split_ifs with newline
    · subst newline
      refine ⟨ds, file, bytes, .inl ⟨rfl, holds, lines_line inside, ?_⟩⟩
      rw [List.length_append, List.length_cons]
      omega
    · obtain ⟨ds₁, put, holds₁⟩ := @Ds.Holds.put_char junk _ _ holds c
      have clean : char '\n' ∉ bytes ++ [c] := by
        rw [List.mem_append, List.mem_singleton, not_or]
        exact ⟨inside, Ne.symm newline⟩
      rw [put, Option.bind_some]
      obtain ⟨ds', file', l, line | ⟨-, -, empty, -⟩⟩ := ih holds₁ clean
      · rw [List.append_assoc, List.singleton_append] at line
        exact ⟨ds', file', l, .inl line⟩
      · exact absurd empty (List.append_ne_nil_of_right_ne_nil _ (List.cons_ne_nil _ _))

/-- A line of the file, or its end. -/
theorem ds_get_line_cases (holds : ds.Holds old) :
    ∃ ds' file' l, (ds_get_line junk ds file = some (ds', file', true) ∧ ds'.Holds l ∧
        lines (char '\n') file = l :: lines (char '\n') file' ∧ file'.length < file.length) ∨
      (ds_get_line junk ds file = some (ds', [], false) ∧ ds'.Holds [] ∧ file = []) := by
  obtain ⟨ds', file', l, line | ⟨ended, empty, -, none⟩⟩ :=
    @ds_get_line.loop_spec junk _ [] file holds.clear (by simp)
  · exact ⟨ds', file', l, .inl line⟩
  · exact ⟨ds', [], [], .inr ⟨ended, empty, none⟩⟩

/-! ## What the C string shows -/

/-- What is seen of a line. -/
def shown (l : List Byte) : List Byte := content (l.takeWhile (· ≠ 0))

def skipped (l : List Byte) : Bool := (shown l).all (· ∈ spaces)

/-- The bytes in front of the first NUL. -/
theorem split_nul (l rest : List Byte) : ∃ rest', l ++ 0 :: rest = l.takeWhile (· ≠ 0) ++ 0 :: rest' := by
  induction l with
  | nil => exact ⟨rest, rfl⟩
  | cons c l ih =>
    obtain ⟨rest', split⟩ := ih
    rw [List.takeWhile_cons]
    split_ifs with nonzero
    · exact ⟨rest', congrArg (c :: ·) split⟩
    · have nul : c = 0 := by
        rw [decide_eq_true_eq, not_not] at nonzero
        exact nonzero
      exact ⟨l ++ 0 :: rest, by rw [nul]; rfl⟩

theorem takeWhile_nul (l rest : List Byte) : (l ++ 0 :: rest).takeWhile (· ≠ 0) = l.takeWhile (· ≠ 0) := by
  induction l with
  | nil => rfl
  | cons c l ih => rw [List.cons_append, List.takeWhile_cons, List.takeWhile_cons, ih]

theorem not_mem_takeWhile (l : List Byte) : 0 ∉ l.takeWhile (· ≠ 0) := by
  intro member
  have nonzero := List.all_eq_true.mp List.all_takeWhile 0 member
  exact absurd rfl (of_decide_eq_true nonzero)

/-- A text in front of a NUL has a character that is no space, which `strspn` stops at. -/
theorem strspn_stops {t : List Byte} (clean : 0 ∉ t) (rest : List Byte) :
    ∃ c, (t ++ 0 :: rest)[strspn (t ++ 0 :: rest) spaces]? = some c ∧ decide (c ≠ 0) = !t.all (· ∈ spaces) := by
  induction t with
  | nil => exact ⟨0, rfl, rfl⟩
  | cons c t ih =>
    rw [List.mem_cons, not_or] at clean
    obtain ⟨c', stops, kind⟩ := ih clean.2
    rw [List.cons_append, strspn, List.takeWhile_cons, List.all_cons]
    by_cases space : c ∈ spaces
    · rw [if_pos (decide_eq_true space), decide_eq_true space, Bool.true_and]
      exact ⟨c', stops, kind⟩
    · rw [if_neg (by rw [decide_eq_true_eq]; exact space), decide_eq_false space, Bool.false_and]
      exact ⟨c, rfl, decide_eq_true (Ne.symm clean.1)⟩

theorem findIdx?_eq_none {t : List Byte} {c : Byte} (absent : c ∉ t) : t.findIdx? (· = c) = none := by
  rw [List.findIdx?_eq_none_iff]
  intro c' member
  apply decide_eq_false
  rintro rfl
  exact absent member

theorem strchr_cases (s : List Byte) (c : Byte) :
    (strchr s c = none ∧ c ∉ s.takeWhile (· ≠ 0)) ∨
      ∃ a b, s = a ++ c :: b ∧ c ∉ a ∧ 0 ∉ a ∧ strchr s c = some a.length := by
  rw [strchr]
  by_cases member : c ∈ s.takeWhile (· ≠ 0)
  · obtain ⟨a, b, split, first⟩ := List.eq_append_cons_of_mem member
    have nul : 0 ∉ a := by
      have clean := not_mem_takeWhile s
      rw [split, List.mem_append, not_or] at clean
      exact clean.1
    have whole := @List.takeWhile_append_dropWhile _ (· ≠ 0) s
    rw [split, List.append_assoc, List.cons_append] at whole
    refine .inr ⟨a, _, whole.symm, first, nul, ?_⟩
    rw [split, List.findIdx?_append, findIdx?_eq_none first, List.findIdx?_cons]
    simp
  · exact .inl ⟨findIdx?_eq_none member, member⟩

theorem increment_cases (n : BitVec 32) :
    (increment n = none ∧ n.toInt + 1 = 2 ^ 31) ∨ ∃ n', increment n = some n' ∧ n'.toInt = n.toInt + 1 := by
  rw [increment]
  split_ifs with last
  · refine .inl ⟨rfl, ?_⟩
    rw [last]
    decide
  · refine .inr ⟨n + 1, rfl, ?_⟩
    have different : n.toNat ≠ 2 ^ 31 - 1 := fun same => last (BitVec.eq_of_toNat_eq same)
    have bound := n.isLt
    rw [BitVec.toInt_eq_toNat_cond, BitVec.toInt_eq_toNat_cond, BitVec.toNat_add, show (1 : BitVec 32).toNat = 1 from rfl]
    split_ifs <;> omega

/-- A NUL in the place of a byte. -/
theorem Ds.Room.cut {a b : List Byte} {c : Byte} (room : ds.Room (a ++ c :: b)) :
    ∃ ds' rest, ds.write a.length [0] = some ds' ∧ ds'.Room (a ++ 0 :: b) ∧ ds'.string = some (a ++ 0 :: (b ++ rest)) := by
  obtain ⟨rest, string, total⟩ := room.string
  rw [List.append_assoc, List.cons_append] at string total
  have written := @writeAt_append _ a (c :: (b ++ rest)) [0] a.length rfl (Nat.le_add_left _ _)
  have after := (length_writeAt written).trans total
  rw [List.append_assoc, List.singleton_append] at written after
  refine ⟨{ ds with string := some (a ++ 0 :: (b ++ rest)) }, rest, ?_, ⟨?_, ⟨rest, ?_, ?_⟩, ?_⟩, rfl⟩
  · rw [Ds.write, string, Option.bind_some, written]
    rfl
  · rw [room.length, List.length_append, List.length_append, List.length_cons, List.length_cons]
  · rw [List.append_assoc, List.cons_append]
  · rw [List.append_assoc, List.cons_append]
    exact after
  · have fits := room.fits
    rw [List.length_append, List.length_cons] at fits ⊢
    exact fits

theorem content_eq {t : List Byte} (absent : char '#' ∉ t) : content t = t := by
  rw [content, List.takeWhile_eq_self_iff]
  intro c member
  apply decide_eq_true
  rintro rfl
  exact absent member

theorem shown_comment {a b : List Byte} (first : char '#' ∉ a) (clean : 0 ∉ a) : shown (a ++ char '#' :: b) = a := by
  have nonzero : ∀ c ∈ a, decide (c ≠ 0) = true := by
    intro c member
    apply decide_eq_true
    rintro rfl
    exact clean member
  have plain : ∀ c ∈ a, decide (c ≠ char '#') = true := by
    intro c member
    apply decide_eq_true
    rintro rfl
    exact first member
  rw [shown, List.takeWhile_append_of_pos nonzero, List.takeWhile_cons, if_pos (by decide), content,
    List.takeWhile_append_of_pos plain, List.takeWhile_cons, if_neg (by decide), List.append_nil]

/-- A NUL at the comment, if one is seen, and where the spaces end. -/
theorem Ds.Room.strip {rest : List Byte} (room : ds.Room l) (string : ds.string = some (l ++ 0 :: rest)) :
    ∃ ds' l' line c, delete_comment ds = some ds' ∧ ds'.Room l' ∧ l'.length = l.length ∧ (char '#' ∉ l → l' = l) ∧
      ds'.string = some line ∧ (line)[strspn line spaces]? = some c ∧ decide (c ≠ 0) = !skipped l := by
  rw [delete_comment, string, Option.bind_some, strchr, takeWhile_nul, ← strchr, skipped]
  obtain ⟨none, absent⟩ | ⟨a, b, split, first, clean, place⟩ := strchr_cases l (char '#')
  · obtain ⟨rest', seen⟩ := split_nul l rest
    obtain ⟨c, stops, kind⟩ := strspn_stops (not_mem_takeWhile l) rest'
    rw [none, shown, content_eq absent]
    exact ⟨ds, l, _, c, rfl, room, rfl, fun _ => rfl, string, seen ▸ stops, kind⟩
  · subst split
    obtain ⟨ds', rest', cut, room', string'⟩ := room.cut
    obtain ⟨c, stops, kind⟩ := strspn_stops clean (b ++ rest')
    rw [place, shown_comment first clean]
    refine ⟨ds', _, _, c, cut, room', ?_, ?_, string', stops, kind⟩
    · rw [List.length_append, List.length_append, List.length_cons, List.length_cons]
    · intro absent
      exact absurd (List.mem_append_right a List.mem_cons_self) absent

/-- The line stays as long as it is. -/
theorem preprocess_cases (holds : ds.Holds l) (line_number : Option (BitVec 32)) :
    (preprocess junk ds line_number = none ∧ ∃ n ∈ line_number, n.toInt + 1 = 2 ^ 31) ∨
      ∃ ds' l' line_number', preprocess junk ds line_number = some (ds', line_number', !skipped l) ∧ ds'.Holds l' ∧
        l'.length = l.length ∧ (char '#' ∉ l → l' = l) ∧
        line_number'.map BitVec.toInt = line_number.map fun n => n.toInt + 1 := by
  obtain ⟨ds₁, rest, cstr, room, string⟩ := @Ds.Holds.cstr junk _ _ holds
  obtain ⟨ds', l', line, c, strip, room', length, same, string', read, kind⟩ := room.strip string
  rw [preprocess, cstr, Option.bind_eq_bind, Option.bind_some]
  have counted : (line_number.mapM increment = none ∧ ∃ n ∈ line_number, n.toInt + 1 = 2 ^ 31) ∨
      ∃ line_number', line_number.mapM increment = some line_number' ∧
        line_number'.map BitVec.toInt = line_number.map fun n => n.toInt + 1 := by
    cases line_number with
    | none => exact .inr ⟨none, rfl, rfl⟩
    | some n =>
      obtain ⟨overflow, last⟩ | ⟨n', next, value⟩ := increment_cases n
      · refine .inl ⟨?_, n, rfl, last⟩
        rw [Option.mapM_some, overflow]
        rfl
      · refine .inr ⟨some n', ?_, congrArg some value⟩
        rw [Option.mapM_some, next]
        rfl
  obtain ⟨overflow, last⟩ | ⟨line_number', next, value⟩ := counted
  · exact .inl ⟨by rw [overflow]; rfl, last⟩
  · refine .inr ⟨ds', l', line_number', ?_, .inr room', length, same, value⟩
    show (line_number.mapM increment >>= fun line_number => delete_comment ds₁ >>= fun ds => ds.string >>= fun line =>
      (line)[strspn line spaces]? >>= fun c => some (ds, line_number, decide (c ≠ 0))) = _
    rw [next, strip, Option.bind_eq_bind, Option.bind_some, Option.bind_eq_bind, Option.bind_some, string',
      Option.bind_eq_bind, Option.bind_some, read, ← kind]
    rfl

/-! ## A call -/

variable {ds' : Ds} {file' : List Byte}

theorem get_preprocessed_line_end (read : ds_get_line junk ds file = some (ds', file', false)) :
    ds_get_preprocessed_line junk ds file line_number = some (ds', file', line_number, false) := by
  rw [ds_get_preprocessed_line]
  split
  · rename_i none
    cases none.symm.trans read
  · rename_i ended
    cases ended.symm.trans read
    rfl
  · rename_i line
    cases line.symm.trans read

theorem get_preprocessed_line_line (read : ds_get_line junk ds file = some (ds', file', true)) :
    ds_get_preprocessed_line junk ds file line_number =
      (preprocess junk ds' line_number).bind fun (ds, line_number, found) =>
        if found then some (ds, file', line_number, true) else ds_get_preprocessed_line junk ds file' line_number := by
  rw [ds_get_preprocessed_line]
  split
  · rename_i none
    cases none.symm.trans read
  · rename_i ended
    cases ended.symm.trans read
  · rename_i line
    cases line.symm.trans read
    rfl

/-- What a call is that returns the next of some lines, unless the line number overflows. -/
def Returns (next : NextLine (List Byte)) (line_number : Option (BitVec 32))
    (result : Option (Ds × List Byte × Option (BitVec 32) × Bool)) : Prop :=
  (result = none ∧ ∃ n ∈ line_number, 2 ^ 31 ≤ n.toInt + next.read) ∨
    ∃ ds l' file line_number', result = some (ds, file, line_number', next.line.isSome) ∧ ds.Holds l' ∧
      (∀ l ∈ next.line, l'.length = l.length ∧ (char '#' ∉ l → l' = l)) ∧ lines (char '\n') file = next.rest ∧
      line_number'.map BitVec.toInt = line_number.map fun n => n.toInt + (next.read : Int)

/-- A line that is read before. -/
theorem Returns.skip {next : NextLine (List Byte)} {line_number' : Option (BitVec 32)}
    {result : Option (Ds × List Byte × Option (BitVec 32) × Bool)} (returns : Returns next line_number' result)
    (counted : line_number'.map BitVec.toInt = line_number.map fun n => n.toInt + 1) :
    Returns { next with read := next.read + 1 } line_number result := by
  obtain ⟨overflow, n', given, last⟩ | ⟨ds, l', file, line_number₂, done, holds, same, rest, count⟩ := returns
  · obtain rfl : line_number' = some n' := given
    obtain ⟨n, given', value⟩ := Option.map_eq_some_iff.mp counted.symm
    refine .inl ⟨overflow, n, given', ?_⟩
    dsimp only
    omega
  · refine .inr ⟨ds, l', file, line_number₂, done, holds, same, rest, ?_⟩
    have values := congrArg (Option.map (· + (next.read : Int))) counted
    rw [Option.map_map, Option.map_map] at values
    rw [count]
    refine values.trans (congrArg (fun f => Option.map f line_number) (funext fun n => ?_))
    dsimp only [Function.comp_apply]
    omega

/-- A call returns the next line that is not skipped. -/
theorem call_returns (holds : ds.Holds old) (file : List Byte) (line_number : Option (BitVec 32)) :
    Returns (nextLine skipped (lines (char '\n') file)) line_number
      (ds_get_preprocessed_line junk ds file line_number) := by
  induction length : file.length using Nat.strong_induction_on generalizing ds old file line_number with
  | _ size ih =>
    obtain ⟨ds₁, file₁, l, ⟨read, holds₁, split, fewer⟩ | ⟨ended, empty, rfl⟩⟩ := @ds_get_line_cases junk ds old file holds
    · rw [get_preprocessed_line_line read, split, nextLine]
      obtain ⟨overflow, n, given, last⟩ | ⟨ds₂, l', line_number₂, line, holds₂, same_length, same, counted⟩ :=
        @preprocess_cases junk ds₁ l holds₁ line_number
      · refine .inl ⟨by rw [overflow]; rfl, n, given, ?_⟩
        split_ifs
        · dsimp only
          omega
        · dsimp only
          omega
      · rw [line, Option.bind_some]
        cases skip : skipped l with
        | false =>
          refine .inr ⟨ds₂, l', file₁, line_number₂, rfl, holds₂, ?_, rfl, counted⟩
          rintro _ ⟨⟩
          exact ⟨same_length, same⟩
        | true => exact (ih file₁.length (length ▸ fewer) holds₂ file₁ line_number₂ rfl).skip counted
    · rw [get_preprocessed_line_end ended]
      refine .inr ⟨ds₁, [], [], line_number, rfl, empty, ?_, rfl, ?_⟩
      · rintro _ ⟨⟩
      · refine congrArg (fun f => Option.map f line_number) (funext fun n => ?_)
        exact (Int.add_zero _).symm

/-! ## Whether a call is right -/

/-- The line has no comment, and what comes behind its spaces is no NUL. -/
def Plain (l : List Byte) : Prop := char '#' ∉ l ∧ ∀ c ∈ (l.dropWhile (· ∈ spaces)).head?, c ≠ 0

instance : DecidablePred Plain := fun l =>
  inferInstanceAs (Decidable (char '#' ∉ l ∧ ∀ c ∈ (l.dropWhile (· ∈ spaces)).head?, c ≠ 0))

/-- The spaces before a NUL. -/
theorem all_spaces_iff (l : List Byte) :
    (l.takeWhile (· ≠ 0)).all (· ∈ spaces) = true ↔ ∀ c ∈ (l.dropWhile (· ∈ spaces)).head?, c = 0 := by
  induction l with
  | nil => simp
  | cons c l ih =>
    rw [List.dropWhile_cons, List.takeWhile_cons]
    by_cases space : c ∈ spaces
    · have nonzero : c ≠ 0 := by
        rintro rfl
        exact absurd space (by decide)
      rw [if_pos (decide_eq_true space), if_pos (decide_eq_true nonzero), List.all_cons, decide_eq_true space,
        Bool.true_and]
      exact ih
    · have first : ∀ P : Byte → Prop, (∀ c' ∈ (c :: l).head?, P c') ↔ P c := by simp
      rw [@if_neg (decide (c ∈ spaces) = true) _ (by rw [decide_eq_true_eq]; exact space), first]
      by_cases nul : c = 0
      · rw [if_neg (by rw [decide_eq_true_eq]; exact not_not.mpr nul)]
        exact iff_of_true rfl nul
      · rw [if_pos (decide_eq_true nul), List.all_cons, decide_eq_false space, Bool.false_and]
        exact iff_of_false Bool.false_ne_true nul

theorem skipped_iff (absent : char '#' ∉ l) : skipped l = true ↔ ∀ c ∈ (l.dropWhile (· ∈ spaces)).head?, c = 0 := by
  have inside : char '#' ∉ l.takeWhile (· ≠ 0) := fun member => absent ((List.takeWhile_sublist _).subset member)
  rw [skipped, shown, content_eq inside, all_spaces_iff]

theorem skipped_of_blankLine (blank : blankLine l = true) : skipped l = true := by
  have inside : shown l = (content l).takeWhile (· ≠ 0) := by
    rw [shown, content, content, List.takeWhile_takeWhile, List.takeWhile_takeWhile]
    simp only [and_comm]
  rw [blankLine, List.all_eq_true] at blank
  rw [skipped, inside, List.all_eq_true]
  exact fun c member => blank c ((List.takeWhile_sublist _).subset member)

theorem skipped_eq_false_iff (text : blankLine l = false) (absent : char '#' ∉ l) : skipped l = false ↔ Plain l := by
  rw [blankLine, content_eq absent, List.all_eq_false] at text
  obtain ⟨c, inside, other⟩ := text
  have some_text : l.dropWhile (· ∈ spaces) ≠ [] := fun none => other (List.dropWhile_eq_nil_iff.mp none c inside)
  rw [← Bool.not_eq_true, skipped_iff absent, Plain]
  cases rest : l.dropWhile (· ∈ spaces) with
  | nil => exact absurd rest some_text
  | cons c rest => simp [absent]

theorem not_mem_of_length (same : (content l).length = l.length) : char '#' ∉ l := by
  intro inside
  have whole : content l = l := (List.takeWhile_prefix _).eq_of_length same
  exact absurd rfl (of_decide_eq_true (List.takeWhile_eq_self_iff.mp whole _ inside))

section Found
variable {ls : List (List Byte)}

theorem nextLine_skipped (kept : ∀ l ∈ (nextLine blankLine ls).line, skipped l = false) :
    nextLine skipped ls = nextLine blankLine ls :=
  nextLine_congr (fun _ => skipped_of_blankLine) kept

theorem nextLine_skipped_of_plain (plain : ∀ l ∈ (nextLine blankLine ls).line, Plain l) :
    nextLine skipped ls = nextLine blankLine ls := by
  apply nextLine_skipped
  intro l next
  exact (skipped_eq_false_iff (nextLine_line next) (plain l next).1).mpr (plain l next)

/-- The line is found where what is found has the same lines behind it. -/
theorem not_skipped_of_found (next : l ∈ (nextLine blankLine ls).line) (found : (nextLine skipped ls).line.isSome = true)
    (rest : (nextLine skipped ls).rest = (nextLine blankLine ls).rest) : skipped l = false := by
  cases skip : skipped l with
  | false => rfl
  | true =>
    have fewer := nextLine_skips (fun _ => skipped_of_blankLine) next skip found
    rw [rest] at fewer
    exact absurd fewer (Nat.lt_irrefl _)

end Found

/-- A call is right exactly if the line it is to return is plain and the lines can be counted. -/
theorem right_iff (holds : ds.Holds old) (file : List Byte) (line_number : Option (BitVec 32)) :
    Right file line_number (ds_get_preprocessed_line junk ds file line_number) ↔
      (∀ l ∈ (nextLine blankLine (lines (char '\n') file)).line, Plain l) ∧
        ∀ n ∈ line_number, n.toInt + (nextLine blankLine (lines (char '\n') file)).read < 2 ^ 31 := by
  have returns := @call_returns junk _ _ holds file line_number
  constructor
  · rintro ⟨ds', file', line_number', done, contents, rest, counted⟩
    obtain ⟨overflow, -⟩ | ⟨ds₁, l', file₁, line_number₁, done₁, holds₁, same, rest₁, -⟩ := returns
    · cases overflow.symm.trans done
    · have results := done₁.symm.trans done
      simp only [Option.some.injEq, Prod.mk.injEq] at results
      obtain ⟨rfl, rfl, rfl, flag⟩ := results
      refine ⟨?_, ?_⟩
      · intro l next
        have found := flag.trans (Option.isSome_of_mem next)
        have skip := not_skipped_of_found next found (rest₁.symm.trans rest)
        rw [nextLine_skipped fun l' next' => Option.mem_unique next next' ▸ skip] at same
        -- the length is that of the line with its comment
        have length := (contents l next).length.symm.trans (holds₁.length.trans (same l next).1)
        exact (skipped_eq_false_iff (nextLine_line next) (not_mem_of_length length)).mp skip
      · intro n given
        obtain rfl : line_number = some n := given
        obtain ⟨n', -, value⟩ := Option.map_eq_some_iff.mp counted
        have bound := @BitVec.toInt_lt 32 n'
        rw [value] at bound
        exact bound
  · rintro ⟨plain, fits⟩
    rw [nextLine_skipped_of_plain plain] at returns
    obtain ⟨-, n, given, last⟩ | ⟨ds', l', file', line_number', done, holds', same, rest, counted⟩ := returns
    · exact absurd (fits n given) (Int.not_lt.mpr last)
    · refine ⟨ds', file', line_number', done, ?_, rest, counted⟩
      intro l next
      rw [content_eq (plain l next).1, ← (same l next).2 (plain l next).1]
      exact holds'

/-! ## Reading a file -/

/-- So many calls one after the other, each of them right. -/
def CallsRight (junk : Nat → Byte) : Nat → Ds → List Byte → Option (BitVec 32) → Prop
  | 0, _, _, _ => True
  | k + 1, ds, file, line_number =>
    Right file line_number (ds_get_preprocessed_line junk ds file line_number) ∧
      ∀ ds' file' line_number' found,
        ds_get_preprocessed_line junk ds file line_number = some (ds', file', line_number', found) →
          CallsRight junk k ds' file' line_number'

/-- Every line that is not blank is plain, and the lines can be counted. -/
def Readable (file : List Byte) (line_number : Option (BitVec 32)) : Prop :=
  (∀ l ∈ lines (char '\n') file, blankLine l = false → Plain l) ∧
    ∀ n ∈ line_number, n.toInt + (lines (char '\n') file).length < 2 ^ 31

theorem Readable.next (readable : Readable file line_number) :
    (∀ l ∈ (nextLine blankLine (lines (char '\n') file)).line, Plain l) ∧
      ∀ n ∈ line_number, n.toInt + (nextLine blankLine (lines (char '\n') file)).read < 2 ^ 31 := by
  have length := @length_nextLine _ blankLine (lines (char '\n') file)
  refine ⟨(forall_nextLine.mp readable.1).1, ?_⟩
  intro n given
  have fits := readable.2 n given
  omega

/-- A file is readable if its next line is and the rest of it. -/
theorem readable_iff {line_number' : Option (BitVec 32)}
    (rest : lines (char '\n') file' = (nextLine blankLine (lines (char '\n') file)).rest)
    (counted : line_number'.map BitVec.toInt =
      line_number.map fun n => n.toInt + ((nextLine blankLine (lines (char '\n') file)).read : Int)) :
    Readable file line_number ↔
      (∀ l ∈ (nextLine blankLine (lines (char '\n') file)).line, Plain l) ∧ Readable file' line_number' := by
  have length := @length_nextLine _ blankLine (lines (char '\n') file)
  rw [Readable, Readable, @forall_nextLine _ blankLine, ← rest, and_assoc]
  rw [← rest] at length
  refine and_congr_right fun _ => and_congr_right fun _ => ?_
  constructor
  · intro fits n' given
    obtain rfl : line_number' = some n' := given
    obtain ⟨n, given, value⟩ := Option.map_eq_some_iff.mp counted.symm
    have fit := fits n given
    omega
  · intro fits n given
    obtain rfl : line_number = some n := given
    obtain ⟨n', given, value⟩ := Option.map_eq_some_iff.mp counted
    have fit := fits n' given
    dsimp only at value
    omega

theorem call_holds (holds : ds.Holds old) {line_number' : Option (BitVec 32)} {found : Bool}
    (done : ds_get_preprocessed_line junk ds file line_number = some (ds', file', line_number', found)) :
    ∃ bytes, ds'.Holds bytes := by
  obtain ⟨overflow, -⟩ | ⟨ds₁, l', file₁, line_number₁, done₁, holds₁, -⟩ := @call_returns junk _ _ holds file line_number
  · cases overflow.symm.trans done
  · have results := done₁.symm.trans done
    simp only [Option.some.injEq, Prod.mk.injEq] at results
    exact ⟨l', results.1 ▸ holds₁⟩

/-- However often it is called for a file, each call returns the next line without its comment, counts the
lines that are read and fails at the end of the file only, if and only if every line that is not blank is
plain and the lines of the file can be counted. -/
theorem ds_get_preprocessed_line_right_iff (holds : ds.Holds old) (file : List Byte) (line_number : Option (BitVec 32)) :
    (∀ k, CallsRight junk k ds file line_number) ↔
      (∀ l ∈ lines (char '\n') file, blankLine l = false → Plain l) ∧
        ∀ n ∈ line_number, n.toInt + (lines (char '\n') file).length < 2 ^ 31 := by
  constructor
  · intro right
    show Readable file line_number
    induction length : (lines (char '\n') file).length using Nat.strong_induction_on
      generalizing ds old file line_number with
    | _ size ih =>
      obtain none | some_lines := eq_or_ne (lines (char '\n') file) []
      · rw [Readable, none]
        refine ⟨by simp, fun n _ => ?_⟩
        exact (Int.add_zero n.toInt).symm ▸ BitVec.toInt_lt
      · have first := (right 1).1
        obtain ⟨ds', file', line_number', done, -, rest, counted⟩ := id first
        obtain ⟨bytes, holds'⟩ := call_holds holds done
        have fewer := nextLine_rest (p := blankLine) some_lines
        rw [← rest, length] at fewer
        refine (readable_iff rest counted).mpr ⟨((right_iff holds file line_number).mp first).1, ?_⟩
        exact ih _ fewer holds' file' line_number' (fun k => (right (k + 1)).2 _ _ _ _ done) rfl
  · rintro readable k
    change Readable file line_number at readable
    induction k generalizing ds old file line_number with
    | zero => trivial
    | succ k ih =>
      have right := (@right_iff junk _ _ holds file line_number).mpr readable.next
      refine ⟨right, fun ds₁ file₁ line_number₁ found done₁ => ?_⟩
      obtain ⟨ds', file', line_number', done, -, rest, counted⟩ := right
      have results := done.symm.trans done₁
      simp only [Option.some.injEq, Prod.mk.injEq] at results
      obtain ⟨rfl, rfl, rfl, -⟩ := results
      obtain ⟨bytes, holds'⟩ := call_holds holds done
      exact ih holds' file' line_number' ((readable_iff rest counted).mp readable).2

theorem ds_get_preprocessed_line_right_iff_two : CallsRight (fun _ => 170) 2 ds_init
    [char ' ', char '\n', char 'a', char ' ', char '\n', char '\t'] (some 7) :=
  (ds_get_preprocessed_line_right_iff holds_ds_init _ _).mpr ⟨by decide, by
    rintro _ ⟨⟩
    decide⟩ 2

/-- A line with a comment is returned with the length that it has with it. -/
theorem ds_get_preprocessed_line_stale :
    ¬ CallsRight (fun _ => 170) 1 ds_init [char 'a', char '#', char 'b'] none := by
  intro right
  have plain := ((right_iff holds_ds_init _ _).mp right.1).1
  exact absurd (plain _ rfl) (by decide)

end CodeClips.DynamicString
