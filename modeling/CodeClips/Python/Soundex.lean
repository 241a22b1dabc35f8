import Mathlib.Data.List.Nodup

/-!
# Soundex

The guard of `soundex` lets everything through but the empty string, since it asks for a string
that is empty *and* has other characters than letters. What is then returned or raised depends on
the first character, which stays as it is, and on the table for the others (`soundex_iff`).
`upper` and `isalpha` are those of the strings of Python, of one kind or the other.
-/

namespace CodeClips.Soundex

abbrev Str := List Char

inductive KeyError
  | key (c : Char)
  deriving DecidableEq

def charToSoundex : Char → Option Char
  | 'A' => some '9'
  | 'B' => some '1'
  | 'C' => some '2'
  | 'D' => some '3'
  | 'E' => some '9'
  | 'F' => some '1'
  | 'G' => some '2'
  | 'H' => some '9'
  | 'I' => some '9'
  | 'J' => some '2'
  | 'K' => some '2'
  | 'L' => some '4'
  | 'M' => some '5'
  | 'N' => some '5'
  | 'O' => some '9'
  | 'P' => some '1'
  | 'Q' => some '2'
  | 'R' => some '6'
  | 'S' => some '2'
  | 'T' => some '3'
  | 'U' => some '9'
  | 'V' => some '1'
  | 'W' => some '9'
  | 'X' => some '2'
  | 'Y' => some '9'
  | 'Z' => some '2'
  | _ => none

/-- `charToSoundex[s]` -/
def lookup (s : Char) : Except KeyError Char :=
  match charToSoundex s with
  | some digit => .ok digit
  | none => .error (.key s)

/-- `sorted(set(digits), key=digits.index)`: each element where it comes first. -/
def distinct : Str → Str
  | [] => []
  | c :: s => c :: (distinct s).filter (· ≠ c)

def soundex (upper : Char → Char) (isalpha : Char → Bool) (source : Str) : Except KeyError Str :=
  -- An empty string has no letters either.
  if source = [] ∧ ¬ (source ≠ [] ∧ source.all isalpha) then .ok "0000".toList
  else
    match source.map upper with
    | [] => .ok "0000".toList
    | first :: rest => do
      let digits := first :: (← rest.mapM lookup)
      let digits1 := distinct digits
      let digits2 := digits1.filter (· ≠ '9')
      return (digits2 ++ List.replicate (4 - digits2.length) '0').take 4

/-! ## The distinct digits -/

section Distinct
variable {s : Str} {c d : Char}

theorem mem_distinct : d ∈ distinct s ↔ d ∈ s := by
  induction s with
  | nil => exact Iff.rfl
  | cons c s ih =>
    rw [distinct, List.mem_cons, List.mem_cons, List.mem_filter, ih, decide_eq_true_iff]
    tauto

/-- The list is that of the set, sorted by the first position. -/
theorem distinct_sorted (s : Str) : (distinct s).Nodup ∧ (distinct s).Pairwise fun c d => s.idxOf c < s.idxOf d := by
  induction s with
  | nil => exact ⟨.nil, .nil⟩
  | cons c s ih =>
    obtain ⟨nodup, sorted⟩ := ih
    have others : ∀ d ∈ (distinct s).filter (· ≠ c), d ≠ c := fun d member => of_decide_eq_true (List.mem_filter.mp member).2
    refine ⟨List.nodup_cons.mpr ⟨fun again => others c again rfl, nodup.filter _⟩, List.pairwise_cons.mpr ⟨?_, ?_⟩⟩
    · intro d member
      rw [List.idxOf_cons_self, List.idxOf_cons_ne s (others d member).symm]
      exact Nat.succ_pos _
    · refine (sorted.filter (· ≠ c)).imp_of_mem ?_
      intro d e left right before
      rw [List.idxOf_cons_ne s (others d left).symm, List.idxOf_cons_ne s (others e right).symm]
      exact Nat.succ_lt_succ before

end Distinct

/-! ## Codes -/

/-- A letter and three digits. -/
def IsCode (isalpha : Char → Bool) (code : Str) : Prop :=
  ∃ letter digits, code = letter :: digits ∧ isalpha letter ∧ digits.length = 3 ∧ ∀ d ∈ digits, d.isDigit

/-- `soundex` returns `0000` or a code. -/
def WellFormed (upper : Char → Char) (isalpha : Char → Bool) (source : Str) : Prop :=
  ∃ code, soundex upper isalpha source = .ok code ∧ (code = "0000".toList ∨ IsCode isalpha code)

/-- All but the first character are in the table, and the first is a letter, or a `0` or `9` with
nothing but vowels after it. -/
def Codable (upper : Char → Char) (isalpha : Char → Bool) : Str → Prop
  | [] => True
  | first :: rest =>
    (∀ c ∈ rest, charToSoundex (upper c) ≠ none) ∧
    (isalpha (upper first) ∨
      (upper first = '0' ∨ upper first = '9') ∧ ∀ c ∈ rest, charToSoundex (upper c) = some '9')

section Codes
variable {upper : Char → Char} {isalpha : Char → Bool} {c d first : Char} {s rest codes : Str}

/-- The table has digits from 1 on. -/
theorem code_digit (code : charToSoundex c = some d) : d.isDigit ∧ d ≠ '0' := by
  unfold charToSoundex at code
  split at code <;> cases code <;> decide

theorem mapM_lookup (known : ∀ c ∈ s, charToSoundex c ≠ none) : s.mapM lookup = .ok (s.filterMap charToSoundex) := by
  induction s with
  | nil => rfl
  | cons c s ih =>
    obtain ⟨here, others⟩ := List.forall_mem_cons.mp known
    obtain ⟨d, code⟩ := Option.ne_none_iff_exists'.mp here
    rw [List.mapM_cons, ih others, lookup, code, List.filterMap_cons_some code]
    rfl

theorem mapM_lookup_error (member : c ∈ s) (unknown : charToSoundex c = none) : ∃ e, s.mapM lookup = .error e := by
  induction s with
  | nil => cases member
  | cons b s ih =>
    rw [List.mapM_cons]
    cases first : lookup b with
    | error e => exact ⟨e, rfl⟩
    | ok d =>
      have later : c ∈ s := by
        rcases List.mem_cons.mp member with rfl | later
        · rw [lookup, unknown] at first
          cases first
        · exact later
      obtain ⟨e, error⟩ := ih later
      rw [error]
      exact ⟨e, rfl⟩

/-- What is padded and cut. -/
def pad (digits : Str) : Str := (digits ++ List.replicate (4 - digits.length) '0').take 4

theorem pad_cons (c : Char) (s : Str) : ∃ r, pad (c :: s) = c :: r ∧ r.length = 3 ∧ ∀ d ∈ r, d ∈ s ∨ d = '0' := by
  refine ⟨(s ++ List.replicate (4 - (s.length + 1)) '0').take 3, rfl, ?_, ?_⟩
  · rw [List.length_take, List.length_append, List.length_replicate]
    omega
  · intro d member
    rcases List.mem_append.mp (List.mem_of_mem_take member) with inside | zero
    · exact .inl inside
    · exact .inr (List.eq_of_mem_replicate zero)

theorem soundex_cons : soundex upper isalpha (first :: rest) =
    ((rest.map upper).mapM lookup).map fun codes => pad ((distinct (upper first :: codes)).filter (· ≠ '9')) := by
  rw [soundex, if_neg (by simp), List.map_cons]
  dsimp only
  cases (rest.map upper).mapM lookup <;> rfl

/-- The digits that are left behind the first character. -/
def consonants (first : Char) (codes : Str) : Str := ((distinct codes).filter (· ≠ first)).filter (· ≠ '9')

theorem mem_consonants : d ∈ consonants first codes ↔ d ∈ codes ∧ d ≠ first ∧ d ≠ '9' := by
  rw [consonants, List.mem_filter, List.mem_filter, mem_distinct, decide_eq_true_iff, decide_eq_true_iff, and_assoc]

theorem filter_distinct (first : Char) (codes : Str) : (distinct (first :: codes)).filter (· ≠ '9') =
    if first = '9' then consonants first codes else first :: consonants first codes := by
  rw [distinct, consonants]
  split_ifs with nine
  · rw [List.filter_cons_of_neg (by simp [nine])]
  · rw [List.filter_cons_of_pos (by simpa using nine)]

end Codes

section Returned
variable {upper : Char → Char} {isalpha : Char → Bool} {first : Char} {codes : Str}

theorem consonants_eq_nil (first_eq : first = '0' ∨ first = '9') (table : ∀ d ∈ codes, d.isDigit ∧ d ≠ '0') :
    consonants first codes = [] ↔ ∀ d ∈ codes, d = '9' := by
  rw [List.eq_nil_iff_forall_not_mem]
  constructor
  · intro none d member
    by_contra other
    refine none d (mem_consonants.mpr ⟨member, ?_, other⟩)
    rcases first_eq with rfl | rfl
    · exact (table d member).2
    · exact other
  · intro nines d member
    obtain ⟨inside, -, other⟩ := mem_consonants.mp member
    exact other (nines d inside)

/-- A vowel's digit at the beginning is taken away, so that the next one comes first. -/
theorem pad_nine_iff (digits : ∀ c, c.isDigit → ¬ isalpha c) (table : ∀ d ∈ codes, d.isDigit ∧ d ≠ '0') :
    (pad (consonants '9' codes) = "0000".toList ∨ IsCode isalpha (pad (consonants '9' codes))) ↔ ∀ d ∈ codes, d = '9' := by
  rw [← consonants_eq_nil (.inr rfl) table]
  cases some : consonants '9' codes with
  | nil => exact iff_of_true (.inl rfl) rfl
  | cons d r =>
    have member : d ∈ consonants '9' codes := by
      rw [some]
      exact List.mem_cons_self
    have digit := table d (mem_consonants.mp member).1
    obtain ⟨r', padded, -⟩ := pad_cons d r
    refine iff_of_false ?_ (List.cons_ne_nil d r)
    rw [padded]
    rintro (zeros | ⟨letter, rest, split, isLetter, -⟩)
    · exact digit.2 (List.cons.inj zeros).1
    · obtain ⟨rfl, -⟩ := List.cons.inj split
      exact digits d digit.1 isLetter

/-- Another character stays at the beginning. -/
theorem pad_first_iff (table : ∀ d ∈ codes, d.isDigit ∧ d ≠ '0') :
    (pad (first :: consonants first codes) = "0000".toList ∨ IsCode isalpha (pad (first :: consonants first codes))) ↔
      isalpha first ∨ first = '0' ∧ ∀ d ∈ codes, d = '9' := by
  obtain ⟨r, padded, length, members⟩ := pad_cons first (consonants first codes)
  have isDigit : ∀ d ∈ r, d.isDigit := by
    intro d member
    rcases members d member with inside | rfl
    · exact (table d (mem_consonants.mp inside).1).1
    · rfl
  constructor
  · rintro (zeros | ⟨letter, rest, split, isLetter, -⟩)
    · have four : "0000".toList = ['0', '0', '0', '0'] := rfl
      rw [padded, four] at zeros
      obtain ⟨rfl, tail⟩ := List.cons.inj zeros
      refine .inr ⟨rfl, (consonants_eq_nil (.inl rfl) table).mp ?_⟩
      cases some : consonants '0' codes with
      | nil => rfl
      | cons d s =>
        have member : d ∈ consonants '0' codes := by
          rw [some]
          exact List.mem_cons_self
        have next : r.head? = d := by
          rw [some] at padded
          have second : (pad ('0' :: d :: s)).tail = r := congrArg List.tail padded
          rw [← second]
          rfl
        rw [tail] at next
        cases next
        exact absurd rfl (mem_consonants.mp member).2.1
    · rw [padded] at split
      obtain ⟨rfl, -⟩ := List.cons.inj split
      exact .inl isLetter
  · rintro (isLetter | ⟨rfl, nines⟩)
    · exact .inr ⟨first, r, padded, isLetter, length, isDigit⟩
    · rw [(consonants_eq_nil (.inl rfl) table).mpr nines]
      exact .inl rfl

end Returned

/-- **What comes out**: `0000` or a code exactly for the strings all of whose characters but the
first are letters, and whose first is one too (or a `0` or `9` followed by nothing but vowels). -/
theorem soundex_iff (upper : Char → Char) (isalpha : Char → Bool) (digits : ∀ c, c.isDigit → ¬ isalpha c) (source : Str) :
    WellFormed upper isalpha source ↔ Codable upper isalpha source := by
  cases source with
  | nil => exact iff_of_true ⟨_, rfl, .inl rfl⟩ trivial
  | cons first rest =>
    rw [WellFormed, Codable, soundex_cons]
    by_cases known : ∀ c ∈ rest.map upper, charToSoundex c ≠ none
    · have codes (d : Char) (member : d ∈ (rest.map upper).filterMap charToSoundex) : d.isDigit ∧ d ≠ '0' := by
        obtain ⟨c, -, code⟩ := List.mem_filterMap.mp member
        exact code_digit code
      have vowels : (∀ d ∈ (rest.map upper).filterMap charToSoundex, d = '9') ↔ ∀ c ∈ rest, charToSoundex (upper c) = some '9' := by
        constructor
        · intro nines c member
          obtain ⟨d, code⟩ := Option.ne_none_iff_exists'.mp (known (upper c) (List.mem_map_of_mem member))
          rw [code, nines d (List.mem_filterMap.mpr ⟨upper c, List.mem_map_of_mem member, code⟩)]
        · intro nines d member
          obtain ⟨c, inside, code⟩ := List.mem_filterMap.mp member
          obtain ⟨b, source, rfl⟩ := List.mem_map.mp inside
          exact (Option.some.inj ((nines b source).symm.trans code)).symm
      rw [mapM_lookup known, and_iff_right (List.forall_mem_map.mp known), ← vowels]
      simp only [Except.map, Except.ok.injEq, exists_eq_left', filter_distinct]
      split_ifs with nine
      · rw [nine, pad_nine_iff digits codes, or_iff_right (digits '9' rfl), and_iff_right (.inr rfl)]
      · rw [pad_first_iff codes, or_iff_left nine]
    · push Not at known
      obtain ⟨c, member, unknown⟩ := known
      obtain ⟨e, error⟩ := mapM_lookup_error member unknown
      rw [error]
      obtain ⟨b, inside, rfl⟩ := List.mem_map.mp member
      exact iff_of_false (fun ⟨code, returned, _⟩ => by cases returned) fun codable => codable.1 b inside unknown

theorem isDigit_not_isAlpha {c : Char} (digit : c.isDigit) : ¬ c.isAlpha := by
  have most : c.val.toNat ≤ 57 := UInt32.le_iff_toNat_le.mp (of_decide_eq_true (Bool.and_eq_true_iff.mp digit).2)
  intro alpha
  have letter : c.isUpper = true ∨ c.isLower = true := Bool.or_eq_true_iff.mp alpha
  rcases letter with upper | lower
  · have least : 65 ≤ c.val.toNat := UInt32.le_iff_toNat_le.mp (of_decide_eq_true upper).1
    omega
  · have least : 97 ≤ c.val.toNat := UInt32.le_iff_toNat_le.mp (of_decide_eq_true (Bool.and_eq_true_iff.mp lower).1)
    omega

theorem soundex_iff_pilgrim : WellFormed Char.toUpper Char.isAlpha "Pilgrim".toList ↔ Codable Char.toUpper Char.isAlpha "Pilgrim".toList :=
  soundex_iff _ _ (fun _ digit => isDigit_not_isAlpha digit) _

/-- A digit behind a letter is not in the table. -/
theorem soundex_raises : ¬ ∀ source, WellFormed Char.toUpper Char.isAlpha source := by
  intro right
  obtain ⟨code, returned, -⟩ := right "a1".toList
  cases returned

end CodeClips.Soundex
