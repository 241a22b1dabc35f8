import Mathlib.Data.List.Basic

/-!
# The lines of a text

`lines nl s` are the pieces of `s` that end with `nl` or, where there is something behind the last
`nl`, with the text. A text is read line by line with `lines_line` and `lines_last`.

`nextLine skip` reads the lines up to the first one that is not skipped. One that skips more lines
finds the same line (`nextLine_congr`) or a later one (`nextLine_skips`).
-/

namespace CodeClips

section Lines
variable {α : Type*} [DecidableEq α] (nl : α)

/-- The line begun is longer by one element in front. -/
def beginLine (c : α) : List (List α) → List (List α)
  | [] => [[c]]
  | l :: ls => (c :: l) :: ls

def lines : List α → List (List α)
  | [] => []
  | c :: s => if c = nl then [] :: lines s else beginLine c (lines s)

variable {nl} {l s : List α}

/-- A line with its end. -/
theorem lines_line (inside : nl ∉ l) : lines nl (l ++ nl :: s) = l :: lines nl s := by
  induction l with
  | nil => rw [List.nil_append, lines, if_pos rfl]
  | cons c l ih =>
    rw [List.mem_cons, not_or] at inside
    rw [List.cons_append, lines, if_neg (Ne.symm inside.1), ih inside.2, beginLine]

/-- A last line without one. -/
theorem lines_last (inside : nl ∉ l) (some : l ≠ []) : lines nl l = [l] := by
  induction l with
  | nil => exact absurd rfl some
  | cons c l ih =>
    rw [List.mem_cons, not_or] at inside
    rw [lines, if_neg (Ne.symm inside.1)]
    cases l with
    | nil => rfl
    | cons c' l => rw [ih inside.2 (List.cons_ne_nil _ _), beginLine]

/-- Some lines with their ends. -/
theorem lines_flatMap {ls : List (List α)} (inside : ∀ l ∈ ls, nl ∉ l) : lines nl (ls.flatMap (· ++ [nl])) = ls := by
  induction ls with
  | nil => rfl
  | cons l ls ih =>
    rw [List.forall_mem_cons] at inside
    rw [List.flatMap_cons, List.append_assoc, List.singleton_append, lines_line inside.1, ih inside.2]

end Lines

/-- The number of lines that are read, the one that is found and those behind it. -/
structure NextLine (α : Type*) where
  read : Nat
  line : Option α
  rest : List α

section Next
variable {α : Type*}

/-- The next line that is not skipped. -/
def nextLine (skip : α → Bool) : List α → NextLine α
  | [] => { read := 0, line := none, rest := [] }
  | l :: ls =>
    if skip l then { nextLine skip ls with read := (nextLine skip ls).read + 1 }
    else { read := 1, line := some l, rest := ls }

variable {p q : α → Bool} {l : α} {ls : List α}

theorem nextLine_skip (skip : p l = true) :
    nextLine p (l :: ls) = { nextLine p ls with read := (nextLine p ls).read + 1 } := by
  rw [nextLine, if_pos skip]

theorem nextLine_find (find : p l = false) : nextLine p (l :: ls) = { read := 1, line := some l, rest := ls } := by
  rw [nextLine, if_neg (by rw [find]; exact Bool.false_ne_true)]

theorem length_nextLine : ls.length = (nextLine p ls).read + (nextLine p ls).rest.length := by
  induction ls with
  | nil => rfl
  | cons l ls ih =>
    rw [List.length_cons]
    cases skip : p l with
    | true =>
      rw [nextLine_skip skip]
      dsimp only
      omega
    | false =>
      rw [nextLine_find skip]
      exact Nat.add_comm _ _

/-- Something is read of some lines. -/
theorem nextLine_rest (some : ls ≠ []) : (nextLine p ls).rest.length < ls.length := by
  cases ls with
  | nil => exact absurd rfl some
  | cons l ls =>
    have rest := @length_nextLine _ p ls
    rw [List.length_cons]
    cases skip : p l with
    | true =>
      rw [nextLine_skip skip]
      dsimp only
      omega
    | false =>
      rw [nextLine_find skip]
      exact Nat.lt_succ_self _

theorem nextLine_line (found : l ∈ (nextLine p ls).line) : p l = false := by
  induction ls with
  | nil => cases found
  | cons l' ls ih =>
    cases skip : p l' with
    | true =>
      rw [nextLine_skip skip] at found
      exact ih found
    | false =>
      rw [nextLine_find skip] at found
      obtain rfl := Option.some.inj found
      exact skip

/-- The line is one of the lines, and those that are read before are skipped. -/
theorem forall_nextLine {P : α → Prop} :
    (∀ l ∈ ls, p l = false → P l) ↔
      (∀ l ∈ (nextLine p ls).line, P l) ∧ ∀ l ∈ (nextLine p ls).rest, p l = false → P l := by
  induction ls with
  | nil => simp [nextLine]
  | cons l ls ih =>
    rw [List.forall_mem_cons]
    cases skip : p l with
    | true =>
      rw [nextLine_skip skip, ih]
      exact and_iff_right (fun false => absurd false (by decide))
    | false =>
      rw [nextLine_find skip]
      simp

/-- The lines that are skipped do not matter. -/
theorem nextLine_congr (imp : ∀ l, p l = true → q l = true) (same : ∀ l ∈ (nextLine p ls).line, q l = false) :
    nextLine q ls = nextLine p ls := by
  induction ls with
  | nil => rfl
  | cons l ls ih =>
    cases skip : p l with
    | true =>
      rw [nextLine_skip skip] at same ⊢
      rw [nextLine_skip (imp l skip), ih same]
    | false =>
      rw [nextLine_find skip] at same ⊢
      exact nextLine_find (same l rfl)

/-- A line that is skipped is not found. -/
theorem nextLine_skips (imp : ∀ l, p l = true → q l = true) (next : l ∈ (nextLine p ls).line) (skip : q l = true)
    (found : (nextLine q ls).line.isSome = true) : (nextLine q ls).rest.length < (nextLine p ls).rest.length := by
  induction ls with
  | nil => cases next
  | cons l' ls ih =>
    cases skip' : p l' with
    | true =>
      rw [nextLine_skip (imp l' skip')] at found ⊢
      rw [nextLine_skip skip'] at next ⊢
      exact ih next found
    | false =>
      rw [nextLine_find skip'] at next ⊢
      obtain rfl := Option.some.inj next
      rw [nextLine_skip skip] at found ⊢
      apply nextLine_rest
      rintro rfl
      cases found

end Next

end CodeClips
