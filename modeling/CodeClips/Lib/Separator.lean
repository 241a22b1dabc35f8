import Mathlib.Data.List.Basic
import Mathlib.Data.List.Infix

/-!
# Splitting at a separator

`pieces sep s` is `s` split at each `sep`, found from the left and apart from each other, and
`occurrences sep s` their number. The pieces with `sep` between them are `s` again
(`intercalate_pieces`), and no piece has a `sep` in it (`pieces_clear`). `pieces_advance` and
`pieces_found` are the two steps of a scan.
-/

namespace CodeClips.Separator

variable {α : Type} [DecidableEq α]

/-- The first piece is longer by some elements. -/
def extend (front : List α) : List (List α) → List (List α)
  | [] => [front]
  | piece :: rest => (front ++ piece) :: rest

/-- The number counts what is left of a separator. -/
def piecesFrom (sep : List α) : Nat → List α → List (List α)
  | _, [] => [[]]
  | skip + 1, _ :: s => piecesFrom sep skip s
  | 0, c :: s => if sep <+: c :: s then [] :: piecesFrom sep (sep.length - 1) s else extend [c] (piecesFrom sep 0 s)

def pieces (sep s : List α) : List (List α) := piecesFrom sep 0 s

def occurrencesFrom (sep : List α) : Nat → List α → Nat
  | _, [] => 0
  | skip + 1, _ :: s => occurrencesFrom sep skip s
  | 0, c :: s => if sep <+: c :: s then occurrencesFrom sep (sep.length - 1) s + 1 else occurrencesFrom sep 0 s

def occurrences (sep s : List α) : Nat := occurrencesFrom sep 0 s

variable {sep s l : List α} {c : α}

/-! ## The steps of a scan -/

omit [DecidableEq α] in
@[simp] theorem extend_nil {ps : List (List α)} (some : ps ≠ []) : extend [] ps = ps := by
  cases ps with
  | nil => exact absurd rfl some
  | cons p ps => rfl

omit [DecidableEq α] in
theorem extend_extend (l m : List α) {ps : List (List α)} (some : ps ≠ []) :
    extend l (extend m ps) = extend (l ++ m) ps := by
  cases ps with
  | nil => exact absurd rfl some
  | cons p ps => rw [extend, extend, extend, List.append_assoc]

omit [DecidableEq α] in
@[simp] theorem length_extend (l : List α) {ps : List (List α)} (some : ps ≠ []) : (extend l ps).length = ps.length := by
  cases ps with
  | nil => exact absurd rfl some
  | cons p ps => rfl

omit [DecidableEq α] in
theorem extend_ne_nil (l : List α) (ps : List (List α)) : extend l ps ≠ [] := by
  cases ps <;> exact List.cons_ne_nil _ _

theorem piecesFrom_ne_nil (sep : List α) (skip : Nat) (s : List α) : piecesFrom sep skip s ≠ [] := by
  induction s generalizing skip with
  | nil =>
    rw [piecesFrom]
    exact List.cons_ne_nil _ _
  | cons c s ih =>
    cases skip with
    | zero =>
      rw [piecesFrom]
      split_ifs
      · exact List.cons_ne_nil _ _
      · exact extend_ne_nil _ _
    | succ skip =>
      rw [piecesFrom]
      exact ih skip

theorem pieces_ne_nil (sep s : List α) : pieces sep s ≠ [] := piecesFrom_ne_nil sep 0 s

theorem piecesFrom_skip (l s : List α) : piecesFrom sep l.length (l ++ s) = piecesFrom sep 0 s := by
  induction l with
  | nil => rfl
  | cons c l ih =>
    rw [List.length_cons, List.cons_append, piecesFrom]
    exact ih

theorem pieces_nil (sep : List α) : pieces sep [] = [[]] := by rw [pieces, piecesFrom]

/-- Where no separator begins, the scan goes on by one element. -/
theorem pieces_advance (none : ¬ sep <+: c :: s) : pieces sep (c :: s) = extend [c] (pieces sep s) := by
  rw [pieces, piecesFrom, if_neg none]
  rfl

/-- Where one begins, the scan goes on after it. -/
theorem pieces_found (some : sep ≠ []) (s : List α) : pieces sep (sep ++ s) = [] :: pieces sep s := by
  obtain ⟨c, rest, rfl⟩ := List.exists_cons_of_ne_nil some
  have here : c :: rest <+: c :: (rest ++ s) := List.prefix_append (c :: rest) s
  rw [pieces, List.cons_append, piecesFrom, if_pos here, List.length_cons, Nat.add_sub_cancel, piecesFrom_skip]
  rfl

/-- What is shorter than a separator has none. -/
theorem pieces_short (short : s.length < sep.length) : pieces sep s = [s] := by
  induction s with
  | nil => exact pieces_nil sep
  | cons c s ih =>
    have none : ¬ sep <+: c :: s := fun here => absurd here.length_le (Nat.not_le.mpr short)
    rw [pieces_advance none, ih (Nat.lt_of_succ_lt short)]
    rfl

/-! ## What the pieces are -/

theorem length_piecesFrom (sep : List α) (skip : Nat) (s : List α) :
    (piecesFrom sep skip s).length = occurrencesFrom sep skip s + 1 := by
  induction s generalizing skip with
  | nil => rw [piecesFrom, occurrencesFrom, List.length_singleton]
  | cons c s ih =>
    cases skip with
    | zero =>
      rw [piecesFrom, occurrencesFrom]
      split_ifs
      · rw [List.length_cons, ih]
      · rw [length_extend _ (piecesFrom_ne_nil _ _ _), ih]
    | succ skip =>
      rw [piecesFrom, occurrencesFrom]
      exact ih skip

/-- One piece more than there are separators. -/
theorem length_pieces (sep s : List α) : (pieces sep s).length = occurrences sep s + 1 := length_piecesFrom sep 0 s

/-- A property of lists by the two steps of a scan. -/
theorem scan_induction {P : List α → Prop} (some : sep ≠ []) (nil : P [])
    (advance : ∀ c s, ¬ sep <+: c :: s → P s → P (c :: s)) (found : ∀ s, P s → P (sep ++ s)) (s : List α) : P s := by
  induction n : s.length using Nat.strong_induction_on generalizing s with
  | _ n ih =>
    subst n
    cases s with
    | nil => exact nil
    | cons c s =>
      by_cases here : sep <+: c :: s
      · obtain ⟨rest, same⟩ := here
        have positive := List.length_pos_of_ne_nil some
        have shorter : rest.length < (c :: s).length := by
          rw [← same, List.length_append]
          omega
        rw [← same]
        exact found rest (ih rest.length shorter rest rfl)
      · exact advance c s here (ih s.length (Nat.lt_succ_self _) s rfl)

omit [DecidableEq α] in
theorem intercalate_extend (sep l : List α) {ps : List (List α)} (some : ps ≠ []) :
    sep.intercalate (extend l ps) = l ++ sep.intercalate ps := by
  cases ps with
  | nil => exact absurd rfl some
  | cons p ps =>
    cases ps with
    | nil => simp [extend]
    | cons q ps => simp [extend]

/-- **Join**: the pieces with the separator between them are the list. -/
theorem intercalate_pieces (some : sep ≠ []) (s : List α) : sep.intercalate (pieces sep s) = s := by
  induction s using scan_induction some with
  | nil =>
    rw [pieces_nil]
    exact List.intercalate_singleton
  | advance c s none ih => rw [pieces_advance none, intercalate_extend _ _ (pieces_ne_nil _ _), ih, List.singleton_append]
  | found s ih =>
    rw [pieces_found some, List.intercalate_cons_of_ne_nil (pieces_ne_nil _ _), ih]
    rfl

/-- The first piece is the front of the list. -/
theorem head_pieces_prefix (some : sep ≠ []) (s : List α) : ∀ piece ∈ (pieces sep s).head?, piece <+: s := by
  induction s using scan_induction some with
  | nil =>
    intro piece head
    rw [pieces_nil] at head
    cases head
    exact List.nil_prefix
  | advance c s none ih =>
    intro piece head
    rw [pieces_advance none] at head
    obtain ⟨first, rest, split⟩ := List.exists_cons_of_ne_nil (pieces_ne_nil sep s)
    rw [split] at head ih
    cases head
    exact List.prefix_cons_inj c |>.mpr (ih first rfl)
  | found s ih =>
    intro piece head
    rw [pieces_found some] at head
    cases head
    exact List.nil_prefix

/-- No separator in a piece: it would begin where the scan has gone on. -/
theorem pieces_clear (some : sep ≠ []) (s : List α) : ∀ piece ∈ pieces sep s, ¬ sep <:+: piece := by
  have empty : ¬ sep <:+: [] := fun inside => some (List.infix_nil.mp inside)
  induction s using scan_induction some with
  | nil =>
    intro piece member
    rw [pieces_nil] at member
    rw [List.eq_of_mem_singleton member]
    exact empty
  | advance c s none ih =>
    obtain ⟨first, rest, split⟩ := List.exists_cons_of_ne_nil (pieces_ne_nil sep s)
    have front : first <+: s := head_pieces_prefix some s first (by rw [split]; rfl)
    intro piece member
    rw [pieces_advance none, split] at member
    rw [split] at ih
    rcases List.mem_cons.mp member with rfl | later
    · intro inside
      rcases List.infix_cons_iff.mp inside with begins | inside
      · exact none (begins.trans ((List.prefix_cons_inj c).mpr front))
      · exact ih first List.mem_cons_self inside
    · exact ih piece (List.mem_cons_of_mem first later)
  | found s ih =>
    intro piece member
    rw [pieces_found some] at member
    rcases List.mem_cons.mp member with rfl | later
    · exact empty
    · exact ih piece later

/-- A piece has nothing that the list has not. -/
theorem mem_of_mem_pieces (some : sep ≠ []) {piece : List α} (member : piece ∈ pieces sep s) (inside : c ∈ piece) :
    c ∈ s := by
  induction s using scan_induction some generalizing piece with
  | nil =>
    rw [pieces_nil] at member
    rwa [List.eq_of_mem_singleton member] at inside
  | advance d s none ih =>
    obtain ⟨first, rest, split⟩ := List.exists_cons_of_ne_nil (pieces_ne_nil sep s)
    rw [pieces_advance none, split] at member
    rw [split] at ih
    rcases List.mem_cons.mp member with rfl | later
    · rcases List.mem_cons.mp inside with rfl | inside
      · exact List.mem_cons_self
      · exact List.mem_cons_of_mem d (ih List.mem_cons_self inside)
    · exact List.mem_cons_of_mem d (ih (List.mem_cons_of_mem first later) inside)
  | found s ih =>
    rw [pieces_found some] at member
    rcases List.mem_cons.mp member with rfl | later
    · cases inside
    · exact List.mem_append_right sep (ih later inside)

end CodeClips.Separator
