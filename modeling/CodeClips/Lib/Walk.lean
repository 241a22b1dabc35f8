import Mathlib.Data.List.Basic

/-!
# Walks in a tree

A walk in a tree whose nodes have named children: each move stays, goes to the parent or goes
down to a child. Where a walk has led is a number of levels above its start and the names of
the way down from there, so that walks compose without knowing where they start:
`walk_comp` says that a walk from some place leads where the place composed with the walk's own
result is. A walk that starts at a root stays there on a move to the parent, and `root_walk`
says that the names are where it ends.
-/

namespace CodeClips

/-- A step of a path: nowhere, up, or down into a directory. -/
inductive Move (α : Type*) where
  | stay
  | up
  | down (name : α)

/-- A place relative to a start: so many levels above it, then down along the names. -/
@[ext] structure Place (α : Type*) where
  above : Nat
  names : List α

section Walk
variable {α : Type*}

/-- The place where a walk begins. -/
def Place.start : Place α := { above := 0, names := [] }

/-- Up from a name leaves the directory; up from none goes above the start. -/
def Place.move (p : Place α) : Move α → Place α
  | .stay => p
  | .up =>
    match p.names with
    | [] => { p with above := p.above + 1 }
    | _ :: _ => { p with names := p.names.dropLast }
  | .down name => { p with names := p.names ++ [name] }

/-- All the steps, one after another. -/
def Place.walk (p : Place α) (moves : List (Move α)) : Place α := moves.foldl Place.move p

/-- A move of someone who cannot leave the tree: at the root, the parent is the root. -/
def rootMove (stack : List α) : Move α → List α
  | .stay => stack
  | .up => stack.dropLast
  | .down name => stack ++ [name]

/-- A walk from the root. -/
def rootWalk (stack : List α) (moves : List (Move α)) : List α := moves.foldl rootMove stack

/-- The place that `q` is, seen from the start of `p`. -/
def Place.comp (p q : Place α) : Place α :=
  if q.above ≤ p.names.length then
    { above := p.above, names := p.names.take (p.names.length - q.above) ++ q.names }
  else { above := p.above + (q.above - p.names.length), names := q.names }

@[simp] theorem walk_nil (p : Place α) : p.walk [] = p := rfl

@[simp] theorem walk_cons (p : Place α) (m : Move α) (ms : List (Move α)) : p.walk (m :: ms) = (p.move m).walk ms := rfl

/-- Two walks, one after the other. -/
theorem walk_append (p : Place α) (ms ms' : List (Move α)) : p.walk (ms ++ ms') = (p.walk ms).walk ms' :=
  List.foldl_append

theorem up_of_nil {p : Place α} (bare : p.names = []) : p.move .up = { p with above := p.above + 1 } := by
  simp only [Place.move, bare]

theorem up_of_ne_nil {p : Place α} (named : p.names ≠ []) : p.move .up = { p with names := p.names.dropLast } := by
  cases names : p.names with
  | nil => exact absurd names named
  | cons name names' => simp only [Place.move, names]

/-! ## Composition -/

section Comp
variable {p q : Place α}

/-- The second walk stays below the first's end, or goes back along its names. -/
theorem comp_of_le (inside : q.above ≤ p.names.length) :
    p.comp q = { above := p.above, names := p.names.take (p.names.length - q.above) ++ q.names } := by
  rw [Place.comp, if_pos inside]

/-- It goes above the start of the first. -/
theorem comp_of_lt (outside : p.names.length < q.above) :
    p.comp q = { above := p.above + (q.above - p.names.length), names := q.names } := by
  rw [Place.comp, if_neg (by omega)]

@[simp] theorem comp_start (p : Place α) : p.comp .start = p := by
  rw [comp_of_le (Nat.zero_le _)]
  simp [Place.start]

/-- What a walk goes above the start is not taken back by a further one. -/
theorem above_le_comp (p q : Place α) : p.above ≤ (p.comp q).above := by
  rcases Nat.lt_or_ge p.names.length q.above with outside | inside
  · rw [comp_of_lt outside]
    exact Nat.le_add_right _ _
  · simp only [comp_of_le inside, Nat.le_refl]

/-- Composition ends at its highest level exactly if the second place does, at least as high as
the first one is deep. -/
theorem comp_names_eq_nil : (p.comp q).names = [] ↔ q.names = [] ∧ p.names.length ≤ q.above := by
  rcases Nat.lt_or_ge p.names.length q.above with outside | inside
  · rw [comp_of_lt outside]
    exact ⟨fun bare => ⟨bare, Nat.le_of_lt outside⟩, And.left⟩
  · rw [comp_of_le inside, List.append_eq_nil_iff, ← List.length_eq_zero_iff, List.length_take]
    constructor
    · rintro ⟨short, bare⟩
      exact ⟨bare, by omega⟩
    · rintro ⟨bare, edge⟩
      exact ⟨by omega, bare⟩

/-- A step up, at the end of both. -/
theorem comp_up (p q : Place α) : p.comp (q.move .up) = (p.comp q).move .up := by
  cases List.eq_nil_or_concat' q.names with
  | inl bare =>
    rcases Nat.lt_or_ge q.above p.names.length with inside | outside
    · -- the move leaves one of the names of `p`
      have named : (p.comp q).names ≠ [] := by
        intro bare'
        have edge := (comp_names_eq_nil.mp bare').2
        omega
      rw [up_of_ne_nil named, up_of_nil bare, comp_of_le (Nat.le_of_lt inside), comp_of_le (by exact inside)]
      simp only [bare, List.append_nil, Place.mk.injEq, true_and]
      rw [List.dropLast_eq_take, List.take_take, List.length_take]
      congr 1
      omega
    · have bare' : (p.comp q).names = [] := comp_names_eq_nil.mpr ⟨bare, outside⟩
      rw [up_of_nil bare', up_of_nil bare, comp_of_lt (by exact Nat.lt_succ_of_le outside), Place.ext_iff]
      refine ⟨?_, bare.trans bare'.symm⟩
      rcases Nat.lt_or_ge p.names.length q.above with farther | edge
      · rw [comp_of_lt farther]
        simp only
        omega
      · rw [comp_of_le edge]
        simp only
        omega
  | inr named =>
    obtain ⟨names, name, last⟩ := named
    have named : q.names ≠ [] := by simp [last]
    have named' : (p.comp q).names ≠ [] := fun bare => named (comp_names_eq_nil.mp bare).1
    rw [up_of_ne_nil named', up_of_ne_nil named]
    rcases Nat.lt_or_ge p.names.length q.above with outside | inside
    · rw [comp_of_lt outside, comp_of_lt (by exact outside)]
    · rw [comp_of_le inside, comp_of_le (by exact inside)]
      simp only [Place.mk.injEq, true_and]
      rw [List.dropLast_append_of_ne_nil named]

/-- Seen from farther away, a move is the same move. -/
theorem comp_move (p q : Place α) (m : Move α) : p.comp (q.move m) = (p.comp q).move m := by
  cases m with
  | stay => rfl
  | up => exact comp_up p q
  | down name =>
    rcases Nat.lt_or_ge p.names.length q.above with outside | inside
    · rw [comp_of_lt outside, comp_of_lt (q := q.move (.down name)) outside]
      rfl
    · rw [comp_of_le inside, comp_of_le (q := q.move (.down name)) inside]
      simp [Place.move]

/-- **Walks compose.** -/
theorem walk_comp (p q : Place α) (ms : List (Move α)) : (p.comp q).walk ms = p.comp (q.walk ms) := by
  induction ms generalizing q with
  | nil => rfl
  | cons m ms ih => rw [walk_cons, walk_cons, ← comp_move, ih]

/-- A walk from `p` is the walk from the start, put behind `p`. -/
theorem walk_eq_comp (p : Place α) (ms : List (Move α)) : p.walk ms = p.comp (Place.start.walk ms) := by
  rw [← walk_comp, comp_start]

/-- A place that composes to itself. -/
theorem comp_eq_self_iff (w q : Place α) : w.comp q = q ↔ w.above = w.names.length ∧ w.above ≤ q.above := by
  rcases Nat.lt_or_ge w.names.length q.above with outside | inside
  · rw [comp_of_lt outside, Place.ext_iff]
    simp only [and_true]
    omega
  · rw [comp_of_le inside, Place.ext_iff]
    simp only [List.append_left_eq_self, ← List.length_eq_zero_iff, List.length_take]
    omega

end Comp

/-! ## The way to a place -/

/-- Up to the highest level, and down from there. -/
def Place.way (p : Place α) : List (Move α) := List.replicate p.above .up ++ p.names.map .down

/-- Only up. -/
theorem walk_ups (n k : Nat) : (Place.mk n []).walk (List.replicate k .up) = { above := n + k, names := ([] : List α) } := by
  induction k generalizing n with
  | zero => rfl
  | succ k ih =>
    rw [List.replicate_succ, walk_cons, up_of_nil rfl, ih]
    simp only [Place.mk.injEq, and_true]
    omega

/-- Only down. -/
theorem walk_downs (p : Place α) (names : List α) :
    p.walk (names.map .down) = { p with names := p.names ++ names } := by
  induction names generalizing p with
  | nil => simp
  | cons name names ih => simp [ih, Place.move]

@[simp] theorem walk_way (p : Place α) : Place.start.walk p.way = p := by
  rw [Place.way, walk_append, Place.start, walk_ups, walk_downs]
  simp

/-- What is below the root is where the names lead. -/
theorem root_walk (p : Place α) (ms : List (Move α)) : rootWalk p.names ms = (p.walk ms).names := by
  induction ms generalizing p with
  | nil => rfl
  | cons m ms ih =>
    have step : rootMove p.names m = (p.move m).names := by
      cases m with
      | stay => rfl
      | down name => rfl
      | up =>
        rcases List.eq_nil_or_concat p.names with bare | ⟨names, name, eq⟩
        · rw [up_of_nil bare, bare]
          rfl
        · rw [up_of_ne_nil (by simp [eq])]
          rfl
    rw [walk_cons, ← ih, ← step]
    rfl

end Walk

end CodeClips
