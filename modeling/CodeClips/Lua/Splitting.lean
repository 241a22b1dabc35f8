import CodeClips.Lua.Path

/-!
# Splitting a path and putting it together

`path:dir_name` and `path:base_name` take the table of `_split` apart again with `table.concat`:
all entries but the last, and the last. Nothing of the path is lost on the way
(`splitting_lossless`).
-/

namespace CodeClips.Lua

/-- `table.concat(list, sep, i, j)`, with entries counted from 1. -/
def concat (list : List Str) (sep : Str) (i j : Nat) : Str := sep.intercalate ((list.take j).drop (i - 1))

def dir_name (_path : Str) : Str :=
  let path := split _path '/'
  concat path ['/'] 1 (path.length - 1)

/-- The table itself comes back where it has no first entry. -/
def base_name (_path : Str) : List Str ⊕ Str :=
  let path := split _path '/'
  if path[0]? = none then .inl path else .inr (concat path ['/'] path.length path.length)

/-- A piece after the others comes after a slash. -/
theorem intercalate_concat {front : List Str} (some : front ≠ []) (last : Str) :
    ['/'].intercalate (front ++ [last]) = join (['/'].intercalate front) last := by
  induction front with
  | nil => exact absurd rfl some
  | cons first rest ih =>
    cases rest with
    | nil => simp [join]
    | cons second rest =>
      have later := ih (List.cons_ne_nil _ _)
      rw [List.cons_append] at later
      rw [List.cons_append, List.cons_append, List.intercalate_cons_cons, later, List.intercalate_cons_cons, join, join,
        ← List.append_assoc]

/-- A path with a slash has more than one piece. -/
theorem split_of_mem {p : Str} (slash : '/' ∈ p) : ∃ front last, front ≠ [] ∧ split p '/' = front ++ [last] := by
  rcases List.eq_nil_or_concat' (split p '/') with none | ⟨front, last, eq⟩
  · have whole := intercalate_split p
    rw [none, List.intercalate_nil] at whole
    exact absurd (whole ▸ slash) List.not_mem_nil
  · refine ⟨front, last, ?_, eq⟩
    rintro rfl
    have whole := intercalate_split p
    rw [eq, List.nil_append, List.intercalate_singleton] at whole
    have piece : last ∈ split p '/' := by simp [eq]
    exact not_mem_split piece (whole ▸ slash)

section Pieces
variable {p last : Str} {front : List Str}

theorem dir_name_of_split (eq : split p '/' = front ++ [last]) : dir_name p = ['/'].intercalate front := by
  rw [dir_name, eq, concat, List.length_append, List.length_singleton, Nat.add_sub_cancel, List.take_left, Nat.sub_self,
    List.drop_zero]

theorem base_name_of_split (eq : split p '/' = front ++ [last]) : base_name p = .inr last := by
  have entry : ¬ (front ++ [last])[0]? = none := by simp
  rw [base_name, eq, if_neg entry, concat, List.take_length, List.length_append, List.length_singleton,
    Nat.add_sub_cancel, List.drop_left, List.intercalate_singleton]

end Pieces

/-- **Splitting is lossless**: the pieces with slashes between them are the path, no piece has a
slash, and a path with a slash is its directory, a slash and its base. -/
theorem splitting_lossless (p : Str) :
    ['/'].intercalate (split p '/') = p ∧ (∀ piece ∈ split p '/', '/' ∉ piece) ∧
      ('/' ∈ p → ∃ base, base_name p = .inr base ∧ dir_name p ++ '/' :: base = p ∧ '/' ∉ base) := by
  refine ⟨intercalate_split p, fun _ => not_mem_split, ?_⟩
  intro slash
  obtain ⟨front, last, some, eq⟩ := split_of_mem slash
  have piece : last ∈ split p '/' := by simp [eq]
  refine ⟨last, base_name_of_split eq, ?_, not_mem_split piece⟩
  rw [dir_name_of_split eq, ← join, ← intercalate_concat some, ← eq, intercalate_split]

/-- `/a//` is split after its last slash. -/
theorem splitting_lossless_trailing :
    '/' ∈ ['/', 'a', '/', '/'] ∧ ∃ base, base_name ['/', 'a', '/', '/'] = .inr base ∧
      dir_name ['/', 'a', '/', '/'] ++ '/' :: base = ['/', 'a', '/', '/'] ∧ '/' ∉ base :=
  ⟨by decide, (splitting_lossless ['/', 'a', '/', '/']).2.2 (by decide)⟩

end CodeClips.Lua
