import CodeClips.Lib.Walk
import Mathlib.Data.List.Basic

/-!
# Paths in Lua

`path:norm_path`, `path:join` and `path:abs_path`. A Lua string is the list of its characters.
The table that `norm_path` rewrites is kept backwards, the last entry first, so that the search
for the component that a `..` cancels is a recursion along it. `is_legal` is left out: nothing
looks at what it returns. `place` is what a path means, and not part of the code.
-/

namespace CodeClips.Lua

abbrev Str := List Char

def dot : Str := ['.']

def dotdot : Str := ['.', '.']

/-- The matches of `(.-)` and the pattern character, then what is left of the string. -/
def split_from (pPattern : Char) (cap : Str) : Str → List Str
  | [] => if cap = [] then [] else [cap]
  | c :: rest =>
    if c = pPattern then cap :: split_from pPattern [] rest
    else split_from pPattern (cap ++ [c]) rest

def split (pString : Str) (pPattern : Char) : List Str :=
  split_from pPattern [] pString ++ if pString.getLast? = some pPattern then [[]] else []

/-- The loop over `n`: empty entries and `..` are passed, and the next other entry is blanked. -/
def cancel : List Str → Option (List Str)
  | [] => none
  | s :: str => if s = [] ∨ s = dotdot then (cancel str).map (s :: ·) else some ([] :: str)

/-- The body of the loop over the components: `str` gets its entry for `k`. -/
def norm_component (str : List Str) (k : Str) : List Str :=
  if k = dotdot then
    match cancel str with
    | some str => [] :: str
    | none => k :: str
  else if k = dot then [] :: str
  else k :: str

/-- `string.gsub(static_path, "/+", "/")`. -/
def squeeze : Str → Str
  | [] => []
  | c :: rest => if c = '/' ∧ rest.head? = some '/' then squeeze rest else c :: squeeze rest

def norm_path (path : Str) : Str :=
  let str := (split path '/').foldl norm_component []
  squeeze (['/'].intercalate str.reverse)

/-- `string.format("%s/%s", p, iter)`. -/
def join (p iter : Str) : Str := p ++ '/' :: iter

def abs_path (PWD path : Str) : Str := norm_path (join PWD path)

/-! ## Components -/

theorem split_from_eq (sep : Char) (cap s : Str) :
    split_from sep cap s ++
        (if s = [] then (if cap = [] then [[]] else []) else if s.getLast? = some sep then [[]] else []) =
      (s.splitOn sep).modifyHead (cap ++ ·) := by
  induction s generalizing cap with
  | nil =>
    cases cap with
    | nil => rfl
    | cons c cap => simp [split_from]
  | cons c rest ih =>
    rw [List.splitOn_cons_eq_if_modifyHead, split_from]
    have last : (if rest = [] then (if c = sep then [[]] else []) else if rest.getLast? = some sep then [[]] else []) =
        if (c :: rest).getLast? = some sep then [([] : Str)] else [] := by
      cases rest with
      | nil => simp
      | cons d rest => simp
    by_cases here : c = sep
    · subst here
      have tail := ih []
      simp only [if_true] at last tail
      rw [if_pos rfl, if_pos (beq_self_eq_true c), if_neg (List.cons_ne_nil _ _), ← last, List.cons_append, tail]
      cases List.splitOn c rest <;> simp
    · have tail := ih (cap ++ [c])
      have full : cap ++ [c] ≠ [] := by simp
      rw [if_neg full] at tail
      rw [if_neg here] at last
      have differ : ¬ (c == sep) = true := by rwa [beq_iff_eq]
      rw [if_neg here, if_neg differ, if_neg (List.cons_ne_nil _ _), ← last, tail]
      cases List.splitOn sep rest <;> simp

/-- The components lie between the slashes; the empty path has none. -/
theorem split_eq {p : Str} (some : p ≠ []) : split p '/' = p.splitOn '/' := by
  have all := split_from_eq '/' [] p
  rw [if_neg some] at all
  rw [split, all]
  cases List.splitOn '/' p <;> simp

/-- The components with slashes between them are the path. -/
theorem intercalate_split (p : Str) : ['/'].intercalate (split p '/') = p := by
  rcases eq_or_ne p [] with rfl | full
  · rfl
  · rw [split_eq full, List.intercalate_splitOn]

theorem not_mem_splitOn (p : Str) : ∀ component ∈ p.splitOn '/', '/' ∉ component := by
  induction p with
  | nil => simp
  | cons c rest ih =>
    rw [List.splitOn_cons_eq_if_modifyHead]
    split
    · exact List.forall_mem_cons.mpr ⟨List.not_mem_nil, ih⟩
    · rename_i differ
      rw [beq_iff_eq] at differ
      obtain ⟨first, others, eq⟩ := List.exists_cons_of_ne_nil (List.splitOn_ne_nil '/' rest)
      rw [eq, List.forall_mem_cons] at ih
      rw [eq, List.modifyHead_cons, List.forall_mem_cons, List.mem_cons]
      refine ⟨?_, ih.2⟩
      intro slash
      cases slash with
      | inl same => exact differ same.symm
      | inr later => exact ih.1 later

theorem not_mem_split {p component : Str} (member : component ∈ split p '/') : '/' ∉ component := by
  rcases eq_or_ne p [] with rfl | full
  · exact absurd member List.not_mem_nil
  · rw [split_eq full] at member
    exact not_mem_splitOn p component member

/-- A path and another after a slash have the components of both. -/
theorem splitOn_join (p q : Str) : (join p q).splitOn '/' = p.splitOn '/' ++ q.splitOn '/' :=
  List.splitOn_append_cons_self p q

theorem join_ne_nil (p q : Str) : join p q ≠ [] :=
  List.append_ne_nil_of_right_ne_nil p (List.cons_ne_nil _ _)

/-- An absolute path has an empty component, and more after it. -/
theorem splitOn_of_abs {p : Str} (absolute : p.head? = some '/') :
    ∃ rest, p.splitOn '/' = [] :: rest.splitOn '/' ∧ p = '/' :: rest := by
  cases p with
  | nil => cases absolute
  | cons c rest =>
    rw [List.head?_cons, Option.some.injEq] at absolute
    subst absolute
    exact ⟨rest, List.splitOn_append_cons_self [] rest, rfl⟩

end CodeClips.Lua
