import CodeClips.Lua.NormPath

/-!
# The canonical form of a path

What `norm_path` returns has no `.`, no slash after a slash, and each `..` before the first name
(`canonical_norm_path`). On such a path the table keeps every component and nothing is squeezed,
so that `norm_path` changes nothing (`norm_path_of_canonical`), and it changes nothing on its own
results.
-/

namespace CodeClips.Lua

structure Canonical (p : Str) : Prop where
  dots : dot ∉ split p '/'
  slashes : ¬ ['/', '/'] <:+: p
  ups : ∀ before after, split p '/' = before ++ dotdot :: after → ∀ k ∈ before, ¬ IsName k

/-! ## Slashes -/

theorem squeeze_head (s : Str) : (squeeze s).head? = s.head? := by
  induction s with
  | nil => rfl
  | cons c rest ih =>
    rw [squeeze]
    split_ifs with doubled
    · rw [ih, doubled.2, List.head?_cons, doubled.1]
    · rfl

theorem double_slash_cons (c : Char) (s : Str) :
    ['/', '/'] <:+: c :: s ↔ (c = '/' ∧ s.head? = some '/') ∨ ['/', '/'] <:+: s := by
  rw [List.infix_cons_iff]
  apply or_congr_left
  cases s with
  | nil => simp
  | cons d s => simp [eq_comm]

theorem squeeze_slashes (s : Str) : ¬ ['/', '/'] <:+: squeeze s := by
  induction s with
  | nil => simp [squeeze]
  | cons c rest ih =>
    rw [squeeze]
    split_ifs with doubled
    · exact ih
    · rw [double_slash_cons, squeeze_head]
      exact not_or.mpr ⟨doubled, ih⟩

theorem squeeze_eq_self {s : Str} (slashes : ¬ ['/', '/'] <:+: s) : squeeze s = s := by
  induction s with
  | nil => rfl
  | cons c rest ih =>
    rw [double_slash_cons, not_or] at slashes
    rw [squeeze, if_neg slashes.1, ih slashes.2]

/-- The first component is not touched, and of the others only blank ones are lost. -/
theorem splitOn_squeeze (s : Str) : ∃ first rest rest', s.splitOn '/' = first :: rest ∧
    (squeeze s).splitOn '/' = first :: rest' ∧ rest'.filter live = rest.filter live := by
  induction s with
  | nil => exact ⟨[], [], [], rfl, rfl, rfl⟩
  | cons c s ih =>
    obtain ⟨first, rest, rest', eq, eq', same⟩ := ih
    rw [squeeze]
    split_ifs with doubled
    · obtain ⟨rfl, next⟩ := doubled
      obtain ⟨after, after_eq, -⟩ := splitOn_of_abs next
      have blank : first = [] := (List.cons.inj (eq.symm.trans after_eq)).1
      refine ⟨[], first :: rest, rest', ?_, ?_, ?_⟩
      · rw [List.splitOn_cons_eq_if_modifyHead, if_pos (beq_self_eq_true _), eq]
      · rw [eq', blank]
      · rw [same, blank, List.filter_cons_of_neg (by simp [live])]
    · rw [List.splitOn_cons_eq_if_modifyHead, List.splitOn_cons_eq_if_modifyHead, eq, eq']
      split_ifs
      · exact ⟨[], first :: rest, first :: rest', rfl, rfl, by rw [List.filter_cons, List.filter_cons, same]⟩
      · exact ⟨c :: first, rest, rest', rfl, rfl, same⟩

/-! ## The components of the result -/

/-- The empty path counts as a blank component or as none. -/
theorem filter_split (p : Str) : (split p '/').filter live = (p.splitOn '/').filter live := by
  rcases eq_or_ne p [] with rfl | full
  · rfl
  · rw [split_eq full]

/-- The components of a normalised path that are not blank are the way to its place. -/
theorem filter_split_norm_path (p : Str) : (split (norm_path p) '/').filter live = parts (place p) := by
  obtain ⟨first, rest, rest', eq, eq', same⟩ := splitOn_squeeze
    (['/'].intercalate ((split p '/').foldl norm_component []).reverse)
  rw [filter_split, norm_path, eq', List.filter_cons, same, ← List.filter_cons, ← eq, ← parts_of_holds (place_holds p)]
  rcases List.eq_nil_or_concat' (split p '/') with none | ⟨front, last, split_eq⟩
  · rw [none]
    rfl
  · rw [List.splitOn_intercalate]
    · intro entry member
      rw [List.mem_reverse] at member
      exact clean_foldl (fun _ => not_mem_split) (List.forall_mem_nil _) entry member
    · intro none
      have length := congrArg List.length none
      rw [List.length_reverse, length_foldl, split_eq] at length
      simp at length

/-- In the way to a place, the entries before a `..` are `..`. -/
theorem eq_dotdot_of_before {n : Nat} {names before after : List Str} (isName : ∀ name ∈ names, IsName name)
    (eq : List.replicate n dotdot ++ names = before ++ dotdot :: after) : ∀ k ∈ before, k = dotdot := by
  induction n generalizing before with
  | zero =>
    rw [List.replicate_zero, List.nil_append] at eq
    have name := isName dotdot (by simp [eq])
    exact absurd rfl name.2.2
  | succ n ih =>
    cases before with
    | nil => exact List.forall_mem_nil _
    | cons k before =>
      rw [List.replicate_succ, List.cons_append, List.cons_append, List.cons.injEq] at eq
      exact List.forall_mem_cons.mpr ⟨eq.1.symm, ih eq.2⟩

theorem live_of_isName {k : Str} (name : IsName k) : live k = true := by
  simpa [live] using name.1

theorem canonical_norm_path (p : Str) : Canonical (norm_path p) := by
  have names := (place_holds p).names
  refine ⟨?_, squeeze_slashes _, ?_⟩
  · intro member
    have kept : dot ∈ (split (norm_path p) '/').filter live := List.mem_filter.mpr ⟨member, rfl⟩
    rw [filter_split_norm_path, parts, List.mem_append] at kept
    rcases kept with up | name
    · exact absurd (List.eq_of_mem_replicate up) (by decide)
    · exact (names dot name).2.1 rfl
  · intro before after eq k member name
    have way := congrArg (List.filter live) eq
    rw [filter_split_norm_path, parts, List.filter_append, List.filter_cons_of_pos rfl] at way
    have kept : k ∈ before.filter live := List.mem_filter.mpr ⟨member, live_of_isName name⟩
    exact name.2.2 (eq_dotdot_of_before names way k kept)

/-! ## Canonical paths stay -/

/-- The table keeps every component of a canonical path. -/
theorem table_of_canonical {p : Str} (canonical : Canonical p) {before after : List Str}
    (eq : split p '/' = before ++ after) : after.foldl norm_component before.reverse = (split p '/').reverse := by
  induction after generalizing before with
  | nil => rw [eq, List.append_nil, List.foldl_nil]
  | cons k after ih =>
    have kept : norm_component before.reverse k = (before ++ [k]).reverse := by
      have notDot : k ≠ dot := by
        rintro rfl
        exact canonical.dots (by simp [eq])
      rw [norm_component, List.reverse_concat]
      split_ifs with up
      · subst up
        have top : ∀ s ∈ before.reverse.filter live, s = dotdot := by
          intro s member
          rw [List.mem_filter, List.mem_reverse] at member
          rcases component_cases s with up | rfl | rfl | name
          · exact up
          · exact absurd member.2 (by decide)
          · exact absurd (by simp [eq, member.1]) canonical.dots
          · exact absurd name (canonical.ups before after eq s member.1)
        rw [cancel_eq_none top]
      · rfl
    rw [List.foldl_cons, kept]
    exact ih (by rw [eq, List.append_assoc, List.singleton_append])

theorem norm_path_of_canonical {p : Str} (canonical : Canonical p) : norm_path p = p := by
  have table : (split p '/').foldl norm_component [] = (split p '/').reverse :=
    table_of_canonical canonical (List.nil_append _).symm
  rw [norm_path, table, List.reverse_reverse, intercalate_split, squeeze_eq_self canonical.slashes]

/-- **`norm_path` makes paths canonical**, and does nothing to what it has made. -/
theorem norm_path_canonical_idempotent (p : Str) :
    Canonical (norm_path p) ∧ norm_path (norm_path p) = norm_path p :=
  ⟨canonical_norm_path p, norm_path_of_canonical (canonical_norm_path p)⟩

/-- The canonical paths are those that `norm_path` does not change. -/
theorem norm_path_eq_self_iff (p : Str) : norm_path p = p ↔ Canonical p := by
  constructor
  · intro same
    rw [← same]
    exact canonical_norm_path p
  · exact norm_path_of_canonical

end CodeClips.Lua
