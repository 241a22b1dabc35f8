import Mathlib.Data.List.Basic
import Mathlib.Tactic.ByContra

/-!
# Replacing the first occurrence

`replace old new s` has `new` in the place of the first `old` in `s`. Undoing it finds the first
`new`, which need not be the one that was put in: it is exactly if `Kept` (`replace_replace_iff`).
-/

namespace CodeClips.Replace

variable {α : Type} [DecidableEq α]

def replace (old new : List α) : List α → List α
  | [] => if old = [] then new else []
  | c :: s => if old <+: c :: s then new ++ (c :: s).drop old.length else c :: replace old new s

/-- No `old` begins before the one between `u` and `v`. -/
def First (old u v : List α) : Prop :=
  ∀ u' v', u ++ (old ++ v) = u' ++ (old ++ v') → u.length ≤ u'.length

/-- The first `a` is where the first `b` is, once it is replaced. -/
def Kept (a b s : List α) : Prop :=
  ¬ a <:+: s ∧ ¬ b <:+: s ∨ ∃ u v, s = u ++ (a ++ v) ∧ First a u v ∧ First b u v

/-- `s'` has a `b` where the first `a` of `s` is, and, if it has an `a` at all, its first one
further behind, where `s` has a `b`. -/
def Exchanged (a b s s' : List α) : Prop :=
  ∃ u v, s = u ++ (a ++ v) ∧ First a u v ∧
    (¬ a <:+: s' ∧ s' = u ++ (b ++ v) ∨
      ∃ z v', z ≠ [] ∧ s' = u ++ z ++ (a ++ v') ∧ First a (u ++ z) v' ∧ b ++ v = z ++ (b ++ v'))

section First
variable {old new a b s s' u v : List α}

omit [DecidableEq α] in
theorem infix_append (u old v : List α) : old <:+: u ++ (old ++ v) := ⟨u, v, List.append_assoc u old v⟩

theorem exists_first (inside : old <:+: s) : ∃ u v, s = u ++ (old ++ v) ∧ First old u v := by
  induction s with
  | nil =>
    obtain rfl := List.infix_nil.mp inside
    exact ⟨[], [], rfl, fun _ _ _ => Nat.zero_le _⟩
  | cons c s ih =>
    by_cases here : old <+: c :: s
    · obtain ⟨v, split⟩ := here
      exact ⟨[], v, split.symm, fun _ _ _ => Nat.zero_le _⟩
    · obtain ⟨u, v, rfl, first⟩ := ih ((List.infix_cons_iff.mp inside).resolve_left here)
      refine ⟨c :: u, v, rfl, ?_⟩
      intro u' v' same
      cases u' with
      | nil => exact absurd ⟨v', same.symm⟩ here
      | cons d u' => exact Nat.succ_le_succ (first u' v' (List.cons.inj same).2)

theorem replace_of_outside (outside : ¬ old <:+: s) : replace old new s = s := by
  induction s with
  | nil =>
    rw [replace, if_neg]
    rintro rfl
    exact outside List.nil_infix
  | cons c s ih =>
    rw [List.infix_cons_iff, not_or] at outside
    rw [replace, if_neg outside.1, ih outside.2]

theorem replace_first (first : First old u v) : replace old new (u ++ (old ++ v)) = u ++ (new ++ v) := by
  induction u with
  | nil =>
    rw [List.nil_append]
    cases whole : old ++ v with
    | nil =>
      obtain ⟨rfl, rfl⟩ := List.append_eq_nil_iff.mp whole
      rw [replace, if_pos rfl, List.append_nil, List.nil_append]
    | cons c s => rw [replace, if_pos ⟨v, whole⟩, ← whole, List.drop_left, List.nil_append]
  | cons c u ih =>
    have later : ¬ old <+: c :: (u ++ (old ++ v)) := by
      rintro ⟨v', same⟩
      exact absurd (first [] v' same.symm) (Nat.not_succ_le_zero _)
    have rest : First old u v := fun u' v' same =>
      Nat.le_of_succ_le_succ (first (c :: u') v' (congrArg (c :: ·) same))
    rw [List.cons_append, replace, if_neg later, ih rest]
    rfl

theorem replace_prefix (old new v : List α) : replace old new (old ++ v) = new ++ v :=
  replace_first (u := []) fun _ _ _ => Nat.zero_le _

theorem replace_self (old s : List α) : replace old old s = s := by
  by_cases inside : old <:+: s
  · obtain ⟨u, v, rfl, first⟩ := exists_first inside
    exact replace_first first
  · exact replace_of_outside inside

/-- **Undoing** a replacement gives back the text exactly if its place is found again. -/
theorem replace_replace_iff : replace b a (replace a b s) = s ↔ a = b ∨ Kept a b s := by
  constructor
  · intro back
    by_cases same : a = b
    · exact .inl same
    refine .inr ?_
    by_cases inside : a <:+: s
    · obtain ⟨u, v, rfl, first⟩ := exists_first inside
      obtain ⟨u', v', split, first'⟩ := exists_first (infix_append u b v)
      rw [replace_first first, split, replace_first first'] at back
      have le := first u' v' back.symm
      have le' : u'.length ≤ u.length := by
        rw [First, ← split] at first'
        exact first' u v rfl
      obtain ⟨rfl, rest⟩ := List.append_inj back (Nat.le_antisymm le' le)
      obtain rfl := List.append_cancel_left rest
      exact .inr ⟨u', v', rfl, first, first'⟩
    · refine .inl ⟨inside, ?_⟩
      intro found
      obtain ⟨u, v, rfl, first⟩ := exists_first found
      rw [replace_of_outside inside, replace_first first] at back
      exact same (List.append_cancel_right (List.append_cancel_left back))
  · rintro (rfl | ⟨outside, outside'⟩ | ⟨u, v, rfl, first, first'⟩)
    · rw [replace_self, replace_self]
    · rw [replace_of_outside outside, replace_of_outside outside']
    · rw [replace_first first, replace_first first']

/-- A text in which `old` does not begin. -/
theorem replace_append {l : List α} (clear : ∀ u v, l ++ s = u ++ (old ++ v) → l.length ≤ u.length) :
    replace old new (l ++ s) = l ++ replace old new s := by
  induction l with
  | nil => rfl
  | cons c l ih =>
    have here : ¬ old <+: c :: (l ++ s) := by
      rintro ⟨v, same⟩
      exact absurd (clear [] v same.symm) (Nat.not_succ_le_zero _)
    rw [List.cons_append, replace, if_neg here, ih, List.cons_append]
    exact fun u v same => Nat.le_of_succ_le_succ (clear (c :: u) v (congrArg (c :: ·) same))

omit [DecidableEq α] in
/-- What begins outside of `n`, and neither contains nor runs into it, lies before or behind it. -/
theorem infix_sides {d : α} {w n : List α} (head : d ∉ n) (outside : ¬ n <:+: w)
    (ends : ∀ z, z <:+ w → z ≠ [] → ¬ z <+: n) (inside : d :: w <:+: u ++ (n ++ v)) : d :: w <:+: u ∨ d :: w <:+: v := by
  obtain ⟨p, q, same⟩ := inside
  rw [List.append_assoc] at same
  have some : n ≠ [] := fun none => outside (none ▸ List.nil_infix)
  rcases List.append_eq_append_iff.mp same with ⟨x, split, rest⟩ | ⟨x, split, rest⟩
  · cases x with
    | nil =>
      obtain ⟨e, n, rfl⟩ := List.exists_cons_of_ne_nil some
      exact absurd (List.cons.inj rest).1 fun same => head (same ▸ List.mem_cons_self)
    | cons e x =>
      rw [List.cons_append, List.cons_append, List.cons.injEq] at rest
      obtain ⟨rfl, rest⟩ := rest
      rcases List.append_eq_append_iff.mp rest with ⟨z, taken, -⟩ | ⟨z, taken, rest⟩
      · exact .inl ⟨p, z, by rw [split, taken, List.append_assoc]; rfl⟩
      · by_cases last : z = []
        · rw [last, List.append_nil] at taken
          exact .inl ⟨p, [], by rw [split, taken, List.append_nil]⟩
        · rcases List.append_eq_append_iff.mp rest with ⟨y, longer, -⟩ | ⟨y, longer, -⟩
          · exact absurd (taken ▸ longer ▸ infix_append x n y) outside
          · exact absurd ⟨y, longer.symm⟩ (ends z ⟨x, taken.symm⟩ last)
  · rcases List.append_eq_append_iff.mp rest with ⟨z, taken, behind⟩ | ⟨z, taken, behind⟩
    · exact .inr ⟨z, q, by rw [behind, List.append_assoc]⟩
    · cases z with
      | nil => exact .inr ⟨[], q, behind⟩
      | cons e z =>
        rw [List.cons_append, List.cons_append, List.cons.injEq] at behind
        exact absurd (by simp [taken, behind.1]) head

omit [DecidableEq α] in
/-- Two places that begin with a separator, and have no other, lie one behind the other. -/
theorem sep_split {d : α} {x s n : List α} (same : x ++ d :: s = u ++ (d :: n ++ v)) (noSep : d ∉ n) (before : u.length < x.length) :
    ∃ w, x = u ++ (d :: n ++ w) := by
  rcases List.append_eq_append_iff.mp same with ⟨c, longer, -⟩ | ⟨c, split, rest⟩
  · rw [longer, List.length_append] at before
    exact absurd before (Nat.not_lt.mpr (Nat.le_add_right _ _))
  · cases c with
    | nil =>
      rw [split, List.append_nil] at before
      exact absurd before (Nat.lt_irrefl _)
    | cons e c =>
      rw [List.cons_append, List.cons_append, List.cons.injEq] at rest
      obtain ⟨rfl, rest⟩ := rest
      rcases List.append_eq_append_iff.mp rest with ⟨w, taken, -⟩ | ⟨w, taken, behind⟩
      · exact ⟨w, by rw [split, taken]; rfl⟩
      · cases w with
        | nil => exact ⟨[], by rw [split, taken, List.append_nil, List.append_nil]⟩
        | cons f w =>
          rw [List.cons_append, List.cons.injEq] at behind
          exact absurd (by simp [taken, behind.1]) noSep

/-- Replacing in the image of a text, where `old` is found only as it is in the text. -/
theorem replace_map {β : Type} [DecidableEq β] {f : α → β} (new : List α) (only : ∀ s, old.map f <+: s.map f → old <+: s)
    (s : List α) : replace (old.map f) (new.map f) (s.map f) = (replace old new s).map f := by
  induction s with
  | nil => cases old <;> rfl
  | cons c s ih =>
    by_cases here : old <+: c :: s
    · obtain ⟨v, split⟩ := here
      rw [← split, List.map_append, replace_prefix, replace_prefix, List.map_append]
    · have before : ¬ old.map f <+: f c :: s.map f := fun found => here (only (c :: s) found)
      rw [List.map_cons, replace, if_neg before, ih, replace, if_neg here, List.map_cons]

omit [DecidableEq α] in
/-- The first `a` of `s'` is behind that of `s`. -/
theorem exchanged_of_first {u' v' : List α} (first : First a u v) (first' : First a u' v') (before : u.length < u'.length)
    (same : u ++ (b ++ v) = u' ++ (b ++ v')) : Exchanged a b (u ++ (a ++ v)) (u' ++ (a ++ v')) := by
  refine ⟨u, v, rfl, first, .inr ?_⟩
  rcases List.append_eq_append_iff.mp same with ⟨z, rfl, rest⟩ | ⟨z, longer, -⟩
  · refine ⟨z, v', ?_, rfl, first', rest⟩
    rintro rfl
    rw [List.append_nil] at before
    exact absurd before (Nat.lt_irrefl _)
  · rw [longer, List.length_append] at before
    omega

theorem Exchanged.replace_eq (exchanged : Exchanged a b s s') : replace a b s = replace a b s' := by
  obtain ⟨u, v, rfl, first, ⟨outside, rfl⟩ | ⟨z, v', -, rfl, first', rest⟩⟩ := exchanged
  · rw [replace_first first, replace_of_outside outside]
  · rw [replace_first first, replace_first first', rest, List.append_assoc]

/-- **Two texts** become the same exactly if they are, or an `a` and a `b` are exchanged. -/
theorem replace_eq_replace_iff :
    replace a b s = replace a b s' ↔ s = s' ∨ Exchanged a b s s' ∨ Exchanged a b s' s := by
  constructor
  · intro same
    by_cases inside : a <:+: s
    · obtain ⟨u, v, rfl, first⟩ := exists_first inside
      rw [replace_first first] at same
      by_cases inside' : a <:+: s'
      · obtain ⟨u', v', rfl, first'⟩ := exists_first inside'
        rw [replace_first first'] at same
        rcases Nat.lt_trichotomy u.length u'.length with before | level | behind
        · exact .inr (.inl (exchanged_of_first first first' before same))
        · obtain ⟨rfl, rest⟩ := List.append_inj same level
          rw [List.append_cancel_left rest]
          exact .inl rfl
        · exact .inr (.inr (exchanged_of_first first' first behind same.symm))
      · rw [replace_of_outside inside'] at same
        exact .inr (.inl ⟨u, v, rfl, first, .inl ⟨inside', same.symm⟩⟩)
    · rw [replace_of_outside inside] at same
      by_cases inside' : a <:+: s'
      · obtain ⟨u', v', rfl, first'⟩ := exists_first inside'
        rw [replace_first first'] at same
        exact .inr (.inr ⟨u', v', rfl, first', .inl ⟨inside, same⟩⟩)
      · rw [replace_of_outside inside'] at same
        exact .inl same
  · rintro (rfl | exchanged | exchanged)
    · rfl
    · exact exchanged.replace_eq
    · exact exchanged.replace_eq.symm

theorem replace_eq_self_iff : replace a b s = s ↔ a = b ∨ ¬ a <:+: s := by
  constructor
  · intro same
    by_cases inside : a <:+: s
    · obtain ⟨u, v, rfl, first⟩ := exists_first inside
      rw [replace_first first] at same
      exact .inl (List.append_cancel_right (List.append_cancel_left same)).symm
    · exact .inr inside
  · rintro (rfl | outside)
    · exact replace_self a s
    · exact replace_of_outside outside

end First

end CodeClips.Replace
