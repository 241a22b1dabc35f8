import CodeClips.Lib.Replace

/-!
# Replacing all occurrences

`replaceAll old new s` has `new` in the place of each `old` in `s`, found from the left and apart
from each other. In a text made of pieces, an `old` that begins in no piece but the whole ones is
replaced piece by piece (`replaceAll_flatMap`).
-/

namespace CodeClips.Replace

variable {α : Type} [DecidableEq α]

/-- The number counts what is left of an occurrence. -/
def replaceFrom (old new : List α) : Nat → List α → List α
  | _, [] => []
  | skip + 1, _ :: s => replaceFrom old new skip s
  | 0, c :: s =>
    if old <+: c :: s then new ++ replaceFrom old new (old.length - 1) s else c :: replaceFrom old new 0 s

def replaceAll (old new s : List α) : List α := replaceFrom old new 0 s

/-- No `old` begins in `l`, whatever follows it. -/
def Clear (old l : List α) : Prop := ∀ s u v, l ++ s = u ++ (old ++ v) → l.length ≤ u.length

variable {old new l s : List α} {a : α}

theorem replaceFrom_skip (l s : List α) : replaceFrom old new l.length (l ++ s) = replaceFrom old new 0 s := by
  induction l with
  | nil => rfl
  | cons c l ih => exact ih

theorem replaceAll_prefix (some : old ≠ []) (s : List α) : replaceAll old new (old ++ s) = new ++ replaceAll old new s := by
  obtain ⟨c, rest, rfl⟩ := List.exists_cons_of_ne_nil some
  have here : c :: rest <+: c :: (rest ++ s) := List.prefix_append (c :: rest) s
  rw [replaceAll, List.cons_append, replaceFrom, if_pos here, List.length_cons, Nat.add_sub_cancel, replaceFrom_skip]
  rfl

theorem replaceAll_append (clear : Clear old l) (s : List α) : replaceAll old new (l ++ s) = l ++ replaceAll old new s := by
  induction l with
  | nil => rfl
  | cons c l ih =>
    have here : ¬ old <+: c :: (l ++ s) := by
      rintro ⟨v, same⟩
      exact absurd (clear s [] v same.symm) (Nat.not_succ_le_zero _)
    have rest : Clear old l := fun s u v same => Nat.le_of_succ_le_succ (clear s (c :: u) v (congrArg (c :: ·) same))
    have later : replaceFrom old new 0 (l ++ s) = l ++ replaceFrom old new 0 s := ih rest
    rw [replaceAll, List.cons_append, replaceFrom, if_neg here, later]
    rfl

omit [DecidableEq α] in
theorem clear_of_not_mem {w : List α} (none : a ∉ l) : Clear (a :: w) l := by
  intro s u v same
  rcases List.append_eq_append_iff.mp same with ⟨t, longer, -⟩ | ⟨t, split, behind⟩
  · rw [longer, List.length_append]
    exact Nat.le_add_right _ _
  · cases t with
    | nil => exact Nat.le_of_eq (by rw [split, List.append_nil])
    | cons d t =>
      obtain ⟨rfl, -⟩ := List.cons.inj behind
      exact absurd (by simp [split]) none

omit [DecidableEq α] in
/-- One that begins with the same element, and goes on in another way. -/
theorem clear_of_head {w : List α} (none : a ∉ l) (differ : ¬ old <+: a :: l) (differ' : ¬ a :: l <+: old) (head : old = a :: w) :
    Clear old (a :: l) := by
  subst head
  intro s u v same
  cases u with
  | nil =>
    rcases List.prefix_or_prefix_of_prefix (List.prefix_append (a :: w) v) (same ▸ List.prefix_append (a :: l) s) with short | long
    · exact absurd short differ
    · exact absurd long differ'
  | cons d u =>
    rw [List.cons_append, List.cons_append, List.cons.injEq] at same
    exact Nat.succ_le_succ (clear_of_not_mem none s u v same.2)

/-- **Piece by piece**: the pieces that are `old` become `new`, and the others stay. -/
theorem replaceAll_flatMap {β : Type} {f g : β → List α} (some : old ≠ []) (bs : List β)
    (pieces : ∀ b ∈ bs, f b = old ∧ g b = new ∨ g b = f b ∧ Clear old (f b)) :
    replaceAll old new (bs.flatMap f) = bs.flatMap g := by
  induction bs with
  | nil => rfl
  | cons b bs ih =>
    obtain ⟨here, later⟩ := List.forall_mem_cons.mp pieces
    rw [List.flatMap_cons, List.flatMap_cons, ← ih later]
    rcases here with ⟨isOld, isNew⟩ | ⟨stays, clear⟩
    · rw [isOld, isNew, replaceAll_prefix some]
    · rw [stays, replaceAll_append clear]

end CodeClips.Replace
