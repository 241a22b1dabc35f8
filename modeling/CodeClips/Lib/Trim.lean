import Mathlib.Data.List.Basic
import Mathlib.Data.List.Infix
import Mathlib.Data.List.TakeWhile

/-!
# Trimming a list

`IsTrim p s t` says that `t` is a longest piece of `s` whose first and last elements are not in `p`.
It is what is left of `s` between a front and a back of elements in `p` (`Trims.isTrim`), and there is
no other one (`IsTrim.unique_of_trims`). To trim by a larger set is the same where the ends of the
result are not in it.
-/

namespace CodeClips.Trim

variable {α : Type*} {p q : α → Prop} {s t t' : List α}

/-- The first and the last element, if there are any, are not in `p`. -/
structure Bare (p : α → Prop) (t : List α) : Prop where
  head : ∀ c ∈ t.head?, ¬ p c
  last : ∀ c ∈ t.getLast?, ¬ p c

/-- A longest piece with bare ends. -/
structure IsTrim (p : α → Prop) (s t : List α) : Prop where
  piece : t <:+: s
  bare : Bare p t
  longest : ∀ t', t' <:+: s → Bare p t' → t'.length ≤ t.length

/-- What is cut off in front and behind is in `p`. -/
structure Trims (p : α → Prop) (s t : List α) : Prop where
  around : ∃ front back, s = front ++ t ++ back ∧ (∀ c ∈ front, p c) ∧ ∀ c ∈ back, p c
  bare : Bare p t

theorem Bare.reverse (bare : Bare p t) : Bare p t.reverse :=
  ⟨by rw [List.head?_reverse]; exact bare.last, by rw [List.getLast?_reverse]; exact bare.head⟩

theorem Bare.nil : Bare p [] := ⟨by simp, by simp⟩

/-- A front in `p` ends before a piece that begins outside of `p`. -/
theorem front_le {front f u v : List α} (same : front ++ u = f ++ v) (inside : ∀ c ∈ front, p c) (some : v ≠ [])
    (head : ∀ c ∈ v.head?, ¬ p c) : front.length ≤ f.length := by
  rcases List.append_eq_append_iff.mp same with ⟨more, rfl, -⟩ | ⟨more, rfl, rfl⟩
  · rw [List.length_append]
    omega
  · cases more with
    | nil => simp
    | cons c more =>
      have member : c ∈ f ++ c :: more := List.mem_append_right _ List.mem_cons_self
      exact absurd (inside c member) (head c rfl)

/-- A piece with bare ends lies between a front and a back in `p`. -/
theorem piece_between {front back f b : List α} (same : front ++ t ++ back = f ++ t' ++ b) (inFront : ∀ c ∈ front, p c)
    (inBack : ∀ c ∈ back, p c) (bare : Bare p t') (some : t' ≠ []) :
    front.length ≤ f.length ∧ back.length ≤ b.length := by
  constructor
  · rw [List.append_assoc, List.append_assoc] at same
    apply front_le same inFront (by simp [some])
    rw [List.head?_append_of_ne_nil _ some]
    exact bare.head
  · have turned := congrArg List.reverse same
    simp only [List.reverse_append] at turned
    have bound := front_le turned (fun c member => inBack c (List.mem_reverse.mp member)) (by simp [some]) (by
      rw [List.head?_append_of_ne_nil _ (by simp [some])]
      exact bare.reverse.head)
    simpa using bound

theorem Trims.isTrim (trims : Trims p s t) : IsTrim p s t := by
  obtain ⟨front, back, rfl, inFront, inBack⟩ := trims.around
  refine ⟨⟨front, back, rfl⟩, trims.bare, ?_⟩
  rintro t' ⟨f, b, same⟩ bare
  by_cases none : t' = []
  · simp [none]
  · have between := piece_between same.symm inFront inBack bare none
    have length := congrArg List.length same
    simp only [List.length_append] at length
    omega

theorem IsTrim.unique_of_trims (trim : IsTrim p s t') (trims : Trims p s t) : t' = t := by
  have same := Nat.le_antisymm (trims.isTrim.longest t' trim.piece trim.bare) (trim.longest t trims.isTrim.piece trims.bare)
  by_cases none : t' = []
  · rw [none, List.length_nil] at same
    rw [none, List.length_eq_zero_iff.mp same.symm]
  · obtain ⟨front, back, rfl, inFront, inBack⟩ := trims.around
    obtain ⟨f, b, whole⟩ := trim.piece
    have between := piece_between whole.symm inFront inBack trim.bare none
    have length := congrArg List.length whole
    simp only [List.length_append] at length
    have prefixes := (List.append_inj whole (by simp only [List.length_append]; omega)).1
    exact (List.append_inj prefixes (by omega)).2

theorem exists_front (p : α → Prop) (s : List α) :
    ∃ front t, s = front ++ t ∧ (∀ c ∈ front, p c) ∧ ∀ c ∈ t.head?, ¬ p c := by
  induction s with
  | nil => exact ⟨[], [], rfl, by simp, by simp⟩
  | cons c s ih =>
    by_cases inside : p c
    · obtain ⟨front, t, rfl, inFront, head⟩ := ih
      exact ⟨c :: front, t, rfl, List.forall_mem_cons.mpr ⟨inside, inFront⟩, head⟩
    · exact ⟨[], c :: s, rfl, by simp, by simpa using inside⟩

theorem exists_trims (p : α → Prop) (s : List α) : ∃ t, Trims p s t := by
  obtain ⟨front, u, rfl, inFront, head⟩ := exists_front p s
  obtain ⟨back, t, turned, inBack, last⟩ := exists_front p u.reverse
  have split : u = t.reverse ++ back.reverse := by rw [← List.reverse_append, ← turned, List.reverse_reverse]
  refine ⟨t.reverse, ⟨front, back.reverse, by rw [split, List.append_assoc], inFront, by simpa using inBack⟩, ?_, ?_⟩
  · rw [split, List.head?_append] at head
    rintro c member
    exact head c (by rw [member]; rfl)
  · rw [List.getLast?_reverse]
    exact last

theorem Trims.reverse (trims : Trims p s t) : Trims p s.reverse t.reverse := by
  obtain ⟨front, back, rfl, inFront, inBack⟩ := trims.around
  refine ⟨⟨back.reverse, front.reverse, by simp, ?_, ?_⟩, trims.bare.reverse⟩
  · simpa using inBack
  · simpa using inFront

/-- The first element of what is left is the first one that is not in `p`. -/
theorem Trims.head?_eq [DecidablePred p] (trims : Trims p s t) : t.head? = s.find? (fun c => ¬ p c) := by
  obtain ⟨front, back, rfl, inFront, inBack⟩ := trims.around
  have skipFront : front.find? (fun c => ¬ p c) = none := by simpa using inFront
  rw [List.append_assoc, List.find?_append, skipFront, Option.none_or]
  cases t with
  | nil =>
    symm
    simpa using inBack
  | cons c t => rw [List.cons_append, List.find?_cons_of_pos (by simpa using trims.bare.head c rfl), List.head?_cons]

theorem Trims.getLast?_eq [DecidablePred p] (trims : Trims p s t) :
    t.getLast? = s.reverse.find? (fun c => ¬ p c) := by
  rw [← List.head?_reverse, trims.reverse.head?_eq]

/-- The number of elements cut off: a run in front, and one behind of what is left. -/
def cut (p : α → Prop) [DecidablePred p] (s : List α) : Nat :=
  (s.takeWhile p).length + ((s.dropWhile p).reverse.takeWhile p).length

theorem takeWhile_bare [DecidablePred p] (head : ∀ c ∈ t.head?, ¬ p c) : t.takeWhile p = [] ∧ t.dropWhile p = t := by
  cases t with
  | nil => exact ⟨rfl, rfl⟩
  | cons c t =>
    have first := head c rfl
    simp [first]

theorem Trims.length_add_cut [DecidablePred p] (trims : Trims p s t) : t.length + cut p s = s.length := by
  obtain ⟨front, back, rfl, inFront, inBack⟩ := trims.around
  have allFront : ∀ c ∈ front, decide (p c) = true := fun c member => decide_eq_true (inFront c member)
  have allBack : ∀ c ∈ back.reverse, decide (p c) = true :=
    fun c member => decide_eq_true (inBack c (List.mem_reverse.mp member))
  rw [cut, List.append_assoc, List.takeWhile_append_of_pos allFront, List.dropWhile_append_of_pos allFront]
  cases t with
  | nil =>
    have all : ∀ c ∈ back, decide (p c) = true := fun c member => decide_eq_true (inBack c member)
    rw [List.nil_append, List.takeWhile_eq_self_iff.mpr all, List.dropWhile_eq_nil_iff.mpr all]
    simp
  | cons c t =>
    have first := takeWhile_bare (t := (c :: t) ++ back) (by simpa using trims.bare.head)
    have last := takeWhile_bare trims.bare.reverse.head
    rw [first.1, first.2, List.reverse_append, List.takeWhile_append_of_pos allBack, last.1]
    simp only [List.length_append, List.length_reverse, List.length_nil]
    omega

/-- A larger set, if the ends are not in it either. -/
theorem Trims.mono (trims : Trims p s t) (le : ∀ c, p c → q c) (bare : Bare q t) : Trims q s t := by
  obtain ⟨front, back, rfl, inFront, inBack⟩ := trims.around
  exact ⟨⟨front, back, rfl, fun c member => le c (inFront c member), fun c member => le c (inBack c member)⟩, bare⟩

end CodeClips.Trim
