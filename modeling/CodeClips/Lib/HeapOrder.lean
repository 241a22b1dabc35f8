import Mathlib.Data.Multiset.Range
import Mathlib.Data.Multiset.MapFold
import Mathlib.Logic.Equiv.Basic
import Mathlib.Tactic.Common

/-!
# Binary heaps in an array, with a hole

A heap of `n` elements is the front of an array. A sift keeps one element out of the array;
the place it was taken from, the hole, moves up or down until the element can be stored.
`HoleUp` and `HoleDown` say what holds of the array with the element stored in the hole: every
pair of a parent and a child is in order but the pairs the sift has still to look at. Moving
the hole keeps them and the contents (`HoleUp.move`, `HoleDown.move`, `contents_move`), and
when the element fits its place the array is a heap (`HoleUp.fill`, `HoleDown.fill`).
-/

namespace CodeClips

open Function

section Heap
variable {T : Type*}

/-- The place above `i`. -/
def parent (i : Nat) : Nat := (i - 1) / 2

theorem parent_lt {i : Nat} (below : 0 < i) : parent i < i := by
  unfold parent
  omega

theorem parent_eq_iff {i p : Nat} (below : 0 < i) : parent i = p ↔ i = 2 * p + 1 ∨ i = 2 * p + 2 := by
  unfold parent
  omega

/-! ## Contents -/

/-- The first `n` elements. -/
def contents (f : Nat → T) (n : Nat) : Multiset T := (Multiset.range n).map f

theorem contents_succ (f : Nat → T) (n : Nat) : contents f (n + 1) = f n ::ₘ contents f n := by
  rw [contents, Multiset.range_succ, Multiset.map_cons]
  rfl

theorem mem_contents {f : Nat → T} {n : Nat} {x : T} : x ∈ contents f n ↔ ∃ i, i < n ∧ f i = x := by
  simp [contents]

theorem contents_congr {f g : Nat → T} {n : Nat} (same : ∀ i, i < n → f i = g i) :
    contents f n = contents g n :=
  Multiset.map_congr rfl fun i mem => same i (Multiset.mem_range.mp mem)

/-- An element stored outside the first `n` is not among them. -/
theorem contents_update {f : Nat → T} {n c : Nat} (outside : n ≤ c) (x : T) :
    contents (update f c x) n = contents f n :=
  contents_congr fun i inside => update_of_ne (by omega) x f

/-- One element replaced. -/
theorem contents_replace (f : Nat → T) {n c : Nat} (inside : c < n) (x : T) :
    f c ::ₘ contents (update f c x) n = x ::ₘ contents f n := by
  induction n with
  | zero => omega
  | succ n ih =>
    rw [contents_succ, contents_succ]
    by_cases last : c = n
    · subst last
      rw [update_self, contents_update (Nat.le_refl c), Multiset.cons_swap]
    · rw [update_of_ne (Ne.symm last), Multiset.cons_swap, ih (by omega), Multiset.cons_swap]

/-- Two places swapped. -/
theorem contents_swap {f : Nat → T} {n i j : Nat} (hi : i < n) (hj : j < n) :
    contents (f ∘ Equiv.swap i j) n = contents f n := by
  have places : (Multiset.range n).map (Equiv.swap i j) = Multiset.range n := by
    refine Multiset.Nodup.ext ((Multiset.nodup_range n).map (Equiv.swap i j).injective)
      (Multiset.nodup_range n) |>.mpr fun k => ?_
    simp only [Multiset.mem_map, Multiset.mem_range]
    constructor
    · rintro ⟨m, less, rfl⟩
      rw [Equiv.swap_apply_def]
      split_ifs <;> assumption
    · intro less
      refine ⟨Equiv.swap i j k, ?_, Equiv.swap_apply_self i j k⟩
      rw [Equiv.swap_apply_def]
      split_ifs <;> assumption
  rw [contents, ← Multiset.map_map, places]
  rfl

/-- Moving the hole from `c` to `p` swaps the two places of the filled array. -/
theorem fill_move (f : Nat → T) {c p : Nat} (differ : c ≠ p) (x : T) :
    update (update f c (f p)) p x = update f c x ∘ Equiv.swap c p := by
  funext i
  rw [comp_apply, Equiv.swap_apply_def]
  by_cases hp : i = p
  · subst hp
    rw [if_neg differ.symm, if_pos rfl, update_self, update_self]
  · rw [update_of_ne hp]
    by_cases hc : i = c
    · rw [hc, if_pos rfl, update_self, update_of_ne differ.symm]
    · rw [if_neg hc, if_neg hp, update_of_ne hc, update_of_ne hc]

theorem contents_move (f : Nat → T) {n c p : Nat} (differ : c ≠ p) (hc : c < n) (hp : p < n) (x : T) :
    contents (update (update f c (f p)) p x) n = contents (update f c x) n := by
  rw [fill_move f differ, contents_swap hc hp]

/-! ## Order -/

variable [Preorder T]

/-- No element is less than the one above it. -/
def HeapOrdered (f : Nat → T) (n : Nat) : Prop := ∀ i, 0 < i → i < n → f (parent i) ≤ f i

/-- The first element is a least one. -/
theorem HeapOrdered.first_le {f : Nat → T} {n : Nat} (ordered : HeapOrdered f n) {i : Nat} (inside : i < n) :
    f 0 ≤ f i := by
  induction i using Nat.strong_induction_on with
  | _ i ih =>
    rcases Nat.eq_zero_or_pos i with rfl | below
    · exact le_rfl
    · have up := parent_lt below
      exact (ih (parent i) up (up.trans inside)).trans (ordered i below inside)

/-- Sifting up, `x` in the hole `c`: only the pair of `c` and the place above may be out of
order, and the children of `c` are in order with that place. -/
structure HoleUp (f : Nat → T) (n c : Nat) (x : T) : Prop where
  others : ∀ i, 0 < i → i < n → i ≠ c → update f c x (parent i) ≤ update f c x i
  above : 0 < c → ∀ i, 0 < i → i < n → parent i = c → f (parent c) ≤ f i

theorem HoleUp.fill {f : Nat → T} {n c : Nat} {x : T} (hole : HoleUp f n c x)
    (stop : 0 < c → f (parent c) ≤ x) : HeapOrdered (update f c x) n := by
  intro i below inside
  by_cases here : i = c
  · subst here
    have up := parent_lt below
    rw [update_self, update_of_ne up.ne]
    exact stop below
  · exact hole.others i below inside here

theorem HoleUp.move {f : Nat → T} {n c : Nat} {x : T} (hole : HoleUp f n c x) (below : 0 < c) (inside : c < n)
    (go : x ≤ f (parent c)) : HoleUp (update f c (f (parent c))) n (parent c) x := by
  have up := parent_lt below
  constructor
  · intro i ipos ilt inot
    rw [update_of_ne inot]
    by_cases ic : i = c
    · rw [ic, update_self, update_self]
      exact go
    · have old := hole.others i ipos ilt ic
      rw [update_of_ne ic] at old ⊢
      by_cases toc : parent i = c
      · rw [toc, update_of_ne up.ne', update_self]
        exact hole.above below i ipos ilt toc
      · rw [update_of_ne toc] at old
        by_cases top : parent i = parent c
        · rw [top, update_self]
          rw [top] at old
          exact go.trans old
        · rw [update_of_ne top, update_of_ne toc]
          exact old
  · intro ppos i ipos ilt top
    have upper := parent_lt ppos
    have pair : f (parent (parent c)) ≤ f (parent c) := by
      have old := hole.others (parent c) ppos (up.trans inside) up.ne
      rwa [update_of_ne up.ne, update_of_ne (upper.trans up).ne] at old
    rw [update_of_ne (upper.trans up).ne]
    by_cases ic : i = c
    · rw [ic, update_self]
      exact pair
    · have old := hole.others i ipos ilt ic
      rw [update_of_ne ic, top, update_of_ne up.ne] at old
      rw [update_of_ne ic]
      exact pair.trans old

/-- Sifting down, `x` in the hole `h`: only the pairs of `h` and its children may be out of
order, and the children are in order with the place above `h`. -/
structure HoleDown (f : Nat → T) (n h : Nat) (x : T) : Prop where
  others : ∀ i, 0 < i → i < n → parent i ≠ h → update f h x (parent i) ≤ update f h x i
  below : 0 < h → ∀ i, 0 < i → i < n → parent i = h → f (parent h) ≤ f i

theorem HoleDown.fill {f : Nat → T} {n h : Nat} {x : T} (hole : HoleDown f n h x)
    (stop : ∀ i, 0 < i → i < n → parent i = h → x ≤ f i) : HeapOrdered (update f h x) n := by
  intro i ipos inside
  by_cases here : parent i = h
  · have up := parent_lt ipos
    rw [here, update_self, update_of_ne (by omega)]
    exact stop i ipos inside here
  · exact hole.others i ipos inside here

theorem HoleDown.move {f : Nat → T} {n h c : Nat} {x : T} (hole : HoleDown f n h x) (cpos : 0 < c)
    (inside : c < n) (child : parent c = h) (go : f c ≤ x) (least : ∀ i, 0 < i → i < n → parent i = h → f c ≤ f i) :
    HoleDown (update f h (f c)) n c x := by
  have up : h < c := child ▸ parent_lt cpos
  constructor
  · intro i ipos ilt inot
    have iup := parent_lt ipos
    rw [update_of_ne inot]
    by_cases ih : parent i = h
    · rw [ih, update_self]
      by_cases ic : i = c
      · rw [ic, update_self]
        exact go
      · rw [update_of_ne ic, update_of_ne (by omega)]
        exact least i ipos ilt ih
    · have old := hole.others i ipos ilt ih
      rw [update_of_ne ih] at old ⊢
      have ic : i ≠ c := fun same => ih (same ▸ child)
      rw [update_of_ne ic]
      by_cases ieq : i = h
      · subst ieq
        rw [update_self]
        exact hole.below ipos c cpos inside child
      · rw [update_of_ne ieq] at old ⊢
        exact old
  · intro _ i ipos ilt ic
    have iup := parent_lt ipos
    have old := hole.others i ipos ilt (by omega)
    rw [ic, update_of_ne up.ne', update_of_ne (by omega)] at old
    rw [child, update_self, update_of_ne (by omega)]
    exact old

end Heap

end CodeClips
