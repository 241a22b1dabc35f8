import CodeClips.Lib.HeapOrder
import Mathlib.Order.Defs.LinearOrder

/-!
# `MinHeap` of `MiniHeap.h`

`m_heap` is an array of `m_max_size` elements of which the first `m_cur_size` are in use.
`FilterUp` and `FilterDown` keep the moved element in `temp` and store it at the end. A
`MinHeap` carries the heap order; `keys` is what it holds.
-/

namespace CodeClips.Epoll

open Function

section Filters
variable {T : Type*} [LinearOrder T]

/-- The loop of `FilterUp`; it ends with `m_heap[child] = temp`. -/
def filterUpLoop (temp : T) (m_heap : Nat → T) (child : Nat) : Nat → T :=
  if _h : child > 0 then
    if temp ≥ m_heap (parent child) then update m_heap child temp
    else filterUpLoop temp (update m_heap child (m_heap (parent child))) (parent child)
  else update m_heap child temp
termination_by child
decreasing_by exact parent_lt ‹_›

def FilterUp (m_heap : Nat → T) (start : Nat) : Nat → T := filterUpLoop (m_heap start) m_heap start

/-- The child of `hole` the loop of `FilterDown` compares with: the smaller one. -/
def smallerChild (m_heap : Nat → T) (last : Int) (hole : Nat) : Nat :=
  if ((hole * 2 + 2 : Nat) : Int) ≤ last ∧ m_heap (hole * 2 + 1) > m_heap (hole * 2 + 2) then hole * 2 + 2
  else hole * 2 + 1

theorem lt_smallerChild (m_heap : Nat → T) (last : Int) (hole : Nat) : hole < smallerChild m_heap last hole := by
  unfold smallerChild
  split <;> omega

theorem smallerChild_le (m_heap : Nat → T) {last : Int} {hole : Nat} (some : ((hole * 2 + 1 : Nat) : Int) ≤ last) :
    (smallerChild m_heap last hole : Int) ≤ last := by
  unfold smallerChild
  split
  · rename_i second
    exact second.1
  · exact some

/-- The hole moves towards `last`. -/
theorem smallerChild_down (m_heap : Nat → T) {last : Int} {hole : Nat} (some : ((hole * 2 + 1 : Nat) : Int) ≤ last) :
    (last - smallerChild m_heap last hole).toNat < (last - hole).toNat := by
  have more := lt_smallerChild m_heap last hole
  have inside := smallerChild_le m_heap some
  omega

/-- The loop of `FilterDown`, where `last` is its parameter `end`. -/
def filterDownLoop (temp : T) (last : Int) (m_heap : Nat → T) (hole : Nat) : Nat → T :=
  if _h : ((hole * 2 + 1 : Nat) : Int) ≤ last then
    let child := smallerChild m_heap last hole
    if temp ≤ m_heap child then update m_heap hole temp
    else filterDownLoop temp last (update m_heap hole (m_heap child)) child
  else update m_heap hole temp
termination_by (last - hole).toNat
decreasing_by exact smallerChild_down m_heap _h

def FilterDown (m_heap : Nat → T) (start : Nat) (last : Int) : Nat → T :=
  filterDownLoop (m_heap start) last m_heap start

theorem filterUpLoop_spec {temp : T} {n : Nat} {f : Nat → T} {c : Nat} (hole : HoleUp f n c temp) (inside : c < n) :
    HeapOrdered (filterUpLoop temp f c) n ∧ contents (filterUpLoop temp f c) n = contents (update f c temp) n := by
  induction f, c using filterUpLoop.induct temp with
  | case1 f c below stop =>
    rw [filterUpLoop, dif_pos below, if_pos stop]
    exact ⟨hole.fill fun _ => stop, rfl⟩
  | case2 f c below go ih =>
    have up := parent_lt below
    rw [filterUpLoop, dif_pos below, if_neg go]
    obtain ⟨ordered, same⟩ := ih (hole.move below inside (le_of_not_ge go)) (up.trans inside)
    exact ⟨ordered, same.trans (contents_move f up.ne' inside (up.trans inside) temp)⟩
  | case3 f c first =>
    rw [filterUpLoop, dif_neg first]
    exact ⟨hole.fill fun below => absurd below first, rfl⟩

/-- The child compared with is inside the heap, and no child of the hole is less. -/
theorem smallerChild_spec {n : Nat} {f : Nat → T} {h : Nat} (some : ((h * 2 + 1 : Nat) : Int) ≤ (n : Int) - 1) :
    let c := smallerChild f ((n : Int) - 1) h
    c < n ∧ parent c = h ∧ ∀ i, 0 < i → i < n → parent i = h → f c ≤ f i := by
  intro c
  have inside := smallerChild_le f some
  have above := lt_smallerChild f ((n : Int) - 1) h
  have cases : c = h * 2 + 2 ∧ f (h * 2 + 1) > f (h * 2 + 2) ∨
      c = h * 2 + 1 ∧ ¬ (((h * 2 + 2 : Nat) : Int) ≤ (n : Int) - 1 ∧ f (h * 2 + 1) > f (h * 2 + 2)) := by
    by_cases second : ((h * 2 + 2 : Nat) : Int) ≤ (n : Int) - 1 ∧ f (h * 2 + 1) > f (h * 2 + 2)
    · exact .inl ⟨if_pos second, second.2⟩
    · exact .inr ⟨if_neg second, second⟩
  refine ⟨by omega, (parent_eq_iff (by omega)).mpr (by omega), ?_⟩
  intro i ipos ilt child
  rcases (parent_eq_iff ipos).mp child with first | second
  · rcases cases with ⟨eq, less⟩ | ⟨eq, -⟩
    · rw [eq, first, Nat.mul_comm 2 h]
      exact less.le
    · rw [eq, first, Nat.mul_comm 2 h]
  · rcases cases with ⟨eq, -⟩ | ⟨eq, not⟩
    · rw [eq, second, Nat.mul_comm 2 h]
    · rw [eq, second, Nat.mul_comm 2 h]
      exact le_of_not_gt fun less => not ⟨by omega, less⟩

theorem filterDownLoop_spec {temp : T} {n : Nat} {f : Nat → T} {h : Nat} (hole : HoleDown f n h temp) (inside : h < n) :
    HeapOrdered (filterDownLoop temp ((n : Int) - 1) f h) n ∧
    contents (filterDownLoop temp ((n : Int) - 1) f h) n = contents (update f h temp) n := by
  induction f, h using filterDownLoop.induct temp ((n : Int) - 1) with
  | case1 f h some child stop =>
    obtain ⟨clt, above, least⟩ := smallerChild_spec (f := f) some
    rw [filterDownLoop, dif_pos some]
    dsimp only
    rw [if_pos stop]
    exact ⟨hole.fill fun i ipos ilt at_h => stop.trans (least i ipos ilt at_h), rfl⟩
  | case2 f h some child go ih =>
    obtain ⟨clt, above, least⟩ := smallerChild_spec (f := f) some
    have lower := lt_smallerChild f ((n : Int) - 1) h
    rw [filterDownLoop, dif_pos some]
    dsimp only
    rw [if_neg go]
    obtain ⟨ordered, same⟩ := ih (hole.move (by omega) clt above (le_of_not_ge go) least) clt
    exact ⟨ordered, same.trans (contents_move f lower.ne inside clt temp)⟩
  | case3 f h none =>
    rw [filterDownLoop, dif_neg none]
    refine ⟨hole.fill fun i ipos ilt at_h => ?_, rfl⟩
    have which := (parent_eq_iff ipos).mp at_h
    omega

end Filters

/-! ## The class -/

/-- `MinHeap<T>`, with the order its operations keep. -/
structure MinHeap (T : Type*) [LinearOrder T] where
  m_max_size : Nat
  m_cur_size : Nat
  m_heap : Nat → T
  bounded : m_cur_size ≤ m_max_size
  ordered : HeapOrdered m_heap m_cur_size

namespace MinHeap
variable {T : Type*} [LinearOrder T]

/-- The constructor; `n` is 10000 by default. -/
def new [Inhabited T] (n : Nat) : MinHeap T :=
  { m_max_size := n, m_cur_size := 0, m_heap := fun _ => default, bounded := Nat.zero_le n
    ordered := fun _ _ inside => absurd inside (Nat.not_lt_zero _) }

/-- What the heap holds. -/
def keys (h : MinHeap T) : Multiset T := contents h.m_heap h.m_cur_size

/-- The new element in the first free place needs only to go up. -/
theorem insert_hole (h : MinHeap T) (x : T) :
    HoleUp (update h.m_heap h.m_cur_size x) (h.m_cur_size + 1) h.m_cur_size x := by
  constructor
  · intro i below inside other
    have up := parent_lt below
    rw [update_idem, update_of_ne (by omega), update_of_ne other]
    exact h.ordered i below (by omega)
  · intro below i ipos inside under
    have up := parent_lt ipos
    omega

/-- `false` when the heap is full. -/
def Insert (h : MinHeap T) (x : T) : MinHeap T × Bool :=
  if _h : h.m_cur_size = h.m_max_size then (h, false)
  else
    ({ m_max_size := h.m_max_size
       m_cur_size := h.m_cur_size + 1
       m_heap := FilterUp (update h.m_heap h.m_cur_size x) h.m_cur_size
       bounded := by
        have bounded := h.bounded
        omega
       ordered := by
        have hole := insert_hole h x
        rw [FilterUp, update_self]
        exact (filterUpLoop_spec hole (Nat.lt_succ_self _)).1 }, true)

/-- The last element in the first place needs only to go down. -/
theorem removeMin_hole (h : MinHeap T) (x : T) : HoleDown (update h.m_heap 0 x) (h.m_cur_size - 1) 0 x := by
  constructor
  · intro i below inside other
    rw [update_idem, update_of_ne other, update_of_ne (by omega)]
    exact h.ordered i below (by omega)
  · intro below
    omega

/-- Only called when the heap is not empty. -/
def RemoveMin (h : MinHeap T) : T × MinHeap T :=
  (h.m_heap 0,
    { m_max_size := h.m_max_size
      m_cur_size := h.m_cur_size - 1
      m_heap := FilterDown (update h.m_heap 0 (h.m_heap (h.m_cur_size - 1))) 0 (((h.m_cur_size - 1 : Nat) : Int) - 1)
      bounded := (Nat.sub_le _ _).trans h.bounded
      ordered := by
        have hole := removeMin_hole h (h.m_heap (h.m_cur_size - 1))
        rw [FilterDown, update_self]
        rcases Nat.eq_zero_or_pos (h.m_cur_size - 1) with none | some
        · rw [none]
          exact fun _ _ inside => absurd inside (Nat.not_lt_zero _)
        · exact (filterDownLoop_spec hole some).1 })

def GetMin (h : MinHeap T) : T := h.m_heap 0

def IsEmpty (h : MinHeap T) : Bool := 0 = h.m_cur_size

def IsFull (h : MinHeap T) : Bool := h.m_cur_size = h.m_max_size

/-! ## What the operations do to the contents -/

theorem card_keys (h : MinHeap T) : h.keys.card = h.m_cur_size := by
  simp [keys, contents]

theorem isEmpty_iff (h : MinHeap T) : h.IsEmpty ↔ h.keys = 0 := by
  rw [← Multiset.card_eq_zero, card_keys, IsEmpty, decide_eq_true_iff, eq_comm]

/-- **`Insert`** adds the element, or nothing when the heap is full. -/
theorem keys_Insert (h : MinHeap T) (x : T) :
    (h.Insert x).1.keys = if h.IsFull then h.keys else x ::ₘ h.keys := by
  unfold Insert IsFull
  by_cases full : h.m_cur_size = h.m_max_size
  · simp [full]
  · have hole := insert_hole h x
    have same := (filterUpLoop_spec hole (Nat.lt_succ_self _)).2
    rw [dif_neg full, if_neg (by simpa using full), keys]
    dsimp only
    rw [FilterUp, update_self, same, update_idem, contents_succ, update_self, contents_update (Nat.le_refl _)]
    rfl

/-- **`RemoveMin`** takes the first element out. -/
theorem keys_RemoveMin (h : MinHeap T) (some : ¬ h.IsEmpty) :
    h.GetMin ::ₘ h.RemoveMin.2.keys = h.keys := by
  have pos : 0 < h.m_cur_size := by
    simp only [IsEmpty, decide_eq_true_eq] at some
    omega
  obtain ⟨k, size⟩ : ∃ k, h.m_cur_size = k + 1 := ⟨h.m_cur_size - 1, by omega⟩
  have hole := removeMin_hole h (h.m_heap k)
  rw [size, Nat.add_sub_cancel] at hole
  rw [keys, keys, RemoveMin, GetMin]
  dsimp only
  rw [size, Nat.add_sub_cancel, FilterDown, update_self, contents_succ]
  rcases Nat.eq_zero_or_pos k with rfl | more
  · rfl
  · rw [(filterDownLoop_spec hole more).2, update_idem, contents_replace _ more]

/-- **`GetMin`** is a least element. -/
theorem GetMin_le {h : MinHeap T} {x : T} (mem : x ∈ h.keys) : h.GetMin ≤ x := by
  obtain ⟨i, inside, rfl⟩ := mem_contents.mp mem
  exact h.ordered.first_le inside

theorem m_max_size_Insert (h : MinHeap T) (x : T) : (h.Insert x).1.m_max_size = h.m_max_size := by
  unfold Insert
  split <;> rfl

end MinHeap

end CodeClips.Epoll
