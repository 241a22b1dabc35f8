import CodeClips.Epoll.MinHeap

/-!
# Sequences of operations on a `MinHeap`

What `Insert` has accepted and `RemoveMin` has returned since the constructor is kept beside the
heap (`MinHeap.Run`). `correct_of_run` says what holds of the heap after any such sequence; one
operation is `Kept.insert` or `Kept.removeMin`, and taking out the least element again and again is
`removals`.
-/

namespace CodeClips.Epoll

open Function

/-! ## Places that are not touched -/

section Frame
variable {T : Type*} [LinearOrder T]

/-- The way up changes nothing behind its start. -/
theorem filterUpLoop_of_lt {temp : T} {f : Nat → T} {c i : Nat} (outside : c < i) : filterUpLoop temp f c i = f i := by
  induction f, c using filterUpLoop.induct temp with
  | case1 f c below stop =>
    rw [filterUpLoop, dif_pos below, if_pos stop, update_of_ne outside.ne']
  | case2 f c below go ih =>
    rw [filterUpLoop, dif_pos below, if_neg go, ih ((parent_lt below).trans outside), update_of_ne outside.ne']
  | case3 f c first =>
    rw [filterUpLoop, dif_neg first, update_of_ne outside.ne']

/-- The way down changes nothing behind the last place. -/
theorem filterDownLoop_of_lt {temp : T} {last : Int} {f : Nat → T} {h i : Nat} (outside : h < i) (after : last < i) :
    filterDownLoop temp last f h i = f i := by
  induction f, h using filterDownLoop.induct temp last with
  | case1 f h some child stop =>
    rw [filterDownLoop, dif_pos some, if_pos stop, update_of_ne outside.ne']
  | case2 f h some child go ih =>
    have inside := smallerChild_le f some
    rw [filterDownLoop, dif_pos some, if_neg go, ih (by omega), update_of_ne outside.ne']
  | case3 f h none =>
    rw [filterDownLoop, dif_neg none, update_of_ne outside.ne']

end Frame

namespace MinHeap
variable {T : Type*} [LinearOrder T]

/-- Nothing is stored outside the array that the constructor allocates. -/
theorem Insert_of_le (h : MinHeap T) (x : T) {i : Nat} (outside : h.m_max_size ≤ i) :
    (h.Insert x).1.m_heap i = h.m_heap i := by
  have bounded := h.bounded
  unfold Insert
  split
  · rfl
  · dsimp only
    rw [FilterUp, filterUpLoop_of_lt (by omega), update_of_ne (by omega)]

/-- Behind the array nothing is written. -/
theorem RemoveMin_of_le (h : MinHeap T) (some : ¬ h.IsEmpty) {i : Nat} (outside : h.m_max_size ≤ i) :
    h.RemoveMin.2.m_heap i = h.m_heap i := by
  have bounded := h.bounded
  simp only [IsEmpty, decide_eq_true_eq] at some
  rw [RemoveMin]
  dsimp only
  rw [FilterDown, filterDownLoop_of_lt (by omega) (by omega), update_of_ne (by omega)]

/-! ## One operation -/

/-- A full heap refuses a key. -/
theorem Insert_full {h : MinHeap T} (full : h.IsFull) (x : T) : h.Insert x = (h, false) :=
  dif_pos (of_decide_eq_true full)

/-- And no other heap does. -/
theorem Insert_not_full {h : MinHeap T} (room : ¬ h.IsFull) (x : T) : (h.Insert x).2 = true := by
  rw [Insert, dif_neg]
  exact fun full => room (decide_eq_true full)

/-- The minimum is one of the keys. -/
theorem GetMin_mem {h : MinHeap T} (some : ¬ h.IsEmpty) : h.GetMin ∈ h.keys := by
  rw [← keys_RemoveMin h some]
  exact Multiset.mem_cons_self _ _

/-- Taking out the least element `k` times, or until there is none. -/
def removals : Nat → MinHeap T → List T
  | 0, _ => []
  | k + 1, h => if h.IsEmpty then [] else h.RemoveMin.1 :: removals k h.RemoveMin.2

/-- What is removed was there. -/
theorem mem_of_mem_removals {k : Nat} {h : MinHeap T} {x : T} (mem : x ∈ removals k h) : x ∈ h.keys := by
  induction k generalizing h with
  | zero => cases mem
  | succ k ih =>
    rw [removals] at mem
    split_ifs at mem with empty
    · cases mem
    · rw [← keys_RemoveMin h empty, Multiset.mem_cons]
      rw [List.mem_cons] at mem
      exact mem.imp id ih

/-- The elements come out in order: the first is below all that are left. -/
theorem removals_pairwise (k : Nat) (h : MinHeap T) : (removals k h).Pairwise (· ≤ ·) := by
  induction k generalizing h with
  | zero => exact .nil
  | succ k ih =>
    rw [removals]
    split_ifs with empty
    · exact .nil
    · refine .cons ?_ (ih _)
      intro x later
      have left : x ∈ h.keys := by
        rw [← keys_RemoveMin h empty]
        exact Multiset.mem_cons_of_mem (mem_of_mem_removals later)
      exact GetMin_le left

/-- As many times as there are elements, and all have come out. -/
theorem removals_all (k : Nat) (h : MinHeap T) (size : h.m_cur_size = k) : (removals k h : Multiset T) = h.keys := by
  induction k generalizing h with
  | zero =>
    have none : h.keys.card = 0 := (card_keys h).trans size
    rw [Multiset.card_eq_zero.mp none]
    rfl
  | succ k ih =>
    have some : ¬ h.IsEmpty := by
      simp only [IsEmpty, decide_eq_true_eq]
      omega
    have fewer : h.RemoveMin.2.m_cur_size = k := by
      change h.m_cur_size - 1 = k
      omega
    rw [removals, if_neg some, ← Multiset.cons_coe, ih _ fewer]
    exact keys_RemoveMin h some

/-! ## Sequences of operations -/

variable [Inhabited T]

/-- Operations on a heap constructed with `n`: the elements for which `Insert` has returned
`true`, and the elements that `RemoveMin` has returned. -/
inductive Run (n : Nat) : MinHeap T → Multiset T → Multiset T → Prop where
  | new : Run n (new n) 0 0
  | Insert {h : MinHeap T} {inserted removed : Multiset T} (run : Run n h inserted removed) (x : T) :
      Run n (h.Insert x).1 (if (h.Insert x).2 then x ::ₘ inserted else inserted) removed
  | RemoveMin {h : MinHeap T} {inserted removed : Multiset T} (run : Run n h inserted removed) (some : ¬ h.IsEmpty) :
      Run n h.RemoveMin.2 inserted (h.RemoveMin.1 ::ₘ removed)

/-- What the operations keep. -/
structure Kept (n : Nat) (h : MinHeap T) (inserted removed : Multiset T) : Prop where
  size : h.m_max_size = n
  balance : h.keys + removed = inserted
  untouched : ∀ i, n ≤ i → h.m_heap i = default

section Steps
variable {n : Nat} {h : MinHeap T} {inserted removed : Multiset T}

theorem kept_new (n : Nat) : Kept n (new n : MinHeap T) 0 0 := ⟨rfl, rfl, fun _ _ => rfl⟩

/-- The keys are counted when one comes in. -/
theorem Kept.insert (kept : Kept n h inserted removed) (x : T) :
    Kept n (h.Insert x).1 (if (h.Insert x).2 then x ::ₘ inserted else inserted) removed := by
  refine ⟨(m_max_size_Insert h x).trans kept.size, ?_, ?_⟩
  · rw [keys_Insert]
    by_cases full : h.IsFull
    · rw [if_pos full, Insert_full full, kept.balance]
      rfl
    · rw [if_neg full, Insert_not_full full, if_pos rfl, Multiset.cons_add, kept.balance]
  · intro i outside
    rw [Insert_of_le h x (kept.size ▸ outside), kept.untouched i outside]

/-- And when one is removed. -/
theorem Kept.removeMin (kept : Kept n h inserted removed) (some : ¬ h.IsEmpty) :
    Kept n h.RemoveMin.2 inserted (h.RemoveMin.1 ::ₘ removed) := by
  refine ⟨kept.size, ?_, ?_⟩
  · rw [Multiset.add_cons, ← Multiset.cons_add]
    exact (congrArg (· + removed) (keys_RemoveMin h some)).trans kept.balance
  · intro i outside
    rw [RemoveMin_of_le h some (kept.size ▸ outside), kept.untouched i outside]

/-- So they are counted over the whole run. -/
theorem Run.kept (run : Run n h inserted removed) : Kept n h inserted removed := by
  induction run with
  | new => exact kept_new n
  | Insert run x ih => exact ih.insert x
  | RemoveMin run some ih => exact ih.removeMin some

end Steps

/-- **`MinHeap`**: what holds of a heap after any sequence of operations. -/
structure Correct (n : Nat) (h : MinHeap T) (inserted removed : Multiset T) : Prop where
  /-- The array is in heap order. -/
  order : HeapOrdered h.m_heap h.m_cur_size
  /-- It holds what was inserted and not removed, in the places that were allocated. -/
  holds : removed ≤ inserted ∧ h.keys = inserted - removed
  untouched : ∀ i, n ≤ i → h.m_heap i = default
  /-- The least element, where there is one. -/
  least : ¬ h.IsEmpty → h.RemoveMin.1 = h.GetMin ∧ h.GetMin ∈ h.keys ∧ ∀ x ∈ h.keys, h.GetMin ≤ x
  empty : h.IsEmpty ↔ h.keys = 0
  /-- A heap of `n` elements accepts no more, and only such a heap. -/
  full : h.keys.card = n → ∀ x, h.Insert x = (h, false)
  room : h.keys.card ≠ n → ∀ x, (h.Insert x).2 = true
  /-- The elements come out in order, and all of them. -/
  sorted : ∀ k, (removals k h).Pairwise (· ≤ ·)
  drained : (removals h.m_cur_size h : Multiset T) = h.keys

/-- In every run the heap holds the keys that were inserted and not removed, and gives them in order. -/
theorem correct_of_run (n : Nat) (h : MinHeap T) (inserted removed : Multiset T) (run : Run n h inserted removed) :
    Correct n h inserted removed := by
  have kept := run.kept
  have isFull : h.IsFull ↔ h.keys.card = n := by
    rw [IsFull, decide_eq_true_iff, card_keys, kept.size]
  exact
    { order := h.ordered
      holds := by
        rw [← kept.balance, Multiset.add_sub_cancel_right]
        exact ⟨Multiset.le_add_left _ _, rfl⟩
      untouched := kept.untouched
      least := fun some => ⟨rfl, GetMin_mem some, fun _ => GetMin_le⟩
      empty := isEmpty_iff h
      full := fun size => Insert_full (isFull.mpr size)
      room := fun size => Insert_not_full (fun full => size (isFull.mp full))
      sorted := fun k => removals_pairwise k h
      drained := removals_all _ h rfl }

/-- A full heap of three elements. -/
def threeElements : MinHeap Nat := ((((new 3 : MinHeap Nat).Insert 3).1.Insert 1).1.Insert 2).1

/-- A fourth is refused, and the least of the three is taken out. -/
theorem correct_of_run_full :
    threeElements.Insert 0 = (threeElements, false) ∧ threeElements.RemoveMin.1 = 1 ∧
      Correct 3 threeElements.RemoveMin.2 {2, 1, 3} {1} := by
  have run : Run 3 threeElements {2, 1, 3} 0 := ((Run.new.Insert 3).Insert 1).Insert 2
  have correct := correct_of_run 3 threeElements {2, 1, 3} 0 run
  have keys : threeElements.keys = {2, 1, 3} := by
    rw [correct.holds.2, Multiset.sub_zero]
  have some : ¬ threeElements.IsEmpty := by
    rw [correct.empty, keys]
    exact Multiset.cons_ne_zero
  obtain ⟨removed, inside, least⟩ := correct.least some
  rw [keys] at inside least
  have one : threeElements.RemoveMin.1 = 1 := by
    have bound := least 1 (by simp)
    simp only [Multiset.insert_eq_cons, Multiset.mem_cons, Multiset.mem_singleton] at inside
    omega
  refine ⟨correct.full (by rw [keys]; rfl) 0, one, ?_⟩
  have run' := Run.RemoveMin run some
  rw [one] at run'
  exact correct_of_run 3 _ _ _ run'

end MinHeap

end CodeClips.Epoll
