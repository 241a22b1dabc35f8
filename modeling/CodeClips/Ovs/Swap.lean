import CodeClips.Ovs.Holds

/-!
# New maps and swapped maps

An empty map holds nothing. A struct that is assigned to another map takes its bucket with it if
there is one only, and after the repair points to it.
-/

namespace CodeClips.Ovs

section Swap
variable {N M : Type}
variable {s s' : Memory N M} {x y : Place M} {hash : N → BitVec 64} {table : Nat → List N} {nodes : Set N}

theorem holds_empty (hash : N → BitVec 64) (pow : ∃ k, (s.hmap x).mask.toNat + 1 = 2 ^ k ∧ k ≤ 60)
    (inline : (s.hmap x).mask = 0 → (s.hmap x).buckets = .one x)
    (heap : (s.hmap x).mask ≠ 0 → ∃ a, (s.hmap x).buckets = .array a ∧ a < s.arrays)
    (cells : s.cells (s.hmap x).buckets = List.replicate ((s.hmap x).mask.toNat + 1) none) (n : (s.hmap x).n = 0) :
    Holds s x hash (fun _ => []) ∅ := by
  refine ⟨pow, inline, heap, ?_, ?_, ?_, spread_empty, Set.finite_empty, ?_⟩
  · rw [cells, List.length_replicate]
  · intro i head cell
    rw [cells] at cell
    exact (List.mem_replicate.mp (List.mem_of_getElem? cell)).2
  · intro a member
    exact absurd member (Set.notMem_empty a)
  · rw [n, Set.ncard_empty]
    rfl

/-- The struct as `hmap_moved` leaves it. -/
def repaired (x : Place M) (hmap : Hmap M) : Hmap M :=
  if hmap.mask = 0 then { hmap with buckets := .one x } else hmap

theorem repaired_mask (x : Place M) (hmap : Hmap M) : (repaired x hmap).mask = hmap.mask := by
  rw [repaired]
  split <;> rfl

/-- A repair does not make an array. -/
theorem repaired_array {x : Place M} {hmap : Hmap M} {a : Nat} (array : (repaired x hmap).buckets = .array a) :
    hmap.buckets = .array a := by
  rw [repaired] at array
  split at array
  · simp at array
  · exact array

/-- A repaired struct points to its own bucket or to the array that it had. -/
theorem repaired_buckets (holds : Holds s y hash table nodes) (x : Place M) :
    (repaired x (s.hmap y)).buckets = .one x ∨
      ∃ a, a < s.arrays ∧ (s.hmap y).buckets = .array a ∧ (repaired x (s.hmap y)).buckets = .array a := by
  rw [repaired]
  by_cases single : (s.hmap y).mask = 0
  · rw [if_pos single]
    exact .inl rfl
  · obtain ⟨a, array, old⟩ := holds.heap single
    rw [if_neg single]
    exact .inr ⟨a, old, array, array⟩

/-- The struct and the bucket of `y` assigned to `x`, and the struct repaired. -/
theorem Holds.moved (holds : Holds s y hash table nodes) (hmap : s'.hmap x = repaired x (s.hmap y))
    (cells : s'.cells (s'.hmap x).buckets = s.cells (s.hmap y).buckets) (node : s'.node = s.node)
    (arrays : s'.arrays = s.arrays) : Holds s' x hash table nodes := by
  have mask : (s'.hmap x).mask = (s.hmap y).mask := by
    rw [hmap, repaired_mask]
  have n : (s'.hmap x).n = (s.hmap y).n := by
    rw [hmap, repaired]
    split <;> rfl
  constructor
  · rw [mask]
    exact holds.pow
  · rw [mask, hmap, repaired]
    intro single
    rw [if_pos single]
  · rw [mask, hmap, repaired, arrays]
    intro several
    rw [if_neg several]
    exact holds.heap several
  · rw [mask, cells]
    exact holds.length
  · rw [cells]
    have links : s'.links = s.links := by
      funext a
      rw [Memory.links, Memory.links, node]
    rw [links]
    exact holds.heads
  · rw [node]
    exact holds.hashes
  · rw [mask]
    exact holds.spread
  · exact holds.finite
  · rw [n]
    exact holds.count

/-- The buckets of a map after its struct has been assigned to another. -/
theorem cells_repaired (holds : Holds s y hash table nodes) {cells : Buckets M → List (Option N)}
    (one : cells (.one x) = s.cells (.one y)) (array : ∀ a, cells (.array a) = s.cells (.array a)) :
    cells (repaired x (s.hmap y)).buckets = s.cells (s.hmap y).buckets := by
  rw [repaired]
  by_cases single : (s.hmap y).mask = 0
  · rw [if_pos single, holds.inline single]
    exact one
  · obtain ⟨a, buckets, -⟩ := holds.heap single
    rw [if_neg single, buckets]
    exact array a

variable [DecidableEq M]

/-! ## The map tmp -/

/-- `tmp` as `resize` makes it. -/
def newTmp (s : Memory N M) (new_mask : BitVec 64) : Option (Memory N M) :=
  if new_mask = 0 then some (hmap_init s .tmp) else (hmap_init s .tmp).allocate new_mask

/-- **The new map** is empty, with buckets that no other map has. -/
theorem newTmp_spec (s : Memory N M) (hash : N → BitVec 64) {new_mask : BitVec 64} {k : Nat}
    (pow : new_mask.toNat + 1 = 2 ^ k) (small : k ≤ 60) :
    ∃ s', newTmp s new_mask = some s' ∧ Holds s' .tmp hash (fun _ => []) ∅ ∧ (s'.hmap .tmp).mask = new_mask ∧
      ((s'.hmap .tmp).buckets = .one .tmp ∨ (s'.hmap .tmp).buckets = .array s.arrays) ∧
      s'.node = s.node ∧ (∀ y, y ≠ .tmp → s'.hmap y = s.hmap y) ∧
      (∀ b, b ≠ .one .tmp → b ≠ .array s.arrays → s'.cells b = s.cells b) ∧ s.arrays ≤ s'.arrays := by
  by_cases single : new_mask = 0
  · subst single
    refine ⟨hmap_init s .tmp, if_pos rfl, ?_, ?_, .inl ?_, rfl, ?_, ?_, Nat.le_refl _⟩
    · apply holds_empty
      · exact ⟨0, by simp [hmap_init], by omega⟩
      · simp [hmap_init]
      · simp [hmap_init]
      · simp [hmap_init]
      · simp [hmap_init]
    · simp [hmap_init]
    · simp [hmap_init]
    · intro y other
      exact Function.update_of_ne other _ _
    · intro b other _
      exact Function.update_of_ne other _ _
  · have size := toNat_size pow small
    refine ⟨_, (if_neg single).trans (if_pos (by rw [size]; exact Nat.lt_succ_self _)), ?_, ?_, .inr ?_, rfl, ?_, ?_, ?_⟩
    · apply holds_empty
      · exact ⟨k, by simpa using pow, small⟩
      · intro zero
        exact absurd (by simpa using zero) single
      · intro _
        exact ⟨s.arrays, by simp [hmap_init], Nat.lt_succ_self _⟩
      · simp only [Function.update_self, size]
      · simp
    · simp
    · simp [hmap_init]
    · intro y other
      exact (Function.update_of_ne other _ _).trans (Function.update_of_ne other _ _)
    · intro b other fresh
      have fresh' : b ≠ .array (hmap_init s .tmp).arrays := fresh
      simp only [Function.update_of_ne fresh']
      exact Function.update_of_ne other _ _
    · exact Nat.le_succ _

/-! ## The swap -/

theorem hmap_moved_eq (s : Memory N M) (x : Place M) :
    hmap_moved s x = { s with hmap := Function.update s.hmap x (repaired x (s.hmap x)) } := by
  rw [hmap_moved, repaired]
  by_cases single : (s.hmap x).mask = 0
  · rw [if_pos single, if_pos single]
  · rw [if_neg single, if_neg single, Function.update_eq_self]

/-- What a swap of two maps leaves. -/
def swapped (s : Memory N M) (a b : Place M) : Memory N M :=
  { s with
    hmap := Function.update (Function.update s.hmap a (repaired a (s.hmap b))) b (repaired b (s.hmap a))
    cells := Function.update (Function.update s.cells (.one a) (s.cells (.one b))) (.one b) (s.cells (.one a)) }

theorem hmap_swap_eq (s : Memory N M) {a b : Place M} (apart : a ≠ b) : hmap_swap s a b = swapped s a b := by
  rw [hmap_swap]
  simp only [hmap_moved_eq, Memory.assign, swapped]
  congr 1
  funext y
  by_cases at_b : y = b
  · subst at_b
    simp [Function.update_of_ne (Ne.symm apart)]
  · by_cases at_a : y = a
    · subst at_a
      simp [Function.update_of_ne apart]
    · simp [Function.update_of_ne at_a, Function.update_of_ne at_b]

theorem swapped_first (s : Memory N M) {a b : Place M} (apart : a ≠ b) :
    (swapped s a b).hmap a = repaired a (s.hmap b) :=
  (Function.update_of_ne apart _ _).trans (Function.update_self _ _ _)

theorem swapped_second (s : Memory N M) (a b : Place M) : (swapped s a b).hmap b = repaired b (s.hmap a) :=
  Function.update_self _ _ _

theorem swapped_cells (s : Memory N M) {a b : Place M} {c : Buckets M} (first : c ≠ .one a) (second : c ≠ .one b) :
    (swapped s a b).cells c = s.cells c :=
  (Function.update_of_ne second _ _).trans (Function.update_of_ne first _ _)

theorem swapped_array (s : Memory N M) (a b : Place M) (c : Nat) :
    (swapped s a b).cells (.array c) = s.cells (.array c) :=
  swapped_cells s (by simp) (by simp)

/-- **hmap_swap**: each map holds what the other held. -/
theorem holds_swapped_first {a b : Place M} (apart : a ≠ b) (holds : Holds s b hash table nodes) :
    Holds (swapped s a b) a hash table nodes := by
  apply holds.moved (swapped_first s apart) _ rfl rfl
  rw [swapped_first s apart]
  apply cells_repaired holds _ (swapped_array s a b)
  exact (Function.update_of_ne (by simpa using apart) _ _).trans (Function.update_self _ _ _)

theorem holds_swapped_second {a b : Place M} (holds : Holds s a hash table nodes) :
    Holds (swapped s a b) b hash table nodes := by
  apply holds.moved (swapped_second s a b) _ rfl rfl
  rw [swapped_second s a b]
  exact cells_repaired holds (Function.update_self _ _ _) (swapped_array s a b)

theorem hmap_swap_self (holds : Holds s x hash table nodes) : hmap_swap s x x = s := by
  have whole : repaired x (s.hmap x) = s.hmap x := by
    rw [repaired]
    by_cases single : (s.hmap x).mask = 0
    · rw [if_pos single, ← holds.inline single]
    · rw [if_neg single]
  rw [hmap_swap]
  simp only [Memory.assign, Function.update_eq_self, hmap_moved_eq, whole]

/-! ## The end of tmp -/

/-- Only the array is taken away. -/
theorem hmap_destroy_spec (s : Memory N M) (x : Place M) :
    (hmap_destroy s x).node = s.node ∧ (hmap_destroy s x).hmap = s.hmap ∧ (hmap_destroy s x).arrays = s.arrays ∧
      ∀ b, b ≠ (s.hmap x).buckets → (hmap_destroy s x).cells b = s.cells b := by
  rw [hmap_destroy]
  split
  · exact ⟨rfl, rfl, rfl, fun b other => Function.update_of_ne other _ _⟩
  · exact ⟨rfl, rfl, rfl, fun _ _ => rfl⟩

end Swap

end CodeClips.Ovs
