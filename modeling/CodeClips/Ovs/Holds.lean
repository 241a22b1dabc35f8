import CodeClips.Lib.LinkedList
import CodeClips.Lib.Spread
import CodeClips.Ovs.CalcMask
import Mathlib.Data.Set.Card

/-!
# What a map holds

`Holds` says that a map in memory holds a set of nodes: they are spread over the lists of its
buckets by their hashes. What is outside of the map does not count (`Holds.frame`).
-/

namespace CodeClips.Ovs

section Holds
variable {N M : Type}

def Memory.links (s : Memory N M) (node : N) : Option N := (s.node node).next

/-- The bucket of a hash. -/
def index (hash : N → BitVec 64) (mask : BitVec 64) (node : N) : Nat := (hash node &&& mask).toNat

/-- The map at `x` holds `nodes`, which were given the hashes `hash`, in the lists `table`. -/
structure Holds (s : Memory N M) (x : Place M) (hash : N → BitVec 64) (table : Nat → List N) (nodes : Set N) :
    Prop where
  pow : ∃ k, (s.hmap x).mask.toNat + 1 = 2 ^ k ∧ k ≤ 60
  inline : (s.hmap x).mask = 0 → (s.hmap x).buckets = .one x
  heap : (s.hmap x).mask ≠ 0 → ∃ a, (s.hmap x).buckets = .array a ∧ a < s.arrays
  length : (s.cells (s.hmap x).buckets).length = (s.hmap x).mask.toNat + 1
  heads : ∀ i head, (s.cells (s.hmap x).buckets)[i]? = some head → Segment s.links head (table i) none
  hashes : ∀ node ∈ nodes, (s.node node).hash = hash node
  spread : Spread (index hash (s.hmap x).mask) table nodes
  finite : nodes.Finite
  count : (s.hmap x).n = BitVec.ofNat 64 nodes.ncard

/-- From `s` to `s'` nothing has changed but the map at `x`, its cells and the nodes of `nodes`. -/
structure Only (s s' : Memory N M) (x : Place M) (nodes : Set N) : Prop where
  node : ∀ a, a ∉ nodes → s'.node a = s.node a
  hmap : ∀ y, y ≠ x → s'.hmap y = s.hmap y
  buckets : (s'.hmap x).buckets = (s.hmap x).buckets
  mask : (s'.hmap x).mask = (s.hmap x).mask
  cells : ∀ b, b ≠ (s.hmap x).buckets → s'.cells b = s.cells b
  arrays : s'.arrays = s.arrays

variable {s s' s'' : Memory N M} {x y : Place M} {hash : N → BitVec 64} {table : Nat → List N} {nodes : Set N}

theorem Only.refl (s : Memory N M) (x : Place M) (nodes : Set N) : Only s s x nodes :=
  ⟨fun _ _ => rfl, fun _ _ => rfl, rfl, rfl, fun _ _ => rfl, rfl⟩

theorem Only.trans {nodes' changed : Set N} (first : Only s s' x nodes) (second : Only s' s'' x nodes')
    (within : nodes ⊆ changed) (within' : nodes' ⊆ changed) : Only s s'' x changed := by
  constructor
  · intro a outside
    rw [second.node a fun inside => outside (within' inside), first.node a fun inside => outside (within inside)]
  · intro y other
    rw [second.hmap y other, first.hmap y other]
  · rw [second.buckets, first.buckets]
  · rw [second.mask, first.mask]
  · intro b other
    rw [second.cells b (by rwa [first.buckets]), first.cells b other]
  · rw [second.arrays, first.arrays]

/-- A map is what its struct, its cells and its nodes are. -/
theorem Holds.frame (holds : Holds s x hash table nodes) (hmap : s'.hmap x = s.hmap x)
    (cells : s'.cells (s.hmap x).buckets = s.cells (s.hmap x).buckets) (same : ∀ a ∈ nodes, s'.node a = s.node a)
    (arrays : s.arrays ≤ s'.arrays) : Holds s' x hash table nodes := by
  constructor
  · rw [hmap]
    exact holds.pow
  · rw [hmap]
    exact holds.inline
  · rw [hmap]
    intro several
    obtain ⟨a, buckets, old⟩ := holds.heap several
    exact ⟨a, buckets, Nat.lt_of_lt_of_le old arrays⟩
  · rw [hmap, cells]
    exact holds.length
  · rw [hmap, cells]
    intro i head here
    apply (holds.heads i head here).congr
    intro a listed
    rw [Memory.links, Memory.links, same a (holds.spread.mem listed)]
  · intro a member
    rw [same a member]
    exact holds.hashes a member
  · rw [hmap]
    exact holds.spread
  · exact holds.finite
  · rw [hmap]
    exact holds.count

/-- After a change of the map's own cells and nodes, what they hold is to be shown. -/
theorem Holds.of_only (holds : Holds s x hash table nodes) {changed : Set N} (only : Only s s' x changed)
    {hash' : N → BitVec 64} {table' : Nat → List N} {nodes' : Set N}
    (length : (s'.cells (s.hmap x).buckets).length = (s.cells (s.hmap x).buckets).length)
    (heads : ∀ i head, (s'.cells (s.hmap x).buckets)[i]? = some head → Segment s'.links head (table' i) none)
    (hashes : ∀ node ∈ nodes', (s'.node node).hash = hash' node)
    (spread : Spread (index hash' (s.hmap x).mask) table' nodes') (finite : nodes'.Finite)
    (count : (s'.hmap x).n = BitVec.ofNat 64 nodes'.ncard) : Holds s' x hash' table' nodes' := by
  refine ⟨?_, ?_, ?_, ?_, ?_, hashes, ?_, finite, count⟩
  · rw [only.mask]
    exact holds.pow
  · rw [only.mask, only.buckets]
    exact holds.inline
  · rw [only.mask, only.buckets, only.arrays]
    exact holds.heap
  · rw [only.mask, only.buckets, length]
    exact holds.length
  · rw [only.buckets]
    exact heads
  · rw [only.mask]
    exact spread

/-- Another map is not changed with the map at `x`. -/
theorem Holds.other (holds : Holds s y hash table nodes) {changed : Set N} (only : Only s s' x changed) (apart : y ≠ x)
    (separate : (s.hmap y).buckets ≠ (s.hmap x).buckets) (disjoint : ∀ a ∈ nodes, a ∉ changed) :
    Holds s' y hash table nodes :=
  holds.frame (only.hmap y apart) (only.cells _ separate) (fun a member => only.node a (disjoint a member))
    (Nat.le_of_eq only.arrays.symm)

/-- A node given another hash is not in the map. -/
theorem Holds.rehash (holds : Holds s x hash table nodes) {hash' : N → BitVec 64}
    (same : ∀ a ∈ nodes, hash' a = hash a) : Holds s x hash' table nodes := by
  refine { holds with hashes := ?_, spread := ?_ }
  · intro a member
    rw [holds.hashes a member, same a member]
  · apply holds.spread.congr
    intro a member
    rw [index, index, same a member]

/-- The bucket of a hash is inside the array. -/
theorem Holds.index_lt (holds : Holds s x hash table nodes) (h : BitVec 64) :
    (h &&& (s.hmap x).mask).toNat < (s.cells (s.hmap x).buckets).length := by
  rw [holds.length, BitVec.toNat_and]
  exact Nat.lt_succ_of_le Nat.and_le_right

/-- A bucket has no more nodes than the map. -/
theorem Holds.length_le (holds : Holds s x hash table nodes) (i : Nat) : (table i).length ≤ nodes.ncard := by
  classical
  have within : (table i).toFinset.card ≤ nodes.ncard := by
    rw [← Set.ncard_coe_finset]
    apply Set.ncard_le_ncard _ holds.finite
    intro a inside
    exact holds.spread.mem (List.mem_toFinset.mp inside)
  rwa [List.toFinset_card_of_nodup (holds.spread.nodup i)] at within

theorem Holds.allocated (holds : Holds s x hash table nodes) {a : Nat} (array : (s.hmap x).buckets = .array a) :
    a < s.arrays := by
  by_cases single : (s.hmap x).mask = 0
  · simp [holds.inline single] at array
  · obtain ⟨b, array', old⟩ := holds.heap single
    rw [array] at array'
    obtain rfl := Buckets.array.inj array'
    exact old

/-- The array of a map is not one that is still to be allocated, nor the bucket of another map. -/
theorem Holds.buckets_ne (holds : Holds s x hash table nodes) (apart : y ≠ x) :
    (s.hmap x).buckets ≠ .one y ∧ (s.hmap x).buckets ≠ .array s.arrays := by
  by_cases single : (s.hmap x).mask = 0
  · rw [holds.inline single]
    exact ⟨fun same => apart (Buckets.one.inj same).symm, by simp⟩
  · obtain ⟨a, buckets, old⟩ := holds.heap single
    rw [buckets]
    exact ⟨by simp, fun same => Nat.ne_of_lt old (Buckets.array.inj same)⟩

end Holds

end CodeClips.Ovs
