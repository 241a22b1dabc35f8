import CodeClips.Ovs.InsertRemove
import CodeClips.Ovs.Swap

/-!
# Resizing

The nodes of a map go one by one to the map `tmp`, bucket after bucket. The buckets that are
still to be read stay as they are, for their nodes have not been moved. Then the two structs
are swapped, and `tmp` goes with the old array.
-/

namespace CodeClips.Ovs

section Loops
variable {N M : Type} [DecidableEq N] [DecidableEq M]
variable {s s' : Memory N M} {x : Place M} {hash : N → BitVec 64} {table : Nat → List N} {nodes : Set N}

/-! ## The two loops -/

/-- The nodes of a list go to `tmp`. -/
theorem moveNodes_spec {p : Option N} {rest : List N} {fuel : Nat} (holds : Holds s .tmp hash table nodes)
    (segment : Segment s.links p rest none) (nodup : rest.Nodup) (fresh : ∀ a ∈ rest, a ∉ nodes)
    (hashes : ∀ a ∈ rest, (s.node a).hash = hash a) (enough : rest.length ≤ fuel) :
    ∃ s' table', moveNodes fuel s p = some s' ∧ Holds s' .tmp hash table' (nodes ∪ {a | a ∈ rest}) ∧
      Only s s' .tmp {a | a ∈ rest} := by
  induction rest generalizing s table nodes p fuel with
  | nil =>
    obtain rfl : p = none := segment
    refine ⟨s, table, ?_, ?_, Only.refl _ _ _⟩
    · cases fuel with
      | zero => rfl
      | succ fuel => rfl
    · simpa using holds
  | cons node rest ih =>
    obtain ⟨rfl, later⟩ := segment
    obtain ⟨unique, nodup⟩ := List.nodup_cons.mp nodup
    rw [List.length_cons] at enough
    obtain ⟨fuel, rfl⟩ : ∃ k, fuel = k + 1 := ⟨fuel - 1, by omega⟩
    obtain ⟨s', table', put, within, only⟩ := insert_fast_spec holds (fresh node List.mem_cons_self) (s.node node).hash
    -- the node keeps its hash
    rw [hashes node List.mem_cons_self, Function.update_eq_self] at within
    have kept : ∀ a ∈ rest, s'.node a = s.node a := by
      intro a listed
      apply only.node
      rintro rfl
      exact unique listed
    have after : Segment s'.links (s.links node) rest none := by
      apply later.congr
      intro a listed
      rw [Memory.links, Memory.links, kept a listed]
    have fresh' : ∀ a ∈ rest, a ∉ insert node nodes := by
      intro a listed inside
      rcases inside with rfl | inside
      · exact unique listed
      · exact fresh a (List.mem_cons_of_mem node listed) inside
    have hashes' : ∀ a ∈ rest, (s'.node a).hash = hash a := by
      intro a listed
      rw [kept a listed]
      exact hashes a (List.mem_cons_of_mem node listed)
    have enough' : rest.length ≤ fuel := by omega
    obtain ⟨s'', table'', moved, all, only'⟩ := ih within after nodup fresh' hashes' enough'
    refine ⟨s'', table'', ?_, ?_, ?_⟩
    · rw [moveNodes, put]
      exact moved
    · have set : nodes ∪ {a | a ∈ node :: rest} = insert node nodes ∪ {a | a ∈ rest} := by
        ext a
        simp only [Set.mem_union, Set.mem_insert_iff, Set.mem_ofPred_eq, List.mem_cons]
        tauto
      rw [set]
      exact all
    · apply only.trans only'
      · intro a same
        exact List.mem_cons.mpr (.inl same)
      · intro a listed
        exact List.mem_cons_of_mem node listed

/-- The nodes of `count` buckets of the map `x` go to `tmp`, those of the buckets before are there. -/
theorem moveBuckets_spec {lists : Nat → List N} {mask : BitVec 64} {i count : Nat} (other : x ≠ .tmp)
    (separate : (s.hmap x).buckets ≠ (s.hmap .tmp).buckets)
    (length : (s.cells (s.hmap x).buckets).length = i + count)
    (heads : ∀ j head, i ≤ j → (s.cells (s.hmap x).buckets)[j]? = some head → Segment s.links head (lists j) none)
    (spread : Spread (index hash mask) lists nodes) (hashes : ∀ a ∈ nodes, (s.node a).hash = hash a)
    (few : ∀ j, (lists j).length ≤ mostNodes)
    (holds : Holds s .tmp hash table {a | a ∈ nodes ∧ index hash mask a < i}) :
    ∃ s' table', moveBuckets x i count s = some s' ∧
      Holds s' .tmp hash table' {a | a ∈ nodes ∧ index hash mask a < i + count} ∧ Only s s' .tmp nodes := by
  induction count generalizing s table i with
  | zero => exact ⟨s, table, rfl, holds, Only.refl _ _ _⟩
  | succ count ih =>
    have here := List.getElem?_eq_getElem (l := s.cells (s.hmap x).buckets) (i := i) (by omega)
    have fresh : ∀ a ∈ lists i, a ∉ {a | a ∈ nodes ∧ index hash mask a < i} := by
      rintro a listed ⟨-, less⟩
      exact Nat.ne_of_lt less (spread.place_eq listed)
    obtain ⟨s', table', moved, within, only⟩ := moveNodes_spec holds (heads i _ (Nat.le_refl i) here) (spread.nodup i)
      fresh (fun a listed => hashes a (spread.mem listed)) (few i)
    have moves : {a | a ∈ lists i} ⊆ nodes := fun a listed => spread.mem listed
    rw [spread.below_succ] at within
    have same : s'.hmap x = s.hmap x := only.hmap x other
    have cells : s'.cells (s.hmap x).buckets = s.cells (s.hmap x).buckets := only.cells _ separate
    -- the buckets that are left have not lost a node
    have heads' : ∀ j head, i + 1 ≤ j → (s'.cells (s'.hmap x).buckets)[j]? = some head →
        Segment s'.links head (lists j) none := by
      intro j head left cell
      rw [same, cells] at cell
      apply (heads j head (by omega) cell).congr
      intro a listed
      rw [Memory.links, Memory.links, only.node a (spread.not_mem (by omega) listed)]
    have hashes' : ∀ a ∈ nodes, (s'.node a).hash = hash a := by
      intro a member
      by_cases listed : a ∈ lists i
      · exact within.hashes a ⟨member, by rw [spread.place_eq listed]; omega⟩
      · rw [only.node a listed]
        exact hashes a member
    obtain ⟨s'', table'', rest, all, only'⟩ := ih (by rw [same, only.buckets]; exact separate)
      (by rw [same, cells]; omega) heads' hashes' within
    refine ⟨s'', table'', ?_, ?_, only.trans only' moves fun a member => member⟩
    · rw [moveBuckets]
      simp only [here, Option.bind_eq_bind, Option.bind_some, moved]
      exact rest
    · rw [Nat.add_succ, ← Nat.succ_add]
      exact all

end Loops

/-! ## The swap with tmp -/

section Filled
variable {N M : Type} [DecidableEq M]
variable {s s' : Memory N M} {x : Place M} {hash : N → BitVec 64} {table : Nat → List N} {nodes : Set N} {new_mask : BitVec 64}

/-- The map `tmp` has been made, and the nodes have gone to it. -/
structure Filled (s s' : Memory N M) (new_mask : BitVec 64) (nodes : Set N) : Prop where
  mask : (s'.hmap .tmp).mask = new_mask
  buckets : (s'.hmap .tmp).buckets = .one .tmp ∨ (s'.hmap .tmp).buckets = .array s.arrays
  node : ∀ a, a ∉ nodes → s'.node a = s.node a
  hmap : ∀ y, y ≠ .tmp → s'.hmap y = s.hmap y
  cells : ∀ b, b ≠ .one .tmp → b ≠ .array s.arrays → s'.cells b = s.cells b
  arrays : s.arrays ≤ s'.arrays

/-- From `s` to `s'` the client's maps have not changed, but maybe the one at `x` and its nodes. -/
structure Beside (s s' : Memory N M) (x : Place M) (nodes : Set N) : Prop where
  node : ∀ a, a ∉ nodes → s'.node a = s.node a
  hmap : ∀ y, y ≠ x → y ≠ .tmp → s'.hmap y = s.hmap y
  cells : ∀ b, b ≠ (s.hmap x).buckets → b ≠ .one x → b ≠ .one .tmp → (∀ a, b = .array a → a < s.arrays) →
    s'.cells b = s.cells b
  arrays : s.arrays ≤ s'.arrays

/-- The map at `x` gets its own bucket or the new array. -/
theorem Filled.new_buckets (filled : Filled s s' new_mask nodes) (other : x ≠ .tmp)
    (holds : Holds s' .tmp hash table nodes) :
    ((swapped s' x .tmp).hmap x).buckets = .one x ∨ ((swapped s' x .tmp).hmap x).buckets = .array s.arrays := by
  rw [swapped_first s' other]
  rcases repaired_buckets holds x with single | ⟨a, -, array, same⟩
  · exact .inl single
  · have fresh := filled.buckets.resolve_left (by simp [array])
    rw [same, ← array]
    exact .inr fresh

/-- With `tmp` goes its own bucket or the array that the map at `x` had. -/
theorem Filled.old_buckets (filled : Filled s s' new_mask nodes) (other : x ≠ .tmp) (holds : Holds s x hash table nodes) :
    ((swapped s' x .tmp).hmap .tmp).buckets = .one .tmp ∨
      ∃ a, a < s.arrays ∧ (s.hmap x).buckets = .array a ∧ ((swapped s' x .tmp).hmap .tmp).buckets = .array a := by
  rw [swapped_second, filled.hmap x other]
  exact repaired_buckets holds .tmp

theorem Filled.beside (filled : Filled s s' new_mask nodes) (other : x ≠ .tmp) (holds : Holds s x hash table nodes) :
    Beside s (hmap_destroy (swapped s' x .tmp) .tmp) x nodes := by
  obtain ⟨node, hmap, arrays, cells⟩ := hmap_destroy_spec (swapped s' x .tmp) .tmp
  constructor
  · intro a outside
    rw [node]
    exact filled.node a outside
  · intro y beside client
    rw [hmap]
    show Function.update (Function.update s'.hmap x _) .tmp _ y = _
    rw [Function.update_of_ne client, Function.update_of_ne beside, filled.hmap y client]
  · intro b notOld notOneX notOneTmp allocated
    have notFresh : b ≠ .array s.arrays := fun same => Nat.lt_irrefl _ (allocated _ same)
    have notFreed : b ≠ ((swapped s' x .tmp).hmap .tmp).buckets := by
      rcases filled.old_buckets other holds with single | ⟨a, -, array, same⟩
      · rwa [single]
      · rwa [same, ← array]
    rw [cells b notFreed, swapped_cells s' notOneX notOneTmp, filled.cells b notOneTmp notFresh]
  · rw [arrays]
    exact filled.arrays

end Filled

/-! ## All of it -/

section Resize
variable {N M : Type} [DecidableEq N] [DecidableEq M]
variable {s s' : Memory N M} {x : Place M} {hash : N → BitVec 64} {table : Nat → List N} {nodes : Set N}

theorem resize_eq {s₁ s₂ : Memory N M} {new_mask : BitVec 64} (pow2 : is_pow2 (new_mask + 1) = true)
    (made : newTmp s new_mask = some s₁)
    (moved : moveBuckets x 0 ((s₁.hmap x).mask.toNat + 1) s₁ = some s₂) :
    resize s x new_mask = some (hmap_destroy (hmap_swap s₂ x .tmp) .tmp) := by
  rw [newTmp] at made
  rw [resize, if_pos pow2]
  by_cases single : new_mask = 0
  · rw [if_pos single] at made
    obtain rfl := Option.some.inj made
    simp only [if_pos single, moved, Option.bind_eq_bind, Option.bind_some]
  · rw [if_neg single] at made
    simp only [if_neg single, made, moved, Option.bind_eq_bind, Option.bind_some]

/-- What is left to do when all nodes are in `tmp`. -/
theorem resize_filled (other : x ≠ .tmp) (holds : Holds s x hash table nodes) {new_mask : BitVec 64} {k : Nat}
    (pow : new_mask.toNat + 1 = 2 ^ k) (small : k ≤ 60) (few : nodes.ncard ≤ mostNodes) :
    ∃ s' table', resize s x new_mask = some (hmap_destroy (swapped s' x .tmp) .tmp) ∧
      Holds s' .tmp hash table' nodes ∧ Filled s s' new_mask nodes := by
  obtain ⟨s₁, made, empty, mask, tmp, node, hmap, cells, arrays⟩ := newTmp_spec s hash pow small
  obtain ⟨notOne, notNew⟩ := holds.buckets_ne (Ne.symm other)
  have holds₁ : Holds s₁ x hash table nodes :=
    holds.frame (hmap x other) (cells _ notOne notNew) (fun a _ => by rw [node]) arrays
  have separate : (s₁.hmap x).buckets ≠ (s₁.hmap .tmp).buckets := by
    rw [hmap x other]
    rcases tmp with tmp | tmp
    · rw [tmp]
      exact notOne
    · rw [tmp]
      exact notNew
  have none : {a | a ∈ nodes ∧ index hash (s₁.hmap x).mask a < 0} = ∅ := by
    ext a
    simp
  obtain ⟨s₂, table', moved, all, only⟩ := moveBuckets_spec other separate (holds₁.length.trans (Nat.zero_add _).symm)
    (fun j head _ => holds₁.heads j head) holds₁.spread holds₁.hashes (fun j => (holds₁.length_le j).trans few)
    (by rw [none]; exact empty)
  have whole : {a | a ∈ nodes ∧ index hash (s₁.hmap x).mask a < 0 + ((s₁.hmap x).mask.toNat + 1)} = nodes := by
    ext a
    have inside := holds₁.index_lt (hash a)
    rw [holds₁.length] at inside
    constructor
    · exact And.left
    · intro member
      exact ⟨member, by rw [Nat.zero_add]; exact inside⟩
  rw [whole] at all
  refine ⟨s₂, table', ?_, all, ?_⟩
  · rw [resize_eq (is_pow2_of_pow pow small) made moved, hmap_swap_eq s₂ other]
  · constructor
    · rw [only.mask, mask]
    · rwa [only.buckets]
    · intro a outside
      rw [only.node a outside, node]
    · intro y client
      rw [only.hmap y client, hmap y client]
    · intro b notOneTmp notFresh
      have notTmp : b ≠ (s₁.hmap .tmp).buckets := by
        rcases tmp with tmp | tmp
        · rwa [tmp]
        · rwa [tmp]
      rw [only.cells b notTmp, cells b notOneTmp notFresh]
    · rw [only.arrays]
      exact arrays

/-- **Resizing**: the map holds the same nodes, in an array that is its own. -/
theorem resize_spec (other : x ≠ .tmp) (holds : Holds s x hash table nodes) {new_mask : BitVec 64} {k : Nat}
    (pow : new_mask.toNat + 1 = 2 ^ k) (small : k ≤ 60) (few : nodes.ncard ≤ mostNodes) :
    ∃ s' table', resize s x new_mask = some s' ∧ Holds s' x hash table' nodes ∧ (s'.hmap x).mask = new_mask ∧
      (∀ a, (s'.hmap x).buckets = .array a → s.arrays ≤ a) ∧ Beside s s' x nodes := by
  obtain ⟨s₂, table', resized, all, filled⟩ := resize_filled other holds pow small few
  obtain ⟨node, hmap, arrays, cells⟩ := hmap_destroy_spec (swapped s₂ x .tmp) .tmp
  have new := filled.new_buckets other all
  have apart : ((swapped s₂ x .tmp).hmap x).buckets ≠ ((swapped s₂ x .tmp).hmap .tmp).buckets := by
    rcases new with single | fresh <;> rcases filled.old_buckets other holds with single' | ⟨a, old, -, array⟩
    · rw [single, single']
      simpa using other
    · simp [single, array]
    · simp [fresh, single']
    · rw [fresh, array]
      simpa using Nat.ne_of_gt old
  refine ⟨_, table', resized, ?_, ?_, ?_, filled.beside other holds⟩
  · exact (holds_swapped_first other all).frame (congrFun hmap x) (cells _ apart) (fun a _ => congrFun node a)
      (Nat.le_of_eq arrays.symm)
  · rw [hmap, swapped_first s₂ other, repaired_mask, filled.mask]
  · rw [hmap]
    intro a array
    rcases new with single | fresh
    · simp [single] at array
    · rw [fresh] at array
      exact Nat.le_of_eq (Buckets.array.inj array)

end Resize

end CodeClips.Ovs
