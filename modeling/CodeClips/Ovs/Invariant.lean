import CodeClips.Ovs.Maps

/-!
# Runs of calls

Every call that the client may make comes to its end and keeps `Inv`, so that the maps hold their
nodes after any sequence of them. The one limit is the size that `resize` asks `malloc` for: it
is a product of 64 bits, 0 for a reserve of `2 ^ 61` nodes.
-/

namespace CodeClips.Ovs

section Invariant
variable {N M : Type}

inductive Call (N M : Type) where
  | insert (m : M) (node : N) (hash : BitVec 64)
  | insert_fast (m : M) (node : N) (hash : BitVec 64)
  | remove (m : M) (node : N)
  | shrink (m : M)
  | expand (m : M)
  | reserve (m : M) (n : BitVec 64)
  | swap (a b : M)

/-- Before any allocation: the members `one`. -/
def cellsAtStart : Buckets M → List (Option N)
  | .one _ => [none]
  | .array _ => []

/-- All maps as `hmap_init` leaves them. -/
def start (node : N → HmapNode N) : Memory N M :=
  { node := node
    hmap := fun x => { buckets := .one x, mask := 0, n := 0 }
    cells := cellsAtStart
    arrays := 0 }

def Client.start : Client N M := { owner := fun _ => none, hash := fun _ => 0 }

/-- Nodes of 16 bytes have place in a memory of `2 ^ 64`. -/
def Room (N : Type) : Prop := ∀ nodes : Finset N, 16 * nodes.card ≤ 2 ^ 64

/-- The map is large enough for its nodes. -/
def Bounded (s : Memory N M) (m : M) : Prop :=
  (s.hmap (.client m)).n.toNat ≤ 2 * (s.hmap (.client m)).mask.toNat + 1

variable {s s' : Memory N M} {c c' : Client N M} {m : M} {node : N}

theorem Room.ncard_le (room : Room N) {nodes : Set N} (finite : nodes.Finite) : nodes.ncard ≤ mostNodes := by
  have most := room finite.toFinset
  rw [← Set.ncard_eq_toFinset_card nodes finite] at most
  rw [mostNodes]
  omega

/-- The counter is the number of nodes. -/
theorem Inv.count_eq (room : Room N) (inv : Inv s c) (m : M) : (s.hmap (.client m)).n.toNat = (c.nodes m).ncard := by
  obtain ⟨table, holds⟩ := inv.holds m
  have most := room.ncard_le holds.finite
  rw [mostNodes] at most
  rw [holds.count, BitVec.toNat_ofNat, Nat.mod_eq_of_lt (by omega)]

/-- There are never so many that the size of their array wraps. -/
theorem Inv.count_lt (room : Room N) (inv : Inv s c) (m : M) : (s.hmap (.client m)).n.toNat < 2 ^ 61 := by
  obtain ⟨table, holds⟩ := inv.holds m
  have most := room.ncard_le holds.finite
  rw [mostNodes] at most
  rw [inv.count_eq room]
  omega

theorem inv_start (node : N → HmapNode N) : Inv (start node : Memory N M) Client.start := by
  constructor
  · intro m
    have none : (Client.start : Client N M).nodes m = ∅ := by
      ext node
      simp [Client.nodes, Client.start]
    rw [none]
    exact ⟨fun _ => [], holds_empty _ ⟨0, by simp [start], by omega⟩ (by simp [start]) (by simp [start])
      (by simp [start, cellsAtStart]) rfl⟩
  · intro m m' a first
    simp [start] at first

/-- The maps at the start are initialised. -/
theorem hmap_init_start [DecidableEq M] (node : N → HmapNode N) (x : Place M) :
    hmap_init (start node : Memory N M) x = start node := by
  have hmap : Function.update (start node : Memory N M).hmap x { buckets := .one x, mask := 0, n := 0 } =
      (start node : Memory N M).hmap := Function.update_eq_self x _
  have cells : Function.update (start node : Memory N M).cells (Buckets.one x) [none] =
      (start node : Memory N M).cells := Function.update_eq_self (Buckets.one x) _
  rw [hmap_init, hmap, cells]

/-! ## The calls -/

variable [DecidableEq N]

def Client.insert (c : Client N M) (m : M) (node : N) (hash : BitVec 64) : Client N M :=
  { owner := Function.update c.owner node (some m), hash := Function.update c.hash node hash }

def Client.remove (c : Client N M) (node : N) : Client N M :=
  { c with owner := Function.update c.owner node none }

theorem nodes_insert (c : Client N M) (m : M) (node : N) (h : BitVec 64) :
    (c.insert m node h).nodes m = insert node (c.nodes m) := by
  ext a
  show Function.update c.owner node (some m) a = some m ↔ a = node ∨ c.owner a = some m
  by_cases same : a = node
  · simp [same]
  · simp [same]

variable [DecidableEq M]

/-- What the client may do: it inserts nodes that are in no map, and removes them from theirs. -/
def Client.step (c : Client N M) : Call N M → Option (Client N M)
  | .insert m node hash => if c.owner node = none then some (c.insert m node hash) else none
  | .insert_fast m node hash => if c.owner node = none then some (c.insert m node hash) else none
  | .remove m node => if c.owner node = some m then some (c.remove node) else none
  | .shrink _ => some c
  | .expand _ => some c
  | .reserve _ _ => some c
  | .swap a b => some (c.swap a b)

def step (s : Memory N M) : Call N M → Option (Memory N M)
  | .insert m node hash => hmap_insert s (.client m) node hash
  | .insert_fast m node hash => hmap_insert_fast s (.client m) node hash
  | .remove m node => hmap_remove s (.client m) node
  | .shrink m => hmap_shrink s (.client m)
  | .expand m => hmap_expand s (.client m)
  | .reserve m n => hmap_reserve s (.client m) n
  | .swap a b => some (hmap_swap s (.client a) (.client b))

theorem insert_fast_inv (inv : Inv s c) (free : c.owner node = none) (m : M) (h : BitVec 64) :
    ∃ s', hmap_insert_fast s (.client m) node h = some s' ∧ Inv s' (c.insert m node h) := by
  obtain ⟨table, holds⟩ := inv.holds m
  have fresh : ∀ m', node ∉ c.nodes m' := by
    intro m' member
    exact absurd (free.symm.trans member) (by simp)
  obtain ⟨s', table', put, within, only⟩ := insert_fast_spec holds (fresh m) h
  refine ⟨s', put, inv.only only ⟨table', ?_⟩ ?_⟩
  · rw [nodes_insert]
    exact within
  · intro m' other
    constructor
    · ext a
      show Function.update c.owner node (some m) a = some m' ↔ c.owner a = some m'
      by_cases same : a = node
      · subst same
        simpa [free] using Ne.symm other
      · rw [Function.update_of_ne same]
    · intro a member
      have outside : a ≠ node := by
        rintro rfl
        exact fresh m' member
      exact ⟨outside, Function.update_of_ne outside _ _⟩

theorem remove_inv (room : Room N) (inv : Inv s c) (owned : c.owner node = some m) :
    ∃ s', hmap_remove s (.client m) node = some s' ∧ Inv s' (c.remove node) := by
  obtain ⟨table, holds⟩ := inv.holds m
  obtain ⟨s', table', taken, without, only⟩ := remove_spec holds owned (room.ncard_le holds.finite)
  refine ⟨s', taken, inv.only only ⟨table', ?_⟩ ?_⟩
  · have nodes : (c.remove node).nodes m = c.nodes m \ {node} := by
      ext a
      show Function.update c.owner node none a = some m ↔ c.owner a = some m ∧ a ≠ node
      by_cases same : a = node
      · simp [same]
      · simp [same]
    rw [nodes]
    exact without
  · intro m' other
    constructor
    · ext a
      show Function.update c.owner node none a = some m' ↔ c.owner a = some m'
      by_cases same : a = node
      · subst same
        simpa [owned] using Ne.symm other
      · rw [Function.update_of_ne same]
    · intro a member
      exact ⟨nodes_disjoint other member, rfl⟩

/-- Any resizing to the mask of a capacity for which the size of the array does not wrap. -/
theorem resize_inv (room : Room N) (inv : Inv s c) (m : M) {capacity : BitVec 64} (small : capacity.toNat < 2 ^ 61) :
    ∃ s', resize s (.client m) (calc_mask capacity) = some s' ∧ Inv s' c ∧
      (s'.hmap (.client m)).mask = calc_mask capacity ∧ (s'.hmap (.client m)).n = (s.hmap (.client m)).n := by
  obtain ⟨table, holds⟩ := inv.holds m
  obtain ⟨k, pow, -, fits⟩ := calc_mask_spec capacity
  obtain ⟨s', table', resized, same, mask, fresh, beside⟩ :=
    resize_spec (by simp) holds pow (fits small) (room.ncard_le holds.finite)
  exact ⟨s', resized, inv.beside beside ⟨table', same⟩ fresh, mask, same.count.trans holds.count.symm⟩

theorem reserve_inv (room : Room N) (inv : Inv s c) (m : M) {n : BitVec 64} (small : n.toNat < 2 ^ 61) :
    ∃ s', hmap_reserve s (.client m) n = some s' ∧ Inv s' c := by
  rw [hmap_reserve]
  split
  · obtain ⟨s', resized, inv', -⟩ := resize_inv room inv m small
    exact ⟨s', resized, inv'⟩
  · exact ⟨s, rfl, inv⟩

theorem shrink_inv (room : Room N) (inv : Inv s c) (m : M) : ∃ s', hmap_shrink s (.client m) = some s' ∧ Inv s' c := by
  rw [hmap_shrink]
  split
  · obtain ⟨s', resized, inv', -⟩ := resize_inv room inv m (inv.count_lt room m)
    exact ⟨s', resized, inv'⟩
  · exact ⟨s, rfl, inv⟩

/-- After an expansion there are at most two nodes for a bucket, and one more. -/
theorem expand_inv (room : Room N) (inv : Inv s c) (m : M) :
    ∃ s', hmap_expand s (.client m) = some s' ∧ Inv s' c ∧ Bounded s' m := by
  obtain ⟨-, -, half, -⟩ := calc_mask_spec (s.hmap (.client m)).n
  rw [hmap_expand]
  split
  · obtain ⟨s', resized, inv', mask, n⟩ := resize_inv room inv m (inv.count_lt room m)
    refine ⟨s', resized, inv', ?_⟩
    rw [Bounded, mask, n]
    omega
  · rename_i enough
    refine ⟨s, rfl, inv, ?_⟩
    rw [gt_iff_lt, BitVec.lt_def] at enough
    rw [Bounded]
    omega

theorem insert_inv (room : Room N) (inv : Inv s c) (free : c.owner node = none) (m : M) (h : BitVec 64) :
    ∃ s', hmap_insert s (.client m) node h = some s' ∧ Inv s' (c.insert m node h) ∧ Bounded s' m := by
  obtain ⟨s', put, inv'⟩ := insert_fast_inv inv free m h
  rw [hmap_insert, put]
  simp only [Option.bind_eq_bind, Option.bind_some]
  split
  · exact expand_inv room inv' m
  · rename_i enough
    refine ⟨s', rfl, inv', ?_⟩
    rw [gt_iff_lt, BitVec.lt_def, BitVec.toNat_udiv] at enough
    rw [Bounded]
    change ¬ _ < _ / 2 at enough
    omega

/-- **One call** that the client may make. -/
theorem step_inv (room : Room N) (inv : Inv s c) {call : Call N M} (legal : c.step call = some c')
    (small : ∀ m n, call = .reserve m n → n.toNat < 2 ^ 61) :
    ∃ s', step s call = some s' ∧ Inv s' c' ∧ ∀ m node hash, call = .insert m node hash → Bounded s' m := by
  cases call with
  | insert m node hash =>
    rw [Client.step] at legal
    by_cases free : c.owner node = none
    · rw [if_pos free] at legal
      obtain rfl := Option.some.inj legal
      obtain ⟨s', put, inv', bounded⟩ := insert_inv room inv free m hash
      refine ⟨s', put, inv', ?_⟩
      rintro _ _ _ ⟨⟩
      exact bounded
    · simp [free] at legal
  | insert_fast m node hash =>
    rw [Client.step] at legal
    by_cases free : c.owner node = none
    · rw [if_pos free] at legal
      obtain rfl := Option.some.inj legal
      obtain ⟨s', put, inv'⟩ := insert_fast_inv inv free m hash
      exact ⟨s', put, inv', by simp⟩
    · simp [free] at legal
  | remove m node =>
    rw [Client.step] at legal
    by_cases owned : c.owner node = some m
    · rw [if_pos owned] at legal
      obtain rfl := Option.some.inj legal
      obtain ⟨s', taken, inv'⟩ := remove_inv room inv owned
      exact ⟨s', taken, inv', by simp⟩
    · simp [owned] at legal
  | shrink m =>
    obtain rfl := Option.some.inj legal
    obtain ⟨s', shrunk, inv'⟩ := shrink_inv room inv m
    exact ⟨s', shrunk, inv', by simp⟩
  | expand m =>
    obtain rfl := Option.some.inj legal
    obtain ⟨s', expanded, inv', -⟩ := expand_inv room inv m
    exact ⟨s', expanded, inv', by simp⟩
  | reserve m n =>
    obtain rfl := Option.some.inj legal
    obtain ⟨s', reserved, inv'⟩ := reserve_inv room inv m (small m n rfl)
    exact ⟨s', reserved, inv', by simp⟩
  | swap a b =>
    obtain rfl := Option.some.inj legal
    exact ⟨_, rfl, inv.swap a b, by simp⟩

/-- **The maps hold their nodes** after every sequence of calls that the client may make. -/
theorem hmap_invariant (room : Room N) (node : N → HmapNode N) (calls : List (Call N M)) (c : Client N M)
    (legal : calls.foldlM Client.step Client.start = some c)
    (small : ∀ m n, .reserve m n ∈ calls → n.toNat < 2 ^ 61) :
    ∃ s, calls.foldlM step (start node) = some s ∧ Inv s c ∧
      (∀ m, (s.hmap (.client m)).n.toNat = (c.nodes m).ncard) ∧
      ∀ m node hash, calls.getLast? = some (.insert m node hash) → Bounded s m := by
  induction calls using List.reverseRecOn generalizing c with
  | nil =>
    obtain rfl := Option.some.inj legal
    exact ⟨start node, rfl, inv_start node, (inv_start node).count_eq room, by simp⟩
  | append_singleton calls call ih =>
    rw [List.foldlM_append] at legal
    obtain ⟨c', before, last⟩ := Option.bind_eq_some_iff.mp legal
    obtain ⟨s, ran, inv, -⟩ := ih c' before fun m n inside => small m n (List.mem_append_left _ inside)
    obtain ⟨c'', next, same⟩ := Option.bind_eq_some_iff.mp last
    obtain rfl := Option.some.inj same
    obtain ⟨s', stepped, inv', bounded⟩ := step_inv room inv next fun m n same =>
      small m n (List.mem_append_right _ (by simp [same]))
    refine ⟨s', ?_, inv', inv'.count_eq room, ?_⟩
    · rw [List.foldlM_append, ran]
      show (step s call).bind _ = _
      rw [stepped]
      rfl
    · intro m node hash called
      rw [List.getLast?_concat] at called
      exact bounded m node hash (Option.some.inj called)

/-! ## Three nodes, and a reserve that is too large -/

theorem room_three : Room (Fin 3) := by
  intro nodes
  have most := nodes.card_le_univ
  rw [Fintype.card_fin] at most
  omega

def nodeAtStart : Fin 3 → HmapNode (Fin 3) := fun _ => { hash := 0, next := none }

/-- Two maps: one grows to an array, and goes to the other by a swap. -/
def threeCalls : List (Call (Fin 3) Bool) :=
  [.insert false 0 5, .insert_fast true 1 9, .insert false 2 5, .reserve false 6, .swap false true, .remove true 0,
    .shrink true, .expand false, .insert false 0 7]

theorem hmap_invariant_three :
    ∃ c s, threeCalls.foldlM step (start nodeAtStart) = some s ∧ Inv s c ∧
      (∀ m, (s.hmap (.client m)).n.toNat = (c.nodes m).ncard) ∧
      ∀ m node hash, threeCalls.getLast? = some (.insert m node hash) → Bounded s m :=
  ⟨_, hmap_invariant room_three nodeAtStart threeCalls _ rfl (by simp [threeCalls])⟩

/-- `malloc` is asked for `8 * 2 ^ 61 = 0` bytes, and `2 ^ 61` cells of them are written. -/
theorem hmap_reserve_overflows :
    Room (Fin 3) ∧
      [(.reserve () 0x2000000000000000 : Call (Fin 3) Unit)].foldlM Client.step Client.start = some Client.start ∧
      [(.reserve () 0x2000000000000000 : Call (Fin 3) Unit)].foldlM step (start nodeAtStart) = none :=
  ⟨room_three, rfl, rfl⟩

end Invariant

end CodeClips.Ovs
