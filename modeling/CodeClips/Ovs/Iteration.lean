import CodeClips.Lib.Iteration
import CodeClips.Ovs.Holds

/-!
# Iteration over a map

`hmap_first` and `hmap_next` find a node behind the last one by its link, or else in the buckets
behind its own; `hmap_at_position` finds it by the number of a bucket and a place in its list, which
are two `uint32_t`. Both go over the lists of the buckets one after another.
-/

namespace CodeClips.Ovs

section Iteration
variable {N M : Type}

/-! ## By the last node -/

/-- The loop from the bucket `i` on; a cell outside of the array is not read. -/
def hmap_next__ (s : Memory N M) (x : Place M) (i : Nat) : Option (Option N) :=
  if i ≤ (s.hmap x).mask.toNat then
    match (s.cells (s.hmap x).buckets)[i]? with
    | none => none
    | some (some node) => some (some node)
    | some none => hmap_next__ s x (i + 1)
  else some none
termination_by (s.hmap x).mask.toNat + 1 - i

def hmap_first (s : Memory N M) (x : Place M) : Option (Option N) := hmap_next__ s x 0

def hmap_next (s : Memory N M) (x : Place M) (node : N) : Option (Option N) :=
  match (s.node node).next with
  | some next => some (some next)
  | none => hmap_next__ s x (((s.node node).hash &&& (s.hmap x).mask).toNat + 1)

/-- `hmap_first`, then `hmap_next` of what has been returned. -/
def next_node (s : Memory N M) (x : Place M) : Option N → Option (Option N × Option N)
  | none => (hmap_first s x).map fun node => (node, node)
  | some node => (hmap_next s x node).map fun node => (node, node)

/-! ## By a position -/

structure Position where
  bucket : BitVec 32
  offset : BitVec 32

/-- The loop over the list of a bucket, in which `node` is the node number `n_idx`. -/
def nodeAt (s : Memory N M) (offset : Nat) : Nat → Nat → Option N → Option (Option N)
  | _, _, none => some none
  | 0, _, some _ => none
  | fuel + 1, n_idx, some node =>
    if n_idx = offset then some (some node) else nodeAt s offset fuel (n_idx + 1) (s.node node).next

/-- The position behind a node that has been found. -/
def Memory.behind (s : Memory N M) (x : Place M) (node : N) (offset : Nat) : Position :=
  let b_idx := ((s.node node).hash &&& (s.hmap x).mask).toNat
  match (s.node node).next with
  | some _ => { bucket := BitVec.ofNat 32 b_idx, offset := BitVec.ofNat 32 (offset + 1) }
  | none => { bucket := BitVec.ofNat 32 (b_idx + 1), offset := 0 }

/-- The loop over the buckets. -/
def atPosition (s : Memory N M) (x : Place M) (b_idx offset : Nat) : Option (Position × Option N) :=
  if b_idx ≤ (s.hmap x).mask.toNat then
    match (s.cells (s.hmap x).buckets)[b_idx]? with
    | none => none
    | some head =>
      match nodeAt s offset mostNodes 0 head with
      | none => none
      | some (some node) => some (s.behind x node offset, some node)
      | some none => atPosition s x (b_idx + 1) 0
  else some ({ bucket := 0, offset := 0 }, none)
termination_by (s.hmap x).mask.toNat + 1 - b_idx

def hmap_at_position (s : Memory N M) (x : Place M) (position : Position) : Option (Position × Option N) :=
  atPosition s x position.bucket.toNat position.offset.toNat

/-- Every node once, and no other. -/
def Visits (visited : List N) (nodes : Set N) : Prop := visited.Nodup ∧ ∀ node, node ∈ visited ↔ node ∈ nodes

variable {s : Memory N M} {x : Place M} {hash : N → BitVec 64} {table : Nat → List N} {nodes : Set N} {node : N}
variable {front rest : List N} {b offset : Nat}

/-! ## The lists -/

/-- The number of buckets. -/
def buckets (s : Memory N M) (x : Place M) : Nat := (s.hmap x).mask.toNat + 1

/-- A bucket's cell points to its list. -/
theorem Holds.cell (holds : Holds s x hash table nodes) (inside : b < buckets s x) :
    (s.cells (s.hmap x).buckets)[b]? = some (table b).head? ∧ Segment s.links (table b).head? (table b) none := by
  have length := holds.length
  rw [buckets] at inside
  obtain ⟨first, there⟩ : ∃ first, (s.cells (s.hmap x).buckets)[b]? = some first :=
    ⟨_, List.getElem?_eq_getElem (by rw [length]; exact inside)⟩
  have segment := holds.heads b _ there
  have head : first = (table b).head? := by
    cases same : table b with
    | nil =>
      rw [same] at segment
      exact segment
    | cons a l =>
      rw [same] at segment
      exact segment.1
  rw [← head]
  exact ⟨there, segment⟩

/-- The link and the bucket of a node. -/
theorem Holds.linked (holds : Holds s x hash table nodes) (inside : b < buckets s x)
    (split : table b = front ++ node :: rest) :
    (s.node node).next = rest.head? ∧ ((s.node node).hash &&& (s.hmap x).mask).toNat = b := by
  have listed : node ∈ table b := by
    rw [split]
    exact List.mem_append_right _ List.mem_cons_self
  constructor
  · have segment := (holds.cell inside).2
    rw [split] at segment
    obtain ⟨q, -, -, behind⟩ := segment.split
    cases rest with
    | nil => exact behind
    | cons a l => exact behind.1
  · rw [holds.hashes node (holds.spread.mem listed)]
    exact holds.spread.place_eq listed

theorem index_lt_buckets (s : Memory N M) (x : Place M) (node : N) : index hash (s.hmap x).mask node < buckets s x := by
  rw [index, buckets, BitVec.toNat_and]
  exact Nat.lt_succ_of_le Nat.and_le_right

/-- All nodes, in the order of the buckets and their lists. -/
theorem Holds.visits (holds : Holds s x hash table nodes) : Visits (onward table (buckets s x) 0) nodes :=
  holds.spread.onward fun node _ => index_lt_buckets s x node

/-! ## By the last node -/

theorem next_bucket_eq (holds : Holds s x hash table nodes) (le : b ≤ buckets s x) :
    hmap_next__ s x b = some (onward table (buckets s x) b).head? := by
  induction left : buckets s x - b generalizing b with
  | zero =>
    have out : b = buckets s x := by omega
    rw [hmap_next__, if_neg (by rw [out, buckets]; omega), onward_end _ (Nat.le_of_eq out.symm)]
    rfl
  | succ left ih =>
    have inside : b < buckets s x := by omega
    rw [hmap_next__, if_pos (Nat.le_of_lt_succ inside), (holds.cell inside).1, onward_place _ inside]
    cases here : table b with
    | nil => exact ih inside (by omega)
    | cons a l => rfl

theorem hmap_next_eq (holds : Holds s x hash table nodes) (inside : b < buckets s x)
    (split : table b = front ++ node :: rest) :
    hmap_next s x node = some (rest ++ onward table (buckets s x) (b + 1)).head? := by
  obtain ⟨next, home⟩ := holds.linked inside split
  rw [hmap_next, next, home]
  cases rest with
  | nil => exact next_bucket_eq holds inside
  | cons a l => rfl

/-- From a node on, the nodes behind it. -/
theorem iterates_behind (holds : Holds s x hash table nodes) (inside : b < buckets s x)
    (split : table b = front ++ node :: rest) :
    Iterates (next_node s x) (some node) (rest ++ onward table (buckets s x) (b + 1)) := by
  have next := hmap_next_eq holds inside split
  induction behind : rest ++ onward table (buckets s x) (b + 1) generalizing b front node rest with
  | nil =>
    rw [behind] at next
    apply Iterates.stop
    rw [next_node, next]
    rfl
  | cons e es ih =>
    rw [behind] at next
    have returns : next_node s x (some node) = some (some e, some e) := by
      rw [next_node, next]
      rfl
    apply Iterates.visit returns
    cases rest with
    | nil =>
      obtain ⟨i, back, inside', here, rfl⟩ := onward_cons table behind
      have first : table i = [] ++ e :: back := here
      exact ih inside' first (hmap_next_eq holds inside' first) rfl
    | cons a l =>
      obtain ⟨rfl, rfl⟩ := List.cons.inj behind
      rw [List.append_cons] at split
      exact ih inside split (hmap_next_eq holds inside split) rfl

theorem iterates_next_node (holds : Holds s x hash table nodes) :
    Iterates (next_node s x) none (onward table (buckets s x) 0) := by
  have first : hmap_first s x = some (onward table (buckets s x) 0).head? := next_bucket_eq holds (Nat.zero_le _)
  cases all : onward table (buckets s x) 0 with
  | nil =>
    apply Iterates.stop
    rw [next_node, first, all]
    rfl
  | cons e es =>
    obtain ⟨i, back, inside, here, rfl⟩ := onward_cons table all
    have returns : next_node s x none = some (some e, some e) := by
      rw [next_node, first, all]
      rfl
    exact .visit returns (@iterates_behind _ _ _ _ _ _ _ e [] back i holds inside here)

/-! ## By a position -/

theorem nodeAt_eq {p : Option N} {l : List N} (segment : Segment s.links p l none) {fuel n_idx : Nat}
    (enough : l.length ≤ fuel) (le : n_idx ≤ offset) :
    nodeAt s offset fuel n_idx p = some l[offset - n_idx]? := by
  induction l generalizing p fuel n_idx with
  | nil =>
    obtain rfl : p = none := segment
    cases fuel <;> rfl
  | cons a l ih =>
    obtain ⟨rfl, later⟩ := segment
    obtain ⟨fuel, rfl⟩ : ∃ k, fuel = k + 1 := ⟨fuel - 1, by rw [List.length_cons] at enough; omega⟩
    rw [nodeAt]
    split_ifs with here
    · rw [here, Nat.sub_self]
      rfl
    · have next := @ih _ later fuel (n_idx + 1) (Nat.le_of_succ_le_succ enough) (by omega)
      have index : offset - n_idx = (offset - (n_idx + 1)) + 1 := by omega
      rw [index, List.getElem?_cons_succ]
      exact next

theorem atPosition_eq (holds : Holds s x hash table nodes) (few : nodes.ncard ≤ mostNodes) (inside : b < buckets s x) :
    atPosition s x b offset = match (table b)[offset]? with
      | some node => some (s.behind x node offset, some node)
      | none => atPosition s x (b + 1) 0 := by
  obtain ⟨cell, segment⟩ := holds.cell inside
  have found := @nodeAt_eq N M s offset _ _ segment mostNodes 0 ((holds.length_le b).trans few) (Nat.zero_le _)
  rw [atPosition, if_pos (Nat.le_of_lt_succ inside), cell]
  dsimp only
  rw [found, Nat.sub_zero]
  cases (table b)[offset]? <;> rfl

/-- The position of a place in a bucket's list. -/
def position (b offset : Nat) : Position := { bucket := BitVec.ofNat 32 b, offset := BitVec.ofNat 32 offset }

theorem hmap_at_position_eq (small : b < 2 ^ 32) (small' : offset < 2 ^ 32) :
    hmap_at_position s x (position b offset) = atPosition s x b offset := by
  rw [hmap_at_position, position, BitVec.toNat_ofNat, BitVec.toNat_ofNat, Nat.mod_eq_of_lt small, Nat.mod_eq_of_lt small']

/-- From a position on, the nodes there and behind. -/
theorem iterates_position (holds : Holds s x hash table nodes) (few_buckets : buckets s x < 2 ^ 32 - 1)
    (few : nodes.ncard < 2 ^ 32 - 1) (inside : b < buckets s x) (split : table b = front ++ rest) :
    Iterates (hmap_at_position s x) (position b front.length) (rest ++ onward table (buckets s x) (b + 1)) := by
  have most : nodes.ncard ≤ mostNodes := few.le.trans (by decide)
  induction left : buckets s x - b using Nat.strong_induction_on generalizing b front rest with
  | _ left ih =>
    have later : Iterates (hmap_at_position s x) (position (b + 1) 0) (onward table (buckets s x) (b + 1)) := by
      rcases Nat.lt_or_ge (b + 1) (buckets s x) with more | last
      · rw [onward_place _ more]
        have first : table (b + 1) = [] ++ table (b + 1) := rfl
        exact ih (buckets s x - (b + 1)) (by omega) more first rfl
      · rw [onward_end _ last]
        apply Iterates.stop
        rw [hmap_at_position_eq (by omega) (by decide), atPosition, if_neg (Nat.not_le.mpr last)]
    have length := congrArg List.length split
    have short := (holds.length_le b).trans_lt few
    induction rest generalizing front with
    | nil =>
      rw [List.append_nil] at split
      rw [List.nil_append]
      apply later.congr
      rw [hmap_at_position_eq (by omega) (by rw [← split]; omega), hmap_at_position_eq (by omega) (by decide),
        atPosition_eq holds most inside, split, List.getElem?_eq_none le_rfl]
    | cons e rest ih' =>
      obtain ⟨next, home⟩ := holds.linked inside split
      rw [List.length_append, List.length_cons] at length
      have returns : hmap_at_position s x (position b front.length) = some (s.behind x e front.length, some e) := by
        rw [hmap_at_position_eq (by omega) (by omega), atPosition_eq holds most inside, split,
          List.getElem?_append_right le_rfl, Nat.sub_self]
        rfl
      apply Iterates.visit returns
      rw [Memory.behind, next, home]
      cases rest with
      | nil => exact later
      | cons a l =>
        have onwards := @ih' (front ++ [e]) (by rw [split, List.append_assoc]; rfl)
          (by rw [length]; simp only [List.length_append, List.length_cons, List.length_nil]; omega)
        rw [List.length_append] at onwards
        exact onwards

/-- **Iteration**, in both ways, goes over each node of a map once and ends. -/
theorem hmap_iteration_complete (holds : Holds s x hash table nodes) (few_buckets : buckets s x < 2 ^ 32 - 1)
    (few : nodes.ncard < 2 ^ 32 - 1) :
    (∃ visited, Iterates (next_node s x) none visited ∧ Visits visited nodes) ∧
      ∃ visited, Iterates (hmap_at_position s x) { bucket := 0, offset := 0 } visited ∧ Visits visited nodes := by
  have some : 0 < buckets s x := Nat.succ_pos _
  have positions := @iterates_position _ _ s x _ table nodes [] (table 0) 0 holds few_buckets few some rfl
  rw [← onward_place _ some] at positions
  exact ⟨⟨_, iterates_next_node holds, holds.visits⟩, ⟨_, positions, holds.visits⟩⟩

/-! ## Three nodes -/

inductive Three
  | front
  | behind
  | alone
deriving DecidableEq

instance : Fintype Three where
  elems := {.front, .behind, .alone}
  complete := by rintro (_ | _ | _) <;> decide

/-- Two nodes in the bucket 1 and one in the bucket 3, of four. -/
def fourBuckets : Memory Three Unit :=
  { node := fun
      | .front => { hash := 5, next := some .behind }
      | .behind => { hash := 9, next := none }
      | .alone => { hash := 7, next := none }
    hmap := fun _ => { buckets := .array 0, mask := 3, n := 3 }
    cells := fun _ => [none, some .front, none, some .alone]
    arrays := 1 }

def fourLists : Nat → List Three
  | 1 => [.front, .behind]
  | 3 => [.alone]
  | _ => []

theorem spread_fourLists :
    Spread (index (fun node => (fourBuckets.node node).hash) 3) fourLists (Set.univ : Set Three) := by
  constructor
  · rintro (_ | _ | _ | _ | p)
    · decide
    · decide
    · decide
    · decide
    · exact List.nodup_nil
  · intro p e
    rw [and_iff_right (Set.mem_univ e)]
    have inside := @index_lt_buckets _ _ (fun node => (fourBuckets.node node).hash) fourBuckets (.client ()) e
    have four : ∀ e, ∀ p < 4, e ∈ fourLists p ↔ index (fun node => (fourBuckets.node node).hash) 3 e = p := by decide
    rcases Nat.lt_or_ge p 4 with less | more
    · exact four e p less
    · have none : fourLists p = [] := by
        obtain ⟨p, rfl⟩ := Nat.exists_eq_add_of_le' more
        rfl
      rw [none]
      exact iff_of_false List.not_mem_nil (Nat.ne_of_lt (inside.trans_le more))

theorem card_three : (Set.univ : Set Three).ncard = 3 := by
  rw [Set.ncard_univ, Nat.card_eq_fintype_card]
  rfl

theorem holds_fourBuckets :
    Holds fourBuckets (.client ()) (fun node => (fourBuckets.node node).hash) fourLists Set.univ := by
  refine ⟨⟨2, by decide, by decide⟩, by decide, fun _ => ⟨0, rfl, by decide⟩, rfl, ?_, fun _ _ => rfl, spread_fourLists,
    Set.finite_univ, ?_⟩
  · rintro (_ | _ | _ | _ | i) head ⟨⟩
    · rfl
    · exact ⟨rfl, rfl, rfl⟩
    · rfl
    · exact ⟨rfl, rfl⟩
  · rw [card_three]
    rfl

theorem hmap_iteration_complete_four :
    (∃ visited, Iterates (next_node fourBuckets (.client ())) none visited ∧ Visits visited Set.univ) ∧
      ∃ visited, Iterates (hmap_at_position fourBuckets (.client ())) { bucket := 0, offset := 0 } visited ∧
        Visits visited Set.univ :=
  hmap_iteration_complete holds_fourBuckets (by decide) (by rw [card_three]; decide)

end Iteration

end CodeClips.Ovs
