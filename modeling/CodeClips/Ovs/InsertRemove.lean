import CodeClips.Ovs.Holds

/-!
# Insertion and removal

A node is pushed in front of the list of its bucket, and taken out of it by the link before it,
which is a cell of the array or the link of another node.
-/

namespace CodeClips.Ovs

section InsertRemove
variable {N M : Type}

/-- The link before the node that comes after `front`. -/
def linkBefore (link : Link N M) : List N → Link N M
  | [] => link
  | a :: front => linkBefore (.next a) front

theorem linkBefore_append (link : Link N M) (front : List N) (before : N) :
    linkBefore link (front ++ [before]) = .next before := by
  induction front generalizing link with
  | nil => rfl
  | cons a front ih => exact ih (.next a)

variable [DecidableEq N]
variable {s s' : Memory N M} {x : Place M} {hash : N → BitVec 64} {table : Nat → List N} {nodes : Set N} {node : N}

theorem links_update (s : Memory N M) (node : N) (contents : HmapNode N) :
    (fun a => (Function.update s.node node contents a).next) = Function.update s.links node contents.next :=
  Function.comp_update HmapNode.next s.node node contents

/-- The loop comes to the node, and stops at the link before it. -/
theorem findLink_spec {front back : List N} {link : Link N M} {p : Option N} {fuel : Nat}
    (loads : s.load link = some p) (segment : Segment s.links p (front ++ node :: back) none)
    (first : node ∉ front) (enough : front.length < fuel) : findLink s node fuel link = some (linkBefore link front) := by
  obtain ⟨fuel, rfl⟩ : ∃ k, fuel = k + 1 := ⟨fuel - 1, by omega⟩
  induction front generalizing link p fuel with
  | nil =>
    obtain ⟨rfl, -⟩ := segment
    rw [findLink, loads]
    simp [linkBefore]
  | cons a front ih =>
    obtain ⟨rfl, rest⟩ := segment
    have other : node ≠ a := List.ne_of_not_mem_cons first
    have later : node ∉ front := List.not_mem_of_not_mem_cons first
    rw [List.length_cons] at enough
    obtain ⟨fuel, rfl⟩ : ∃ k, fuel = k + 1 := ⟨fuel - 1, by omega⟩
    have here : s.load (.next a) = some (s.links a) := rfl
    have next := ih here rest later fuel (by omega)
    rw [findLink, loads]
    simp only [Option.bind_eq_bind, Option.bind_some]
    rw [if_neg (Ne.symm other), next]
    rfl

variable [DecidableEq M]

/-- The memory after an insertion in front of `head`. -/
def inserted (s : Memory N M) (x : Place M) (node : N) (h : BitVec 64) (head : Option N) : Memory N M :=
  { s with
    node := Function.update s.node node { hash := h, next := head }
    cells := Function.update s.cells (s.hmap x).buckets
      ((s.cells (s.hmap x).buckets).set (h &&& (s.hmap x).mask).toNat (some node))
    hmap := Function.update s.hmap x { s.hmap x with n := (s.hmap x).n + 1 } }

theorem only_inserted (s : Memory N M) (x : Place M) (node : N) (h : BitVec 64) (head : Option N) :
    Only s (inserted s x node h head) x {node} := by
  constructor
  · intro a outside
    exact Function.update_of_ne outside _ _
  · intro y other
    exact Function.update_of_ne other _ _
  · simp [inserted]
  · simp [inserted]
  · intro b other
    exact Function.update_of_ne other _ _
  · rfl

theorem holds_inserted (holds : Holds s x hash table nodes) (fresh : node ∉ nodes) (h : BitVec 64) {head : Option N}
    (here : (s.cells (s.hmap x).buckets)[(h &&& (s.hmap x).mask).toNat]? = some head) :
    Holds (inserted s x node h head) x (Function.update hash node h)
      (Function.update table (h &&& (s.hmap x).mask).toNat (node :: table (h &&& (s.hmap x).mask).toNat))
      (insert node nodes) := by
  have inside := holds.index_lt h
  have absent : ∀ i, node ∉ table i := fun i listed => fresh (holds.spread.mem listed)
  have only := only_inserted s x node h head
  have cells : (inserted s x node h head).cells (s.hmap x).buckets =
      (s.cells (s.hmap x).buckets).set (h &&& (s.hmap x).mask).toNat (some node) := by
    simp only [inserted, Function.update_self]
  apply holds.of_only only
  · rw [cells, List.length_set]
  · rw [cells]
    intro i head' cell
    have links : (inserted s x node h head).links = Function.update s.links node head := links_update s node _
    rw [links]
    by_cases at_i : i = (h &&& (s.hmap x).mask).toNat
    · subst at_i
      rw [List.getElem?_set_self inside] at cell
      rw [Function.update_self, ← Option.some.inj cell]
      exact (holds.heads _ head here).push (absent _)
    · rw [List.getElem?_set_ne (Ne.symm at_i)] at cell
      rw [Function.update_of_ne at_i]
      exact (holds.heads i head' cell).update (absent i) head
  · intro a member
    by_cases same : a = node
    · subst same
      simp only [inserted, Function.update_self]
    · rw [only.node a same, Function.update_of_ne same]
      exact holds.hashes a (member.resolve_left same)
  · have home : index (Function.update hash node h) (s.hmap x).mask node = (h &&& (s.hmap x).mask).toNat := by
      rw [index, Function.update_self]
    apply Spread.insert (e := node) _ home fresh (List.Perm.refl _)
    apply holds.spread.congr
    intro a member
    have other : a ≠ node := by
      rintro rfl
      exact fresh member
    rw [index, index, Function.update_of_ne other]
  · exact holds.finite.insert node
  · simp only [inserted, Function.update_self]
    rw [holds.count, Set.ncard_insert_of_notMem fresh holds.finite, BitVec.ofNat_add]
    rfl

/-- **hmap_insert_fast**: the node is in front of its bucket. -/
theorem insert_fast_spec (holds : Holds s x hash table nodes) (fresh : node ∉ nodes) (h : BitVec 64) :
    ∃ s' table', hmap_insert_fast s x node h = some s' ∧
      Holds s' x (Function.update hash node h) table' (insert node nodes) ∧ Only s s' x {node} := by
  have here := List.getElem?_eq_getElem (holds.index_lt h)
  refine ⟨_, _, ?_, holds_inserted holds fresh h here, only_inserted s x node h _⟩
  rw [hmap_insert_fast]
  simp only [here, Option.bind_eq_bind, Option.bind_some]
  rfl

/-! ## Removal -/

/-- The memory after the removal of the node behind `link`. -/
def removed (s : Memory N M) (x : Place M) (node : N) (link : Link N M) : Memory N M :=
  { s.store (s.node node).next link with
    hmap := Function.update s.hmap x { s.hmap x with n := (s.hmap x).n - 1 } }

theorem hmap_remove_eq {link : Link N M}
    (found : findLink s node mostNodes (.cell (s.hmap x).buckets ((s.node node).hash &&& (s.hmap x).mask).toNat) =
      some link) : hmap_remove s x node = some (removed s x node link) := by
  rw [hmap_remove]
  simp only [found, Option.bind_eq_bind, Option.bind_some]
  cases link with
  | cell buckets i => rfl
  | next before => rfl

/-- What is left after a removal, for each kind of link: the lists without the node. -/
theorem holds_removed (holds : Holds s x hash table nodes) (member : node ∈ nodes) {link : Link N M}
    (only : Only s (removed s x node link) x nodes) {l : List N} {i : Nat} (home : index hash (s.hmap x).mask node = i)
    (perm : (table i).Perm (node :: l))
    (hashes : ∀ a, ((removed s x node link).node a).hash = (s.node a).hash)
    (length : ((removed s x node link).cells (s.hmap x).buckets).length = (s.cells (s.hmap x).buckets).length)
    (heads : ∀ j head, ((removed s x node link).cells (s.hmap x).buckets)[j]? = some head →
      Segment (removed s x node link).links head (Function.update table i l j) none) :
    Holds (removed s x node link) x hash (Function.update table i l) (nodes \ {node}) := by
  apply holds.of_only only length heads
  · intro a left
    rw [hashes]
    exact holds.hashes a left.1
  · exact holds.spread.erase (e := node) home perm
  · exact holds.finite.sdiff
  · have one := Set.ncard_sdiff_singleton_add_one member holds.finite
    simp only [removed, Function.update_self]
    rw [holds.count, ← one, BitVec.ofNat_add]
    exact BitVec.add_sub_cancel _ _

/-- The node is the first of its bucket: the cell is set to the node behind it. -/
theorem holds_removed_first (holds : Holds s x hash table nodes) (member : node ∈ nodes) {back : List N}
    (list : table (index hash (s.hmap x).mask node) = node :: back) :
    Holds (removed s x node (.cell (s.hmap x).buckets (index hash (s.hmap x).mask node))) x hash
        (Function.update table (index hash (s.hmap x).mask node) back) (nodes \ {node}) ∧
      Only s (removed s x node (.cell (s.hmap x).buckets (index hash (s.hmap x).mask node))) x nodes := by
  have inside : index hash (s.hmap x).mask node < (s.cells (s.hmap x).buckets).length := holds.index_lt (hash node)
  have segment := holds.heads _ _ (List.getElem?_eq_getElem inside)
  rw [list] at segment
  have only : Only s (removed s x node (.cell (s.hmap x).buckets (index hash (s.hmap x).mask node))) x nodes := by
    constructor
    · intro a _
      rfl
    · intro y other
      exact Function.update_of_ne other _ _
    · simp [removed]
    · simp [removed]
    · intro b other
      exact Function.update_of_ne other _ _
    · rfl
  have cells : (removed s x node (.cell (s.hmap x).buckets (index hash (s.hmap x).mask node))).cells (s.hmap x).buckets =
      (s.cells (s.hmap x).buckets).set (index hash (s.hmap x).mask node) (s.node node).next := by
    simp only [removed, Memory.store, Function.update_self]
  refine ⟨holds_removed holds member only rfl (by rw [list]) (fun _ => rfl) ?_ ?_, only⟩
  · rw [cells, List.length_set]
  · intro j head cell
    show Segment s.links head _ none
    rw [cells] at cell
    by_cases at_i : j = index hash (s.hmap x).mask node
    · subst at_i
      rw [List.getElem?_set_self inside] at cell
      rw [Function.update_self, ← Option.some.inj cell]
      exact segment.2
    · rw [List.getElem?_set_ne (Ne.symm at_i)] at cell
      rw [Function.update_of_ne at_i]
      exact holds.heads j head cell

/-- The node is behind another: the link of that one is set to the node behind it. -/
theorem holds_removed_behind (holds : Holds s x hash table nodes) (member : node ∈ nodes) {before : N}
    {front back : List N} (list : table (index hash (s.hmap x).mask node) = front ++ before :: node :: back) :
    Holds (removed s x node (.next before)) x hash
        (Function.update table (index hash (s.hmap x).mask node) (front ++ before :: back)) (nodes \ {node}) ∧
      Only s (removed s x node (.next before)) x nodes := by
  have listed : before ∈ table (index hash (s.hmap x).mask node) := by
    rw [list]
    exact List.mem_append_right front List.mem_cons_self
  have nodup := holds.spread.nodup (index hash (s.hmap x).mask node)
  rw [list] at nodup
  have only : Only s (removed s x node (.next before)) x nodes := by
    constructor
    · intro a outside
      apply Function.update_of_ne
      rintro rfl
      exact outside (holds.spread.mem listed)
    · intro y other
      exact Function.update_of_ne other _ _
    · simp [removed]
    · simp [removed]
    · intro b _
      rfl
    · rfl
  have links : (removed s x node (.next before)).links = Function.update s.links before (s.links node) :=
    links_update s before _
  refine ⟨holds_removed holds member only rfl ?_ ?_ rfl ?_, only⟩
  · have middle := @List.perm_middle _ node (front ++ [before]) back
    rw [List.append_assoc, List.append_assoc] at middle
    rw [list]
    exact middle
  · intro a
    by_cases same : a = before
    · subst same
      simp only [removed, Memory.store, Function.update_self]
    · simp only [removed, Memory.store, Function.update_of_ne same]
  · intro j head cell
    rw [links]
    by_cases at_i : j = index hash (s.hmap x).mask node
    · subst at_i
      have segment := holds.heads _ head cell
      rw [list] at segment
      rw [Function.update_self]
      exact segment.unlink nodup
    · rw [Function.update_of_ne at_i]
      exact (holds.heads j head cell).update (holds.spread.not_mem (Ne.symm at_i) listed) _

/-- **hmap_remove**: the loop comes to the node, and it is out of its bucket. -/
theorem remove_spec (holds : Holds s x hash table nodes) (member : node ∈ nodes)
    (few : nodes.ncard ≤ mostNodes) :
    ∃ s' table', hmap_remove s x node = some s' ∧ Holds s' x hash table' (nodes \ {node}) ∧ Only s s' x nodes := by
  have here := List.getElem?_eq_getElem (holds.index_lt (hash node))
  have listed : node ∈ table (index hash (s.hmap x).mask node) := holds.spread.mem_place member
  obtain ⟨front, back, list⟩ := List.append_of_mem listed
  have segment := holds.heads (index hash (s.hmap x).mask node) _ here
  have nodup := holds.spread.nodup (index hash (s.hmap x).mask node)
  rw [list] at segment nodup
  have first : node ∉ front := fun inside => (List.nodup_append.mp nodup).2.2 node inside node List.mem_cons_self rfl
  have enough : front.length < mostNodes := by
    have most := holds.length_le (index hash (s.hmap x).mask node)
    rw [list, List.length_append, List.length_cons] at most
    omega
  have found : findLink s node mostNodes (.cell (s.hmap x).buckets ((s.node node).hash &&& (s.hmap x).mask).toNat) =
      some (linkBefore (.cell (s.hmap x).buckets (index hash (s.hmap x).mask node)) front) := by
    rw [holds.hashes node member]
    exact findLink_spec here segment first enough
  rcases List.eq_nil_or_concat front with rfl | ⟨front, before, rfl⟩
  · obtain ⟨after, only⟩ := holds_removed_first holds member list
    exact ⟨_, _, hmap_remove_eq found, after, only⟩
  · rw [List.concat_eq_append] at list found
    rw [List.append_assoc, List.singleton_append] at list
    rw [linkBefore_append] at found
    obtain ⟨after, only⟩ := holds_removed_behind holds member list
    exact ⟨_, _, hmap_remove_eq found, after, only⟩

end InsertRemove

end CodeClips.Ovs
