import Mathlib.Data.List.Basic
import Mathlib.Data.List.Nodup

/-!
# Fat trees

The lists of the switches are attributes of the class `Fattree`: all instances of a process
append to the same three, and `createLink` of each reads them from the start. `Process` has the
lists and the instances; its steps are the calls, in any interleaving of the instances.
`created` keeps the pods of the calls of `createTopo`, for the proofs only. The bandwidths, the hosts
and the densities they are counted with are left out.

`addSwitch` is that of Mininet's `Topo`, and `dpidLen` of its switch class.
-/

namespace CodeClips.Topology

abbrev Str := List Char

/-- What `addLink` is called with. -/
abbrev Link := Str × Str

/-- The attributes of the class. -/
structure Lists where
  CoreSwitchList : List Str
  AggSwitchList : List Str
  EdgeSwitchList : List Str
  deriving DecidableEq

/-- An instance; `links` are the calls of `addLink`. -/
structure Fattree where
  pod : Nat
  iCoreLayerSwitch : Nat
  iAggLayerSwitch : Nat
  iEdgeLayerSwitch : Nat
  dpid : Nat
  links : List Link
  deriving DecidableEq

/-- `__init__` -/
def init (k : Nat) : Fattree where
  pod := k
  iCoreLayerSwitch := k
  iAggLayerSwitch := k * 2
  iEdgeLayerSwitch := k * 2
  dpid := 0
  links := []

/-- `'%0' + str(dpidLen) + 'x'` -/
def dpidFrom (dpidLen num : Nat) : Str :=
  List.replicate (dpidLen - (Nat.toDigits 16 num).length) '0' ++ Nat.toDigits 16 num

/-- `str(index) + level` -/
def name (level : Str) (index : Nat) : Str := Nat.toDigits 10 index ++ level

def core : Str := "core".toList

def agg : Str := "agg".toList

def tor : Str := "tor".toList

section Topo
variable (addSwitch : Str → Str → Str) (dpidLen : Nat)

/-- `_addSwitch` for one more index. -/
def addOne (level : Str) (state : Nat × List Str) (index : Nat) : Nat × List Str :=
  (state.1 + 1, state.2 ++ [addSwitch (name level index) (dpidFrom dpidLen (state.1 + 1))])

/-- The loop over `xrange(1, number + 1)`, with `dpid` and the list. -/
def _addSwitch (number : Nat) (level : Str) (dpid : Nat) (switch_list : List Str) : Nat × List Str :=
  (List.range' 1 number).foldl (addOne addSwitch dpidLen level) (dpid, switch_list)

def createTopo (lists : Lists) (self : Fattree) : Lists × Fattree :=
  let (dpid, CoreSwitchList) := _addSwitch addSwitch dpidLen self.iCoreLayerSwitch core self.dpid lists.CoreSwitchList
  let (dpid, AggSwitchList) := _addSwitch addSwitch dpidLen self.iAggLayerSwitch agg dpid lists.AggSwitchList
  let (dpid, EdgeSwitchList) := _addSwitch addSwitch dpidLen self.iEdgeLayerSwitch tor dpid lists.EdgeSwitchList
  ({ CoreSwitchList, AggSwitchList, EdgeSwitchList }, { self with dpid })

end Topo

/-- The links for pairs of indices into two lists. -/
def addLinks (xs ys : List Str) (pairs : List (Nat × Nat)) : Except String (List Link) :=
  pairs.mapM fun pair =>
    match xs[pair.1]?, ys[pair.2]? with
    | some x, some y => .ok (x, y)
    | _, _ => .error "list index out of range"

/-- The indices of the loops, core to aggregation. -/
def corePairs (self : Fattree) : List (Nat × Nat) :=
  (List.range self.iCoreLayerSwitch).flatMap fun i => (List.range self.iAggLayerSwitch).map fun j => (i, j)

/-- Aggregation to edge: the pod of `i` begins at `edge_begin`. -/
def edgePairs (self : Fattree) : List (Nat × Nat) :=
  (List.range self.iAggLayerSwitch).flatMap fun i =>
    let edge_begin := i / self.pod * self.pod
    (List.range' edge_begin self.pod).map fun j => (i, j)

def createLink (lists : Lists) (self : Fattree) : Except String Fattree := do
  let c2a ← addLinks lists.CoreSwitchList lists.AggSwitchList (corePairs self)
  let a2e ← addLinks lists.AggSwitchList lists.EdgeSwitchList (edgePairs self)
  return { self with links := self.links ++ c2a ++ a2e }

structure Process where
  lists : Lists
  instances : List Fattree
  created : List Nat
  deriving DecidableEq

def Process.start : Process := { lists := { CoreSwitchList := [], AggSwitchList := [], EdgeSwitchList := [] }, instances := [], created := [] }

section Steps
variable (addSwitch : Str → Str → Str) (dpidLen : Nat)

/-- One call. `createTopo` is called on an instance once, which numbers its switches, and after
it `createLink` once. -/
inductive Step : Process → Process → Prop
  | new (s : Process) (k : Nat) (some : 1 ≤ k) : Step s { s with instances := s.instances ++ [init k] }
  | createTopo (s : Process) (i : Nat) (self : Fattree) (here : s.instances[i]? = some self) (fresh : self.dpid = 0) :
    Step s {
      lists := (createTopo addSwitch dpidLen s.lists self).1
      instances := s.instances.set i (createTopo addSwitch dpidLen s.lists self).2
      created := s.created ++ [self.pod] }
  | createLink (s : Process) (i : Nat) (self self' : Fattree) (here : s.instances[i]? = some self)
    (made : self.dpid ≠ 0) (fresh : self.links = []) (linked : createLink s.lists self = .ok self') :
    Step s { s with instances := s.instances.set i self' }

inductive Reached : Process → Prop
  | start : Reached .start
  | step {s s' : Process} (reached : Reached s) (step : Step addSwitch dpidLen s s') : Reached s'

end Steps

/-! ## What the links should be -/

/-- The links of a fat tree with `k` core switches, each once. The switches are numbered from 1. -/
structure Exact (k : Nat) (links : List Link) : Prop where
  once : links.Nodup
  links : ∀ l, l ∈ links ↔
    (∃ i < k, ∃ j < k * 2, l = (name core (i + 1), name agg (j + 1))) ∨
    ∃ i < k * 2, ∃ j < k * 2, i / k = j / k ∧ l = (name agg (i + 1), name tor (j + 1))

/-! ## Names -/

theorem name_inj {level : Str} {i j : Nat} : name level i = name level j ↔ i = j := by
  constructor
  · intro same
    have digits := congrArg (fun ds => Nat.ofDigitChars 10 ds 0) (List.append_cancel_right same)
    simpa only [Nat.ofDigitChars_toDigits (b := 10) (by decide) (by decide)] using digits
  · rintro rfl
    rfl

theorem core_ne_agg (i j : Nat) : name core i ≠ name agg j := by
  intro same
  have last := congrArg List.getLast? same
  rw [name, name, List.getLast?_append, List.getLast?_append, show core.getLast? = some 'e' from rfl,
    show agg.getLast? = some 'g' from rfl, Option.some_or, Option.some_or] at last
  exact absurd last (by decide)

/-! ## The lists of the class -/

/-- The names of one level of a topology. -/
def chunk (level : Str) (number : Nat) : List Str := (List.range' 1 number).map (name level)

/-- One level of all topologies, one after the other. -/
def shared (level : Str) (size : Nat → Nat) (created : List Nat) : List Str := created.flatMap fun k => chunk level (size k)

section Shared
variable {level : Str} {size : Nat → Nat} {i k k' : Nat} {created : List Nat}

theorem chunk_get (inside : i < k) : (chunk level k)[i]? = some (name level (i + 1)) := by
  rw [chunk, List.getElem?_map, List.getElem?_range' inside]
  simp [Nat.add_comm]

theorem length_chunk (level : Str) (k : Nat) : (chunk level k).length = k := by
  rw [chunk, List.length_map, List.length_range']

theorem shared_first (inside : i < size k) : (shared level size (k :: created))[i]? = some (name level (i + 1)) := by
  rw [shared, List.flatMap_cons, List.getElem?_append_left (by rwa [length_chunk]), chunk_get inside]

/-- Behind the first topology the names begin again. -/
theorem shared_second (more : 0 < size k') : (shared level size (k :: k' :: created))[size k]? = some (name level 1) := by
  have rest : (shared level size (k' :: created))[0]? = some (name level 1) := shared_first more
  rw [shared, List.flatMap_cons, List.getElem?_append_right (Nat.le_of_eq (length_chunk level _)), length_chunk,
    Nat.sub_self]
  exact rest

theorem shared_some (member : k ∈ created) (inside : i < size k) : ∃ x, (shared level size created)[i]? = some x := by
  have long : size k ≤ (shared level size created).length := by
    have part := (List.sublist_flatten_of_mem (List.mem_map_of_mem (f := fun k => chunk level (size k)) member)).length_le
    rwa [length_chunk, ← List.flatMap_def] at part
  exact ⟨_, List.getElem?_eq_getElem (Nat.lt_of_lt_of_le inside long)⟩

theorem shared_concat (created : List Nat) (k : Nat) :
    shared level size (created ++ [k]) = shared level size created ++ chunk level (size k) := by
  rw [shared, List.flatMap_append, List.flatMap_singleton]
  rfl

end Shared

section Calls
variable {addSwitch : Str → Str → Str} {dpidLen : Nat}

/-- `_addSwitch` appends the names of the level. -/
theorem _addSwitch_eq (returns : ∀ name dpid, addSwitch name dpid = name) (number : Nat) (level : Str) (dpid : Nat)
    (switch_list : List Str) :
    _addSwitch addSwitch dpidLen number level dpid switch_list = (dpid + number, switch_list ++ chunk level number) := by
  have loop (indices : List Nat) (dpid : Nat) (switch_list : List Str) :
      indices.foldl (addOne addSwitch dpidLen level) (dpid, switch_list) =
        (dpid + indices.length, switch_list ++ indices.map (name level)) := by
    induction indices generalizing dpid switch_list with
    | nil => simp
    | cons index indices ih =>
      rw [List.foldl_cons, addOne, ih, returns, List.length_cons, List.map_cons, List.append_assoc,
        List.singleton_append, Nat.add_assoc, Nat.add_comm 1]
  rw [_addSwitch, loop, List.length_range', chunk]

theorem createTopo_eq (returns : ∀ name dpid, addSwitch name dpid = name) (lists : Lists) (self : Fattree) :
    createTopo addSwitch dpidLen lists self =
      ({ CoreSwitchList := lists.CoreSwitchList ++ chunk core self.iCoreLayerSwitch
         AggSwitchList := lists.AggSwitchList ++ chunk agg self.iAggLayerSwitch
         EdgeSwitchList := lists.EdgeSwitchList ++ chunk tor self.iEdgeLayerSwitch },
        { self with dpid := self.dpid + self.iCoreLayerSwitch + self.iAggLayerSwitch + self.iEdgeLayerSwitch }) := by
  simp only [createTopo, _addSwitch_eq returns]

end Calls

/-- The pods of an instance as `__init__` sets them. -/
structure Sized (tree : Fattree) : Prop where
  pod : 1 ≤ tree.pod
  core : tree.iCoreLayerSwitch = tree.pod
  agg : tree.iAggLayerSwitch = tree.pod * 2
  edge : tree.iEdgeLayerSwitch = tree.pod * 2

/-- The lists of the class when `createTopo` was called for these pods. -/
structure Filled (created : List Nat) (lists : Lists) : Prop where
  core : lists.CoreSwitchList = shared core id created
  agg : lists.AggSwitchList = shared agg (· * 2) created
  edge : lists.EdgeSwitchList = shared tor (· * 2) created

/-! ## The links -/

def linkOf (xs ys : List Str) (pair : Nat × Nat) : Link := (xs[pair.1]?.getD [], ys[pair.2]?.getD [])

theorem addLinks_eq {xs ys : List Str} {pairs : List (Nat × Nat)}
    (inside : ∀ pair ∈ pairs, (∃ x, xs[pair.1]? = some x) ∧ ∃ y, ys[pair.2]? = some y) :
    addLinks xs ys pairs = .ok (pairs.map (linkOf xs ys)) := by
  induction pairs with
  | nil => rfl
  | cons pair pairs ih =>
    obtain ⟨⟨⟨x, left⟩, ⟨y, right⟩⟩, others⟩ := List.forall_mem_cons.mp inside
    rw [addLinks] at ih ⊢
    rw [List.mapM_cons, ih others, List.map_cons, linkOf, left, right]
    rfl

/-- Pairs from nested loops are all different. -/
theorem nodup_pairs {is : List Nat} {js : Nat → List Nat} (outer : is.Nodup) (inner : ∀ i, (js i).Nodup) :
    (is.flatMap fun i => (js i).map fun j => (i, j)).Nodup := by
  rw [List.nodup_flatMap]
  refine ⟨fun i _ => (inner i).map fun j j' same => (Prod.mk.inj same).2, ?_⟩
  refine outer.imp ?_
  intro i i' differ pair left right
  obtain ⟨j, -, rfl⟩ := List.mem_map.mp left
  obtain ⟨j', -, same⟩ := List.mem_map.mp right
  exact differ (Prod.mk.inj same).1.symm

section Pairs
variable {self : Fattree} (sized : Sized self)
include sized

theorem mem_corePairs {pair : Nat × Nat} : pair ∈ corePairs self ↔ pair.1 < self.pod ∧ pair.2 < self.pod * 2 := by
  rw [corePairs, sized.core, sized.agg, List.mem_flatMap]
  constructor
  · rintro ⟨i, left, inner⟩
    obtain ⟨j, right, rfl⟩ := List.mem_map.mp inner
    exact ⟨List.mem_range.mp left, List.mem_range.mp right⟩
  · rintro ⟨left, right⟩
    exact ⟨pair.1, List.mem_range.mpr left, List.mem_map.mpr ⟨pair.2, List.mem_range.mpr right, rfl⟩⟩

/-- The second switch is in the pod of the first. -/
theorem mem_edgePairs {pair : Nat × Nat} :
    pair ∈ edgePairs self ↔ pair.1 < self.pod * 2 ∧ pair.2 < self.pod * 2 ∧ pair.1 / self.pod = pair.2 / self.pod := by
  have block (i j : Nat) : (i / self.pod * self.pod ≤ j ∧ j < i / self.pod * self.pod + self.pod) ↔
      i / self.pod = j / self.pod := by
    rw [eq_comm, Nat.div_eq_iff (Nat.pos_of_ne_zero (Nat.ne_of_gt sized.pod))]
    have pod := sized.pod
    omega
  rw [edgePairs, sized.agg, List.mem_flatMap]
  constructor
  · rintro ⟨i, left, inner⟩
    obtain ⟨j, right, rfl⟩ := List.mem_map.mp inner
    rw [List.mem_range'_1, block] at right
    rw [List.mem_range] at left
    refine ⟨left, ?_, right⟩
    rw [Nat.mul_comm, ← Nat.div_lt_iff_lt_mul sized.pod] at left ⊢
    rwa [← right]
  · rintro ⟨left, -, same⟩
    refine ⟨pair.1, List.mem_range.mpr left, List.mem_map.mpr ⟨pair.2, ?_, rfl⟩⟩
    rw [List.mem_range'_1, block]
    exact same

/-- The links between the first switches of each level, which has the names from 1 on. -/
theorem exact_names : Exact self.pod
    ((corePairs self).map (fun pair => (name core (pair.1 + 1), name agg (pair.2 + 1))) ++
      (edgePairs self).map fun pair => (name agg (pair.1 + 1), name tor (pair.2 + 1))) := by
  have apart {level level' : Str} {pair pair' : Nat × Nat}
      (same : (name level (pair.1 + 1), name level' (pair.2 + 1)) = (name level (pair'.1 + 1), name level' (pair'.2 + 1))) :
      pair = pair' := by
    rw [Prod.mk.injEq, name_inj, name_inj] at same
    exact Prod.ext (Nat.succ.inj same.1) (Nat.succ.inj same.2)
  constructor
  · rw [List.nodup_append]
    refine ⟨(nodup_pairs List.nodup_range fun _ => List.nodup_range).map fun _ _ => apart,
      (nodup_pairs List.nodup_range fun _ => List.nodup_range').map fun _ _ => apart, ?_⟩
    intro l left l' right
    obtain ⟨pair, -, rfl⟩ := List.mem_map.mp left
    obtain ⟨pair', -, rfl⟩ := List.mem_map.mp right
    exact fun same => core_ne_agg _ _ (Prod.mk.inj same).1
  · intro l
    rw [List.mem_append, List.mem_map, List.mem_map]
    refine or_congr ?_ ?_
    · constructor
      · rintro ⟨pair, member, rfl⟩
        obtain ⟨left, right⟩ := (mem_corePairs sized).mp member
        exact ⟨pair.1, left, pair.2, right, rfl⟩
      · rintro ⟨i, left, j, right, rfl⟩
        exact ⟨(i, j), (mem_corePairs sized).mpr ⟨left, right⟩, rfl⟩
    · constructor
      · rintro ⟨pair, member, rfl⟩
        obtain ⟨left, right, same⟩ := (mem_edgePairs sized).mp member
        exact ⟨pair.1, left, pair.2, right, same, rfl⟩
      · rintro ⟨i, left, j, right, same, rfl⟩
        exact ⟨(i, j), (mem_edgePairs sized).mpr ⟨left, right, same⟩, rfl⟩

variable {created : List Nat} {lists : Lists} (filled : Filled created lists) (member : self.pod ∈ created)
include filled member

/-- No index is outside the lists, to which the instance has added its own switches. -/
theorem createLink_eq : createLink lists self = .ok { self with
    links := self.links ++ (corePairs self).map (linkOf lists.CoreSwitchList lists.AggSwitchList) ++
      (edgePairs self).map (linkOf lists.AggSwitchList lists.EdgeSwitchList) } := by
  have c2a : addLinks lists.CoreSwitchList lists.AggSwitchList (corePairs self) =
      .ok ((corePairs self).map (linkOf lists.CoreSwitchList lists.AggSwitchList)) := by
    refine addLinks_eq fun pair inside => ?_
    obtain ⟨left, right⟩ := (mem_corePairs sized).mp inside
    rw [filled.core, filled.agg]
    exact ⟨shared_some member left, shared_some member right⟩
  have a2e : addLinks lists.AggSwitchList lists.EdgeSwitchList (edgePairs self) =
      .ok ((edgePairs self).map (linkOf lists.AggSwitchList lists.EdgeSwitchList)) := by
    refine addLinks_eq fun pair inside => ?_
    obtain ⟨left, right, -⟩ := (mem_edgePairs sized).mp inside
    rw [filled.agg, filled.edge]
    exact ⟨shared_some member left, shared_some member right⟩
  rw [createLink, c2a, a2e]
  rfl

omit filled member in
/-- Where the second topology begins within the switches of the instance, so do the names. -/
theorem le_of_exact {first second : Nat} {rest : List Nat} (first_pos : 1 ≤ first) (second_pos : 1 ≤ second)
    {ys : List Str}
    (once : ((corePairs self).map (linkOf (shared core id (first :: second :: rest)) ys)).Nodup) : self.pod ≤ first := by
  by_contra small
  rw [Nat.not_le] at small
  have again : (shared core id (first :: second :: rest))[first]? = some (name core 1) :=
    shared_second second_pos
  have begins : (shared core id (first :: second :: rest))[0]? = some (name core 1) :=
    shared_first first_pos
  have one : (0, 0) ∈ corePairs self := (mem_corePairs sized).mpr (by dsimp only; omega)
  have other : (first, 0) ∈ corePairs self := (mem_corePairs sized).mpr (by dsimp only; omega)
  have twice := List.inj_on_of_nodup_map once one other (by simp only [linkOf, begins, again])
  rw [Prod.mk.injEq] at twice
  omega

omit filled member in
/-- The switches of a topology that is as large are the first ones of their names. -/
theorem exact_of_le {first : Nat} {rest : List Nat} (large : self.pod ≤ first) : Exact self.pod
    ((corePairs self).map (linkOf (shared core id (first :: rest)) (shared agg (· * 2) (first :: rest))) ++
      (edgePairs self).map (linkOf (shared agg (· * 2) (first :: rest)) (shared tor (· * 2) (first :: rest)))) := by
  have linked := exact_names sized
  have c2a : (corePairs self).map (linkOf (shared core id (first :: rest)) (shared agg (· * 2) (first :: rest))) =
      (corePairs self).map fun pair => (name core (pair.1 + 1), name agg (pair.2 + 1)) := by
    refine List.map_congr_left fun pair inside => ?_
    obtain ⟨left, right⟩ := (mem_corePairs sized).mp inside
    rw [linkOf, shared_first (by dsimp only [id]; omega), shared_first (by omega)]
    rfl
  have a2e : (edgePairs self).map (linkOf (shared agg (· * 2) (first :: rest)) (shared tor (· * 2) (first :: rest))) =
      (edgePairs self).map fun pair => (name agg (pair.1 + 1), name tor (pair.2 + 1)) := by
    refine List.map_congr_left fun pair inside => ?_
    obtain ⟨left, right, -⟩ := (mem_edgePairs sized).mp inside
    rw [linkOf, shared_first (by omega), shared_first (by omega)]
    rfl
  rwa [c2a, a2e]

/-- **The links of one instance** are right exactly if the first topology of the process is large
enough: behind its switches the names begin again, so that the first core switch is linked twice. -/
theorem linkOf_exact_iff (positive : ∀ k ∈ created, 1 ≤ k) :
    Exact self.pod ((corePairs self).map (linkOf lists.CoreSwitchList lists.AggSwitchList) ++
      (edgePairs self).map (linkOf lists.AggSwitchList lists.EdgeSwitchList)) ↔ ∀ k ∈ created.head?, self.pod ≤ k := by
  obtain ⟨first, rest, rfl⟩ := List.exists_cons_of_ne_nil (List.ne_nil_of_mem member)
  rw [filled.core, filled.agg, filled.edge]
  simp only [List.head?_cons, Option.mem_some_iff, forall_eq']
  constructor
  · intro exact
    by_cases own : self.pod = first
    · exact Nat.le_of_eq own
    · -- Then the instance is a later one, and the lists go on behind the first topology.
      obtain ⟨second, rest, rfl⟩ := List.exists_cons_of_ne_nil (List.ne_nil_of_mem ((List.mem_cons.mp member).resolve_left own))
      exact le_of_exact sized (positive first (by simp)) (positive second (by simp)) exact.once.of_append_left
  · exact exact_of_le sized

end Pairs

/-! ## Runs -/

structure Good (created : List Nat) (tree : Fattree) : Prop where
  sized : Sized tree
  made : tree.dpid ≠ 0 → tree.pod ∈ created
  fresh : tree.dpid = 0 → tree.links = []
  linked : tree.links ≠ [] → (Exact tree.pod tree.links ↔ ∀ k ∈ created.head?, tree.pod ≤ k)

structure Inv (s : Process) : Prop where
  filled : Filled s.created s.lists
  positive : ∀ k ∈ s.created, 1 ≤ k
  instances : ∀ tree ∈ s.instances, Good s.created tree

section Runs
variable {addSwitch : Str → Str → Str} {dpidLen : Nat} {s s' : Process}

/-- A later topology is not the first. -/
theorem Good.concat {created : List Nat} {tree : Fattree} (good : Good created tree) (k : Nat) : Good (created ++ [k]) tree := by
  refine ⟨good.sized, fun made => List.mem_append_left [k] (good.made made), good.fresh, ?_⟩
  intro linked
  have some : created ≠ [] := List.ne_nil_of_mem (good.made fun fresh => linked (good.fresh fresh))
  rw [List.head?_append_of_ne_nil created some]
  exact good.linked linked

theorem Inv.start : Inv .start where
  filled := ⟨rfl, rfl, rfl⟩
  positive := List.forall_mem_nil _
  instances := List.forall_mem_nil _

theorem forall_mem_set {α : Type} {P : α → Prop} {xs : List α} (all : ∀ x ∈ xs, P x) (i : Nat) {x : α} (new : P x) :
    ∀ y ∈ xs.set i x, P y := by
  intro y member
  rcases List.mem_or_eq_of_mem_set member with old | rfl
  · exact all y old
  · exact new

/-- **One call** keeps the invariant. -/
theorem Inv.step (returns : ∀ name dpid, addSwitch name dpid = name) (inv : Inv s) (step : Step addSwitch dpidLen s s') :
    Inv s' := by
  cases step with
  | new k some =>
    refine ⟨inv.filled, inv.positive, List.forall_mem_append.mpr ⟨inv.instances, List.forall_mem_singleton.mpr ?_⟩⟩
    exact ⟨⟨some, rfl, rfl, rfl⟩, fun made => absurd rfl made, fun _ => rfl, fun linked => absurd rfl linked⟩
  | createTopo i self here fresh =>
    have good := inv.instances self (List.mem_of_getElem? here)
    obtain ⟨pod, core, agg, edge⟩ := good.sized
    rw [createTopo_eq returns]
    refine ⟨⟨?_, ?_, ?_⟩, ?_, ?_⟩
    · dsimp only
      rw [inv.filled.core, core, shared_concat, id]
    · dsimp only
      rw [inv.filled.agg, agg, shared_concat]
    · dsimp only
      rw [inv.filled.edge, edge, shared_concat]
    · exact List.forall_mem_append.mpr ⟨inv.positive, List.forall_mem_singleton.mpr pod⟩
    · refine forall_mem_set (fun tree member => (inv.instances tree member).concat self.pod) i ?_
      have none := good.fresh fresh
      refine ⟨⟨pod, core, agg, edge⟩, fun _ => List.mem_append_right _ (List.mem_singleton_self _), fun _ => none, ?_⟩
      exact fun linked => absurd none linked
  | createLink i self self' here made fresh linked =>
    have good := inv.instances self (List.mem_of_getElem? here)
    have member := good.made made
    rw [createLink_eq good.sized inv.filled member, fresh, List.nil_append] at linked
    cases linked
    refine ⟨inv.filled, inv.positive, forall_mem_set inv.instances i ?_⟩
    refine ⟨⟨good.sized.pod, good.sized.core, good.sized.agg, good.sized.edge⟩, fun _ => member,
      fun none => absurd none made, fun _ => ?_⟩
    exact linkOf_exact_iff good.sized inv.filled member inv.positive

/-- **A whole run** keeps it. -/
theorem Reached.inv (returns : ∀ name dpid, addSwitch name dpid = name) (reached : Reached addSwitch dpidLen s) : Inv s := by
  induction reached with
  | start => exact Inv.start
  | step _ step ih => exact ih.step returns step

/-- `createLink` makes some links. -/
theorem createLink_some {created : List Nat} {lists : Lists} {self : Fattree} (sized : Sized self)
    (filled : Filled created lists) (member : self.pod ∈ created) :
    ∃ self', createLink lists self = .ok self' ∧ self'.pod = self.pod ∧ self'.links ≠ [] := by
  refine ⟨_, createLink_eq sized filled member, rfl, ?_⟩
  have first : (0, 0) ∈ corePairs self := (mem_corePairs sized).mpr (by have pod := sized.pod; dsimp only; omega)
  exact List.ne_nil_of_mem (List.mem_append_left _ (List.mem_append_right _ (List.mem_map_of_mem first)))

/-- One more topology, with its links, can be made in every process. -/
theorem exists_built (returns : ∀ name dpid, addSwitch name dpid = name) (reached : Reached addSwitch dpidLen s) {k : Nat}
    (some : 1 ≤ k) : ∃ s' tree, Reached addSwitch dpidLen s' ∧ s'.created = s.created ++ [k] ∧ tree ∈ s'.instances ∧
      tree.pod = k ∧ tree.links ≠ [] := by
  let n := s.instances.length
  let self := (createTopo addSwitch dpidLen s.lists (init k)).2
  let p : Process := {
    lists := (createTopo addSwitch dpidLen s.lists (init k)).1
    instances := (s.instances ++ [init k]).set n self
    created := s.created ++ [k] }
  have inside : n < (s.instances ++ [init k]).length := by simp [n]
  have made : Reached addSwitch dpidLen p :=
    (reached.step (.new s k some)).step (.createTopo _ n (init k) List.getElem?_concat_length rfl)
  have here : p.instances[n]? = Option.some self := List.getElem?_set_self inside
  have inv := made.inv returns
  have good := inv.instances self (List.mem_of_getElem? here)
  have switched : self.dpid ≠ 0 ∧ self.pod = k ∧ self.links = [] := by
    dsimp only [self]
    rw [createTopo_eq returns]
    exact ⟨by simp only [init]; omega, rfl, rfl⟩
  obtain ⟨tree, linked, pod, full⟩ := createLink_some good.sized inv.filled (good.made switched.1)
  exact ⟨_, tree, made.step (.createLink p n self tree here switched.1 switched.2.2 linked), rfl,
    List.mem_set (by rwa [List.length_set]) tree, pod.trans switched.2.1, full⟩

/-- **The links of every instance**: in every run, whatever the order of the calls, `createLink` is
never outside the lists, and the links of an instance are those of its fat tree, each once,
exactly if the instance is not larger than the one `createTopo` was called on first. -/
theorem links_exact_iff (returns : ∀ name dpid, addSwitch name dpid = name) (reached : Reached addSwitch dpidLen s) :
    (∀ tree ∈ s.instances, tree.dpid ≠ 0 → ∃ tree', createLink s.lists tree = .ok tree' ∧ tree'.links ≠ []) ∧
    ∀ tree ∈ s.instances, tree.links ≠ [] → (Exact tree.pod tree.links ↔ ∀ k ∈ s.created.head?, tree.pod ≤ k) := by
  have inv := reached.inv returns
  refine ⟨?_, fun tree member => (inv.instances tree member).linked⟩
  intro tree member made
  have good := inv.instances tree member
  obtain ⟨tree', linked, -, some⟩ := createLink_some good.sized inv.filled (good.made made)
  exact ⟨tree', linked, some⟩

/-- One core switch and two, constructed in this order: the links of the second are not right. -/
theorem links_exact_iff_second : ∃ s tree, Reached (fun name _ => name) 16 s ∧ tree ∈ s.instances ∧ tree.pod = 2 ∧
    (Exact tree.pod tree.links ↔ ∀ k ∈ s.created.head?, tree.pod ≤ k) ∧ s.created = [1, 2] := by
  have returns : ∀ name dpid : Str, (fun name _ => name : Str → Str → Str) name dpid = name := fun _ _ => rfl
  have empty : Reached (fun name _ => name) 16 .start := .start
  obtain ⟨s, -, reached, created, -⟩ := exists_built returns empty (Nat.le_refl 1)
  obtain ⟨s', tree, reached', created', member, pod, full⟩ := exists_built returns reached (k := 2) (by decide)
  refine ⟨s', tree, reached', member, pod, (links_exact_iff returns reached').2 tree member full, ?_⟩
  rw [created', created]
  rfl

/-- `Fattree(1, 1)` and then `Fattree(2, 1)`. -/
theorem second_tree_wrong : ¬ ∀ s, Reached (fun name _ => name) 16 s →
    ∀ tree ∈ s.instances, tree.links ≠ [] → Exact tree.pod tree.links := by
  intro right
  have returns : ∀ name dpid : Str, (fun name _ => name : Str → Str → Str) name dpid = name := fun _ _ => rfl
  have empty : Reached (fun name _ => name) 16 .start := .start
  obtain ⟨s, -, reached, created, -⟩ := exists_built returns empty (Nat.le_refl 1)
  obtain ⟨s', tree, reached', created', member, pod, full⟩ := exists_built returns reached (k := 2) (by decide)
  have exact := right s' reached' tree member full
  rw [((reached'.inv returns).instances tree member).linked full, created', created, pod] at exact
  exact absurd (exact 1 rfl) (by decide)

end Runs

end CodeClips.Topology
