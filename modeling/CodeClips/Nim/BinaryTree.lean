import CodeClips.Lib.SearchTree
import Mathlib.Data.List.Induction
import Mathlib.Data.List.Nodup
import Mathlib.Data.Nat.Basic

/-!
# `BinaryTree.nim`

A node has references to its two children. `add` goes down from the root and links a new node where a
child is `nil`; `preorder` keeps the right children it passes on a stack. The nodes that have been
made are a list, and a reference is a place in it. `Holds` says which tree a reference leads to; `add`
is the insertion into it, and what `preorder` yields is its traversal.
-/

namespace CodeClips.Nim

open CodeClips.SearchTree (preorder Ordered spine waiting places)

abbrev Ref := Nat

structure BinaryTreeObj (T : Type) where
  le : Option Ref
  ri : Option Ref
  data : T

abbrev Heap (T : Type) := List (BinaryTreeObj T)

variable {T : Type}

section Procs
variable [LinearOrder T]

/-- The generic `cmp`. -/
def cmp (x y : T) : Int := if x = y then 0 else if x < y then -1 else 1

def newNode (h : Heap T) (data : T) : Heap T × Ref := (h ++ [{ le := none, ri := none, data := data }], h.length)

/-- The `while`; each turn is at another node, so that there are not more turns than nodes. -/
def addNode.loop (h : Heap T) (n : Ref) : Nat → Option Ref → Option (Heap T)
  | 0, _ => none
  | _ + 1, none => some h
  | fuel + 1, some it => do
    let node ← h[it]?
    let new ← h[n]?
    let c := cmp new.data node.data
    if c < 0 then
      if node.le = none then return h.set it { node with le := some n } else addNode.loop h n fuel node.le
    else
      if node.ri = none then return h.set it { node with ri := some n } else addNode.loop h n fuel node.ri

/-- `add` of a node. -/
def addNode (h : Heap T) (root : Option Ref) (n : Ref) : Option (Heap T × Option Ref) :=
  match root with
  | none => some (h, some n)
  | some it => (addNode.loop h n h.length (some it)).map (·, some it)

def add (h : Heap T) (root : Option Ref) (data : T) : Option (Heap T × Option Ref) :=
  let (h, n) := newNode h data
  addNode h root n

/-- The inner `while`: the nodes whose data is yielded, and the stack, its end first. -/
def preorderInner (h : Heap T) : Nat → Option Ref → List (Option Ref) → Option (List (Ref × T) × List (Option Ref))
  | 0, _, _ => none
  | _ + 1, none, stack => some ([], stack)
  | fuel + 1, some n, stack => do
    let node ← h[n]?
    let (yielded, stack) ← preorderInner h fuel node.le (node.ri :: stack)
    return ((n, node.data) :: yielded, stack)

/-- The outer `while`. -/
def preorderOuter (h : Heap T) : Nat → List (Option Ref) → Option (List (Ref × T))
  | 0, _ => none
  | _ + 1, [] => some []
  | fuel + 1, n :: stack => do
    let (yielded, stack) ← preorderInner h (h.length + 1) n stack
    let rest ← preorderOuter h fuel stack
    return yielded ++ rest

/-- `preorder`, with the node of each datum. -/
def preorderIterator (h : Heap T) (root : Option Ref) : Option (List (Ref × T)) :=
  preorderOuter h (h.length + 2) [root]

theorem cmp_neg_iff (x y : T) : cmp x y < 0 ↔ x < y := by
  rw [cmp]
  split_ifs with same smaller
  · exact iff_of_false (by decide) (same ▸ lt_irrefl y)
  · exact iff_of_true (by decide) smaller
  · exact iff_of_false (by decide) smaller

end Procs

/-! ## The tree of a reference -/

def Holds (h : Heap T) : Option Ref → BinaryTree (Ref × T) → Prop
  | p, .nil => p = none
  | p, .node a l r =>
    p = some a.1 ∧ ∃ le ri, h[a.1]? = some { le := le, ri := ri, data := a.2 } ∧ Holds h le l ∧ Holds h ri r

def refs (t : BinaryTree (Ref × T)) : List Ref := (preorder t).map Prod.fst

variable {h h' : Heap T} {p : Option Ref} {it n : Ref} {data : T} {a : Ref × T} {t l r : BinaryTree (Ref × T)}

theorem refs_node (a : Ref × T) (l r : BinaryTree (Ref × T)) : refs (.node a l r) = a.1 :: (refs l ++ refs r) := by
  rw [refs, preorder, List.map_cons, List.map_append]
  rfl

/-- Only its nodes count for a tree. -/
theorem Holds.frame (holds : Holds h p t) (same : ∀ n ∈ refs t, h'[n]? = h[n]?) : Holds h' p t := by
  induction t generalizing p with
  | nil => exact holds
  | node a l r left right =>
    obtain ⟨link, le, ri, here, holdsLeft, holdsRight⟩ := holds
    rw [refs_node] at same
    refine ⟨link, le, ri, (same a.1 List.mem_cons_self).trans here, ?_, ?_⟩
    · exact left holdsLeft fun n inside => same n (List.mem_cons_of_mem _ (List.mem_append_left _ inside))
    · exact right holdsRight fun n inside => same n (List.mem_cons_of_mem _ (List.mem_append_right _ inside))

theorem Holds.eq_none_iff (holds : Holds h p t) : p = none ↔ t = .nil := by
  cases t with
  | nil => exact iff_of_true holds rfl
  | node a l r =>
    obtain ⟨rfl, -⟩ := holds
    exact iff_of_false (fun none => nomatch none) (fun none => nomatch none)

theorem Holds.allocated (holds : Holds h p t) (inside : n ∈ refs t) : n < h.length := by
  induction t generalizing p with
  | nil => exact absurd inside List.not_mem_nil
  | node a l r left right =>
    obtain ⟨-, le, ri, here, holdsLeft, holdsRight⟩ := holds
    rw [refs_node, List.mem_cons, List.mem_append] at inside
    rcases inside with rfl | inLeft | inRight
    · exact (List.getElem?_eq_some_iff.mp here).1
    · exact left holdsLeft inLeft
    · exact right holdsRight inRight

theorem length_refs (t : BinaryTree (Ref × T)) : (refs t).length = t.numNodes := by
  rw [refs, List.length_map, SearchTree.length_preorder]

/-- A tree has no more nodes than have been made. -/
theorem Holds.numNodes_le (holds : Holds h p t) (distinct : (refs t).Nodup) : t.numNodes ≤ h.length := by
  have inside : refs t ⊆ List.range h.length := fun n member => List.mem_range.mpr (holds.allocated member)
  have few := (List.subperm_of_subset distinct inside).length_le
  rwa [length_refs, List.length_range] at few

/-- The three parts of a tree have different nodes. -/
theorem nodup_refs_node :
    (refs (.node a l r)).Nodup ↔
      a.1 ∉ refs l ∧ a.1 ∉ refs r ∧ (refs l).Nodup ∧ (refs r).Nodup ∧ ∀ n ∈ refs l, n ∉ refs r := by
  rw [refs_node, List.nodup_cons, List.mem_append, not_or, List.nodup_append', and_assoc]
  rfl

/-! ## `add` -/

section Add
variable [LinearOrder T]

omit [LinearOrder T] in
/-- A new node, linked. -/
theorem holds_new (new : h[n]? = some { le := none, ri := none, data := data }) :
    Holds h (some n) (.node (n, data) .nil .nil) := ⟨rfl, none, none, new, rfl, rfl⟩

/-- **The descent** inserts the new node and changes the nodes of the tree only. -/
theorem addNode.loop_spec {fuel : Nat} (holds : Holds h (some it) t) (distinct : (refs t).Nodup)
    (new : h[n]? = some { le := none, ri := none, data := data }) (outside : n ∉ refs t) (enough : t.numNodes ≤ fuel) :
    ∃ h', addNode.loop h n fuel (some it) = some h' ∧ Holds h' (some it) (SearchTree.insert Prod.snd (n, data) t) ∧
      h'.length = h.length ∧ ∀ m, m ∉ refs t → h'[m]? = h[m]? := by
  induction t generalizing it fuel with
  | nil => cases holds
  | node a l r left right =>
    obtain ⟨link, le, ri, here, holdsLeft, holdsRight⟩ := holds
    obtain rfl := Option.some.inj link
    obtain ⟨notLeft, notRight, distinctLeft, distinctRight, apart⟩ := nodup_refs_node.mp distinct
    rw [refs_node, List.mem_cons, List.mem_append, not_or, not_or] at outside
    obtain ⟨other, outsideLeft, outsideRight⟩ := outside
    have inside := (List.getElem?_eq_some_iff.mp here).1
    rw [BinaryTree.numNodes] at enough
    cases fuel with
    | zero => exact absurd enough (Nat.not_succ_le_zero _)
    | succ fuel =>
      simp only [addNode.loop, here, new, Option.bind_eq_bind, Option.bind_some, cmp_neg_iff, SearchTree.insert]
      -- Where the link of the node at hand is set, the other nodes stay.
      have linked (node : BinaryTreeObj T) (m : Ref) (elsewhere : m ≠ a.1) : (h.set a.1 node)[m]? = h[m]? :=
        List.getElem?_set_ne elsewhere.symm
      have kept (node : BinaryTreeObj T) (m : Ref) (far : m ∉ refs (.node a l r)) : (h.set a.1 node)[m]? = h[m]? := by
        rw [refs_node, List.mem_cons, not_or] at far
        exact linked node m far.1
      by_cases smaller : data < a.2
      · rw [if_pos smaller, if_pos smaller]
        by_cases none : le = none
        · rw [if_pos none]
          obtain rfl := holdsLeft.eq_none_iff.mp none
          refine ⟨_, rfl, ⟨rfl, some n, ri, List.getElem?_set_self inside, ?_, ?_⟩, List.length_set, kept _⟩
          · exact holds_new ((linked _ n other).trans new)
          · exact holdsRight.frame fun m member => linked _ m fun same => notRight (same ▸ member)
        · rw [if_neg none]
          obtain ⟨child, rfl⟩ := Option.ne_none_iff_exists'.mp none
          obtain ⟨h', run, holds', length, frame⟩ := @left child fuel holdsLeft distinctLeft outsideLeft (by omega)
          refine ⟨h', run, ⟨rfl, some child, ri, (frame a.1 notLeft).trans here, holds', ?_⟩, length, ?_⟩
          · exact holdsRight.frame fun m member => frame m fun member' => apart m member' member
          · intro m far
            rw [refs_node, List.mem_cons, List.mem_append, not_or, not_or] at far
            exact frame m far.2.1
      · rw [if_neg smaller, if_neg smaller]
        by_cases none : ri = none
        · rw [if_pos none]
          obtain rfl := holdsRight.eq_none_iff.mp none
          refine ⟨_, rfl, ⟨rfl, le, some n, List.getElem?_set_self inside, ?_, ?_⟩, List.length_set, kept _⟩
          · exact holdsLeft.frame fun m member => linked _ m fun same => notLeft (same ▸ member)
          · exact holds_new ((linked _ n other).trans new)
        · rw [if_neg none]
          obtain ⟨child, rfl⟩ := Option.ne_none_iff_exists'.mp none
          obtain ⟨h', run, holds', length, frame⟩ := @right child fuel holdsRight distinctRight outsideRight (by omega)
          refine ⟨h', run, ⟨rfl, le, some child, (frame a.1 notRight).trans here, ?_, holds'⟩, length, ?_⟩
          · exact holdsLeft.frame fun m member => frame m fun member' => apart m member member'
          · intro m far
            rw [refs_node, List.mem_cons, List.mem_append, not_or, not_or] at far
            exact frame m far.2.2

theorem refs_insert (t : BinaryTree (Ref × T)) : (refs (SearchTree.insert Prod.snd (n, data) t)).Perm (n :: refs t) :=
  (SearchTree.perm_preorder_insert t).map Prod.fst

/-- A datum is added in a new node. -/
theorem add_spec (holds : Holds h p t) (distinct : (refs t).Nodup) (data : T) :
    ∃ h' p', add h p data = some (h', p') ∧ Holds h' p' (SearchTree.insert Prod.snd (h.length, data) t) ∧
      (refs (SearchTree.insert Prod.snd (h.length, data) t)).Nodup := by
  have outside : h.length ∉ refs t := fun inside => Nat.lt_irrefl _ (holds.allocated inside)
  have distinct' := (@refs_insert T h.length data _ t).nodup_iff.mpr (List.nodup_cons.mpr ⟨outside, distinct⟩)
  have new : (newNode h data).1[h.length]? = some { le := none, ri := none, data := data } := List.getElem?_concat_length
  have old : Holds (newNode h data).1 p t :=
    holds.frame fun n inside => List.getElem?_append_left (holds.allocated inside)
  cases p with
  | none =>
    obtain rfl := holds.eq_none_iff.mp rfl
    exact ⟨_, _, rfl, holds_new new, distinct'⟩
  | some it =>
    obtain ⟨h', run, holds', -⟩ := addNode.loop_spec old distinct new outside (old.numNodes_le distinct)
    refine ⟨h', some it, ?_, holds', distinct'⟩
    exact congrArg (Option.map fun h => (h, some it)) run

end Add

/-! ## `preorder` -/

/-- **The way to the left** yields the spine, and leaves what is waiting on the stack. -/
theorem preorderInner_spec {fuel : Nat} (holds : Holds h p t) (enough : t.numNodes < fuel) (stack : List (Option Ref)) :
    ∃ ps, preorderInner h fuel p stack = some (spine t, ps ++ stack) ∧ List.Forall₂ (Holds h) ps (waiting t) := by
  induction t generalizing p fuel stack with
  | nil =>
    obtain rfl : p = none := holds
    cases fuel with
    | zero => exact absurd enough (Nat.not_lt_zero _)
    | succ fuel => exact ⟨[], rfl, .nil⟩
  | node a l r left right =>
    obtain ⟨rfl, le, ri, here, holdsLeft, holdsRight⟩ := holds
    rw [BinaryTree.numNodes] at enough
    cases fuel with
    | zero => exact absurd enough (Nat.not_lt_zero _)
    | succ fuel =>
      obtain ⟨ps, run, later⟩ := @left le fuel holdsLeft (by omega) (ri :: stack)
      refine ⟨ps ++ [ri], ?_, List.rel_append later (.cons holdsRight .nil)⟩
      simp only [preorderInner, here, run, spine, Option.bind_eq_bind, Option.bind_some, List.append_assoc,
        List.singleton_append]
      rfl

theorem preorderOuter_spec {ps : List (Option Ref)} {ts : List (BinaryTree (Ref × T))} {fuel : Nat}
    (holds : List.Forall₂ (Holds h) ps ts) (inside : ∀ t ∈ ts, t.numNodes ≤ h.length) (enough : places ts < fuel) :
    preorderOuter h fuel ps = some (ts.flatMap preorder) := by
  induction fuel generalizing ps ts with
  | zero => exact absurd enough (Nat.not_lt_zero _)
  | succ fuel ih =>
    cases holds with
    | nil => rfl
    | @cons p t ps ts first rest =>
      obtain ⟨few, others⟩ := List.forall_mem_cons.mp inside
      obtain ⟨qs, run, later⟩ := preorderInner_spec first (Nat.lt_succ_of_le few) ps
      have fewer : places (waiting t ++ ts) < fuel := by
        rw [places, List.map_cons, List.sum_cons, ← places] at enough
        rw [SearchTree.places_append, SearchTree.places_waiting]
        omega
      have below : ∀ u ∈ waiting t ++ ts, u.numNodes ≤ h.length := by
        intro u member
        rcases List.mem_append.mp member with later | other
        · exact Nat.le_trans (Nat.le_of_lt (SearchTree.numNodes_lt_of_mem_waiting later)) few
        · exact others u other
      simp only [preorderOuter, run, ih (List.rel_append later rest) below fewer, Option.bind_eq_bind, Option.bind_some,
        List.flatMap_append, List.flatMap_cons, ← List.append_assoc, SearchTree.spine_append_waiting]
      rfl

/-- **The iterator** yields the nodes of the tree as the recursive traversal does. -/
theorem preorderIterator_spec (holds : Holds h p t) (distinct : (refs t).Nodup) :
    preorderIterator h p = some (preorder t) := by
  have few := holds.numNodes_le distinct
  have enough : places [t] < h.length + 2 := by
    rw [places, List.map_singleton, List.sum_singleton]
    omega
  have all := preorderOuter_spec (.cons holds .nil) (List.forall_mem_singleton.mpr few) enough
  rwa [List.flatMap_singleton] at all

/-! ## Runs -/

section Runs
variable [LinearOrder T]

/-- Calls of `add`, one after the other. -/
def addAll (values : List T) : Option (Heap T × Option Ref) :=
  values.foldlM (fun (h, root) data => add h root data) ([], none)

/-- What a sequence of calls leaves is a search tree of the values, and the iterator goes through it
as the recursive traversal does. -/
structure Built (values : List T) (h : Heap T) (root : Option Ref) (t : BinaryTree (Ref × T)) : Prop where
  holds : Holds h root t
  distinct : (refs t).Nodup
  ordered : Ordered Prod.snd t
  values : ((preorder t).map Prod.snd).Perm values

theorem built_nil : Built ([] : List T) [] none .nil := ⟨rfl, List.nodup_nil, trivial, List.Perm.refl []⟩

theorem Built.step {values : List T} (built : Built values h p t) (data : T) :
    ∃ h' p' t', add h p data = some (h', p') ∧ Built (values ++ [data]) h' p' t' := by
  obtain ⟨h', p', run, holds', distinct'⟩ := add_spec built.holds built.distinct data
  refine ⟨h', p', _, run, holds', distinct', SearchTree.ordered_insert built.ordered, ?_⟩
  have more := (@SearchTree.perm_preorder_insert _ _ _ Prod.snd (h.length, data) t).map Prod.snd
  exact more.trans ((built.values.cons data).trans (List.perm_append_singleton data values).symm)

/-- **Every sequence of calls** builds a search tree of all its values, and the iterator yields each
of its nodes once, in preorder. -/
theorem addAll_preorder (values : List T) :
    ∃ h root t, addAll values = some (h, root) ∧ Holds h root t ∧ Ordered Prod.snd t ∧
      ((preorder t).map Prod.snd).Perm values ∧ preorderIterator h root = some (preorder t) ∧
      ((preorder t).map Prod.fst).Nodup := by
  have run : ∃ h root t, addAll values = some (h, root) ∧ Built values h root t := by
    induction values using List.reverseRecOn with
    | nil => exact ⟨[], none, .nil, rfl, built_nil⟩
    | append_singleton values data ih =>
      obtain ⟨h, root, t, before, built⟩ := ih
      obtain ⟨h', root', t', last, built'⟩ := built.step data
      refine ⟨h', root', t', ?_, built'⟩
      rw [addAll, List.foldlM_append, ← addAll, before]
      simp only [Option.bind_eq_bind, Option.bind_some, List.foldlM_cons, List.foldlM_nil, last]
      rfl
  obtain ⟨h, root, t, calls, built⟩ := run
  exact ⟨h, root, t, calls, built.holds, built.ordered, built.values,
    preorderIterator_spec built.holds built.distinct, built.distinct⟩

example : ((addAll [2, 1, 3, 2]).bind fun (h, root) => preorderIterator h root) = some [(0, 2), (1, 1), (2, 3), (3, 2)] := by
  decide

end Runs

end CodeClips.Nim
