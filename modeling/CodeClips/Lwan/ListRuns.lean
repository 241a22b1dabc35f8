import CodeClips.Lwan.ListOps

/-!
# Runs on many lists

A family of lists says what a program with many heads has in them, and which addresses hold
nodes. The contract of each operation is stated on the family, its effect and its reply are
computed there, and a memory represents a family if the lists are circles that share no node. A
run within the contract does on the circles what it does on the family, in both builds; the program
may write, allocate and free what is in no list between the operations.
-/

namespace CodeClips.LwanList

/-- The calls of the module, and what a program does to a node on its own. -/
inductive Op (A : Type) where
  /-- The program writes the node, or allocates or frees it. -/
  | write (n : A) (c : Option (ListNode A))
  | listHeadInit (h : A)
  | listAdd (h n : A)
  | listAddTail (h n : A)
  | listEmpty (h : A)
  | listDel (n : A)
  | listDelFrom (h n : A)
  | listTop (h : A)
  | listPop (h : A)
  | listTail (h : A)
  | listAppendList (to_ from_ : A)
  | listPrependList (to_ from_ : A)

/-- What the calls return. -/
inductive Reply (A : Type) where
  | unit
  | bool (b : Bool)
  | node (n : Option A)

/-- Lists by their heads, and the nodes that are allocated: what the memory stands for. -/
structure Family (A : Type) where
  lists : A → Option (List A)
  live : A → Prop

variable {A : Type}

namespace Family

/-- The nodes of the list of `h`; none if `h` is no head. -/
def nodes (F : Family A) (h : A) : List A := (F.lists h).getD []

/-- `a` is in no list but that of `h`. -/
def Outside (F : Family A) (h a : A) : Prop := ∀ h' l, h' ≠ h → F.lists h' = some l → a ∉ h' :: l

/-- It belongs to no list, neither as a head nor as a node. -/
def Free (F : Family A) (a : A) : Prop := ∀ h l, F.lists h = some l → a ∉ h :: l

/-- It is in some list, and not its head. -/
def Node (F : Family A) (a : A) : Prop := ∃ h l, F.lists h = some l ∧ a ∈ l

variable [DecidableEq A]

/-- The list of `h` is `l` from now on. -/
def set (F : Family A) (h : A) (l : List A) : Family A := { F with lists := Function.update F.lists h (some l) }

/-- `h` is no longer the head of a list. -/
def forget (F : Family A) (h : A) : Family A := { F with lists := Function.update F.lists h none }

/-- The contract: a node is added that is in no list, and deleted from one that it is in. -/
def Allowed (F : Family A) : Op A → Prop
  | .write n _ => ¬ F.Node n
  | .listHeadInit h => F.live h ∧ ¬ F.Node h
  | .listAdd h n | .listAddTail h n => (F.lists h).isSome ∧ F.live n ∧ F.Free n
  | .listEmpty h | .listTop h | .listPop h | .listTail h => (F.lists h).isSome
  | .listDel n => F.Node n
  | .listDelFrom h n => (F.lists h).isSome ∧ n ∈ F.nodes h
  | .listAppendList to_ from_ | .listPrependList to_ from_ => to_ ≠ from_ ∧ (F.lists to_).isSome ∧ (F.lists from_).isSome

/-- What a call does to the lists. -/
def effect (F : Family A) : Op A → Family A
  | .write n c => { F.forget n with live := Function.update F.live n (c.isSome : Prop) }
  | .listHeadInit h => F.set h []
  | .listAdd h n => F.set h (n :: F.nodes h)
  | .listAddTail h n => F.set h (F.nodes h ++ [n])
  | .listEmpty _ | .listTop _ | .listTail _ => F
  | .listDel n => { F with lists := fun h => (F.lists h).map fun l => l.erase n }
  | .listDelFrom h n => F.set h ((F.nodes h).erase n)
  | .listPop h => F.set h (F.nodes h).tail
  | .listAppendList to_ from_ => (F.set to_ (F.nodes to_ ++ F.nodes from_)).set from_ []
  | .listPrependList to_ from_ => (F.set to_ (F.nodes from_ ++ F.nodes to_)).set from_ []

/-- What a call returns, by the lists before it. -/
def reply (F : Family A) : Op A → Reply A
  | .listEmpty h => .bool (F.nodes h).isEmpty
  | .listTop h | .listPop h => .node (F.nodes h).head?
  | .listTail h => .node (F.nodes h).getLast?
  | _ => .unit

/-- Each call is allowed when its turn comes. -/
def AllowedRun : Family A → List (Op A) → Prop
  | _, [] => True
  | F, op :: ops => F.Allowed op ∧ AllowedRun (F.effect op) ops

/-- The lists after all the calls. -/
def effects : Family A → List (Op A) → Family A
  | F, [] => F
  | F, op :: ops => effects (F.effect op) ops

/-- What the calls return in turn. -/
def replies : Family A → List (Op A) → List (Reply A)
  | _, [] => []
  | F, op :: ops => F.reply op :: replies (F.effect op) ops

end Family

section Exec
variable [DecidableEq A] (debug : Bool) (fuel : Nat)

/-- A call that returns nothing. -/
def silent (result : Except (Halt A) (Memory A)) : Except (Halt A) (Memory A × Reply A) :=
  result.map fun m => (m, .unit)

/-- A call on the memory. -/
def exec (m : Memory A) : Op A → Except (Halt A) (Memory A × Reply A)
  | .write n c => .ok (m.put n c, .unit)
  | .listHeadInit h => silent (listHeadInit m h)
  | .listAdd h n => silent (listAdd debug fuel m h n)
  | .listAddTail h n => silent (listAddTail debug fuel m h n)
  | .listEmpty h => (listEmpty debug fuel m h).map fun b => (m, .bool b)
  | .listDel n => silent (listDel debug fuel m n)
  | .listDelFrom h n => silent (listDelFrom debug fuel m h n)
  | .listTop h => (listTop debug fuel m h).map fun n => (m, .node n)
  | .listPop h => (listPop debug fuel m h).map fun (m, n) => (m, .node n)
  | .listTail h => (listTail debug fuel m h).map fun n => (m, .node n)
  | .listAppendList to_ from_ => silent (listAppendList debug fuel m to_ from_)
  | .listPrependList to_ from_ => silent (listPrependList debug fuel m to_ from_)

/-- The calls in turn, with what they return. -/
def run (m : Memory A) : List (Op A) → Except (Halt A) (Memory A × List (Reply A))
  | [] => .ok (m, [])
  | op :: ops => do
    let (m, reply) ← exec debug fuel m op
    let (m, replies) ← run m ops
    .ok (m, reply :: replies)

end Exec

/-- The lists are circles, no two of them share a node, and the nodes there are are those of the
memory. -/
structure Represents (m : Memory A) (F : Family A) : Prop where
  ring : ∀ h l, F.lists h = some l → (links m).Ring h l
  apart : ∀ h l, F.lists h = some l → ∀ a ∈ h :: l, F.Outside h a
  live : ∀ a, F.live a ↔ Room m a

/-- No memory and no list. -/
theorem represents_empty : Represents (A := A) ⟨fun _ => none⟩ ⟨fun _ => none, fun _ => False⟩ :=
  ⟨fun _ _ here => (Option.some_ne_none _ here.symm).elim, fun _ _ here => (Option.some_ne_none _ here.symm).elim,
    fun _ => by simp [Room]⟩

variable [DecidableEq A] {m m' : Memory A} {F : Family A} {h n : A} {l : List A} {foot : List A}

omit [DecidableEq A] in
theorem Family.nodes_eq (here : F.lists h = some l) : F.nodes h = l := by rw [Family.nodes, here, Option.getD_some]

/-- Of the lists only that of `h` has been set. -/
theorem Family.set_cases {h' : A} {l' : List A} (here : (F.set h l).lists h' = some l') :
    (h' = h ∧ l' = l) ∨ (h' ≠ h ∧ F.lists h' = some l') := by
  by_cases same : h' = h
  · subst same
    have self : (F.set h' l).lists h' = some l := Function.update_self ..
    exact .inl ⟨rfl, Option.some.inj (here.symm.trans self)⟩
  · exact .inr ⟨same, (Function.update_of_ne same ..).symm.trans here⟩

theorem Family.forget_lists {h' : A} {l' : List A} (here : (F.forget h).lists h' = some l') :
    h' ≠ h ∧ F.lists h' = some l' := by
  by_cases same : h' = h
  · subst same
    have self : (F.forget h').lists h' = none := Function.update_self ..
    exact absurd (here.symm.trans self) (Option.some_ne_none l')
  · exact ⟨same, (Function.update_of_ne same ..).symm.trans here⟩

/-- One list is replaced, by nodes that are in no other. -/
theorem Represents.set (rep : Represents m F) (changed : Changed foot m m') (ring : (links m').Ring h l)
    (away : ∀ a ∈ foot, F.Outside h a) (own : ∀ a ∈ h :: l, F.Outside h a) : Represents m' (F.set h l) where
  ring h' l' here := by
    rcases Family.set_cases here with ⟨rfl, rfl⟩ | ⟨other, here⟩
    · exact ring
    · exact changed.ring (rep.ring h' l' here) fun a inside touched => away a touched h' l' other here inside
  apart h' l' here a inside h'' l'' other there inside' := by
    rcases Family.set_cases here with ⟨rfl, rfl⟩ | ⟨other', kept⟩
    · rcases Family.set_cases there with ⟨same, -⟩ | ⟨-, there⟩
      · exact other same
      · exact own a inside h'' l'' other there inside'
    · rcases Family.set_cases there with ⟨rfl, rfl⟩ | ⟨-, there⟩
      · exact own a inside' h' l' other' kept inside
      · exact rep.apart h' l' kept a inside h'' l'' other there inside'
  live a := (rep.live a).trans (changed.room a).symm

/-- A head may be forgotten; its memory stays as it is. -/
theorem Represents.forget (rep : Represents m F) (h : A) : Represents m (F.forget h) where
  ring h' l' here := rep.ring h' l' (Family.forget_lists here).2
  apart h' l' here a inside h'' l'' other there :=
    rep.apart h' l' (Family.forget_lists here).2 a inside h'' l'' other (Family.forget_lists there).2
  live := rep.live

/-- What the memory holds after the operation, and that it returns with the reply, in either build
and with any fuel above some bound. -/
def Refined (debug : Bool) (m : Memory A) (F : Family A) (op : Op A) : Prop :=
  ∃ m', Represents m' (F.effect op) ∧ ∃ bound, ∀ fuel, bound < fuel → exec debug fuel m op = .ok (m', F.reply op)

section Operations
variable (debug : Bool) (rep : Represents m F)
include rep

/-- An operation on one list, its nodes among those it may change. -/
theorem refined_of_ring {op : Op A} (bound : Nat) (changed : Changed foot m m') (ring : (links m').Ring h l)
    (away : ∀ a ∈ foot, F.Outside h a) (own : ∀ a ∈ h :: l, a ∈ foot) (effect : F.effect op = F.set h l)
    (runs : ∀ fuel, bound < fuel → exec debug fuel m op = .ok (m', F.reply op)) : Refined debug m F op := by
  refine ⟨m', ?_, bound, runs⟩
  rw [effect]
  exact rep.set changed ring away fun a inside => away a (own a inside)

omit [DecidableEq A] in
/-- The nodes of a list are in no other one. -/
theorem Represents.own (here : F.lists h = some l) : ∀ a ∈ h :: l, F.Outside h a := rep.apart h l here

omit [DecidableEq A] in
theorem Represents.own_free (here : F.lists h = some l) (free : F.Free n) : ∀ a ∈ n :: h :: l, F.Outside h a := by
  intro a inside
  rcases List.mem_cons.mp inside with rfl | inside
  · exact fun h' l' _ => free h' l'
  · exact rep.own here a inside

theorem refined_add (here : F.lists h = some l) (live : F.live n) (free : F.Free n) : Refined debug m F (.listAdd h n) := by
  obtain ⟨m', ring, changed, runs⟩ := listAdd_ring debug (rep.ring h l here) (free h l here) ((rep.live n).mp live)
  apply refined_of_ring debug rep _ changed ring (rep.own_free here free)
  · intro a inside
    simpa [or_left_comm] using inside
  · rw [Family.effect, Family.nodes_eq here]
  · intro fuel enough
    rw [exec, runs fuel enough]
    rfl

theorem refined_addTail (here : F.lists h = some l) (live : F.live n) (free : F.Free n) :
    Refined debug m F (.listAddTail h n) := by
  obtain ⟨m', ring, changed, runs⟩ := listAddTail_ring debug (rep.ring h l here) (free h l here) ((rep.live n).mp live)
  apply refined_of_ring debug rep _ changed ring (rep.own_free here free)
  · intro a inside
    simpa [or_comm, or_assoc, or_left_comm] using inside
  · rw [Family.effect, Family.nodes_eq here]
  · intro fuel enough
    rw [exec, runs fuel enough]
    rfl

theorem refined_headInit (live : F.live h) (head : ¬ F.Node h) : Refined debug m F (.listHeadInit h) := by
  obtain ⟨m', ring, changed, runs⟩ := listHeadInit_ring ((rep.live h).mp live)
  refine refined_of_ring debug rep 0 changed ring ?_ (fun a inside => inside) rfl ?_
  · intro a alone h' l' other here inside
    rw [List.mem_singleton.mp alone] at inside
    rcases List.mem_cons.mp inside with same | inside
    · exact other same.symm
    · exact head ⟨h', l', here, inside⟩
  · intro fuel _
    rw [exec, runs]
    rfl

theorem refined_pop (here : F.lists h = some l) : Refined debug m F (.listPop h) := by
  obtain ⟨m', ring, changed, runs⟩ := listPop_ring debug (rep.ring h l here)
  apply refined_of_ring debug rep _ changed ring (rep.own here)
  · intro a inside
    rcases List.mem_cons.mp inside with rfl | inside
    · exact List.mem_cons_self
    · exact List.mem_cons_of_mem h (List.mem_of_mem_tail inside)
  · rw [Family.effect, Family.nodes_eq here]
  · intro fuel enough
    rw [exec, runs fuel enough, Family.reply, Family.nodes_eq here]
    rfl

/-- An operation that changes nothing. -/
theorem refined_same {op : Op A} (bound : Nat) (effect : F.effect op = F)
    (runs : ∀ fuel, bound < fuel → exec debug fuel m op = .ok (m, F.reply op)) : Refined debug m F op := by
  refine ⟨m, ?_, bound, runs⟩
  rwa [effect]

/-- A node is in the list once. -/
theorem erase_node {front back : List A} (here : F.lists h = some (front ++ n :: back)) :
    (front ++ n :: back).erase n = front ++ back := by
  have outside : n ∉ front := by
    intro inside
    exact (rep.ring h _ here).not_mem (List.mem_cons_of_mem h (List.mem_append_left back inside))
  rw [List.erase_append_right _ outside, List.erase_cons_head]

/-- A node is deleted from its own list only. -/
theorem effect_del (here : F.lists h = some l) (inside : n ∈ l) : F.effect (.listDel n) = F.set h (l.erase n) := by
  rw [Family.effect, Family.set, Family.mk.injEq]
  refine ⟨?_, rfl⟩
  funext h'
  by_cases same : h' = h
  · subst same
    rw [Function.update_self, here, Option.map_some]
  · rw [Function.update_of_ne same]
    cases there : F.lists h' with
    | none => rfl
    | some l' =>
      have outside : n ∉ h' :: l' := rep.own here n (List.mem_cons_of_mem h inside) h' l' same there
      rw [Option.map_some, List.erase_of_not_mem fun inside' => outside (List.mem_cons_of_mem h' inside')]

/-- The list of the node is found, and it is taken out of that one. -/
theorem refined_del (node : F.Node n) : Refined debug m F (.listDel n) := by
  obtain ⟨h, l, here, inside⟩ := node
  have effect := effect_del rep here inside
  obtain ⟨front, back, rfl⟩ := List.append_of_mem inside
  obtain ⟨m', ring, changed, runs⟩ := listDel_ring debug (rep.ring h _ here)
  rw [erase_node rep here] at effect
  apply refined_of_ring debug rep _ changed ring (rep.own here) (Links.subset_whole h n front back) effect
  intro fuel enough
  rw [exec, runs fuel enough]
  rfl

theorem refined_delFrom (here : F.lists h = some l) (inside : n ∈ l) : Refined debug m F (.listDelFrom h n) := by
  obtain ⟨front, back, rfl⟩ := List.append_of_mem inside
  obtain ⟨m', ring, changed, runs⟩ := listDelFrom_ring debug (rep.ring h _ here)
  apply refined_of_ring debug rep _ changed ring (rep.own here) (Links.subset_whole h n front back)
  · rw [Family.effect, Family.nodes_eq here, erase_node rep here]
  · intro fuel enough
    rw [exec, runs fuel enough]
    rfl

omit [DecidableEq A] in
/-- Two lists have no node in common. -/
theorem disjoint_lists {f : A} {l' : List A} (here : F.lists h = some l) (there : F.lists f = some l') (other : h ≠ f) :
    (h :: l).Disjoint (f :: l') :=
  fun a inside => rep.own here a inside f l' (Ne.symm other) there

/-- The list of `f` goes into that of `h`. -/
theorem refined_join {f : A} {l' joined : List A} {op : Op A} {bound : Nat} (here : F.lists h = some l)
    (there : F.lists f = some l') (other : h ≠ f) (nodes : ∀ a, a ∈ joined ↔ a ∈ l ∨ a ∈ l')
    (ring : (links m').Ring h joined) (empty : (links m').Ring f []) (changed : Changed foot m m')
    (footprint : ∀ a, a ∈ foot ↔ a ∈ h :: l ∨ a ∈ f :: l') (effect : F.effect op = (F.set h joined).set f [])
    (runs : ∀ fuel, bound < fuel → exec debug fuel m op = .ok (m', F.reply op)) : Refined debug m F op := by
  have away : ∀ a ∈ foot, (F.forget f).Outside h a := by
    intro a inside h' l'' apart kept
    obtain ⟨apart', kept⟩ := Family.forget_lists kept
    rcases (footprint a).mp inside with inside | inside
    · exact rep.own here a inside h' l'' apart kept
    · exact rep.own there a inside h' l'' apart' kept
  have rep₁ : Represents m' ((F.forget f).set h joined) := by
    refine (rep.forget f).set changed ring away fun a inside => away a ((footprint a).mpr ?_)
    rcases List.mem_cons.mp inside with rfl | inside
    · exact .inl List.mem_cons_self
    · exact ((nodes a).mp inside).imp (List.mem_cons_of_mem h) (List.mem_cons_of_mem f)
  have alone : ∀ a ∈ [f], ((F.forget f).set h joined).Outside f a := by
    intro a inside h' l'' apart kept
    obtain rfl := List.mem_singleton.mp inside
    rcases Family.set_cases kept with ⟨rfl, rfl⟩ | ⟨-, kept⟩
    · intro inside
      rcases List.mem_cons.mp inside with same | inside
      · exact other same.symm
      · rcases (nodes a).mp inside with inside | inside
        · exact disjoint_lists rep here there other (List.mem_cons_of_mem h' inside) List.mem_cons_self
        · exact (List.nodup_cons.mp (rep.ring a l' there).nodup).1 inside
    · exact rep.own there a List.mem_cons_self h' l'' apart (Family.forget_lists kept).2
  refine ⟨m', ?_, bound, runs⟩
  have same : (F.set h joined).set f [] = ((F.forget f).set h joined).set f [] := by
    simp only [Family.set, Family.forget, Family.mk.injEq, and_true]
    rw [Function.update_comm (Ne.symm other), Function.update_idem]
  rw [effect, same]
  exact rep₁.set (Changed.refl [f] m') empty alone alone

/-- Both heads are heads of lists afterwards, the second of an empty one. -/
theorem refined_appendList {f : A} {l' : List A} (here : F.lists h = some l) (there : F.lists f = some l') (other : h ≠ f) :
    Refined debug m F (.listAppendList h f) := by
  obtain ⟨m', ring, empty, changed, runs⟩ :=
    listAppendList_ring debug (rep.ring h l here) (rep.ring f l' there) (disjoint_lists rep here there other)
  apply refined_join debug rep here there other (fun a => List.mem_append) ring empty changed
  · intro a
    exact List.mem_append (s := h :: l)
  · rw [Family.effect, Family.nodes_eq here, Family.nodes_eq there]
  · intro fuel enough
    rw [exec, runs fuel enough]
    rfl

theorem refined_prependList {f : A} {l' : List A} (here : F.lists h = some l) (there : F.lists f = some l') (other : h ≠ f) :
    Refined debug m F (.listPrependList h f) := by
  obtain ⟨m', ring, empty, changed, runs⟩ :=
    listPrependList_ring debug (rep.ring h l here) (rep.ring f l' there) (disjoint_lists rep here there other)
  apply refined_join debug rep here there other (fun a => List.mem_append.trans or_comm) ring empty changed
  · intro a
    simp only [List.mem_cons, List.mem_append]
    tauto
  · rw [Family.effect, Family.nodes_eq here, Family.nodes_eq there]
  · intro fuel enough
    rw [exec, runs fuel enough]
    rfl

/-- A program may do what it likes to a node that is in no list, and to a head, which is none then. -/
theorem refined_write (c : Option (ListNode A)) (node : ¬ F.Node n) : Refined debug m F (.write n c) := by
  have kept := rep.forget n
  refine ⟨m.put n c, ⟨fun h l here => ?_, kept.apart, fun a => ?_⟩, 0, fun fuel _ => rfl⟩
  · obtain ⟨other, before⟩ := Family.forget_lists here
    have outside : ∀ a ∈ h :: l, a ≠ n := by
      rintro a inside rfl
      rcases List.mem_cons.mp inside with same | inside
      · exact other same.symm
      · exact node ⟨h, l, before, inside⟩
    apply (rep.ring h l before).congr <;> intro a inside <;>
      exact CellHeap.next_congr _ (CellHeap.cell_put_of_ne m (outside a inside) c)
  · by_cases same : a = n
    · subst same
      simp only [Family.effect, Function.update_self, Room, CellHeap.cell_put_self]
    · simp only [Family.effect, Function.update_of_ne same, Room, CellHeap.cell_put_of_ne m same]
      exact rep.live a

/-- One operation within the contract. -/
theorem exec_refines {op : Op A} (allowed : F.Allowed op) : Refined debug m F op := by
  have content {h : A} (head : (F.lists h).isSome) : ∃ l, F.lists h = some l := Option.isSome_iff_exists.mp head
  cases op with
  | write n c => exact refined_write debug rep c allowed
  | listHeadInit h => exact refined_headInit debug rep allowed.1 allowed.2
  | listAdd h n =>
    obtain ⟨l, here⟩ := content allowed.1
    exact refined_add debug rep here allowed.2.1 allowed.2.2
  | listAddTail h n =>
    obtain ⟨l, here⟩ := content allowed.1
    exact refined_addTail debug rep here allowed.2.1 allowed.2.2
  | listEmpty h =>
    obtain ⟨l, here⟩ := content allowed
    refine refined_same debug rep l.length rfl fun fuel enough => ?_
    rw [exec, listEmpty_ring debug (rep.ring h l here) enough, Family.reply, Family.nodes_eq here]
    rfl
  | listDel n => exact refined_del debug rep allowed
  | listDelFrom h n =>
    obtain ⟨l, here⟩ := content allowed.1
    have inside := allowed.2
    rw [Family.nodes_eq here] at inside
    exact refined_delFrom debug rep here inside
  | listTop h =>
    obtain ⟨l, here⟩ := content allowed
    refine refined_same debug rep l.length rfl fun fuel enough => ?_
    rw [exec, listTop_ring debug (rep.ring h l here) enough, Family.reply, Family.nodes_eq here]
    rfl
  | listPop h =>
    obtain ⟨l, here⟩ := content allowed
    exact refined_pop debug rep here
  | listTail h =>
    obtain ⟨l, here⟩ := content allowed
    refine refined_same debug rep l.length rfl fun fuel enough => ?_
    rw [exec, listTail_ring debug (rep.ring h l here) enough, Family.reply, Family.nodes_eq here]
    rfl
  | listAppendList h f =>
    obtain ⟨l, here⟩ := content allowed.2.1
    obtain ⟨l', there⟩ := content allowed.2.2
    exact refined_appendList debug rep here there allowed.1
  | listPrependList h f =>
    obtain ⟨l, here⟩ := content allowed.2.1
    obtain ⟨l', there⟩ := content allowed.2.2
    exact refined_prependList debug rep here there allowed.1

end Operations

/-- A run within the contract returns in either build, for any fuel above some bound, with the
replies of the lists, and the memory holds the lists it should. -/
theorem list_runs_refine (debug : Bool) (rep : Represents m F) {ops : List (Op A)} (allowed : F.AllowedRun ops) :
    ∃ m', Represents m' (F.effects ops) ∧
      ∃ bound, ∀ fuel, bound < fuel → run debug fuel m ops = .ok (m', F.replies ops) := by
  induction ops generalizing m F with
  | nil => exact ⟨m, rep, 0, fun fuel _ => rfl⟩
  | cons op ops ih =>
    obtain ⟨m₁, rep₁, bound, runs⟩ := exec_refines debug rep allowed.1
    obtain ⟨m', rep', bound', rest⟩ := ih rep₁ allowed.2
    refine ⟨m', rep', max bound bound', fun fuel enough => ?_⟩
    rw [run, runs fuel (lt_of_le_of_lt (le_max_left ..) enough), returned_bind]
    simp only [rest fuel (lt_of_le_of_lt (le_max_right ..) enough), returned_bind, Family.replies]

/-- Two nodes and a head: added at both ends, the first one popped. -/
theorem list_runs_refine_three : ∃ m' : Memory Nat, ∃ bound, ∀ fuel, bound < fuel →
    run true fuel ⟨fun _ => none⟩ [.write 0 (some ⟨none, none⟩), .write 1 (some ⟨none, none⟩), .write 2 (some ⟨none, none⟩),
      .listHeadInit 0, .listAdd 0 1, .listAddTail 0 2, .listPop 0, .listTail 0] =
        .ok (m', [.unit, .unit, .unit, .unit, .unit, .unit, .node (some 1), .node (some 2)]) := by
  have within : Family.AllowedRun (A := Nat) ⟨fun _ => none, fun _ => False⟩
      [.write 0 (some ⟨none, none⟩), .write 1 (some ⟨none, none⟩), .write 2 (some ⟨none, none⟩),
        .listHeadInit 0, .listAdd 0 1, .listAddTail 0 2, .listPop 0, .listTail 0] := by
    simp [Family.AllowedRun, Family.Allowed, Family.effect, Family.Node, Family.Free, Family.set, Family.forget, Family.nodes,
      Function.update_apply]
  obtain ⟨m', -, bound, runs⟩ := list_runs_refine true represents_empty within
  exact ⟨m', bound, runs⟩

end CodeClips.LwanList
