import CodeClips.Lib.Transition
import CodeClips.Rtp.ClientList
import Mathlib.Data.Set.Insert

/-!
# Sequences of operations on the client list

The state keeps, beside the heap, the addresses that were inserted and not deleted. `Laws` says
that the list holds these, each once, and what every operation does to it. One operation keeps
the laws unless `strcpy` runs over the end of `ipaddr` (`step_laws_iff`), and so do sequences of
them (`client_list_laws_iff`).
-/

namespace CodeClips.Rtp

/-- An operation; `q` is the cell that `malloc` returns. -/
inductive ListOp
  | insert_nodulp_node (ipaddr : CString) (q : Pnode)
  | delete_node (ipaddr : CString)
  | delete_this_node (this_pnode : Pnode)

structure ListState where
  heap : Except Stop Heap
  /-- What was inserted and not deleted. -/
  present : Set CString

def ListOp.run (fuel : Nat) (h : Heap) (llist : Pnode) : ListOp → Except Stop Heap
  | insert_nodulp_node ipaddr q => (Rtp.insert_nodulp_node fuel h llist ipaddr (some q)).map Prod.fst
  | delete_node ipaddr => (Rtp.delete_node fuel h llist ipaddr).map Prod.fst
  | delete_this_node this_pnode => (Rtp.delete_this_node fuel h llist this_pnode).map Prod.fst

/-- `malloc` returns a cell that is not in use, and a node to delete is one that the links lead to. -/
def ListOp.Valid (h : Heap) (llist : Pnode) : ListOp → Prop
  | insert_nodulp_node _ q => h.cell q = none
  | delete_node _ => True
  | delete_this_node this_pnode =>
    ∃ front, Segment (h.next Node.next) (h.next Node.next llist) front (some this_pnode)

def ListOp.present (h : Heap) (present : Set CString) : ListOp → Set CString
  | insert_nodulp_node ipaddr _ => insert ipaddr present
  | delete_node ipaddr => { a ∈ present | a ≠ ipaddr }
  | delete_this_node this_pnode => { a ∈ present | (h.cell this_pnode).map Node.ipaddr ≠ some a }

/-- The operation runs, and with any more fuel it ends as in `s'`. -/
def ListStep (llist : Pnode) (s : ListState) (op : ListOp) (s' : ListState) : Prop :=
  ∃ h rounds, s.heap = .ok h ∧ op.Valid h llist ∧ (∀ fuel ≥ rounds, op.run fuel h llist = s'.heap) ∧
    s'.present = op.present h s.present

/-- The text to be inserted and its NUL are not longer than `ipaddr`. -/
def ListOp.Fits : ListOp → Prop
  | insert_nodulp_node ipaddr _ => ipaddr.val.length < IPADDR_SIZE
  | _ => True

/-- What the operations do to a list with the nodes `cs`. -/
structure Operations (h : Heap) (llist : Pnode) (cs : List (Pnode × CString)) : Prop where
  search : ∀ fuel ≥ cs.length, ∀ a, ∃ found, search_node fuel h llist a = .ok found ∧
    (found ≠ none ↔ a ∈ cs.map Prod.snd) ∧ ∀ q, found = some q → (q, a) ∈ cs
  delete : ∀ fuel ≥ cs.length, ∀ a, ∃ h', delete_node fuel h llist a = .ok (h', llist) ∧
    Holds h' llist (cs.filter fun c => c.2 ≠ a)
  /-- The node before the deleted one is returned. -/
  deleteThis : ∀ fuel ≥ cs.length, ∀ c ∈ cs, ∃ h' p, delete_this_node fuel h llist c.1 = .ok (h', p) ∧
    Holds h' llist (cs.filter fun d => d.1 ≠ c.1) ∧ [p, c.1] <:+: llist :: cs.map Prod.fst
  again : ∀ fuel ≥ cs.length, ∀ a ∈ cs.map Prod.snd, ∀ malloc, insert_nodulp_node fuel h llist a malloc = .ok (h, 0)
  insert : ∀ fuel ≥ cs.length, ∀ a ∉ cs.map Prod.snd, ∀ q, h.cell q = none → a.val.length < IPADDR_SIZE →
    ∃ h', insert_nodulp_node fuel h llist a (some q) = .ok (h', 1) ∧ Holds h' llist ((q, a) :: cs)

def Laws (llist : Pnode) (s : ListState) : Prop :=
  ∃ h cs, s.heap = .ok h ∧ Holds h llist cs ∧ (cs.map Prod.snd).Nodup ∧
    (∀ a, a ∈ cs.map Prod.snd ↔ a ∈ s.present) ∧ Operations h llist cs

/-! ## Lists without repetition -/

section Distinct
variable {α β : Type} {f : α → β} {l : List α}

theorem eraseP_eq_filter [DecidableEq β] (nodup : (l.map f).Nodup) (x : β) :
    (l.eraseP fun c => f c = x) = l.filter fun c => f c ≠ x := by
  induction l with
  | nil => rfl
  | cons c l ih =>
    obtain ⟨notIn, nodup⟩ := List.nodup_cons.mp nodup
    by_cases here : f c = x
    · rw [List.eraseP_cons_of_pos (by simpa using here), List.filter_cons_of_neg (by simpa using here), eq_comm,
        List.filter_eq_self]
      intro d later
      rw [decide_eq_true_iff]
      rintro rfl
      exact notIn (here ▸ List.mem_map_of_mem later)
    · rw [List.eraseP_cons_of_neg (by simpa using here), List.filter_cons_of_pos (by simpa using here), ih nodup]

theorem mem_map_filter (g : β → Prop) [DecidablePred g] (x : β) :
    x ∈ (l.filter fun c => g (f c)).map f ↔ x ∈ l.map f ∧ g x := by
  simp only [List.mem_map, List.mem_filter, decide_eq_true_eq]
  constructor
  · rintro ⟨c, ⟨member, holds⟩, rfl⟩
    exact ⟨⟨c, member, rfl⟩, holds⟩
  · rintro ⟨⟨c, member, rfl⟩, holds⟩
    exact ⟨c, ⟨member, holds⟩, rfl⟩

/-- What tells the elements apart in two ways keeps the same of them without one. -/
theorem filter_ne_congr {γ : Type} {g : α → γ} [DecidableEq β] [DecidableEq γ] (nodupF : (l.map f).Nodup)
    (nodupG : (l.map g).Nodup) {x : α} (member : x ∈ l) :
    (l.filter fun y => f y ≠ f x) = l.filter fun y => g y ≠ g x := by
  apply List.filter_congr
  intro y other
  have together : f y = f x ↔ g y = g x := by
    constructor
    · exact fun same => congrArg g (List.inj_on_of_nodup_map nodupF other member same)
    · exact fun same => congrArg f (List.inj_on_of_nodup_map nodupG other member same)
  simp only [ne_eq, together]

end Distinct

/-! ## One operation -/

section Laws
variable {h : Heap} {llist : Pnode} {cs : List (Pnode × CString)}

/-- The node that comes before. -/
theorem before_infix (llist : Pnode) {c : Pnode × CString} (member : c ∈ cs) :
    [before (fun d => d.1 = c.1) llist cs, c.1] <:+: llist :: cs.map Prod.fst := by
  induction cs generalizing llist with
  | nil => cases member
  | cons d cs ih =>
    rw [before, List.map_cons]
    by_cases here : d.1 = c.1
    · rw [if_pos (by simpa using here), here]
      exact ⟨[], cs.map Prod.fst, rfl⟩
    · rw [if_neg (by simpa using here)]
      rcases List.mem_cons.mp member with rfl | later
      · exact absurd rfl here
      · exact (ih d.1 later).trans (List.suffix_cons llist _).isInfix

theorem search_of_mem (distinct : (cs.map Prod.snd).Nodup) {c : Pnode × CString} (member : c ∈ cs) :
    (cs.find? fun d => d.2 = c.2) = some c := by
  induction cs with
  | nil => cases member
  | cons d cs ih =>
    obtain ⟨notIn, distinct⟩ := List.nodup_cons.mp distinct
    rcases List.mem_cons.mp member with rfl | later
    · exact List.find?_cons_of_pos (by simp)
    · have other : ¬ d.2 = c.2 := fun same => notIn (same ▸ List.mem_map_of_mem later)
      rw [List.find?_cons_of_neg (by simpa using other)]
      exact ih distinct later

theorem search_of_not_mem {a : CString} (absent : a ∉ cs.map Prod.snd) : (cs.find? fun c => c.2 = a) = none := by
  rw [List.find?_eq_none]
  intro c member same
  rw [decide_eq_true_iff] at same
  exact absent (same ▸ List.mem_map_of_mem member)

theorem insert_of_mem (holds : Holds h llist cs) (distinct : (cs.map Prod.snd).Nodup) {a : CString}
    (present : a ∈ cs.map Prod.snd) {fuel : Nat} (enough : cs.length ≤ fuel) (malloc : Option Pnode) :
    insert_nodulp_node fuel h llist a malloc = .ok (h, 0) := by
  obtain ⟨c, member, rfl⟩ := List.mem_map.mp present
  rw [insert_nodulp_node, search_node_spec c.2 holds enough, search_of_mem distinct member]
  rfl

theorem insert_of_not_mem (holds : Holds h llist cs) {a : CString} (absent : a ∉ cs.map Prod.snd) {fuel : Nat}
    (enough : cs.length ≤ fuel) (malloc : Option Pnode) :
    insert_nodulp_node fuel h llist a malloc = (insert_link h llist a malloc).map fun r => (r.1, 1) := by
  rw [insert_nodulp_node, search_node_spec a holds enough, search_of_not_mem absent]
  cases insert_link h llist a malloc <;> rfl

theorem operations_of_holds (holds : Holds h llist cs) (distinct : (cs.map Prod.snd).Nodup) : Operations h llist cs := by
  constructor
  · intro fuel enough a
    refine ⟨_, search_node_spec a holds enough, ?_⟩
    by_cases present : a ∈ cs.map Prod.snd
    · obtain ⟨c, member, rfl⟩ := List.mem_map.mp present
      rw [search_of_mem distinct member]
      refine ⟨iff_of_true (fun none => nomatch none) present, ?_⟩
      rintro q ⟨⟩
      exact member
    · rw [search_of_not_mem present]
      exact ⟨iff_of_false (fun found => found rfl) present, fun q none => nomatch none⟩
  · intro fuel enough a
    obtain ⟨h', result, rest⟩ := delete_node_spec a holds enough
    exact ⟨h', result, eraseP_eq_filter distinct a ▸ rest⟩
  · intro fuel enough c member
    obtain ⟨h', result, rest⟩ := delete_this_node_spec c.1 holds enough
    refine ⟨h', _, result, ?_, before_infix llist member⟩
    exact eraseP_eq_filter (List.nodup_cons.mp holds.nodup).2 c.1 ▸ rest
  · exact fun fuel enough a present malloc => insert_of_mem holds distinct present enough malloc
  · intro fuel enough a absent q fresh fits
    obtain ⟨h', result, rest⟩ := insert_link_spec holds fresh fits
    refine ⟨h', ?_, rest⟩
    rw [insert_of_not_mem holds absent enough, result]
    rfl

/-- A list with the right addresses, each once, obeys the laws. -/
theorem laws_of_holds {s : ListState} (heap : s.heap = .ok h) (holds : Holds h llist cs)
    (distinct : (cs.map Prod.snd).Nodup) (exact : ∀ a, a ∈ cs.map Prod.snd ↔ a ∈ s.present) : Laws llist s :=
  ⟨h, cs, heap, holds, distinct, exact, operations_of_holds holds distinct⟩

end Laws

/-- What is in the list fits. -/
def AllFit (s : ListState) : Prop := ∀ h, s.heap = .ok h → ∀ a ∈ s.present, a.val.length < IPADDR_SIZE

section Step
variable {llist : Pnode} {s s' : ListState} {op : ListOp}

/-- An insertion that does not fit stores outside of the array. -/
theorem insert_outside {h : Heap} {cs : List (Pnode × CString)} (holds : Holds h llist cs) {a : CString}
    (absent : a ∉ cs.map Prod.snd) (long : ¬ a.val.length < IPADDR_SIZE) {fuel : Nat} (enough : cs.length ≤ fuel)
    (q : Pnode) : insert_nodulp_node fuel h llist a (some q) = .error .outside := by
  rw [insert_of_not_mem holds absent enough, insert_link, if_neg long]
  rfl

/-- **One operation** keeps the laws exactly if what it inserts fits. -/
theorem step_laws_iff (fit : AllFit s) (laws : Laws llist s) (step : ListStep llist s op s') :
    Laws llist s' ↔ op.Fits := by
  obtain ⟨h, cs, heap, holds, distinct, exact, operations⟩ := laws
  obtain ⟨h₀, rounds, same, valid, result, present⟩ := step
  obtain rfl := Except.ok.inj (same.symm.trans heap)
  have final := result (max rounds cs.length) (le_max_left _ _)
  have enough : cs.length ≤ max rounds cs.length := le_max_right _ _
  cases op with
  | insert_nodulp_node a q =>
    by_cases member : a ∈ cs.map Prod.snd
    · rw [ListOp.run, operations.again _ enough a member] at final
      refine iff_of_true (laws_of_holds final.symm holds distinct ?_) (fit _ heap a ((exact a).mp member))
      intro b
      rw [present, ListOp.present, Set.mem_insert_iff, ← exact b]
      exact ⟨.inr, fun either => either.elim (fun same => same ▸ member) id⟩
    · by_cases fits : a.val.length < IPADDR_SIZE
      · obtain ⟨h', inserted, rest⟩ := operations.insert _ enough a member q valid fits
        rw [ListOp.run, inserted] at final
        refine iff_of_true (laws_of_holds final.symm rest (List.nodup_cons.mpr ⟨member, distinct⟩) ?_) fits
        intro b
        rw [present, ListOp.present, Set.mem_insert_iff, ← exact b, List.map_cons, List.mem_cons]
      · rw [ListOp.run, insert_outside holds member fits enough] at final
        refine iff_of_false ?_ fits
        rintro ⟨h', -, heap', -⟩
        cases final.trans heap'
  | delete_node a =>
    obtain ⟨h', deleted, rest⟩ := operations.delete _ enough a
    rw [ListOp.run, deleted] at final
    refine iff_of_true (laws_of_holds final.symm rest ?_ ?_) trivial
    · exact (List.filter_sublist.map Prod.snd).nodup distinct
    · intro b
      rw [present, mem_map_filter (fun b => b ≠ a), exact b]
      rfl
  | delete_this_node this_pnode =>
    obtain ⟨front, leads⟩ := valid
    obtain ⟨c, member, rfl⟩ := List.mem_map.mp (holds.links.mem leads)
    obtain ⟨h', p, deleted, rest, -⟩ := operations.deleteThis _ enough c member
    rw [ListOp.run, deleted] at final
    have together : (cs.filter fun d => d.1 ≠ c.1) = cs.filter fun d => d.2 ≠ c.2 :=
      filter_ne_congr (List.nodup_cons.mp holds.nodup).2 distinct member
    rw [together] at rest
    refine iff_of_true (laws_of_holds final.symm rest ?_ ?_) trivial
    · exact (List.filter_sublist.map Prod.snd).nodup distinct
    · intro b
      rw [present, mem_map_filter (fun b => b ≠ c.2), exact b, ListOp.present, holds.texts c member]
      simp [eq_comm]

theorem step_allFit (fit : AllFit s) (laws : Laws llist s) (step : ListStep llist s op s') : AllFit s' := by
  have kept := step_laws_iff fit laws step
  obtain ⟨h, cs, heap, holds, distinct, exact, operations⟩ := laws
  obtain ⟨h₀, rounds, same, valid, result, present⟩ := step
  obtain rfl := Except.ok.inj (same.symm.trans heap)
  intro h' heap' a member
  rw [present] at member
  cases op with
  | insert_nodulp_node b q =>
    rcases member with rfl | before
    · by_contra long
      have absent : a ∉ cs.map Prod.snd := fun inList => long (fit _ heap a ((exact a).mp inList))
      have final := result (max rounds cs.length) (le_max_left _ _)
      rw [ListOp.run, insert_outside holds absent long (le_max_right _ _), heap'] at final
      cases final
    · exact fit _ heap a before
  | delete_node b => exact fit _ heap a member.1
  | delete_this_node this_pnode => exact fit _ heap a member.1

end Step

/-! ## Sequences of operations -/

/-- A list that was just created, in a heap with other cells in it. -/
def created (h : Heap) (llist : Pnode) (node_info : CString) : ListState :=
  { heap := .ok (create_null_list_link h (some llist) node_info).1, present := ∅ }

/-- **The laws of the client list** hold in every state exactly if every address that is
inserted fits into `ipaddr`. -/
theorem client_list_laws_iff (h : Heap) (llist : Pnode) (node_info : CString) (ops : List ListOp) :
    Always (ListStep llist) (Laws llist) (created h llist node_info) ops ↔
      StepsMeet (ListStep llist) (fun _ op => op.Fits) (created h llist node_info) ops := by
  apply always_iff_stepsMeet (J := AllFit) ?_ ?_ ?_ ?_ ops
  · exact fun s op s' fit laws step => step_allFit fit laws step
  · exact fun s op s' fit laws step => step_laws_iff fit laws step
  · intro h' _ a member
    cases member
  · exact laws_of_holds rfl (create_holds h llist node_info) List.nodup_nil (fun a => by simp [created])

/-- `0177.0000.0000.0001`, with octal numbers, has 19 characters. -/
def longAddress : CString :=
  ⟨[0x30, 0x31, 0x37, 0x37, 0x2e, 0x30, 0x30, 0x30, 0x30, 0x2e, 0x30, 0x30, 0x30, 0x30, 0x2e, 0x30, 0x30, 0x30, 0x31],
    by decide⟩

theorem client_list_overflows : ¬ ∀ (h : Heap) (llist : Pnode) (node_info : CString) (ops : List ListOp),
    Always (ListStep llist) (Laws llist) (created h llist node_info) ops := by
  intro always
  obtain ⟨-, laws⟩ := always { cell := fun _ => none } 0 ⟨[], by decide⟩ [.insert_nodulp_node longAddress 1]
  have broken := laws { heap := .error .outside, present := insert longAddress ∅ } ?_
  · obtain ⟨h, -, heap, -⟩ := broken
    cases heap
  · refine ⟨_, 0, rfl, rfl, fun fuel _ => ?_, rfl⟩
    have outside := insert_outside (create_holds { cell := fun _ => none } 0 ⟨[], by decide⟩) (a := longAddress)
      List.not_mem_nil (by decide) (Nat.zero_le fuel) 1
    rw [ListOp.run, outside]
    rfl

end CodeClips.Rtp
