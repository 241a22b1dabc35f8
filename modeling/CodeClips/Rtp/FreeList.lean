import CodeClips.Rtp.ClientList

/-!
# Freeing the client list

`free_linklist` holds the node after the first one in `q`, frees the first, and moves `q` on
before it looks whether there is another. With one node it moves on from null
(`free_linklist_one`), and with more it leaves the last one in the list
(`free_linklist_more`), so that only an empty list comes out empty (`free_linklist_iff`).
-/

namespace CodeClips.Rtp

/-- The `do` loop: one node is freed, `q` becomes the first, and `q` moves on. -/
def free_loop (llist : Pnode) : Nat → Heap → Option Pnode → Except Stop Heap
  | 0, _, _ => .error .running
  | fuel + 1, h, q => do
    let head ← h.load (some llist)
    let h ← h.free head.next
    let h ← h.modify (some llist) fun head => { head with next := q }
    let node ← h.load q
    if node.next = none then return h
    else free_loop llist fuel h node.next

/-- 0 for an empty list. -/
def free_linklist (fuel : Nat) (h : Heap) (llist : Pnode) : Except Stop (Heap × Int) := do
  let head ← h.load (some llist)
  if head.next = none then return (h, 0)
  else
    let first ← h.load head.next
    let h ← free_loop llist fuel h first.next
    return (h, 1)

/-- A list after insertions, with its nodes, the last inserted first. -/
inductive Built (llist : Pnode) : Heap → List Pnode → Prop where
  | create (h : Heap) (node_info : CString) : Built llist (create_null_list_link h (some llist) node_info).1 []
  | insert {h h' : Heap} {nodes : List Pnode} (built : Built llist h nodes) (ipaddr : CString) {q : Pnode}
      (fresh : h.cell q = none) (inserted : insert_link h llist ipaddr (some q) = .ok (h', llist)) :
      Built llist h' (q :: nodes)

/-- The call returns, with every node freed and the list empty. A node freed twice would have
stopped it. -/
def FreesAll (h : Heap) (llist : Pnode) (nodes : List Pnode) : Prop :=
  ∃ rounds h' ret, (∀ fuel ≥ rounds, free_linklist fuel h llist = .ok (h', ret)) ∧
    (∀ a ∈ nodes, h'.cell a = none) ∧ ∃ head, h'.cell llist = some head ∧ head.next = none

/-! ## The list that was built -/

theorem insert_link_fits {h h' : Heap} {llist q : Pnode} {ipaddr : CString}
    (inserted : insert_link h llist ipaddr (some q) = .ok (h', llist)) : ipaddr.val.length < IPADDR_SIZE := by
  by_contra long
  rw [insert_link, if_neg long] at inserted
  cases inserted

theorem Built.holds {llist : Pnode} {h : Heap} {nodes : List Pnode} (built : Built llist h nodes) :
    ∃ cs, Holds h llist cs ∧ cs.map Prod.fst = nodes := by
  induction built with
  | create h node_info => exact ⟨[], create_holds h llist node_info, rfl⟩
  | @insert h h' nodes built ipaddr q fresh inserted ih =>
    obtain ⟨cs, holds, same⟩ := ih
    obtain ⟨h'', result, rest⟩ := insert_link_spec holds fresh (insert_link_fits inserted)
    rw [inserted] at result
    cases result
    exact ⟨(q, ipaddr) :: cs, rest, congrArg (q :: ·) same⟩

/-! ## The loop -/

section Loop
variable {h : Heap} {llist : Pnode} {cs : List (Pnode × CString)} {c : Pnode × CString} {fuel : Nat}

/-- **One pass** frees the first node and takes it out, as far as `q` can be followed. -/
theorem free_loop_pass (holds : Holds h llist (c :: cs)) (fuel : Nat) :
    ∃ h', Holds h' llist cs ∧ h'.cell c.1 = none ∧
      (∀ a, a ≠ llist → a ≠ c.1 → h'.cell a = h.cell a) ∧
      free_loop llist (fuel + 1) h (h.next Node.next c.1) =
        (h'.load (h.next Node.next c.1) >>= fun node =>
          if node.next = none then pure h' else free_loop llist fuel h' node.next) := by
  obtain ⟨link, here⟩ := holds.first
  obtain ⟨head, cell, load, next⟩ := holds.load_head
  have apart : c.1 ≠ llist := by
    intro same
    exact (List.nodup_cons.mp holds.nodup).1 (same ▸ List.mem_cons_self)
  -- The cells are put the other way round than in a deletion.
  have swap : (h.put c.1 none).put llist (some { head with next := h.next Node.next c.1 }) =
      (h.put llist (some { head with next := h.next Node.next c.1 })).put c.1 none := by
    simp only [CellHeap.put]
    rw [Function.update_comm apart]
  refine ⟨_, holds.unlink head, CellHeap.cell_put_self _ _ _, ?_, ?_⟩
  · intro a other notFirst
    rw [CellHeap.cell_put_of_ne _ notFirst, CellHeap.cell_put_of_ne _ other]
  · have head' : (h.put c.1 none).cell llist = some head := (CellHeap.cell_put_of_ne h apart.symm none).trans cell
    rw [free_loop, load, ok_bind, next, link, CellHeap.free_some here, ok_bind, CellHeap.modify_some head', ok_bind, swap]

/-- With more than one node, the loop ends when the last one is left. -/
theorem free_loop_more (holds : Holds h llist (c :: cs)) (more : cs ≠ []) (enough : cs.length ≤ fuel) :
    ∃ h', free_loop llist fuel h (h.next Node.next c.1) = .ok h' ∧ ∃ last ∈ cs, Holds h' llist [last] := by
  induction fuel generalizing h c cs with
  | zero => exact absurd (List.length_eq_zero_iff.mp (Nat.le_zero.mp enough)) more
  | succ fuel ih =>
    obtain ⟨h', rest, freed, frame, pass⟩ := free_loop_pass holds fuel
    cases cs with
    | nil => exact absurd rfl more
    | cons d cs =>
      have here := rest.first.2
      rw [pass, holds.tail.first.1, CellHeap.load_some here, ok_bind]
      dsimp only
      by_cases last : h'.next Node.next d.1 = none
      · rw [if_pos last]
        obtain rfl := rest.tail.next_eq_none.mp last
        exact ⟨h', rfl, d, List.mem_cons_self, rest⟩
      · rw [if_neg last]
        have others : cs ≠ [] := fun none => last (rest.tail.next_eq_none.mpr none)
        obtain ⟨h'', result, e, member, holds'⟩ := ih rest others (Nat.le_of_succ_le_succ enough)
        exact ⟨h'', result, e, List.mem_cons_of_mem d member, holds'⟩

end Loop

section Calls
variable {h : Heap} {llist : Pnode} {cs : List (Pnode × CString)} {c : Pnode × CString}

theorem free_linklist_nil (holds : Holds h llist []) (fuel : Nat) : free_linklist fuel h llist = .ok (h, 0) := by
  obtain ⟨head, -, load, next⟩ := holds.load_head
  rw [free_linklist, load, ok_bind, if_pos (next.trans (holds.next_eq_none.mpr rfl))]
  rfl

theorem free_linklist_cons (holds : Holds h llist (c :: cs)) (fuel : Nat) :
    free_linklist fuel h llist = (free_loop llist fuel h (h.next Node.next c.1)).map fun h' => (h', 1) := by
  obtain ⟨link, here⟩ := holds.first
  obtain ⟨head, -, load, next⟩ := holds.load_head
  have some : ¬ head.next = none := by
    rw [next, link]
    exact Option.some_ne_none c.1
  rw [free_linklist, load, ok_bind, if_neg some, next, link, CellHeap.load_some here, ok_bind]
  cases free_loop llist fuel h (h.next Node.next c.1) <;> rfl

/-- With one node, `q` is null when it moves on. -/
theorem free_linklist_one (holds : Holds h llist [c]) (fuel : Nat) :
    free_linklist (fuel + 1) h llist = .error .null := by
  obtain ⟨h', -, -, -, pass⟩ := free_loop_pass holds fuel
  rw [free_linklist_cons holds, pass, holds.tail.next_eq_none.mpr rfl]
  rfl

/-- With more, a node is left. -/
theorem free_linklist_more (holds : Holds h llist (c :: cs)) (more : cs ≠ []) {fuel : Nat} (enough : cs.length ≤ fuel) :
    ∃ h', free_linklist fuel h llist = .ok (h', 1) ∧ ∃ last ∈ cs, Holds h' llist [last] := by
  obtain ⟨h', loop, left⟩ := free_loop_more holds more enough
  refine ⟨h', ?_, left⟩
  rw [free_linklist_cons holds, loop]
  rfl

end Calls

/-- **`free_linklist`** frees the whole list exactly if nothing was inserted. -/
theorem free_linklist_iff (h : Heap) (llist : Pnode) (nodes : List Pnode) (built : Built llist h nodes) :
    FreesAll h llist nodes ↔ nodes.length = 0 := by
  obtain ⟨cs, holds, rfl⟩ := built.holds
  rw [List.length_map, List.length_eq_zero_iff]
  constructor
  · rintro ⟨rounds, h', ret, returns, -, head, cell, empty⟩
    have final := returns (rounds + cs.length + 1) (by omega)
    cases cs with
    | nil => rfl
    | cons c cs =>
      by_cases more : cs = []
      · subst more
        rw [free_linklist_one holds] at final
        cases final
      · have enough : cs.length ≤ rounds + (c :: cs).length + 1 := by
          rw [List.length_cons]
          omega
        obtain ⟨h'', result, last, -, left⟩ := free_linklist_more holds more enough
        rw [result] at final
        cases final
        have next := CellHeap.next_of_cell Node.next cell
        rw [empty, left.first.1] at next
        cases next
  · rintro rfl
    obtain ⟨head, cell, -, next⟩ := holds.load_head
    refine ⟨0, h, 0, fun fuel _ => free_linklist_nil holds fuel, List.forall_mem_nil _, head, cell, ?_⟩
    exact next.trans (holds.next_eq_none.mpr rfl)

/-- One insertion into a heap with nothing else in it. -/
theorem built_one : ∃ h, Built 0 h [1] := by
  have created : Built 0 _ [] := Built.create { cell := fun _ => none } ⟨[], List.not_mem_nil⟩
  obtain ⟨cs, holds, none⟩ := created.holds
  obtain ⟨h, inserted, -⟩ := @insert_link_spec _ 0 cs ⟨[0x61], by decide⟩ 1 holds rfl (by decide)
  exact ⟨h, created.insert _ rfl inserted⟩

theorem free_linklist_iff_one : ∃ h, Built 0 h [1] ∧ (FreesAll h 0 [1] ↔ [1].length = 0) := by
  obtain ⟨h, built⟩ := built_one
  exact ⟨h, built, free_linklist_iff h 0 [1] built⟩

/-- With one client the call follows null. -/
theorem free_linklist_follows_null :
    ¬ ∀ (h : Heap) (llist : Pnode) (nodes : List Pnode), Built llist h nodes → FreesAll h llist nodes := by
  intro always
  obtain ⟨h, built⟩ := built_one
  obtain ⟨cs, holds, one⟩ := built.holds
  obtain ⟨c, rfl, -⟩ := List.map_eq_singleton_iff.mp one
  obtain ⟨rounds, h', ret, returns, -⟩ := always h 0 [1] built
  have final := returns (rounds + 1) (Nat.le_succ rounds)
  rw [free_linklist_one holds] at final
  cases final

end CodeClips.Rtp
