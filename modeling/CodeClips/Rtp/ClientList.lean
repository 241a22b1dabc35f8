import CodeClips.Lib.CellHeap
import CodeClips.Lib.LinkedList
import CodeClips.Rtp.Header

/-!
# The client list of `llist.c`

A list is a dummy node and the nodes behind it. `malloc` is a parameter: it returns a cell that
is not in use, or null. `strcpy` into `ipaddr` stops the program where the text and its NUL are
longer than the array. `socket_c` and `send_fail_n` are left out: nothing here looks at them.

`Holds` says which nodes a list has. The two deletions are one loop with different tests
(`unlink_loop`), and `unlink_loop_spec` is all that is used of it.
-/

namespace CodeClips.Rtp

abbrev Pnode := Nat

/-- The characters of a C string before its NUL. -/
abbrev CString := { s : List Byte // 0 ∉ s }

/-- A client with its address. -/
structure Node where
  ipaddr : CString
  next : Option Pnode
deriving DecidableEq

abbrev Heap := CellHeap Pnode Node

/-- `char ipaddr[16]`. -/
def IPADDR_SIZE : Nat := 16

/-- `node_info` is what is in the new cell. -/
def create_null_list_link (h : Heap) (malloc : Option Pnode) (node_info : CString) : Heap × Option Pnode :=
  match malloc with
  | some llist => (h.put llist (some { ipaddr := node_info, next := none }), some llist)
  | none => (h, none)

/-- No client follows the head. -/
def is_nulllist_link (h : Heap) (llist : Pnode) : Except Stop Bool := do
  let head ← h.load (some llist)
  return head.next = none

/-- The new client is put right behind the head, where `malloc` gives a node for it. -/
def insert_link (h : Heap) (llist : Pnode) (ipaddr : CString) (malloc : Option Pnode) :
    Except Stop (Heap × Pnode) :=
  match malloc with
  | none => .ok (h, llist)
  | some q =>
    if ipaddr.val.length < IPADDR_SIZE then do
      let head ← h.load (some llist)
      let h ← (h.put q (some { ipaddr := ipaddr, next := head.next })).modify (some llist) fun head =>
        { head with next := some q }
      return (h, llist)
    else .error .outside

/-- The loop of the deletions: the first node behind `p` that is `hit` is taken out and freed.
With the heap comes the last value of `p`. -/
def unlink_loop (h : Heap) (hit : Pnode × CString → Bool) : Nat → Pnode → Option Pnode → Except Stop (Heap × Pnode)
  | 0, _, _ => .error .running
  | _ + 1, _, none => .error .null
  | fuel + 1, p, some q => do
    let node ← h.load (some q)
    if hit (q, node.ipaddr) then
      let h ← h.modify (some p) fun before => { before with next := node.next }
      let h ← h.free (some q)
      return (h, p)
    else if node.next = none then return (h, q)
    else unlink_loop h hit fuel q node.next

/-- The first client with that address is taken out and freed. -/
def delete_node (fuel : Nat) (h : Heap) (llist : Pnode) (ipaddr : CString) : Except Stop (Heap × Pnode) := do
  let head ← h.load (some llist)
  if head.next = none then return (h, llist)
  else
    let (h, _) ← unlink_loop h (fun c => c.2 = ipaddr) fuel llist head.next
    return (h, llist)

/-- The node itself is taken out and freed; what is returned is the node before it. -/
def delete_this_node (fuel : Nat) (h : Heap) (llist this_pnode : Pnode) : Except Stop (Heap × Pnode) := do
  let head ← h.load (some llist)
  if head.next = none then return (h, llist)
  else unlink_loop h (fun c => c.1 = this_pnode) fuel llist head.next

def search_loop (h : Heap) (ipaddr : CString) : Nat → Option Pnode → Except Stop (Option Pnode)
  | 0, _ => .error .running
  | fuel + 1, q => do
    let node ← h.load q
    if node.ipaddr = ipaddr then return q
    else if node.next = none then return none
    else search_loop h ipaddr fuel node.next

/-- The search begins behind the head, and finds nothing in an empty list. -/
def search_node (fuel : Nat) (h : Heap) (llist : Pnode) (ipaddr : CString) : Except Stop (Option Pnode) := do
  let head ← h.load (some llist)
  let empty ← is_nulllist_link h llist
  if empty then return none
  else search_loop h ipaddr fuel head.next

/-- 1 if the address was not in the list. -/
def insert_nodulp_node (fuel : Nat) (h : Heap) (llist : Pnode) (ipaddr : CString) (malloc : Option Pnode) :
    Except Stop (Heap × Int) := do
  let found ← search_node fuel h llist ipaddr
  if found = none then
    let (h, _) ← insert_link h llist ipaddr malloc
    return (h, 1)
  else return (h, 0)

/-! ## The nodes of a list -/

/-- The list at `p` has the nodes `cs`, with their addresses. Its first cell is no client's. -/
structure Holds (h : Heap) (p : Pnode) (cs : List (Pnode × CString)) : Prop where
  head : (h.cell p).isSome
  texts : ∀ c ∈ cs, (h.cell c.1).map Node.ipaddr = some c.2
  links : Segment (h.next Node.next) (h.next Node.next p) (cs.map Prod.fst) none
  nodup : (p :: cs.map Prod.fst).Nodup

section Lists
variable {h h' : Heap} {p q : Pnode} {c : Pnode × CString} {cs : List (Pnode × CString)}

/-- The head leads to the first client. -/
theorem Holds.first (holds : Holds h p (c :: cs)) :
    h.next Node.next p = some c.1 ∧ h.cell c.1 = some { ipaddr := c.2, next := h.next Node.next c.1 } := by
  obtain ⟨node, here, text⟩ := Option.map_eq_some_iff.mp (holds.texts c List.mem_cons_self)
  refine ⟨holds.links.1, ?_⟩
  rw [CellHeap.next_of_cell Node.next here, here, ← text]

/-- The clients behind the first, with it as their head. -/
theorem Holds.tail (holds : Holds h p (c :: cs)) : Holds h c.1 cs := by
  refine ⟨?_, fun d later => holds.texts d (List.mem_cons_of_mem c later), holds.links.2, ?_⟩
  · rw [holds.first.2]
    rfl
  · exact (List.nodup_cons.mp holds.nodup).2

/-- Where the list ends. -/
theorem Holds.next_eq_none (holds : Holds h p cs) : h.next Node.next p = none ↔ cs = [] := by
  cases cs with
  | nil => exact iff_of_true holds.links rfl
  | cons c cs =>
    rw [holds.first.1]
    exact iff_of_false (fun none => nomatch none) (List.cons_ne_nil c cs)

/-- A head that leads to a list with its own head. -/
theorem Holds.cons (head : (h.cell p).isSome) (link : h.next Node.next p = some c.1)
    (text : (h.cell c.1).map Node.ipaddr = some c.2) (rest : Holds h c.1 cs)
    (apart : p ∉ (c :: cs).map Prod.fst) : Holds h p (c :: cs) :=
  ⟨head, List.forall_mem_cons.mpr ⟨text, rest.texts⟩, ⟨link, rest.links⟩, List.nodup_cons.mpr ⟨apart, rest.nodup⟩⟩

/-- Only the cells of a list count for it. -/
theorem Holds.frame (holds : Holds h p cs) (same : ∀ a ∈ p :: cs.map Prod.fst, h'.cell a = h.cell a) :
    Holds h' p cs := by
  have links (a : Pnode) (member : a ∈ p :: cs.map Prod.fst) : h'.next Node.next a = h.next Node.next a :=
    CellHeap.next_congr Node.next (same a member)
  refine ⟨?_, ?_, ?_, holds.nodup⟩
  · rw [same p List.mem_cons_self]
    exact holds.head
  · intro c member
    rw [same c.1 (List.mem_cons_of_mem p (List.mem_map_of_mem member))]
    exact holds.texts c member
  · rw [links p List.mem_cons_self]
    exact holds.links.congr fun a member => links a (List.mem_cons_of_mem p member)

/-- None of the nodes has been freed. -/
theorem Holds.allocated (holds : Holds h p cs) {a : Pnode} (member : a ∈ p :: cs.map Prod.fst) : (h.cell a).isSome := by
  rw [List.mem_cons] at member
  rcases member with rfl | later
  · exact holds.head
  · obtain ⟨c, inList, rfl⟩ := List.mem_map.mp later
    obtain ⟨node, cell, -⟩ := Option.map_eq_some_iff.mp (holds.texts c inList)
    rw [cell]
    rfl

theorem Holds.load_head (holds : Holds h p cs) :
    ∃ head, h.cell p = some head ∧ h.load (some p) = .ok head ∧ head.next = h.next Node.next p := by
  obtain ⟨head, here⟩ := Option.isSome_iff_exists.mp holds.head
  exact ⟨head, here, CellHeap.load_some here, (CellHeap.next_of_cell Node.next here).symm⟩

end Lists

/-! ## One operation -/

/-- The node before the first one that is `hit`, or the last. -/
def before (hit : Pnode × CString → Bool) (p : Pnode) : List (Pnode × CString) → Pnode
  | [] => p
  | c :: cs => if hit c then p else before hit c.1 cs

section Operations
variable {h : Heap} {p llist : Pnode} {cs : List (Pnode × CString)} {fuel : Nat}

/-- The first node of the list is taken out. -/
theorem Holds.unlink {c : Pnode × CString} (holds : Holds h p (c :: cs)) (node : Node) :
    Holds ((h.put p (some { node with next := h.next Node.next c.1 })).put c.1 none) p cs := by
  obtain ⟨notIn, nodup⟩ := List.nodup_cons.mp holds.nodup
  obtain ⟨notLater, distinct⟩ := List.nodup_cons.mp nodup
  have apart : p ≠ c.1 := fun same => notIn (same ▸ List.mem_cons_self)
  have notRest : p ∉ cs.map Prod.fst := fun later => notIn (List.mem_cons_of_mem _ later)
  have kept (a : Pnode) (member : a ∈ cs.map Prod.fst) :
      ((h.put p (some { node with next := h.next Node.next c.1 })).put c.1 none).cell a = h.cell a := by
    have notFirst : a ≠ c.1 := fun same => notLater (by rwa [← same])
    have notHead : a ≠ p := fun same => notRest (by rwa [← same])
    rw [CellHeap.cell_put_of_ne _ notFirst, CellHeap.cell_put_of_ne _ notHead]
  refine ⟨?_, ?_, ?_, List.nodup_cons.mpr ⟨notRest, distinct⟩⟩
  · rw [CellHeap.cell_put_of_ne _ apart, CellHeap.cell_put_self]
    rfl
  · intro d later
    rw [kept d.1 (List.mem_map_of_mem later)]
    exact holds.texts d (List.mem_cons_of_mem c later)
  · rw [CellHeap.next_put_of_ne _ _ apart, CellHeap.next_put_self]
    exact holds.links.2.congr fun a member => CellHeap.next_congr Node.next (kept a member)

/-- **The loop of the deletions** takes out the first node that is hit and leaves the others. -/
theorem unlink_loop_spec (hit : Pnode × CString → Bool) (holds : Holds h p cs) (some : cs ≠ []) (enough : cs.length ≤ fuel) :
    ∃ h', unlink_loop h hit fuel p (h.next Node.next p) = .ok (h', before hit p cs) ∧
      Holds h' p (cs.eraseP hit) ∧ (h'.cell p).map Node.ipaddr = (h.cell p).map Node.ipaddr ∧
      ∀ a, a ∉ p :: cs.map Prod.fst → h'.cell a = h.cell a := by
  induction cs generalizing p fuel with
  | nil => exact absurd rfl some
  | cons c cs ih =>
    obtain ⟨link, here⟩ := holds.first
    obtain ⟨node, head, -, -⟩ := holds.load_head
    have notIn := (List.nodup_cons.mp holds.nodup).1
    have apart : c.1 ≠ p := fun same => notIn (same ▸ List.mem_cons_self)
    cases fuel with
    | zero => exact absurd enough (Nat.not_succ_le_zero _)
    | succ fuel =>
      rw [link, unlink_loop, CellHeap.load_some here, ok_bind, before]
      dsimp only
      by_cases first : hit c = true
      · have cell : (h.put p (Option.some { node with next := h.next Node.next c.1 })).cell c.1 = h.cell c.1 :=
          CellHeap.cell_put_of_ne _ apart _
        rw [if_pos first, if_pos first, CellHeap.modify_some head, ok_bind, CellHeap.free_some (cell.trans here), ok_bind,
          List.eraseP_cons_of_pos first]
        refine ⟨_, rfl, holds.unlink node, ?_, ?_⟩
        · rw [CellHeap.cell_put_of_ne _ apart.symm, CellHeap.cell_put_self, head]
          rfl
        · intro a outside
          rw [List.map_cons, List.mem_cons, List.mem_cons, not_or, not_or] at outside
          rw [CellHeap.cell_put_of_ne _ outside.2.1, CellHeap.cell_put_of_ne _ outside.1]
      · rw [if_neg first, if_neg first, List.eraseP_cons_of_neg first]
        by_cases last : h.next Node.next c.1 = none
        · rw [if_pos last]
          obtain rfl := holds.tail.next_eq_none.mp last
          exact ⟨h, rfl, holds, rfl, fun _ _ => rfl⟩
        · rw [if_neg last]
          have more : cs ≠ [] := fun none => last (holds.tail.next_eq_none.mpr none)
          obtain ⟨h', result, rest, text, frame⟩ := ih holds.tail more (Nat.le_of_succ_le_succ enough)
          have same : h'.cell p = h.cell p := frame p notIn
          refine ⟨h', result, ?_, ?_, ?_⟩
          · refine .cons (same ▸ holds.head) ?_ ?_ rest ?_
            · rw [CellHeap.next_congr Node.next same, link]
            · rw [text, here]
              rfl
            · intro member
              apply notIn
              rw [List.map_cons, List.mem_cons] at member ⊢
              exact member.imp id fun later => (List.eraseP_sublist.map Prod.fst).subset later
          · rw [same]
          · intro a outside
            exact frame a fun inside => outside (List.mem_cons_of_mem p inside)

/-- The list without the first client of that address. -/
theorem delete_node_spec (ipaddr : CString) (holds : Holds h llist cs) (enough : cs.length ≤ fuel) :
    ∃ h', delete_node fuel h llist ipaddr = .ok (h', llist) ∧ Holds h' llist (cs.eraseP fun c => c.2 = ipaddr) := by
  obtain ⟨head, -, load, next⟩ := holds.load_head
  rw [delete_node, load, ok_bind, next]
  by_cases empty : cs = []
  · rw [if_pos (holds.next_eq_none.mpr empty)]
    subst empty
    exact ⟨h, rfl, holds⟩
  · obtain ⟨h', result, rest, -, -⟩ := unlink_loop_spec (fun c => c.2 = ipaddr) holds empty enough
    rw [if_neg (fun none => empty (holds.next_eq_none.mp none)), result]
    exact ⟨h', rfl, rest⟩

/-- The list without the node, and the node before it. -/
theorem delete_this_node_spec (this_pnode : Pnode) (holds : Holds h llist cs) (enough : cs.length ≤ fuel) :
    ∃ h', delete_this_node fuel h llist this_pnode = .ok (h', before (fun c => c.1 = this_pnode) llist cs) ∧
      Holds h' llist (cs.eraseP fun c => c.1 = this_pnode) := by
  obtain ⟨head, -, load, next⟩ := holds.load_head
  rw [delete_this_node, load, ok_bind, next]
  by_cases empty : cs = []
  · rw [if_pos (holds.next_eq_none.mpr empty)]
    subst empty
    exact ⟨h, rfl, holds⟩
  · obtain ⟨h', result, rest, -, -⟩ := unlink_loop_spec (fun c => c.1 = this_pnode) holds empty enough
    rw [if_neg (fun none => empty (holds.next_eq_none.mp none)), result]
    exact ⟨h', rfl, rest⟩

/-- The search finds the first client of that address. -/
theorem search_loop_spec (ipaddr : CString) (holds : Holds h p cs) (some : cs ≠ []) (enough : cs.length ≤ fuel) :
    search_loop h ipaddr fuel (h.next Node.next p) = .ok ((cs.find? fun c => c.2 = ipaddr).map Prod.fst) := by
  induction cs generalizing p fuel with
  | nil => exact absurd rfl some
  | cons c cs ih =>
    obtain ⟨link, here⟩ := holds.first
    cases fuel with
    | zero => exact absurd enough (Nat.not_succ_le_zero _)
    | succ fuel =>
      rw [link, search_loop, CellHeap.load_some here, ok_bind]
      dsimp only
      by_cases found : c.2 = ipaddr
      · rw [if_pos found, List.find?_cons_of_pos (by simpa using found)]
        rfl
      · rw [if_neg found, List.find?_cons_of_neg (by simpa using found)]
        by_cases last : h.next Node.next c.1 = none
        · rw [if_pos last, holds.tail.next_eq_none.mp last]
          rfl
        · rw [if_neg last]
          exact ih holds.tail (fun none => last (holds.tail.next_eq_none.mpr none)) (Nat.le_of_succ_le_succ enough)

theorem search_node_spec (ipaddr : CString) (holds : Holds h llist cs) (enough : cs.length ≤ fuel) :
    search_node fuel h llist ipaddr = .ok ((cs.find? fun c => c.2 = ipaddr).map Prod.fst) := by
  obtain ⟨head, -, load, next⟩ := holds.load_head
  rw [search_node, is_nulllist_link, load, ok_bind, ok_bind, next]
  by_cases empty : cs = []
  · subst empty
    rw [holds.next_eq_none.mpr rfl]
    rfl
  · have more : ¬ h.next Node.next llist = none := fun none => empty (holds.next_eq_none.mp none)
    simp only [more, decide_false, pure_bind, Bool.false_eq_true, if_false]
    exact search_loop_spec ipaddr holds empty enough

/-- A new list has a head and no clients. -/
theorem create_holds (h : Heap) (llist : Pnode) (node_info : CString) :
    Holds (create_null_list_link h (some llist) node_info).1 llist [] := by
  refine ⟨?_, List.forall_mem_nil _, ?_, List.nodup_singleton llist⟩
  · simp [create_null_list_link]
  · exact CellHeap.next_put_self Node.next h llist _

/-- The new node is the first. -/
theorem insert_link_spec {ipaddr : CString} {q : Pnode} (holds : Holds h llist cs) (fresh : h.cell q = none)
    (fits : ipaddr.val.length < IPADDR_SIZE) :
    ∃ h', insert_link h llist ipaddr (some q) = .ok (h', llist) ∧ Holds h' llist ((q, ipaddr) :: cs) := by
  obtain ⟨head, here, load, next⟩ := holds.load_head
  have unused (a : Pnode) (some : (h.cell a).isSome) : a ≠ q := by
    rintro rfl
    rw [fresh] at some
    cases some
  have notHead := (unused llist holds.head).symm
  have notIn := (List.nodup_cons.mp holds.nodup).1
  have head' : (h.put q (some { ipaddr := ipaddr, next := head.next })).cell llist = some head :=
    (CellHeap.cell_put_of_ne h notHead.symm _).trans here
  rw [insert_link, if_pos fits, load, ok_bind, CellHeap.modify_some head', ok_bind]
  refine ⟨_, rfl, ?_⟩
  have newCell : ((h.put q (some { ipaddr := ipaddr, next := head.next })).put llist (some { head with next := some q })).cell q =
      some { ipaddr := ipaddr, next := head.next } :=
    (CellHeap.cell_put_of_ne _ notHead _).trans (CellHeap.cell_put_self h q _)
  have others (a : Pnode) (member : a ∈ cs.map Prod.fst) :
      ((h.put q (some { ipaddr := ipaddr, next := head.next })).put llist (some { head with next := some q })).cell a =
        h.cell a := by
    have apart : a ≠ llist := fun same => notIn (by rwa [← same])
    rw [CellHeap.cell_put_of_ne _ apart,
      CellHeap.cell_put_of_ne _ (unused a (holds.allocated (List.mem_cons_of_mem llist member)))]
  have free : q ∉ cs.map Prod.fst := fun member => unused q (holds.allocated (List.mem_cons_of_mem llist member)) rfl
  refine ⟨?_, ?_, ⟨?_, ?_⟩, ?_⟩
  · rw [CellHeap.cell_put_self]
    rfl
  · rw [List.forall_mem_cons]
    refine ⟨by rw [newCell]; rfl, ?_⟩
    intro c member
    rw [others c.1 (List.mem_map_of_mem member)]
    exact holds.texts c member
  · exact CellHeap.next_put_self Node.next _ llist _
  · rw [CellHeap.next_of_cell Node.next newCell]
    dsimp only
    rw [next] at others ⊢
    exact holds.links.congr fun a member => CellHeap.next_congr Node.next (others a member)
  · rw [List.map_cons, List.nodup_cons, List.nodup_cons, List.mem_cons, not_or]
    exact ⟨⟨notHead.symm, notIn⟩, free, (List.nodup_cons.mp holds.nodup).2⟩

end Operations

end CodeClips.Rtp
