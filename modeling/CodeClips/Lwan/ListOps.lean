import CodeClips.Lwan.ListCheck

/-!
# What the operations do to a circle

Every operation returns where its contract is kept, changes the circle as the list of its nodes
says, and leaves the memory outside of the nodes it is about as it was. This holds in both
builds: with `_LIST_DEBUG` the checks find nothing.
-/

namespace CodeClips.LwanList
variable {A : Type} [DecidableEq A]

/-- The memory after `a->next = q`, if there is a node at `a`. -/
def withNext (m : Memory A) (a : A) (q : Option A) : Memory A :=
  m.put a ((m.cell a).map fun node => { node with next := q })

/-- And after `a->prev = q`. -/
def withPrev (m : Memory A) (a : A) (q : Option A) : Memory A :=
  m.put a ((m.cell a).map fun node => { node with prev := q })

/-- The memory is as it was outside of `foot`, and has the same nodes. -/
structure Changed (foot : List A) (m m' : Memory A) : Prop where
  outside : ∀ a, a ∉ foot → m'.cell a = m.cell a
  room : ∀ a, Room m' a ↔ Room m a

variable {m m' : Memory A} {a b h n : A} {q : Option A} {l front back foot : List A}

section Writes

/-- A link of a node that is allocated can be set. -/
theorem setNext_room (room : Room m a) (q : Option A) : setNext m (some a) q = .ok (withNext m a q) := by
  obtain ⟨c, here⟩ := exists_cell room
  rw [setNext, CellHeap.modify_some here, withNext, here]
  rfl

theorem setPrev_room (room : Room m a) (q : Option A) : setPrev m (some a) q = .ok (withPrev m a q) := by
  obtain ⟨c, here⟩ := exists_cell room
  rw [setPrev, CellHeap.modify_some here, withPrev, here]
  rfl

/-- No node is allocated or freed when one is changed. -/
theorem room_put (f : ListNode A → ListNode A) : Room (m.put a ((m.cell a).map f)) b ↔ Room m b := by
  by_cases same : b = a
  · subst same
    rw [Room, CellHeap.cell_put_self, Option.isSome_map]
    rfl
  · rw [Room, CellHeap.cell_put_of_ne m same]
    rfl

@[simp] theorem room_withNext : Room (withNext m a q) b ↔ Room m b := room_put _

@[simp] theorem room_withPrev : Room (withPrev m a q) b ↔ Room m b := room_put _

/-- Only the one link has another target. -/
theorem links_withNext (room : Room m a) :
    links (withNext m a q) = { links m with next := Function.update (links m).next a q } := by
  obtain ⟨c, here⟩ := exists_cell room
  have prev : m.next ListNode.prev a = c.prev := CellHeap.next_of_cell ListNode.prev here
  simp only [links, withNext, here, Option.map_some, CellHeap.next_put]
  rw [← prev, Function.update_eq_self]

theorem links_withPrev (room : Room m a) :
    links (withPrev m a q) = { links m with prev := Function.update (links m).prev a q } := by
  obtain ⟨c, here⟩ := exists_cell room
  have next : m.next ListNode.next a = c.next := CellHeap.next_of_cell ListNode.next here
  simp only [links, withPrev, here, Option.map_some, CellHeap.next_put]
  rw [← next, Function.update_eq_self]

omit [DecidableEq A] in
/-- Nothing has been done. -/
theorem Changed.refl (foot : List A) (m : Memory A) : Changed foot m m :=
  ⟨fun _ _ => rfl, fun _ => Iff.rfl⟩

omit [DecidableEq A] in
/-- The footprint may be taken larger. -/
theorem Changed.mono (changed : Changed foot m m') {foot' : List A} (more : foot ⊆ foot') : Changed foot' m m' :=
  ⟨fun a outside => changed.outside a fun inside => outside (more inside), changed.room⟩

omit [DecidableEq A] in
theorem Changed.trans (first : Changed foot m m') {m'' : Memory A} (second : Changed foot m' m'') : Changed foot m m'' :=
  ⟨fun a outside => (second.outside a outside).trans (first.outside a outside),
    fun a => (second.room a).trans (first.room a)⟩

/-- A link of a node in the footprint is set. -/
theorem Changed.withNext (changed : Changed foot m m') (inside : a ∈ foot) (q : Option A) :
    Changed foot m (withNext m' a q) where
  outside b outside := by
    rw [LwanList.withNext, CellHeap.cell_put_of_ne]
    · exact changed.outside b outside
    · rintro rfl
      exact outside inside
  room b := room_withNext.trans (changed.room b)

theorem Changed.withPrev (changed : Changed foot m m') (inside : a ∈ foot) (q : Option A) :
    Changed foot m (withPrev m' a q) where
  outside b outside := by
    rw [LwanList.withPrev, CellHeap.cell_put_of_ne]
    · exact changed.outside b outside
    · rintro rfl
      exact outside inside
  room b := room_withPrev.trans (changed.room b)

omit [DecidableEq A] in
/-- The links of a ring that is not in the footprint. -/
theorem Changed.ring (changed : Changed foot m m') (ring : (links m).Ring h l) (apart : ∀ a ∈ h :: l, a ∉ foot) :
    (links m').Ring h l := by
  apply ring.congr <;> intro a inside <;> exact CellHeap.next_congr _ (changed.outside a (apart a inside))

end Writes

variable (debug : Bool)

/-- The check passes on a ring. -/
theorem listDebug_ring {fuel : Nat} (ring : (links m).Ring h l) (enough : l.length < fuel) (func : String) :
    listDebug debug fuel m h func = .ok (some h) := by
  cases debug with
  | false => rfl
  | true =>
    rw [listDebug, if_pos rfl, listCheck, listCheckNode_ring ring enough]
    rfl

/-- And from the head as the node. -/
theorem listDebugNode_ring {fuel : Nat} (ring : (links m).Ring h l) (enough : l.length < fuel) (func : String) :
    listDebugNode debug fuel m h func = .ok (some h) := by
  cases debug with
  | false => rfl
  | true => rw [listDebugNode, if_pos rfl, listCheckNode_ring ring enough]

omit [DecidableEq A] in
/-- The nodes of a ring are allocated. -/
theorem rooms_of_ring (ring : (links m).Ring h l) : ∀ a ∈ h :: l, Room m a :=
  rooms_of_track (List.IsChain.left_of_append ring.track) (room_of_next ring.next_eq)

/-- A new node comes to the front of the list. -/
theorem listAdd_ring (ring : (links m).Ring h l) (fresh : n ∉ h :: l) (room : Room m n) :
    ∃ m', (links m').Ring h (n :: l) ∧ Changed (n :: h :: l) m m' ∧
      ∀ fuel, l.length + 1 < fuel → listAdd debug fuel m h n = .ok m' := by
  have rooms := rooms_of_ring ring
  have first : l.headD h ∈ h :: l := Links.headD_mem l h
  have headRoom : Room m h := rooms h List.mem_cons_self
  have firstRoom : Room m (l.headD h) := rooms _ first
  have apart : h ≠ n := fun same => fresh (same ▸ List.mem_cons_self)
  have apart' : l.headD h ≠ n := fun same => fresh (same ▸ first)
  let m' := withNext (withPrev (withPrev (withNext m n (some (l.headD h))) n (some h)) (l.headD h) (some n)) h (some n)
  have tied : links m' = ((links m).tie n (l.headD h)).tie h n := by
    simp only [m', links_withNext, links_withPrev, room_withNext, room_withPrev, headRoom, firstRoom, room, Links.tie]
    rw [Function.update_comm apart']
  have circle : (links m').Ring h (n :: l) := by
    rw [tied]
    exact ring.insert fresh
  refine ⟨m', circle, ?_, fun fuel enough => ?_⟩
  · have inside : ∀ a ∈ h :: l, a ∈ n :: h :: l := fun a here => List.mem_cons_of_mem n here
    exact ((((Changed.refl _ m).withNext List.mem_cons_self _).withPrev List.mem_cons_self _).withPrev
      (inside _ first) _).withNext (inside h List.mem_cons_self) _
  · simp only [listAdd, nextOf_room, setNext_room, setPrev_room, room_withNext, room_withPrev, headRoom, firstRoom, room,
      links_withNext, links_withPrev, Function.update_of_ne apart, ring.next_eq, returned_bind]
    rw [listDebug_ring debug circle enough, returned_bind]

/-- It comes to the end. -/
theorem listAddTail_ring (ring : (links m).Ring h l) (fresh : n ∉ h :: l) (room : Room m n) :
    ∃ m', (links m').Ring h (l ++ [n]) ∧ Changed (n :: h :: l) m m' ∧
      ∀ fuel, l.length + 1 < fuel → listAddTail debug fuel m h n = .ok m' := by
  have rooms := rooms_of_ring ring
  have last : l.getLastD h ∈ h :: l := Links.getLastD_mem l h
  have headRoom : Room m h := rooms h List.mem_cons_self
  have lastRoom : Room m (l.getLastD h) := rooms _ last
  have apart : h ≠ n := fun same => fresh (same ▸ List.mem_cons_self)
  have apart' : l.getLastD h ≠ n := fun same => fresh (same ▸ last)
  let m' := withPrev (withNext (withPrev (withNext m n (some h)) n (some (l.getLastD h))) (l.getLastD h) (some n)) h (some n)
  have tied : links m' = ((links m).tie (l.getLastD h) n).tie n h := by
    simp only [m', links_withNext, links_withPrev, room_withNext, room_withPrev, headRoom, lastRoom, room, Links.tie]
    rw [Function.update_comm apart']
  have circle : (links m').Ring h (l ++ [n]) := by
    rw [tied]
    exact ring.insertLast fresh
  refine ⟨m', circle, ?_, fun fuel enough => ?_⟩
  · have inside : ∀ a ∈ h :: l, a ∈ n :: h :: l := fun a here => List.mem_cons_of_mem n here
    exact ((((Changed.refl _ m).withNext List.mem_cons_self _).withPrev List.mem_cons_self _).withNext
      (inside _ last) _).withPrev (inside h List.mem_cons_self) _
  · simp only [listAddTail, prevOf_room, setNext_room, setPrev_room, room_withNext, room_withPrev, headRoom, lastRoom, room,
      links_withNext, links_withPrev, Function.update_of_ne apart, ring.prev_eq, returned_bind]
    rw [listDebug_ring debug circle (by simpa using enough), returned_bind]

/-- The list of an initialised head is empty, whatever its links were before. -/
theorem listHeadInit_ring (room : Room m h) :
    ∃ m', (links m').Ring h [] ∧ Changed [h] m m' ∧ listHeadInit m h = .ok m' := by
  refine ⟨withNext (withPrev m h (some h)) h (some h), ⟨?_, List.nodup_singleton h⟩, ?_, ?_⟩
  · refine List.isChain_pair.mpr ?_
    simp only [Links.Joined, links_withNext, links_withPrev, room_withPrev, room, Function.update_self, and_self]
  · exact ((Changed.refl _ m).withPrev List.mem_cons_self _).withNext List.mem_cons_self _
  · simp only [listHeadInit, setPrev_room room, setNext_room, room_withPrev, room, returned_bind]

/-- Of the deleted node only the links are changed. -/
theorem dropLinks_changed (room : Room m n) : ∃ m', dropLinks debug m n = .ok m' ∧ Changed [n] m m' := by
  cases debug with
  | false => exact ⟨m, rfl, Changed.refl _ m⟩
  | true =>
    refine ⟨withNext (withPrev m n none) n none, ?_, ?_⟩
    · simp only [dropLinks, if_pos, setPrev_room room, setNext_room, room_withPrev, room, returned_bind]
    · exact ((Changed.refl _ m).withPrev List.mem_cons_self _).withNext List.mem_cons_self _

/-- The list is the one before without the node; nothing outside of the list is changed. -/
theorem listDel_ring (ring : (links m).Ring h (front ++ n :: back)) :
    ∃ m', (links m').Ring h (front ++ back) ∧ Changed (h :: (front ++ n :: back)) m m' ∧
      ∀ fuel, (front ++ n :: back).length < fuel → listDel debug fuel m n = .ok m' := by
  have rooms := rooms_of_ring ring
  have fresh := ring.not_mem
  have whole : ∀ a ∈ h :: (front ++ back), a ∈ h :: (front ++ n :: back) := Links.subset_whole h n front back
  have first := Links.headD_inside front back h
  have last := Links.getLastD_inside front back h
  have here : n ∈ h :: (front ++ n :: back) := by simp
  have behind : n ≠ back.headD h := fun same => fresh (same ▸ first)
  have nodeRoom : Room m n := rooms n here
  have firstRoom : Room m (back.headD h) := rooms _ (whole _ first)
  have lastRoom : Room m (front.getLastD h) := rooms _ (whole _ last)
  let m₁ := withNext (withPrev m (back.headD h) (some (front.getLastD h))) (front.getLastD h) (some (back.headD h))
  have tied : links m₁ = (links m).tie (front.getLastD h) (back.headD h) := by
    simp only [m₁, links_withNext, links_withPrev, room_withPrev, firstRoom, lastRoom, Links.tie]
  have circle : (links m₁).Ring h (front ++ back) := by
    rw [tied]
    exact ring.remove
  have changed : Changed (h :: (front ++ n :: back)) m m₁ :=
    ((Changed.refl _ m).withPrev (whole _ first) _).withNext (whole _ last) _
  obtain ⟨m', dropped, lost⟩ := dropLinks_changed debug ((changed.room n).mpr nodeRoom)
  refine ⟨m', ?_, changed.trans (lost.mono ?_), fun fuel enough => ?_⟩
  · apply lost.ring circle
    rintro a inside alone
    rw [List.mem_singleton.mp alone] at inside
    exact fresh inside
  · intro a alone
    rwa [List.mem_singleton.mp alone]
  · have long : (back ++ h :: front).length < fuel := by
      simp only [List.length_append, List.length_cons] at enough ⊢
      omega
    rw [listDel, listDebugNode_ring debug ring.rotate long, returned_bind]
    simp only [nextOf_room, prevOf_room, setNext_room, setPrev_room, room_withPrev, nodeRoom, firstRoom, lastRoom,
      ring.next_node, ring.prev_node, links_withPrev, Function.update_of_ne behind, returned_bind]
    exact dropped

/-- The list is empty if it has no nodes. -/
theorem listEmpty_ring {fuel : Nat} (ring : (links m).Ring h l) (enough : l.length < fuel) :
    listEmpty debug fuel m h = .ok l.isEmpty := by
  rw [listEmpty, listDebug_ring debug ring enough, returned_bind, nextOf_room (rooms_of_ring ring h List.mem_cons_self),
    returned_bind, ring.next_eq]
  cases l with
  | nil => simp
  | cons a l =>
    have other : a ≠ h := by
      rintro rfl
      exact (List.nodup_cons.mp ring.nodup).1 List.mem_cons_self
    simp [other]

/-- The first node of the list. -/
theorem listTop_ring {fuel : Nat} (ring : (links m).Ring h l) (enough : l.length < fuel) :
    listTop debug fuel m h = .ok l.head? := by
  rw [listTop, listEmpty_ring debug ring enough, returned_bind]
  cases l with
  | nil => rfl
  | cons a l => exact (nextOf_room (rooms_of_ring ring h List.mem_cons_self)).trans (congrArg _ ring.next_eq)

/-- The last node of the list. -/
theorem listTail_ring {fuel : Nat} (ring : (links m).Ring h l) (enough : l.length < fuel) :
    listTail debug fuel m h = .ok l.getLast? := by
  rw [listTail, listEmpty_ring debug ring enough, returned_bind]
  cases l with
  | nil => rfl
  | cons a l =>
    refine (prevOf_room (rooms_of_ring ring h List.mem_cons_self)).trans ?_
    rw [ring.prev_eq, List.getLastD_cons, List.getLast?_cons, List.getLastD_eq_getLast?]

/-- The first node is returned, and is no longer in the list. -/
theorem listPop_ring (ring : (links m).Ring h l) :
    ∃ m', (links m').Ring h l.tail ∧ Changed (h :: l) m m' ∧
      ∀ fuel, l.length < fuel → listPop debug fuel m h = .ok (m', l.head?) := by
  cases l with
  | nil =>
    refine ⟨m, ring, Changed.refl _ m, fun fuel enough => ?_⟩
    rw [listPop, listEmpty_ring debug ring enough, returned_bind]
    rfl
  | cons a l =>
    have whole : (links m).Ring h ([] ++ a :: l) := ring
    obtain ⟨m', circle, changed, runs⟩ := listDel_ring debug whole
    refine ⟨m', circle, changed, fun fuel enough => ?_⟩
    rw [listPop, listEmpty_ring debug ring enough, returned_bind]
    have first : nextOf m (some h) = .ok (some a) :=
      (nextOf_room (rooms_of_ring ring h List.mem_cons_self)).trans (congrArg _ ring.next_eq)
    simp [first, takeOut, runs fuel enough]

/-- The thorough check comes to the node before it comes to the head. -/
theorem inList_track {fuel : Nat} (track : (links m).Track (front ++ n :: back)) (outside : h ∉ front)
    (enough : front.length < fuel) : inList m h n fuel (front ++ n :: back).head? = .ok () := by
  obtain ⟨fuel, rfl⟩ := Nat.exists_eq_add_one_of_ne_zero (Nat.ne_zero_of_lt enough)
  induction front generalizing fuel with
  | nil => rw [inList, List.nil_append, List.head?_cons, if_pos rfl]
  | cons a front ih =>
    rw [List.mem_cons, not_or] at outside
    rw [List.length_cons] at enough
    obtain ⟨fuel, rfl⟩ := Nat.exists_eq_add_one_of_ne_zero (Nat.ne_zero_of_lt (Nat.lt_of_succ_lt_succ enough))
    have rest := ih track.tail outside.2 fuel (Nat.lt_of_succ_lt_succ enough)
    have linked : (links m).next a = (front ++ n :: back).head? := by
      cases front with
      | nil => exact (List.isChain_cons_cons.mp track).1.1
      | cons b front => exact (List.isChain_cons_cons.mp track).1.1
    have room : Room m a := by
      cases front with
      | nil => exact room_of_next linked
      | cons b front => exact room_of_next linked
    rw [inList, List.cons_append, List.head?_cons]
    split_ifs with same head
    · rfl
    · exact absurd (Option.some.inj head).symm outside.1
    · rw [nextOf_room room, returned_bind, linked, rest]

/-- The check finds a node that is in the list. -/
theorem thoroughCheck_ring {fuel : Nat} (ring : (links m).Ring h (front ++ n :: back)) (enough : front.length < fuel) :
    thoroughCheck debug fuel m h n = .ok () := by
  cases debug with
  | false => rfl
  | true =>
    have outside : h ∉ front := by
      intro inside
      exact (List.nodup_cons.mp ring.nodup).1 (List.mem_append_left _ inside)
    have track : (links m).Track (front ++ n :: back) := List.IsChain.tail (List.IsChain.left_of_append ring.track)
    have first : (links m).next h = (front ++ n :: back).head? := by
      rw [ring.next_eq]
      cases front <;> rfl
    rw [thoroughCheck, if_pos rfl, nextOf_room (rooms_of_ring ring h List.mem_cons_self), returned_bind, first,
      inList_track track outside enough]

/-- `list_del_from` does what `list_del` does, if the node is in that list. -/
theorem listDelFrom_ring (ring : (links m).Ring h (front ++ n :: back)) :
    ∃ m', (links m').Ring h (front ++ back) ∧ Changed (h :: (front ++ n :: back)) m m' ∧
      ∀ fuel, (front ++ n :: back).length < fuel → listDelFrom debug fuel m h n = .ok m' := by
  obtain ⟨m', circle, changed, runs⟩ := listDel_ring debug ring
  refine ⟨m', circle, changed, fun fuel enough => ?_⟩
  have short : front.length < fuel := by
    rw [List.length_append] at enough
    omega
  have some_ : (front ++ n :: back).isEmpty = false := by cases front <;> rfl
  rw [listDelFrom, thoroughCheck_ring debug ring short, returned_bind, listEmpty_ring debug ring enough, returned_bind,
    some_, if_neg Bool.false_ne_true, runs fuel enough]

/-- A head that is sewn into another list is taken out and left empty. -/
theorem unsew_ring {f : A} (ring : (links m).Ring h (front ++ f :: back)) :
    ∃ m', (links m').Ring h (front ++ back) ∧ (links m').Ring f [] ∧ Changed (h :: (front ++ f :: back)) m m' ∧
      ∀ fuel, (front ++ f :: back).length < fuel →
        (listDel debug fuel m f >>= fun m => listHeadInit m f) = .ok m' := by
  obtain ⟨m₁, circle, changed, runs⟩ := listDel_ring debug ring
  have here : f ∈ h :: (front ++ f :: back) := by simp
  obtain ⟨m', empty, renewed, inits⟩ := listHeadInit_ring ((changed.room f).mpr (rooms_of_ring ring f here))
  refine ⟨m', ?_, empty, changed.trans (renewed.mono ?_), fun fuel enough => ?_⟩
  · apply renewed.ring circle
    intro a inside alone
    rw [List.mem_singleton.mp alone] at inside
    exact ring.not_mem inside
  · intro a alone
    rwa [List.mem_singleton.mp alone]
  · rw [runs fuel enough, returned_bind, inits]

/-- The nodes of the second list come behind those of the first, in their order. -/
theorem listAppendList_ring {f : A} {l' : List A} (ring : (links m).Ring h l) (ring' : (links m).Ring f l')
    (apart : (h :: l).Disjoint (f :: l')) :
    ∃ m', (links m').Ring h (l ++ l') ∧ (links m').Ring f [] ∧ Changed (h :: (l ++ f :: l')) m m' ∧
      ∀ fuel, (l ++ f :: l').length < fuel → listAppendList debug fuel m h f = .ok m' := by
  have tail : l.getLastD h ∈ h :: (l ++ f :: l') := Links.getLastD_inside l (f :: l') h
  have tail' : l'.getLastD f ∈ h :: (l ++ f :: l') :=
    List.mem_append_right (h :: l) (Links.getLastD_mem l' f)
  have here : f ∈ h :: (l ++ f :: l') := by simp
  have toRoom : Room m h := rooms_of_ring ring h List.mem_cons_self
  have fromRoom : Room m f := rooms_of_ring ring' f List.mem_cons_self
  have tailRoom : Room m (l.getLastD h) := rooms_of_ring ring _ (Links.getLastD_mem l h)
  have tailRoom' : Room m (l'.getLastD f) := rooms_of_ring ring' _ (Links.getLastD_mem l' f)
  let m₁ := withPrev (withNext (withNext (withPrev m h (some (l'.getLastD f))) (l'.getLastD f) (some h))
    (l.getLastD h) (some f)) f (some (l.getLastD h))
  have tied : links m₁ = ((links m).tie (l'.getLastD f) h).tie (l.getLastD h) f := by
    simp only [m₁, links_withNext, links_withPrev, room_withNext, room_withPrev, toRoom, fromRoom, tailRoom, tailRoom',
      Links.tie]
  have sewn : (links m₁).Ring h (l ++ f :: l') := by
    rw [tied]
    exact ring.append ring' apart
  have changed : Changed (h :: (l ++ f :: l')) m m₁ :=
    ((((Changed.refl _ m).withPrev List.mem_cons_self _).withNext tail' _).withNext tail _).withPrev here _
  obtain ⟨m', circle, empty, unsewn, runs⟩ := unsew_ring debug sewn
  refine ⟨m', circle, empty, changed.trans unsewn, fun fuel enough => ?_⟩
  have short : l.length < fuel ∧ l'.length < fuel := by
    rw [List.length_append, List.length_cons] at enough
    omega
  rw [listAppendList, listDebug_ring debug ring' short.2, returned_bind, prevOf_room fromRoom, returned_bind,
    listDebug_ring debug ring short.1, returned_bind, prevOf_room toRoom, returned_bind, ring.prev_eq, ring'.prev_eq]
  simp only [setNext_room, setPrev_room, room_withNext, room_withPrev, toRoom, fromRoom, tailRoom, tailRoom', returned_bind]
  exact runs fuel enough

/-- They come in front of them. -/
theorem listPrependList_ring {f : A} {l' : List A} (ring : (links m).Ring h l) (ring' : (links m).Ring f l')
    (apart : (h :: l).Disjoint (f :: l')) :
    ∃ m', (links m').Ring h (l' ++ l) ∧ (links m').Ring f [] ∧ Changed (h :: f :: (l' ++ l)) m m' ∧
      ∀ fuel, (f :: (l' ++ l)).length < fuel → listPrependList debug fuel m h f = .ok m' := by
  have first : l.headD h ∈ h :: f :: (l' ++ l) := Links.headD_inside (f :: l') l h
  have tail' : l'.getLastD f ∈ h :: f :: (l' ++ l) :=
    List.mem_cons_of_mem h (Links.getLastD_inside l' l f)
  have here : f ∈ h :: f :: (l' ++ l) := by simp
  have toRoom : Room m h := rooms_of_ring ring h List.mem_cons_self
  have fromRoom : Room m f := rooms_of_ring ring' f List.mem_cons_self
  have firstRoom : Room m (l.headD h) := rooms_of_ring ring _ (Links.headD_mem l h)
  have tailRoom' : Room m (l'.getLastD f) := rooms_of_ring ring' _ (Links.getLastD_mem l' f)
  let m₁ := withNext (withPrev (withPrev (withNext m h (some f)) f (some h)) (l.headD h) (some (l'.getLastD f)))
    (l'.getLastD f) (some (l.headD h))
  have tied : links m₁ = ((links m).tie h f).tie (l'.getLastD f) (l.headD h) := by
    simp only [m₁, links_withNext, links_withPrev, room_withNext, room_withPrev, toRoom, fromRoom, firstRoom, tailRoom',
      Links.tie]
  have sewn : (links m₁).Ring h ([] ++ f :: (l' ++ l)) := by
    rw [tied]
    exact ring.prepend ring' apart
  have changed : Changed (h :: f :: (l' ++ l)) m m₁ :=
    ((((Changed.refl _ m).withNext List.mem_cons_self _).withPrev here _).withPrev first _).withNext tail' _
  obtain ⟨m', circle, empty, unsewn, runs⟩ := unsew_ring debug sewn
  refine ⟨m', circle, empty, changed.trans unsewn, fun fuel enough => ?_⟩
  have short : l.length < fuel ∧ l'.length < fuel := by
    rw [List.length_cons, List.length_append] at enough
    omega
  rw [listPrependList, listDebug_ring debug ring' short.2, returned_bind, prevOf_room fromRoom, returned_bind,
    listDebug_ring debug ring short.1, returned_bind, nextOf_room toRoom, returned_bind, ring.next_eq, ring'.prev_eq]
  simp only [setNext_room, setPrev_room, room_withNext, room_withPrev, toRoom, fromRoom, firstRoom, tailRoom', returned_bind]
  exact runs fuel enough

end CodeClips.LwanList
