import CodeClips.Lwan.ListOps

/-!
# The loops over a list

The three loops as the macros write them, for a body that may change the memory. A loop is the
fold of its body over the nodes that the list has when it starts: of a body that leaves the node in
the list it is run on, and in `list_for_each_safe` of any that keeps the nodes still to come, so that it
may delete and free the node, or those before.
-/

namespace CodeClips.LwanList
variable {A : Type} [DecidableEq A]

section Loops
variable (body : A → Memory A → Except (Halt A) (Memory A)) (h : A)

/-- The loop from `i` on, along the links that `link` reads. -/
def eachLoop (link : Memory A → Option A → Except (Halt A) (Option A)) :
    Nat → Memory A → Option A → Except (Halt A) (Memory A)
  | 0, _, _ => .error (.access .running)
  | fuel + 1, m, i =>
    if i = some h then .ok m
    else match i with
      | none => .error (.access .null)
      | some a => do
        let m ← body a m
        let i ← link m (some a)
        eachLoop link fuel m i

/-- The loop that has read the next node, `nxt`, before the body runs. -/
def safeLoop : Nat → Memory A → Option A → Option A → Except (Halt A) (Memory A)
  | 0, _, _, _ => .error (.access .running)
  | fuel + 1, m, i, nxt =>
    if i = some h then .ok m
    else match i with
      | none => .error (.access .null)
      | some a => do
        let m ← body a m
        let next ← nextOf m nxt
        safeLoop fuel m nxt next

variable (debug : Bool) (fuel : Nat) (func : String) (m : Memory A)

def listForEach : Except (Halt A) (Memory A) := do
  let _ ← listDebug debug fuel m h func
  let i ← nextOf m (some h)
  eachLoop body h nextOf fuel m i

def listForEachRev : Except (Halt A) (Memory A) := do
  let _ ← listDebug debug fuel m h func
  let i ← prevOf m (some h)
  eachLoop body h prevOf fuel m i

def listForEachSafe : Except (Halt A) (Memory A) := do
  let _ ← listDebug debug fuel m h func
  let i ← nextOf m (some h)
  let nxt ← nextOf m i
  safeLoop body h fuel m i nxt

end Loops

/-- The body on each of the nodes in turn. -/
def visit (body : A → Memory A → Except (Halt A) (Memory A)) (m : Memory A) (l : List A) : Except (Halt A) (Memory A) :=
  l.foldlM (fun m a => body a m) m

variable {body : A → Memory A → Except (Halt A) (Memory A)} {h : A} {m : Memory A} {front back l : List A} {fuel : Nat}

/-- The loop over the nodes still to come, `view` the links in its direction. -/
theorem eachLoop_visits {link : Memory A → Option A → Except (Halt A) (Option A)} {view : Memory A → Links A}
    (reads : ∀ {m : Memory A} {l : List A}, (view m).Ring h l → ∀ a ∈ h :: l, link m (some a) = .ok ((view m).next a))
    (keeps : ∀ m front a back, (view m).Ring h (front ++ a :: back) →
      ∃ m' front', body a m = .ok m' ∧ (view m').Ring h (front' ++ a :: back))
    (ring : (view m).Ring h (front ++ back)) (enough : back.length < fuel) :
    ∃ m' l', visit body m back = .ok m' ∧ (view m').Ring h l' ∧
      eachLoop body h link fuel m (some (back.headD h)) = .ok m' := by
  obtain ⟨fuel, rfl⟩ := Nat.exists_eq_add_one_of_ne_zero (Nat.ne_zero_of_lt enough)
  induction back generalizing m front fuel with
  | nil => exact ⟨m, front ++ [], rfl, ring, by rw [eachLoop, List.headD_nil, if_pos rfl]⟩
  | cons a back ih =>
    rw [List.length_cons] at enough
    obtain ⟨fuel, rfl⟩ := Nat.exists_eq_add_one_of_ne_zero (Nat.ne_zero_of_lt (Nat.lt_of_succ_lt_succ enough))
    obtain ⟨m₁, front', runs, ring₁⟩ := keeps m front a back ring
    have next := ring₁.next_node
    have split : (view m₁).Ring h ((front' ++ [a]) ++ back) := by simpa using ring₁
    obtain ⟨m', l', visits, ring', loops⟩ := ih split fuel (Nat.lt_of_succ_lt_succ enough)
    have other : a ≠ h := by
      rintro rfl
      exact (List.nodup_cons.mp ring.nodup).1 (by simp)
    refine ⟨m', l', ?_, ring', ?_⟩
    · rw [visit, List.foldlM_cons, runs, returned_bind]
      exact visits
    · rw [eachLoop, List.headD_cons, if_neg (by simpa using other)]
      simp only [runs, returned_bind, reads ring₁ a (by simp), next, loops]

theorem safeLoop_visits
    (keeps : ∀ m front a back, (links m).Ring h (front ++ a :: back) →
      ∃ m' front', body a m = .ok m' ∧ (links m').Ring h (front' ++ back))
    (ring : (links m).Ring h (front ++ back)) (enough : back.length < fuel) (nxt : Option A)
    (ahead : ∀ a rest, back = a :: rest → nxt = some (rest.headD h)) :
    ∃ m' l', visit body m back = .ok m' ∧ (links m').Ring h l' ∧
      safeLoop body h fuel m (some (back.headD h)) nxt = .ok m' := by
  obtain ⟨fuel, rfl⟩ := Nat.exists_eq_add_one_of_ne_zero (Nat.ne_zero_of_lt enough)
  induction back generalizing m front fuel nxt with
  | nil => exact ⟨m, front ++ [], rfl, ring, by rw [safeLoop, List.headD_nil, if_pos rfl]⟩
  | cons a back ih =>
    rw [List.length_cons] at enough
    obtain ⟨fuel, rfl⟩ := Nat.exists_eq_add_one_of_ne_zero (Nat.ne_zero_of_lt (Nat.lt_of_succ_lt_succ enough))
    obtain ⟨m₁, front', runs, ring₁⟩ := keeps m front a back ring
    have room : Room m₁ (back.headD h) := rooms_of_ring ring₁ _ (Links.headD_inside front' back h)
    obtain ⟨m', l', visits, ring', loops⟩ := ih ring₁ ((links m₁).next (back.headD h))
      (fun b rest same => by
        subst same
        exact ring₁.next_node) fuel (Nat.lt_of_succ_lt_succ enough)
    have other : a ≠ h := by
      rintro rfl
      exact (List.nodup_cons.mp ring.nodup).1 (by simp)
    refine ⟨m', l', ?_, ring', ?_⟩
    · rw [visit, List.foldlM_cons, runs, returned_bind]
      exact visits
    · rw [safeLoop, List.headD_cons, if_neg (by simpa using other)]
      simp only [runs, returned_bind, ahead a back rfl, nextOf_room room, loops]

/-- A head `none` and its nodes `some 1` and `some 2`. -/
def twoNodes : Memory (Option Nat) where
  cell
    | none => some ⟨some (some 1), some (some 2)⟩
    | some 1 => some ⟨some (some 2), some none⟩
    | some 2 => some ⟨some none, some (some 1)⟩
    | some _ => none

theorem twoNodes_ring : (links twoNodes).Ring none [some 1, some 2] := by
  refine ⟨?_, by decide⟩
  simp [Links.Track, Links.Joined, links, CellHeap.next, twoNodes]

/-- The node is taken out and freed. -/
def delAndFree (a : A) (m : Memory A) : Except (Halt A) (Memory A) := do
  let m ← listDel false 0 m a
  .ok (m.put a none)

theorem delAndFree_ring {a : A} (ring : (links m).Ring h (front ++ a :: back)) :
    ∃ m', delAndFree a m = .ok m' ∧ (links m').Ring h (front ++ back) := by
  obtain ⟨m₁, circle, -, runs⟩ := listDel_ring false ring
  have runs₁ : listDel false 0 m a = .ok m₁ := runs ((front ++ a :: back).length + 1) (Nat.lt_succ_self _)
  refine ⟨m₁.put a none, by rw [delAndFree, runs₁, returned_bind], ?_⟩
  have outside : ∀ b ∈ h :: (front ++ back), b ≠ a := by
    rintro b inside rfl
    exact ring.not_mem inside
  apply circle.congr <;> intro b inside <;> exact CellHeap.next_congr _ (CellHeap.cell_put_of_ne m₁ (outside b inside) none)

/-- The node beside it on one side is taken out, unless it is the head. -/
def delBeside (link : Memory A → Option A → Except (Halt A) (Option A)) (h a : A) (m : Memory A) :
    Except (Halt A) (Memory A) := do
  match ← link m (some a) with
  | none => .ok m
  | some b => if b = h then .ok m else delAndFree b m

theorem delBeside_head {link : Memory A → Option A → Except (Halt A) (Option A)} {a : A} (reads : link m (some a) = .ok (some h)) :
    delBeside link h a m = .ok m := by
  rw [delBeside, reads, returned_bind]
  exact if_pos rfl

theorem delBeside_node {link : Memory A → Option A → Except (Halt A) (Option A)} {a b : A} (reads : link m (some a) = .ok (some b))
    (ring : (links m).Ring h (front ++ b :: back)) :
    ∃ m', delBeside link h a m = .ok m' ∧ (links m').Ring h (front ++ back) := by
  have other : b ≠ h := by
    rintro rfl
    exact (List.nodup_cons.mp ring.nodup).1 (by simp)
  obtain ⟨m', runs, ring'⟩ := delAndFree_ring ring
  refine ⟨m', ?_, ring'⟩
  rw [delBeside, reads, returned_bind]
  exact (if_neg other).trans runs

theorem delBeside_next (m : Memory A) (front : List A) (a : A) (back : List A) (ring : (links m).Ring h (front ++ a :: back)) :
    ∃ m' back', delBeside nextOf h a m = .ok m' ∧ (links m').Ring h (front ++ a :: back') := by
  have reads : nextOf m (some a) = .ok (some (back.headD h)) :=
    (nextOf_room (rooms_of_ring ring a (by simp))).trans (congrArg _ ring.next_node)
  cases back with
  | nil => exact ⟨m, [], delBeside_head reads, ring⟩
  | cons b back =>
    have split : (links m).Ring h ((front ++ [a]) ++ b :: back) := by simpa using ring
    obtain ⟨m', runs, ring'⟩ := delBeside_node reads split
    exact ⟨m', back, runs, by simpa using ring'⟩

theorem delBeside_prev (m : Memory A) (front : List A) (a : A) (back : List A) (ring : (links m).Ring h (front ++ a :: back)) :
    ∃ m' front', delBeside prevOf h a m = .ok m' ∧ (links m').Ring h (front' ++ a :: back) := by
  have reads : prevOf m (some a) = .ok (some (front.getLastD h)) :=
    (prevOf_room (rooms_of_ring ring a (by simp))).trans (congrArg _ ring.prev_node)
  rcases front.eq_nil_or_concat with rfl | ⟨front, b, rfl⟩
  · exact ⟨m, [], delBeside_head reads, ring⟩
  · have last : prevOf m (some a) = .ok (some b) := by simpa using reads
    have split : (links m).Ring h (front ++ b :: (a :: back)) := by simpa using ring
    obtain ⟨m', runs, ring'⟩ := delBeside_node last split
    exact ⟨m', front, runs, ring'⟩

/-- Forward and backward, of a body that keeps the node it is run on and those still to come. -/
theorem list_for_each_visits (debug : Bool) (func : String) (ring : (links m).Ring h l) (enough : l.length < fuel) :
    ((∀ m front a back, (links m).Ring h (front ++ a :: back) →
        ∃ m' front', body a m = .ok m' ∧ (links m').Ring h (front' ++ a :: back)) →
      ∃ m' l', visit body m l = .ok m' ∧ (links m').Ring h l' ∧ listForEach body h debug fuel func m = .ok m') ∧
    ((∀ m front a back, (links m).Ring h (front ++ a :: back) →
        ∃ m' back', body a m = .ok m' ∧ (links m').Ring h (front ++ a :: back')) →
      ∃ m' l', visit body m l.reverse = .ok m' ∧ (links m').Ring h l' ∧
        listForEachRev body h debug fuel func m = .ok m') := by
  have head : Room m h := rooms_of_ring ring h List.mem_cons_self
  constructor
  · intro keeps
    have reads : ∀ {m : Memory A} {l : List A}, (links m).Ring h l → ∀ a ∈ h :: l,
        nextOf m (some a) = .ok ((links m).next a) :=
      fun ring a inside => nextOf_room (rooms_of_ring ring a inside)
    have whole : (links m).Ring h ([] ++ l) := ring
    obtain ⟨m', l', visits, ring', loops⟩ := eachLoop_visits reads keeps whole enough
    refine ⟨m', l', visits, ring', ?_⟩
    rw [listForEach, listDebug_ring debug ring enough, returned_bind, nextOf_room head, returned_bind, ring.next_eq, loops]
  · intro keeps
    have reads : ∀ {m : Memory A} {l : List A}, (links m).flip.Ring h l → ∀ a ∈ h :: l,
        prevOf m (some a) = .ok ((links m).flip.next a) := by
      intro m l turned a inside
      exact prevOf_room (rooms_of_ring turned.flip a (by simpa using inside))
    have turnedKeeps : ∀ m front a back, (links m).flip.Ring h (front ++ a :: back) →
        ∃ m' front', body a m = .ok m' ∧ (links m').flip.Ring h (front' ++ a :: back) := by
      intro m front a back turned
      have forward : (links m).Ring h (back.reverse ++ a :: front.reverse) := by simpa using turned.flip
      obtain ⟨m', back', runs, ring'⟩ := keeps m back.reverse a front.reverse forward
      exact ⟨m', back'.reverse, runs, by simpa using ring'.flip⟩
    have whole : (links m).flip.Ring h ([] ++ l.reverse) := ring.flip
    obtain ⟨m', l', visits, ring', loops⟩ := eachLoop_visits reads turnedKeeps whole (by simpa using enough)
    refine ⟨m', l'.reverse, visits, ring'.flip, ?_⟩
    rw [listForEachRev, listDebug_ring debug ring enough, returned_bind, prevOf_room head, returned_bind, ring.prev_eq]
    simpa using loops

/-- Bodies that take out the node before, and on the way back the node behind. -/
theorem list_for_each_visits_two :
    (∃ m' l', visit (delBeside prevOf none) twoNodes [some 1, some 2] = .ok m' ∧ (links m').Ring none l' ∧
      listForEach (delBeside prevOf none) none true 3 "main" twoNodes = .ok m') ∧
    ∃ m' l', visit (delBeside nextOf none) twoNodes [some 2, some 1] = .ok m' ∧ (links m').Ring none l' ∧
      listForEachRev (delBeside nextOf none) none true 3 "main" twoNodes = .ok m' :=
  ⟨(list_for_each_visits true "main" twoNodes_ring (by decide)).1 delBeside_prev,
    (list_for_each_visits true "main" twoNodes_ring (by decide)).2 delBeside_next⟩

/-- Of a body that may take out the node it is run on, and free it, and change the list before it. -/
theorem list_for_each_safe_visits (debug : Bool) (func : String) (ring : (links m).Ring h l) (enough : l.length < fuel)
    (keeps : ∀ m front a back, (links m).Ring h (front ++ a :: back) →
      ∃ m' front', body a m = .ok m' ∧ (links m').Ring h (front' ++ back)) :
    ∃ m' l', visit body m l = .ok m' ∧ (links m').Ring h l' ∧ listForEachSafe body h debug fuel func m = .ok m' := by
  have head : Room m h := rooms_of_ring ring h List.mem_cons_self
  have first : Room m (l.headD h) := rooms_of_ring ring _ (Links.headD_mem l h)
  have whole : (links m).Ring h ([] ++ l) := ring
  obtain ⟨m', l', visits, ring', loops⟩ := safeLoop_visits keeps whole enough
    ((links m).next (l.headD h)) (fun a rest same => by
      subst same
      exact whole.next_node)
  refine ⟨m', l', visits, ring', ?_⟩
  rw [listForEachSafe, listDebug_ring debug ring enough, returned_bind, nextOf_room head, returned_bind, ring.next_eq,
    nextOf_room first, returned_bind, loops]

theorem list_for_each_safe_visits_two : ∃ m' l', visit delAndFree twoNodes [some 1, some 2] = .ok m' ∧
    (links m').Ring none l' ∧ listForEachSafe delAndFree none true 3 "main" twoNodes = .ok m' :=
  list_for_each_safe_visits true "main" twoNodes_ring (by decide) fun _ front _ _ ring =>
    have ⟨m', runs, ring'⟩ := delAndFree_ring ring
    ⟨m', front, runs, ring'⟩

end CodeClips.LwanList
