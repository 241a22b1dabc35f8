import CodeClips.Ae.FileEvents
import CodeClips.Epoll.Deadline
import CodeClips.Lib.CellHeap
import CodeClips.Lib.LinkedList

/-!
# Time events of the `ae` event loop

The timers are a linked list in memory. A timer is created at its head and deleted wherever it is, and
its finalizer runs when it is out of the list and not yet freed; the finalizer, and the callback of a
timer, may create and delete timers themselves. `Holds` says which timers the list has, and `Changes`
what such calls do to it. A pointer to a timer is its id here: ids are not given out twice, and so a
timer that has been freed is not taken for another one at the same address. The ids and the seconds of
the clock are far from the bounds of their types and are integers.
-/

namespace CodeClips.Ae

/-- Whether there is a `finalizerProc`; `timeProc` and `clientData` are passed on only. -/
structure aeTimeEvent where
  id : Int
  when_sec : Int
  when_ms : Int
  finalizerProc : Bool
  next : Option Int
deriving DecidableEq

/-- The time at which the timer is to be called. -/
def aeTimeEvent.due (te : aeTimeEvent) : Int × Int := (te.when_sec, te.when_ms)

/-- A timer that a callback has deleted; a call of a timer, and the time it has been moved to. -/
inductive Event where
  | deleted (id : Int)
  | called (id : Int) (moved : Option (Int × Int))
deriving DecidableEq

/-- What the functions use of `aeEventLoop`, with the timers in memory. No function reads `events`. -/
structure TimeEvents where
  timeEventNextId : Int
  lastTime : Int
  timeEventHead : Option Int
  heap : CellHeap Int aeTimeEvent
  events : List Event

/-- What `gettimeofday` reads. -/
abbrev Clock := { t : Epoll.timeval // t.Normalised }

/-- Seconds and milliseconds. -/
def aeGetTime (now : Clock) : Int × Int := (now.val.tv_sec, now.val.tv_usec / 1000)

def aeAddMillisecondsToNow (milliseconds : Int) (now : Clock) : Int × Int :=
  let (cur_sec, cur_ms) := aeGetTime now
  let when_sec := cur_sec + milliseconds.tdiv 1000
  let when_ms := cur_ms + milliseconds.tmod 1000
  if when_ms ≥ 1000 then (when_sec + 1, when_ms - 1000) else (when_sec, when_ms)

/-- The state after `aeCreateEventLoop`, at some time. -/
def TimeEvents.init (time : Int) : TimeEvents :=
  { timeEventNextId := 0, lastTime := time, timeEventHead := none, heap := { cell := fun _ => none }, events := [] }

def aeCreateTimeEvent (s : TimeEvents) (milliseconds : Int) (finalizerProc : Bool) (now : Clock) : TimeEvents × Int :=
  let id := s.timeEventNextId
  let (sec, ms) := aeAddMillisecondsToNow milliseconds now
  let te := { id := id, when_sec := sec, when_ms := ms, finalizerProc := finalizerProc, next := s.timeEventHead }
  ({ s with timeEventNextId := id + 1, heap := s.heap.put id (some te), timeEventHead := some id }, id)

/-- No list of different timers takes more turns. -/
def TimeEvents.turns (s : TimeEvents) : Nat := s.timeEventNextId.toNat + 1

/-- The ids of the timers of the list. -/
def TimeEvents.timers (s : TimeEvents) : List Int := nodes (s.heap.next aeTimeEvent.next) s.turns s.timeEventHead

/-- `timeEventHead`, or the link of `prev`, is set. -/
def TimeEvents.relink (s : TimeEvents) (prev next : Option Int) : Except Stop TimeEvents :=
  match prev with
  | none => .ok { s with timeEventHead := next }
  | some prev => do
    let heap ← s.heap.modify (some prev) fun before => { before with next := next }
    return { s with heap := heap }

/-- `finalizer` is what the `finalizerProc` does. -/
def aeTimeEvent.finalize (finalizer : TimeEvents → Except Stop TimeEvents) (te : aeTimeEvent) (s : TimeEvents) :
    Except Stop TimeEvents :=
  if te.finalizerProc then finalizer s else .ok s

/-- The body of the loop for the timer that is found. -/
def aeDeleteTimeEvent.remove (finalizer : TimeEvents → Except Stop TimeEvents) (s : TimeEvents) (prev : Option Int)
    (te : aeTimeEvent) (p : Int) : Except Stop TimeEvents := do
  let s ← s.relink prev te.next
  let s ← te.finalize finalizer s
  let heap ← s.heap.free (some p)
  return { s with heap := heap }

def aeDeleteTimeEvent.loop (finalizer : TimeEvents → Except Stop TimeEvents) (s : TimeEvents) (id : Int) :
    Nat → Option Int → Option Int → Except Stop (TimeEvents × Int)
  | 0, _, _ => .error .running
  | _ + 1, _, none => .ok (s, AE_ERR)
  | fuel + 1, prev, some p => do
    let te ← s.heap.load (some p)
    if te.id = id then
      let s ← aeDeleteTimeEvent.remove finalizer s prev te p
      return (s, AE_OK)
    else aeDeleteTimeEvent.loop finalizer s id fuel (some p) te.next

def aeDeleteTimeEvent (finalizer : TimeEvents → Except Stop TimeEvents) (s : TimeEvents) (id : Int) :
    Except Stop (TimeEvents × Int) :=
  aeDeleteTimeEvent.loop finalizer s id s.turns none s.timeEventHead

/-- What a callback may do to the timers, with what the finalizer of a timer does in turn. -/
inductive Action where
  | aeCreateTimeEvent (milliseconds : Int) (finalizerProc : Bool) (now : Clock)
  | aeDeleteTimeEvent (id : Int) (finalizer : List Action)

mutual

def Action.exec : Action → TimeEvents → Except Stop TimeEvents
  | .aeCreateTimeEvent milliseconds finalizerProc now, s => .ok (Ae.aeCreateTimeEvent s milliseconds finalizerProc now).1
  | .aeDeleteTimeEvent id finalizer, s => do
    let (s, ret) ← Ae.aeDeleteTimeEvent (execAll finalizer) s id
    return if ret = AE_OK then { s with events := s.events ++ [.deleted id] } else s

def execAll : List Action → TimeEvents → Except Stop TimeEvents
  | [], s => .ok s
  | action :: actions, s => do
    let s ← action.exec s
    execAll actions s

end

/-! ## The timers of the list -/

/-- The list has the timers `l`, and every timer in memory has an id that has been given out. -/
structure Holds (s : TimeEvents) (l : List Int) : Prop where
  cells : ∀ p ∈ l, ∃ te, s.heap.cell p = some te ∧ te.id = p ∧ te.when_ms < 1000
  links : Segment (s.heap.next aeTimeEvent.next) s.timeEventHead l none
  nodup : l.Nodup
  ids : ∀ p, (s.heap.cell p).isSome → 0 ≤ p ∧ p < s.timeEventNextId
  nextId : 0 ≤ s.timeEventNextId

variable {s s' s'' : TimeEvents} {l l' l'' gone gone' front back : List Int} {p id : Int} {te : aeTimeEvent}

theorem Holds.id_of_mem (holds : Holds s l) (member : p ∈ l) : 0 ≤ p ∧ p < s.timeEventNextId := by
  obtain ⟨te, here, -⟩ := holds.cells p member
  exact holds.ids p (by rw [here]; rfl)

/-- Nothing else in the state matters. -/
theorem Holds.congr (holds : Holds s l) (nextId : s'.timeEventNextId = s.timeEventNextId)
    (head : s'.timeEventHead = s.timeEventHead) (heap : s'.heap = s.heap) : Holds s' l := by
  obtain ⟨cells, links, nodup, ids, positive⟩ := holds
  rw [← heap] at cells ids links
  rw [← nextId] at ids positive
  rw [← head] at links
  exact ⟨cells, links, nodup, ids, positive⟩

theorem Holds.head (holds : Holds s l) : s.timeEventHead = l.head? :=
  holds.links.head?

theorem Holds.next_head (holds : Holds s (front ++ p :: back)) (here : s.heap.cell p = some te) : te.next = back.head? := by
  obtain ⟨q, -, -, rest⟩ := holds.links.split
  rw [CellHeap.next_of_cell _ here] at rest
  exact rest.head?

theorem Holds.length_lt_turns (holds : Holds s l) : l.length < s.turns := by
  have distinct : (l.map Int.toNat).Nodup := by
    apply List.Nodup.map_on _ holds.nodup
    intro p member q member' same
    have low := (holds.id_of_mem member).1
    have low' := (holds.id_of_mem member').1
    omega
  have inside : l.map Int.toNat ⊆ List.range s.timeEventNextId.toNat := by
    intro n member
    obtain ⟨p, inList, rfl⟩ := List.mem_map.mp member
    have bounds := holds.id_of_mem inList
    exact List.mem_range.mpr (by omega)
  have few := (List.subperm_of_subset distinct inside).length_le
  rw [List.length_map, List.length_range] at few
  exact Nat.lt_succ_of_le few

theorem Holds.timers (holds : Holds s l) : s.timers = l :=
  holds.links.nodes holds.length_lt_turns

/-- How a list has changed: the timers `gone` are out of it, and those that have been created since
are in it. -/
structure Members (s : TimeEvents) (l : List Int) (s' : TimeEvents) (l' gone : List Int) : Prop where
  onward : s.timeEventNextId ≤ s'.timeEventNextId
  members : ∀ p, p ∈ l' ↔ (p ∈ l ∨ s.timeEventNextId ≤ p ∧ p < s'.timeEventNextId) ∧ p ∉ gone
  given : ∀ p ∈ gone, p < s'.timeEventNextId

theorem Members.refl (s : TimeEvents) (l : List Int) : Members s l s l [] where
  onward := Int.le_refl _
  members p := by
    rw [and_iff_left List.not_mem_nil]
    exact ⟨.inl, fun either => either.elim id fun between => absurd between.2 (Int.not_lt.mpr between.1)⟩
  given := List.forall_mem_nil _

theorem Members.trans (holds : Holds s l) (first : Members s l s' l' gone) (second : Members s' l' s'' l'' gone') :
    Members s l s'' l'' (gone ++ gone') where
  onward := Int.le_trans first.onward second.onward
  members p := by
    have onward := first.onward
    have onward' := second.onward
    have old (member : p ∈ l) := (holds.id_of_mem member).2
    have given := first.given p
    rw [second.members, first.members, List.mem_append, not_or]
    constructor
    · rintro ⟨⟨member | ⟨low, high⟩, here⟩ | ⟨low, high⟩, here'⟩
      · exact ⟨.inl member, here, here'⟩
      · exact ⟨.inr ⟨low, by omega⟩, here, here'⟩
      · exact ⟨.inr ⟨by omega, high⟩, fun gone => absurd (given gone) (by omega), here'⟩
    · rintro ⟨member | ⟨low, high⟩, here, here'⟩
      · exact ⟨.inl ⟨.inl member, here⟩, here'⟩
      · rcases Int.lt_or_le p s'.timeEventNextId with before | after
        · exact ⟨.inl ⟨.inr ⟨low, before⟩, here⟩, here'⟩
        · exact ⟨.inr ⟨after, high⟩, here'⟩
  given p member := by
    rcases List.mem_append.mp member with before | after
    · exact Int.lt_of_lt_of_le (first.given p before) second.onward
    · exact second.given p after

theorem Members.congr (change : Members s l s' l' gone) (same : ∀ p, p ∈ gone' ↔ p ∈ gone) : Members s l s' l' gone' where
  onward := change.onward
  members p := by rw [change.members, same]
  given p member := change.given p ((same p).mp member)

/-- A timer that stays in the list is not one of those that have been created. -/
theorem Members.mem_of_mem (holds : Holds s l) (first : Members s l s' l' gone) (second : Members s' l' s'' l'' gone')
    (member : p ∈ l) (member' : p ∈ l'') : p ∈ l' := by
  have old := (holds.id_of_mem member).2
  have onward := first.onward
  rcases (second.members p).mp member' with ⟨between | new, -⟩
  · exact between
  · omega

/-- What `aeCreateTimeEvent` and `aeDeleteTimeEvent` do to a list besides: they move no timer to
another time, and the only memory that they free is that of the timers of the list. -/
structure Changes (s : TimeEvents) (l : List Int) (s' : TimeEvents) (l' gone : List Int) : Prop
    extends Members s l s' l' gone where
  outside : ∀ p, p < s.timeEventNextId → p ∉ l → s'.heap.cell p = s.heap.cell p
  times : ∀ p ∈ l, p ∈ l' → ∀ te, s.heap.cell p = some te →
    ∃ te', s'.heap.cell p = some te' ∧ te'.due = te.due

theorem Changes.refl (s : TimeEvents) (l : List Int) : Changes s l s l [] where
  toMembers := .refl s l
  outside _ _ _ := rfl
  times _ _ _ te here := ⟨te, here, rfl⟩

theorem Changes.trans (holds : Holds s l) (first : Changes s l s' l' gone) (second : Changes s' l' s'' l'' gone') :
    Changes s l s'' l'' (gone ++ gone') where
  toMembers := first.toMembers.trans holds second.toMembers
  outside p given apart := by
    refine (second.outside p (Int.lt_of_lt_of_le given first.onward) ?_).trans (first.outside p given apart)
    intro member
    rcases (first.members p).mp member with ⟨old | new, -⟩
    · exact apart old
    · omega
  times p member member' te here := by
    have between := first.toMembers.mem_of_mem holds second.toMembers member member'
    obtain ⟨te', here', same⟩ := first.times p member between te here
    obtain ⟨te'', here'', same'⟩ := second.times p between member' te' here'
    exact ⟨te'', here'', same'.trans same⟩

/-! ## Creation -/

theorem aeGetTime_ms (now : Clock) : 0 ≤ (aeGetTime now).2 ∧ (aeGetTime now).2 < 1000 := by
  obtain ⟨low, high⟩ := now.property
  show 0 ≤ now.val.tv_usec / 1000 ∧ now.val.tv_usec / 1000 < 1000
  omega

theorem aeAddMillisecondsToNow_ms (milliseconds : Int) (now : Clock) : (aeAddMillisecondsToNow milliseconds now).2 < 1000 := by
  have cur := (aeGetTime_ms now).2
  have rest := Int.tmod_lt_of_pos milliseconds (show (0 : Int) < 1000 by decide)
  unfold aeAddMillisecondsToNow
  dsimp only
  split_ifs <;> dsimp only <;> omega

theorem Holds.fresh (holds : Holds s l) : s.heap.cell s.timeEventNextId = none := by
  by_contra used
  have given := holds.ids s.timeEventNextId (Option.isSome_iff_ne_none.mpr used)
  omega

/-- A new timer is the first. -/
theorem Holds.aeCreateTimeEvent (holds : Holds s l) (milliseconds : Int) (finalizerProc : Bool) (now : Clock) :
    Holds (Ae.aeCreateTimeEvent s milliseconds finalizerProc now).1 (s.timeEventNextId :: l) ∧
      Changes s l (Ae.aeCreateTimeEvent s milliseconds finalizerProc now).1 (s.timeEventNextId :: l) [] := by
  have unused (p : Int) (allocated : (s.heap.cell p).isSome) : p ≠ s.timeEventNextId := by
    have given := (holds.ids p allocated).2
    omega
  have outside : s.timeEventNextId ∉ l := fun member => Int.lt_irrefl _ (holds.id_of_mem member).2
  constructor
  · refine ⟨List.forall_mem_cons.mpr ⟨?_, fun p member => ?_⟩, ?_, List.nodup_cons.mpr ⟨outside, holds.nodup⟩, ?_, ?_⟩
    · exact ⟨_, CellHeap.cell_put_self _ _ _, rfl, aeAddMillisecondsToNow_ms milliseconds now⟩
    · obtain ⟨te, here, rest⟩ := holds.cells p member
      refine ⟨te, ?_, rest⟩
      exact (CellHeap.cell_put_of_ne _ (unused p (by rw [here]; rfl)) _).trans here
    · show Segment (CellHeap.next aeTimeEvent.next (s.heap.put _ _)) _ _ _
      rw [CellHeap.next_put]
      exact holds.links.push outside
    · intro p allocated
      show 0 ≤ p ∧ p < s.timeEventNextId + 1
      by_cases new : p = s.timeEventNextId
      · have positive := holds.nextId
        omega
      · have old : (s.heap.cell p).isSome := by rwa [← CellHeap.cell_put_of_ne s.heap new _]
        have given := holds.ids p old
        omega
    · exact Int.le_add_one holds.nextId
  · refine ⟨⟨Int.le_add_one (Int.le_refl _), fun p => ?_, List.forall_mem_nil _⟩, fun p given _ => ?_, ?_⟩
    · rw [and_iff_left List.not_mem_nil, List.mem_cons]
      show _ ↔ p ∈ l ∨ s.timeEventNextId ≤ p ∧ p < s.timeEventNextId + 1
      rw [or_comm]
      apply or_congr_right
      omega
    · exact CellHeap.cell_put_of_ne _ (Int.ne_of_lt given) _
    · intro p member _ te here
      exact ⟨te, (CellHeap.cell_put_of_ne _ (unused p (by rw [here]; rfl)) _).trans here, rfl⟩

/-- A timer is changed, and its link may lead elsewhere. -/
theorem Holds.update (holds : Holds s l) (here : s.heap.cell p = some te) {te' : aeTimeEvent} (own : te'.id = te.id)
    (small : te'.when_ms < 1000) (smaller : l'.Sublist l)
    (links : Segment ((s.heap.put p (some te')).next aeTimeEvent.next) s.timeEventHead l' none) :
    Holds { s with heap := s.heap.put p (some te') } l' where
  cells q member := by
    obtain ⟨te'', here', own', small'⟩ := holds.cells q (smaller.subset member)
    by_cases same : q = p
    · subst same
      obtain rfl := Option.some.inj (here.symm.trans here')
      exact ⟨te', CellHeap.cell_put_self _ _ _, own.trans own', small⟩
    · exact ⟨te'', (CellHeap.cell_put_of_ne _ same _).trans here', own', small'⟩
  links := links
  nodup := holds.nodup.sublist smaller
  ids q allocated := by
    by_cases same : q = p
    · subst same
      exact holds.ids q (by rw [here]; rfl)
    · exact holds.ids q (by rwa [← CellHeap.cell_put_of_ne s.heap same _])
  nextId := holds.nextId

/-- A timer is given another time. -/
theorem Holds.put (holds : Holds s l) (here : s.heap.cell p = some te) {te' : aeTimeEvent} (own : te'.id = te.id)
    (link : te'.next = te.next) (small : te'.when_ms < 1000) : Holds { s with heap := s.heap.put p (some te') } l := by
  apply holds.update here own small (List.Sublist.refl l)
  apply holds.links.congr
  intro q _
  by_cases same : q = p
  · subst same
    rw [CellHeap.next_put_self, CellHeap.next_of_cell _ here, link]
  · exact CellHeap.next_put_of_ne _ s.heap same _

/-! ## Deletion -/

/-- One timer less, and none that is new. -/
theorem Holds.without (holds : Holds s (front ++ id :: back)) (nextId : s'.timeEventNextId = s.timeEventNextId) :
    Members s (front ++ id :: back) s' (front ++ back) [id] where
  onward := Int.le_of_eq nextId.symm
  members p := by
    have once := List.nodup_middle.mp holds.nodup
    rw [nextId, List.mem_singleton, List.perm_middle.mem_iff, List.mem_cons]
    constructor
    · intro member
      exact ⟨.inl (.inr member), fun same => (List.nodup_cons.mp once).1 (same ▸ member)⟩
    · rintro ⟨(same | member) | between, other⟩
      · exact absurd same other
      · exact member
      · omega
  given := by
    rw [nextId]
    exact List.forall_mem_singleton.mpr (holds.id_of_mem (List.mem_append_right front List.mem_cons_self)).2

/-- A timer is taken out of the list, and is still in memory. -/
theorem Holds.relink (holds : Holds s (front ++ id :: back)) (here : s.heap.cell id = some te) :
    ∃ s', s.relink front.getLast? te.next = .ok s' ∧ Holds s' (front ++ back) ∧
      Changes s (front ++ id :: back) s' (front ++ back) [id] ∧ s'.heap.cell id = some te ∧ s'.events = s.events := by
  have smaller : (front ++ back).Sublist (front ++ id :: back) :=
    (List.Sublist.refl front).append (List.sublist_cons_self id back)
  have link : s.heap.next aeTimeEvent.next id = te.next := CellHeap.next_of_cell _ here
  rcases List.eq_nil_or_concat' front with rfl | ⟨front, q, rfl⟩
  · have rest := holds.links.2
    rw [link] at rest
    exact ⟨_, rfl, ⟨fun p member => holds.cells p (smaller.subset member), rest, holds.nodup.sublist smaller, holds.ids,
      holds.nextId⟩, ⟨holds.without rfl, fun p _ _ => rfl, fun p _ _ te here => ⟨te, here, rfl⟩⟩, here, rfl⟩
  · have inside : q ∈ front ++ [q] ++ id :: back := List.mem_append_left _ List.mem_concat_self
    obtain ⟨before, here', own, small⟩ := holds.cells q inside
    have apart : id ≠ q := by
      rintro rfl
      exact (List.nodup_append'.mp holds.nodup).2.2 List.mem_concat_self List.mem_cons_self
    have run : s.relink (front ++ [q]).getLast? te.next =
        .ok { s with heap := s.heap.put q (some { before with next := te.next }) } := by
      rw [List.getLast?_concat, TimeEvents.relink, CellHeap.modify_some here', ok_bind]
      rfl
    have kept (p : Int) (other : p ≠ q) : (s.heap.put q (some { before with next := te.next })).cell p = s.heap.cell p :=
      CellHeap.cell_put_of_ne _ other _
    refine ⟨_, run, holds.update here' rfl small smaller ?_, ⟨holds.without rfl, ?_, ?_⟩, (kept id apart).trans here, rfl⟩
    · have links := holds.links
      have distinct := holds.nodup
      rw [List.append_assoc, List.singleton_append] at links distinct
      rw [CellHeap.next_put, List.append_assoc, List.singleton_append, ← link]
      exact links.unlink distinct
    · intro p _ out
      exact kept p (ne_of_mem_of_not_mem inside out).symm
    · intro p _ _ te' found
      by_cases last : p = q
      · subst last
        obtain rfl := Option.some.inj (here'.symm.trans found)
        exact ⟨_, CellHeap.cell_put_self _ _ _, rfl⟩
      · exact ⟨te', (kept p last).trans found, rfl⟩

theorem Holds.free (holds : Holds s l) (outside : p ∉ l) : Holds { s with heap := s.heap.put p none } l where
  cells q member := by
    obtain ⟨te, here, rest⟩ := holds.cells q member
    exact ⟨te, (CellHeap.cell_put_of_ne _ (ne_of_mem_of_not_mem member outside) none).trans here, rest⟩
  links := holds.links.congr fun q member =>
    CellHeap.next_put_of_ne _ s.heap (ne_of_mem_of_not_mem member outside) none
  nodup := holds.nodup
  ids q allocated := by
    apply holds.ids q
    by_cases same : q = p
    · subst same
      rw [CellHeap.cell_put_self] at allocated
      cases allocated
    · rwa [← CellHeap.cell_put_of_ne s.heap same none]
  nextId := holds.nextId

/-- A timer that has been taken out of the list is freed. -/
theorem Changes.free (change : Changes s l s' l' gone) (member : p ∈ l) (outside : p ∉ l') :
    Changes s l { s' with heap := s'.heap.put p none } l' gone where
  onward := change.onward
  members := change.members
  given := change.given
  outside q given apart :=
    (CellHeap.cell_put_of_ne _ (ne_of_mem_of_not_mem member apart).symm none).trans (change.outside q given apart)
  times q old new te here := by
    obtain ⟨te', here', same⟩ := change.times q old new te here
    exact ⟨te', (CellHeap.cell_put_of_ne _ (ne_of_mem_of_not_mem new outside) none).trans here', same⟩

/-- After calls of the functions the list is whole again, and the timers that are gone are freed. -/
structure Done (s : TimeEvents) (l : List Int) (s' : TimeEvents) (l' gone : List Int) : Prop where
  holds : Holds s' l'
  changes : Changes s l s' l' gone
  freed : ∀ p ∈ gone, s'.heap.cell p = none

/-- `f` returns on every list, and logs what it deletes. -/
def Behaves (f : TimeEvents → Except Stop TimeEvents) : Prop :=
  ∀ s l, Holds s l → ∃ s' l' gone, f s = .ok s' ∧ Done s l s' l' gone ∧ s'.events = s.events ++ gone.map .deleted

theorem Done.refl (holds : Holds s l) : Done s l s l [] where
  holds := holds
  changes := .refl s l
  freed := List.forall_mem_nil _

theorem Done.trans (holds : Holds s l) (first : Done s l s' l' gone) (second : Done s' l' s'' l'' gone') :
    Done s l s'' l'' (gone ++ gone') where
  holds := second.holds
  changes := first.changes.trans holds second.changes
  freed p member := by
    rcases List.mem_append.mp member with before | after
    · have outside : p ∉ l' := fun inside => ((first.changes.members p).mp inside).2 before
      exact (second.changes.outside p (first.changes.given p before) outside).trans (first.freed p before)
    · exact second.freed p after

theorem Done.log (done : Done s l s' l' gone) (events : List Event) : Done s l { s' with events := events } l' gone where
  holds := done.holds.congr rfl rfl rfl
  changes := ⟨⟨done.changes.onward, done.changes.members, done.changes.given⟩, done.changes.outside, done.changes.times⟩
  freed := done.freed

theorem Done.congr (done : Done s l s' l' gone) (same : ∀ p, p ∈ gone' ↔ p ∈ gone) : Done s l s' l' gone' where
  holds := done.holds
  changes := { done.changes with toMembers := done.changes.toMembers.congr same }
  freed p member := done.freed p ((same p).mp member)

variable {finalizer : TimeEvents → Except Stop TimeEvents}

theorem finalize_behaves (behaves : Behaves finalizer) (te : aeTimeEvent) : Behaves (te.finalize finalizer) := by
  intro s l holds
  unfold aeTimeEvent.finalize
  cases te.finalizerProc with
  | false => exact ⟨s, l, [], rfl, .refl holds, (List.append_nil _).symm⟩
  | true => exact behaves s l holds

/-- The timer is out of the list before its finalizer runs, and in memory until it has run. -/
theorem remove_spec (behaves : Behaves finalizer) (holds : Holds s (front ++ id :: back))
    (here : s.heap.cell id = some te) :
    ∃ s' l' gone, aeDeleteTimeEvent.remove finalizer s front.getLast? te id = .ok s' ∧
      Done s (front ++ id :: back) s' l' (id :: gone) ∧ s'.events = s.events ++ gone.map .deleted := by
  obtain ⟨s₁, relinked, holds₁, changes₁, kept, events₁⟩ := holds.relink here
  obtain ⟨s₂, l₂, gone, ran, done, events₂⟩ := finalize_behaves behaves te s₁ (front ++ back) holds₁
  have changes := changes₁.trans holds done.changes
  have inside : id ∈ front ++ id :: back := List.mem_append_right front List.mem_cons_self
  have before : id ∉ front ++ back := fun member => ((changes₁.members id).mp member).2 List.mem_cons_self
  have after : id ∉ l₂ := fun member => ((changes.members id).mp member).2 List.mem_cons_self
  have unfreed : s₂.heap.cell id = some te :=
    (done.changes.outside id (changes₁.given id List.mem_cons_self) before).trans kept
  refine ⟨{ s₂ with heap := s₂.heap.put id none }, l₂, gone, ?_, ⟨done.holds.free after, changes.free inside after, ?_⟩, ?_⟩
  · rw [aeDeleteTimeEvent.remove, relinked, ok_bind, ran, ok_bind, CellHeap.free_some unfreed, ok_bind]
    rfl
  · refine List.forall_mem_cons.mpr ⟨CellHeap.cell_put_self _ _ _, fun p member => ?_⟩
    have apart : p ≠ id := by
      rintro rfl
      rw [done.freed p member] at unfreed
      cases unfreed
    exact (CellHeap.cell_put_of_ne _ apart none).trans (done.freed p member)
  · rw [events₂, events₁]

variable (front) in
/-- The loop has come to `back`, behind the timers `front`. -/
theorem loop_found (behaves : Behaves finalizer) (member : id ∈ back) {fuel : Nat} (enough : back.length < fuel)
    (holds : Holds s (front ++ back)) :
    ∃ s' l' gone, aeDeleteTimeEvent.loop finalizer s id fuel front.getLast? back.head? = .ok (s', AE_OK) ∧
      Done s (front ++ back) s' l' (id :: gone) ∧ s'.events = s.events ++ gone.map .deleted := by
  induction back generalizing front fuel with
  | nil => cases member
  | cons p back ih =>
    obtain ⟨fuel, rfl⟩ := Nat.exists_eq_add_one_of_ne_zero (Nat.ne_zero_of_lt enough)
    obtain ⟨te, here, own, -⟩ := holds.cells p (List.mem_append_right front List.mem_cons_self)
    rw [List.head?_cons, aeDeleteTimeEvent.loop, CellHeap.load_some here, ok_bind]
    by_cases found : p = id
    · subst found
      obtain ⟨s', l', gone, ran, done, events⟩ := remove_spec behaves holds here
      refine ⟨s', l', gone, ?_, done, events⟩
      rw [if_pos own, ran, ok_bind]
      rfl
    · have later := (List.mem_cons.mp member).resolve_left fun same => found same.symm
      rw [if_neg (own ▸ found), holds.next_head here, ← List.getLast?_concat (l := front),
        List.append_cons front p back]
      rw [List.append_cons] at holds
      exact ih (front ++ [p]) later (Nat.lt_of_succ_lt_succ enough) holds

variable (front) in
theorem loop_absent (absent : id ∉ back) {fuel : Nat} (enough : back.length < fuel) (holds : Holds s (front ++ back)) :
    aeDeleteTimeEvent.loop finalizer s id fuel front.getLast? back.head? = .ok (s, AE_ERR) := by
  induction back generalizing front fuel with
  | nil =>
    obtain ⟨fuel, rfl⟩ := Nat.exists_eq_add_one_of_ne_zero (Nat.ne_zero_of_lt enough)
    rfl
  | cons p back ih =>
    obtain ⟨fuel, rfl⟩ := Nat.exists_eq_add_one_of_ne_zero (Nat.ne_zero_of_lt enough)
    obtain ⟨te, here, own, -⟩ := holds.cells p (List.mem_append_right front List.mem_cons_self)
    have other : te.id ≠ id := own ▸ fun same => absent (List.mem_cons.mpr (.inl same.symm))
    rw [List.head?_cons, aeDeleteTimeEvent.loop, CellHeap.load_some here, ok_bind, if_neg other, holds.next_head here,
      ← List.getLast?_concat (l := front)]
    rw [List.append_cons] at holds
    exact ih (front ++ [p]) (fun member => absent (List.mem_cons_of_mem p member)) (Nat.lt_of_succ_lt_succ enough) holds

theorem aeDeleteTimeEvent_found (behaves : Behaves finalizer) (holds : Holds s l) (member : id ∈ l) :
    ∃ s' l' gone, aeDeleteTimeEvent finalizer s id = .ok (s', AE_OK) ∧ Done s l s' l' (id :: gone) ∧
      s'.events = s.events ++ gone.map .deleted := by
  rw [aeDeleteTimeEvent, holds.head]
  exact loop_found [] behaves member holds.length_lt_turns holds

theorem aeDeleteTimeEvent_absent (holds : Holds s l) (absent : id ∉ l) :
    aeDeleteTimeEvent finalizer s id = .ok (s, AE_ERR) := by
  rw [aeDeleteTimeEvent, holds.head]
  exact loop_absent [] absent holds.length_lt_turns holds

/-! ## Callbacks -/

mutual

/-- Whatever a callback does, it returns, and leaves a list of timers. -/
theorem exec_behaves : ∀ action : Action, Behaves action.exec
  | .aeCreateTimeEvent milliseconds finalizerProc now, s, l, holds => by
    obtain ⟨holds', changes⟩ := holds.aeCreateTimeEvent milliseconds finalizerProc now
    refine ⟨_, _, [], by rw [Action.exec], ⟨holds', changes, List.forall_mem_nil _⟩, (List.append_nil _).symm⟩
  | .aeDeleteTimeEvent id finalizer, s, l, holds => by
    rw [Action.exec]
    by_cases member : id ∈ l
    · obtain ⟨s', l', gone, ran, done, events⟩ := aeDeleteTimeEvent_found (execAll_behaves finalizer) holds member
      rw [ran, ok_bind]
      dsimp only
      refine ⟨_, l', gone ++ [id], rfl, (done.log _).congr fun p => ?_, ?_⟩
      · rw [List.mem_append, List.mem_singleton, List.mem_cons, or_comm]
      · rw [List.map_append, ← List.append_assoc, ← events]
        rfl
    · rw [aeDeleteTimeEvent_absent holds member, ok_bind]
      exact ⟨s, l, [], rfl, .refl holds, (List.append_nil _).symm⟩

theorem execAll_behaves : ∀ actions : List Action, Behaves (execAll actions)
  | [], s, l, holds => ⟨s, l, [], by rw [execAll], .refl holds, (List.append_nil _).symm⟩
  | action :: actions, s, l, holds => by
    obtain ⟨s', l', gone, ran, done, events⟩ := exec_behaves action s l holds
    obtain ⟨s'', l'', gone', ran', done', events'⟩ := execAll_behaves actions s' l' done.holds
    refine ⟨s'', l'', gone ++ gone', ?_, done.trans holds done', ?_⟩
    · rw [execAll, ran, ok_bind, ran']
    · rw [events', events, List.map_append, List.append_assoc]

end

end CodeClips.Ae
