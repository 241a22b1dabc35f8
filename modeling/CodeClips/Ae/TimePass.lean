import CodeClips.Ae.TimeEvents
import CodeClips.Lib.Turns

/-!
# One pass over the timers

`processTimeEvents` walks the list and calls the timers that are due; a callback may change the list,
and the walk then starts from the head again. `Turn` is what one turn takes from outside: the clock, and
what a callback does.
-/

namespace CodeClips.Ae

def AE_NOMORE : Int := -1

def INT_MAX : Int := 2147483647

/-- What happens in a turn of the loop: the clock when the timer is looked at and when it is moved to
another time, and what the `timeProc` and the `finalizerProc` do, if they are called. -/
structure Turn where
  now : Clock
  callback : List Action
  retval : Int
  again : Clock
  finalizer : List Action

/-- The loop of `processTimeEvents` with its variables. -/
structure Pass where
  eventLoop : TimeEvents
  te : Option Int
  maxId : Int
  processed : Int

/-- The loop that forces all timers to be due. -/
def TimeEvents.force : TimeEvents → Nat → Option Int → Except Stop TimeEvents
  | s, _, none => .ok s
  | _, 0, some _ => .error .running
  | s, fuel + 1, some p => do
    let heap ← s.heap.modify (some p) fun te => { te with when_sec := 0 }
    let te ← heap.load (some p)
    TimeEvents.force { s with heap := heap } fuel te.next

/-- The system clock has been set back. -/
def TimeEvents.detectSkew (s : TimeEvents) (now : Int) : Except Stop TimeEvents :=
  if now < s.lastTime then s.force s.turns s.timeEventHead else .ok s

/-- What comes before the loop; the pass has logged nothing. -/
def processTimeEvents.start (s : TimeEvents) (now : Int) : Except Stop Pass := do
  let s ← s.detectSkew now
  return { eventLoop := { s with lastTime := now, events := [] }, te := s.timeEventHead,
           maxId := s.timeEventNextId - 1, processed := 0 }

/-- The time `now` has come to the time `due`. -/
def Reached (now due : Int × Int) : Prop := now.1 > due.1 ∨ now.1 = due.1 ∧ now.2 ≥ due.2

instance (now due : Int × Int) : Decidable (Reached now due) := inferInstanceAs (Decidable (_ ∨ _))

/-- The timer is moved to another time. -/
def TimeEvents.move (s : TimeEvents) (p id : Int) (due : Int × Int) : Except Stop TimeEvents := do
  let heap ← s.heap.modify (some p) fun te => { te with when_sec := due.1, when_ms := due.2 }
  return { s with heap := heap, events := s.events ++ [.called id (some due)] }

/-- What follows on the return of the `timeProc`. -/
def TimeEvents.settle (s : TimeEvents) (turn : Turn) (p id : Int) : Except Stop TimeEvents :=
  if turn.retval ≠ AE_NOMORE then s.move p id (aeAddMillisecondsToNow turn.retval turn.again)
  else do
    let (s, _) ← aeDeleteTimeEvent (execAll turn.finalizer) { s with events := s.events ++ [.called id none] } id
    return s

/-- The timer is called; the count of calls is an `int`. -/
def processTimeEvents.fire (turn : Turn) (x : Pass) (p id : Int) : Except Stop Pass := do
  let s ← execAll turn.callback x.eventLoop
  if x.processed < INT_MAX then
    let s ← s.settle turn p id
    return { x with eventLoop := s, te := s.timeEventHead, processed := x.processed + 1 }
  else .error .outside

/-- The body of the loop, while there is a timer. -/
def processTimeEvents.body (turn : Turn) (x : Pass) : Except Stop Pass :=
  match x.te with
  | none => .ok x
  | some p => do
    let te ← x.eventLoop.heap.load (some p)
    if te.id > x.maxId then return { x with te := te.next }
    else if Reached (aeGetTime turn.now) te.due then processTimeEvents.fire turn x p te.id
    else return { x with te := te.next }

/-- The pass after a number of turns. -/
def processTimeEvents (s : TimeEvents) (now : Int) (env : Nat → Turn) (n : Nat) : Except Stop Pass := do
  let x ← processTimeEvents.start s now
  turns processTimeEvents.body env x n

/-- The states of an event loop to which timers are added, from which they are deleted, and which
makes passes over them. -/
inductive Reachable : TimeEvents → Prop where
  | init (time : Int) : Reachable (.init time)
  | exec {s s' : TimeEvents} (action : Action) (before : Reachable s) (ran : action.exec s = .ok s') : Reachable s'
  | pass {s : TimeEvents} {now : Int} {env : Nat → Turn} {n : Nat} {x : Pass} (before : Reachable s)
      (ran : processTimeEvents s now env n = .ok x) : Reachable x.eventLoop

/-! ## What a pass has to do -/

/-- The timer that has been called. -/
def Event.callee : Event → Option Int
  | .called id _ => some id
  | .deleted _ => none

/-- The timer that has been deleted, or has been called and is finished. -/
def Event.lost : Event → Option Int
  | .deleted id | .called id none => some id
  | .called _ (some _) => none

/-- When the pass over the timers of `s` is over, no timer has been called twice and none that has been
created in the pass, and the timers are those that have been neither deleted nor finished. -/
structure Fine (s : TimeEvents) (x : Pass) : Prop where
  once : (x.eventLoop.events.filterMap Event.callee).Nodup
  old : ∀ id ∈ x.eventLoop.events.filterMap Event.callee, id ∈ s.timers
  kept : ∀ id, id ∈ x.eventLoop.timers ↔
    (id ∈ s.timers ∨ s.timeEventNextId ≤ id ∧ id < x.eventLoop.timeEventNextId) ∧
      id ∉ x.eventLoop.events.filterMap Event.lost

/-- The pass comes to its end, without an access to a timer that has been freed, and all is fine. -/
def Safe (s : TimeEvents) (now : Int) (env : Nat → Turn) : Prop :=
  ∃ n x, processTimeEvents s now env n = .ok x ∧ x.te = none ∧ Fine s x

/-- The callback does not delete its own timer. -/
def Turn.Leaves (turn : Turn) (s : TimeEvents) (id : Int) : Prop :=
  ∀ s', execAll turn.callback s = .ok s' → (s'.heap.cell id).isSome

/-- The calls can be counted, and a callback that deletes its own timer returns `AE_NOMORE`. -/
def Calls (x : Pass) (turn : Turn) (id : Int) : Prop :=
  x.processed < INT_MAX ∧ (turn.retval ≠ AE_NOMORE → turn.Leaves x.eventLoop id)

/-- A timer that the pass has moved to another time is not looked at when that time has come. -/
def Meets (x : Pass) (turn : Turn) : Prop :=
  ∀ p te, x.te = some p → x.eventLoop.heap.cell p = some te → te.id ≤ x.maxId →
    (∀ due, .called te.id (some due) ∈ x.eventLoop.events → ¬ Reached (aeGetTime turn.now) due) ∧
    (Reached (aeGetTime turn.now) te.due → Calls x turn te.id)

variable {s s' s₁ : TimeEvents} {l l' l₁ gone front back : List Int} {p id : Int} {te : aeTimeEvent} {x x' : Pass}
  {turn : Turn} {now : Int} {env : Nat → Turn} {n : Nat}

/-! ## The start of a pass -/

variable (front) in
theorem force_spec {fuel : Nat} (enough : back.length ≤ fuel) (holds : Holds s (front ++ back)) :
    ∃ s', s.force fuel back.head? = .ok s' ∧ Holds s' (front ++ back) ∧ s'.timeEventNextId = s.timeEventNextId := by
  induction back generalizing s front fuel with
  | nil => exact ⟨s, by rw [List.head?_nil, TimeEvents.force], holds, rfl⟩
  | cons p back ih =>
    obtain ⟨fuel, rfl⟩ := Nat.exists_eq_add_one_of_ne_zero (Nat.ne_zero_of_lt enough)
    obtain ⟨te, here, own, small⟩ := holds.cells p (List.mem_append_right front List.mem_cons_self)
    have holds' : Holds { s with heap := s.heap.put p (some { te with when_sec := 0 }) } (front ++ p :: back) :=
      holds.put here rfl rfl small
    rw [List.append_cons] at holds'
    obtain ⟨s', ran, holds'', nextId⟩ := ih (front ++ [p]) (Nat.le_of_succ_le_succ enough) holds'
    refine ⟨s', ?_, List.append_cons front p back ▸ holds'', nextId⟩
    rw [List.head?_cons, TimeEvents.force, CellHeap.modify_some here, ok_bind,
      CellHeap.load_some (CellHeap.cell_put_self ..), ok_bind, ← ran, ← holds.next_head here]

theorem detectSkew_spec (holds : Holds s l) (now : Int) :
    ∃ s', s.detectSkew now = .ok s' ∧ Holds s' l ∧ s'.timeEventNextId = s.timeEventNextId := by
  unfold TimeEvents.detectSkew
  split_ifs
  · rw [holds.head]
    exact force_spec [] (Nat.le_of_lt holds.length_lt_turns) holds
  · exact ⟨s, rfl, holds, rfl⟩

theorem start_spec (holds : Holds s l) (now : Int) :
    ∃ x, processTimeEvents.start s now = .ok x ∧ Holds x.eventLoop l ∧ x.eventLoop.timeEventNextId = s.timeEventNextId ∧
      x.eventLoop.events = [] ∧ x.te = l.head? ∧ x.maxId = s.timeEventNextId - 1 := by
  obtain ⟨s', ran, holds', nextId⟩ := detectSkew_spec holds now
  refine ⟨_, by rw [processTimeEvents.start, ran, ok_bind]; rfl, ?_, nextId, rfl, holds'.head, congrArg (· - 1) nextId⟩
  exact holds'.congr rfl rfl rfl

/-! ## A call of a timer -/

theorem lost_deleted (gone : List Int) : (gone.map Event.deleted).filterMap Event.lost = gone := by
  induction gone with
  | nil => rfl
  | cons p gone ih => exact congrArg (p :: ·) ih

theorem callee_deleted (gone : List Int) : (gone.map Event.deleted).filterMap Event.callee = [] := by
  induction gone with
  | nil => rfl
  | cons p gone ih => exact ih

theorem mem_callee {events : List Event} : p ∈ events.filterMap Event.callee ↔ ∃ moved, .called p moved ∈ events := by
  rw [List.mem_filterMap]
  constructor
  · rintro ⟨event, logged, same⟩
    cases event with
    | deleted => cases same
    | called id moved =>
      obtain rfl := Option.some.inj same
      exact ⟨moved, logged⟩
  · rintro ⟨moved, logged⟩
    exact ⟨_, logged, rfl⟩

/-- What a call of the timer `id` does to the list, with all that follows on it: only that timer may
have another time than before. -/
structure Fired (s : TimeEvents) (l : List Int) (id : Int) (s' : TimeEvents) (l' gone : List Int) (added : List Event) :
    Prop extends Members s l s' l' gone where
  holds : Holds s' l'
  times : ∀ p ∈ l, p ∈ l' → p ≠ id → ∀ te, s.heap.cell p = some te → ∃ te', s'.heap.cell p = some te' ∧ te'.due = te.due
  moved : ∀ p due, .called p (some due) ∈ added → ∃ te, s'.heap.cell p = some te ∧ te.due = due
  events : s'.events = s.events ++ added
  lost : ∀ p, p ∈ added.filterMap Event.lost ↔ p ∈ gone
  callee : added.filterMap Event.callee = [id]

/-- The timer is still there when its callback has returned, and is moved. -/
theorem settle_moves (done : Done s l s₁ l₁ gone) (logged : s₁.events = s.events ++ gone.map .deleted) (member : id ∈ l₁)
    (again : turn.retval ≠ AE_NOMORE) :
    ∃ s' l' gone' added, s₁.settle turn id id = .ok s' ∧ Fired s l id s' l' gone' added := by
  obtain ⟨te, here, own, -⟩ := done.holds.cells id member
  generalize soon : aeAddMillisecondsToNow turn.retval turn.again = due
  have small : due.2 < 1000 := soon ▸ aeAddMillisecondsToNow_ms turn.retval turn.again
  refine ⟨_, l₁, gone, gone.map .deleted ++ [.called id (some due)],
    by rw [TimeEvents.settle, if_pos again, TimeEvents.move, CellHeap.modify_some here, ok_bind, soon]; rfl, ?_⟩
  have self := CellHeap.cell_put_self s₁.heap id (some { te with when_sec := due.1, when_ms := due.2 })
  have holds : Holds { s₁ with heap := s₁.heap.put id (some { te with when_sec := due.1, when_ms := due.2 }) } l₁ :=
    done.holds.put here rfl rfl small
  constructor
  · exact ⟨done.changes.onward, done.changes.members, done.changes.given⟩
  · exact holds.congr rfl rfl rfl
  · intro p old kept other te' here'
    obtain ⟨te'', here'', same⟩ := done.changes.times p old kept te' here'
    exact ⟨te'', (CellHeap.cell_put_of_ne _ other _).trans here'', same⟩
  · intro p due' called
    rcases List.mem_append.mp called with deleted | last
    · obtain ⟨q, -, same⟩ := List.mem_map.mp deleted
      cases same
    · cases List.mem_singleton.mp last
      exact ⟨_, self, rfl⟩
  · show s₁.events ++ _ = _
    rw [logged, List.append_assoc]
  · intro p
    rw [List.filterMap_append, lost_deleted]
    exact Iff.of_eq (congrArg (p ∈ ·) (List.append_nil gone))
  · rw [List.filterMap_append, callee_deleted]
    rfl

theorem settle_fails (freed : s₁.heap.cell p = none) (again : turn.retval ≠ AE_NOMORE) :
    s₁.settle turn p id = .error .freed := by
  rw [TimeEvents.settle, if_pos again, TimeEvents.move, CellHeap.modify, freed]
  rfl

theorem not_moved {due : Int × Int} (gone gone' : List Int) :
    .called p (some due) ∉ gone.map Event.deleted ++ .called id none :: gone'.map Event.deleted := by
  intro called
  rcases List.mem_append.mp called with deleted | later
  · obtain ⟨q, -, same⟩ := List.mem_map.mp deleted
    cases same
  · rcases List.mem_cons.mp later with same | deleted
    · cases same
    · obtain ⟨q, -, same⟩ := List.mem_map.mp deleted
      cases same

/-- The timer has returned `AE_NOMORE`, and all that is gone is gone. -/
theorem Done.fired {gone' : List Int} (done : Done s l s' l' (gone ++ id :: gone'))
    (logged : s'.events = s.events ++ (gone.map .deleted ++ .called id none :: gone'.map .deleted)) :
    Fired s l id s' l' (gone ++ id :: gone') (gone.map .deleted ++ .called id none :: gone'.map .deleted) where
  toMembers := done.changes.toMembers
  holds := done.holds
  times p old kept _ te here := done.changes.times p old kept te here
  moved p due called := absurd called (not_moved gone gone')
  events := logged
  lost p := by
    rw [List.filterMap_append, lost_deleted]
    show p ∈ gone ++ id :: (gone'.map Event.deleted).filterMap Event.lost ↔ _
    rw [lost_deleted]
  callee := by
    rw [List.filterMap_append, callee_deleted]
    exact congrArg (id :: ·) (callee_deleted gone')

/-- The timer is deleted, if its callback has not done so. -/
theorem settle_finishes (holds : Holds s l) (member : id ∈ l) (done : Done s l s₁ l₁ gone)
    (logged : s₁.events = s.events ++ gone.map .deleted) (finished : turn.retval = AE_NOMORE) :
    ∃ s' l' gone' added, s₁.settle turn id id = .ok s' ∧ Fired s l id s' l' gone' added := by
  have done₁ := done.log (s₁.events ++ [.called id none])
  rw [TimeEvents.settle, if_neg (not_not_intro finished)]
  by_cases left : id ∈ l₁
  · obtain ⟨s', l', gone', ran, done', events⟩ := aeDeleteTimeEvent_found (execAll_behaves turn.finalizer) done₁.holds left
    refine ⟨s', l', _, _, by rw [ran]; rfl, (done₁.trans holds done').fired ?_⟩
    rw [events]
    show s₁.events ++ _ ++ _ = _
    rw [logged]
    simp only [List.append_assoc, List.singleton_append]
  · have deleted : id ∈ gone := by
      by_contra kept
      exact left ((done.changes.members id).mpr ⟨.inl member, kept⟩)
    have same (p : Int) : p ∈ gone ++ id :: [] ↔ p ∈ gone := by
      rw [List.mem_append, List.mem_singleton, or_iff_left_iff_imp]
      rintro rfl
      exact deleted
    refine ⟨_, l₁, _, _, by rw [aeDeleteTimeEvent_absent done₁.holds left]; rfl, (done₁.congr same).fired ?_⟩
    show s₁.events ++ _ = _
    rw [logged, List.append_assoc]
    rfl

theorem fire_ok (holds : Holds x.eventLoop l) (member : id ∈ l) (calls : Calls x turn id) :
    ∃ s' l' gone added,
      processTimeEvents.fire turn x id id =
        .ok { x with eventLoop := s', te := s'.timeEventHead, processed := x.processed + 1 } ∧
      Fired x.eventLoop l id s' l' gone added := by
  obtain ⟨s₁, l₁, gone, ran, done, logged⟩ := execAll_behaves turn.callback x.eventLoop l holds
  have settles : ∃ s' l' gone' added, s₁.settle turn id id = .ok s' ∧ Fired x.eventLoop l id s' l' gone' added := by
    by_cases finished : turn.retval = AE_NOMORE
    · exact settle_finishes holds member done logged finished
    · have there := calls.2 finished s₁ ran
      have kept : id ∉ gone := by
        intro deleted
        rw [done.freed id deleted] at there
        cases there
      exact settle_moves done logged ((done.changes.members id).mpr ⟨.inl member, kept⟩) finished
  obtain ⟨s', l', gone', added, settled, fired⟩ := settles
  refine ⟨s', l', gone', added, ?_, fired⟩
  rw [processTimeEvents.fire, ran, ok_bind, if_pos calls.1, settled]
  rfl

theorem fire_fails (holds : Holds x.eventLoop l) (fails : ¬ Calls x turn id) :
    ∃ e, processTimeEvents.fire turn x id id = .error e := by
  obtain ⟨s₁, l₁, gone, ran, -⟩ := execAll_behaves turn.callback x.eventLoop l holds
  rw [processTimeEvents.fire, ran, ok_bind]
  split_ifs with few
  · obtain ⟨again, deletes⟩ := Classical.not_imp.mp fun leaves => fails ⟨few, leaves⟩
    obtain ⟨s', both⟩ := not_forall.mp deletes
    obtain ⟨ran', freed⟩ := Classical.not_imp.mp both
    obtain rfl := Except.ok.inj (ran.symm.trans ran')
    rw [settle_fails (Option.not_isSome_iff_eq_none.mp freed) again]
    exact ⟨.freed, rfl⟩
  · exact ⟨.outside, rfl⟩

/-! ## A turn -/

theorem body_ended (turn : Turn) (x : Pass) (ended : x.te = none) : processTimeEvents.body turn x = .ok x := by
  rw [processTimeEvents.body, ended]

theorem body_eq (holds : Holds x.eventLoop (front ++ p :: back)) (place : x.te = some p)
    (here : x.eventLoop.heap.cell p = some te) :
    processTimeEvents.body turn x =
      if p ≤ x.maxId ∧ Reached (aeGetTime turn.now) te.due then processTimeEvents.fire turn x p p
      else .ok { x with te := back.head? } := by
  obtain ⟨te', here', own, -⟩ := holds.cells p (List.mem_append_right front List.mem_cons_self)
  obtain rfl := Option.some.inj (here.symm.trans here')
  rw [processTimeEvents.body, place]
  dsimp only
  rw [CellHeap.load_some here, ok_bind, own, holds.next_head here]
  by_cases late : p > x.maxId
  · rw [if_pos late, if_neg fun both => Int.not_le.mpr late both.1]
    rfl
  · rw [if_neg late]
    exact if_congr (and_iff_right (Int.not_lt.mp late)).symm rfl rfl

/-- The walk is at a place in a list. -/
def Valid (x : Pass) : Prop := ∃ front back, Holds x.eventLoop (front ++ back) ∧ x.te = back.head?

theorem Valid.body (valid : Valid x) (ran : processTimeEvents.body turn x = .ok x') :
    Valid x' ∧ ∃ added, x'.eventLoop.events = x.eventLoop.events ++ added := by
  obtain ⟨front, back, holds, place⟩ := valid
  cases back with
  | nil =>
    rw [processTimeEvents.body, place] at ran
    obtain rfl := Except.ok.inj ran
    exact ⟨⟨front, [], holds, place⟩, [], (List.append_nil _).symm⟩
  | cons p back =>
    have inside : p ∈ front ++ p :: back := List.mem_append_right front List.mem_cons_self
    obtain ⟨te, here, -⟩ := holds.cells p inside
    rw [body_eq holds place here] at ran
    split_ifs at ran
    · have calls : Calls x turn p := by
        by_contra fails
        obtain ⟨e, failed⟩ := fire_fails holds fails
        cases failed.symm.trans ran
      obtain ⟨s', l', gone, added, fired, rest⟩ := fire_ok holds inside calls
      obtain rfl := Except.ok.inj (fired.symm.trans ran)
      exact ⟨⟨[], l', rest.holds, rest.holds.head⟩, added, rest.events⟩
    · obtain rfl := Except.ok.inj ran
      exact ⟨⟨front ++ [p], back, by rwa [← List.append_cons], rfl⟩, [], (List.append_nil _).symm⟩

/-! ## The whole pass -/

/-- What holds in the pass over the timers `l` of `s`, while it meets the condition. -/
structure Passing (s : TimeEvents) (l : List Int) (s' : TimeEvents) (l' : List Int) : Prop where
  holds : Holds s' l'
  members : Members s l s' l' (s'.events.filterMap Event.lost)
  moved : ∀ p due, .called p (some due) ∈ s'.events → p ∈ l' → ∃ te, s'.heap.cell p = some te ∧ te.due = due
  once : (s'.events.filterMap Event.callee).Nodup
  old : ∀ p ∈ s'.events.filterMap Event.callee, p ∈ l

variable {s'' : TimeEvents} {l'' : List Int} {added : List Event}

/-- A timer that has not been called yet is called. -/
theorem Passing.fire (passing : Passing s l s' l') (first : Holds s l) (fired : Fired s' l' id s'' l'' gone added)
    (member : id ∈ l) (uncalled : id ∉ s'.events.filterMap Event.callee) : Passing s l s'' l'' where
  holds := fired.holds
  members := by
    refine (passing.members.trans first fired.toMembers).congr fun p => ?_
    rw [fired.events, List.filterMap_append, List.mem_append, List.mem_append, fired.lost]
  moved p due called kept := by
    rw [fired.events] at called
    rcases List.mem_append.mp called with before | now
    · have callee := mem_callee.mpr ⟨_, before⟩
      have between := passing.members.mem_of_mem first fired.toMembers (passing.old p callee) kept
      obtain ⟨te, here, time⟩ := passing.moved p due before between
      obtain ⟨te', here', same⟩ := fired.times p between kept (ne_of_mem_of_not_mem callee uncalled) te here
      exact ⟨te', here', same.trans time⟩
    · exact fired.moved p due now
  once := by
    rw [fired.events, List.filterMap_append, fired.callee, ← List.concat_eq_append]
    exact List.Nodup.concat uncalled passing.once
  old p callee := by
    rw [fired.events, List.filterMap_append, fired.callee] at callee
    rcases List.mem_append.mp callee with before | now
    · exact passing.old p before
    · exact List.mem_singleton.mp now ▸ member

/-- The timers that have not been called yet, and the rest of the walk. -/
def Inv (s : TimeEvents) (l : List Int) (w : Nat × Nat) (x : Pass) : Prop :=
  ∃ front back, Passing s l x.eventLoop (front ++ back) ∧ x.maxId = s.timeEventNextId - 1 ∧ x.te = back.head? ∧
    w = (l.length - (x.eventLoop.events.filterMap Event.callee).length, back.length)

theorem Inv.keeps (first : Holds s l) {w : Nat × Nat} (inv : Inv s l w x) (going : x.te ≠ none) (meets : Meets x turn) :
    ∃ w' x', processTimeEvents.body turn x = .ok x' ∧ Inv s l w' x' ∧ Prod.Lex (· < ·) (· < ·) w' w := by
  obtain ⟨front, back, passing, maxId, place, rfl⟩ := inv
  cases back with
  | nil => exact absurd place going
  | cons p back =>
    have inside : p ∈ front ++ p :: back := List.mem_append_right front List.mem_cons_self
    obtain ⟨te, here, own, -⟩ := passing.holds.cells p inside
    rw [body_eq passing.holds place here]
    split_ifs with due
    · obtain ⟨early, reached⟩ := due
      obtain ⟨notAgain, calls⟩ := meets p te place here (own ▸ early)
      rw [own] at notAgain calls
      have member : p ∈ l := by
        rcases (passing.members.members p).mp inside with ⟨old | new, -⟩
        · exact old
        · omega
      have uncalled : p ∉ x.eventLoop.events.filterMap Event.callee := by
        intro callee
        obtain ⟨_ | due, called⟩ := mem_callee.mp callee
        · exact ((passing.members.members p).mp inside).2 (List.mem_filterMap.mpr ⟨_, called, rfl⟩)
        · obtain ⟨te', here', time⟩ := passing.moved p due called inside
          obtain rfl := Option.some.inj (here.symm.trans here')
          exact notAgain due called (time ▸ reached)
      obtain ⟨s', l', gone, added, ran, fired⟩ := fire_ok passing.holds inside (calls reached)
      have passing' := passing.fire first fired member uncalled
      refine ⟨_, _, ran, ⟨[], l', passing', maxId, fired.holds.head, rfl⟩, Prod.Lex.left _ _ ?_⟩
      have few := (List.subperm_of_subset passing'.once passing'.old).length_le
      dsimp only
      rw [fired.events, List.filterMap_append, fired.callee, List.length_append, List.length_singleton] at few ⊢
      omega
    · exact ⟨_, _, rfl, ⟨front ++ [p], back, by rwa [← List.append_cons], maxId, rfl, rfl⟩,
        Prod.Lex.right _ (Nat.lt_succ_self _)⟩

/-- A timer has been called twice. -/
def Broken (x : Pass) : Prop := Valid x ∧ ¬ (x.eventLoop.events.filterMap Event.callee).Nodup

theorem Broken.body (broken : Broken x) (ran : processTimeEvents.body turn x = .ok x') : Broken x' := by
  obtain ⟨valid, twice⟩ := broken
  obtain ⟨valid', added, events⟩ := valid.body ran
  refine ⟨valid', fun once => twice ?_⟩
  rw [events, List.filterMap_append] at once
  exact once.of_append_left

/-- A turn that does not meet the condition either goes wrong or calls a timer again. -/
theorem Inv.breaks {w : Nat × Nat} (inv : Inv s l w x) (going : x.te ≠ none) (fails : ¬ Meets x turn)
    (ran : processTimeEvents.body turn x = .ok x') : Broken x' := by
  obtain ⟨front, back, passing, maxId, place, rfl⟩ := inv
  refine ⟨(Valid.body ⟨front, back, passing.holds, place⟩ ran).1, fun once => fails ?_⟩
  cases back with
  | nil => exact absurd place going
  | cons p back =>
    have inside : p ∈ front ++ p :: back := List.mem_append_right front List.mem_cons_self
    obtain ⟨te, here, own, -⟩ := passing.holds.cells p inside
    rw [body_eq passing.holds place here] at ran
    intro p' te' place' here' early
    obtain rfl := Option.some.inj (place.symm.trans place')
    obtain rfl := Option.some.inj (here.symm.trans here')
    rw [own] at early ⊢
    by_cases reached : Reached (aeGetTime turn.now) te.due
    · rw [if_pos ⟨early, reached⟩] at ran
      have calls : Calls x turn p := by
        by_contra fails
        obtain ⟨e, failed⟩ := fire_fails passing.holds fails
        cases failed.symm.trans ran
      obtain ⟨s', l', gone, added, fired, rest⟩ := fire_ok passing.holds inside calls
      obtain rfl := Except.ok.inj (fired.symm.trans ran)
      rw [rest.events, List.filterMap_append, rest.callee] at once
      refine ⟨fun due called _ => ?_, fun _ => calls⟩
      exact (List.nodup_append'.mp once).2.2 (mem_callee.mpr ⟨_, called⟩) List.mem_cons_self
    · refine ⟨fun due called again => reached ?_, fun reached' => absurd reached' reached⟩
      obtain ⟨te', here', time⟩ := passing.moved p due called inside
      obtain rfl := Option.some.inj (here.symm.trans here')
      exact time ▸ again

theorem Inv.start (holds : Holds s l) {x : Pass} (ran : processTimeEvents.start s now = .ok x) :
    Inv s l (l.length, l.length) x := by
  obtain ⟨x', ran', holds', nextId, events, place, maxId⟩ := start_spec holds now
  obtain rfl := Except.ok.inj (ran'.symm.trans ran)
  refine ⟨[], l, ⟨holds', ?_, ?_, ?_, ?_⟩, maxId, place, ?_⟩
  · rw [events]
    exact ⟨Int.le_of_eq nextId.symm, nextId ▸ (Members.refl s l).members, List.forall_mem_nil _⟩
  · intro p due called
    rw [events] at called
    cases called
  · rw [events]
    exact List.nodup_nil
  · rw [events]
    exact List.forall_mem_nil _
  · rw [events]
    rfl

theorem Inv.fine (holds : Holds s l) {w : Nat × Nat} (inv : Inv s l w x) : Fine s x := by
  obtain ⟨front, back, passing, -⟩ := inv
  refine ⟨passing.once, ?_, ?_⟩
  · rw [holds.timers]
    exact passing.old
  · rw [holds.timers, passing.holds.timers]
    exact passing.members.members

theorem processTimeEvents_eq (ran : processTimeEvents.start s now = .ok x) :
    processTimeEvents s now env = turns processTimeEvents.body env x := by
  funext n
  rw [processTimeEvents, ran, ok_bind]

theorem Holds.init (time : Int) : Holds (.init time) [] where
  cells := List.forall_mem_nil _
  links := rfl
  nodup := List.nodup_nil
  ids p allocated := by cases allocated
  nextId := Int.le_refl 0

/-- Every state has a list of timers. -/
theorem Reachable.holds (reachable : Reachable s) : Holds s s.timers := by
  suffices some_list : ∃ l, Holds s l by
    obtain ⟨l, holds⟩ := some_list
    rwa [holds.timers]
  induction reachable with
  | init time => exact ⟨[], .init time⟩
  | exec action before ran ih =>
    obtain ⟨l, holds⟩ := ih
    obtain ⟨s', l', gone, ran', done, -⟩ := exec_behaves action _ l holds
    obtain rfl := Except.ok.inj (ran'.symm.trans ran)
    exact ⟨l', done.holds⟩
  | pass before ran ih =>
    obtain ⟨l, holds⟩ := ih
    obtain ⟨x₀, started, holds₀, -, -, place, -⟩ := start_spec holds _
    rw [processTimeEvents_eq started] at ran
    have keeps (turn : Turn) (x x' : Pass) (valid : Valid x) (ran : processTimeEvents.body turn x = .ok x') : Valid x' :=
      (valid.body ran).1
    obtain ⟨front, back, holds', -⟩ := turns_keep (n := 0) keeps rfl ⟨[], l, holds₀, place⟩ (by rwa [Nat.zero_add])
    exact ⟨front ++ back, holds'⟩

/-- **A pass** is safe just when every turn meets the condition. -/
theorem processTimeEvents_safe_iff (reachable : Reachable s) (now : Int) (env : Nat → Turn) :
    Safe s now env ↔ ∀ n x, processTimeEvents s now env n = .ok x → x.te ≠ none → Meets x (env n) := by
  have holds := reachable.holds
  obtain ⟨x₀, started, -⟩ := start_spec holds now
  rw [Safe, processTimeEvents_eq started]
  have lowers (w : Nat × Nat) (turn : Turn) (x : Pass) (inv : Inv s s.timers w x) (going : x.te ≠ none) (meets : Meets x turn) :=
    inv.keeps holds going meets
  apply returns_iff body_ended lowers
  · exact WellFounded.prod_lex Nat.lt_wfRel.wf Nat.lt_wfRel.wf
  · exact .start holds started
  · exact fun w x inv _ => inv.fine holds
  · exact fun w turn x x' inv going fails ran => inv.breaks going fails ran
  · exact fun turn x x' broken ran => broken.body ran
  · exact fun x broken fine => broken.2 fine.once

/-- The clock at its start. -/
def epoch : Clock := ⟨{ tv_sec := 0, tv_usec := 0 }, by decide⟩

/-- A list of one timer, which is due. -/
def lone : TimeEvents := (aeCreateTimeEvent (.init 0) 0 false epoch).1

/-- The callback of every turn, while the clock stands still. -/
def still (callback : List Action) (retval : Int) : Turn :=
  { now := epoch, callback := callback, retval := retval, again := epoch, finalizer := [] }

theorem lone_reachable : Reachable lone :=
  .exec (.aeCreateTimeEvent 0 false epoch) (.init 0) (by rw [Action.exec]; rfl)

/-- And one before it. -/
def pair : TimeEvents := (aeCreateTimeEvent lone 0 false epoch).1

theorem pair_reachable : Reachable pair :=
  .exec (.aeCreateTimeEvent 0 false epoch) lone_reachable (by rw [Action.exec]; rfl)

/-- The callback creates a timer, which is due, and deletes the first. -/
def busy : Turn := still [.aeCreateTimeEvent 0 true epoch, .aeDeleteTimeEvent 0 []] AE_NOMORE

/-- It is called for the second timer, and neither for the one that it has created nor for the one that it has
deleted. -/
theorem processTimeEvents_safe_pair :
    Safe pair 0 (fun _ => busy) ∧
      ∀ n x, processTimeEvents pair 0 (fun _ => busy) n = .ok x → x.te ≠ none → Meets x busy := by
  have safe : Safe pair 0 (fun _ => busy) := by
    refine ⟨2, _, rfl, rfl, by decide, by decide, fun id => ?_⟩
    show id ∈ [2] ↔ (id ∈ [1, 0] ∨ 2 ≤ id ∧ id < 3) ∧ id ∉ [0, 1]
    simp only [List.mem_cons, List.not_mem_nil, or_false]
    omega
  exact ⟨safe, (processTimeEvents_safe_iff pair_reachable 0 _).mp safe⟩

/-- A callback that deletes its own timer and returns 0: the timer is moved when it has been freed. And one
that returns 0 and, when it is called again at the same time, `AE_NOMORE`. -/
theorem processTimeEvents_unsafe :
    ¬ Safe lone 0 (fun _ => still [.aeDeleteTimeEvent 0 []] 0) ∧
      ¬ Safe lone 0 (fun n => still [] (if n = 0 then 0 else AE_NOMORE)) := by
  constructor
  · rintro ⟨n, x, ran, ended, -⟩
    rw [processTimeEvents_eq rfl] at ran
    cases n with
    | zero =>
      cases ran
      cases ended
    | succ n =>
      rw [Nat.add_comm, turns_error (e := .freed) rfl n] at ran
      cases ran
  · rintro ⟨n, x, ran, ended, fine⟩
    rw [processTimeEvents_eq rfl] at ran
    match n with
    | 0 | 1 =>
      cases ran
      cases ended
    | n + 2 =>
      rw [Nat.add_comm, turns_ended (n := 2) body_ended rfl rfl n] at ran
      cases ran
      exact absurd fine.once (by decide)

end CodeClips.Ae
