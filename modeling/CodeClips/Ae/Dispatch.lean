import CodeClips.Ae.Backends
import Mathlib.Data.List.Induction

/-!
# The dispatch of file events

`aeProcessEvents` goes through the events that have fired and calls their handlers, which may create and delete file
events themselves, of any descriptor and those still to come too. A log keeps what has been created, deleted and called.
In any state that is reached, with any backend and any handlers, a handler is called only while it is registered
and its event has fired, at most once for each event and in their order, and no event is passed over that is still
registered (`aeProcessEvents_faithful`).
-/

namespace CodeClips.Ae

/-- A file event that has been created, one that has been deleted, and a call of a handler. -/
inductive Entry (Proc Data : Type) where
  | created (fd : Int) (mask : Mask) (proc : Proc) (clientData : Data)
  | deleted (fd : Int) (mask : Mask)
  | called (fd : Int) (ev : Mask) (proc : Proc) (clientData : Data) (mask : Mask)

/-! ## The log -/

section Log
variable {Proc Data : Type}

def Entry.nextHandler (fd : Int) (ev : Mask) (last : Option Proc) : Entry Proc Data → Option Proc
  | .created fd' mask proc _ => if fd' = fd ∧ mask &&& ev ≠ 0 then some proc else last
  | _ => last

def Entry.nextData (fd : Int) (last : Option Data) : Entry Proc Data → Option Data
  | .created fd' _ _ clientData => if fd' = fd then some clientData else last
  | _ => last

def Entry.nextStands (fd : Int) (ev : Mask) (last : Bool) : Entry Proc Data → Bool
  | .created fd' mask _ _ => if fd' = fd ∧ mask &&& ev ≠ 0 then true else last
  | .deleted fd' mask => if fd' = fd ∧ mask &&& ev ≠ 0 then false else last
  | _ => last

/-- The handler with which event `ev` of `fd` was last created, whether or not it has been deleted since. -/
def handler (log : List (Entry Proc Data)) (fd : Int) (ev : Mask) : Option Proc := log.foldl (Entry.nextHandler fd ev) none

/-- What the last file event of `fd` was created with, whatever the event. -/
def clientData (log : List (Entry Proc Data)) (fd : Int) : Option Data := log.foldl (Entry.nextData fd) none

/-- Event `ev` of `fd` has been created and not deleted since. -/
def stands (log : List (Entry Proc Data)) (fd : Int) (ev : Mask) : Bool := log.foldl (Entry.nextStands fd ev) false

/-- A call is right after `log` if its event stands there, with this handler and this data. -/
def Entry.Right (log : List (Entry Proc Data)) : Entry Proc Data → Prop
  | .called fd ev proc data mask => stands log fd ev ∧ handler log fd ev = some proc ∧ clientData log fd = some data ∧
      mask &&& ev ≠ 0
  | _ => True

/-- Each entry is right after those before it. -/
def Rightly : List (Entry Proc Data) → List (Entry Proc Data) → Prop
  | _, [] => True
  | log, e :: seg => e.Right log ∧ Rightly (log ++ [e]) seg

/-- The event for which a handler has been called. -/
def Entry.event : Entry Proc Data → Option (Int × Mask)
  | .called fd ev _ _ _ => some (fd, ev)
  | _ => none

def calls (seg : List (Entry Proc Data)) : List (Int × Mask) := seg.filterMap Entry.event

variable {log seg seg' : List (Entry Proc Data)} {e : Entry Proc Data} {fd : Int} {ev : Mask}

@[simp] theorem handler_append_singleton : handler (log ++ [e]) fd ev = e.nextHandler fd ev (handler log fd ev) := by
  rw [handler, List.foldl_append]
  rfl

@[simp] theorem clientData_append_singleton : clientData (log ++ [e]) fd = e.nextData fd (clientData log fd) := by
  rw [clientData, List.foldl_append]
  rfl

@[simp] theorem stands_append_singleton : stands (log ++ [e]) fd ev = e.nextStands fd ev (stands log fd ev) := by
  rw [stands, List.foldl_append]
  rfl

/-- What stands has a handler and data. -/
theorem registered_of_stands (standing : stands log fd ev) :
    (∃ proc, handler log fd ev = some proc) ∧ ∃ data, clientData log fd = some data := by
  induction log using List.reverseRecOn with
  | nil => cases standing
  | append_singleton log e ih =>
    rw [stands_append_singleton] at standing
    rw [handler_append_singleton, clientData_append_singleton]
    cases e with
    | created fd' mask proc data =>
      dsimp only [Entry.nextStands, Entry.nextHandler, Entry.nextData] at standing ⊢
      split_ifs at standing with here
      · rw [if_pos here, if_pos here.1]
        exact ⟨⟨_, rfl⟩, _, rfl⟩
      · rw [if_neg here]
        refine ⟨(ih standing).1, ?_⟩
        split
        · exact ⟨_, rfl⟩
        · exact (ih standing).2
    | deleted fd' mask =>
      dsimp only [Entry.nextStands] at standing
      split_ifs at standing
      exact ih standing
    | called fd' ev' proc data mask => exact ih standing

/-- What no longer stands has been deleted. -/
theorem deleted_of_not_stands (before : stands log fd ev) (after : ¬ stands (log ++ seg) fd ev) :
    ∃ mask, .deleted fd mask ∈ seg ∧ mask &&& ev ≠ 0 := by
  induction seg generalizing log with
  | nil => rw [List.append_nil] at after; exact absurd before after
  | cons e seg ih =>
    rw [List.append_cons] at after
    by_cases still : stands (log ++ [e]) fd ev
    · obtain ⟨mask, mem, here⟩ := ih still after
      exact ⟨mask, List.mem_cons_of_mem _ mem, here⟩
    · rw [stands_append_singleton, before] at still
      cases e with
      | created fd' mask proc data => exact absurd (ite_self true) still
      | deleted fd' mask =>
        dsimp only [Entry.nextStands] at still
        split_ifs at still with here
        · obtain ⟨rfl, touches⟩ := here
          exact ⟨mask, List.mem_cons_self, touches⟩
        · exact absurd rfl still
      | called fd' ev' proc data mask => exact absurd rfl still

theorem Rightly.append (first : Rightly log seg) (second : Rightly (log ++ seg) seg') : Rightly log (seg ++ seg') := by
  induction seg generalizing log with
  | nil => rwa [List.append_nil] at second
  | cons e seg ih =>
    rw [List.append_cons] at second
    exact ⟨first.1, ih first.2 second⟩

/-- Where nothing is called there is nothing wrong. -/
theorem rightly_of_calls (quiet : calls seg = []) : Rightly log seg := by
  induction seg generalizing log with
  | nil => trivial
  | cons e seg ih =>
    cases e with
    | created => exact ⟨trivial, ih quiet⟩
    | deleted => exact ⟨trivial, ih quiet⟩
    | called => cases quiet

theorem calls_append (seg seg' : List (Entry Proc Data)) : calls (seg ++ seg') = calls seg ++ calls seg' :=
  List.filterMap_append

theorem calls_called {proc : Proc} {data : Data} {mask : Mask} (quiet : calls seg = []) :
    calls (.called fd ev proc data mask :: seg) = [(fd, ev)] := by
  show (fd, ev) :: calls seg = [(fd, ev)]
  rw [quiet]

end Log

/-! ## Handlers -/

/-- What a handler does to the loop it is called by, up to its return: a descriptor and a non-empty set of events for
each call, and what comes next by what the call has returned. -/
inductive Reaction (Proc Data : Type) where
  | back
  | aeCreateFileEvent (fd : Nat) (mask : { mask : Mask // Asked mask }) (proc : Proc) (clientData : Data) (refusals : Refusals)
      (ret : Int → Reaction Proc Data)
  | aeDeleteFileEvent (fd : Nat) (mask : { mask : Mask // Asked mask }) (ret : Reaction Proc Data)
  | aeGetFileEvents (fd : Nat) (ret : Mask → Reaction Proc Data)
  | aeStop (ret : Reaction Proc Data)

/-- What the handlers do, by all that has happened before and by their arguments. -/
abbrev Program (Proc Data : Type) := List (Entry Proc Data) → Proc → Int → Data → Mask → Reaction Proc Data

/-- An event loop, and what has happened. -/
structure Run (σ Proc Data : Type) where
  eventLoop : EventLoop σ Proc Data
  log : List (Entry Proc Data)

namespace Backend
variable {σ ρ Proc Data : Type} (b : Backend σ ρ Proc Data)

def create (s : Run σ Proc Data) (fd : Nat) (mask : Mask) (proc : Proc) (clientData : Data) (refusals : Refusals) :
    Except Stop (Run σ Proc Data × Int) := do
  let (eventLoop, ret) ← b.aeCreateFileEvent s.eventLoop fd mask proc clientData refusals
  return ({ eventLoop := eventLoop, log := if ret = AE_OK then s.log ++ [.created fd mask proc clientData] else s.log }, ret)

def delete (s : Run σ Proc Data) (fd : Nat) (mask : Mask) : Except Stop (Run σ Proc Data) := do
  let eventLoop ← b.aeDeleteFileEvent s.eventLoop fd mask
  return { eventLoop := eventLoop, log := s.log ++ [.deleted fd mask] }

def react : Reaction Proc Data → Run σ Proc Data → Except Stop (Run σ Proc Data)
  | .back, s => .ok s
  | .aeCreateFileEvent fd mask proc clientData refusals ret, s => do
    let (s', r) ← b.create s fd mask proc clientData refusals
    react (ret r) s'
  | .aeDeleteFileEvent fd mask ret, s => do
    let s' ← b.delete s fd mask
    react ret s'
  | .aeGetFileEvents fd ret, s => react (ret (aeGetFileEvents s.eventLoop fd)) s
  | .aeStop ret, s => react ret { s with eventLoop := { s.eventLoop with stop := true } }

variable (program : Program Proc Data)

/-- A call through a pointer of `events[fd]`, which has to be set. -/
def call (s : Run σ Proc Data) (fd : Int) (ev : Mask) (proc : Option Proc) (mask : Mask) : Except Stop (Run σ Proc Data) :=
  match proc, (s.eventLoop.events fd).clientData with
  | some proc, some clientData =>
    b.react (program s.log proc fd clientData mask) { s with log := s.log ++ [.called fd ev proc clientData mask] }
  | _, _ => .error .null

variable [DecidableEq Proc]

/-- The event is in `fe->mask & mask`. -/
def fires (s : Run σ Proc Data) (e : aeFiredEvent) (ev : Mask) : Prop := (s.eventLoop.events e.fd).mask &&& e.mask &&& ev ≠ 0

instance (s : Run σ Proc Data) (e : aeFiredEvent) (ev : Mask) : Decidable (fires s e ev) := inferInstanceAs (Decidable (_ ≠ _))

def fireRead (s : Run σ Proc Data) (e : aeFiredEvent) : Except Stop (Run σ Proc Data) :=
  if fires s e AE_READABLE then b.call program s e.fd AE_READABLE (s.eventLoop.events e.fd).rfileProc e.mask else .ok s

/-- `fe` is read again: the handler that has just been called may have changed it. -/
def fireWrite (rfired : Bool) (s : Run σ Proc Data) (e : aeFiredEvent) : Except Stop (Run σ Proc Data) :=
  if fires s e AE_WRITABLE ∧ (¬ rfired ∨ (s.eventLoop.events e.fd).wfileProc ≠ (s.eventLoop.events e.fd).rfileProc) then
    b.call program s e.fd AE_WRITABLE (s.eventLoop.events e.fd).wfileProc e.mask
  else .ok s

/-- The body of the loop over `fired`. -/
def fire (s : Run σ Proc Data) (e : aeFiredEvent) : Except Stop (Run σ Proc Data) :=
  if 0 ≤ e.fd ∧ e.fd < s.eventLoop.setsize then do
    let s' ← b.fireRead program s e
    b.fireWrite program (fires s e AE_READABLE) s' e
  else .error .outside

/-- What the kernel reports in a pass, and what the callbacks of the timers do to the file events, and how many there are. -/
structure Round (ρ Proc Data : Type) where
  report : ρ
  timers : List (Entry Proc Data) → Reaction Proc Data × Int

/-- Whether there is a poll. -/
def Polls (flags : Flags) (maxfd : Int) : Prop :=
  maxfd ≠ -1 ∨ flags &&& AE_TIME_EVENTS ≠ 0 ∧ flags &&& AE_DONT_WAIT = 0

instance (flags : Flags) (maxfd : Int) : Decidable (Polls flags maxfd) := inferInstanceAs (Decidable (_ ∨ _))

/-- The entries of `fired` that are gone through. -/
def fired (flags : Flags) (s : Run σ Proc Data) (report : ρ) : Except Stop (List aeFiredEvent) :=
  if (flags &&& AE_TIME_EVENTS ≠ 0 ∨ flags &&& AE_FILE_EVENTS ≠ 0) ∧ Polls flags s.eventLoop.maxfd then
    b.aeApiPoll s.eventLoop report
  else .ok []

/-- `processTimeEvents`, as far as file events go. -/
def processTimers (flags : Flags) (round : Round ρ Proc Data) (s : Run σ Proc Data) : Except Stop (Run σ Proc Data × Int) :=
  if flags &&& AE_TIME_EVENTS ≠ 0 then (b.react (round.timers s.log).1 s).map fun s' => (s', (round.timers s.log).2)
  else .ok (s, 0)

/-- What is reported has to fit into `fired`. -/
def aeProcessEvents (flags : Flags) (s : Run σ Proc Data) (round : Round ρ Proc Data) : Except Stop (Run σ Proc Data × Int) := do
  let fired ← b.fired flags s round.report
  if (fired.length : Int) ≤ max 0 s.eventLoop.setsize then do
    let s' ← fired.foldlM (b.fire program) s
    let (s'', timers) ← b.processTimers flags round s'
    return (s'', fired.length + timers)
  else .error .outside

/-- The states of a program that creates a loop for which the backend has room, calls it and makes passes, with whatever
the kernel reports. -/
inductive Reached : Run σ Proc Data → Prop where
  | create (setsize : Int) (holds : b.Holds setsize) : Reached { eventLoop := b.aeCreateEventLoop setsize, log := [] }
  | react {s s' : Run σ Proc Data} (before : Reached s) {reaction : Reaction Proc Data} (ran : b.react reaction s = .ok s') :
    Reached s'
  | pass {s s' : Run σ Proc Data} {flags : Flags} {round : Round ρ Proc Data} {processed : Int} (before : Reached s)
      (reports : b.Reports s.eventLoop round.report)
      (ran : b.aeProcessEvents program flags s round = .ok (s', processed)) : Reached s'

end Backend

/-! ## The loop is what the log says -/

section Table
variable {Proc Data : Type}

/-- The file events are what the log says. -/
structure Table (events : Int → aeFileEvent Proc Data) (log : List (Entry Proc Data)) : Prop where
  sets : ∀ fd, (events fd).mask = AE_NONE ∨ Asked (events fd).mask
  reader : ∀ fd, (events fd).rfileProc = handler log fd AE_READABLE
  writer : ∀ fd, (events fd).wfileProc = handler log fd AE_WRITABLE
  data : ∀ fd, (events fd).clientData = clientData log fd
  standing : ∀ fd ev, ev = AE_READABLE ∨ ev = AE_WRITABLE → (stands log fd ev ↔ (events fd).mask &&& ev ≠ 0)

variable {m n ev : Mask}

theorem or_and_ne (held : m = AE_NONE ∨ Asked m) (asked : Asked n) (single : ev = AE_READABLE ∨ ev = AE_WRITABLE) :
    (m ||| n) &&& ev ≠ 0 ↔ n &&& ev ≠ 0 ∨ m &&& ev ≠ 0 := by
  unfold Asked at *
  rcases held with rfl | rfl | rfl | rfl <;> rcases asked with rfl | rfl | rfl <;> rcases single with rfl | rfl <;> decide

theorem sdiff_and_ne (held : m = AE_NONE ∨ Asked m) (asked : Asked n) (single : ev = AE_READABLE ∨ ev = AE_WRITABLE) :
    m &&& ~~~n &&& ev ≠ 0 ↔ n &&& ev = 0 ∧ m &&& ev ≠ 0 := by
  unfold Asked at *
  rcases held with rfl | rfl | rfl | rfl <;> rcases asked with rfl | rfl | rfl <;> rcases single with rfl | rfl <;> decide

theorem and_and_ne (m n : Mask) (single : ev = AE_READABLE ∨ ev = AE_WRITABLE) :
    m &&& n &&& ev ≠ 0 ↔ m &&& ev ≠ 0 ∧ n &&& ev ≠ 0 := by
  obtain ⟨i, rfl⟩ : ∃ i, ev = BitVec.twoPow 32 i := by
    rcases single with rfl | rfl
    · exact ⟨0, by decide⟩
    · exact ⟨1, by decide⟩
  simp only [BitVec.and_twoPow, BitVec.getLsbD_and]
  cases m.getLsbD i <;> cases n.getLsbD i <;> simp

section Set
variable (fe : aeFileEvent Proc Data) (mask : Mask) (proc : Proc) (clientData : Data)

@[simp] theorem aeFileEvent.set_rfileProc :
    (fe.set mask proc clientData).rfileProc = if mask &&& AE_READABLE ≠ 0 then some proc else fe.rfileProc := by
  unfold aeFileEvent.set
  split_ifs <;> rfl

@[simp] theorem aeFileEvent.set_wfileProc :
    (fe.set mask proc clientData).wfileProc = if mask &&& AE_WRITABLE ≠ 0 then some proc else fe.wfileProc := by
  unfold aeFileEvent.set
  split_ifs <;> rfl

@[simp] theorem aeFileEvent.set_clientData : (fe.set mask proc clientData).clientData = some clientData := rfl

end Set

variable {events : Int → aeFileEvent Proc Data} {log : List (Entry Proc Data)} {fd : Int} {mask : Mask}

theorem Table.create (setsize : Int) : Table (aeCreateEventLoop setsize : aeEventLoop Proc Data).events [] :=
  ⟨fun _ => .inl rfl, fun _ => rfl, fun _ => rfl, fun _ => rfl, fun _ _ _ => ⟨nofun, fun held => absurd BitVec.zero_and held⟩⟩

theorem Table.created (table : Table events log) (asked : Asked mask) (proc : Proc) (data : Data) :
    Table (Function.update events fd ((events fd).set mask proc data)) (log ++ [.created fd mask proc data]) := by
  have stays : ∀ other : Int, ¬ other = fd → ¬ fd = other := fun _ differs same => differs same.symm
  refine ⟨fun other => ?_, fun other => ?_, fun other => ?_, fun other => ?_, fun other ev single => ?_⟩ <;>
    by_cases here : other = fd
  · subst here
    simpa using .inr (mask_or (table.sets _) asked)
  · simpa [here] using table.sets other
  · subst here
    simp [Entry.nextHandler, table.reader]
  · simp [Entry.nextHandler, here, stays other here, table.reader]
  · subst here
    simp [Entry.nextHandler, table.writer]
  · simp [Entry.nextHandler, here, stays other here, table.writer]
  · subst here
    simp [Entry.nextData]
  · simp [Entry.nextData, here, stays other here, table.data]
  · subst here
    rw [stands_append_singleton, Function.update_self, aeFileEvent.set_mask, or_and_ne (table.sets _) asked single,
      ← table.standing _ ev single]
    by_cases touches : mask &&& ev = 0 <;> simp [Entry.nextStands, touches]
  · simp [Entry.nextStands, here, stays other here, table.standing other ev single]

variable (fd) in
/-- The handlers and the data of what is deleted stay. -/
theorem Table.deleted (table : Table events log) (asked : Asked mask) :
    Table (Function.update events fd { events fd with mask := (events fd).mask &&& ~~~mask }) (log ++ [.deleted fd mask]) := by
  have stays : ∀ other : Int, ¬ other = fd → ¬ fd = other := fun _ differs same => differs same.symm
  refine ⟨fun other => ?_, fun other => ?_, fun other => ?_, fun other => ?_, fun other ev single => ?_⟩ <;>
    by_cases here : other = fd
  · subst here
    simpa using mask_sdiff (table.sets _) asked
  · simpa [here] using table.sets other
  · subst here
    simp [Entry.nextHandler, table.reader]
  · simp [Entry.nextHandler, here, table.reader]
  · subst here
    simp [Entry.nextHandler, table.writer]
  · simp [Entry.nextHandler, here, table.writer]
  · subst here
    simp [Entry.nextData, table.data]
  · simp [Entry.nextData, here, table.data]
  · subst here
    rw [stands_append_singleton, Function.update_self, sdiff_and_ne (table.sets _) asked single, ← table.standing _ ev single]
    by_cases touches : mask &&& ev = 0 <;> simp [Entry.nextStands, touches]
  · simp [Entry.nextStands, here, stays other here, table.standing other ev single]

theorem Table.called (table : Table events log) {ev : Mask} {proc : Proc} {data : Data} :
    Table events (log ++ [.called fd ev proc data mask]) := by
  refine ⟨table.sets, fun other => ?_, fun other => ?_, fun other => ?_, fun other ev single => ?_⟩
  · rw [handler_append_singleton]; exact table.reader other
  · rw [handler_append_singleton]; exact table.writer other
  · rw [clientData_append_singleton]; exact table.data other
  · rw [stands_append_singleton]; exact table.standing other ev single

/-- What is not there is deleted without any change. -/
theorem update_none (none : (events fd).mask = AE_NONE) :
    Function.update events fd { events fd with mask := (events fd).mask &&& ~~~mask } = events := by
  have same : (events fd).mask &&& ~~~mask = (events fd).mask := by
    rw [none]
    exact BitVec.zero_and
  rw [same]
  exact Function.update_eq_self fd events

variable (fd) in
/-- `maxfd` after a deletion is not below any descriptor that is left. -/
theorem lowered_top {top : Int} (inside : ∀ other, (events other).mask ≠ AE_NONE → 0 ≤ other ∧ other ≤ top) (low : 0 ≤ top) :
    let top' := if fd = top ∧ (events fd).mask = AE_NONE then highestBelow events top.toNat else top
    (∀ other, (events other).mask ≠ AE_NONE → 0 ≤ other ∧ other ≤ top') ∧ -1 ≤ top' ∧ top' ≤ top := by
  dsimp only
  split_ifs with gone
  · obtain ⟨rfl, none⟩ := gone
    have below : ∀ other, (events other).mask ≠ AE_NONE → 0 ≤ other ∧ other < fd.toNat := by
      intro other held
      have bounds := inside other held
      have differs : other ≠ fd := by
        rintro rfl
        exact held none
      omega
    obtain ⟨above, top⟩ := highestBelow_highest events fd.toNat below
    refine ⟨fun other held => ⟨(inside other held).1, above other held⟩, ?_⟩
    rcases top with top | held
    · omega
    · have bounds := below _ held
      omega
  · exact ⟨inside, by omega, Int.le_refl _⟩

end Table

namespace Backend
variable {σ ρ Proc Data : Type} {b : Backend σ ρ Proc Data} {s : Run σ Proc Data} {fd : Nat} {mask : Mask}

variable (b) in
/-- What holds in every state that is reached. -/
structure Sound (s : Run σ Proc Data) : Prop where
  holds : b.Holds s.eventLoop.setsize
  ranged : s.eventLoop.Ranged b.watched
  table : Table s.eventLoop.events s.log

theorem create_sound_loop (b : Backend σ ρ Proc Data) {setsize : Int} (holds : b.Holds setsize) :
    b.Sound { eventLoop := b.aeCreateEventLoop setsize, log := [] } :=
  ⟨holds, ⟨fun _ held => absurd rfl held, fun fd known => absurd known (b.created fd), Int.le_refl _, .inr rfl⟩, Table.create setsize⟩

variable (b) in
/-- From one sound state to another, with this in the log. -/
structure Leads (s : Run σ Proc Data) (seg : List (Entry Proc Data)) (s' : Run σ Proc Data) : Prop where
  sound : b.Sound s'
  size : s'.eventLoop.setsize = s.eventLoop.setsize
  log : s'.log = s.log ++ seg

theorem Leads.refl (sound : b.Sound s) : b.Leads s [] s := ⟨sound, rfl, (List.append_nil _).symm⟩

theorem Leads.trans {s' s'' : Run σ Proc Data} {seg seg' : List (Entry Proc Data)} (first : b.Leads s seg s')
    (second : b.Leads s' seg' s'') : b.Leads s (seg ++ seg') s'' :=
  ⟨second.sound, second.size.trans first.size, by rw [second.log, first.log, List.append_assoc]⟩

theorem create_outside (outside : (fd : Int) ≥ s.eventLoop.setsize) (mask : Mask) (proc : Proc) (data : Data)
    (refusals : Refusals) : b.create s fd mask proc data refusals = .ok (s, AE_ERR) := by
  rw [create, aeCreateFileEvent, if_pos outside]
  rfl

theorem create_refused {apidata : σ} {ret : Int} {proc : Proc} {data : Data} {refusals : Refusals}
    (inside : ¬ (fd : Int) ≥ s.eventLoop.setsize)
    (added : b.aeApiAddEvent s.eventLoop fd mask refusals = .ok (apidata, ret)) (refused : ret = -1) :
    b.create s fd mask proc data refusals =
      .ok ({ eventLoop := { s.eventLoop with apidata := apidata }, log := s.log }, AE_ERR) := by
  rw [create, aeCreateFileEvent, if_neg inside, added, ok_bind]
  dsimp only
  rw [if_pos refused]
  rfl

theorem create_inside {apidata : σ} {ret : Int} {proc : Proc} {data : Data} {refusals : Refusals}
    (inside : ¬ (fd : Int) ≥ s.eventLoop.setsize)
    (added : b.aeApiAddEvent s.eventLoop fd mask refusals = .ok (apidata, ret)) (granted : ret ≠ -1) :
    b.create s fd mask proc data refusals = .ok ({
      eventLoop := { s.eventLoop with
        apidata := apidata
        events := Function.update s.eventLoop.events fd ((s.eventLoop.events fd).set mask proc data)
        maxfd := if fd > s.eventLoop.maxfd then (fd : Int) else s.eventLoop.maxfd }
      log := s.log ++ [.created fd mask proc data] }, AE_OK) := by
  rw [create, aeCreateFileEvent, if_neg inside, added, ok_bind]
  dsimp only
  rw [if_neg granted]
  rfl

theorem delete_none (none : (fd : Int) ≥ s.eventLoop.setsize ∨ (s.eventLoop.events fd).mask = AE_NONE) :
    b.delete s fd mask = .ok { s with log := s.log ++ [.deleted fd mask] } := by
  rw [delete, aeDeleteFileEvent]
  rcases none with outside | none
  · rw [if_pos outside]
    rfl
  · rw [if_pos none, ite_self]
    rfl

theorem delete_held {apidata : σ} (inside : ¬ (fd : Int) ≥ s.eventLoop.setsize) (held : (s.eventLoop.events fd).mask ≠ AE_NONE)
    (deleted : b.aeApiDelEvent (lowered s.eventLoop fd mask) fd mask = .ok apidata) :
    b.delete s fd mask = .ok {
      eventLoop := { lowered s.eventLoop fd mask with apidata := apidata }
      log := s.log ++ [.deleted fd mask] } := by
  rw [delete, aeDeleteFileEvent, if_neg inside, if_neg held, deleted]
  rfl

variable (fd) in
theorem create_leads (sound : b.Sound s) (asked : Asked mask) (proc : Proc) (data : Data) (refusals : Refusals) :
    ∃ s' ret seg, b.create s fd mask proc data refusals = .ok (s', ret) ∧ b.Leads s seg s' ∧ calls seg = [] := by
  by_cases outside : (fd : Int) ≥ s.eventLoop.setsize
  · exact ⟨s, _, [], create_outside outside mask proc data refusals, Leads.refl sound, rfl⟩
  obtain ⟨holds, ⟨masks, watches, top⟩, table⟩ := sound
  obtain ⟨apidata, ret, added, known⟩ :=
    b.added s.eventLoop fd mask refusals holds (Int.natCast_nonneg fd) (Int.not_le.mp outside)
  have watched : ∀ other, b.watched apidata other → 0 ≤ other ∧ other < s.eventLoop.setsize := by
    intro other asks
    rcases known other asks with before | rfl
    · exact watches other before
    · omega
  by_cases refused : ret = -1
  · exact ⟨_, _, [], create_refused outside added refused, ⟨⟨holds, ⟨masks, watched, top⟩, table⟩, rfl, (List.append_nil _).symm⟩, rfl⟩
  refine ⟨_, _, [.created fd mask proc data], create_inside outside added refused,
    ⟨⟨holds, ⟨fun other held => ?_, watched, ?_⟩, table.created asked proc data⟩, rfl, rfl⟩, rfl⟩
  · by_cases here : other = fd
    · dsimp only; split_ifs <;> omega
    · have bounds := masks other (by simpa [here] using held)
      dsimp only; split_ifs <;> omega
  · dsimp only; split_ifs <;> omega

variable (fd) in
theorem delete_leads (sound : b.Sound s) (asked : Asked mask) :
    ∃ s', b.delete s fd mask = .ok s' ∧ b.Leads s [.deleted fd mask] s' := by
  obtain ⟨holds, ⟨masks, watches, top⟩, table⟩ := sound
  have table' := table.deleted fd asked
  by_cases held : (s.eventLoop.events fd).mask = AE_NONE
  · rw [update_none held] at table'
    exact ⟨_, delete_none (.inr held), ⟨holds, ⟨masks, watches, top⟩, table'⟩, rfl, rfl⟩
  have bounds := masks fd held
  have inside : ¬ (fd : Int) ≥ s.eventLoop.setsize := by omega
  have before : ∀ other, (Function.update s.eventLoop.events (fd : Int)
      { s.eventLoop.events fd with mask := (s.eventLoop.events fd).mask &&& ~~~mask } other).mask ≠ AE_NONE →
      0 ≤ other ∧ other ≤ s.eventLoop.maxfd := by
    intro other still
    by_cases here : other = fd
    · subst here; exact bounds
    · exact masks other (by simpa [here] using still)
  obtain ⟨inside', low, high⟩ := lowered_top fd before (by omega)
  rw [Function.update_self] at inside' low high
  have room : s.eventLoop.maxfd < s.eventLoop.setsize := by omega
  obtain ⟨apidata, deleted, known⟩ :=
    b.deleted (lowered s.eventLoop fd mask) fd mask holds (Int.natCast_nonneg fd) (Int.not_le.mp inside)
  exact ⟨_, delete_held inside held deleted,
    ⟨holds, ⟨inside', fun other asks => watches other (known other asks), low, .inl (Int.lt_of_le_of_lt high room)⟩, table'⟩, rfl, rfl⟩

theorem create_sound {s' : Run σ Proc Data} {ret : Int} {proc : Proc} {data : Data} {refusals : Refusals} (sound : b.Sound s)
    (asked : Asked mask) (ran : b.create s fd mask proc data refusals = .ok (s', ret)) : b.Sound s' := by
  obtain ⟨s'', ret', seg, ran', leads, -⟩ := create_leads fd sound asked proc data refusals
  obtain ⟨rfl, -⟩ := Prod.mk.inj (Except.ok.inj (ran.symm.trans ran'))
  exact leads.sound

theorem delete_sound {s' : Run σ Proc Data} (sound : b.Sound s) (asked : Asked mask) (ran : b.delete s fd mask = .ok s') :
    b.Sound s' := by
  obtain ⟨s'', ran', leads⟩ := delete_leads fd sound asked
  obtain rfl := Except.ok.inj (ran.symm.trans ran')
  exact leads.sound

/-- What a handler does to the loop leaves it sound; it is the loop alone that calls handlers. -/
theorem react_leads (sound : b.Sound s) (reaction : Reaction Proc Data) :
    ∃ s' seg, b.react reaction s = .ok s' ∧ b.Leads s seg s' ∧ calls seg = [] := by
  induction reaction generalizing s with
  | back => exact ⟨s, [], rfl, Leads.refl sound, rfl⟩
  | aeCreateFileEvent fd mask proc data refusals ret ih =>
    obtain ⟨s₁, r, seg, ran, leads, quiet⟩ := create_leads fd sound mask.2 proc data refusals
    obtain ⟨s₂, seg', ran', leads', quiet'⟩ := ih r leads.sound
    refine ⟨s₂, seg ++ seg', ?_, leads.trans leads', by rw [calls_append, quiet, quiet']; rfl⟩
    rw [react, ran]
    exact ran'
  | aeDeleteFileEvent fd mask ret ih =>
    obtain ⟨s₁, ran, leads⟩ := delete_leads fd sound mask.2
    obtain ⟨s₂, seg, ran', leads', quiet⟩ := ih leads.sound
    refine ⟨s₂, [.deleted fd mask.1] ++ seg, ?_, leads.trans leads', by rw [calls_append, quiet]; rfl⟩
    rw [react, ran]
    exact ran'
  | aeGetFileEvents fd ret ih => exact ih _ sound
  | aeStop ret ih =>
    obtain ⟨s', seg, ran, leads, quiet⟩ := ih (s := { s with eventLoop := { s.eventLoop with stop := true } })
      ⟨sound.holds, ⟨sound.ranged.masks, sound.ranged.watches, sound.ranged.top⟩, sound.table⟩
    exact ⟨s', seg, ran, ⟨leads.sound, leads.size, leads.log⟩, quiet⟩

/-! ## One event -/

variable {program : Program Proc Data} {e : aeFiredEvent} {ev : Mask}

variable (program) in
/-- A handler that is called is the one that is registered. -/
theorem call_leads (sound : b.Sound s) (standing : stands s.log e.fd ev) (bit : e.mask &&& ev ≠ 0) :
    ∃ s' seg proc data, b.call program s e.fd ev (handler s.log e.fd ev) e.mask = .ok s' ∧
      b.Leads s (.called e.fd ev proc data e.mask :: seg) s' ∧ calls seg = [] ∧
      Rightly s.log (.called e.fd ev proc data e.mask :: seg) := by
  obtain ⟨⟨proc, given⟩, data, held⟩ := registered_of_stands standing
  have held' : (s.eventLoop.events e.fd).clientData = some data := (sound.table.data e.fd).trans held
  obtain ⟨s', seg, ran, leads, quiet⟩ := react_leads (s := { s with log := s.log ++ [.called e.fd ev proc data e.mask] })
    ⟨sound.holds, sound.ranged, sound.table.called⟩ (program s.log proc e.fd data e.mask)
  refine ⟨s', seg, proc, data, ?_, ⟨leads.sound, leads.size, ?_⟩, quiet, ⟨standing, given, held, bit⟩, rightly_of_calls quiet⟩
  · simp only [given, call, held', ran]
  · rw [leads.log, List.append_assoc]
    rfl

theorem fires_iff (sound : b.Sound s) (single : ev = AE_READABLE ∨ ev = AE_WRITABLE) :
    fires s e ev ↔ stands s.log e.fd ev ∧ (e.fd, ev) ∈ e.asks := by
  rw [fires, and_and_ne _ _ single, sound.table.standing e.fd ev single, mem_asks]
  simp [single]

/-- What is gone through is of the loop, fits into `fired` and has no event twice. -/
theorem fired_polled (sound : b.Sound s) {report : ρ} (reports : b.Reports s.eventLoop report) (flags : Flags) :
    ∃ fired, b.fired flags s report = .ok fired ∧ (∀ e ∈ fired, 0 ≤ e.fd ∧ e.fd < s.eventLoop.setsize) ∧
      (fired.length : Int) ≤ max 0 s.eventLoop.setsize ∧ (fired.flatMap aeFiredEvent.asks).Nodup := by
  unfold fired
  split
  · exact b.polled s.eventLoop report sound.holds sound.ranged reports
  · exact ⟨[], rfl, by simp, by simp, List.nodup_nil⟩

theorem processTimers_leads (sound : b.Sound s) (flags : Flags) (round : Round ρ Proc Data) :
    ∃ s' timers seg, b.processTimers flags round s = .ok (s', timers) ∧ b.Leads s seg s' ∧ calls seg = [] := by
  unfold processTimers
  split
  · obtain ⟨s', seg, ran, leads, quiet⟩ := react_leads sound (round.timers s.log).1
    exact ⟨s', _, seg, by rw [ran]; rfl, leads, quiet⟩
  · exact ⟨s, 0, [], rfl, Leads.refl sound, rfl⟩

/-- The event of `e` has been served by the entries behind `log`: its handler has been called, it has been deleted, or
it is to be written and the same handler has just been called to read. -/
def Served (log seg : List (Entry Proc Data)) (e : aeFiredEvent) (ev : Mask) : Prop :=
  (∃ proc data, .called e.fd ev proc data e.mask ∈ seg) ∨ (∃ mask, .deleted e.fd mask ∈ seg ∧ mask &&& ev ≠ 0) ∨
    ev = AE_WRITABLE ∧ ∃ front, front <+: seg ∧ (∃ proc data, .called e.fd AE_READABLE proc data e.mask ∈ front) ∧
      handler (log ++ front) e.fd AE_WRITABLE = handler (log ++ front) e.fd AE_READABLE

/-- What the loop over `fired` has to do. -/
structure Faithful (log seg : List (Entry Proc Data)) (fired : List aeFiredEvent) : Prop where
  right : Rightly log seg
  order : (calls seg).Sublist (fired.flatMap aeFiredEvent.asks)
  served : ∀ e ∈ fired, ∀ ev, (e.fd, ev) ∈ e.asks → stands log e.fd ev → Served log seg e ev

section Served
variable {log seg seg' : List (Entry Proc Data)} {l : List aeFiredEvent}

theorem Served.append (served : Served log seg e ev) (seg' : List (Entry Proc Data)) : Served log (seg ++ seg') e ev := by
  rcases served with ⟨proc, data, mem⟩ | ⟨mask, mem, bit⟩ | ⟨writes, front, before, called, same⟩
  · exact .inl ⟨proc, data, List.mem_append_left _ mem⟩
  · exact .inr (.inl ⟨mask, List.mem_append_left _ mem, bit⟩)
  · exact .inr (.inr ⟨writes, front, before.trans (List.prefix_append seg seg'), called, same⟩)

theorem Served.behind (served : Served (log ++ seg) seg' e ev) : Served log (seg ++ seg') e ev := by
  rcases served with ⟨proc, data, mem⟩ | ⟨mask, mem, bit⟩ | ⟨writes, front, before, ⟨proc, data, mem⟩, same⟩
  · exact .inl ⟨proc, data, List.mem_append_right _ mem⟩
  · exact .inr (.inl ⟨mask, List.mem_append_right _ mem, bit⟩)
  · refine .inr (.inr ⟨writes, seg ++ front, (List.prefix_append_right_inj seg).mpr before,
      ⟨proc, data, List.mem_append_right _ mem⟩, ?_⟩)
    rwa [← List.append_assoc]

/-- What stood before and stands no longer has been deleted. -/
theorem served_of_deleted (before : stands log e.fd ev) (after : ¬ stands (log ++ seg) e.fd ev) : Served log seg e ev :=
  .inr (.inl (deleted_of_not_stands before after))

theorem Faithful.cons (first : Faithful log seg [e]) (second : Faithful (log ++ seg) seg' l) : Faithful log (seg ++ seg') (e :: l) := by
  refine ⟨first.right.append second.right, ?_, fun e' mem ev asked before => ?_⟩
  · rw [calls_append, List.flatMap_cons]
    have order := first.order
    rw [List.flatMap_singleton] at order
    exact order.append second.order
  · rcases List.mem_cons.mp mem with rfl | later
    · exact (first.served e' (List.mem_singleton_self _) ev asked before).append seg'
    · by_cases still : stands (log ++ seg) e'.fd ev
      · exact (second.served e' later ev asked still).behind
      · exact (served_of_deleted before still).append seg'

end Served

variable (program) (e) in
/-- The first half of the body: the event is to be read. -/
theorem fireRead_leads (sound : b.Sound s) : ∃ s' seg, b.fireRead program s e = .ok s' ∧ b.Leads s seg s' ∧ Rightly s.log seg ∧
    (calls seg = if fires s e AE_READABLE then [(e.fd, AE_READABLE)] else []) ∧
      (fires s e AE_READABLE → ∃ proc data, .called e.fd AE_READABLE proc data e.mask ∈ seg) := by
  unfold fireRead
  by_cases fired : fires s e AE_READABLE
  · obtain ⟨standing, asked⟩ := (fires_iff sound (.inl rfl)).mp fired
    obtain ⟨s', seg, proc, data, ran, leads, quiet, right⟩ := call_leads program sound standing (mem_asks.mp asked).2.1
    rw [if_pos fired, sound.table.reader, ran]
    refine ⟨s', _, rfl, leads, right, ?_, fun _ => ⟨proc, data, List.mem_cons_self⟩⟩
    rw [if_pos fired, calls_called quiet]
  · rw [if_neg fired]
    exact ⟨s, [], rfl, Leads.refl sound, trivial, (if_neg fired).symm, fun fires => absurd fires fired⟩

variable [DecidableEq Proc]

variable (program) (e) in
/-- The second half, by what has been called in the first one. -/
theorem fireWrite_leads (sound : b.Sound s) (rfired : Bool) : ∃ s' seg, b.fireWrite program rfired s e = .ok s' ∧ b.Leads s seg s' ∧
    Rightly s.log seg ∧ (calls seg).Sublist (if e.mask &&& AE_WRITABLE ≠ 0 then [(e.fd, AE_WRITABLE)] else []) ∧
      (fires s e AE_WRITABLE → (∃ proc data, .called e.fd AE_WRITABLE proc data e.mask ∈ seg) ∨
        rfired ∧ handler s.log e.fd AE_WRITABLE = handler s.log e.fd AE_READABLE) := by
  unfold fireWrite
  rw [sound.table.writer, sound.table.reader]
  by_cases fired : fires s e AE_WRITABLE
  · obtain ⟨standing, asked⟩ := (fires_iff sound (.inr rfl)).mp fired
    have bit := (mem_asks.mp asked).2.1
    by_cases called : ¬ rfired ∨ handler s.log e.fd AE_WRITABLE ≠ handler s.log e.fd AE_READABLE
    · obtain ⟨s', seg, proc, data, ran, leads, quiet, right⟩ := call_leads program sound standing bit
      rw [if_pos ⟨fired, called⟩, ran]
      refine ⟨s', _, rfl, leads, right, ?_, fun _ => .inl ⟨proc, data, List.mem_cons_self⟩⟩
      rw [if_pos bit, calls_called quiet]
    · rw [if_neg fun both => called both.2]
      refine ⟨s, [], rfl, Leads.refl sound, trivial, List.nil_sublist _, fun _ => .inr ?_⟩
      simpa using called
  · rw [if_neg fun both => fired both.1]
    exact ⟨s, [], rfl, Leads.refl sound, trivial, List.nil_sublist _, fun fires => absurd fires fired⟩

variable (program) in
theorem fire_leads (sound : b.Sound s) (low : 0 ≤ e.fd) (high : e.fd < s.eventLoop.setsize) :
    ∃ s' seg, b.fire program s e = .ok s' ∧ b.Leads s seg s' ∧ Faithful s.log seg [e] := by
  obtain ⟨s₁, seg₁, ran₁, leads₁, right₁, calls₁, called₁⟩ := fireRead_leads program e sound
  obtain ⟨s₂, seg₂, ran₂, leads₂, right₂, calls₂, called₂⟩ :=
    fireWrite_leads program e leads₁.sound (decide (fires s e AE_READABLE))
  refine ⟨s₂, seg₁ ++ seg₂, ?_, leads₁.trans leads₂, right₁.append (leads₁.log ▸ right₂), ?_, fun e' mem ev asked before => ?_⟩
  · rw [fire, if_pos ⟨low, high⟩, ran₁, ok_bind, ran₂]
  · rw [calls_append, calls₁, List.flatMap_singleton, aeFiredEvent.asks]
    refine List.Sublist.append ?_ calls₂
    by_cases fired : fires s e AE_READABLE
    · rw [if_pos fired, if_pos (mem_asks.mp ((fires_iff sound (.inl rfl)).mp fired).2).2.1]
    · rw [if_neg fired]
      exact List.nil_sublist _
  · obtain rfl := List.mem_singleton.mp mem
    rcases (mem_asks.mp asked).2.2 with rfl | rfl
    · obtain ⟨proc, data, called⟩ := called₁ ((fires_iff sound (.inl rfl)).mpr ⟨before, asked⟩)
      exact .inl ⟨proc, data, List.mem_append_left _ called⟩
    · by_cases still : stands s₁.log e'.fd AE_WRITABLE
      · rcases called₂ ((fires_iff leads₁.sound (.inr rfl)).mpr ⟨still, asked⟩) with ⟨proc, data, called⟩ | ⟨rfired, same⟩
        · exact .inl ⟨proc, data, List.mem_append_right _ called⟩
        · rw [leads₁.log] at same
          exact .inr (.inr ⟨rfl, seg₁, List.prefix_append _ _, called₁ (of_decide_eq_true rfired), same⟩)
      · rw [leads₁.log] at still
        exact (served_of_deleted before still).append seg₂

/-! ## Passes and runs -/

variable (program) in
theorem foldlM_leads (sound : b.Sound s) {l : List aeFiredEvent} (inside : ∀ e ∈ l, 0 ≤ e.fd ∧ e.fd < s.eventLoop.setsize) :
    ∃ s' seg, l.foldlM (b.fire program) s = .ok s' ∧ b.Leads s seg s' ∧ Faithful s.log seg l := by
  induction l generalizing s with
  | nil => exact ⟨s, [], rfl, Leads.refl sound, trivial, List.nil_sublist _, by simp⟩
  | cons e l ih =>
    obtain ⟨here, rest⟩ := List.forall_mem_cons.mp inside
    obtain ⟨s₁, seg₁, ran₁, leads₁, faithful₁⟩ := fire_leads program sound here.1 here.2
    obtain ⟨s₂, seg₂, ran₂, leads₂, faithful₂⟩ := ih leads₁.sound (by rwa [leads₁.size])
    refine ⟨s₂, seg₁ ++ seg₂, ?_, leads₁.trans leads₂, faithful₁.cons (leads₁.log ▸ faithful₂)⟩
    rw [List.foldlM_cons, ran₁]
    exact ran₂

theorem aeProcessEvents_eq {flags : Flags} {round : Round ρ Proc Data} {fired : List aeFiredEvent} {s₁ s₂ : Run σ Proc Data}
    {timers : Int} (polled : b.fired flags s round.report = .ok fired)
    (room : (fired.length : Int) ≤ max 0 s.eventLoop.setsize) (ran : fired.foldlM (b.fire program) s = .ok s₁)
    (ends : b.processTimers flags round s₁ = .ok (s₂, timers)) :
    b.aeProcessEvents program flags s round = .ok (s₂, fired.length + timers) := by
  rw [aeProcessEvents, polled, ok_bind, if_pos room, ran, ok_bind, ends]
  rfl

variable (program) in
theorem aeProcessEvents_leads (sound : b.Sound s) {round : Round ρ Proc Data} (reports : b.Reports s.eventLoop round.report)
    (flags : Flags) : ∃ fired s' processed seg, b.fired flags s round.report = .ok fired ∧
      b.aeProcessEvents program flags s round = .ok (s', processed) ∧ b.Leads s seg s' ∧
      Faithful s.log seg fired ∧ (fired.flatMap aeFiredEvent.asks).Nodup := by
  obtain ⟨fired, polled, inside, room, once⟩ := fired_polled sound reports flags
  obtain ⟨s₁, seg₁, ran, leads₁, faithful⟩ := foldlM_leads program sound inside
  obtain ⟨s₂, timers, seg₂, ends, leads₂, quiet⟩ := processTimers_leads leads₁.sound flags round
  refine ⟨fired, s₂, _, seg₁ ++ seg₂, polled, aeProcessEvents_eq polled room ran ends, leads₁.trans leads₂,
    ⟨faithful.right.append (rightly_of_calls quiet), ?_, ?_⟩, once⟩
  · rw [calls_append, quiet, List.append_nil]
    exact faithful.order
  · intro e mem ev asked before
    exact (faithful.served e mem ev asked before).append seg₂

/-- Every state that is reached is sound. -/
theorem reached_sound (reached : b.Reached program s) : b.Sound s := by
  induction reached with
  | create setsize holds => exact create_sound_loop b holds
  | @react s s' _ reaction ran ih =>
    obtain ⟨s'', seg, ran', leads, -⟩ := react_leads ih reaction
    obtain rfl := Except.ok.inj (ran.symm.trans ran')
    exact leads.sound
  | @pass s s' flags round processed _ reports ran ih =>
    obtain ⟨fired, s'', processed', seg, -, ran', leads, -⟩ := aeProcessEvents_leads program ih reports flags
    obtain ⟨rfl, -⟩ := Prod.mk.inj (Except.ok.inj (ran.symm.trans ran'))
    exact leads.sound

/-- A pass from any state that is reached returns. What it adds to the log calls a handler only where its event stands, with
the handler and the data of the last file event that was created for it; it calls one for an event that has fired, in the
order of these and at most once for each; and every event that has fired and stood before the pass is served. -/
theorem aeProcessEvents_faithful (b : Backend σ ρ Proc Data) (program : Program Proc Data) (s : Run σ Proc Data)
    (reached : b.Reached program s) (flags : Flags) (round : Round ρ Proc Data) (reports : b.Reports s.eventLoop round.report) :
    ∃ fired s' processed seg, b.fired flags s round.report = .ok fired ∧
      b.aeProcessEvents program flags s round = .ok (s', processed) ∧ s'.log = s.log ++ seg ∧
      Rightly s.log seg ∧ (calls seg).Sublist (fired.flatMap aeFiredEvent.asks) ∧ (calls seg).Nodup ∧
      ∀ e ∈ fired, ∀ ev, (e.fd, ev) ∈ e.asks → stands s.log e.fd ev → Served s.log seg e ev := by
  obtain ⟨fired, s', processed, seg, polled, ran, leads, faithful, once⟩ := aeProcessEvents_leads program (reached_sound reached) reports flags
  exact ⟨fired, s', processed, seg, polled, ran, leads.log, faithful.right, faithful.order, faithful.order.nodup once, faithful.served⟩

/-- The handler of the first descriptor deletes the event of the second one, which has fired too. -/
theorem aeProcessEvents_faithful_two :
    let both : Reaction Bool Unit := .aeCreateFileEvent 3 ⟨AE_READABLE, .inl rfl⟩ true () (false, false) fun _ =>
      .aeCreateFileEvent 4 ⟨AE_READABLE, .inl rfl⟩ false () (false, false) fun _ => .back
    let program : Program Bool Unit := fun _ proc _ _ _ => if proc then .aeDeleteFileEvent 4 ⟨AE_READABLE, .inl rfl⟩ .back else .back
    let round : Round Selected Bool Unit :=
      { report := { retval := 2, rfds := fun fd => decide (fd = 3 ∨ fd = 4), wfds := fun _ => false }, timers := fun _ => (.back, 0) }
    ∃ s, select.react both { eventLoop := select.aeCreateEventLoop 16, log := [] } = .ok s ∧
      ∃ fired s' processed seg, select.fired AE_FILE_EVENTS s round.report = .ok fired ∧
        select.aeProcessEvents program AE_FILE_EVENTS s round = .ok (s', processed) ∧ s'.log = s.log ++ seg ∧
        Rightly s.log seg ∧ (calls seg).Sublist (fired.flatMap aeFiredEvent.asks) ∧ (calls seg).Nodup ∧
        ∀ e ∈ fired, ∀ ev, (e.fd, ev) ∈ e.asks → stands s.log e.fd ev → Served s.log seg e ev := by
  intro both program round
  obtain ⟨s, ran⟩ : ∃ s, select.react both { eventLoop := select.aeCreateEventLoop 16, log := [] } = .ok s := ⟨_, rfl⟩
  have room : (16 : Int) ≤ FD_SETSIZE := by decide
  refine ⟨s, ran, aeProcessEvents_faithful select program s (.react (.create 16 room) ran) _ round fun fd => ⟨fun bit => ?_, nofun⟩⟩
  cases ran
  rcases of_decide_eq_true bit with rfl | rfl
  · exact ⟨rfl, by decide⟩
  · exact ⟨rfl, by decide⟩

end Backend

end CodeClips.Ae
