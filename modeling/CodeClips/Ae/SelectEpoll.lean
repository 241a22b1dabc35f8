import CodeClips.Ae.Dispatch
import Mathlib.Data.List.Sort

/-!
# The loop on `select` and on `epoll`

The two backends are asked and report in different ways: `ae_select.c` keeps bits and fires every descriptor that has a
mask, with an empty one where nothing is ready; `ae_epoll.c` keeps an interest list and fires what is ready only. `Twin`
holds of two loops, one on each, that a program cannot tell apart, and is kept by everything that happens to both. Where
the kernel refuses nothing and `epoll_wait` lists the descriptors in their order, they go on alike (`select_epoll`), as long
as both find the same ready. With an error or a hang-up they may not: `select` takes a hang-up for something to read,
`epoll_wait` reports it to whoever has asked for anything, and `ae_epoll.c` takes it for a descriptor that can be written.
-/

namespace CodeClips.Ae
variable {Proc Data : Type}

/-! ## What the kernel reports -/

/-- What `select` counts as ready to read. -/
def POLLIN_SET : Epoll.Events := Epoll.EPOLLIN ||| EPOLLHUP ||| EPOLLERR

/-- What `select` counts as ready to write. -/
def POLLOUT_SET : Epoll.Events := Epoll.EPOLLOUT ||| EPOLLERR

/-- What `select` leaves in the copies of the sets. -/
def selectReady (set : fd_set) (maxfd : Int) (ready : Int → Epoll.Events) (counted : Epoll.Events) : fd_set :=
  fun fd => set fd && decide (fd ≤ maxfd ∧ ready fd &&& counted ≠ 0)

/-- `select`, where `ready` is the state of the descriptors at that time; it returns the number of bits it leaves. -/
def selectWait (s : EventLoop FdSets Proc Data) (ready : Int → Epoll.Events) : Selected :=
  let rfds := selectReady s.apidata.rfds s.maxfd ready POLLIN_SET
  let wfds := selectReady s.apidata.wfds s.maxfd ready POLLOUT_SET
  { retval := ((List.range (s.maxfd + 1).toNat).countP fun j : Nat => rfds j) +
      (List.range (s.maxfd + 1).toNat).countP fun j : Nat => wfds j
    rfds := rfds
    wfds := wfds }

/-- What is reported of a descriptor: an error and a hang-up need not be asked for. -/
def epollEvents (asked ready : Epoll.Events) : Epoll.Events := ready &&& (asked ||| EPOLLERR ||| EPOLLHUP)

/-- `epoll_wait`, where it lists the descriptors in their order. -/
def epollWait (t : EventLoop Epoll.Interest Proc Data) (ready : Int → Epoll.Events) : List (Int × Epoll.Events) :=
  (List.range t.setsize.toNat).filterMap fun j : Nat =>
    (t.apidata j).bind fun asked => if epollEvents asked (ready j) = 0 then none else some (j, epollEvents asked (ready j))

/-- A pass: the flags, the state of the descriptors, and what the timers do. -/
structure LoopPass (Proc Data : Type) where
  flags : Flags
  ready : Int → Epoll.Events
  timers : List (Entry Proc Data) → Reaction Proc Data × Int

section Passes
variable {σ ρ : Type} [DecidableEq Proc] (b : Backend σ ρ Proc Data) (wait : EventLoop σ Proc Data → (Int → Epoll.Events) → ρ)
  (program : Program Proc Data)

def passes : List (LoopPass Proc Data) → Run σ Proc Data → Except Stop (Run σ Proc Data)
  | [], s => .ok s
  | pass :: rest, s => do
    let (s', _) ← b.aeProcessEvents program pass.flags s { report := wait s.eventLoop pass.ready, timers := pass.timers }
    passes rest s'

end Passes

/-- The kernel refuses none of the calls. -/
inductive Granted : Reaction Proc Data → Prop where
  | back : Granted .back
  | aeCreateFileEvent {fd mask proc clientData refusals ret} (granted : refusals.1 = false) (next : ∀ r, Granted (ret r)) :
      Granted (.aeCreateFileEvent fd mask proc clientData refusals ret)
  | aeDeleteFileEvent {fd mask ret} (next : Granted ret) : Granted (.aeDeleteFileEvent fd mask ret)
  | aeGetFileEvents {fd ret} (next : ∀ mask, Granted (ret mask)) : Granted (.aeGetFileEvents fd ret)
  | aeStop {ret} (next : Granted ret) : Granted (.aeStop ret)

/-- Both backends find the same ready of a descriptor with mask `m`: there is no error and no hang-up, or what they are
taken for is asked for and found by both. -/
def SameReady (m : Mask) (ready : Epoll.Events) : Prop :=
  ready &&& (EPOLLERR ||| EPOLLHUP) = 0 ∨
    m &&& AE_WRITABLE ≠ 0 ∧ ready &&& POLLOUT_SET ≠ 0 ∧ (m &&& AE_READABLE = 0 ∨ ready &&& Epoll.EPOLLIN ≠ 0)

instance (m : Mask) (ready : Epoll.Events) : Decidable (SameReady m ready) := inferInstanceAs (Decidable (_ ∨ _))

/-- They do so of every descriptor with an event, in this state and in the ones before the passes behind it. -/
def Unanimous [DecidableEq Proc] (program : Program Proc Data) : List (LoopPass Proc Data) → Run FdSets Proc Data → Prop
  | [], _ => True
  | pass :: rest, s =>
    (∀ fd, (s.eventLoop.events fd).mask ≠ AE_NONE → SameReady (s.eventLoop.events fd).mask (pass.ready fd)) ∧
    ∀ s' processed, select.aeProcessEvents program pass.flags s ⟨selectWait s.eventLoop pass.ready, pass.timers⟩ = .ok (s', processed) →
      Unanimous program rest s'

/-- Without errors and hang-ups they always do. -/
theorem unanimous_of_quiet [DecidableEq Proc] (program : Program Proc Data) {l : List (LoopPass Proc Data)}
    (quiet : ∀ pass ∈ l, ∀ fd, pass.ready fd &&& (EPOLLERR ||| EPOLLHUP) = 0) (s : Run FdSets Proc Data) : Unanimous program l s := by
  induction l generalizing s with
  | nil => trivial
  | cons pass l ih =>
    obtain ⟨here, rest⟩ := List.forall_mem_cons.mp quiet
    exact ⟨fun fd _ => .inl (here fd), fun s' _ _ => ih rest s'⟩

/-! ## Twins -/

/-- A loop on `select` and one on `epoll` with the same file events and the same log; each kernel is asked for these. -/
structure Twin (s : Run FdSets Proc Data) (t : Run Epoll.Interest Proc Data) : Prop where
  log : s.log = t.log
  maxfd : s.eventLoop.maxfd = t.eventLoop.maxfd
  setsize : s.eventLoop.setsize = t.eventLoop.setsize
  events : s.eventLoop.events = t.eventLoop.events
  stop : s.eventLoop.stop = t.eventLoop.stop
  reads : ∀ fd, s.eventLoop.apidata.rfds fd ↔ (s.eventLoop.events fd).mask &&& AE_READABLE ≠ 0
  writes : ∀ fd, s.eventLoop.apidata.wfds fd ↔ (s.eventLoop.events fd).mask &&& AE_WRITABLE ≠ 0
  agree : t.eventLoop.epoll.Agree
  left : select.Sound s
  right : epoll.Sound t

variable {s : Run FdSets Proc Data} {t : Run Epoll.Interest Proc Data} {fd : Nat} {mask : Mask}

/-- The bits after `aeApiAddEvent`. -/
theorem set_iff {set : fd_set} {old : Int → Mask} {ev : Mask} (single : ev = AE_READABLE ∨ ev = AE_WRITABLE)
    (bits : ∀ fd, set fd ↔ old fd &&& ev ≠ 0) (held : old fd = AE_NONE ∨ Asked (old fd))
    (asked : Asked mask) (other : Int) :
    (if mask &&& ev ≠ 0 then Function.update set fd true else set) other ↔
      (if other = fd then old fd ||| mask else old other) &&& ev ≠ 0 := by
  by_cases here : other = fd
  · subst here
    rw [if_pos rfl, or_and_ne held asked single]
    split_ifs with touches
    · simp only [Function.update_self, touches, ne_eq, not_false_eq_true, true_or]
    · rw [bits]
      exact (or_iff_right touches).symm
  · rw [if_neg here, ← bits]
    split
    · rw [Function.update_of_ne here]
    · rfl

/-- The bits after `aeApiDelEvent`. -/
theorem clear_iff {set : fd_set} {old : Int → Mask} {ev : Mask} (single : ev = AE_READABLE ∨ ev = AE_WRITABLE)
    (bits : ∀ fd, set fd ↔ old fd &&& ev ≠ 0) (held : old fd = AE_NONE ∨ Asked (old fd)) (asked : Asked mask) (other : Int) :
    (if mask &&& ev ≠ 0 then Function.update set fd false else set) other ↔
      (if other = fd then old fd &&& ~~~mask else old other) &&& ev ≠ 0 := by
  by_cases here : other = fd
  · subst here
    rw [if_pos rfl, sdiff_and_ne held asked single]
    split_ifs with touches
    · rw [Function.update_self]
      exact ⟨nofun, fun both => absurd both.1 touches⟩
    · rw [bits]
      exact (and_iff_right (not_not.mp touches)).symm
  · rw [if_neg here, ← bits]
    split
    · rw [Function.update_of_ne here]
    · rfl

theorem update_mask {events : Int → aeFileEvent Proc Data} {fe : aeFileEvent Proc Data} (fd other : Int) :
    (Function.update events fd fe other).mask = if other = fd then fe.mask else (events other).mask := by
  split
  · next here => rw [here, Function.update_self]
  · next here => rw [Function.update_of_ne here]

/-- Descriptors that are not outside fit into the sets. -/
theorem Twin.room (twin : Twin s t) (inside : ¬ (fd : Int) ≥ s.eventLoop.setsize) : (0 : Int) ≤ fd ∧ (fd : Int) < FD_SETSIZE :=
  ⟨Int.natCast_nonneg fd, Int.lt_of_lt_of_le (Int.not_le.mp inside) twin.left.holds⟩

/-- What the kernel is asked for after `aeApiDelEvent`: the mask has been lowered before. -/
theorem agree_deleted {loop : EventLoop Epoll.Interest Proc Data} (agree : loop.epoll.Agree)
    (held : (loop.events fd).mask ≠ AE_NONE) (mask : Mask) :
    ({ Backend.lowered loop fd mask with
      apidata := aeApiDelEvent (Backend.lowered loop fd mask).epoll fd mask } : EventLoop Epoll.Interest Proc Data).epoll.Agree := by
  have touched := agree_update agree fd (Backend.lowered loop fd mask).maxfd
    { loop.events fd with mask := (loop.events fd).mask &&& ~~~mask }
  have known : (Backend.lowered loop fd mask).epoll.interest fd ≠ Option.none := by
    show loop.epoll.interest fd ≠ Option.none
    exact ((agree fd).trans (if_neg held)) ▸ Option.some_ne_none _
  have here : (Backend.lowered loop fd mask).epoll.events fd =
      { loop.events fd with mask := (loop.events fd).mask &&& ~~~mask } := Function.update_self _ _ _
  have twice : ((Backend.lowered loop fd mask).epoll.events fd).mask &&& ~~~mask =
      ((Backend.lowered loop fd mask).epoll.events fd).mask := by
    rw [here]
    exact mask_sdiff_twice _ _
  have deleted : aeApiDelEvent (Backend.lowered loop fd mask).epoll fd mask = _ := aeApiDelEvent_eq _ known twice
  rw [deleted, here]
  exact touched

variable (fd) in
/-- A file event that is created on both loops. -/
theorem Twin.create (twin : Twin s t) (asked : Asked mask) (proc : Proc) (data : Data) {refusals : Refusals}
    (granted : refusals.1 = false) :
    ∃ s' t' ret, select.create s fd mask proc data refusals = .ok (s', ret) ∧
      epoll.create t fd mask proc data refusals = .ok (t', ret) ∧ Twin s' t' := by
  by_cases outside : (fd : Int) ≥ s.eventLoop.setsize
  · have outside' : (fd : Int) ≥ t.eventLoop.setsize := twin.setsize ▸ outside
    exact ⟨s, t, _, Backend.create_outside outside mask proc data refusals, Backend.create_outside outside' mask proc data refusals, twin⟩
  have outside' : ¬ (fd : Int) ≥ t.eventLoop.setsize := twin.setsize ▸ outside
  have accepted : (0 : Int) ≠ -1 := by decide
  have added' : epoll.aeApiAddEvent t.eventLoop fd mask refusals = .ok (Function.update t.eventLoop.apidata (fd : Int)
      (some (eeEvents (mask ||| (t.eventLoop.events fd).mask))), 0) := by
    show Except.ok (Ae.aeApiAddEvent t.eventLoop.epoll fd mask refusals.1) = _
    rw [aeApiAddEvent_eq twin.agree, granted]
    rfl
  have ran : select.create s fd mask proc data refusals = _ :=
    Backend.create_inside outside (selectAdd_ok (twin.room outside) s.eventLoop.apidata mask) accepted
  have ran' : epoll.create t fd mask proc data refusals = _ := Backend.create_inside outside' added' accepted
  have left := Backend.create_sound twin.left asked ran
  have right := Backend.create_sound twin.right asked ran'
  have sets := twin.left.table.sets fd
  refine ⟨_, _, _, ran, ran', by rw [twin.log], ?_, twin.setsize, by rw [twin.events], twin.stop, fun other => ?_, fun other => ?_,
    ?_, left, right⟩
  · dsimp only
    rw [twin.maxfd]
  · rw [set_iff (.inl rfl) twin.reads sets asked, update_mask, aeFileEvent.set_mask]
  · rw [set_iff (.inr rfl) twin.writes sets asked, update_mask, aeFileEvent.set_mask]
  · have touched := agree_update twin.agree fd (if (fd : Int) > t.eventLoop.maxfd then (fd : Int) else t.eventLoop.maxfd)
      ((t.eventLoop.events fd).set mask proc data)
    have some' : ((t.eventLoop.events fd).set mask proc data).mask ≠ AE_NONE := by
      rw [aeFileEvent.set_mask]
      exact (mask_or (twin.right.table.sets fd) asked).ne
    rw [if_neg some', aeFileEvent.set_mask, BitVec.or_comm] at touched
    exact touched

variable (fd) in
/-- One that is deleted on both. -/
theorem Twin.delete (twin : Twin s t) (asked : Asked mask) :
    ∃ s' t', select.delete s fd mask = .ok s' ∧ epoll.delete t fd mask = .ok t' ∧ Twin s' t' := by
  by_cases none : (fd : Int) ≥ s.eventLoop.setsize ∨ (s.eventLoop.events fd).mask = AE_NONE
  · have none' : (fd : Int) ≥ t.eventLoop.setsize ∨ (t.eventLoop.events fd).mask = AE_NONE := by
      rwa [← twin.setsize, ← twin.events]
    have ran : select.delete s fd mask = _ := Backend.delete_none none
    have ran' : epoll.delete t fd mask = _ := Backend.delete_none none'
    exact ⟨_, _, ran, ran', by rw [twin.log], twin.maxfd, twin.setsize, twin.events, twin.stop, twin.reads, twin.writes, twin.agree,
      Backend.delete_sound twin.left asked ran, Backend.delete_sound twin.right asked ran'⟩
  obtain ⟨outside, held⟩ := not_or.mp none
  have outside' : ¬ (fd : Int) ≥ t.eventLoop.setsize := twin.setsize ▸ outside
  have held' : (t.eventLoop.events fd).mask ≠ AE_NONE := twin.events ▸ held
  have ran := Backend.delete_held (b := select) outside held (selectDel_ok (twin.room outside) s.eventLoop.apidata mask)
  have ran' := Backend.delete_held (b := epoll) outside' held' (show epoll.aeApiDelEvent (Backend.lowered t.eventLoop fd mask) fd mask = _ from rfl)
  have left := Backend.delete_sound twin.left asked ran
  have right := Backend.delete_sound twin.right asked ran'
  have sets := twin.left.table.sets fd
  refine ⟨_, _, ran, ran', by rw [twin.log], ?_, twin.setsize, ?_, twin.stop, fun other => ?_, fun other => ?_, ?_, left, right⟩
  · show (Backend.lowered s.eventLoop fd mask).maxfd = (Backend.lowered t.eventLoop fd mask).maxfd
    unfold Backend.lowered
    rw [twin.events, twin.maxfd]
  · show (Backend.lowered s.eventLoop fd mask).events = (Backend.lowered t.eventLoop fd mask).events
    unfold Backend.lowered
    rw [twin.events]
  · have bits := clear_iff (.inl rfl) twin.reads sets asked other
    show _ ↔ (Function.update s.eventLoop.events _ _ other).mask &&& AE_READABLE ≠ 0
    rwa [update_mask]
  · have bits := clear_iff (.inr rfl) twin.writes sets asked other
    show _ ↔ (Function.update s.eventLoop.events _ _ other).mask &&& AE_WRITABLE ≠ 0
    rwa [update_mask]
  · exact agree_deleted twin.agree held' mask

/-- Whatever the program does to both. -/
theorem Twin.react {reaction : Reaction Proc Data} (granted : Granted reaction) (twin : Twin s t) :
    ∃ s' t', select.react reaction s = .ok s' ∧ epoll.react reaction t = .ok t' ∧ Twin s' t' := by
  induction granted generalizing s t with
  | back => exact ⟨s, t, rfl, rfl, twin⟩
  | @aeCreateFileEvent fd mask proc data refusals ret accepted _ ih =>
    obtain ⟨s₁, t₁, r, ran, ran', twin₁⟩ := twin.create fd mask.2 proc data accepted
    obtain ⟨s₂, t₂, rest, rest', twin₂⟩ := ih r twin₁
    refine ⟨s₂, t₂, ?_, ?_, twin₂⟩
    · rw [Backend.react, ran]
      exact rest
    · rw [Backend.react, ran']
      exact rest'
  | @aeDeleteFileEvent fd mask ret _ ih =>
    obtain ⟨s₁, t₁, ran, ran', twin₁⟩ := twin.delete fd mask.2
    obtain ⟨s₂, t₂, rest, rest', twin₂⟩ := ih twin₁
    refine ⟨s₂, t₂, ?_, ?_, twin₂⟩
    · rw [Backend.react, ran]
      exact rest
    · rw [Backend.react, ran']
      exact rest'
  | @aeGetFileEvents fd ret _ ih =>
    have same : Backend.aeGetFileEvents s.eventLoop fd = Backend.aeGetFileEvents t.eventLoop fd := by
      rw [Backend.aeGetFileEvents, Backend.aeGetFileEvents, twin.setsize, twin.events]
    rw [Backend.react, Backend.react, same]
    exact ih _ twin
  | aeStop _ ih =>
    exact ih ⟨twin.log, twin.maxfd, twin.setsize, twin.events, rfl, twin.reads, twin.writes, twin.agree,
      ⟨twin.left.holds, ⟨twin.left.ranged.masks, twin.left.ranged.watches, twin.left.ranged.top⟩, twin.left.table⟩,
      ⟨twin.right.holds, ⟨twin.right.ranged.masks, twin.right.ranged.watches, twin.right.ranged.top⟩, twin.right.table⟩⟩

/-! ## The same handlers -/

/-- Both have failed alike, or go on as twins. -/
inductive Alike : Except Stop (Run FdSets Proc Data) → Except Stop (Run Epoll.Interest Proc Data) → Prop where
  | ok {s : Run FdSets Proc Data} {t : Run Epoll.Interest Proc Data} (twin : Twin s t) : Alike (.ok s) (.ok t)
  | error (stop : Stop) : Alike (.error stop) (.error stop)

variable {program : Program Proc Data} (granted : ∀ log proc fd data mask, Granted (program log proc fd data mask))

include granted in
theorem Twin.call (twin : Twin s t) (fd : Int) (ev : Mask) (proc : Option Proc) (mask : Mask) :
    Alike (select.call program s fd ev proc mask) (epoll.call program t fd ev proc mask) := by
  unfold Backend.call
  rw [← twin.events, ← twin.log]
  cases proc with
  | none => exact .error _
  | some proc =>
    cases (s.eventLoop.events fd).clientData with
    | none => exact .error _
    | some data =>
      have called : Twin { s with log := s.log ++ [.called fd ev proc data mask] } { t with log := s.log ++ [.called fd ev proc data mask] } := by
        refine ⟨rfl, twin.maxfd, twin.setsize, twin.events, twin.stop, twin.reads, twin.writes, twin.agree,
          ⟨twin.left.holds, twin.left.ranged, twin.left.table.called⟩, twin.right.holds, twin.right.ranged, ?_⟩
        rw [twin.log]
        exact twin.right.table.called
      obtain ⟨s', t', ran, ran', twin'⟩ := called.react (granted s.log proc fd data mask)
      show Alike (select.react _ _) (epoll.react _ _)
      rw [ran, ran']
      exact .ok twin'

variable [DecidableEq Proc]

include granted in
theorem Twin.fire (twin : Twin s t) (e : aeFiredEvent) : Alike (select.fire program s e) (epoll.fire program t e) := by
  unfold Backend.fire
  rw [← twin.setsize]
  split
  · have rfired : Backend.fires s e AE_READABLE ↔ Backend.fires t e AE_READABLE := by
      rw [Backend.fires, Backend.fires, twin.events]
    have read : Alike (select.fireRead program s e) (epoll.fireRead program t e) := by
      unfold Backend.fireRead
      by_cases fired : Backend.fires s e AE_READABLE
      · rw [if_pos fired, if_pos (rfired.mp fired), ← twin.events]
        exact twin.call granted _ _ _ _
      · rw [if_neg fired, if_neg (rfired.not.mp fired)]
        exact .ok twin
    rw [decide_eq_decide.mpr rfired]
    generalize decide (Backend.fires t e AE_READABLE) = called
    generalize select.fireRead program s e = x at read
    generalize epoll.fireRead program t e = y at read
    cases read with
    | error stop => exact .error stop
    | @ok s₁ t₁ twin₁ =>
      show Alike (select.fireWrite program called s₁ e) (epoll.fireWrite program called t₁ e)
      have wfired : Backend.fires s₁ e AE_WRITABLE ↔ Backend.fires t₁ e AE_WRITABLE := by
        rw [Backend.fires, Backend.fires, twin₁.events]
      unfold Backend.fireWrite
      rw [← twin₁.events]
      by_cases writes : Backend.fires s₁ e AE_WRITABLE ∧
          (¬ called ∨ (s₁.eventLoop.events e.fd).wfileProc ≠ (s₁.eventLoop.events e.fd).rfileProc)
      · rw [if_pos writes, if_pos ⟨wfired.mp writes.1, writes.2⟩]
        exact twin₁.call granted _ _ _ _
      · rw [if_neg writes, if_neg fun both => writes ⟨wfired.mpr both.1, both.2⟩]
        exact .ok twin₁
  · exact .error _

include granted in
theorem Twin.foldlM (twin : Twin s t) (l : List aeFiredEvent) :
    Alike (l.foldlM (select.fire program) s) (l.foldlM (epoll.fire program) t) := by
  induction l generalizing s t with
  | nil => exact .ok twin
  | cons e l ih =>
    rw [List.foldlM_cons, List.foldlM_cons]
    have first := twin.fire granted e
    generalize select.fire program s e = x at first
    generalize epoll.fire program t e = y at first
    cases first with
    | error stop => exact .error stop
    | ok twin₁ => exact ih twin₁

/-! ## The same events -/

omit [DecidableEq Proc]

section Masks
variable {m : Mask} {ready : Epoll.Events}

theorem and_or_eq_zero {a b : Epoll.Events} : ready &&& (a ||| b) = 0 ↔ ready &&& a = 0 ∧ ready &&& b = 0 := by
  rw [BitVec.and_or_distrib_left]
  exact BitVec.or_eq_zero_iff

/-- The tests of `aeApiPoll` on what is reported. -/
theorem epollEvents_and (m : Mask) (ready : Epoll.Events) :
    (epollEvents (eeEvents m) ready &&& Epoll.EPOLLIN = 0 ↔ m &&& AE_READABLE = 0 ∨ ready &&& Epoll.EPOLLIN = 0) ∧
    (epollEvents (eeEvents m) ready &&& Epoll.EPOLLOUT = 0 ↔ m &&& AE_WRITABLE = 0 ∨ ready &&& Epoll.EPOLLOUT = 0) ∧
    epollEvents (eeEvents m) ready &&& EPOLLERR = ready &&& EPOLLERR ∧
    epollEvents (eeEvents m) ready &&& EPOLLHUP = ready &&& EPOLLHUP := by
  have zero : ready &&& 0 = 0 := BitVec.and_zero
  simp only [epollEvents, BitVec.and_assoc, eeEvents]
  by_cases r : m &&& AE_READABLE = 0 <;> by_cases w : m &&& AE_WRITABLE = 0 <;>
    simp only [r, w, ne_eq, not_true_eq_false, not_false_eq_true, if_true, if_false, true_or, false_or]
  all_goals
    refine ⟨?_, ?_, ?_, ?_⟩
  all_goals first
    | rfl
    | exact iff_true_intro zero
  

/-- What `epoll` finds ready of a descriptor. -/
theorem epollMask_epollEvents (m : Mask) (ready : Epoll.Events) : epollMask (epollEvents (eeEvents m) ready) =
    (let mask := if m &&& AE_READABLE ≠ 0 ∧ ready &&& Epoll.EPOLLIN ≠ 0 then AE_NONE ||| AE_READABLE else AE_NONE
     if m &&& AE_WRITABLE ≠ 0 ∧ ready &&& Epoll.EPOLLOUT ≠ 0 ∨ ready &&& (EPOLLERR ||| EPOLLHUP) ≠ 0 then mask ||| AE_WRITABLE
     else mask) := by
  obtain ⟨reads, writes, errs, hangs⟩ := epollEvents_and m ready
  simp only [epollMask, ne_eq, reads, writes, errs, hangs, not_or, and_or_eq_zero, not_and_or]
  by_cases e : ready &&& EPOLLERR = 0 <;> by_cases h : ready &&& EPOLLHUP = 0 <;>
    by_cases r : ¬ m &&& AE_READABLE = 0 ∧ ¬ ready &&& Epoll.EPOLLIN = 0 <;>
    by_cases w : ¬ m &&& AE_WRITABLE = 0 ∧ ¬ ready &&& Epoll.EPOLLOUT = 0 <;>
    simp only [e, h, r, w, not_true_eq_false, not_false_eq_true, if_true, if_false, or_true, or_false, or_self,
      and_self] <;> decide

theorem epollEvents_eq_zero (m : Mask) (ready : Epoll.Events) : epollEvents (eeEvents m) ready = 0 ↔
    ¬ (m &&& AE_READABLE ≠ 0 ∧ ready &&& Epoll.EPOLLIN ≠ 0) ∧ ¬ (m &&& AE_WRITABLE ≠ 0 ∧ ready &&& Epoll.EPOLLOUT ≠ 0) ∧
      ready &&& (EPOLLERR ||| EPOLLHUP) = 0 := by
  have none : ready &&& 0 = 0 := BitVec.and_zero
  rw [epollEvents, BitVec.or_assoc, and_or_eq_zero, eeEvents]
  by_cases r : m &&& AE_READABLE = 0 <;> by_cases w : m &&& AE_WRITABLE = 0 <;>
    simp only [r, w, ne_eq, not_true_eq_false, not_false_eq_true, if_true, if_false, and_or_eq_zero, none, false_and,
      true_and, not_not, and_assoc]

/-- Whatever is reported fires. -/
theorem epollMask_ne (m : Mask) (ready : Epoll.Events) :
    epollMask (epollEvents (eeEvents m) ready) ≠ AE_NONE ↔ epollEvents (eeEvents m) ready ≠ 0 := by
  rw [not_iff_not, epollEvents_eq_zero, epollMask_epollEvents]
  simp only [ne_eq]
  by_cases r : ¬ m &&& AE_READABLE = 0 ∧ ¬ ready &&& Epoll.EPOLLIN = 0 <;>
    by_cases w : ¬ m &&& AE_WRITABLE = 0 ∧ ¬ ready &&& Epoll.EPOLLOUT = 0 <;>
    by_cases f : ready &&& (EPOLLERR ||| EPOLLHUP) = 0 <;> simp only [r, w, f] <;> decide

/-- What `select` finds ready of a descriptor. -/
def readyMask (m : Mask) (ready : Epoll.Events) : Mask :=
  let mask := if m &&& AE_READABLE ≠ 0 ∧ ready &&& POLLIN_SET ≠ 0 then AE_NONE ||| AE_READABLE else AE_NONE
  if m &&& AE_WRITABLE ≠ 0 ∧ ready &&& POLLOUT_SET ≠ 0 then mask ||| AE_WRITABLE else mask

/-- The two find the same exactly then. -/
theorem epollMask_eq_iff (m : Mask) (ready : Epoll.Events) :
    epollMask (epollEvents (eeEvents m) ready) = readyMask m ready ↔ SameReady m ready := by
  rw [epollMask_epollEvents]
  simp only [readyMask, SameReady, POLLIN_SET, POLLOUT_SET, ne_eq, and_or_eq_zero]
  by_cases e : ready &&& EPOLLERR = 0 <;> by_cases h : ready &&& EPOLLHUP = 0 <;>
    by_cases i : ready &&& Epoll.EPOLLIN = 0 <;> by_cases o : ready &&& Epoll.EPOLLOUT = 0 <;>
    by_cases r : m &&& AE_READABLE = 0 <;> by_cases w : m &&& AE_WRITABLE = 0 <;>
    simp only [e, h, i, o, r, w] <;> decide
end Masks

variable {ready : Int → Epoll.Events}

variable (ready) in
theorem Twin.selectMask_eq (twin : Twin s t) {j : Int} (low : j ≤ s.eventLoop.maxfd) :
    selectMask s.eventLoop (selectWait s.eventLoop ready) j = readyMask (s.eventLoop.events j).mask (ready j) := by
  have reads : (selectWait s.eventLoop ready).rfds j ↔ (s.eventLoop.events j).mask &&& AE_READABLE ≠ 0 ∧ ready j &&& POLLIN_SET ≠ 0 := by
    show (s.eventLoop.apidata.rfds j && _) = true ↔ _
    rw [Bool.and_eq_true, twin.reads, decide_eq_true_eq, and_iff_right low]
  have writes : (selectWait s.eventLoop ready).wfds j ↔ (s.eventLoop.events j).mask &&& AE_WRITABLE ≠ 0 ∧ ready j &&& POLLOUT_SET ≠ 0 := by
    show (s.eventLoop.apidata.wfds j && _) = true ↔ _
    rw [Bool.and_eq_true, twin.writes, decide_eq_true_eq, and_iff_right low]
  rw [readyMask, selectMask]
  simp only [reads, writes, and_self_left]

theorem mem_epollWait {x : Int × Epoll.Events} : x ∈ epollWait t.eventLoop ready ↔
    0 ≤ x.1 ∧ x.1 < t.eventLoop.setsize ∧ ∃ asked, t.eventLoop.apidata x.1 = some asked ∧
      x.2 = epollEvents asked (ready x.1) ∧ x.2 ≠ 0 := by
  unfold epollWait
  rw [List.mem_filterMap]
  constructor
  · rintro ⟨j, inside, got⟩
    rw [List.mem_range] at inside
    obtain ⟨asked, known, some'⟩ := Option.bind_eq_some_iff.mp got
    split_ifs at some' with none
    cases some'
    have room : (j : Int) < t.eventLoop.setsize := by omega
    exact ⟨Int.natCast_nonneg j, room, asked, known, rfl, none⟩
  · rintro ⟨low, high, asked, known, got, some'⟩
    refine ⟨x.1.toNat, by rw [List.mem_range]; omega, ?_⟩
    rw [Int.toNat_of_nonneg low, known, Option.bind_some, ← got, if_neg some']

theorem epollWait_sorted (l : EventLoop Epoll.Interest Proc Data) (ready : Int → Epoll.Events) :
    (epollWait l ready).Pairwise fun x y => x.1 < y.1 := by
  unfold epollWait
  rw [List.pairwise_filterMap]
  refine List.pairwise_lt_range.imp ?_
  intro i j less x first y second
  obtain ⟨_, -, first⟩ := Option.bind_eq_some_iff.mp first
  obtain ⟨_, -, second⟩ := Option.bind_eq_some_iff.mp second
  split_ifs at first second
  cases first
  cases second
  exact Int.ofNat_lt.mpr less

/-- `select` finds something if anything is ready. -/
theorem retval_pos {l : EventLoop FdSets Proc Data} {j : Int} (low : 0 ≤ j) (high : j ≤ l.maxfd)
    (some' : selectMask l (selectWait l ready) j ≠ AE_NONE) : (selectWait l ready).retval > 0 := by
  have inside : j.toNat ∈ List.range (l.maxfd + 1).toNat := by rw [List.mem_range]; omega
  have bit : (selectWait l ready).rfds j ∨ (selectWait l ready).wfds j := by
    by_contra neither
    obtain ⟨reads, writes⟩ := not_or.mp neither
    apply some'
    simp only [selectMask, reads, writes, and_false, if_false, Bool.false_eq_true]
  show 0 < (((List.range (l.maxfd + 1).toNat).countP fun j : Nat => (selectWait l ready).rfds j : Nat) : Int) +
    ((List.range (l.maxfd + 1).toNat).countP fun j : Nat => (selectWait l ready).wfds j : Nat)
  rcases bit with bit | bit
  · have found := List.countP_pos_iff (p := fun j : Nat => (selectWait l ready).rfds j).mpr
      ⟨j.toNat, inside, by rwa [Int.toNat_of_nonneg low]⟩
    omega
  · have found := List.countP_pos_iff (p := fun j : Nat => (selectWait l ready).wfds j).mpr
      ⟨j.toNat, inside, by rwa [Int.toNat_of_nonneg low]⟩
    omega

theorem Twin.asked_eq (twin : Twin s t) (fd : Int) : t.eventLoop.apidata fd =
    if (s.eventLoop.events fd).mask = AE_NONE then none else some (eeEvents (s.eventLoop.events fd).mask) := by
  rw [twin.events]
  exact twin.agree fd

/-- What the two loops fire: `select` with something ready, and `epoll`. -/
def selectFires (s : Run FdSets Proc Data) (ready : Int → Epoll.Events) : List aeFiredEvent :=
  (if (selectWait s.eventLoop ready).retval > 0 then selectFired s.eventLoop (selectWait s.eventLoop ready) else []).filter
    fun e => e.mask ≠ AE_NONE

def epollFires (t : Run Epoll.Interest Proc Data) (ready : Int → Epoll.Events) : List aeFiredEvent :=
  (epollWait t.eventLoop ready).map fun e => { fd := e.1, mask := epollMask e.2 }

theorem Twin.mem_selectFires (twin : Twin s t) {e : aeFiredEvent} : e ∈ selectFires s ready ↔
    (s.eventLoop.events e.fd).mask ≠ AE_NONE ∧ e.mask = readyMask (s.eventLoop.events e.fd).mask (ready e.fd) ∧ e.mask ≠ AE_NONE := by
  rw [selectFires, List.mem_filter, decide_eq_true_eq]
  constructor
  · rintro ⟨mem, some'⟩
    split_ifs at mem
    · obtain ⟨low, high, held, mask⟩ := mem_selectFired.mp mem
      exact ⟨held, mask.trans (twin.selectMask_eq ready high), some'⟩
    · cases mem
  · rintro ⟨held, mask, some'⟩
    obtain ⟨low, high⟩ := twin.left.ranged.masks e.fd held
    rw [← twin.selectMask_eq ready high] at mask
    have found := retval_pos low high (mask ▸ some')
    rw [if_pos found]
    exact ⟨mem_selectFired.mpr ⟨low, high, held, mask⟩, some'⟩

theorem Twin.mem_epollFires (twin : Twin s t) {e : aeFiredEvent} : e ∈ epollFires t ready ↔
    (s.eventLoop.events e.fd).mask ≠ AE_NONE ∧
      e.mask = epollMask (epollEvents (eeEvents (s.eventLoop.events e.fd).mask) (ready e.fd)) ∧ e.mask ≠ AE_NONE := by
  rw [epollFires, List.mem_map]
  constructor
  · rintro ⟨x, inside, rfl⟩
    obtain ⟨low, high, asked, known, got, some'⟩ := mem_epollWait.mp inside
    rw [twin.asked_eq] at known
    split_ifs at known with none
    cases known
    rw [got] at some'
    exact ⟨none, by rw [got], by rw [got]; exact (epollMask_ne _ _).mpr some'⟩
  · rintro ⟨held, mask, some'⟩
    obtain ⟨low, high⟩ := twin.left.ranged.masks e.fd held
    have top := twin.left.ranged.top
    have size := twin.setsize
    have inside : e.fd < t.eventLoop.setsize := by omega
    have asked := (twin.asked_eq e.fd).trans (if_neg held)
    rw [mask] at some'
    exact ⟨(e.fd, epollEvents (eeEvents (s.eventLoop.events e.fd).mask) (ready e.fd)),
      mem_epollWait.mpr ⟨low, inside, _, asked, rfl, (epollMask_ne _ _).mp some'⟩, by rw [← mask]⟩

/-- The two fire the same exactly if both find the same ready of every descriptor with an event. -/
theorem Twin.fires_eq_iff (twin : Twin s t) : selectFires s ready = epollFires t ready ↔
    ∀ fd, (s.eventLoop.events fd).mask ≠ AE_NONE → SameReady (s.eventLoop.events fd).mask (ready fd) := by
  constructor
  · intro same fd held
    rw [← epollMask_eq_iff]
    by_cases none : epollMask (epollEvents (eeEvents (s.eventLoop.events fd).mask) (ready fd)) = AE_NONE
    · by_contra differ
      rw [none] at differ
      have fires : { fd := fd, mask := readyMask (s.eventLoop.events fd).mask (ready fd) } ∈ selectFires s ready :=
        twin.mem_selectFires.mpr ⟨held, rfl, Ne.symm differ⟩
      rw [same] at fires
      exact (twin.mem_epollFires.mp fires).2.2 ((twin.mem_epollFires.mp fires).2.1.trans none)
    · have fires : { fd := fd, mask := epollMask (epollEvents (eeEvents (s.eventLoop.events fd).mask) (ready fd)) } ∈ epollFires t ready :=
        twin.mem_epollFires.mpr ⟨held, rfl, none⟩
      rw [← same] at fires
      exact (twin.mem_selectFires.mp fires).2.1
  · intro same
    have : Std.Irrefl fun x y : aeFiredEvent => x.fd < y.fd := ⟨fun x => Int.lt_irrefl x.fd⟩
    have : Std.Antisymm fun x y : aeFiredEvent => x.fd < y.fd := ⟨fun x y less more => absurd (Int.lt_trans less more) (Int.lt_irrefl _)⟩
    have sorted : (selectFires s ready).Pairwise fun x y => x.fd < y.fd := by
      refine List.Pairwise.filter _ ?_
      split
      · exact selectFired_sorted _ _
      · exact List.Pairwise.nil
    have sorted' : (epollFires t ready).Pairwise fun x y => x.fd < y.fd := List.pairwise_map.mpr (epollWait_sorted _ _)
    refine sorted.eq_of_mem_iff sorted' fun e => ?_
    rw [twin.mem_selectFires, twin.mem_epollFires]
    constructor
    · rintro ⟨held, mask, some'⟩
      exact ⟨held, mask.trans ((epollMask_eq_iff _ _).mpr (same e.fd held)).symm, some'⟩
    · rintro ⟨held, mask, some'⟩
      exact ⟨held, mask.trans ((epollMask_eq_iff _ _).mpr (same e.fd held)), some'⟩

theorem select_poll {fired : List aeFiredEvent} (polled : select.aeApiPoll s.eventLoop (selectWait s.eventLoop ready) = .ok fired) :
    fired.filter (fun e => e.mask ≠ AE_NONE) = selectFires s ready := by
  have polled' : (if s.eventLoop.maxfd < FD_SETSIZE then _ else Except.error Stop.outside) = Except.ok fired := polled
  rw [selectFires]
  by_cases room : s.eventLoop.maxfd < FD_SETSIZE
  · rw [if_pos room] at polled'
    cases polled'
    rfl
  · rw [if_neg room] at polled'
    cases polled'

/-- What `select` reports of this is what it may report, and `epoll_wait` too. -/
theorem selectWait_reports (l : EventLoop FdSets Proc Data) (ready : Int → Epoll.Events) : select.Reports l (selectWait l ready) := by
  have bit : ∀ (set : fd_set) (counted : Epoll.Events) (fd : Int), selectReady set l.maxfd ready counted fd → set fd ∧ fd ≤ l.maxfd := by
    intro set counted fd kept
    obtain ⟨asked, more⟩ := Bool.and_eq_true_iff.mp kept
    exact ⟨asked, (of_decide_eq_true more).1⟩
  exact fun fd => ⟨bit _ _ fd, bit _ _ fd⟩

theorem epollWait_reports (l : EventLoop Epoll.Interest Proc Data) (ready : Int → Epoll.Events) : epoll.Reports l (epollWait l ready) := by
  refine ⟨?_, ?_, fun x mem => ?_⟩
  · have count : (epollWait l ready).length ≤ l.setsize.toNat := by
      unfold epollWait
      exact (List.length_filterMap_le _ _).trans (Nat.le_of_eq List.length_range)
    omega
  · rw [List.Nodup, List.pairwise_map]
    exact (epollWait_sorted l ready).imp Int.ne_of_lt
  · obtain ⟨-, -, asked, known, -⟩ := mem_epollWait (t := { eventLoop := l, log := [] }).mp mem
    rw [show l.apidata x.1 = some asked from known]
    exact Option.some_ne_none _

variable [DecidableEq Proc]

/-- Where nothing is ready nothing is called. -/
theorem fire_none {e : aeFiredEvent} (low : 0 ≤ e.fd) (high : e.fd < s.eventLoop.setsize) (none : e.mask = AE_NONE) :
    select.fire program s e = .ok s := by
  have quiet : ∀ ev, ¬ Backend.fires s e ev := by
    intro ev fires
    simp [Backend.fires, none, AE_NONE] at fires
  rw [Backend.fire, if_pos ⟨low, high⟩, Backend.fireRead, if_neg (quiet _), ok_bind, Backend.fireWrite, if_neg fun both => quiet _ both.1]

/-- The descriptors with nothing ready are passed over. -/
theorem foldlM_filter (sound : select.Sound s) {l : List aeFiredEvent} (inside : ∀ e ∈ l, 0 ≤ e.fd ∧ e.fd < s.eventLoop.setsize) :
    l.foldlM (select.fire program) s = (l.filter fun e => e.mask ≠ AE_NONE).foldlM (select.fire program) s := by
  induction l generalizing s with
  | nil => rfl
  | cons e l ih =>
    obtain ⟨here, rest⟩ := List.forall_mem_cons.mp inside
    by_cases none : e.mask = AE_NONE
    · rw [List.filter_cons_of_neg (by simpa using none), List.foldlM_cons, fire_none here.1 here.2 none, ← ih sound rest]
      rfl
    · obtain ⟨s₁, seg, ran, leads, -⟩ := Backend.fire_leads program sound here.1 here.2
      rw [List.filter_cons_of_pos (by simpa using none), List.foldlM_cons, List.foldlM_cons, ran]
      exact ih leads.sound (by rwa [leads.size])

include granted in
/-- A pass leads from twins to twins. -/
theorem Twin.pass (twin : Twin s t) (pass : LoopPass Proc Data) (timers : ∀ log, Granted (pass.timers log).1)
    (same : ∀ fd, (s.eventLoop.events fd).mask ≠ AE_NONE → SameReady (s.eventLoop.events fd).mask (pass.ready fd)) :
    ∃ s' t' n m, select.aeProcessEvents program pass.flags s ⟨selectWait s.eventLoop pass.ready, pass.timers⟩ = .ok (s', n) ∧
      epoll.aeProcessEvents program pass.flags t ⟨epollWait t.eventLoop pass.ready, pass.timers⟩ = .ok (t', m) ∧ Twin s' t' := by
  obtain ⟨fired, polled, inside, room, -⟩ := Backend.fired_polled twin.left (selectWait_reports s.eventLoop pass.ready) pass.flags
  obtain ⟨fired', polled', -, room', -⟩ := Backend.fired_polled twin.right (epollWait_reports t.eventLoop pass.ready) pass.flags
  obtain ⟨s₁, seg, ran, -⟩ := Backend.foldlM_leads program twin.left inside
  have equal : fired.filter (fun e => e.mask ≠ AE_NONE) = fired' := by
    unfold Backend.fired at polled polled'
    rw [← twin.maxfd] at polled'
    split at polled
    · next polls =>
      rw [if_pos polls] at polled'
      obtain rfl : epollFires t pass.ready = fired' := Except.ok.inj polled'
      exact (select_poll polled).trans (twin.fires_eq_iff.mpr same)
    · next idle =>
      rw [if_neg idle] at polled'
      cases polled
      cases polled'
      rfl
  have alike := twin.foldlM granted fired'
  rw [← equal, ← foldlM_filter twin.left inside, ran, equal] at alike
  generalize ran' : fired'.foldlM (epoll.fire program) t = y at alike
  cases alike with
  | @ok _ t₁ twin₁ =>
    obtain ⟨s₂, t₂, n, ends, ends', twin₂⟩ : ∃ s₂ t₂ n,
        select.processTimers pass.flags ⟨selectWait s.eventLoop pass.ready, pass.timers⟩ s₁ = .ok (s₂, n) ∧
          epoll.processTimers pass.flags ⟨epollWait t.eventLoop pass.ready, pass.timers⟩ t₁ = .ok (t₂, n) ∧ Twin s₂ t₂ := by
      unfold Backend.processTimers
      split
      · obtain ⟨s₂, t₂, ends, ends', twin₂⟩ := twin₁.react (timers s₁.log)
        refine ⟨s₂, t₂, (pass.timers s₁.log).2, by rw [ends]; rfl, ?_, twin₂⟩
        dsimp only
        rw [← twin₁.log, ends']
        rfl
      · exact ⟨s₁, t₁, 0, rfl, rfl, twin₁⟩
    exact ⟨_, _, _, _, Backend.aeProcessEvents_eq polled room ran ends, Backend.aeProcessEvents_eq polled' room' ran' ends', twin₂⟩

include granted in
theorem Twin.passes (twin : Twin s t) {l : List (LoopPass Proc Data)} (timers : ∀ pass ∈ l, ∀ log, Granted (pass.timers log).1)
    (same : Unanimous program l s) :
    ∃ s' t', passes select selectWait program l s = .ok s' ∧ passes epoll epollWait program l t = .ok t' ∧ Twin s' t' := by
  induction l generalizing s t with
  | nil => exact ⟨s, t, rfl, rfl, twin⟩
  | cons pass l ih =>
    obtain ⟨here, rest⟩ := List.forall_mem_cons.mp timers
    obtain ⟨s₁, t₁, n, m, ran, ran', twin₁⟩ := twin.pass granted pass here same.1
    obtain ⟨s', t', rest₁, rest₂, twin'⟩ := ih twin₁ rest (same.2 s₁ n ran)
    refine ⟨s', t', ?_, ?_, twin'⟩
    · rw [Ae.passes, ran]
      exact rest₁
    · rw [Ae.passes, ran']
      exact rest₂

omit [DecidableEq Proc] in
theorem Twin.start {setsize : Int} (small : setsize ≤ FD_SETSIZE) :
    Twin ({ eventLoop := select.aeCreateEventLoop setsize, log := [] } : Run FdSets Proc Data)
      { eventLoop := epoll.aeCreateEventLoop setsize, log := [] } :=
  ⟨rfl, rfl, rfl, rfl, rfl, fun _ => ⟨nofun, fun held => absurd BitVec.zero_and held⟩,
    fun _ => ⟨nofun, fun held => absurd BitVec.zero_and held⟩, fun _ => rfl, Backend.create_sound_loop select small,
    Backend.create_sound_loop epoll trivial⟩

/-- A program cannot tell `select` from `epoll` where no call is refused, the descriptors fit into a set, and in every pass
both find the same ready: both loops have then called the same handlers with the same arguments in the same order, and have
the same file events; and in the state they have come to, they fire the same exactly if they find the same ready. -/
theorem select_epoll (program : Program Proc Data) (granted : ∀ log proc fd data mask, Granted (program log proc fd data mask))
    (setsize : Int) (small : setsize ≤ FD_SETSIZE) (start : Reaction Proc Data) (first : Granted start) (l : List (LoopPass Proc Data))
    (timers : ∀ pass ∈ l, ∀ log, Granted (pass.timers log).1) :
    ∃ s₀ t₀, select.react start { eventLoop := select.aeCreateEventLoop setsize, log := [] } = .ok s₀ ∧
      epoll.react start { eventLoop := epoll.aeCreateEventLoop setsize, log := [] } = .ok t₀ ∧
      (Unanimous program l s₀ → ∃ s t, passes select selectWait program l s₀ = .ok s ∧ passes epoll epollWait program l t₀ = .ok t ∧
        s.log = t.log ∧ s.eventLoop.events = t.eventLoop.events ∧ s.eventLoop.maxfd = t.eventLoop.maxfd ∧ s.eventLoop.stop = t.eventLoop.stop ∧
        ∀ ready, selectFires s ready = epollFires t ready ↔
          ∀ fd, (s.eventLoop.events fd).mask ≠ AE_NONE → SameReady (s.eventLoop.events fd).mask (ready fd)) := by
  obtain ⟨s₀, t₀, ran₀, ran₀', twin₀⟩ := Twin.react first (Twin.start small)
  refine ⟨s₀, t₀, ran₀, ran₀', fun same => ?_⟩
  obtain ⟨s, t, ran, ran', twin⟩ := twin₀.passes granted timers same
  exact ⟨s, t, ran, ran', twin.log, twin.events, twin.maxfd, twin.stop, fun _ => twin.fires_eq_iff⟩

/-- The handler of descriptor 3 deletes its event when it is called; 4 has an error and is ready anyway, and it alone is called
in the second pass. -/
theorem select_epoll_two :
    let program : Program Bool Unit := fun _ proc _ _ _ => if proc then .aeDeleteFileEvent 3 ⟨AE_READABLE, .inl rfl⟩ .back else .back
    let start : Reaction Bool Unit := .aeCreateFileEvent 3 ⟨AE_READABLE, .inl rfl⟩ true () (false, false) fun _ =>
      .aeCreateFileEvent 4 ⟨AE_READABLE ||| AE_WRITABLE, .inr (.inr rfl)⟩ false () (false, false) fun _ => .back
    let first : LoopPass Bool Unit :=
      { flags := AE_FILE_EVENTS
        ready := fun fd => if fd = 4 then Epoll.EPOLLIN ||| EPOLLERR else Epoll.EPOLLIN
        timers := fun _ => (.back, 0) }
    let second : LoopPass Bool Unit := { first with ready := fun _ => Epoll.EPOLLIN }
    ∃ s₀ t₀ s t, select.react start { eventLoop := select.aeCreateEventLoop 16, log := [] } = .ok s₀ ∧
      epoll.react start { eventLoop := epoll.aeCreateEventLoop 16, log := [] } = .ok t₀ ∧
      passes select selectWait program [first, second] s₀ = .ok s ∧ passes epoll epollWait program [first, second] t₀ = .ok t ∧
      s.log = t.log := by
  intro program start first second
  have granted : ∀ log proc fd data mask, Granted (program log proc fd data mask) := by
    intro _ proc _ _ _
    cases proc
    · exact .back
    · exact .aeDeleteFileEvent .back
  have timers : ∀ pass ∈ [first, second], ∀ log, Granted (pass.timers log).1 := by
    intro pass mem log
    simp only [List.mem_cons, List.not_mem_nil, or_false] at mem
    rcases mem with rfl | rfl <;> exact .back
  obtain ⟨s₀, t₀, ran₀, ran₀', alike⟩ := select_epoll program granted 16 (by decide) start
    (.aeCreateFileEvent rfl fun _ => .aeCreateFileEvent rfl fun _ => .back) [first, second] timers
  have four : (s₀.eventLoop.events 4).mask = AE_READABLE ||| AE_WRITABLE := by
    cases ran₀
    rfl
  have quiet : Epoll.EPOLLIN &&& (EPOLLERR ||| EPOLLHUP) = 0 := by decide
  have same : Unanimous program [first, second] s₀ := by
    refine ⟨fun fd _ => ?_, fun s' _ _ => unanimous_of_quiet program (fun pass mem _ => ?_) s'⟩
    · by_cases here : fd = 4
      · subst here
        rw [four]
        decide
      · exact .inl (by rw [show first.ready fd = Epoll.EPOLLIN from if_neg here]; exact quiet)
    · rw [List.mem_singleton.mp mem]
      exact quiet
  obtain ⟨s, t, ran, ran', log, -⟩ := alike same
  exact ⟨s₀, t₀, s, t, ran₀, ran₀', ran, ran', log⟩

end CodeClips.Ae
