import CodeClips.Ae.Timeout

/-!
# The event loop over its backends

`ae.c` includes one of `ae_epoll.c`, `ae_select.c` and `ae_kqueue.c`. A `Backend` is what such a file has: the state
behind `apidata`, the four functions on it, what the kernel may report to a poll, and what `ae.c` relies on. What is
reported is of descriptors of the loop, fits into `fired`, and names no event twice. A loop may be too large for a backend:
a set of `select` has `FD_SETSIZE` bits, and a descriptor beyond them is outside of it.
-/

namespace CodeClips.Ae

/-- Whether the kernel refuses the first call of an `aeApiAddEvent`, and the second one. -/
abbrev Refusals := Bool × Bool

structure aeFiredEvent where
  fd : Int
  mask : Mask
deriving DecidableEq

/-- The events that have fired: what is to be read comes before what is to be written. -/
def aeFiredEvent.asks (e : aeFiredEvent) : List (Int × Mask) :=
  (if e.mask &&& AE_READABLE ≠ 0 then [(e.fd, AE_READABLE)] else []) ++
    if e.mask &&& AE_WRITABLE ≠ 0 then [(e.fd, AE_WRITABLE)] else []

/-- `aeEventLoop` without its timers. -/
structure EventLoop (σ Proc Data : Type) where
  maxfd : Int
  setsize : Int
  events : Int → aeFileEvent Proc Data
  apidata : σ
  stop : Bool

section Create
variable {σ Proc Data : Type}

/-- The masks of a loop are of its descriptors. -/
structure EventLoop.Ranged (watched : σ → Int → Prop) (s : EventLoop σ Proc Data) : Prop where
  masks : ∀ fd, (s.events fd).mask ≠ AE_NONE → 0 ≤ fd ∧ fd ≤ s.maxfd
  watches : ∀ fd, watched s.apidata fd → 0 ≤ fd ∧ fd < s.setsize
  top : -1 ≤ s.maxfd ∧ (s.maxfd < s.setsize ∨ s.maxfd = -1)

end Create

structure Backend (σ ρ Proc Data : Type) where
  aeApiCreate : σ
  aeApiAddEvent : EventLoop σ Proc Data → Int → Mask → Refusals → Except Stop (σ × Int)
  aeApiDelEvent : EventLoop σ Proc Data → Int → Mask → Except Stop σ
  aeApiPoll : EventLoop σ Proc Data → ρ → Except Stop (List aeFiredEvent)
  Reports : EventLoop σ Proc Data → ρ → Prop
  /-- There is room for the descriptors of a loop of this size. -/
  Holds : Int → Prop
  watched : σ → Int → Prop
  created : ∀ fd, ¬ watched aeApiCreate fd
  added : ∀ s fd mask refusals, Holds s.setsize → 0 ≤ fd → fd < s.setsize →
    ∃ apidata ret, aeApiAddEvent s fd mask refusals = .ok (apidata, ret) ∧
      ∀ other, watched apidata other → watched s.apidata other ∨ other = fd
  deleted : ∀ s fd mask, Holds s.setsize → 0 ≤ fd → fd < s.setsize →
    ∃ apidata, aeApiDelEvent s fd mask = .ok apidata ∧ ∀ other, watched apidata other → watched s.apidata other
  polled : ∀ s report, Holds s.setsize → s.Ranged watched → Reports s report →
    ∃ fired, aeApiPoll s report = .ok fired ∧ (∀ e ∈ fired, 0 ≤ e.fd ∧ e.fd < s.setsize) ∧
      (fired.length : Int) ≤ max 0 s.setsize ∧ (fired.flatMap aeFiredEvent.asks).Nodup

namespace Backend
variable {σ ρ Proc Data : Type} (b : Backend σ ρ Proc Data)

def aeCreateEventLoop (setsize : Int) : EventLoop σ Proc Data :=
  { maxfd := -1
    setsize := setsize
    events := fun _ => { mask := AE_NONE, rfileProc := none, wfileProc := none, clientData := none }
    apidata := b.aeApiCreate
    stop := false }

def aeCreateFileEvent (s : EventLoop σ Proc Data) (fd : Int) (mask : Mask) (proc : Proc) (clientData : Data)
    (refusals : Refusals) : Except Stop (EventLoop σ Proc Data × Int) :=
  if fd ≥ s.setsize then .ok (s, AE_ERR)
  else do
    let (apidata, ret) ← b.aeApiAddEvent s fd mask refusals
    if ret = -1 then .ok ({ s with apidata := apidata }, AE_ERR)
    else
      .ok ({ s with
          apidata := apidata
          events := Function.update s.events fd ((s.events fd).set mask proc clientData)
          maxfd := if fd > s.maxfd then fd else s.maxfd }, AE_OK)

/-- The loop without the mask of what is deleted, and with `maxfd` for what is left. -/
def lowered (s : EventLoop σ Proc Data) (fd : Int) (mask : Mask) : EventLoop σ Proc Data :=
  let fe := { s.events fd with mask := (s.events fd).mask &&& ~~~mask }
  let events := Function.update s.events fd fe
  { s with
    events := events
    maxfd := if fd = s.maxfd ∧ fe.mask = AE_NONE then highestBelow events s.maxfd.toNat else s.maxfd }

def aeDeleteFileEvent (s : EventLoop σ Proc Data) (fd : Int) (mask : Mask) : Except Stop (EventLoop σ Proc Data) :=
  if fd ≥ s.setsize then .ok s
  else if (s.events fd).mask = AE_NONE then .ok s
  else do
    let apidata ← b.aeApiDelEvent (lowered s fd mask) fd mask
    return { lowered s fd mask with apidata := apidata }

def aeGetFileEvents (s : EventLoop σ Proc Data) (fd : Int) : Mask :=
  if fd ≥ s.setsize then 0 else (s.events fd).mask

end Backend

/-! ## Events that have fired -/

theorem mem_asks {e : aeFiredEvent} {fd : Int} {ev : Mask} : (fd, ev) ∈ e.asks ↔
    fd = e.fd ∧ e.mask &&& ev ≠ 0 ∧ (ev = AE_READABLE ∨ ev = AE_WRITABLE) := by
  have differ : AE_READABLE ≠ AE_WRITABLE := by decide
  unfold aeFiredEvent.asks
  by_cases reads : e.mask &&& AE_READABLE = 0 <;> by_cases writes : e.mask &&& AE_WRITABLE = 0 <;>
    simp only [reads, writes, ne_eq, not_true_eq_false, not_false_eq_true, if_true, if_false, List.append_nil, List.nil_append,
      List.mem_append, List.mem_singleton, List.not_mem_nil, Prod.mk.injEq]
  all_goals grind -ring -linarith

theorem asks_nodup (e : aeFiredEvent) : e.asks.Nodup := by
  have differ : (e.fd, AE_READABLE) ≠ (e.fd, AE_WRITABLE) := fun same => absurd (Prod.mk.inj same).2 (by decide)
  unfold aeFiredEvent.asks
  split_ifs <;> simp [differ]

/-- Each descriptor is reported once. -/
theorem flatMap_asks_nodup {l : List aeFiredEvent} (once : (l.map aeFiredEvent.fd).Nodup) :
    (l.flatMap aeFiredEvent.asks).Nodup := by
  induction l with
  | nil => exact List.nodup_nil
  | cons e l ih =>
    rw [List.map_cons, List.nodup_cons] at once
    rw [List.flatMap_cons, List.nodup_append]
    refine ⟨asks_nodup e, ih once.2, fun x front y rest same => ?_⟩
    obtain ⟨other, mem, asked⟩ := List.mem_flatMap.mp rest
    subst same
    have here := (mem_asks.mp (show (x.1, x.2) ∈ e.asks from front)).1
    have there := (mem_asks.mp (show (x.1, x.2) ∈ other.asks from asked)).1
    exact once.1 (List.mem_map.mpr ⟨other, mem, by rw [← there, here]⟩)

/-! ## `ae_epoll.c` -/

section Epoll
variable {Proc Data : Type}

/-- The loop that the functions of `ae_epoll.c` take. -/
def EventLoop.epoll (s : EventLoop Epoll.Interest Proc Data) : aeEventLoop Proc Data :=
  { maxfd := s.maxfd, setsize := s.setsize, events := s.events, interest := s.apidata }

def EPOLLERR : Epoll.Events := 0x008
def EPOLLHUP : Epoll.Events := 0x010

/-- The mask for `e->events`. -/
def epollMask (events : Epoll.Events) : Mask :=
  let mask := AE_NONE
  let mask := if events &&& Epoll.EPOLLIN ≠ 0 then mask ||| AE_READABLE else mask
  let mask := if events &&& Epoll.EPOLLOUT ≠ 0 then mask ||| AE_WRITABLE else mask
  let mask := if events &&& EPOLLERR ≠ 0 then mask ||| AE_WRITABLE else mask
  if events &&& EPOLLHUP ≠ 0 then mask ||| AE_WRITABLE else mask

theorem epoll_ctl_other (interest : Epoll.Interest) (op : Epoll.EpollOp) {fd other : Int} (events : Epoll.Events)
    (refused : Bool) (elsewhere : other ≠ fd) : (Epoll.epoll_ctl interest op fd events refused).1 other = interest other := by
  unfold Epoll.epoll_ctl
  cases refused <;> cases op <;> cases interest fd <;> simp [elsewhere]

/-- Only an `ADD` makes a descriptor known. -/
theorem epoll_ctl_known {interest : Epoll.Interest} {op : Epoll.EpollOp} {fd other : Int} {events : Epoll.Events} {refused : Bool}
    (changes : op ≠ .EPOLL_CTL_ADD) (known : (Epoll.epoll_ctl interest op fd events refused).1 other ≠ none) :
    interest other ≠ none := by
  by_cases here : other = fd
  · subst here
    unfold Epoll.epoll_ctl at known
    intro none
    cases refused <;> cases op <;> simp_all
  · rwa [epoll_ctl_other interest op events refused here] at known

theorem aeApiAddEvent_fst (s : aeEventLoop Proc Data) (fd : Int) (mask : Mask) (refused : Bool) :
    (aeApiAddEvent s fd mask refused).1 = (Epoll.epoll_ctl s.interest
      (if (s.events fd).mask = AE_NONE then .EPOLL_CTL_ADD else .EPOLL_CTL_MOD) fd
      (eeEvents (mask ||| (s.events fd).mask)) refused).1 := by
  show (if (Epoll.epoll_ctl s.interest _ fd _ refused).2 = -1 then ((Epoll.epoll_ctl s.interest _ fd _ refused).1, (-1 : Int))
    else ((Epoll.epoll_ctl s.interest _ fd _ refused).1, 0)).1 = _
  exact (apply_ite Prod.fst _ _ _).trans (ite_self _)

theorem interest_of_added {s : EventLoop Epoll.Interest Proc Data} {fd : Int} {mask : Mask} {refused : Bool} {other : Int}
    (known : (aeApiAddEvent s.epoll fd mask refused).1 other ≠ none) : s.apidata other ≠ none ∨ other = fd := by
  by_cases here : other = fd
  · exact .inr here
  · rw [aeApiAddEvent_fst, epoll_ctl_other _ _ _ _ here] at known
    exact .inl known

theorem interest_of_deleted {s : EventLoop Epoll.Interest Proc Data} {fd : Int} {mask : Mask} {other : Int}
    (known : aeApiDelEvent s.epoll fd mask other ≠ none) : s.apidata other ≠ none := by
  unfold aeApiDelEvent at known
  split at known
  · exact epoll_ctl_known (by decide) known
  · exact epoll_ctl_known (by decide) known

/-- A report is what `epoll_wait` writes to `state->events`; it returns the number. -/
def epoll : Backend Epoll.Interest (List (Int × Epoll.Events)) Proc Data where
  aeApiCreate := fun _ => none
  aeApiAddEvent s fd mask refusals := .ok (Ae.aeApiAddEvent s.epoll fd mask refusals.1)
  aeApiDelEvent s fd mask := .ok (Ae.aeApiDelEvent s.epoll fd mask)
  aeApiPoll _ report := .ok (report.map fun e => { fd := e.1, mask := epollMask e.2 })
  Reports s report := (report.length : Int) ≤ max 0 s.setsize ∧ (report.map Prod.fst).Nodup ∧
    ∀ e ∈ report, s.apidata e.1 ≠ none
  Holds _ := True
  watched interest fd := interest fd ≠ none
  created _ known := known rfl
  added _ _ _ _ _ _ _ := ⟨_, _, rfl, fun _ => interest_of_added⟩
  deleted _ _ _ _ _ _ := ⟨_, rfl, fun _ => interest_of_deleted⟩
  polled s report _ ranged reports := by
    obtain ⟨room, once, known⟩ := reports
    refine ⟨_, rfl, fun e mem => ?_, by rw [List.length_map]; exact room, flatMap_asks_nodup ?_⟩
    · obtain ⟨x, inside, rfl⟩ := List.mem_map.mp mem
      exact ranged.watches x.1 (known x inside)
    · rw [List.map_map]
      exact once

/-- On this backend the functions are those of the loop with its interest list. -/
theorem aeCreateFileEvent_epoll (s : EventLoop Epoll.Interest Proc Data) (fd : Int) (mask : Mask) (proc : Proc)
    (clientData : Data) (refusals : Refusals) :
    (epoll.aeCreateFileEvent s fd mask proc clientData refusals).map (Prod.map EventLoop.epoll id) =
      .ok (aeCreateFileEvent s.epoll fd mask proc clientData refusals.1) := by
  unfold Backend.aeCreateFileEvent aeCreateFileEvent
  by_cases outside : fd ≥ s.setsize
  · simp [EventLoop.epoll, outside, Except.map]
  · have room : ¬ fd ≥ s.epoll.setsize := outside
    rw [if_neg outside, if_neg room]
    show Except.map (Prod.map EventLoop.epoll id) (if (Ae.aeApiAddEvent s.epoll fd mask refusals.1).2 = -1 then _ else _) =
      .ok (if (Ae.aeApiAddEvent s.epoll fd mask refusals.1).2 = -1 then _ else _)
    split <;> rfl

theorem aeDeleteFileEvent_epoll (s : EventLoop Epoll.Interest Proc Data) (fd : Int) (mask : Mask) :
    (epoll.aeDeleteFileEvent s fd mask).map EventLoop.epoll = .ok (aeDeleteFileEvent s.epoll fd mask) := by
  unfold Backend.aeDeleteFileEvent aeDeleteFileEvent
  by_cases outside : fd ≥ s.setsize
  · simp [EventLoop.epoll, outside, Except.map]
  · by_cases none : (s.events fd).mask = AE_NONE
    · simp [EventLoop.epoll, outside, none, Except.map]
    · simp only [EventLoop.epoll, outside, none, if_false]
      rfl

end Epoll

/-! ## `ae_select.c` -/

section Select
variable {Proc Data : Type}

def FD_SETSIZE : Int := 1024

abbrev fd_set := Int → Bool

/-- The bit of the descriptor has to be one of the set. -/
def FD_SET (fd : Int) (set : fd_set) : Except Stop fd_set :=
  if 0 ≤ fd ∧ fd < FD_SETSIZE then .ok (Function.update set fd true) else .error .outside

def FD_CLR (fd : Int) (set : fd_set) : Except Stop fd_set :=
  if 0 ≤ fd ∧ fd < FD_SETSIZE then .ok (Function.update set fd false) else .error .outside

/-- `aeApiState`, the copies apart. -/
structure FdSets where
  rfds : fd_set
  wfds : fd_set

/-- What `select` returns and leaves in `_rfds` and `_wfds`. -/
structure Selected where
  retval : Int
  rfds : fd_set
  wfds : fd_set

/-- The mask for descriptor `j`. -/
def selectMask (s : EventLoop FdSets Proc Data) (selected : Selected) (j : Int) : Mask :=
  let mask := AE_NONE
  let mask := if (s.events j).mask &&& AE_READABLE ≠ 0 ∧ selected.rfds j then mask ||| AE_READABLE else mask
  if (s.events j).mask &&& AE_WRITABLE ≠ 0 ∧ selected.wfds j then mask ||| AE_WRITABLE else mask

/-- The loop over the descriptors up to `maxfd`: each one that has a mask is fired, with whatever is ready. -/
def selectFired (s : EventLoop FdSets Proc Data) (selected : Selected) : List aeFiredEvent :=
  (List.range (s.maxfd + 1).toNat).filterMap fun j : Nat =>
    if (s.events j).mask = AE_NONE then none else some { fd := j, mask := selectMask s selected j }

variable {s : EventLoop FdSets Proc Data} {selected : Selected} {fd : Int} {mask : Mask}

theorem mem_selectFired {e : aeFiredEvent} : e ∈ selectFired s selected ↔
    0 ≤ e.fd ∧ e.fd ≤ s.maxfd ∧ (s.events e.fd).mask ≠ AE_NONE ∧ e.mask = selectMask s selected e.fd := by
  unfold selectFired
  rw [List.mem_filterMap]
  constructor
  · rintro ⟨j, inside, fired⟩
    rw [List.mem_range] at inside
    split_ifs at fired with none
    cases fired
    have top : (j : Int) ≤ s.maxfd := by omega
    exact ⟨Int.natCast_nonneg j, top, none, rfl⟩
  · rintro ⟨low, high, held, ready⟩
    refine ⟨e.fd.toNat, by rw [List.mem_range]; omega, ?_⟩
    rw [Int.toNat_of_nonneg low, if_neg held, ← ready]

/-- In the order of the descriptors. -/
theorem selectFired_sorted (s : EventLoop FdSets Proc Data) (selected : Selected) :
    (selectFired s selected).Pairwise fun x y => x.fd < y.fd := by
  unfold selectFired
  rw [List.pairwise_filterMap]
  refine List.pairwise_lt_range.imp ?_
  intro i j less x first y second
  split_ifs at first second
  cases first
  cases second
  exact Int.ofNat_lt.mpr less

/-- The bits that a call with `mask` sets. -/
def selectAdd (state : FdSets) (fd : Int) (mask : Mask) : Except Stop (FdSets × Int) := do
  let rfds ← if mask &&& AE_READABLE ≠ 0 then FD_SET fd state.rfds else .ok state.rfds
  let wfds ← if mask &&& AE_WRITABLE ≠ 0 then FD_SET fd state.wfds else .ok state.wfds
  return ({ rfds := rfds, wfds := wfds }, 0)

def selectDel (state : FdSets) (fd : Int) (mask : Mask) : Except Stop FdSets := do
  let rfds ← if mask &&& AE_READABLE ≠ 0 then FD_CLR fd state.rfds else .ok state.rfds
  let wfds ← if mask &&& AE_WRITABLE ≠ 0 then FD_CLR fd state.wfds else .ok state.wfds
  return { rfds := rfds, wfds := wfds }

theorem selectAdd_ok (room : 0 ≤ fd ∧ fd < FD_SETSIZE) (state : FdSets) (mask : Mask) :
    selectAdd state fd mask = .ok ({
      rfds := if mask &&& AE_READABLE ≠ 0 then Function.update state.rfds fd true else state.rfds
      wfds := if mask &&& AE_WRITABLE ≠ 0 then Function.update state.wfds fd true else state.wfds }, 0) := by
  rw [selectAdd, FD_SET, if_pos room, FD_SET, if_pos room]
  split_ifs <;> rfl

theorem selectDel_ok (room : 0 ≤ fd ∧ fd < FD_SETSIZE) (state : FdSets) (mask : Mask) :
    selectDel state fd mask = .ok {
      rfds := if mask &&& AE_READABLE ≠ 0 then Function.update state.rfds fd false else state.rfds
      wfds := if mask &&& AE_WRITABLE ≠ 0 then Function.update state.wfds fd false else state.wfds } := by
  rw [selectDel, FD_CLR, if_pos room, FD_CLR, if_pos room]
  split_ifs <;> rfl

/-- `select` sets no bit that is not asked for. It goes through the bits up to `maxfd`, and the loop does. -/
def select : Backend FdSets Selected Proc Data where
  aeApiCreate := { rfds := fun _ => false, wfds := fun _ => false }
  aeApiAddEvent s fd mask _ := selectAdd s.apidata fd mask
  aeApiDelEvent s fd mask := selectDel s.apidata fd mask
  aeApiPoll s selected :=
    if s.maxfd < FD_SETSIZE then .ok (if selected.retval > 0 then selectFired s selected else []) else .error .outside
  Reports s selected := ∀ fd, (selected.rfds fd → s.apidata.rfds fd ∧ fd ≤ s.maxfd) ∧
    (selected.wfds fd → s.apidata.wfds fd ∧ fd ≤ s.maxfd)
  Holds setsize := setsize ≤ FD_SETSIZE
  watched state fd := state.rfds fd ∨ state.wfds fd
  created _ known := by simp at known
  added s fd mask _ holds low high := by
    refine ⟨_, _, selectAdd_ok ⟨low, Int.lt_of_lt_of_le high holds⟩ s.apidata mask, fun other known => ?_⟩
    by_cases here : other = fd
    · exact .inr here
    · left
      revert known
      dsimp only
      split_ifs <;> simp [here]
  deleted s fd mask holds low high := by
    refine ⟨_, selectDel_ok ⟨low, Int.lt_of_lt_of_le high holds⟩ s.apidata mask, fun other known => ?_⟩
    revert known
    dsimp only
    by_cases here : other = fd
    · subst here
      split_ifs <;> simp +contextual
    · split_ifs <;> simp [here]
  polled s selected holds ranged _ := by
    have top := ranged.top
    have room : s.maxfd < FD_SETSIZE := by
      have some' : (0 : Int) < FD_SETSIZE := by decide
      omega
    refine ⟨_, if_pos room, ?_⟩
    split
    · refine ⟨fun e mem => ?_, ?_, flatMap_asks_nodup ?_⟩
      · obtain ⟨low, high, -⟩ := mem_selectFired.mp mem
        omega
      · have count : (selectFired s selected).length ≤ (s.maxfd + 1).toNat := by
          unfold selectFired
          exact (List.length_filterMap_le _ _).trans (Nat.le_of_eq List.length_range)
        omega
      · rw [List.Nodup, List.pairwise_map]
        exact (selectFired_sorted s selected).imp Int.ne_of_lt
    · exact ⟨by simp, by simp, List.nodup_nil⟩

/-- In a loop that is larger than a set, a descriptor from `FD_SETSIZE` on is set behind it. -/
theorem select_outside {s : EventLoop FdSets Proc Data} (beyond : FD_SETSIZE ≤ fd) (inside : fd < s.setsize) (asked : Asked mask)
    (proc : Proc) (data : Data) (refusals : Refusals) :
    select.aeCreateFileEvent s fd mask proc data refusals = .error .outside := by
  have room : ¬ (0 ≤ fd ∧ fd < FD_SETSIZE) := fun both => absurd both.2 (Int.not_lt.mpr beyond)
  have sets : selectAdd s.apidata fd mask = .error .outside := by
    rw [selectAdd, FD_SET, if_neg room, FD_SET, if_neg room]
    rcases asked with rfl | rfl | rfl <;> rfl
  rw [Backend.aeCreateFileEvent, if_neg (Int.not_le.mpr inside)]
  show (selectAdd s.apidata fd mask >>= _) = _
  rw [sets]
  rfl

end Select

/-! ## `ae_kqueue.c` -/

section Kqueue
variable {Proc Data : Type}

inductive Filter
  | EVFILT_READ
  | EVFILT_WRITE
deriving DecidableEq

/-- The events that the kernel has been asked for; `EV_DELETE` of a filter that is not there fails and changes nothing. -/
abbrev Kqueue := Int → Filter → Bool

def EV_ADD (kq : Kqueue) (fd : Int) (filter : Filter) : Kqueue :=
  fun other f => if other = fd ∧ f = filter then true else kq other f

def EV_DELETE (kq : Kqueue) (fd : Int) (filter : Filter) : Kqueue :=
  fun other f => if other = fd ∧ f = filter then false else kq other f

def Filter.mask : Filter → Mask
  | .EVFILT_READ => AE_READABLE
  | .EVFILT_WRITE => AE_WRITABLE

/-- The second filter may be refused when the first one has been added. -/
def kqueueAdd (kq : Kqueue) (fd : Int) (mask : Mask) (refusals : Refusals) : Kqueue × Int :=
  if mask &&& AE_READABLE ≠ 0 ∧ refusals.1 then (kq, -1)
  else
    let kq := if mask &&& AE_READABLE ≠ 0 then EV_ADD kq fd .EVFILT_READ else kq
    if mask &&& AE_WRITABLE ≠ 0 ∧ refusals.2 then (kq, -1)
    else (if mask &&& AE_WRITABLE ≠ 0 then EV_ADD kq fd .EVFILT_WRITE else kq, 0)

def kqueueDel (kq : Kqueue) (fd : Int) (mask : Mask) : Kqueue :=
  let kq := if mask &&& AE_READABLE ≠ 0 then EV_DELETE kq fd .EVFILT_READ else kq
  if mask &&& AE_WRITABLE ≠ 0 then EV_DELETE kq fd .EVFILT_WRITE else kq

theorem kqueueAdd_watched {kq : Kqueue} {fd : Int} {mask : Mask} {refusals : Refusals} {other : Int} {f : Filter}
    (known : (kqueueAdd kq fd mask refusals).1 other f) : kq other f ∨ other = fd := by
  by_cases here : other = fd
  · exact .inr here
  · left
    revert known
    unfold kqueueAdd EV_ADD
    dsimp only
    split_ifs <;> simp [here]

theorem kqueueDel_watched {kq : Kqueue} {fd : Int} {mask : Mask} {other : Int} {f : Filter}
    (known : kqueueDel kq fd mask other f) : kq other f := by
  revert known
  unfold kqueueDel EV_DELETE
  split_ifs <;> grind -ring -linarith

/-- A report is what `kevent` writes to `state->events`: each filter of a descriptor by itself. -/
def kqueue : Backend Kqueue (List (Int × Filter)) Proc Data where
  aeApiCreate := fun _ _ => false
  aeApiAddEvent s fd mask refusals := .ok (kqueueAdd s.apidata fd mask refusals)
  aeApiDelEvent s fd mask := .ok (kqueueDel s.apidata fd mask)
  aeApiPoll _ report := .ok (report.map fun e => { fd := e.1, mask := e.2.mask })
  Reports s report := (report.length : Int) ≤ max 0 s.setsize ∧ report.Nodup ∧ ∀ e ∈ report, s.apidata e.1 e.2
  Holds _ := True
  watched kq fd := ∃ f, kq fd f
  created _ known := by simp at known
  added _ _ _ _ _ _ _ := ⟨_, _, rfl, fun _ ⟨f, known⟩ => (kqueueAdd_watched known).imp_left fun held => ⟨f, held⟩⟩
  deleted _ _ _ _ _ _ := ⟨_, rfl, fun _ ⟨f, known⟩ => ⟨f, kqueueDel_watched known⟩⟩
  polled s report _ ranged reports := by
    obtain ⟨room, once, known⟩ := reports
    refine ⟨_, rfl, fun e mem => ?_, by rw [List.length_map]; exact room, ?_⟩
    · obtain ⟨x, inside, rfl⟩ := List.mem_map.mp mem
      exact ranged.watches x.1 ⟨x.2, known x inside⟩
    · have asks : ∀ x : Int × Filter, aeFiredEvent.asks { fd := x.1, mask := x.2.mask } = [(x.1, x.2.mask)] := by
        rintro ⟨fd, filter⟩
        cases filter <;> simp [aeFiredEvent.asks, Filter.mask, AE_READABLE, AE_WRITABLE]
      have differ : Filter.EVFILT_READ.mask ≠ Filter.EVFILT_WRITE.mask := by decide
      have apart : Function.Injective fun x : Int × Filter => (x.1, x.2.mask) := by
        rintro ⟨fd, f⟩ ⟨fd', f'⟩ same
        obtain ⟨rfl, masks⟩ := Prod.mk.inj same
        cases f <;> cases f' <;> first | rfl | exact absurd masks differ | exact absurd masks differ.symm
      rw [List.flatMap_map]
      simp only [asks]
      rw [← List.map_eq_flatMap]
      exact once.map apart

end Kqueue

end CodeClips.Ae
