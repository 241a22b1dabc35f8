import CodeClips.Epoll.MinHeap
import CodeClips.Lib.Multimap
import CodeClips.Lib.Transition
import Mathlib.Data.Prod.Lex

/-!
# Timers: `TimerEventHanderBase` and `EventHanderSet`

The end times are in `m_timerMinHeap`, the handlers by end time in `m_timerMultiMap`.
`ScanTimer` is modelled by its control points, since between them `OnTimeOut` runs and may
register and unregister timers: `head` is the head of its `while`, `inner` the head of the
`for`, `onTimeOut` the call. `beg` is an iterator: the operations move it as the standard
says, and erasing the entry it points at leaves it invalid. What happens then when it is
used is undefined, so there is no step.

`step_cases` says all that a step can do; the other modules use nothing else of `step`.
-/

namespace CodeClips.Epoll

/-- A `TimerEventHanderBase*`. -/
abbrev Ptr := Nat

/-- `std::pair<long int, long int>`, ordered lexicographically. -/
abbrev Key := Int ×ₗ Int

structure timeval where
  tv_sec : Int
  tv_usec : Int
deriving DecidableEq, Repr

def timeval.pair (t : timeval) : Key := toLex (t.tv_sec, t.tv_usec)

/-- `timeradd`. -/
def timeradd (a b : timeval) : timeval :=
  let sec := a.tv_sec + b.tv_sec
  let usec := a.tv_usec + b.tv_usec
  if usec ≥ 1000000 then { tv_sec := sec + 1, tv_usec := usec - 1000000 } else { tv_sec := sec, tv_usec := usec }

def timerisset (t : timeval) : Bool := t.tv_sec ≠ 0 ∨ t.tv_usec ≠ 0

/-- `timercmp(a, b, >=)`. -/
def timercmp_ge (a b : timeval) : Bool :=
  if a.tv_sec = b.tv_sec then a.tv_usec ≥ b.tv_usec else a.tv_sec ≥ b.tv_sec

/-- The comparison is that of the pairs. -/
theorem timercmp_ge_iff (a b : timeval) : timercmp_ge a b ↔ b.pair ≤ a.pair := by
  rw [timercmp_ge, timeval.pair, timeval.pair, Prod.Lex.toLex_le_toLex]
  by_cases same : a.tv_sec = b.tv_sec
  · simp [same]
  · simp only [same, if_false, decide_eq_true_eq]
    omega

/-- `TimerEventHanderBase`. -/
structure TimerEventHanderBase where
  m_interval : timeval
  m_endtime : timeval
  m_bRestart : Bool
deriving DecidableEq, Repr

/-- After the constructor. -/
def TimerEventHanderBase.init : TimerEventHanderBase :=
  { m_interval := { tv_sec := 0, tv_usec := 0 }, m_endtime := { tv_sec := 0, tv_usec := 0 }, m_bRestart := false }

/-- Where the program is; `none` is an iterator whose entry is gone. -/
inductive Pc where
  | idle
  | head
  | inner (minTime : Key) (beg : Nat)
  | onTimeOut (minTime : Key) (beg : Option Nat) (pHandler : Ptr)
deriving DecidableEq

/-- The handlers, the `EventHanderSet` of the reactor and the control point. -/
structure Timers where
  handlers : Ptr → TimerEventHanderBase
  m_timerMinHeap : MinHeap Key
  m_timerMultiMap : Multimap Key Ptr
  pc : Pc

instance : Inhabited Key := ⟨toLex (0, 0)⟩

/-- Before the first registration. -/
def Timers.init : Timers :=
  { handlers := fun _ => .init, m_timerMinHeap := MinHeap.new 10000, m_timerMultiMap := Multimap.empty, pc := .idle }

/-! ## The iterator of `ScanTimer` -/

def Pc.inserted (u : Nat) : Pc → Pc
  | .onTimeOut minTime (some beg) p => .onTimeOut minTime (some (Multimap.afterInsert u beg)) p
  | pc => pc

def Pc.erased (j : Nat) : Pc → Pc
  | .onTimeOut minTime (some beg) p => .onTimeOut minTime (Multimap.afterErase j beg) p
  | pc => pc

/-- Code outside `ScanTimer` runs: the caller's, or an `OnTimeOut`. -/
def Pc.Outside : Pc → Prop
  | .idle | .onTimeOut .. => True
  | _ => False

instance : DecidablePred Pc.Outside := fun pc => by cases pc <;> unfold Pc.Outside <;> infer_instance

/-! ## `EventHanderSet` -/

/-- The end time of a handler as the containers hold it. -/
def Timers.endTime (s : Timers) (p : Ptr) : Key := (s.handlers p).m_endtime.pair

/-- What `Insert` returns is not looked at. -/
def Timers.AddTimerEventHandler (s : Timers) (pHandler : Ptr) : Timers :=
  let t := s.endTime pHandler
  { s with
    m_timerMinHeap := (s.m_timerMinHeap.Insert t).1
    m_timerMultiMap := s.m_timerMultiMap.insert t pHandler
    pc := s.pc.inserted (s.m_timerMultiMap.upperBound t) }

/-- The first position from the lower to the upper bound of `t` that holds the handler. -/
def findHandler (m : Multimap Key Ptr) (t : Key) (pHandler : Ptr) : Option Nat :=
  (List.range' (m.lowerBound t) (m.upperBound t - m.lowerBound t)).find? fun i =>
    (m.entries[i]?).map Prod.snd = some pHandler

def Timers.DelTimerEventHandler (s : Timers) (pHandler : Ptr) : Timers :=
  match findHandler s.m_timerMultiMap (s.endTime pHandler) pHandler with
  | some i => { s with m_timerMultiMap := s.m_timerMultiMap.erase i, pc := s.pc.erased i }
  | none => s

/-! ## `TimerEventHanderBase` -/

def Timers.setHandler (s : Timers) (p : Ptr) (h : TimerEventHanderBase) : Timers :=
  { s with handlers := Function.update s.handlers p h }

@[simp] theorem Timers.endTime_setHandler (s : Timers) (p : Ptr) (h : TimerEventHanderBase) :
    (s.setHandler p h).endTime p = h.m_endtime.pair := by
  simp [setHandler, endTime]

/-- `now` is what `gettimeofday` reads. -/
def Timers.RegisterTimer (s : Timers) (p : Ptr) (msec : BitVec 32) (restart : Bool) (now : timeval) : Timers :=
  let m_interval : timeval := { tv_sec := (msec.toNat / 1000 : Nat), tv_usec := (msec.toNat % 1000 : Nat) }
  (s.setHandler p { m_interval := m_interval, m_endtime := timeradd now m_interval, m_bRestart := restart }).AddTimerEventHandler p

def Timers.UnRegisterTimer (s : Timers) (p : Ptr) : Timers := s.DelTimerEventHandler p

def Timers.RegisterTimerAgain (s : Timers) (p : Ptr) (now : timeval) : Timers :=
  let h := s.handlers p
  if timerisset h.m_endtime ∧ timerisset h.m_interval then
    (s.setHandler p { h with m_endtime := timeradd now h.m_interval }).AddTimerEventHandler p
  else s

/-! ## `ScanTimer` -/

/-- The head of the `while`, with what `gettimeofday` reads there. -/
def Timers.scanHead (s : Timers) (now : timeval) : Timers :=
  if s.m_timerMinHeap.IsEmpty then { s with pc := .idle }
  else
    let minTime := s.m_timerMinHeap.GetMin
    if timercmp_ge now { tv_sec := (ofLex minTime).1, tv_usec := (ofLex minTime).2 } then
      { s with
        m_timerMinHeap := s.m_timerMinHeap.RemoveMin.2
        pc := .inner minTime (s.m_timerMultiMap.lowerBound minTime) }
    else { s with pc := .idle }

/-- `erase(beg++)`: the entry after the erased one is at its position. -/
def Timers.eraseBeg (s : Timers) (minTime : Key) (beg : Nat) : Timers :=
  { s with m_timerMultiMap := s.m_timerMultiMap.erase beg, pc := .inner minTime beg }

/-- After `OnTimeOut`: the handler is added again if it restarts. -/
def Timers.afterTimeOut (s : Timers) (pHandler : Ptr) : Option Timers :=
  let s := if (s.handlers pHandler).m_bRestart then s.AddTimerEventHandler pHandler else s
  match s.pc with
  | .onTimeOut minTime (some beg) _ => some (s.eraseBeg minTime beg)
  | _ => none

/-- What can happen next. -/
inductive Action where
  | RegisterTimer (p : Ptr) (msec : BitVec 32) (restart : Bool) (now : timeval)
  | RegisterTimerAgain (p : Ptr) (now : timeval)
  | UnRegisterTimer (p : Ptr)
  | ScanTimer
  | gettimeofday (now : timeval)
  | OnTimeOut (pHandler : Ptr)
  | OnTimeOutReturns
  | upperBoundReached
deriving DecidableEq

def Timers.step (s : Timers) : Action → Option Timers
  | .RegisterTimer p msec restart now => if s.pc.Outside then some (s.RegisterTimer p msec restart now) else none
  | .RegisterTimerAgain p now => if s.pc.Outside then some (s.RegisterTimerAgain p now) else none
  | .UnRegisterTimer p => if s.pc.Outside then some (s.UnRegisterTimer p) else none
  | .ScanTimer => if s.pc = .idle then some { s with pc := .head } else none
  | .gettimeofday now => if s.pc = .head then some (s.scanHead now) else none
  | .OnTimeOut p =>
    match s.pc with
    | .inner minTime beg =>
      if beg ≠ s.m_timerMultiMap.upperBound minTime ∧ (s.m_timerMultiMap.entries[beg]?).map Prod.snd = some p then
        some { s with pc := .onTimeOut minTime (some beg) p }
      else none
    | _ => none
  | .OnTimeOutReturns =>
    match s.pc with
    | .onTimeOut _ _ p => s.afterTimeOut p
    | _ => none
  | .upperBoundReached =>
    match s.pc with
    | .inner minTime beg => if beg = s.m_timerMultiMap.upperBound minTime then some { s with pc := .head } else none
    | _ => none

def Timers.Step (s : Timers) (a : Action) (s' : Timers) : Prop := s.step a = some s'

/-! ## What a step can do -/

/-- The action registers `p`, if it does anything. -/
def Action.Registers (p : Ptr) : Action → Prop
  | .RegisterTimer q _ _ _ => q = p
  | .RegisterTimerAgain q _ => q = p
  | _ => False

/-- The end time an action hands to `AddTimerEventHandler`. -/
def Timers.addedKey (s : Timers) : Action → Option Key
  | .RegisterTimer _ msec _ now =>
    some (timeradd now { tv_sec := (msec.toNat / 1000 : Nat), tv_usec := (msec.toNat % 1000 : Nat) }).pair
  | .RegisterTimerAgain p now =>
    if timerisset (s.handlers p).m_endtime ∧ timerisset (s.handlers p).m_interval then
      some (timeradd now (s.handlers p).m_interval).pair
    else none
  | .OnTimeOutReturns =>
    match s.pc with
    | .onTimeOut _ (some _) p => if (s.handlers p).m_bRestart then some (s.endTime p) else none
    | _ => none
  | _ => none

inductive Stepped (s : Timers) : Action → Timers → Prop where
  | register (a : Action) (p : Ptr) (h : TimerEventHanderBase) (outside : s.pc.Outside) (names : a.Registers p)
      (added : s.addedKey a = some h.m_endtime.pair) :
      Stepped s a ((s.setHandler p h).AddTimerEventHandler p)
  | ignored (p : Ptr) (now : timeval) (outside : s.pc.Outside) (added : s.addedKey (.RegisterTimerAgain p now) = none) :
      Stepped s (.RegisterTimerAgain p now) s
  | unregister (p : Ptr) (outside : s.pc.Outside) : Stepped s (.UnRegisterTimer p) (s.DelTimerEventHandler p)
  | scan (idle : s.pc = .idle) : Stepped s .ScanTimer { s with pc := .head }
  | stop (now : timeval) (at_head : s.pc = .head) (later : ∀ k ∈ s.m_timerMinHeap.keys, now.pair < k) :
      Stepped s (.gettimeofday now) { s with pc := .idle }
  | pop (now : timeval) (minTime : Key) (heap : MinHeap Key) (at_head : s.pc = .head) (due : minTime ≤ now.pair)
      (taken : minTime ::ₘ heap.keys = s.m_timerMinHeap.keys) :
      Stepped s (.gettimeofday now)
        { s with
          m_timerMinHeap := heap
          pc := .inner minTime (s.m_timerMultiMap.lowerBound minTime) }
  | call (minTime : Key) (beg : Nat) (e : Key × Ptr) (at_inner : s.pc = .inner minTime beg)
      (inside : beg ≠ s.m_timerMultiMap.upperBound minTime) (here : s.m_timerMultiMap.entries[beg]? = some e) :
      Stepped s (.OnTimeOut e.2) { s with pc := .onTimeOut minTime (some beg) e.2 }
  | restarted (minTime : Key) (beg : Nat) (p : Ptr) (at_call : s.pc = .onTimeOut minTime (some beg) p)
      (restarts : (s.handlers p).m_bRestart) (added : s.addedKey .OnTimeOutReturns = some (s.endTime p)) :
      Stepped s .OnTimeOutReturns ((s.AddTimerEventHandler p).eraseBeg minTime
        (Multimap.afterInsert (s.m_timerMultiMap.upperBound (s.endTime p)) beg))
  | returned (minTime : Key) (beg : Nat) (p : Ptr) (at_call : s.pc = .onTimeOut minTime (some beg) p)
      (ends : ¬ (s.handlers p).m_bRestart) (added : s.addedKey .OnTimeOutReturns = none) :
      Stepped s .OnTimeOutReturns (s.eraseBeg minTime beg)
  | done (minTime : Key) (beg : Nat) (at_inner : s.pc = .inner minTime beg)
      (reached : beg = s.m_timerMultiMap.upperBound minTime) : Stepped s .upperBoundReached { s with pc := .head }

theorem pair_ofLex (k : Key) : timeval.pair { tv_sec := (ofLex k).1, tv_usec := (ofLex k).2 } = k := rfl

/-- The head of the `while` stops when the least end time is not due, or there is none. -/
theorem scanHead_cases {s : Timers} (now : timeval) (at_head : s.pc = .head) :
    Stepped s (.gettimeofday now) (s.scanHead now) := by
  unfold Timers.scanHead
  by_cases empty : s.m_timerMinHeap.IsEmpty
  · rw [if_pos empty]
    refine .stop now at_head fun k mem => ?_
    rw [(MinHeap.isEmpty_iff _).mp empty] at mem
    exact absurd mem (Multiset.notMem_zero k)
  · rw [if_neg empty]
    dsimp only
    by_cases due : timercmp_ge now { tv_sec := (ofLex s.m_timerMinHeap.GetMin).1, tv_usec := (ofLex s.m_timerMinHeap.GetMin).2 }
    · rw [if_pos due]
      rw [timercmp_ge_iff, pair_ofLex] at due
      exact .pop now _ _ at_head due (MinHeap.keys_RemoveMin _ empty)
    · rw [if_neg due]
      rw [timercmp_ge_iff, pair_ofLex, not_le] at due
      exact .stop now at_head fun k mem => lt_of_lt_of_le due (MinHeap.GetMin_le mem)

theorem Timers.step_cases {s s' : Timers} {a : Action} (step : s.Step a s') : Stepped s a s' := by
  unfold Step at step
  cases a with
  | RegisterTimer p msec restart now =>
    rw [Timers.step, Option.ite_none_right_eq_some] at step
    obtain ⟨outside, ⟨⟩⟩ := step
    exact .register _ p _ outside rfl rfl
  | RegisterTimerAgain p now =>
    rw [Timers.step, Option.ite_none_right_eq_some] at step
    obtain ⟨outside, ⟨⟩⟩ := step
    unfold RegisterTimerAgain
    by_cases armed : timerisset (s.handlers p).m_endtime ∧ timerisset (s.handlers p).m_interval
    · dsimp only
      rw [if_pos armed]
      exact .register _ p _ outside rfl (if_pos armed)
    · dsimp only
      rw [if_neg armed]
      exact .ignored p now outside (if_neg armed)
  | UnRegisterTimer p =>
    rw [Timers.step, Option.ite_none_right_eq_some] at step
    obtain ⟨outside, ⟨⟩⟩ := step
    exact .unregister p outside
  | ScanTimer =>
    rw [Timers.step, Option.ite_none_right_eq_some] at step
    obtain ⟨idle, ⟨⟩⟩ := step
    exact .scan idle
  | gettimeofday now =>
    rw [Timers.step, Option.ite_none_right_eq_some] at step
    obtain ⟨at_head, ⟨⟩⟩ := step
    exact scanHead_cases now at_head
  | OnTimeOut p =>
    rw [Timers.step] at step
    split at step
    · rename_i minTime beg at_inner
      rw [Option.ite_none_right_eq_some, Option.map_eq_some_iff] at step
      obtain ⟨⟨inside, e, here, rfl⟩, ⟨⟩⟩ := step
      exact .call minTime beg e at_inner inside here
    · cases step
  | OnTimeOutReturns =>
    rw [Timers.step] at step
    split at step
    · rename_i minTime beg p at_call
      unfold afterTimeOut at step
      by_cases restarts : (s.handlers p).m_bRestart
      · rw [if_pos restarts, AddTimerEventHandler, at_call] at step
        cases beg with
        | none => cases step
        | some beg =>
          cases step
          exact .restarted minTime beg p at_call restarts (by simp [addedKey, at_call, restarts])
      · rw [if_neg restarts] at step
        dsimp only at step
        rw [at_call] at step
        cases beg with
        | none => cases step
        | some beg =>
          cases step
          exact .returned minTime beg p at_call restarts (by simp [addedKey, at_call, restarts])
    · cases step
  | upperBoundReached =>
    rw [Timers.step] at step
    split at step
    · rename_i minTime beg at_inner
      rw [Option.ite_none_right_eq_some] at step
      obtain ⟨reached, ⟨⟩⟩ := step
      exact .done minTime beg at_inner reached
    · cases step

/-! ## The lookup of `DelTimerEventHandler` -/

/-- What is found is an entry of that end time and handler. -/
theorem findHandler_some {m : Multimap Key Ptr} {t : Key} {p : Ptr} {i : Nat} (found : findHandler m t p = some i) :
    m.entries[i]? = some (t, p) := by
  have holds := List.find?_some found
  have range := List.mem_range'_1.mp (List.mem_of_find?_eq_some found)
  rw [decide_eq_true_iff, Option.map_eq_some_iff] at holds
  obtain ⟨e, here, rfl⟩ := holds
  have key := (Multimap.key_iff here t).mp ⟨range.1, by omega⟩
  rw [here, ← key]

/-- If there is one, one is found. -/
theorem findHandler_none {m : Multimap Key Ptr} {t : Key} {p : Ptr} (found : findHandler m t p = none) :
    (t, p) ∉ m.entries := by
  intro mem
  obtain ⟨i, here⟩ := List.mem_iff_getElem?.mp mem
  have between := (Multimap.key_iff here t).mpr rfl
  have no := List.find?_eq_none.mp found i (List.mem_range'_1.mpr (by omega))
  simp [here] at no

/-! ## The iterator stays at the first entry of `minTime` -/

structure Timers.CursorOk (s : Timers) : Prop where
  inner : ∀ minTime beg, s.pc = .inner minTime beg → beg = s.m_timerMultiMap.lowerBound minTime
  call : ∀ minTime beg p, s.pc = .onTimeOut minTime (some beg) p →
    beg = s.m_timerMultiMap.lowerBound minTime ∧ s.m_timerMultiMap.entries[beg]? = some (minTime, p)

theorem Pc.inserted_call {pc : Pc} {u beg' : Nat} {minTime : Key} {p : Ptr}
    (at_call : pc.inserted u = .onTimeOut minTime (some beg') p) :
    ∃ beg, pc = .onTimeOut minTime (some beg) p ∧ beg' = Multimap.afterInsert u beg := by
  cases pc with
  | onTimeOut m b q =>
    cases b with
    | none => cases at_call
    | some b =>
      cases at_call
      exact ⟨b, rfl, rfl⟩
  | _ => cases at_call

theorem Pc.erased_call {pc : Pc} {j beg' : Nat} {minTime : Key} {p : Ptr}
    (at_call : pc.erased j = .onTimeOut minTime (some beg') p) :
    ∃ beg, pc = .onTimeOut minTime (some beg) p ∧ Multimap.afterErase j beg = some beg' := by
  cases pc with
  | onTimeOut m b q =>
    cases b with
    | none => cases at_call
    | some b =>
      simp only [Pc.erased, Pc.onTimeOut.injEq] at at_call
      obtain ⟨rfl, left, rfl⟩ := at_call
      exact ⟨b, rfl, left⟩
  | _ => cases at_call

/-- Adding a handler during a call moves the iterator with its entry. -/
theorem Timers.add_at_call {s : Timers} {minTime : Key} {beg : Nat} {p : Ptr}
    (at_call : s.pc = .onTimeOut minTime (some beg) p) (q : Ptr) :
    (s.AddTimerEventHandler q).pc = .onTimeOut minTime
      (some (Multimap.afterInsert (s.m_timerMultiMap.upperBound (s.endTime q)) beg)) p := by
  simp only [AddTimerEventHandler, at_call, Pc.inserted]

/-- Outside `ScanTimer`'s own code the control point stays outside. -/
theorem Pc.inserted_outside {pc : Pc} (outside : pc.Outside) (u : Nat) : (pc.inserted u).Outside := by
  cases pc with
  | onTimeOut m b q => cases b <;> trivial
  | _ => exact outside

theorem Pc.erased_outside {pc : Pc} (outside : pc.Outside) (j : Nat) : (pc.erased j).Outside := by
  cases pc with
  | onTimeOut m b q => cases b <;> trivial
  | _ => exact outside

theorem Timers.CursorOk.add {s : Timers} (ok : s.CursorOk) (outside : s.pc.Outside) (p : Ptr) :
    (s.AddTimerEventHandler p).CursorOk := by
  constructor
  · intro minTime beg at_inner
    have still := Pc.inserted_outside outside (s.m_timerMultiMap.upperBound (s.endTime p))
    rw [show s.pc.inserted _ = _ from at_inner] at still
    exact absurd still id
  · intro minTime beg' q at_call
    obtain ⟨beg, before, rfl⟩ := Pc.inserted_call at_call
    obtain ⟨first, here⟩ := ok.call minTime beg q before
    exact ⟨Multimap.afterInsert_lowerBound here first _ p, (Multimap.insert_getElem? _ _ p beg).trans here⟩

theorem Timers.CursorOk.del {s : Timers} (ok : s.CursorOk) (outside : s.pc.Outside) (p : Ptr) :
    (s.DelTimerEventHandler p).CursorOk := by
  unfold DelTimerEventHandler
  split
  · rename_i i found
    have entry := findHandler_some found
    constructor
    · intro minTime beg at_inner
      have still := Pc.erased_outside outside i
      rw [show s.pc.erased i = _ from at_inner] at still
      exact absurd still id
    · intro minTime beg' q at_call
      obtain ⟨beg, before, left⟩ := Pc.erased_call at_call
      obtain ⟨first, here⟩ := ok.call minTime beg q before
      exact ⟨Multimap.afterErase_lowerBound entry first left, (Multimap.erase_getElem? _ left).trans here⟩
  · exact ok

/-- The iterator moves on to the next entry. -/
theorem Timers.CursorOk.eraseBeg {s : Timers} (ok : s.CursorOk) {minTime : Key} {beg : Nat} {p : Ptr}
    (at_call : s.pc = .onTimeOut minTime (some beg) p) : (s.eraseBeg minTime beg).CursorOk := by
  obtain ⟨first, here⟩ := ok.call minTime beg p at_call
  constructor
  · rintro _ _ ⟨⟩
    exact Multimap.erase_lowerBound here first
  · rintro _ _ _ ⟨⟩

/-- Before the upper bound the iterator is at an entry of `minTime`. -/
theorem Timers.CursorOk.key {s : Timers} (ok : s.CursorOk) {minTime : Key} {beg : Nat} {e : Key × Ptr}
    (at_inner : s.pc = .inner minTime beg) (inside : beg ≠ s.m_timerMultiMap.upperBound minTime)
    (here : s.m_timerMultiMap.entries[beg]? = some e) : e.1 = minTime := by
  have first := ok.inner minTime beg at_inner
  have order := s.m_timerMultiMap.lowerBound_le_upperBound minTime
  exact (Multimap.key_iff here minTime).mp ⟨by omega, by omega⟩

/-- Where there is no iterator nothing is asked of it. -/
theorem Timers.CursorOk.of_free {s : Timers} (free : s.pc = .idle ∨ s.pc = .head) : s.CursorOk := by
  constructor
  · intro minTime beg at_inner
    rw [at_inner] at free
    rcases free with h | h <;> cases h
  · intro minTime beg p at_call
    rw [at_call] at free
    rcases free with h | h <;> cases h

theorem Timers.step_cursor {s s' : Timers} {a : Action} (ok : s.CursorOk) (step : s.Step a s') : s'.CursorOk := by
  cases step_cases step with
  | register a p h outside names added =>
    have same : (s.setHandler p h).CursorOk := ⟨ok.inner, ok.call⟩
    exact same.add outside p
  | ignored p now outside added => exact ok
  | unregister p outside => exact ok.del outside p
  | scan idle => exact .of_free (.inr rfl)
  | stop now at_head later => exact .of_free (.inl rfl)
  | pop now minTime heap at_head due taken =>
    constructor
    · rintro _ _ ⟨⟩
      rfl
    · rintro _ _ _ ⟨⟩
  | call minTime beg e at_inner inside here =>
    have key := ok.key at_inner inside here
    constructor
    · rintro _ _ ⟨⟩
    · rintro _ _ _ ⟨⟩
      exact ⟨ok.inner minTime beg at_inner, by rw [here, ← key]⟩
  | restarted minTime beg p at_call restarts added =>
    have outside : s.pc.Outside := at_call ▸ trivial
    exact (ok.add outside p).eraseBeg (add_at_call at_call p)
  | returned minTime beg p at_call ends added => exact ok.eraseBeg at_call
  | done minTime beg at_inner reached => exact .of_free (.inr rfl)

theorem Timers.cursor_init : init.CursorOk := .of_free (.inl rfl)

/-! ## The entries besides the one in a call -/

namespace Timers

/-- The entries but the one whose call is running. -/
def others (s : Timers) : List (Key × Ptr) :=
  match s.pc with
  | .onTimeOut _ (some beg) _ => s.m_timerMultiMap.entries.eraseIdx beg
  | _ => s.m_timerMultiMap.entries

/-- During a call the entries are the one it is for and the others. -/
theorem others_perm {s : Timers} (ok : s.CursorOk) {minTime : Key} {beg : Nat} {p : Ptr}
    (at_call : s.pc = .onTimeOut minTime (some beg) p) :
    s.m_timerMultiMap.entries.Perm ((minTime, p) :: s.others) := by
  have whole := Multimap.erase_perm (ok.call minTime beg p at_call).2
  rw [others, at_call]
  exact whole

/-- After the call the others are what is left. -/
theorem eraseBeg_entries {s : Timers} {minTime : Key} {beg : Nat} {p : Ptr}
    (at_call : s.pc = .onTimeOut minTime (some beg) p) :
    (s.eraseBeg minTime beg).m_timerMultiMap.entries = s.others := by
  rw [others, at_call]
  rfl

/-- With no iterator in a call the others are all. -/
theorem others_eq {s : Timers} (free : ∀ minTime beg p, s.pc ≠ .onTimeOut minTime (some beg) p) :
    s.others = s.m_timerMultiMap.entries := by
  unfold others
  split
  · rename_i pc
    exact absurd pc (free _ _ _)
  · rfl

/-- Adding a handler adds its entry to the others. -/
theorem others_add {s : Timers} (ok : s.CursorOk) (outside : s.pc.Outside) (p : Ptr) :
    (s.AddTimerEventHandler p).others.Perm ((s.endTime p, p) :: s.others) := by
  have inserted : (s.AddTimerEventHandler p).m_timerMultiMap.entries.Perm
      ((s.endTime p, p) :: s.m_timerMultiMap.entries) := Multimap.insert_perm _ _ _
  by_cases call : ∃ minTime beg q, s.pc = .onTimeOut minTime (some beg) q
  · obtain ⟨minTime, beg, q, at_call⟩ := call
    have after := others_perm (ok.add outside p) (add_at_call at_call p)
    have before := others_perm ok at_call
    refine (List.perm_cons (minTime, q)).mp (after.symm.trans (inserted.trans ?_))
    exact (before.cons _).trans (List.Perm.swap _ _ _)
  · have free : ∀ minTime beg q, s.pc ≠ .onTimeOut minTime (some beg) q := by
      intro minTime beg q at_call
      exact call ⟨minTime, beg, q, at_call⟩
    rw [others_eq free]
    rw [others_eq]
    · exact inserted
    · intro minTime beg q at_call
      obtain ⟨beg', before, -⟩ := Pc.inserted_call at_call
      exact free _ _ _ before

end Timers

end CodeClips.Epoll
