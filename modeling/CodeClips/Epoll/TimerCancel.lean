import CodeClips.Epoll.Timer

/-!
# Cancelled timers

`UnRegisterTimer` looks for the handler under its current `m_endtime` and takes out one entry.
Registering a registered handler again leaves its old entry in the map under the old end time,
so that entry survives the cancellation; and in the handler's own `OnTimeOut` the entry taken
out is the one `ScanTimer` still uses, or the handler is added again after the call. In every
other case nothing is left (`unregister_silent`), and nothing comes back (`step_silent`).
-/

namespace CodeClips.Epoll

namespace Timers

/-- The handler has at most one entry, under its current end time; its own call, if that is
running, is for another end time and does not add it again. -/
structure OnlyCurrent (s : Timers) (p : Ptr) : Prop where
  one : s.others.filter (·.2 = p) = [] ∨ s.others.filter (·.2 = p) = [(s.endTime p, p)]
  outside : ∀ minTime beg, s.pc = .onTimeOut minTime (some beg) p →
    s.endTime p ≠ minTime ∧ ¬ (s.handlers p).m_bRestart

/-- Nothing will call the handler. -/
structure Silent (s : Timers) (p : Ptr) : Prop where
  none : ∀ e ∈ s.others, e.2 ≠ p
  ends : ∀ minTime beg, s.pc = .onTimeOut minTime (some beg) p → ¬ (s.handlers p).m_bRestart

/-- What `DelTimerEventHandler` leaves of the others. -/
inductive Deleted (s : Timers) (p : Ptr) : Prop where
  | other (perm : s.others.Perm ((s.endTime p, p) :: (s.DelTimerEventHandler p).others))
  | own (beg : Nat) (at_call : s.pc = .onTimeOut (s.endTime p) (some beg) p)
      (same : (s.DelTimerEventHandler p).others = s.others)
  | none (absent : (s.endTime p, p) ∉ s.m_timerMultiMap.entries) (same : s.DelTimerEventHandler p = s)

theorem del_handlers (s : Timers) (p : Ptr) : (s.DelTimerEventHandler p).handlers = s.handlers := by
  unfold DelTimerEventHandler
  split <;> rfl

theorem del_at_call {s : Timers} {p q : Ptr} {minTime : Key} {beg' : Nat}
    (at_call : (s.DelTimerEventHandler p).pc = .onTimeOut minTime (some beg') q) :
    ∃ beg, s.pc = .onTimeOut minTime (some beg) q := by
  unfold DelTimerEventHandler at at_call
  split at at_call
  · obtain ⟨beg, before, -⟩ := Pc.erased_call at_call
    exact ⟨beg, before⟩
  · exact ⟨beg', at_call⟩

theorem deleted {s : Timers} (ok : s.CursorOk) (outside : s.pc.Outside) (p : Ptr) : s.Deleted p := by
  cases found : findHandler s.m_timerMultiMap (s.endTime p) p with
  | none =>
    apply Deleted.none (findHandler_none found)
    rw [DelTimerEventHandler, found]
  | some i =>
    have entry := findHandler_some found
    have gone := Multimap.erase_perm entry
    have result : s.DelTimerEventHandler p =
        { s with m_timerMultiMap := s.m_timerMultiMap.erase i, pc := s.pc.erased i } := by
      rw [DelTimerEventHandler, found]
    by_cases call : ∃ minTime beg q, s.pc = .onTimeOut minTime (some beg) q
    · obtain ⟨minTime, beg, q, at_call⟩ := call
      have here := (ok.call _ _ _ at_call).2
      cases left : Multimap.afterErase i beg with
      | none =>
        -- the entry taken out is the one the call is for
        have same : i = beg := by
          unfold Multimap.afterErase at left
          split_ifs at left with before equal
          exact equal
        subst same
        rw [entry] at here
        cases here
        apply Deleted.own i at_call
        rw [result, others, others, at_call, Pc.erased, left]
        rfl
      | some beg' =>
        have after := ok.del outside p
        rw [result] at after
        have rest := others_perm after (by rw [at_call, Pc.erased, left])
        have before := others_perm ok at_call
        refine .other ((List.perm_cons (minTime, q)).mp ?_)
        rw [result]
        exact before.symm.trans (gone.trans ((rest.cons _).trans (List.Perm.swap _ _ _)))
    · have free : ∀ minTime beg q, s.pc ≠ .onTimeOut minTime (some beg) q := by
        intro minTime beg q at_call
        exact call ⟨minTime, beg, q, at_call⟩
      apply Deleted.other
      rw [others_eq free, result, others_eq]
      · exact gone
      · intro minTime beg q at_call
        obtain ⟨beg', before, -⟩ := Pc.erased_call at_call
        exact free _ _ _ before

/-- **Cancelling leaves nothing** if the handler has only its current entry. -/
theorem unregister_silent {s : Timers} {p : Ptr} (ok : s.CursorOk) (outside : s.pc.Outside)
    (only : s.OnlyCurrent p) : (s.UnRegisterTimer p).Silent p := by
  constructor
  · rw [UnRegisterTimer]
    cases deleted ok outside p with
    | other perm =>
      intro e mem named
      have left : e ∈ (s.DelTimerEventHandler p).others.filter (·.2 = p) :=
        List.mem_filter.mpr ⟨mem, decide_eq_true named⟩
      have whole := perm.filter (·.2 = p)
      rw [List.filter_cons_of_pos (by simp)] at whole
      have more := List.length_pos_of_mem left
      have count := whole.length_eq
      rcases only.one with nothing | single
      · rw [nothing] at count
        simp at count
      · rw [single, List.length_cons, List.length_cons, List.length_nil] at count
        omega
    | own beg at_call => exact absurd rfl (only.outside _ _ at_call).1
    | none absent same =>
      rw [same]
      have subset : s.others ⊆ s.m_timerMultiMap.entries := by
        unfold others
        split
        · exact List.eraseIdx_subset
        · exact List.Subset.refl _
      intro e mem named
      have left : e ∈ s.others.filter (·.2 = p) := List.mem_filter.mpr ⟨mem, decide_eq_true named⟩
      rcases only.one with nothing | single
      · rw [nothing] at left
        cases left
      · rw [single, List.mem_singleton] at left
        exact absent (left ▸ subset mem)
  · intro minTime beg at_call
    obtain ⟨beg', before⟩ := del_at_call at_call
    rw [UnRegisterTimer, del_handlers]
    exact (only.outside _ _ before).2

/-- The action registers the handler; `RegisterTimerAgain` may do nothing. -/
def Registered (p : Ptr) (s : Timers) (a : Action) : Prop := a.Registers p ∧ (s.addedKey a).isSome

/-- Registering another handler, with whatever interval and end it is given. -/
theorem Silent.register {s : Timers} {p q : Ptr} {h : TimerEventHanderBase} (ok : s.CursorOk) (silent : s.Silent p)
    (outside : s.pc.Outside) (differ : q ≠ p) : ((s.setHandler q h).AddTimerEventHandler q).Silent p := by
  obtain ⟨none, ends⟩ := silent
  have same : (s.setHandler q h).CursorOk := ⟨ok.inner, ok.call⟩
  have perm := others_add same outside q
  constructor
  · intro e mem
    rcases List.mem_cons.mp (perm.mem_iff.mp mem) with rfl | old
    · exact differ
    · exact none e old
  · intro minTime beg at_call
    obtain ⟨beg', before, -⟩ := Pc.inserted_call at_call
    have kept : ((s.setHandler q h).AddTimerEventHandler q).handlers p = s.handlers p := by
      simp [AddTimerEventHandler, setHandler, differ.symm]
    rw [kept]
    exact ends _ _ before

/-- Cancelling any handler. -/
theorem Silent.unregister {s : Timers} {p q : Ptr} (ok : s.CursorOk) (silent : s.Silent p) (outside : s.pc.Outside) :
    (s.DelTimerEventHandler q).Silent p := by
  obtain ⟨none, ends⟩ := silent
  constructor
  · intro e mem
    cases deleted ok outside q with
    | other perm => exact none e (perm.mem_iff.mpr (List.mem_cons_of_mem _ mem))
    | own beg at_call same => exact none e (same ▸ mem)
    | none absent same => exact none e (same ▸ mem)
  · intro minTime beg at_call
    obtain ⟨beg', before⟩ := del_at_call at_call
    rw [del_handlers]
    exact ends _ _ before

/-- A handler nothing will call stays so until it is registered, and is not called. -/
theorem step_silent {s s' : Timers} {a : Action} {p : Ptr} (ok : s.CursorOk) (silent : s.Silent p)
    (step : s.Step a s') (other : ¬ Registered p s a) : s'.Silent p ∧ a ≠ .OnTimeOut p := by
  obtain ⟨none, ends⟩ := silent
  cases step_cases step with
  | register a q h outside names added =>
    have differ : q ≠ p := by
      rintro rfl
      exact other ⟨names, by rw [added]; rfl⟩
    refine ⟨Silent.register ok ⟨none, ends⟩ outside differ, ?_⟩
    rintro rfl
    cases names
  | ignored q now outside added => exact ⟨⟨none, ends⟩, fun h => by cases h⟩
  | unregister q outside =>
    exact ⟨Silent.unregister ok ⟨none, ends⟩ outside, fun h => by cases h⟩
  | scan idle =>
    rw [others_eq (by simp [idle])] at none
    exact ⟨⟨none, fun _ _ h => by cases h⟩, fun h => by cases h⟩
  | stop now at_head later =>
    rw [others_eq (by simp [at_head])] at none
    exact ⟨⟨none, fun _ _ h => by cases h⟩, fun h => by cases h⟩
  | pop now minTime heap at_head due taken =>
    rw [others_eq (by simp [at_head])] at none
    exact ⟨⟨none, fun _ _ h => by cases h⟩, fun h => by cases h⟩
  | call minTime beg e at_inner inside here =>
    rw [others_eq (by simp [at_inner])] at none
    have differ := none e (List.mem_of_getElem? here)
    refine ⟨⟨fun e' mem => none e' (List.mem_of_mem_eraseIdx mem), ?_⟩, ?_⟩
    · rintro _ _ ⟨⟩
      exact absurd rfl differ
    · rintro ⟨⟩
      exact differ rfl
  | restarted minTime beg q at_call restarts added =>
    have outside : s.pc.Outside := at_call ▸ trivial
    have differ : q ≠ p := by
      rintro rfl
      exact ends _ _ at_call restarts
    have perm := others_add ok outside q
    rw [others, add_at_call at_call q] at perm
    refine ⟨⟨fun e mem => ?_, fun _ _ h => by cases h⟩, fun h => by cases h⟩
    rcases List.mem_cons.mp (perm.mem_iff.mp mem) with rfl | old
    · exact differ
    · exact none e old
  | returned minTime beg q at_call stops added =>
    rw [others, at_call] at none
    exact ⟨⟨none, fun _ _ h => by cases h⟩, fun h => by cases h⟩
  | done minTime beg at_inner reached =>
    rw [others_eq (by simp [at_inner])] at none
    exact ⟨⟨none, fun _ _ h => by cases h⟩, fun h => by cases h⟩

/-! ## Runs -/

/-- Every cancellation of the run finds its handler with only its current entry. -/
def CancelsOnly (s : Timers) (a : Action) : Prop := ∀ p, a = .UnRegisterTimer p → s.OnlyCurrent p

/-- After a cancellation the handler is not called until it is registered. -/
def StaysSilent (a : Action) (s : Timers) (as : List Action) : Prop :=
  ∀ p, a = .UnRegisterTimer p → Until Step (Registered p) (· = .OnTimeOut p) s as

/-- **A cancelled timer never fires** in a run whose cancellations find only the current entry. -/
theorem cancelled_never_fires (acts : List Action) (only : StepsMeet Step CancelsOnly init acts) :
    After Step StaysSilent init acts := by
  apply after_of_stepsMeet (J := CursorOk) (fun s a s' ok step => step_cursor ok step) ?_ cursor_init only
  rintro s a s' as ok step only p rfl
  have silent : s'.CursorOk ∧ s'.Silent p := by
    refine ⟨step_cursor ok step, ?_⟩
    cases step_cases step with
    | register _ _ _ _ names => cases names
    | unregister _ outside => exact unregister_silent ok outside (only p rfl)
  apply until_of_invariant (I := fun s => s.CursorOk ∧ s.Silent p) ?_ ?_ silent as
  · rintro s a s' ⟨ok, silent⟩ step rfl
    have other : ¬ Registered p s (.OnTimeOut p) := fun registered => registered.1
    exact (step_silent ok silent step other).2 rfl
  · rintro s a s' ⟨ok, silent⟩ step other
    exact ⟨step_cursor ok step, (step_silent ok silent step other).1⟩

/-- One timer, registered, cancelled and scanned for. -/
theorem cancelled_once :
    After Step StaysSilent init
      [.RegisterTimer 0 1000 false { tv_sec := 10, tv_usec := 0 }, .UnRegisterTimer 0, .ScanTimer] := by
  apply cancelled_never_fires
  rintro _ ⟨⟩
  refine ⟨by rintro p ⟨⟩, ?_⟩
  rintro _ ⟨⟩
  refine ⟨?_, ?_⟩
  · rintro p ⟨⟩
    exact ⟨.inr rfl, by rintro _ _ ⟨⟩⟩
  · rintro _ ⟨⟩
    exact ⟨by rintro p ⟨⟩, trivial⟩

/-- A timer registered for one second, then for two, and cancelled. -/
def twice : Timers :=
  ((init.RegisterTimer 0 1000 false { tv_sec := 10, tv_usec := 0 }).RegisterTimer 0 2000 false
    { tv_sec := 10, tv_usec := 0 }).UnRegisterTimer 0

/-- And `ScanTimer` called. -/
def twiceScanned : Timers := { twice with pc := .head }

theorem twice_keys : twice.m_timerMinHeap.keys = {toLex (12, 0), toLex (11, 0)} := by
  apply (MinHeap.keys_Insert _ _).trans
  rw [if_neg (by decide)]
  apply congrArg₂ Multiset.cons (by decide)
  apply (MinHeap.keys_Insert _ _).trans
  rw [if_neg (by decide)]
  exact congrArg₂ Multiset.cons (by decide) rfl

/-- It is called all the same when the first second is over. -/
theorem twice_registered_fires :
    ¬ After Step StaysSilent init
      [.RegisterTimer 0 1000 false { tv_sec := 10, tv_usec := 0 },
        .RegisterTimer 0 2000 false { tv_sec := 10, tv_usec := 0 },
        .UnRegisterTimer 0, .ScanTimer, .gettimeofday { tv_sec := 11, tv_usec := 0 }, .OnTimeOut 0] := by
  intro after
  have cancelled : Until Step (Registered 0) (· = .OnTimeOut 0) twice
      [.ScanTimer, .gettimeofday { tv_sec := 11, tv_usec := 0 }, .OnTimeOut 0] :=
    (((after _ rfl).2 _ rfl).2 _ rfl).1 0 rfl
  have at_head := (cancelled twiceScanned rfl).2.resolve_left (·.1)
  have later := (at_head (twiceScanned.scanHead { tv_sec := 11, tv_usec := 0 }) rfl).2.resolve_left (·.1)
  have scanned := scanHead_cases (s := twiceScanned) { tv_sec := 11, tv_usec := 0 } rfl
  generalize twiceScanned.scanHead { tv_sec := 11, tv_usec := 0 } = s at scanned later
  cases scanned with
  | register _ _ _ _ names => cases names
  | stop now _ notDue => exact absurd (notDue (toLex (11, 0)) (by rw [twiceScanned, twice_keys]; simp)) (lt_irrefl _)
  | pop now minTime heap _ due taken =>
    have least : minTime ∈ twice.m_timerMinHeap.keys := by
      rw [← show _ = twice.m_timerMinHeap.keys from taken]
      exact Multiset.mem_cons_self _ _
    rw [twice_keys] at least
    have first : minTime = toLex (11, 0) := by
      rcases Multiset.mem_cons.mp least with rfl | same
      · exact absurd due (by decide)
      · exact Multiset.mem_singleton.mp same
    subst first
    exact (later _ rfl).1 rfl

end Timers

end CodeClips.Epoll
