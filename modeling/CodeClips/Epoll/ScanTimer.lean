import CodeClips.Epoll.TimerAgreement

/-!
# One pass of `ScanTimer`

The pass is followed with the clock standing still and with calls that return at once. A
handler that restarts is added again by `AddTimerEventHandler`, which uses the end time it
had: `m_endtime` is only moved by `RegisterTimer` and `RegisterTimerAgain`. So the new entry
is due as well, and the pass goes on with it. `scan_iff`: the pass is right exactly if the
end times of the due timers are in the heap and no due timer that restarts has an end time
that is due.
-/

namespace CodeClips.Epoll

/-- What happens in a pass with the clock at `now` when the calls do nothing. -/
def PassAction (now : timeval) : Action → Prop
  | .gettimeofday t => t = now
  | .OnTimeOut _ | .OnTimeOutReturns | .upperBoundReached => True
  | _ => False

theorem PassAction.not_registers {now : timeval} {a : Action} (mine : PassAction now a) (p : Ptr) : ¬ a.Registers p := by
  cases a <;> first | exact id | exact absurd mine id

/-- The handler an action calls. -/
def called : Action → List Ptr
  | .OnTimeOut p => [p]
  | _ => []

namespace Timers

/-- The entries that are due and whose call has not begun. -/
def pending (s : Timers) (now : timeval) : List (Key × Ptr) := s.others.filter (·.1 ≤ now.pair)

/-- A handler that is due and restarts has an end time that is not. -/
def DueMoved (s : Timers) (now : timeval) : Prop :=
  ∀ e ∈ s.m_timerMultiMap.entries, e.1 ≤ now.pair → (s.handlers e.2).m_bRestart → now.pair < s.endTime e.2

/-- The end times that are due are in the heap. -/
def DueHeld (s : Timers) (now : timeval) : Prop :=
  ∀ e ∈ s.m_timerMultiMap.entries, e.1 ≤ now.pair → s.Held e.1

/-- What holds all through the pass. -/
structure PassInv (now : timeval) (s : Timers) : Prop where
  cursor : s.CursorOk
  alive : ∀ minTime p, s.pc ≠ .onTimeOut minTime none p
  moved : s.DueMoved now
  current : ∀ k, s.pc.minTime? = some k → k ≤ now.pair

/-- A handler that restarts after its call has an end time that is not due. -/
theorem PassInv.later {s : Timers} {now : timeval} (inv : s.PassInv now) {minTime : Key} {beg : Nat} {p : Ptr}
    (at_call : s.pc = .onTimeOut minTime (some beg) p) (restarts : (s.handlers p).m_bRestart) :
    now.pair < s.endTime p := by
  apply inv.moved (minTime, p)
  · exact (others_perm inv.cursor at_call).mem_iff.mpr List.mem_cons_self
  · apply inv.current minTime
    rw [at_call]
    rfl
  · exact restarts

/-- What was left during the call is all that is left after it. -/
theorem others_eraseBeg {s : Timers} {minTime : Key} {beg : Nat} {p : Ptr}
    (at_call : s.pc = .onTimeOut minTime (some beg) p) : (s.eraseBeg minTime beg).others = s.others := by
  rw [others_eq (by simp [eraseBeg])]
  exact eraseBeg_entries at_call

theorem restarted_keys (s : Timers) (p : Ptr) (minTime : Key) (beg : Nat) :
    ((s.AddTimerEventHandler p).eraseBeg minTime beg).m_timerMinHeap.keys =
      if s.m_timerMinHeap.IsFull then s.m_timerMinHeap.keys else s.endTime p ::ₘ s.m_timerMinHeap.keys :=
  MinHeap.keys_Insert _ _

/-! ## One step of the pass -/

theorem pending_add {s : Timers} {now : timeval} (ok : s.CursorOk) (outside : s.pc.Outside) {p : Ptr}
    (later : now.pair < s.endTime p) : ((s.AddTimerEventHandler p).pending now).Perm (s.pending now) := by
  apply ((others_add ok outside p).filter _).trans
  rw [List.filter_cons_of_neg (by simpa using later)]
  exact List.Perm.refl _

/-- A step calls one of the pending handlers, or leaves them pending. -/
theorem pass_step {s s' : Timers} {a : Action} {now : timeval} (inv : s.PassInv now) (mine : PassAction now a)
    (step : s.Step a s') :
    s'.PassInv now ∧ ((s.pending now).map Prod.snd).Perm (called a ++ (s'.pending now).map Prod.snd) := by
  have ⟨ok, alive, moved, current⟩ := inv
  have ok' := step_cursor ok step
  cases step_cases step with
  | register a p h outside names => exact absurd names (mine.not_registers p)
  | ignored => exact absurd mine id
  | unregister => exact absurd mine id
  | scan => exact absurd mine id
  | stop now at_head later =>
    refine ⟨⟨ok', fun _ _ h => (by cases h), moved, fun _ h => by cases h⟩, ?_⟩
    rw [pending, pending, others_eq (by simp [at_head])]
    exact List.Perm.refl _
  | pop t minTime heap at_head due taken =>
    cases mine
    refine ⟨⟨ok', fun _ _ h => (by cases h), moved, ?_⟩, ?_⟩
    · rintro k ⟨⟩
      exact due
    · rw [pending, pending, others_eq (by simp [at_head])]
      exact List.Perm.refl _
  | call minTime beg e at_inner inside here =>
    have key := ok.key at_inner inside here
    have due : e.1 ≤ now.pair := key ▸ current minTime (by rw [at_inner]; rfl)
    refine ⟨⟨ok', fun _ _ h => (by cases h), moved, ?_⟩, ?_⟩
    · rintro k ⟨⟩
      exact current minTime (by rw [at_inner]; rfl)
    · have split := (Multimap.erase_perm here).filter (·.1 ≤ now.pair)
      rw [List.filter_cons_of_pos (by simpa using due)] at split
      rw [pending, others_eq (by simp [at_inner])]
      exact split.map Prod.snd
  | restarted minTime beg p at_call restarts added =>
    have outside : s.pc.Outside := at_call ▸ trivial
    have later := inv.later at_call restarts
    have after := add_at_call at_call p
    refine ⟨⟨ok', fun _ _ h => (by cases h), ?_, ?_⟩, ?_⟩
    · intro e mem due again
      rw [eraseBeg_entries after, (others_add ok outside p).mem_iff, List.mem_cons] at mem
      rcases mem with rfl | old
      · exact later
      · exact moved e ((others_perm ok at_call).mem_iff.mpr (List.mem_cons_of_mem _ old)) due again
    · rintro k ⟨⟩
      exact current minTime (by rw [at_call]; rfl)
    · have same := pending_add ok outside later
      rw [pending, ← others_eraseBeg after] at same
      exact same.symm.map Prod.snd
  | returned minTime beg p at_call ends added =>
    refine ⟨⟨ok', fun _ _ h => (by cases h), ?_, ?_⟩, ?_⟩
    · intro e mem
      exact moved e (Multimap.mem_of_mem_erase mem)
    · rintro k ⟨⟩
      exact current minTime (by rw [at_call]; rfl)
    · rw [pending, pending, others_eraseBeg at_call]
      exact List.Perm.refl _
  | done minTime beg at_inner reached =>
    refine ⟨⟨ok', fun _ _ h => (by cases h), moved, fun _ h => by cases h⟩, ?_⟩
    rw [pending, pending, others_eq (by simp [at_inner])]
    exact List.Perm.refl _

theorem pass_handlers {s s' : Timers} {a : Action} {now : timeval} (mine : PassAction now a) (step : s.Step a s') :
    s'.handlers = s.handlers := by
  cases step_cases step with
  | register a p h outside names => exact absurd names (mine.not_registers p)
  | unregister => exact absurd mine id
  | _ => rfl

/-- What is due stays in the heap, and the pass ends only when nothing in the heap is due. -/
theorem pass_held {s s' : Timers} {a : Action} {now : timeval} (inv : s.PassInv now) (held : s.DueHeld now)
    (mine : PassAction now a) (step : s.Step a s') :
    s'.DueHeld now ∧ (s'.pc = .idle → ∀ k ∈ s'.m_timerMinHeap.keys, now.pair < k) := by
  have kept : ∀ {e}, e ∈ s.m_timerMultiMap.entries → e.1 ≤ now.pair → e ∈ s'.m_timerMultiMap.entries →
      s'.Held e.1 := fun old due mem => step_held inv.cursor step (held _ old due) mem
  cases step_cases step with
  | register a p h outside names => exact absurd names (mine.not_registers p)
  | ignored => exact absurd mine id
  | unregister => exact absurd mine id
  | scan => exact absurd mine id
  | stop now at_head later =>
    cases mine
    exact ⟨fun e mem due => kept mem due mem, fun _ => later⟩
  | pop t minTime heap at_head _ taken => exact ⟨fun e mem due => kept mem due mem, fun h => by cases h⟩
  | call minTime beg e at_inner inside here => exact ⟨fun e mem due => kept mem due mem, fun h => by cases h⟩
  | restarted minTime beg p at_call restarts added =>
    have outside : s.pc.Outside := at_call ▸ trivial
    have whole := others_perm inv.cursor at_call
    refine ⟨fun e mem due => ?_, fun h => by cases h⟩
    have split := mem
    rw [eraseBeg_entries (add_at_call at_call p), (others_add inv.cursor outside p).mem_iff, List.mem_cons] at split
    rcases split with rfl | old
    · exact absurd due (not_le.mpr (inv.later at_call restarts))
    · exact kept (whole.mem_iff.mpr (List.mem_cons_of_mem _ old)) due mem
  | returned minTime beg p at_call ends added =>
    exact ⟨fun e mem due => kept (Multimap.mem_of_mem_erase mem) due mem, fun h => by cases h⟩
  | done minTime beg at_inner reached => exact ⟨fun e mem due => kept mem due mem, fun h => by cases h⟩

/-- A registered handler that restarts stays registered, under its old entry or its end time. -/
theorem pass_keeps {s s' : Timers} {a : Action} {now : timeval} {p : Ptr} (C : Key → Prop) (ok : s.CursorOk)
    (mine : PassAction now a) (step : s.Step a s') (restarts : (s.handlers p).m_bRestart) (own : C (s.endTime p))
    (some : ∃ k, C k ∧ (k, p) ∈ s.m_timerMultiMap.entries) : ∃ k, C k ∧ (k, p) ∈ s'.m_timerMultiMap.entries := by
  obtain ⟨k, holds, mem⟩ := some
  cases step_cases step with
  | register a p h outside names => exact absurd names (mine.not_registers p)
  | unregister => exact absurd mine id
  | restarted minTime beg q at_call again added =>
    have outside : s.pc.Outside := at_call ▸ trivial
    rw [eraseBeg_entries (add_at_call at_call q)]
    simp only [(others_add ok outside q).mem_iff, List.mem_cons]
    by_cases same : q = p
    · subst same
      exact ⟨s.endTime q, own, .inl rfl⟩
    · rw [(others_perm ok at_call).mem_iff, List.mem_cons] at mem
      exact ⟨k, holds, .inr (mem.resolve_left fun h => same (congrArg Prod.snd h).symm)⟩
  | returned minTime beg q at_call ends added =>
    have same : q ≠ p := by
      rintro rfl
      exact ends restarts
    rw [eraseBeg_entries at_call]
    rw [(others_perm ok at_call).mem_iff, List.mem_cons] at mem
    exact ⟨k, holds, mem.resolve_left fun h => same (congrArg Prod.snd h).symm⟩
  | _ => exact ⟨k, holds, mem⟩

/-! ## The pass ends -/

/-- The control points in the order in which one pass of the `for` goes back through them. -/
def rank : Pc → Nat
  | .idle => 0
  | .head => 1
  | .inner .. => 2
  | .onTimeOut .. => 3

/-- What is left of the pass: end times to pop, calls to make, and the way to the `while`. -/
def left (s : Timers) (now : timeval) : Nat :=
  2 * s.m_timerMinHeap.keys.countP (· ≤ now.pair) + 2 * (s.pending now).length + rank s.pc

theorem pass_left {s s' : Timers} {a : Action} {now : timeval} (inv : s.PassInv now) (mine : PassAction now a)
    (step : s.Step a s') : s'.left now < s.left now := by
  have count := (pass_step inv mine step).2.length_eq
  simp only [List.length_append, List.length_map] at count
  unfold left
  cases step_cases step with
  | register a p h outside names => exact absurd names (mine.not_registers p)
  | ignored => exact absurd mine id
  | unregister => exact absurd mine id
  | scan => exact absurd mine id
  | stop t at_head later =>
    simp only [called, List.length_nil] at count
    simp only [at_head, rank]
    omega
  | pop t minTime heap at_head due taken =>
    cases mine
    simp only [called, List.length_nil] at count
    rw [← taken, Multiset.countP_cons_of_pos (p := (· ≤ now.pair)) _ due]
    simp only [at_head, rank]
    omega
  | call minTime beg e at_inner inside here =>
    simp only [called, List.length_singleton] at count
    simp only [at_inner, rank]
    omega
  | restarted minTime beg p at_call restarts added =>
    simp only [called, List.length_nil] at count
    have same : (if s.m_timerMinHeap.IsFull then s.m_timerMinHeap.keys
        else s.endTime p ::ₘ s.m_timerMinHeap.keys).countP (· ≤ now.pair) =
          s.m_timerMinHeap.keys.countP (· ≤ now.pair) := by
      split
      · rfl
      · exact Multiset.countP_cons_of_neg _ (not_le.mpr (inv.later at_call restarts))
    rw [restarted_keys, same]
    simp only [at_call, eraseBeg, rank] at count ⊢
    omega
  | returned minTime beg p at_call ends added =>
    simp only [called, List.length_nil] at count
    simp only [at_call, eraseBeg, rank] at count ⊢
    omega
  | done minTime beg at_inner reached =>
    simp only [called, List.length_nil] at count
    simp only [at_inner, rank]
    omega

/-- Until it is over the pass has a next step. -/
theorem pass_goes_on {s : Timers} {now : timeval} (inv : s.PassInv now) (busy : s.pc ≠ .idle) :
    ∃ a s', PassAction now a ∧ s.Step a s' := by
  cases pc : s.pc with
  | idle => exact absurd pc busy
  | head => exact ⟨.gettimeofday now, _, rfl, if_pos pc⟩
  | inner minTime beg =>
    by_cases reached : beg = s.m_timerMultiMap.upperBound minTime
    · refine ⟨.upperBoundReached, { s with pc := .head }, trivial, ?_⟩
      simp [Step, Timers.step, pc, reached]
    · have first := inv.cursor.inner minTime beg pc
      have order := s.m_timerMultiMap.lowerBound_le_upperBound minTime
      have inside := s.m_timerMultiMap.upperBound_le minTime
      obtain ⟨e, here⟩ : ∃ e, s.m_timerMultiMap.entries[beg]? = some e :=
        ⟨_, List.getElem?_eq_getElem (by omega)⟩
      refine ⟨.OnTimeOut e.2, { s with pc := .onTimeOut minTime (some beg) e.2 }, trivial, ?_⟩
      simp [Step, Timers.step, pc, here, reached]
  | onTimeOut minTime beg p =>
    cases beg with
    | none => exact absurd pc (inv.alive minTime p)
    | some beg =>
      by_cases restarts : (s.handlers p).m_bRestart
      · refine ⟨.OnTimeOutReturns, (s.AddTimerEventHandler p).eraseBeg minTime
          (Multimap.afterInsert (s.m_timerMultiMap.upperBound (s.endTime p)) beg), trivial, ?_⟩
        simp only [Step, Timers.step, pc, afterTimeOut, restarts, if_true, add_at_call pc p]
      · refine ⟨.OnTimeOutReturns, s.eraseBeg minTime beg, trivial, ?_⟩
        simp only [Step, Timers.step, pc, afterTimeOut, if_neg restarts]

/-- A pass calls the pending handlers, but for those that are still pending. -/
theorem pass_path {s s' : Timers} {acts : List Action} {now : timeval} (path : Path Step s acts s')
    (inv : s.PassInv now) (mine : ∀ a ∈ acts, PassAction now a) :
    s'.PassInv now ∧
      ((s.pending now).map Prod.snd).Perm (acts.flatMap called ++ (s'.pending now).map Prod.snd) := by
  induction path with
  | nil => exact ⟨inv, List.Perm.refl _⟩
  | cons next rest ih =>
    obtain ⟨first, others⟩ := List.forall_mem_cons.mp mine
    obtain ⟨inv', calls⟩ := pass_step inv first next
    obtain ⟨last, more⟩ := ih inv' others
    refine ⟨last, ?_⟩
    rw [List.flatMap_cons, List.append_assoc]
    exact calls.trans (more.append_left _)

/-- What the pass does next. -/
def nextAction (s : Timers) (now : timeval) : Option Action :=
  match s.pc with
  | .idle => none
  | .head => some (.gettimeofday now)
  | .inner minTime beg =>
    if beg = s.m_timerMultiMap.upperBound minTime then some .upperBoundReached
    else (s.m_timerMultiMap.entries[beg]?).map fun e => .OnTimeOut e.2
  | .onTimeOut .. => some .OnTimeOutReturns

theorem pass_next {s s' : Timers} {a : Action} {now : timeval} (mine : PassAction now a) (step : s.Step a s') :
    s.nextAction now = some a := by
  unfold nextAction
  cases step_cases step with
  | register a p h outside names => exact absurd names (mine.not_registers p)
  | ignored => exact absurd mine id
  | unregister => exact absurd mine id
  | scan => exact absurd mine id
  | stop t at_head => rw [at_head, mine]
  | pop t minTime heap at_head => rw [at_head, mine]
  | call minTime beg e at_inner inside here => simp [at_inner, inside, here]
  | restarted minTime beg p at_call => rw [at_call]
  | returned minTime beg p at_call => rw [at_call]
  | done minTime beg at_inner reached => simp [at_inner, reached]

/-- There is only one pass. -/
theorem pass_unique {s t t' : Timers} {as bs : List Action} {now : timeval} (first : Path Step s as t)
    (second : Path Step s bs t') (mine : ∀ a ∈ as, PassAction now a) (mine' : ∀ a ∈ bs, PassAction now a)
    (ended : t.pc = .idle) (ended' : t'.pc = .idle) : as = bs ∧ t = t' := by
  have stays : ∀ {s s' : Timers} {a}, s.pc = .idle → PassAction now a → ¬ s.Step a s' := by
    intro s s' a idle pass step
    have next := pass_next pass step
    rw [nextAction, idle] at next
    cases next
  induction first generalizing bs with
  | nil =>
    cases second with
    | nil => exact ⟨rfl, rfl⟩
    | cons next rest => exact absurd next (stays ended (mine' _ List.mem_cons_self))
  | cons next rest ih =>
    obtain ⟨pass, all⟩ := List.forall_mem_cons.mp mine
    cases second with
    | nil => exact absurd next (stays ended' pass)
    | cons next' rest' =>
      obtain ⟨pass', all'⟩ := List.forall_mem_cons.mp mine'
      cases (pass_next pass next).symm.trans (pass_next pass' next')
      cases next.symm.trans next'
      obtain ⟨rfl, rfl⟩ := ih rest' all all' ended
      exact ⟨rfl, rfl⟩

/-! ## The whole pass -/

/-- A call of `ScanTimer` with the clock at `now` that ends in `s'`; it calls `calls`. -/
def Scans (s : Timers) (now : timeval) (calls : List Ptr) (s' : Timers) : Prop :=
  ∃ acts, (∀ a ∈ acts, PassAction now a) ∧ Path Step s (.ScanTimer :: acts) s' ∧ s'.pc = .idle ∧
    acts.flatMap called = calls

/-- A call of `ScanTimer` ends in one way only. -/
theorem scans_unique {s t t' : Timers} {now : timeval} {calls calls' : List Ptr} (first : s.Scans now calls t)
    (second : s.Scans now calls' t') : calls = calls' ∧ t = t' := by
  obtain ⟨as, mine, path, ended, rfl⟩ := first
  obtain ⟨bs, mine', path', ended', rfl⟩ := second
  cases path with
  | cons next rest =>
    cases path' with
    | cons next' rest' =>
      cases next.symm.trans next'
      obtain ⟨rfl, rfl⟩ := pass_unique rest rest' mine mine' ended ended'
      exact ⟨rfl, rfl⟩

/-- The call ends, calls the handler of each due entry once and nothing else, and the handlers
that are registered and restart are registered after it, with later end times only. -/
def ScanOk (s : Timers) (now : timeval) : Prop :=
  ∃ calls s', s.Scans now calls s' ∧
    calls.Perm ((s.m_timerMultiMap.entries.filter (·.1 ≤ now.pair)).map Prod.snd) ∧
    ∀ p, (∃ k, (k, p) ∈ s.m_timerMultiMap.entries) → (s'.handlers p).m_bRestart →
      (∃ k, (k, p) ∈ s'.m_timerMultiMap.entries) ∧ ∀ k, (k, p) ∈ s'.m_timerMultiMap.entries → now.pair < k

/-- An entry whose end time nothing holds stays where it is. -/
theorem pass_forgets {s s' : Timers} {a : Action} {now : timeval} {e : Key × Ptr} (inv : s.PassInv now)
    (due : e.1 ≤ now.pair) (mine : PassAction now a) (step : s.Step a s') (mem : e ∈ s.others)
    (lost : ¬ s.Held e.1) : e ∈ s'.others ∧ ¬ s'.Held e.1 := by
  rw [Held, not_or] at lost
  obtain ⟨absent, passed⟩ := lost
  cases step_cases step with
  | register a p h outside names => exact absurd names (mine.not_registers p)
  | ignored => exact absurd mine id
  | unregister => exact absurd mine id
  | scan => exact absurd mine id
  | stop t at_head later =>
    rw [others_eq (by simp [at_head])] at mem
    refine ⟨mem, not_or.mpr ⟨absent, fun h => by cases h⟩⟩
  | pop t minTime heap at_head first taken =>
    rw [others_eq (by simp [at_head])] at mem
    rw [← taken, Multiset.mem_cons, not_or] at absent
    refine ⟨mem, not_or.mpr ⟨absent.2, fun h => ?_⟩⟩
    exact absent.1 (Option.some.inj h).symm
  | call minTime beg e' at_inner inside here =>
    have key := inv.cursor.key at_inner inside here
    rw [at_inner] at passed
    rw [others_eq (by simp [at_inner]), (Multimap.erase_perm here).mem_iff, List.mem_cons] at mem
    refine ⟨mem.resolve_left ?_, not_or.mpr ⟨absent, passed⟩⟩
    rintro rfl
    exact passed (congrArg some key.symm)
  | restarted minTime beg p at_call restarts added =>
    have outside : s.pc.Outside := at_call ▸ trivial
    have later := inv.later at_call restarts
    rw [at_call] at passed
    refine ⟨?_, not_or.mpr ⟨?_, passed⟩⟩
    · rw [others_eraseBeg (add_at_call at_call p)]
      exact (others_add inv.cursor outside p).mem_iff.mpr (List.mem_cons_of_mem _ mem)
    · rw [restarted_keys]
      split
      · exact absent
      · rw [Multiset.mem_cons, not_or]
        exact ⟨fun same => absurd (same ▸ due) (not_le.mpr later), absent⟩
  | returned minTime beg p at_call ends added =>
    rw [at_call] at passed
    refine ⟨?_, not_or.mpr ⟨absent, passed⟩⟩
    rw [others_eraseBeg at_call]
    exact mem
  | done minTime beg at_inner reached =>
    rw [others_eq (by simp [at_inner])] at mem
    exact ⟨mem, not_or.mpr ⟨absent, fun h => by cases h⟩⟩

/-- The invariant of the pass, when it begins. -/
theorem passInv_start {s : Timers} {now : timeval} (moved : s.DueMoved now) : ({ s with pc := .head } : Timers).PassInv now :=
  ⟨.of_free (.inr rfl), fun _ _ h => (by cases h), moved, fun _ h => by cases h⟩

theorem pending_start {s : Timers} {now : timeval} :
    ({ s with pc := .head } : Timers).pending now = s.m_timerMultiMap.entries.filter (·.1 ≤ now.pair) := by
  rw [pending, others_eq (by simp)]

/-- A registered handler that restarts is registered when the pass is over. -/
theorem path_keeps {s s' : Timers} {acts : List Action} {now : timeval} {p : Ptr} (C : Key → Prop)
    (path : Path Step s acts s') (ok : s.CursorOk) (mine : ∀ a ∈ acts, PassAction now a)
    (restarts : (s.handlers p).m_bRestart) (own : C (s.endTime p))
    (some : ∃ k, C k ∧ (k, p) ∈ s.m_timerMultiMap.entries) :
    s'.handlers = s.handlers ∧ ∃ k, C k ∧ (k, p) ∈ s'.m_timerMultiMap.entries := by
  have kept := path.invariant (I := fun t => t.CursorOk ∧ t.handlers = s.handlers ∧
    ∃ k, C k ∧ (k, p) ∈ t.m_timerMultiMap.entries) ?_ ⟨ok, rfl, some⟩
  · exact kept.2
  · rintro t a t' mem ⟨ok, same, some⟩ step
    have pass := mine a mem
    refine ⟨step_cursor ok step, (pass_handlers pass step).trans same, ?_⟩
    apply pass_keeps C ok pass step ?_ ?_ some
    · rw [same]
      exact restarts
    · rw [endTime, same]
      exact own

/-- **A right pass**: the due end times are in the heap and no due handler restarts when due. -/
theorem scanOk_of {s : Timers} {now : timeval} (idle : s.pc = .idle)
    (held : ∀ e ∈ s.m_timerMultiMap.entries, e.1 ≤ now.pair → e.1 ∈ s.m_timerMinHeap.keys)
    (moved : s.DueMoved now) : s.ScanOk now := by
  have start : ({ s with pc := .head } : Timers).PassInv now := passInv_start moved
  obtain ⟨acts, s', mine, path, ended⟩ := exists_path_of_weight (·.pc = .idle) (PassAction now)
    (·.left now) (fun _ inv busy => pass_goes_on inv busy)
    (fun _ _ _ inv mine next => ⟨(pass_step inv mine next).1, pass_left inv mine next⟩) start
  have calls := (pass_path path start mine).2
  have finished : s'.DueHeld now ∧ (s'.pc = .idle → ∀ k ∈ s'.m_timerMinHeap.keys, now.pair < k) := by
    have whole := path.invariant (I := fun t => t.PassInv now ∧ t.DueHeld now ∧
      (t.pc = .idle → ∀ k ∈ t.m_timerMinHeap.keys, now.pair < k)) ?_ ⟨start, ?_, fun h => by cases h⟩
    · exact whole.2
    · rintro t a t' mem ⟨inv, held, _⟩ next
      exact ⟨(pass_step inv (mine a mem) next).1, pass_held inv held (mine a mem) next⟩
    · exact fun e mem due => .inl (held e mem due)
  have later : ∀ e ∈ s'.m_timerMultiMap.entries, now.pair < e.1 := by
    intro e mem
    by_contra due
    have kept := finished.1 e mem (not_lt.mp due)
    rw [Held, ended] at kept
    rcases kept with inHeap | nothing
    · exact due (finished.2 ended _ inHeap)
    · cases nothing
  have none : s'.pending now = [] := by
    rw [pending, others_eq (by simp [ended])]
    exact List.filter_eq_nil_iff.mpr fun e mem => by simpa using later e mem
  rw [pending_start, none, List.map_nil, List.append_nil] at calls
  refine ⟨_, s', ⟨acts, mine, .cons (if_pos idle) path, ended, rfl⟩, calls.symm, ?_⟩
  rintro p ⟨k, mem⟩ restarts
  have same : s'.handlers = s.handlers :=
    path.invariant (I := fun t => t.handlers = s.handlers)
      (fun _ a _ mem same next => (pass_handlers (mine a mem) next).trans same) rfl
  rw [same] at restarts
  have stays := (path_keeps (fun _ => True) path start.cursor mine restarts trivial ⟨k, trivial, mem⟩).2
  exact ⟨stays.imp fun _ => And.right, fun k mem => later _ mem⟩

/-- **One pass** is right exactly if the end times of the due timers are in the heap and each of
them that restarts has an end time that is not due. -/
theorem scan_iff (s : Timers) (idle : s.pc = .idle) (now : timeval) :
    s.ScanOk now ↔
      (∀ e ∈ s.m_timerMultiMap.entries, e.1 ≤ now.pair → e.1 ∈ s.m_timerMinHeap.keys) ∧ s.DueMoved now := by
  constructor
  · rintro ⟨_, s', ⟨acts, mine, path, ended, rfl⟩, calls, after⟩
    cases path with
    | cons next path =>
      cases next.symm.trans (if_pos idle)
      have moved : s.DueMoved now := by
        intro e mem due restarts
        by_contra early
        obtain ⟨same, k, again, stays⟩ := path_keeps (p := e.2) (· ≤ now.pair) path (.of_free (.inr rfl)) mine restarts
          (not_lt.mp early) ⟨e.1, due, mem⟩
        have later := (after e.2 ⟨e.1, mem⟩ (by rw [same]; exact restarts)).2 k stays
        exact absurd again (not_le.mpr later)
      refine ⟨fun e mem due => ?_, moved⟩
      by_contra absent
      have start : ({ s with pc := .head } : Timers).PassInv now := passInv_start moved
      have forgotten := path.invariant (I := fun t => t.PassInv now ∧ e ∈ t.others ∧ ¬ t.Held e.1) ?_ ⟨start, ?_, ?_⟩
      · have count := (pass_path path start mine).2.length_eq
        rw [pending_start, List.length_append, ← calls.length_eq, List.length_map] at count
        have pending : e ∈ s'.pending now := List.mem_filter.mpr ⟨forgotten.2.1, by simpa using due⟩
        have more := List.length_pos_of_mem pending
        omega
      · rintro t a t' mem ⟨inv, here, lost⟩ next
        exact ⟨(pass_step inv (mine a mem) next).1, pass_forgets inv due (mine a mem) next here lost⟩
      · rw [others_eq (by simp)]
        exact mem
      · rintro (inHeap | nothing)
        · exact absent inHeap
        · cases nothing
  · rintro ⟨held, moved⟩
    exact scanOk_of idle held moved

/-! ## One timer of a second -/

/-- Registered at ten seconds. -/
def single (restart : Bool) : Timers := init.RegisterTimer 0 1000 restart { tv_sec := 10, tv_usec := 0 }

theorem single_keys (restart : Bool) : (single restart).m_timerMinHeap.keys = {toLex (11, 0)} := by
  refine (MinHeap.keys_Insert _ _).trans ((if_neg Bool.false_ne_true).trans ?_)
  rw [endTime_setHandler]
  rfl

theorem single_entries (restart : Bool) : (single restart).m_timerMultiMap.entries = [(toLex (11, 0), 0)] := by
  cases restart <;> rfl

/-- One that does not restart is called once. -/
theorem single_fires : (single false).ScanOk { tv_sec := 11, tv_usec := 0 } := by
  apply (scan_iff (single false) rfl _).mpr
  constructor
  · intro e mem _
    rw [single_entries, List.mem_singleton] at mem
    rw [single_keys, mem]
    exact Multiset.mem_singleton_self _
  · intro e mem _ restarts
    rw [single_entries, List.mem_singleton] at mem
    subst mem
    cases restarts

/-- The pass is at the end time of a handler that restarts with the same end time. -/
structure Looping (s : Timers) (p : Ptr) : Prop where
  at_own : s.pc.minTime? = some (s.endTime p)
  restarts : (s.handlers p).m_bRestart
  entry : (s.endTime p, p) ∈ s.m_timerMultiMap.entries

/-- It stays there. -/
theorem pass_looping {s s' : Timers} {a : Action} {now : timeval} {p : Ptr} (ok : s.CursorOk) (mine : PassAction now a)
    (loop : s.Looping p) (step : s.Step a s') : s'.Looping p := by
  obtain ⟨at_own, restarts, entry⟩ := loop
  have same := pass_handlers mine step
  have own : s'.endTime p = s.endTime p := by
    rw [endTime, same]
    rfl
  obtain ⟨k, rfl, mem⟩ := pass_keeps (· = s.endTime p) ok mine step restarts rfl ⟨_, rfl, entry⟩
  refine ⟨?_, same ▸ restarts, own ▸ mem⟩
  rw [own, ← at_own]
  cases step_cases step with
  | register a q h outside names => exact absurd names (mine.not_registers q)
  | ignored => rfl
  | unregister => exact absurd mine id
  | scan => exact absurd mine id
  | stop t at_head =>
    rw [at_head] at at_own
    cases at_own
  | pop t minTime heap at_head =>
    rw [at_head] at at_own
    cases at_own
  | call minTime beg e at_inner =>
    rw [at_inner]
    rfl
  | restarted minTime beg q at_call =>
    rw [at_call]
    rfl
  | returned minTime beg q at_call =>
    rw [at_call]
    rfl
  | done minTime beg at_inner reached =>
    rw [at_inner] at at_own
    cases at_own
    exact absurd rfl (Multimap.key_ne_of_bounds ((ok.inner _ beg at_inner).symm.trans reached) entry)

theorem single_looping {a : Action} {s : Timers} (mine : PassAction { tv_sec := 11, tv_usec := 0 } a)
    (first : ({ single true with pc := .head } : Timers).Step a s) : s.Looping 0 := by
  have own : (single true).endTime 0 = toLex (11, 0) := rfl
  have entry : (toLex (11, 0), 0) ∈ (single true).m_timerMultiMap.entries := by
    rw [single_entries]
    exact List.mem_singleton_self _
  cases step_cases first with
  | register a p h outside names => exact absurd names (mine.not_registers p)
  | ignored => exact absurd mine id
  | unregister => exact absurd mine id
  | scan => exact absurd mine id
  | stop now _ later =>
    cases mine
    exact absurd (later (toLex (11, 0)) (by rw [single_keys]; exact Multiset.mem_singleton_self _)) (lt_irrefl _)
  | pop now minTime heap _ due taken =>
    have least : minTime ∈ (single true).m_timerMinHeap.keys := by
      rw [← show _ = (single true).m_timerMinHeap.keys from taken]
      exact Multiset.mem_cons_self _ _
    rw [single_keys, Multiset.mem_singleton] at least
    subst least
    exact ⟨rfl, rfl, entry⟩
  | call minTime beg e at_inner => cases at_inner
  | restarted minTime beg p at_call => cases at_call
  | returned minTime beg p at_call => cases at_call
  | done minTime beg at_inner => cases at_inner

/-- One that restarts is called for ever: the pass does not end. -/
theorem single_never_ends :
    Reachable Step init (single true) ∧ (single true).pc = .idle ∧
      (∀ calls s', ¬ (single true).Scans { tv_sec := 11, tv_usec := 0 } calls s') ∧
      ¬ (single true).ScanOk { tv_sec := 11, tv_usec := 0 } := by
  have endless : ∀ calls s', ¬ (single true).Scans { tv_sec := 11, tv_usec := 0 } calls s' := by
    rintro _ s' ⟨acts, mine, path, ended, rfl⟩
    cases path with
    | cons next path =>
      cases next
      cases path with
      | nil => cases ended
      | cons first rest =>
        obtain ⟨pass, all⟩ := List.forall_mem_cons.mp mine
        have looping := rest.invariant (I := fun t => t.CursorOk ∧ t.Looping 0)
          (fun t a t' mem inv next => ⟨step_cursor inv.1 next, pass_looping inv.1 (all a mem) inv.2 next⟩) ?_
        · have own := looping.2.at_own
          rw [ended] at own
          cases own
        · exact ⟨step_cursor (.of_free (.inr rfl)) first, single_looping pass first⟩
  refine ⟨.step (a := .RegisterTimer 0 1000 true { tv_sec := 10, tv_usec := 0 }) .start rfl, rfl, endless, ?_⟩
  rintro ⟨calls, s', scans, -⟩
  exact endless calls s' scans

end Timers

end CodeClips.Epoll
