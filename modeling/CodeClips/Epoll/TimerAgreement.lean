import CodeClips.Epoll.Timer

/-!
# The timers of the map and the end times of the heap

`ScanTimer` finds a handler only through an end time in `m_timerMinHeap`. The heap holds a
fixed number of elements and `AddTimerEventHandler` does not look at whether `Insert` took
the new one, so a timer can be in `m_timerMultiMap` alone. `noneLost_iff`: that is the only
way to lose one. `fires` says what the agreement is for.
-/

namespace CodeClips.Epoll

/-- The end time whose handlers `ScanTimer` is going through. -/
def Pc.minTime? : Pc → Option Key
  | .inner minTime _ | .onTimeOut minTime _ _ => some minTime
  | _ => none

namespace Timers

/-- The end time is in the heap, or its handlers are being gone through. -/
def Held (s : Timers) (k : Key) : Prop := k ∈ s.m_timerMinHeap.keys ∨ s.pc.minTime? = some k

/-- Every timer of the map has its end time in the heap, or is about to fire. -/
def NoneLost (s : Timers) : Prop := ∀ e ∈ s.m_timerMultiMap.entries, s.Held e.1

/-- An end time that is added finds a place in the heap, or is held already. -/
def HasRoom (s : Timers) (a : Action) : Prop :=
  ∀ k, s.addedKey a = some k → ¬ s.m_timerMinHeap.IsFull ∨ s.Held k

@[simp] theorem inserted_minTime? (pc : Pc) (u : Nat) : (pc.inserted u).minTime? = pc.minTime? := by
  cases pc with
  | onTimeOut m b p => cases b <;> rfl
  | _ => rfl

@[simp] theorem erased_minTime? (pc : Pc) (j : Nat) : (pc.erased j).minTime? = pc.minTime? := by
  cases pc with
  | onTimeOut m b p => cases b <;> rfl
  | _ => rfl

/-! ## One step -/

theorem add_held {s : Timers} {k : Key} (held : s.Held k) (p : Ptr) : (s.AddTimerEventHandler p).Held k := by
  have keys : (s.AddTimerEventHandler p).m_timerMinHeap.keys = _ := MinHeap.keys_Insert _ (s.endTime p)
  rw [Held, keys, AddTimerEventHandler]
  simp only [inserted_minTime?]
  apply held.imp_left
  intro kept
  split
  · exact kept
  · exact Multiset.mem_cons_of_mem kept

/-- Adding a handler loses it exactly if its end time has no place. -/
theorem add_noneLost_iff {s : Timers} (none : s.NoneLost) (p : Ptr) :
    (s.AddTimerEventHandler p).NoneLost ↔ ¬ s.m_timerMinHeap.IsFull ∨ s.Held (s.endTime p) := by
  have keys : (s.AddTimerEventHandler p).m_timerMinHeap.keys = _ := MinHeap.keys_Insert _ (s.endTime p)
  by_cases full : s.m_timerMinHeap.IsFull
  · rw [if_pos full] at keys
    constructor
    · intro after
      have mine := after (s.endTime p, p) (Multimap.mem_insert.mpr (.inl rfl))
      rw [Held, keys, AddTimerEventHandler] at mine
      simp only [inserted_minTime?] at mine
      exact .inr mine
    · intro room e mem
      apply add_held
      rcases Multimap.mem_insert.mp mem with rfl | old
      · exact room.resolve_left (not_not.mpr full)
      · exact none e old
  · rw [if_neg full] at keys
    apply iff_of_true ?_ (.inl full)
    intro e mem
    rcases Multimap.mem_insert.mp mem with rfl | old
    · left
      rw [keys]
      exact Multiset.mem_cons_self _ _
    · exact add_held (none e old) p

/-- The entry that is erased after a call is one of the end time being gone through. -/
theorem eraseBeg_noneLost_iff {s : Timers} (ok : s.CursorOk) {minTime : Key} {beg : Nat} {p : Ptr}
    (at_call : s.pc = .onTimeOut minTime (some beg) p) : (s.eraseBeg minTime beg).NoneLost ↔ s.NoneLost := by
  have entry := (ok.call minTime beg p at_call).2
  have held : ∀ k, (s.eraseBeg minTime beg).Held k ↔ s.Held k := by
    intro k
    rw [Held, Held, at_call]
    rfl
  constructor
  · intro after e mem
    rcases List.mem_cons.mp ((Multimap.erase_perm entry).mem_iff.mp mem) with rfl | left
    · apply Or.inr
      rw [at_call]
      rfl
    · exact (held e.1).mp (after e left)
  · intro before e mem
    exact (held e.1).mpr (before e (Multimap.mem_of_mem_erase mem))

/-- An end time that is held stays held, as long as it has an entry. -/
theorem step_held {s s' : Timers} {a : Action} (ok : s.CursorOk) (step : s.Step a s') {e : Key × Ptr}
    (held : s.Held e.1) (mem : e ∈ s'.m_timerMultiMap.entries) : s'.Held e.1 := by
  cases step_cases step with
  | register a p h outside names added => exact add_held (s := s.setHandler p h) held p
  | ignored p now outside added => exact held
  | unregister p outside =>
    unfold DelTimerEventHandler
    split
    · rw [Held, erased_minTime?]
      exact held
    · exact held
  | scan idle =>
    rw [Held, idle] at held
    exact held
  | stop now at_head later =>
    rw [Held, at_head] at held
    exact held
  | pop now minTime heap at_head due taken =>
    rw [Held, at_head, ← taken, Multiset.mem_cons] at held
    rcases held with (same | kept) | nothing
    · exact .inr (congrArg some same.symm)
    · exact .inl kept
    · cases nothing
  | call minTime beg e at_inner inside here =>
    rw [Held, at_inner] at held
    exact held
  | restarted minTime beg p at_call restarts added =>
    have after := add_held held p
    rw [Held, add_at_call at_call p] at after
    exact after
  | returned minTime beg p at_call ends added =>
    rw [Held, at_call] at held
    exact held
  | done minTime beg at_inner reached =>
    have passed := Multimap.key_ne_of_bounds ((ok.inner minTime beg at_inner).symm.trans reached) mem
    rw [Held, at_inner] at held
    exact held.imp_right fun same => absurd (Option.some.inj same).symm passed

/-- **One step** loses a timer exactly if it adds one without a place in the heap. -/
theorem step_noneLost_iff {s s' : Timers} {a : Action} (ok : s.CursorOk) (none : s.NoneLost) (step : s.Step a s') :
    s'.NoneLost ↔ s.HasRoom a := by
  have free : ∀ {a}, s.addedKey a = .none → s.HasRoom a := by
    intro a nothing k added
    rw [nothing] at added
    cases added
  have room : ∀ {a k}, s.addedKey a = some k → (s.HasRoom a ↔ ¬ s.m_timerMinHeap.IsFull ∨ s.Held k) := by
    intro a k added
    rw [HasRoom, added]
    simp
  -- where no entry is new, all of them stay held
  have stays : (∀ e ∈ s'.m_timerMultiMap.entries, e ∈ s.m_timerMultiMap.entries) → s'.NoneLost :=
    fun old e mem => step_held ok step (none e (old e mem)) mem
  cases step_cases step with
  | register a p h outside names added =>
    have same : (s.setHandler p h).NoneLost := none
    rw [add_noneLost_iff same, room added, endTime_setHandler]
    rfl
  | ignored p now outside added => exact iff_of_true none (free added)
  | unregister p outside =>
    apply iff_of_true (stays ?_) (free rfl)
    unfold DelTimerEventHandler
    split
    · exact fun e mem => Multimap.mem_of_mem_erase mem
    · exact fun e mem => mem
  | scan idle => exact iff_of_true (stays fun e mem => mem) (free rfl)
  | stop now at_head later => exact iff_of_true (stays fun e mem => mem) (free rfl)
  | pop now minTime heap at_head due taken => exact iff_of_true (stays fun e mem => mem) (free rfl)
  | call minTime beg e at_inner inside here => exact iff_of_true (stays fun e mem => mem) (free rfl)
  | restarted minTime beg p at_call restarts added =>
    have outside : s.pc.Outside := at_call ▸ trivial
    rw [eraseBeg_noneLost_iff (ok.add outside p) (add_at_call at_call p), add_noneLost_iff none, room added]
  | returned minTime beg p at_call ends added =>
    exact iff_of_true ((eraseBeg_noneLost_iff ok at_call).mpr none) (free added)
  | done minTime beg at_inner reached => exact iff_of_true (stays fun e mem => mem) (free rfl)

/-! ## Runs -/

/-- Which runs lose no timer: those in which every end time added finds a place. -/
theorem always_noneLost_iff (acts : List Action) :
    Always Step NoneLost init acts ↔ StepsMeet Step HasRoom init acts := by
  apply always_iff_stepsMeet (J := CursorOk) ?_ ?_ cursor_init ?_ acts
  · intro s a s' ok _ step
    exact step_cursor ok step
  · intro s a s' ok none step
    exact step_noneLost_iff ok none step
  · intro e mem
    cases mem

/-- An entry, outside the call it causes. -/
def Waits (s : Timers) (k : Key) (p : Ptr) : Prop :=
  (k, p) ∈ s.m_timerMultiMap.entries ∧ ∀ minTime beg, s.pc ≠ .onTimeOut minTime beg p

/-- An entry stays until its handler is unregistered or called. -/
theorem step_waits {s s' : Timers} {a : Action} {k : Key} {p : Ptr} (ok : s.CursorOk) (waits : s.Waits k p)
    (kept : ∀ q, a ≠ .UnRegisterTimer q) (quiet : a ≠ .OnTimeOut p) (step : s.Step a s') : s'.Waits k p := by
  obtain ⟨mem, away⟩ := waits
  have inserted : ∀ u minTime beg, s.pc.inserted u ≠ .onTimeOut minTime beg p := by
    intro u minTime beg at_call
    cases pc : s.pc with
    | onTimeOut m b q =>
      rw [pc] at at_call
      cases b with
      | none =>
        cases at_call
        exact away _ _ pc
      | some b =>
        cases at_call
        exact away _ _ pc
    | _ =>
      rw [pc] at at_call
      cases at_call
  cases step_cases step with
  | register a q h outside names added => exact ⟨Multimap.mem_insert.mpr (.inr mem), inserted _⟩
  | ignored q now outside added => exact ⟨mem, away⟩
  | unregister q outside => exact absurd rfl (kept q)
  | scan idle => exact ⟨mem, fun _ _ h => by cases h⟩
  | stop now at_head later => exact ⟨mem, fun _ _ h => by cases h⟩
  | pop now minTime heap at_head due taken => exact ⟨mem, fun _ _ h => by cases h⟩
  | call minTime beg e at_inner inside here =>
    refine ⟨mem, ?_⟩
    rintro _ _ ⟨⟩
    exact quiet rfl
  | restarted minTime beg q at_call restarts added =>
    have outside : s.pc.Outside := at_call ▸ trivial
    have entry := ((ok.add outside q).call _ _ _ (add_at_call at_call q)).2
    have other : q ≠ p := fun same => away _ _ (same ▸ at_call)
    have here : (k, p) ∈ (s.AddTimerEventHandler q).m_timerMultiMap.entries := Multimap.mem_insert.mpr (.inr mem)
    rw [(Multimap.erase_perm entry).mem_iff, List.mem_cons] at here
    refine ⟨here.resolve_left fun same => other (congrArg Prod.snd same).symm, fun _ _ h => by cases h⟩
  | returned minTime beg q at_call ends added =>
    have entry := (ok.call _ _ _ at_call).2
    have other : q ≠ p := fun same => away _ _ (same ▸ at_call)
    rw [(Multimap.erase_perm entry).mem_iff, List.mem_cons] at mem
    refine ⟨mem.resolve_left fun same => other (congrArg Prod.snd same).symm, fun _ _ h => by cases h⟩
  | done minTime beg at_inner reached => exact ⟨mem, fun _ _ h => by cases h⟩

/-- **Passes fire what is due**: from an idle state of the run, when `ScanTimer` ends with the
clock at or past the end time of an entry, its handler has been called, if nothing was
unregistered meanwhile. -/
def FiresDue (acts : List Action) : Prop :=
  ∀ before pass s s' now k p, acts = before ++ pass → Path Step init before s → s.pc = .idle →
    (k, p) ∈ s.m_timerMultiMap.entries → (∀ q, .UnRegisterTimer q ∉ pass) →
    Path Step s (pass ++ [.gettimeofday now]) s' → s'.pc = .idle → k ≤ now.pair → .OnTimeOut p ∈ pass

theorem fires {acts : List Action} (room : StepsMeet Step HasRoom init acts) : FiresDue acts := by
  rintro before pass s s' now k p rfl start idle mem kept scan ended due
  by_contra quiet
  obtain ⟨t, first, last⟩ := scan.split
  have waits : t.CursorOk ∧ t.Waits k p := by
    apply first.invariant (I := fun s => s.CursorOk ∧ s.Waits k p) ?_ ⟨?_, mem, ?_⟩
    · rintro s a s' mem ⟨ok, waits⟩ step
      refine ⟨step_cursor ok step, step_waits ok waits (fun q same => ?_) (fun same => ?_) step⟩
      · exact kept q (same ▸ mem)
      · exact quiet (same ▸ mem)
    · exact start.invariant (fun s a s' _ => step_cursor) cursor_init
    · rw [idle]
      rintro _ _ ⟨⟩
  have held := ((always_noneLost_iff _).mpr room).path (start.append first) _ waits.2.1
  cases last with
  | cons next rest =>
    cases rest
    cases step_cases next with
    | register a q h outside names => cases names
    | stop now at_head later =>
      rw [Held, at_head] at held
      rcases held with inHeap | nothing
      · exact absurd due (not_le.mpr (later k inHeap))
      · cases nothing
    | pop => cases ended

/-- **No timer is lost** in a run exactly if every end time that is added finds a place in the
heap, and then the passes of the run fire what is due. -/
theorem noneLost_iff (acts : List Action) :
    (Always Step NoneLost init acts ↔ StepsMeet Step HasRoom init acts) ∧
      (StepsMeet Step HasRoom init acts → FiresDue acts) :=
  ⟨always_noneLost_iff acts, fires⟩

/-! ## A full heap -/

/-- One registration in each of the first `n` seconds, of timers that are due at once. -/
def registrations (n : Nat) : List Action :=
  (List.range n).map fun i => .RegisterTimer i 0 false { tv_sec := i, tv_usec := 0 }

/-- The state after the next of them. -/
def registered (s : Timers) (n : Nat) : Timers := s.RegisterTimer n 0 false { tv_sec := n, tv_usec := 0 }

theorem registered_path {s : Timers} {n : Nat} (path : Path Step init (registrations n) s) (idle : s.pc = .idle) :
    Path Step init (registrations (n + 1)) (s.registered n) ∧ (s.registered n).pc = .idle := by
  have outside : s.pc.Outside := idle ▸ trivial
  constructor
  · rw [registrations, List.range_succ, List.map_append]
    exact path.append (.cons (if_pos outside) (.nil _))
  · simp only [registered, RegisterTimer, setHandler, AddTimerEventHandler, idle, Pc.inserted]

theorem registered_keys (s : Timers) (n : Nat) :
    (s.registered n).m_timerMinHeap.keys =
      if s.m_timerMinHeap.IsFull then s.m_timerMinHeap.keys
      else toLex ((n : Int), (0 : Int)) ::ₘ s.m_timerMinHeap.keys := by
  apply (MinHeap.keys_Insert _ _).trans
  rw [endTime_setHandler]
  simp [setHandler, timeval.pair, timeradd]

theorem registered_mem (s : Timers) (n : Nat) :
    (toLex ((n : Int), (0 : Int)), n) ∈ (s.registered n).m_timerMultiMap.entries := by
  apply Multimap.mem_insert.mpr
  left
  rw [endTime_setHandler]
  simp [timeval.pair, timeradd]

/-- After registrations that fit, the heap holds their end times. -/
theorem registrations_path (n : Nat) (fits : n ≤ 10000) :
    ∃ s, Path Step init (registrations n) s ∧ s.pc = .idle ∧ s.m_timerMinHeap.m_max_size = 10000 ∧
      s.m_timerMinHeap.m_cur_size = n ∧
      s.m_timerMinHeap.keys = (Multiset.range n).map fun i : Nat => toLex ((i : Int), (0 : Int)) := by
  induction n with
  | zero => exact ⟨init, .nil init, rfl, rfl, rfl, rfl⟩
  | succ n ih =>
    obtain ⟨s, path, idle, size, count, keys⟩ := ih (by omega)
    have notFull : ¬ s.m_timerMinHeap.IsFull := by
      rw [MinHeap.IsFull, decide_eq_true_iff]
      omega
    obtain ⟨next, still⟩ := registered_path path idle
    have more := registered_keys s n
    rw [if_neg notFull] at more
    refine ⟨s.registered n, next, still, (MinHeap.m_max_size_Insert _ _).trans size, ?_, ?_⟩
    · rw [← MinHeap.card_keys, more, Multiset.card_cons, MinHeap.card_keys, count]
    · rw [more, Multiset.range_succ, Multiset.map_cons, keys]

/-- The timer registered into a full heap is in the map alone. -/
theorem registrations_lost {n : Nat} (full : n = 10000) : ¬ Always Step NoneLost init (registrations (n + 1)) := by
  intro always
  obtain ⟨s, path, idle, size, count, keys⟩ := registrations_path n full.le
  have isFull : s.m_timerMinHeap.IsFull := by
    rw [MinHeap.IsFull, decide_eq_true_iff]
    omega
  obtain ⟨next, still⟩ := registered_path path idle
  have held := always.path next _ (registered_mem s n)
  rw [Held, registered_keys, if_pos isFull, keys, still] at held
  rcases held with mem | nothing
  · obtain ⟨i, less, same⟩ := Multiset.mem_map.mp mem
    have equal : (i : Int) = n := congrArg (fun k : Key => (ofLex k).1) same
    have inside := Multiset.mem_range.mp less
    omega
  · cases nothing

/-- 10001 timers with different end times: the last is not in the heap. -/
theorem full_heap_loses : ¬ Always Step NoneLost init (registrations 10001) := registrations_lost rfl

end Timers

end CodeClips.Epoll
