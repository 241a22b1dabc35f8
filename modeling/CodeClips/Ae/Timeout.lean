import CodeClips.Ae.TimePass

/-!
# The timeout of the poll

Before it polls, `aeProcessEvents` looks for the nearest timer and computes the time that is missing,
in seconds and microseconds with a borrow. Each of the two is set to zero where it is below it, and not
the whole: a timer that is overdue may be waited for (`aeProcessEvents_timely_iff`).
-/

namespace CodeClips.Ae

/-- `flags`, an `int`. -/
abbrev Flags := BitVec 32

def AE_FILE_EVENTS : Flags := 1
def AE_TIME_EVENTS : Flags := 2
def AE_DONT_WAIT : Flags := 4

/-- Which of the timers `nearest` and `p` is nearer. -/
def aeSearchNearestTimer.choose (s : TimeEvents) (te : aeTimeEvent) (p : Int) : Option Int → Except Stop (Option Int)
  | none => .ok (some p)
  | some nearest => do
    let near ← s.heap.load (some nearest)
    return if te.when_sec < near.when_sec ∨ te.when_sec = near.when_sec ∧ te.when_ms < near.when_ms then some p
      else some nearest

def aeSearchNearestTimer.loop (s : TimeEvents) : Nat → Option Int → Option Int → Except Stop (Option Int)
  | 0, _, _ => .error .running
  | _ + 1, none, nearest => .ok nearest
  | fuel + 1, some p, nearest => do
    let te ← s.heap.load (some p)
    let nearest ← aeSearchNearestTimer.choose s te p nearest
    aeSearchNearestTimer.loop s fuel te.next nearest

def aeSearchNearestTimer (s : TimeEvents) : Except Stop (Option Int) :=
  aeSearchNearestTimer.loop s s.turns s.timeEventHead none

/-- Whether there is a poll, and its `tvp`: null, or a time. -/
inductive Timeout where
  | skipped
  | forever
  | after (tv : Epoll.timeval)

/-- The time missing for the timer to fire. -/
def aeProcessEvents.missing (shortest : aeTimeEvent) (now : Clock) : Epoll.timeval :=
  let (now_sec, now_ms) := aeGetTime now
  let tv_sec := shortest.when_sec - now_sec
  let (tv_sec, tv_usec) :=
    if shortest.when_ms < now_ms then (tv_sec - 1, ((shortest.when_ms + 1000) - now_ms) * 1000)
    else (tv_sec, (shortest.when_ms - now_ms) * 1000)
  { tv_sec := if tv_sec < 0 then 0 else tv_sec, tv_usec := if tv_usec < 0 then 0 else tv_usec }

/-- `tvp` for the timer that has been found, or where none has been looked for. -/
def aeProcessEvents.tvp (s : TimeEvents) (flags : Flags) (now : Clock) : Option Int → Except Stop Timeout
  | some shortest => do
    let te ← s.heap.load (some shortest)
    return .after (aeProcessEvents.missing te now)
  | none => .ok (if flags &&& AE_DONT_WAIT ≠ 0 then .after { tv_sec := 0, tv_usec := 0 } else .forever)

/-- `aeProcessEvents` as far as to the call of `aeApiPoll`. -/
def aeProcessEvents.timeout (s : TimeEvents) (maxfd : Int) (flags : Flags) (now : Clock) : Except Stop Timeout :=
  if flags &&& AE_TIME_EVENTS = 0 ∧ flags &&& AE_FILE_EVENTS = 0 then .ok .skipped
  else if maxfd ≠ -1 ∨ flags &&& AE_TIME_EVENTS ≠ 0 ∧ flags &&& AE_DONT_WAIT = 0 then
    if flags &&& AE_TIME_EVENTS ≠ 0 ∧ flags &&& AE_DONT_WAIT = 0 then do
      let shortest ← aeSearchNearestTimer s
      aeProcessEvents.tvp s flags now shortest
    else aeProcessEvents.tvp s flags now none
  else .ok .skipped

/-! ## What the timeout has to be -/

/-- The times at which the timers are due. -/
def TimeEvents.dues (s : TimeEvents) : List (Int × Int) :=
  s.timers.filterMap fun p => (s.heap.cell p).map aeTimeEvent.due

/-- From `now` to `due` in milliseconds. -/
def msecsLeft (now due : Int × Int) : Int := (due.1 - now.1) * 1000 + (due.2 - now.2)

/-- The timers that the call processes. -/
def served (s : TimeEvents) (flags : Flags) : List (Int × Int) := if flags &&& AE_TIME_EVENTS ≠ 0 then s.dues else []

/-- The poll does not wait beyond the time at which a timer is due, and not at all for one that is overdue. -/
def Timely (dues : List (Int × Int)) (now : Int × Int) : Timeout → Prop
  | .skipped => True
  | .forever => dues = []
  | .after tv => 0 ≤ tv.tv_sec ∧ 0 ≤ tv.tv_usec ∧ ∀ due ∈ dues, tv.usecs ≤ max 0 (msecsLeft now due) * 1000

/-- `due` is the first of the times, by the seconds and then by the milliseconds. -/
def First (dues : List (Int × Int)) (due : Int × Int) : Prop := due ∈ dues ∧ ∀ other ∈ dues, Reached other due

/-- The timer is overdue, and neither the seconds nor the milliseconds are above zero after the borrow. -/
def Overdue (now due : Int × Int) : Prop :=
  due.2 = now.2 ∧ due.1 ≤ now.1 ∨ due.2 + 1000 ≤ now.2 ∧ due.1 ≤ now.1 + 1

/-- The timer is not overdue, and the milliseconds are not below zero after the borrow. -/
def Ahead (now due : Int × Int) : Prop := Reached due now ∧ now.2 ≤ due.2 + 1000

/-- When the timers are served in time. -/
def InTime (dues : List (Int × Int)) (now : Int × Int) : Prop :=
  ∃ nearest, First dues nearest ∧
    (Overdue now nearest ∨ Ahead now nearest ∧ ∀ due ∈ dues, msecsLeft now nearest ≤ msecsLeft now due)

variable {s : TimeEvents} {l front back : List Int} {p : Int} {te : aeTimeEvent} {dues : List (Int × Int)} {due : Int × Int}

/-! ## The nearest timer -/

theorem Reached.refl (a : Int × Int) : Reached a a := .inr ⟨rfl, Int.le_refl _⟩

theorem Reached.trans {a b c : Int × Int} (first : Reached a b) (second : Reached b c) : Reached a c := by
  unfold Reached at *
  omega

theorem Reached.antisymm {a b : Int × Int} (first : Reached a b) (second : Reached b a) : a = b := by
  unfold Reached at first second
  exact Prod.ext (by omega) (by omega)

theorem First.unique {other : Int × Int} (first : First dues due) (second : First dues other) : due = other :=
  (second.2 due first.1).antisymm (first.2 other second.1)

theorem mem_dues (holds : Holds s l) : due ∈ s.dues ↔ ∃ p ∈ l, ∃ te, s.heap.cell p = some te ∧ te.due = due := by
  unfold TimeEvents.dues
  rw [holds.timers, List.mem_filterMap]
  simp only [Option.map_eq_some_iff]

/-- What the search has found among the timers that it has come past. -/
def Nearest (s : TimeEvents) (l : List Int) : Option Int → Prop
  | none => l = []
  | some nearest => ∃ near, s.heap.cell nearest = some near ∧ nearest ∈ l ∧
      ∀ p ∈ l, ∀ te, s.heap.cell p = some te → Reached te.due near.due

theorem choose_spec {nearest : Option Int} (found : Nearest s front nearest) (here : s.heap.cell p = some te) :
    ∃ nearest', aeSearchNearestTimer.choose s te p nearest = .ok nearest' ∧ Nearest s (front ++ [p]) nearest' := by
  have only (te' : aeTimeEvent) (here' : s.heap.cell p = some te') : te' = te := Option.some.inj (here'.symm.trans here)
  cases nearest with
  | none =>
    obtain rfl : front = [] := found
    refine ⟨some p, rfl, te, here, List.mem_cons_self, List.forall_mem_singleton.mpr fun te' here' => ?_⟩
    rw [only te' here']
    exact .refl _
  | some q =>
    obtain ⟨near, there, inside, least⟩ := found
    rw [aeSearchNearestTimer.choose, CellHeap.load_some there, ok_bind]
    refine ⟨_, rfl, ?_⟩
    split_ifs with nearer
    · have before : Reached near.due te.due := nearer.imp_right fun same => ⟨same.1.symm, Int.le_of_lt same.2⟩
      refine ⟨te, here, List.mem_concat_self, List.forall_mem_append.mpr ⟨fun a member te' here' => ?_, ?_⟩⟩
      · exact (least a member te' here').trans before
      · refine List.forall_mem_singleton.mpr fun te' here' => ?_
        rw [only te' here']
        exact .refl _
    · refine ⟨near, there, List.mem_append_left _ inside, List.forall_mem_append.mpr ⟨least, ?_⟩⟩
      refine List.forall_mem_singleton.mpr fun te' here' => ?_
      rw [only te' here']
      unfold Reached aeTimeEvent.due
      omega

variable (front) in
/-- The loop has come to `back`, behind the timers `front`. -/
theorem search_loop_spec {fuel : Nat} {nearest : Option Int} (enough : back.length < fuel) (holds : Holds s (front ++ back))
    (found : Nearest s front nearest) :
    ∃ nearest', aeSearchNearestTimer.loop s fuel back.head? nearest = .ok nearest' ∧ Nearest s (front ++ back) nearest' := by
  induction back generalizing front fuel nearest with
  | nil =>
    obtain ⟨fuel, rfl⟩ := Nat.exists_eq_add_one_of_ne_zero (Nat.ne_zero_of_lt enough)
    exact ⟨nearest, rfl, by rwa [List.append_nil]⟩
  | cons p back ih =>
    obtain ⟨fuel, rfl⟩ := Nat.exists_eq_add_one_of_ne_zero (Nat.ne_zero_of_lt enough)
    obtain ⟨te, here, -⟩ := holds.cells p (List.mem_append_right front List.mem_cons_self)
    obtain ⟨nearest', chosen, found'⟩ := choose_spec found here
    rw [List.head?_cons, aeSearchNearestTimer.loop, CellHeap.load_some here, ok_bind, chosen, ok_bind, holds.next_head here,
      List.append_cons]
    rw [List.append_cons] at holds
    exact ih (front ++ [p]) (Nat.lt_of_succ_lt_succ enough) holds found'

theorem aeSearchNearestTimer_spec (holds : Holds s l) : ∃ nearest, aeSearchNearestTimer s = .ok nearest ∧ Nearest s l nearest := by
  rw [aeSearchNearestTimer, holds.head]
  exact search_loop_spec [] holds.length_lt_turns holds rfl

theorem Nearest.first {nearest : Int} (holds : Holds s l) (found : Nearest s l (some nearest)) :
    ∃ near, s.heap.cell nearest = some near ∧ First s.dues near.due := by
  obtain ⟨near, here, inside, least⟩ := found
  refine ⟨near, here, (mem_dues holds).mpr ⟨nearest, inside, near, here, rfl⟩, fun other member => ?_⟩
  obtain ⟨p, inside', te, here', rfl⟩ := (mem_dues holds).mp member
  exact least p inside' te here'

/-! ## The time that is missing -/

/-- The two fields, with one second borrowed or none. -/
theorem missing_fields (te : aeTimeEvent) (now : Clock) :
    ∃ borrow, (te.when_ms < (aeGetTime now).2 ∧ borrow = 1 ∨ (aeGetTime now).2 ≤ te.when_ms ∧ borrow = 0) ∧
      (aeProcessEvents.missing te now).tv_sec = max 0 (te.when_sec - (aeGetTime now).1 - borrow) ∧
      (aeProcessEvents.missing te now).tv_usec = max 0 (te.when_ms - (aeGetTime now).2 + 1000 * borrow) * 1000 := by
  have clamp (n : Int) : (if n < 0 then 0 else n) = max 0 n := by
    split_ifs <;> omega
  unfold aeProcessEvents.missing
  simp only [clamp]
  by_cases earlier : te.when_ms < (aeGetTime now).2
  · refine ⟨1, .inl ⟨earlier, rfl⟩, ?_⟩
    rw [if_pos earlier]
    omega
  · refine ⟨0, .inr ⟨Int.not_lt.mp earlier, rfl⟩, ?_⟩
    rw [if_neg earlier]
    omega

theorem missing_nonneg (te : aeTimeEvent) (now : Clock) :
    0 ≤ (aeProcessEvents.missing te now).tv_sec ∧ 0 ≤ (aeProcessEvents.missing te now).tv_usec := by
  obtain ⟨borrow, -, sec, usec⟩ := missing_fields te now
  omega

theorem missing_zero_iff (te : aeTimeEvent) (now : Clock) :
    (aeProcessEvents.missing te now).usecs = 0 ↔ Overdue (aeGetTime now) te.due := by
  obtain ⟨borrow, cases, sec, usec⟩ := missing_fields te now
  unfold Epoll.timeval.usecs Overdue aeTimeEvent.due
  dsimp only
  omega

/-- Where neither field is below zero after the borrow, the time is exact; else it is too long. -/
theorem missing_ahead {now : Clock} (ahead : Ahead (aeGetTime now) te.due) :
    (aeProcessEvents.missing te now).usecs = msecsLeft (aeGetTime now) te.due * 1000 := by
  obtain ⟨borrow, cases, sec, usec⟩ := missing_fields te now
  unfold Ahead Reached aeTimeEvent.due at ahead
  unfold Epoll.timeval.usecs msecsLeft aeTimeEvent.due
  dsimp only at ahead ⊢
  omega

theorem missing_not_ahead {now : Clock} (ahead : ¬ Ahead (aeGetTime now) te.due) :
    msecsLeft (aeGetTime now) te.due * 1000 < (aeProcessEvents.missing te now).usecs := by
  obtain ⟨borrow, cases, sec, usec⟩ := missing_fields te now
  unfold Ahead Reached aeTimeEvent.due at ahead
  unfold Epoll.timeval.usecs msecsLeft aeTimeEvent.due
  dsimp only at ahead ⊢
  omega

/-- Exact for the nearest timer. -/
theorem missing_iff {now : Clock} (first : First dues te.due) :
    (∀ due ∈ dues, (aeProcessEvents.missing te now).usecs ≤ max 0 (msecsLeft (aeGetTime now) due) * 1000) ↔
      InTime dues (aeGetTime now) := by
  have nonneg : 0 ≤ (aeProcessEvents.missing te now).usecs := by
    have fields := missing_nonneg te now
    unfold Epoll.timeval.usecs
    omega
  constructor
  · intro short
    refine ⟨te.due, first, or_iff_not_imp_left.mpr fun overdue => ?_⟩
    have waits := mt (missing_zero_iff te now).mp overdue
    have ahead : Ahead (aeGetTime now) te.due := by
      by_contra notAhead
      have long := missing_not_ahead notAhead
      have own := short te.due first.1
      omega
    refine ⟨ahead, fun due member => ?_⟩
    have exact := missing_ahead ahead
    have other := short due member
    omega
  · rintro ⟨nearest, first', overdue | ⟨ahead, least⟩⟩ due member
    · rw [first'.unique first, ← missing_zero_iff] at overdue
      omega
    · rw [first'.unique first] at ahead least
      have exact := missing_ahead ahead
      have other := least due member
      omega

/-! ## The call -/

/-- The nearest timer is looked for. -/
def Asks (flags : Flags) : Prop := flags &&& AE_TIME_EVENTS ≠ 0 ∧ flags &&& AE_DONT_WAIT = 0

/-- Without a search there is no poll, or one that does not wait, or no timer that the call processes. -/
theorem timely_of_not_asks {flags : Flags} (asks : ¬ Asks flags) (maxfd : Int) (now : Clock) :
    ∃ t, aeProcessEvents.timeout s maxfd flags now = .ok t ∧ Timely (served s flags) (aeGetTime now) t := by
  have polled : ∃ t, aeProcessEvents.tvp s flags now none = .ok t ∧ Timely (served s flags) (aeGetTime now) t := by
    refine ⟨_, rfl, ?_⟩
    split_ifs with wait
    · refine ⟨Int.le_refl 0, Int.le_refl 0, fun due _ => ?_⟩
      show 0 * 1000000 + 0 ≤ _
      omega
    · have unserved : flags &&& AE_TIME_EVENTS = 0 := by
        by_contra time
        exact asks ⟨time, not_not.mp wait⟩
      exact if_neg (not_not_intro unserved)
  unfold aeProcessEvents.timeout
  split_ifs with nothing poll both
  · exact ⟨.skipped, rfl, trivial⟩
  · exact absurd both asks
  · exact polled
  · exact ⟨.skipped, rfl, trivial⟩

theorem timeout_of_asks {flags : Flags} (asks : Asks flags) (maxfd : Int) (now : Clock) {nearest : Option Int}
    (found : aeSearchNearestTimer s = .ok nearest) :
    aeProcessEvents.timeout s maxfd flags now = aeProcessEvents.tvp s flags now nearest := by
  obtain ⟨time, waits⟩ := asks
  have both := And.intro time waits
  rw [aeProcessEvents.timeout, if_neg fun nothing => time nothing.1, if_pos (.inr both), if_pos both, found, ok_bind]

/-- **The timeout** is in time just when the nearest timer is not overdue, or is overdue so that both
fields are zero. -/
theorem aeProcessEvents_timely_iff (reachable : Reachable s) (maxfd : Int) (flags : Flags) (now : Clock) :
    (∃ t, aeProcessEvents.timeout s maxfd flags now = .ok t ∧ Timely (served s flags) (aeGetTime now) t) ↔
      served s flags = [] ∨ flags &&& AE_DONT_WAIT ≠ 0 ∨ InTime s.dues (aeGetTime now) := by
  have holds := reachable.holds
  by_cases asks : Asks flags
  · obtain ⟨nearest, searched, found⟩ := aeSearchNearestTimer_spec holds
    have waits : ¬ flags &&& AE_DONT_WAIT ≠ 0 := not_not_intro asks.2
    have all : served s flags = s.dues := if_pos asks.1
    rw [timeout_of_asks asks maxfd now searched, all, or_iff_right waits]
    cases nearest with
    | none =>
      have none : s.dues = [] := by
        rw [TimeEvents.dues, show s.timers = [] from found]
        rfl
      refine iff_of_true ⟨_, rfl, ?_⟩ (.inl none)
      rw [if_neg waits]
      exact none
    | some nearest =>
      obtain ⟨near, here, first⟩ := Nearest.first holds found
      have some : s.dues ≠ [] := List.ne_nil_of_mem first.1
      rw [or_iff_right some, ← missing_iff first, aeProcessEvents.tvp, CellHeap.load_some here, ok_bind]
      constructor
      · rintro ⟨t, ran, timely⟩
        obtain rfl := Except.ok.inj ran
        exact timely.2.2
      · intro short
        exact ⟨_, rfl, (missing_nonneg near now).1, (missing_nonneg near now).2, short⟩
  · refine iff_of_true (timely_of_not_asks asks maxfd now) ?_
    rcases Classical.not_and_iff_not_or_not.mp asks with unserved | wait
    · exact .inl (if_neg unserved)
    · exact .inr (.inl wait)

/-- Half a second after the fifth second. -/
def fifth : Clock := ⟨{ tv_sec := 5, tv_usec := 500000 }, by decide⟩

/-- A fifth of a second after the tenth second. -/
def tenth : Clock := ⟨{ tv_sec := 10, tv_usec := 200000 }, by decide⟩

/-- A list of one timer, which is due at `fifth`. -/
def early : TimeEvents := (aeCreateTimeEvent (.init 5) 0 false fifth).1

theorem early_reachable : Reachable early :=
  .exec (.aeCreateTimeEvent 0 false fifth) (.init 5) (by rw [Action.exec]; rfl)

theorem aeProcessEvents_timely_early :
    (∃ t, aeProcessEvents.timeout early (-1) AE_TIME_EVENTS fifth = .ok t ∧
      Timely (served early AE_TIME_EVENTS) (aeGetTime fifth) t) :=
  (aeProcessEvents_timely_iff early_reachable (-1) AE_TIME_EVENTS fifth).mpr
    (.inr (.inr ⟨(5, 500), ⟨by decide, by decide⟩, .inl (.inl (by decide))⟩))

/-- The timer is overdue by 4.7 seconds, and the poll waits for 0.3 seconds. -/
theorem aeProcessEvents_waits :
    ¬ ∃ t, aeProcessEvents.timeout early (-1) AE_TIME_EVENTS tenth = .ok t ∧
      Timely (served early AE_TIME_EVENTS) (aeGetTime tenth) t := by
  rintro ⟨t, ran, timely⟩
  obtain rfl : Timeout.after { tv_sec := 0, tv_usec := 300000 } = t := Except.ok.inj ran
  exact absurd (timely.2.2 (5, 500) (by decide)) (by decide)

end CodeClips.Ae
