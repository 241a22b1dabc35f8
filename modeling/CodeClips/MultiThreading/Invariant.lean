import CodeClips.MultiThreading.Pool

/-!
# What the pool keeps

Every item that has been put is in the queue, or a thread has taken it; and the threads that are
out of their loop, the signals in the queue and those still to be put are as many as the
threads. A thread takes a signal only when no item is before it, so that the queue is empty when
all of them are dead.
-/

namespace CodeClips.MultiThreading

section Invariant
variable {A : Type}

/-! ## The queue and the threads as lists of items -/

def Entry.items : Entry A → List A
  | .item a => [a]
  | .StopWorkerThreadSignal => []

def itemsOf (queue : List (Entry A)) : List A := queue.flatMap Entry.items

/-- The item in the hands of a thread that has not yet called `func`. -/
def QueueFunctionThread.holding (thread : QueueFunctionThread A) : List A :=
  match thread.point with
  | .got a => [a]
  | _ => []

def QueueFunctionThread.taken (thread : QueueFunctionThread A) : List A := thread.handed ++ thread.holding

/-- The thread has left its loop. -/
def QueueFunctionThread.ended (thread : QueueFunctionThread A) : Bool :=
  match thread.point with
  | .out => true
  | .dead => true
  | _ => false

def QueueFunctionManager.taken (m : QueueFunctionManager A) : List A :=
  m.thread_list.flatMap QueueFunctionThread.taken

def QueueFunctionManager.ended (m : QueueFunctionManager A) : Nat :=
  m.thread_list.countP QueueFunctionThread.ended

/-- What a step of a thread is, with the thread and the queue after it. -/
inductive Ran (thread : QueueFunctionThread A) (queue : List (Entry A)) :
    RunStep → QueueFunctionThread A → List (Entry A) → Prop where
  | item {a : A} {rest : List (Entry A)} (point : thread.point = .get) (head : queue = .item a :: rest) :
      Ran thread queue .get { thread with point := .got a } rest
  | signal {rest : List (Entry A)} (point : thread.point = .get) (head : queue = .StopWorkerThreadSignal :: rest) :
      Ran thread queue .get { thread with point := .out, stops := thread.stops + 1 } rest
  | call {a : A} (point : thread.point = .got a) :
      Ran thread queue .call { thread with point := .func a, handed := thread.handed ++ [a] } queue
  | finish {a : A} (raises : Bool) (point : thread.point = .func a) :
      Ran thread queue (.finish raises)
        { thread with
          point := .get
          exc_infos := if raises then thread.exc_infos ++ [a] else thread.exc_infos } queue
  | die (point : thread.point = .out) : Ran thread queue .die { thread with point := .dead } queue

theorem ran_of_run {thread thread' : QueueFunctionThread A} {queue queue' : List (Entry A)} {step : RunStep}
    (run : thread.run queue step = some (thread', queue')) : Ran thread queue step thread' queue' := by
  unfold QueueFunctionThread.run at run
  split at run
  · rename_i point
    obtain ⟨rfl, rfl⟩ := Prod.mk.inj (Option.some.inj run)
    exact .item point rfl
  · rename_i point
    obtain ⟨rfl, rfl⟩ := Prod.mk.inj (Option.some.inj run)
    exact .signal point rfl
  · rename_i point
    obtain ⟨rfl, rfl⟩ := Prod.mk.inj (Option.some.inj run)
    exact .call point
  · rename_i raises a point
    obtain ⟨rfl, rfl⟩ := Prod.mk.inj (Option.some.inj run)
    exact .finish raises point
  · rename_i point
    obtain ⟨rfl, rfl⟩ := Prod.mk.inj (Option.some.inj run)
    exact .die point
  · simp at run

/-- One thread among the others. -/
theorem split_at {T : Type} {l : List T} {i : Nat} {t : T} (here : l[i]? = some t) (t' : T) :
    l = l.take i ++ t :: l.drop (i + 1) ∧ l.set i t' = l.take i ++ t' :: l.drop (i + 1) := by
  obtain ⟨inside, rfl⟩ := List.getElem?_eq_some_iff.mp here
  constructor
  · rw [List.getElem_cons_drop inside, List.take_append_drop]
  · rw [List.set_eq_take_append_cons_drop, if_pos inside]

variable {m m' : QueueFunctionManager A}

theorem runThread_cases {i : Nat} {step : RunStep} (run : m.runThread i step = some m') :
    ∃ thread thread' queue', m.thread_list[i]? = some thread ∧ Ran thread m.queue step thread' queue' ∧
      m' = { m with thread_list := m.thread_list.set i thread', queue := queue' } := by
  rw [QueueFunctionManager.runThread] at run
  obtain ⟨thread, here, run⟩ := Option.bind_eq_some_iff.mp run
  obtain ⟨r, ran, run⟩ := Option.bind_eq_some_iff.mp run
  exact ⟨thread, r.1, r.2, here, ran_of_run ran, (Option.some.inj run).symm⟩

/-! ## Items -/

/-- No step of a thread loses or doubles an item. -/
theorem Ran.taken {thread thread' : QueueFunctionThread A} {queue queue' : List (Entry A)} {step : RunStep}
    (ran : Ran thread queue step thread' queue') :
    thread'.taken ++ itemsOf queue' = thread.taken ++ itemsOf queue := by
  cases ran with
  | item point head => simp [QueueFunctionThread.taken, QueueFunctionThread.holding, point, head, itemsOf, Entry.items]
  | signal point head => simp [QueueFunctionThread.taken, QueueFunctionThread.holding, point, head, itemsOf, Entry.items]
  | call point => simp [QueueFunctionThread.taken, QueueFunctionThread.holding, point]
  | finish raises point => simp [QueueFunctionThread.taken, QueueFunctionThread.holding, point]
  | die point => simp [QueueFunctionThread.taken, QueueFunctionThread.holding, point]

theorem runThread_taken {i : Nat} {step : RunStep} (run : m.runThread i step = some m') :
    (m'.taken ++ itemsOf m'.queue).Perm (m.taken ++ itemsOf m.queue) := by
  obtain ⟨thread, thread', queue', here, ran, rfl⟩ := runThread_cases run
  obtain ⟨before, after⟩ := split_at here thread'
  show ((m.thread_list.set i thread').flatMap _ ++ itemsOf queue').Perm (m.thread_list.flatMap _ ++ itemsOf m.queue)
  rw [after]
  conv => rhs; rw [before]
  simp only [List.flatMap_append, List.flatMap_cons, List.append_assoc]
  apply List.Perm.append_left
  -- the threads behind come last
  have kept : (thread'.taken ++ (itemsOf queue' ++ (m.thread_list.drop (i + 1)).flatMap QueueFunctionThread.taken)).Perm
      (thread.taken ++ (itemsOf m.queue ++ (m.thread_list.drop (i + 1)).flatMap QueueFunctionThread.taken)) := by
    rw [← List.append_assoc, ran.taken, List.append_assoc]
  have last : ∀ l q : List A, (l ++ ((m.thread_list.drop (i + 1)).flatMap QueueFunctionThread.taken ++ q)).Perm
      (l ++ (q ++ (m.thread_list.drop (i + 1)).flatMap QueueFunctionThread.taken)) :=
    fun l q => List.perm_append_comm.append_left l
  exact ((last _ _).trans kept).trans (last _ _).symm

/-! ## Signals -/

/-- Of `threads` threads `ended` are out of their loops, and `left` signals are still to be put: the
queue is items and then signals, only signals once a thread is out, and there is a signal for
each thread. -/
def Signals (queue : List (Entry A)) (ended left threads : Nat) : Prop :=
  ∃ items signals, queue = items.map Entry.item ++ List.replicate signals .StopWorkerThreadSignal ∧
    (0 < ended → items = []) ∧ ended + signals + left = threads

theorem Ran.signals {thread thread' : QueueFunctionThread A} {queue queue' : List (Entry A)} {step : RunStep}
    (ran : Ran thread queue step thread' queue') {ended ended' left threads : Nat}
    (before : Signals queue ended left threads)
    (counted : ended' + (if thread.ended then 1 else 0) = ended + if thread'.ended then 1 else 0) :
    Signals queue' ended' left threads := by
  obtain ⟨items, signals, shape, empty, count⟩ := before
  cases ran with
  | item point head =>
    obtain rfl : ended' = ended := by simpa [QueueFunctionThread.ended, point] using counted
    cases items with
    | nil =>
      -- the first in the queue is no signal
      cases signals with
      | zero => simp [head] at shape
      | succ signals => simp [head, List.replicate_succ] at shape
    | cons a items =>
      rw [head, List.map_cons, List.cons_append] at shape
      refine ⟨items, signals, (List.cons.inj shape).2, ?_, count⟩
      intro some
      exact absurd (empty some) (List.cons_ne_nil _ _)
  | signal point head =>
    obtain rfl : ended' = ended + 1 := by simpa [QueueFunctionThread.ended, point] using counted
    cases items with
    | nil =>
      cases signals with
      | zero => simp [head] at shape
      | succ signals =>
        rw [head, List.replicate_succ] at shape
        exact ⟨[], signals, (List.cons.inj shape).2, fun _ => rfl, by omega⟩
    | cons a items => simp [head] at shape
  | call point =>
    obtain rfl : ended' = ended := by simpa [QueueFunctionThread.ended, point] using counted
    exact ⟨items, signals, shape, empty, count⟩
  | finish raises point =>
    obtain rfl : ended' = ended := by simpa [QueueFunctionThread.ended, point] using counted
    exact ⟨items, signals, shape, empty, count⟩
  | die point =>
    obtain rfl : ended' = ended := by simpa [QueueFunctionThread.ended, point] using counted
    exact ⟨items, signals, shape, empty, count⟩

theorem ended_run {i : Nat} {thread : QueueFunctionThread A} (here : m.thread_list[i]? = some thread)
    (thread' : QueueFunctionThread A) :
    (m.thread_list.set i thread').countP QueueFunctionThread.ended + (if thread.ended then 1 else 0) =
      m.ended + if thread'.ended then 1 else 0 := by
  obtain ⟨before, after⟩ := split_at here thread'
  rw [after, QueueFunctionManager.ended]
  conv => rhs; rw [before]
  simp only [List.countP_append, List.countP_cons]
  omega

theorem runThread_signals {i : Nat} {step : RunStep} (run : m.runThread i step = some m') {left : Nat}
    (signals : Signals m.queue m.ended left m.thread_list.length) :
    Signals m'.queue m'.ended left m'.thread_list.length := by
  obtain ⟨thread, thread', queue', here, ran, rfl⟩ := runThread_cases run
  have length : (m.thread_list.set i thread').length = m.thread_list.length := List.length_set
  show Signals queue' _ left (m.thread_list.set i thread').length
  rw [length]
  exact ran.signals signals (ended_run here thread')

/-- No item is put where signals are in the queue. -/
theorem signals_put {queue queue' : List (Entry A)} {a : A} (put : putEntry queue (.item a) = some queue')
    {ended threads : Nat} (before : Signals queue ended threads threads) : Signals queue' ended threads threads := by
  obtain ⟨items, signals, shape, -, count⟩ := before
  obtain rfl : signals = 0 := by omega
  obtain rfl : ended = 0 := by omega
  rw [putEntry] at put
  split at put
  · obtain rfl := Option.some.inj put
    refine ⟨items ++ [a], 0, ?_, fun some => absurd some (Nat.lt_irrefl 0), by omega⟩
    simp [shape]
  · simp at put

theorem signals_stop {queue queue' : List (Entry A)} (put : putEntry queue .StopWorkerThreadSignal = some queue')
    {ended left threads : Nat} (before : Signals queue ended (left + 1) threads) :
    Signals queue' ended left threads := by
  obtain ⟨items, signals, shape, empty, count⟩ := before
  rw [putEntry] at put
  split at put
  · obtain rfl := Option.some.inj put
    refine ⟨items, signals + 1, ?_, empty, by omega⟩
    rw [shape, List.replicate_succ', List.append_assoc]
  · simp at put

/-- **Drained**: when all threads are out of their loops, nothing is in the queue. -/
theorem signals_drained {queue : List (Entry A)} {threads : Nat} (pos : 0 < threads)
    (all : Signals queue threads 0 threads) : queue = [] := by
  obtain ⟨items, signals, shape, empty, count⟩ := all
  obtain rfl : signals = 0 := by omega
  rw [shape, empty pos]
  rfl

/-! ## The invariant -/

/-- What holds at each point of `__exit__`. -/
def QueueFunctionManager.Phase (m : QueueFunctionManager A) : Prop :=
  match m.exit with
  | .before => Signals m.queue m.ended m.thread_list.length m.thread_list.length
  | .listing i alive =>
    Signals m.queue m.ended m.thread_list.length m.thread_list.length ∧ alive = i ∧ i ≤ m.thread_list.length
  | .stopping left => Signals m.queue m.ended left m.thread_list.length
  | .polling i alive =>
    Signals m.queue m.ended 0 m.thread_list.length ∧
      (alive = false → ∀ thread ∈ m.thread_list.take i, thread.point = .dead)
  | .reporting _ _ => ∀ thread ∈ m.thread_list, thread.point = .dead
  | .returned => ∀ thread ∈ m.thread_list, thread.point = .dead

structure Inv (m : QueueFunctionManager A) : Prop where
  items : (m.taken ++ itemsOf m.queue).Perm m.put
  stops : ∀ thread ∈ m.thread_list, thread.stops = if thread.ended then 1 else 0
  phase : m.Phase

theorem inv_enter (thread_count : Nat) (error_counter : Option Nat) :
    Inv (QueueFunctionManager.enter thread_count error_counter : QueueFunctionManager A) := by
  refine ⟨?_, ?_, ?_⟩
  · simp [QueueFunctionManager.enter, QueueFunctionManager.taken, QueueFunctionThread.new, itemsOf,
      QueueFunctionThread.taken, QueueFunctionThread.holding]
  · intro thread listed
    obtain rfl := List.eq_of_mem_replicate listed
    rfl
  · refine ⟨[], 0, rfl, fun _ => rfl, ?_⟩
    simp [QueueFunctionManager.enter, QueueFunctionManager.ended, QueueFunctionThread.new, QueueFunctionThread.ended]

/-- A dead thread takes no step. -/
theorem Ran.not_dead {thread thread' : QueueFunctionThread A} {queue queue' : List (Entry A)} {step : RunStep}
    (ran : Ran thread queue step thread' queue') : thread.point ≠ .dead := by
  cases ran with
  | item point head => simp [point]
  | signal point head => simp [point]
  | call point => simp [point]
  | finish raises point => simp [point]
  | die point => simp [point]

theorem Ran.stops {thread thread' : QueueFunctionThread A} {queue queue' : List (Entry A)} {step : RunStep}
    (ran : Ran thread queue step thread' queue') (before : thread.stops = if thread.ended then 1 else 0) :
    thread'.stops = if thread'.ended then 1 else 0 := by
  cases ran with
  | item point head => simpa [QueueFunctionThread.ended, point] using before
  | signal point head => simpa [QueueFunctionThread.ended, point] using before
  | call point => simpa [QueueFunctionThread.ended, point] using before
  | finish raises point => simpa [QueueFunctionThread.ended, point] using before
  | die point => simpa [QueueFunctionThread.ended, point] using before

theorem runThread_exit {i : Nat} {step : RunStep} (run : m.runThread i step = some m') :
    m'.exit = m.exit ∧ m'.put = m.put := by
  obtain ⟨thread, thread', queue', -, -, rfl⟩ := runThread_cases run
  exact ⟨rfl, rfl⟩

/-- Where the threads `l` are dead, no step is one of theirs. -/
theorem dead_of_run {i k : Nat} {step : RunStep} (run : m.runThread i step = some m')
    (dead : ∀ thread ∈ m.thread_list.take k, thread.point = .dead) :
    ∀ thread ∈ m'.thread_list.take k, thread.point = .dead := by
  obtain ⟨thread, thread', queue', here, ran, rfl⟩ := runThread_cases run
  obtain ⟨inside, rfl⟩ := List.getElem?_eq_some_iff.mp here
  have later : k ≤ i := by
    by_contra before
    have listed : m.thread_list[i] ∈ m.thread_list.take k :=
      List.mem_take_iff_getElem.mpr ⟨i, by omega, rfl⟩
    exact ran.not_dead (dead _ listed)
  show ∀ thread ∈ (m.thread_list.set i thread').take k, thread.point = .dead
  rw [List.take_set_of_le later]
  exact dead

/-- **A step of a thread** keeps the invariant. -/
theorem runThread_inv {i : Nat} {step : RunStep} (run : m.runThread i step = some m') (inv : Inv m) : Inv m' := by
  obtain ⟨exit, put⟩ := runThread_exit run
  refine ⟨?_, ?_, ?_⟩
  · rw [put]
    exact (runThread_taken run).trans inv.items
  · obtain ⟨thread, thread', queue', here, ran, rfl⟩ := runThread_cases run
    intro other listed
    rcases List.mem_or_eq_of_mem_set listed with listed | rfl
    · exact inv.stops other listed
    · exact ran.stops (inv.stops thread (List.mem_of_getElem? here))
  · have phase := inv.phase
    have length : m'.thread_list.length = m.thread_list.length := by
      obtain ⟨thread, thread', queue', here, ran, rfl⟩ := runThread_cases run
      exact List.length_set
    have all : (∀ thread ∈ m.thread_list, thread.point = .dead) → ∀ thread ∈ m'.thread_list, thread.point = .dead := by
      intro dead
      have taken := dead_of_run run (k := m.thread_list.length) (by rwa [List.take_length])
      rwa [← length, List.take_length] at taken
    have signals : ∀ left, Signals m.queue m.ended left m.thread_list.length →
        Signals m'.queue m'.ended left m.thread_list.length := by
      intro left before
      rw [← length]
      exact runThread_signals run before
    unfold QueueFunctionManager.Phase at phase ⊢
    rw [exit, length]
    cases point : m.exit with
    | before =>
      rw [point] at phase
      exact signals _ phase
    | listing i alive =>
      rw [point] at phase
      exact ⟨signals _ phase.1, phase.2⟩
    | stopping left =>
      rw [point] at phase
      exact signals _ phase
    | polling i alive =>
      rw [point] at phase
      exact ⟨signals _ phase.1, fun none => dead_of_run run (phase.2 none)⟩
    | reporting i j =>
      rw [point] at phase
      exact all phase
    | returned =>
      rw [point] at phase
      exact all phase

/-! ## The steps of `__exit__` -/

/-- The pool is closed: `__exit__` has seen all threads dead. -/
def Exit.closed : Exit → Bool
  | .reporting _ _ => true
  | .returned => true
  | _ => false

/-- The threads of a closed pool are dead. -/
theorem Inv.dead (inv : Inv m) (closed : m.exit.closed = true) : ∀ thread ∈ m.thread_list, thread.point = .dead := by
  have phase := inv.phase
  unfold QueueFunctionManager.Phase at phase
  cases point : m.exit with
  | reporting i j =>
    rw [point] at phase
    exact phase
  | returned =>
    rw [point] at phase
    exact phase
  | before => simp [point, Exit.closed] at closed
  | listing i alive => simp [point, Exit.closed] at closed
  | stopping left => simp [point, Exit.closed] at closed
  | polling i alive => simp [point, Exit.closed] at closed

/-- An item that is put before `__exit__`, or when the pool is closed. -/
theorem putItem_inv {a : A} (put : m.putItem a = some m') (inv : Inv m)
    (apart : m.exit = .before ∨ m.exit.closed = true) : Inv m' := by
  obtain ⟨queue, entry, rfl⟩ := Option.map_eq_some_iff.mp put
  have behind : queue = m.queue ++ [.item a] := by
    rw [putEntry] at entry
    split at entry
    · exact (Option.some.inj entry).symm
    · simp at entry
  refine ⟨?_, inv.stops, ?_⟩
  · show (m.taken ++ itemsOf queue).Perm (m.put ++ [a])
    have items : itemsOf queue = itemsOf m.queue ++ [a] := by simp [behind, itemsOf, Entry.items]
    rw [items, ← List.append_assoc]
    exact inv.items.append_right [a]
  · unfold QueueFunctionManager.Phase
    rcases apart with before | closed
    · have phase := inv.phase
      unfold QueueFunctionManager.Phase at phase
      rw [before] at phase ⊢
      exact signals_put entry phase
    · have dead := inv.dead closed
      cases point : m.exit with
      | reporting i j => exact dead
      | returned => exact dead
      | before => simp [point, Exit.closed] at closed
      | listing i alive => simp [point, Exit.closed] at closed
      | stopping left => simp [point, Exit.closed] at closed
      | polling i alive => simp [point, Exit.closed] at closed

theorem alive_of_not_ended {thread : QueueFunctionThread A} (inside : thread.ended = false) :
    thread.is_alive = true := by
  unfold QueueFunctionThread.ended at inside
  unfold QueueFunctionThread.is_alive
  cases point : thread.point with
  | get => rfl
  | got a => rfl
  | func a => rfl
  | out => rfl
  | dead => simp [point] at inside

theorem dead_of_not_alive {thread : QueueFunctionThread A} (gone : thread.is_alive = false) : thread.point = .dead := by
  unfold QueueFunctionThread.is_alive at gone
  cases point : thread.point with
  | dead => rfl
  | get => simp [point] at gone
  | got a => simp [point] at gone
  | func a => simp [point] at gone
  | out => simp [point] at gone

/-- A pool whose threads are all dead has nothing in its queue. -/
theorem drained_of_dead (signals : Signals m.queue m.ended 0 m.thread_list.length)
    (dead : ∀ thread ∈ m.thread_list, thread.point = .dead) (threads : 0 < m.thread_list.length) : m.queue = [] := by
  have all : m.ended = m.thread_list.length := by
    rw [QueueFunctionManager.ended, List.countP_eq_length]
    intro thread listed
    simp [QueueFunctionThread.ended, dead thread listed]
  rw [all] at signals
  exact signals_drained threads signals

/-- What a step of `__exit__` is: the exception that it reports, where it goes on, and the queue. -/
inductive Exited (m : QueueFunctionManager A) : Option A → Exit → List (Entry A) → Prop where
  | start (point : m.exit = .before) : Exited m none (.listing 0 0) m.queue
  | listed {i alive : Nat} {thread : QueueFunctionThread A} (point : m.exit = .listing i alive)
      (here : m.thread_list[i]? = some thread) :
      Exited m none (.listing (i + 1) (if thread.is_alive then alive + 1 else alive)) m.queue
  | allListed {i alive : Nat} (point : m.exit = .listing i alive) (here : m.thread_list[i]? = none) :
      Exited m none (.stopping alive) m.queue
  | stop {left : Nat} {queue : List (Entry A)} (point : m.exit = .stopping (left + 1))
      (put : putEntry m.queue .StopWorkerThreadSignal = some queue) : Exited m none (.stopping left) queue
  | allStopped (point : m.exit = .stopping 0) : Exited m none (.polling 0 false) m.queue
  | polled {i : Nat} {alive : Bool} {thread : QueueFunctionThread A} (point : m.exit = .polling i alive)
      (here : m.thread_list[i]? = some thread) : Exited m none (.polling (i + 1) (alive || thread.is_alive)) m.queue
  | again {i : Nat} (point : m.exit = .polling i true) (here : m.thread_list[i]? = none) :
      Exited m none (.polling 0 false) m.queue
  | allDead {i : Nat} (point : m.exit = .polling i false) (here : m.thread_list[i]? = none) :
      Exited m none (.reporting 0 0) m.queue
  | reported {i j : Nat} {thread : QueueFunctionThread A} {info : A} (point : m.exit = .reporting i j)
      (here : m.thread_list[i]? = some thread) (exception : thread.exc_infos[j]? = some info) :
      Exited m (some info) (.reporting i (j + 1)) m.queue
  | allOfThread {i j : Nat} {thread : QueueFunctionThread A} (point : m.exit = .reporting i j)
      (here : m.thread_list[i]? = some thread) (exception : thread.exc_infos[j]? = none) :
      Exited m none (.reporting (i + 1) 0) m.queue
  | allReported {i j : Nat} (point : m.exit = .reporting i j) (here : m.thread_list[i]? = none) :
      Exited m none .returned m.queue

theorem exitStep_cases {info : Option A} (step : m.exitStep = some (m', info)) :
    ∃ exit queue error_counter, Exited m info exit queue ∧
      m' = { m with queue := queue, error_counter := error_counter, exit := exit } := by
  unfold QueueFunctionManager.exitStep at step
  cases point : m.exit with
  | before =>
    simp only [point] at step
    obtain ⟨rfl, rfl⟩ := Prod.mk.inj (Option.some.inj step)
    exact ⟨_, _, _, .start point, rfl⟩
  | listing i alive =>
    cases here : m.thread_list[i]? with
    | some thread =>
      simp only [point, here] at step
      obtain ⟨rfl, rfl⟩ := Prod.mk.inj (Option.some.inj step)
      exact ⟨_, _, _, .listed point here, rfl⟩
    | none =>
      simp only [point, here] at step
      obtain ⟨rfl, rfl⟩ := Prod.mk.inj (Option.some.inj step)
      exact ⟨_, _, _, .allListed point here, rfl⟩
  | stopping left =>
    cases left with
    | zero =>
      simp only [point] at step
      obtain ⟨rfl, rfl⟩ := Prod.mk.inj (Option.some.inj step)
      exact ⟨_, _, _, .allStopped point, rfl⟩
    | succ left =>
      simp only [point] at step
      obtain ⟨queue, put, same⟩ := Option.map_eq_some_iff.mp step
      obtain ⟨rfl, rfl⟩ := Prod.mk.inj same
      exact ⟨_, _, _, .stop point put, rfl⟩
  | polling i alive =>
    cases here : m.thread_list[i]? with
    | some thread =>
      simp only [point, here] at step
      obtain ⟨rfl, rfl⟩ := Prod.mk.inj (Option.some.inj step)
      exact ⟨_, _, _, .polled point here, rfl⟩
    | none =>
      simp only [point, here] at step
      obtain ⟨rfl, rfl⟩ := Prod.mk.inj (Option.some.inj step)
      cases alive with
      | true => exact ⟨_, _, _, .again point here, rfl⟩
      | false => exact ⟨_, _, _, .allDead point here, rfl⟩
  | reporting i j =>
    cases here : m.thread_list[i]? with
    | some thread =>
      cases exception : thread.exc_infos[j]? with
      | some info =>
        simp only [point, here, exception] at step
        obtain ⟨rfl, rfl⟩ := Prod.mk.inj (Option.some.inj step)
        exact ⟨_, _, _, .reported point here exception, rfl⟩
      | none =>
        simp only [point, here, exception] at step
        obtain ⟨rfl, rfl⟩ := Prod.mk.inj (Option.some.inj step)
        exact ⟨_, _, _, .allOfThread point here exception, rfl⟩
    | none =>
      simp only [point, here] at step
      obtain ⟨rfl, rfl⟩ := Prod.mk.inj (Option.some.inj step)
      exact ⟨_, _, _, .allReported point here, rfl⟩
  | returned => simp [point] at step

variable {info : Option A} {exit : Exit} {queue : List (Entry A)}

/-- A signal is no item. -/
theorem Exited.items (exited : Exited m info exit queue) : itemsOf queue = itemsOf m.queue := by
  cases exited with
  | stop point put =>
    rw [putEntry] at put
    split at put
    · simp [← Option.some.inj put, itemsOf, Entry.items]
    · simp at put
  | _ => rfl

/-- While the first list is made, the threads are all in their loops. -/
theorem alive_of_signals (signals : Signals m.queue m.ended m.thread_list.length m.thread_list.length)
    {thread : QueueFunctionThread A} (listed : thread ∈ m.thread_list) : thread.is_alive = true := by
  obtain ⟨items, stops, -, -, count⟩ := signals
  have none : m.ended = 0 := by omega
  rw [QueueFunctionManager.ended, List.countP_eq_zero] at none
  exact alive_of_not_ended (Bool.eq_false_iff.mpr (none thread listed))

theorem Exited.phase (exited : Exited m info exit queue) (phase : m.Phase) (error_counter : Option Nat) :
    QueueFunctionManager.Phase { m with queue := queue, error_counter := error_counter, exit := exit } := by
  unfold QueueFunctionManager.Phase at phase
  cases exited with
  | start point =>
    rw [point] at phase
    exact ⟨phase, rfl, Nat.zero_le _⟩
  | @listed i alive thread point here =>
    rw [point] at phase
    obtain ⟨signals, rfl, -⟩ := phase
    refine ⟨signals, ?_, (List.getElem?_eq_some_iff.mp here).1⟩
    rw [if_pos (alive_of_signals signals (List.mem_of_getElem? here))]
  | @allListed i alive point here =>
    rw [point] at phase
    obtain ⟨signals, rfl, most⟩ := phase
    show Signals m.queue m.ended alive m.thread_list.length
    rw [Nat.le_antisymm most (List.getElem?_eq_none_iff.mp here)]
    exact signals
  | stop point put =>
    rw [point] at phase
    exact signals_stop put phase
  | allStopped point =>
    rw [point] at phase
    refine ⟨phase, ?_⟩
    simp
  | @polled i alive thread point here =>
    rw [point] at phase
    refine ⟨phase.1, ?_⟩
    intro none
    obtain ⟨before, gone⟩ := Bool.or_eq_false_iff.mp none
    show ∀ other ∈ m.thread_list.take (i + 1), other.point = .dead
    rw [List.take_add_one, here]
    intro other listed
    rcases List.mem_append.mp listed with listed | listed
    · exact phase.2 before other listed
    · obtain rfl : other = thread := by simpa using listed
      exact dead_of_not_alive gone
  | again point here =>
    rw [point] at phase
    refine ⟨phase.1, ?_⟩
    simp
  | allDead point here =>
    rw [point] at phase
    have dead := phase.2 rfl
    rwa [List.take_of_length_le (List.getElem?_eq_none_iff.mp here)] at dead
  | reported point here exception =>
    rw [point] at phase
    exact phase
  | allOfThread point here exception =>
    rw [point] at phase
    exact phase
  | allReported point here =>
    rw [point] at phase
    exact phase

/-- The pool is closed only when nothing is in the queue. -/
theorem Exited.closes (exited : Exited m info exit queue) (phase : m.Phase) (threads : 0 < m.thread_list.length)
    (closed : exit.closed = true) : queue = [] ∨ m.exit.closed = true ∧ queue = m.queue := by
  cases exited with
  | allDead point here =>
    unfold QueueFunctionManager.Phase at phase
    rw [point] at phase
    obtain ⟨signals, dead⟩ := phase
    rw [List.take_of_length_le (List.getElem?_eq_none_iff.mp here)] at dead
    exact .inl (drained_of_dead signals (dead rfl) threads)
  | reported point here exception => exact .inr ⟨by simp [point, Exit.closed], rfl⟩
  | allOfThread point here exception => exact .inr ⟨by simp [point, Exit.closed], rfl⟩
  | allReported point here => exact .inr ⟨by simp [point, Exit.closed], rfl⟩
  | _ => simp [Exit.closed] at closed

/-- **A step of `__exit__`** keeps the invariant, and closes the pool only when nothing is in the
queue. -/
theorem exitStep_inv (step : m.exitStep = some (m', info)) (inv : Inv m) (threads : 0 < m.thread_list.length) :
    Inv m' ∧ m'.put = m.put ∧ m'.thread_list = m.thread_list ∧
      (m'.exit.closed = true → m'.queue = [] ∨ m.exit.closed = true ∧ m'.queue = m.queue) := by
  obtain ⟨exit, queue, error_counter, exited, rfl⟩ := exitStep_cases step
  refine ⟨⟨?_, inv.stops, exited.phase inv.phase error_counter⟩, rfl, rfl, exited.closes inv.phase threads⟩
  show (m.taken ++ itemsOf queue).Perm m.put
  rw [exited.items]
  exact inv.items

end Invariant

end CodeClips.MultiThreading
