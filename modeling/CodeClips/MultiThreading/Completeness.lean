import CodeClips.MultiThreading.Invariant

/-!
# Nothing put into the pool is lost

For any number of threads and any interleaving, `__exit__` returns only when the threads have been
given all items and are dead.
-/

namespace CodeClips.MultiThreading

section Completeness
variable {A : Type} {m m' : QueueFunctionManager A}

/-- The item that an action puts. -/
def Act.item : Act A → Option A
  | .put a => some a
  | _ => none

/-- The invariant of a pool that is only fed inside of its context. -/
structure Fed (thread_count : Nat) (m : QueueFunctionManager A) : Prop where
  inv : Inv m
  threads : m.thread_list.length = thread_count
  drained : m.exit.closed = true → m.queue = []

theorem step_fed {thread_count : Nat} (threads : 0 < thread_count) {a : Act A} (step : m.step a = some m')
    (fed : Fed thread_count m) : Fed thread_count m' ∧ m'.put = m.put ++ a.item.toList := by
  cases a with
  | put a =>
    rw [QueueFunctionManager.step] at step
    split at step
    · rename_i before
      have inv := putItem_inv step fed.inv (.inl before)
      obtain ⟨queue, -, rfl⟩ := Option.map_eq_some_iff.mp step
      exact ⟨⟨inv, fed.threads, by simp [before, Exit.closed]⟩, rfl⟩
    · simp at step
  | run i run =>
    have step : m.runThread i run = some m' := step
    obtain ⟨exit, -⟩ := runThread_exit step
    have inv := runThread_inv step fed.inv
    obtain ⟨thread, thread', queue', here, ran, rfl⟩ := runThread_cases step
    refine ⟨⟨inv, List.length_set.trans fed.threads, ?_⟩, by simp [Act.item]⟩
    intro closed
    -- the threads of a closed pool take no step
    rw [exit] at closed
    exact absurd (fed.inv.dead closed thread (List.mem_of_getElem? here)) ran.not_dead
  | exit =>
    obtain ⟨r, stepped, rfl⟩ := Option.map_eq_some_iff.mp step
    obtain ⟨inv, put, list, closing⟩ := exitStep_inv stepped fed.inv (fed.threads ▸ threads)
    refine ⟨⟨inv, ?_, ?_⟩, by simp [put, Act.item]⟩
    · rw [list]
      exact fed.threads
    · intro closed
      rcases closing closed with empty | ⟨before, same⟩
      · exact empty
      · rw [same]
        exact fed.drained before

theorem path_fed {thread_count : Nat} (threads : 0 < thread_count) {as : List (Act A)}
    (path : Path (fun m a m' => m.step a = some m') m as m') (fed : Fed thread_count m) :
    Fed thread_count m' ∧ m'.put = m.put ++ as.filterMap Act.item := by
  induction path with
  | nil m => exact ⟨fed, (List.append_nil _).symm⟩
  | @cons m m' m'' a as next _ ih =>
    obtain ⟨after, put⟩ := step_fed threads next fed
    obtain ⟨last, puts⟩ := ih after
    refine ⟨last, ?_⟩
    rw [puts, put, List.append_assoc]
    cases a with
    | put a => rfl
    | run i step => rfl
    | exit => rfl

/-- **Completeness**: when `__exit__` has returned, `func` has been called once, by one thread, for each
item that was put; each thread has taken one signal, and nothing is in the queue. -/
theorem pool_complete {thread_count : Nat} (threads : 0 < thread_count) (error_counter : Option Nat)
    {as : List (Act A)} {m : QueueFunctionManager A}
    (path : Path (fun m a m' => m.step a = some m') (QueueFunctionManager.enter thread_count error_counter) as m)
    (returned : m.exit = .returned) :
    (m.thread_list.flatMap QueueFunctionThread.handed).Perm (as.filterMap Act.item) ∧
      m.thread_list.length = thread_count ∧ (∀ thread ∈ m.thread_list, thread.stops = 1) ∧ m.queue = [] := by
  have start : Fed thread_count (QueueFunctionManager.enter thread_count error_counter : QueueFunctionManager A) :=
    ⟨inv_enter thread_count error_counter, List.length_replicate, by simp [QueueFunctionManager.enter, Exit.closed]⟩
  obtain ⟨fed, put⟩ := path_fed threads path start
  have closed : m.exit.closed = true := by
    rw [returned]
    rfl
  have empty := fed.drained closed
  have dead := fed.inv.dead closed
  refine ⟨?_, fed.threads, ?_, empty⟩
  · have items := fed.inv.items
    have taken : m.taken = m.thread_list.flatMap QueueFunctionThread.handed := by
      apply List.flatMap_congr
      intro thread listed
      rw [QueueFunctionThread.taken, QueueFunctionThread.holding, dead thread listed]
      exact List.append_nil _
    rw [empty, taken, put] at items
    simpa [itemsOf, QueueFunctionManager.enter] using items
  · intro thread listed
    rw [fed.inv.stops thread listed]
    simp [QueueFunctionThread.ended, dead thread listed]

/-- Two threads and two items; `func` raises for one of them. -/
def twoThreads : List (Act Nat) :=
  [.put 7, .put 8, .run 0 .get, .run 1 .get, .run 1 .call, .run 0 .call, .exit, .run 0 (.finish true), .exit, .exit,
    .exit, .run 1 (.finish false), .exit, .exit, .run 0 .get, .run 1 .get, .exit, .run 1 .die, .exit, .exit, .exit,
    .run 0 .die, .exit, .exit, .exit, .exit, .exit, .exit, .exit]

theorem pool_complete_two :
    ∃ m, twoThreads.foldlM QueueFunctionManager.step (QueueFunctionManager.enter 2 none) = some m ∧
      (m.thread_list.flatMap QueueFunctionThread.handed).Perm (twoThreads.filterMap Act.item) ∧
      m.thread_list.length = 2 ∧ (∀ thread ∈ m.thread_list, thread.stops = 1) ∧ m.queue = [] :=
  ⟨_, rfl, pool_complete (by decide) none (path_of_foldlM rfl) rfl⟩

end Completeness

end CodeClips.MultiThreading
