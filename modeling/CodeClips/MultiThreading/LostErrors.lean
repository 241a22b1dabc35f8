import CodeClips.MultiThreading.Manager

/-!
# Errors that are lost

`__exit__` closes the error printer before the printer. The exceptions of the printer's thread are
reported after that, to a queue from which no thread takes them: `Books` counts them there.
-/

namespace CodeClips.MultiThreading

section Reports
variable {A : Type} {m m' : QueueFunctionManager A} {thread : QueueFunctionThread A}

/-- How many of the exceptions of its one thread the pool has reported. -/
def Exit.reported (exceptions : Nat) : Exit → Nat
  | .reporting 0 j => j
  | .reporting (_ + 1) _ => exceptions
  | .returned => exceptions
  | _ => 0

/-- The loop over the exceptions stays in their list. -/
def Exit.InList (exceptions : Nat) : Exit → Prop
  | .reporting 0 j => j ≤ exceptions
  | _ => True

theorem exitStep_reported {info : Option A} (step : m.exitStep = some (m', info)) (one : m.thread_list = [thread])
    (inList : m.exit.InList thread.exc_infos.length) :
    m'.exit.reported thread.exc_infos.length =
        m.exit.reported thread.exc_infos.length + info.toList.length ∧
      m'.exit.InList thread.exc_infos.length := by
  obtain ⟨exit, queue, error_counter, exited, rfl⟩ := exitStep_cases step
  cases exited with
  | @reported i j other info point here exception =>
    rw [point] at inList ⊢
    rw [one] at here
    cases i with
    | zero =>
      obtain rfl : thread = other := Option.some.inj here
      exact ⟨rfl, (List.getElem?_eq_some_iff.mp exception).1⟩
    | succ i => simp at here
  | @allOfThread i j other point here exception =>
    rw [point] at inList ⊢
    rw [one] at here
    cases i with
    | zero =>
      obtain rfl : thread = other := Option.some.inj here
      have last : thread.exc_infos.length = j := Nat.le_antisymm (List.getElem?_eq_none_iff.mp exception) inList
      exact ⟨last, trivial⟩
    | succ i => simp at here
  | @allReported i j point here =>
    rw [one] at here
    cases i with
    | zero => simp at here
    | succ i => simp [point, Exit.reported, Exit.InList]
  | start point => simp [point, Exit.reported, Exit.InList]
  | listed point here => simp [point, Exit.reported, Exit.InList]
  | allListed point here => simp [point, Exit.reported, Exit.InList]
  | stop point put => simp [point, Exit.reported, Exit.InList]
  | allStopped point => simp [point, Exit.reported, Exit.InList]
  | polled point here => simp [point, Exit.reported, Exit.InList]
  | again point here => simp [point, Exit.reported, Exit.InList]
  | allDead point here => simp [point, Exit.reported, Exit.InList]

/-- An exception that is reported is one of a thread's. -/
theorem exitStep_info {e : A} (step : m.exitStep = some (m', some e)) :
    ∃ thread ∈ m.thread_list, e ∈ thread.exc_infos := by
  obtain ⟨exit, queue, error_counter, exited, rfl⟩ := exitStep_cases step
  cases exited with
  | reported point here exception => exact ⟨_, List.mem_of_getElem? here, List.mem_of_getElem? exception⟩

/-- The step of the only thread. -/
theorem runThread_one {i : Nat} {step : RunStep} (run : m.runThread i step = some m') (one : m.thread_list = [thread]) :
    ∃ thread' queue', i = 0 ∧ Ran thread m.queue step thread' queue' ∧
      m' = { m with thread_list := [thread'], queue := queue' } := by
  obtain ⟨other, thread', queue', here, ran, rfl⟩ := runThread_cases run
  rw [one] at here ⊢
  cases i with
  | zero =>
    obtain rfl := Option.some.inj here
    exact ⟨thread', queue', rfl, ran, rfl⟩
  | succ i => simp at here

theorem reported_of_open {exit : Exit} (open' : exit.closed = false) (exceptions : Nat) :
    exit.reported exceptions = 0 ∧ exit.InList exceptions := by
  cases exit with
  | before => exact ⟨rfl, trivial⟩
  | listing i alive => exact ⟨rfl, trivial⟩
  | stopping left => exact ⟨rfl, trivial⟩
  | polling i alive => exact ⟨rfl, trivial⟩
  | reporting i j => simp [Exit.closed] at open'
  | returned => simp [Exit.closed] at open'

end Reports

section Books
variable {P E : Type} {format : FormatException P E}

/-- **The books**: every call of `error` is an item of the error printer's pool; its thread has
counted the errors it was called for, and written those it has returned from. What is left in the
queue once that pool is closed are the exceptions that the printer has reported. -/
structure Books (m : MultiThreadingManager P E) : Prop where
  errorPool : Inv m.error_printer
  printPool : Inv m.printer
  errors : m.error_printer.put = m.errors
  errorThread : ∃ thread, m.error_printer.thread_list = [thread] ∧ thread.exc_infos = [] ∧
    m.error_count = thread.handed.length ∧ m.written ++ thread.inFunc = thread.handed
  printThread : ∃ thread, m.printer.thread_list = [thread] ∧ m.printer.exit.InList thread.exc_infos.length ∧
    (m.error_printer.exit.closed = true →
      (itemsOf m.error_printer.queue).length = m.printer.exit.reported thread.exc_infos.length)
  order : m.error_printer.exit = .returned ∨ m.printer.exit = .before

theorem books_enter : Books (MultiThreadingManager.enter : MultiThreadingManager P E) := by
  refine ⟨inv_enter 1 none, inv_enter 1 none, rfl, ⟨.new, rfl, rfl, rfl, rfl⟩, ⟨.new, rfl, trivial, ?_⟩, .inr rfl⟩
  simp [MultiThreadingManager.enter, QueueFunctionManager.enter, Exit.closed]

variable {m m' : MultiThreadingManager P E}

/-- A call of `error` where the error printer's pool may be given items. -/
theorem error_books {msg : E} (call : m.error msg = some m')
    (apart : m.error_printer.exit = .before ∨ m.error_printer.exit.closed = true) (inv : Inv m.error_printer) :
    Inv m'.error_printer ∧ (m.error_printer.put = m.errors → m'.error_printer.put = m'.errors) ∧
      (itemsOf m'.error_printer.queue).length = (itemsOf m.error_printer.queue).length + 1 ∧
      m'.error_printer.thread_list = m.error_printer.thread_list ∧ m'.error_printer.exit = m.error_printer.exit ∧
      m'.printer = m.printer ∧ m'.error_count = m.error_count ∧ m'.written = m.written := by
  obtain ⟨pool, put, rfl⟩ := Option.map_eq_some_iff.mp call
  have inv' := putItem_inv put inv apart
  obtain ⟨queue, entry, rfl⟩ := Option.map_eq_some_iff.mp put
  refine ⟨inv', fun same => by rw [← same], ?_, rfl, rfl, rfl, rfl, rfl⟩
  rw [putEntry] at entry
  split at entry
  · simp [← Option.some.inj entry, itemsOf, Entry.items]
  · simp at entry

theorem print_msg_books {msg : P} (call : m.print_msg msg = some m') (before : m.error_printer.exit = .before)
    (books : Books m) : Books m' := by
  obtain ⟨pool, put, rfl⟩ := Option.map_eq_some_iff.mp call
  have printing : m.printer.exit = .before := books.order.resolve_left (by simp [before])
  have inv := putItem_inv put books.printPool (.inl printing)
  obtain ⟨queue, -, rfl⟩ := Option.map_eq_some_iff.mp put
  exact ⟨books.errorPool, inv, books.errors, books.errorThread, books.printThread, books.order⟩

theorem client_error_books {msg : E} (call : m.error msg = some m') (before : m.error_printer.exit = .before)
    (books : Books m) : Books m' := by
  obtain ⟨inv, errors, -, list, exit, printer, count, written⟩ := error_books call (.inl before) books.errorPool
  obtain ⟨thread, one, inList, -⟩ := books.printThread
  refine ⟨inv, ?_, errors books.errors, ?_, ⟨thread, ?_, ?_, ?_⟩, ?_⟩
  · rw [printer]
    exact books.printPool
  · rw [list, count, written]
    exact books.errorThread
  · rw [printer]
    exact one
  · rw [printer]
    exact inList
  · simp [exit, before, Exit.closed]
  · rw [exit, printer]
    exact books.order

theorem runPrinter_books {i : Nat} {step : RunStep} {pool : QueueFunctionManager P}
    (run : m.printer.runThread i step = some pool) (books : Books m) : Books { m with printer := pool } := by
  have inv := runThread_inv run books.printPool
  obtain ⟨thread, one, inList, late⟩ := books.printThread
  obtain ⟨thread', queue', -, ran, rfl⟩ := runThread_one run one
  -- the thread of a closed pool is dead
  have still : m.printer.exit.closed = false := by
    rw [Bool.eq_false_iff]
    intro closed
    exact ran.not_dead (books.printPool.dead closed thread (by simp [one]))
  refine ⟨books.errorPool, inv, books.errors, books.errorThread, ⟨thread', rfl, ?_, ?_⟩, books.order⟩
  · exact (reported_of_open still _).2
  · intro closed
    show _ = m.printer.exit.reported _
    rw [late closed, (reported_of_open still _).1, (reported_of_open still _).1]

theorem runErrorPrinter_books {i : Nat} {step : RunStep} (run : m.runErrorPrinter i step = some m') (books : Books m) :
    Books m' := by
  obtain ⟨pool, stepped, rest⟩ := Option.bind_eq_some_iff.mp run
  have inv := runThread_inv stepped books.errorPool
  obtain ⟨thread, one, quiet, count, written⟩ := books.errorThread
  obtain ⟨thread', queue', rfl, ran, rfl⟩ := runThread_one stepped one
  have still : m.error_printer.exit.closed = false := by
    rw [Bool.eq_false_iff]
    intro closed
    exact ran.not_dead (books.errorPool.dead closed thread (by simp [one]))
  obtain ⟨printing, single, inList, -⟩ := books.printThread
  have late : ∀ {l : Nat}, m.error_printer.exit.closed = true → l = m.printer.exit.reported printing.exc_infos.length := by
    intro l closed
    simp [still] at closed
  cases ran with
  | item point head =>
    obtain rfl := Option.some.inj rest
    refine ⟨inv, books.printPool, books.errors, ⟨_, rfl, quiet, count, ?_⟩, ⟨printing, single, inList, late⟩, books.order⟩
    simpa [QueueFunctionThread.inFunc, point] using written
  | signal point head =>
    obtain rfl := Option.some.inj rest
    refine ⟨inv, books.printPool, books.errors, ⟨_, rfl, quiet, count, ?_⟩, ⟨printing, single, inList, late⟩, books.order⟩
    simpa [QueueFunctionThread.inFunc, point] using written
  | @call a point =>
    obtain rfl := Option.some.inj rest
    refine ⟨inv, books.printPool, books.errors, ⟨_, rfl, quiet, ?_, ?_⟩, ⟨printing, single, inList, late⟩, books.order⟩
    · show m.error_count + 1 = (thread.handed ++ [a]).length
      rw [count, List.length_append]
      rfl
    · have before : m.written = thread.handed := by simpa [QueueFunctionThread.inFunc, point] using written
      simp [QueueFunctionThread.inFunc, before]
  | @finish a raises point =>
    cases raises with
    | true => simp at rest
    | false =>
      simp only [one, List.getElem?_cons_zero, Option.bind_eq_bind, Option.bind_some] at rest
      obtain rfl := Option.some.inj rest
      refine ⟨inv, books.printPool, books.errors, ⟨_, rfl, ?_, count, ?_⟩, ⟨printing, single, inList, late⟩, books.order⟩
      · simpa using quiet
      · simpa [QueueFunctionThread.inFunc, point] using written
  | die point =>
    obtain rfl := Option.some.inj rest
    refine ⟨inv, books.printPool, books.errors, ⟨_, rfl, quiet, count, ?_⟩, ⟨printing, single, inList, late⟩, books.order⟩
    simpa [QueueFunctionThread.inFunc, point] using written

/-- A step of the printer's `__exit__`: an exception that it reports stays in the queue. -/
theorem exit_printer_books {r : QueueFunctionManager P × Option P} (step : m.printer.exitStep = some r)
    (first : m.error_printer.exit = .returned)
    (reported : MultiThreadingManager.report { m with printer := r.1 } (r.2.map format.print) = some m')
    (books : Books m) : Books m' := by
  obtain ⟨thread, one, inList, late⟩ := books.printThread
  obtain ⟨inv, -, list, -⟩ := exitStep_inv step books.printPool (by simp [one])
  obtain ⟨count, inList'⟩ := exitStep_reported step one inList
  have closed : m.error_printer.exit.closed = true := by
    rw [first]
    rfl
  have late := late closed
  cases info : r.2 with
  | none =>
    rw [info] at reported count
    obtain rfl := Option.some.inj reported
    refine ⟨books.errorPool, inv, books.errors, books.errorThread, ⟨thread, list.trans one, inList', ?_⟩, .inl first⟩
    intro _
    show _ = r.1.exit.reported _
    rw [late, count]
    rfl
  | some e =>
    rw [info] at reported count
    obtain ⟨inv', errors, length, list', exit, printer, counted, written⟩ :=
      error_books reported (.inr closed) books.errorPool
    refine ⟨inv', ?_, errors books.errors, ?_, ⟨thread, ?_, ?_, ?_⟩, .inl (exit.trans first)⟩
    · rw [printer]
      exact inv
    · rw [list', counted, written]
      exact books.errorThread
    · rw [printer]
      exact list.trans one
    · rw [printer]
      exact inList'
    · intro _
      rw [length, printer, late]
      exact count.symm

/-- A step of the error printer's `__exit__`, which has no exception to report. -/
theorem exit_error_printer_books {r : QueueFunctionManager E × Option E} (step : m.error_printer.exitStep = some r)
    (first : m.error_printer.exit ≠ .returned)
    (reported : MultiThreadingManager.report { m with error_printer := r.1 } (r.2.map format.print_error) = some m')
    (books : Books m) : Books m' := by
  obtain ⟨thread, one, quiet, count, written⟩ := books.errorThread
  obtain ⟨inv, put, list, closing⟩ := exitStep_inv step books.errorPool (by simp [one])
  have printing : m.printer.exit = .before := books.order.resolve_left first
  have silent : r.2 = none := by
    cases info : r.2 with
    | none => rfl
    | some e =>
      obtain ⟨other, listed, raised⟩ := exitStep_info (step.trans (congrArg some (Prod.ext rfl info)))
      rw [one, List.mem_singleton] at listed
      simp [listed, quiet] at raised
  rw [silent] at reported
  obtain rfl := Option.some.inj reported
  obtain ⟨printThread, single, inList, late⟩ := books.printThread
  refine ⟨inv, books.printPool, put.trans books.errors, ⟨thread, list.trans one, quiet, count, written⟩,
    ⟨printThread, single, inList, ?_⟩, .inr printing⟩
  intro closed
  rcases closing closed with empty | ⟨before, same⟩
  · show (itemsOf r.1.queue).length = m.printer.exit.reported _
    rw [empty, printing]
    rfl
  · show (itemsOf r.1.queue).length = m.printer.exit.reported _
    rw [same]
    exact late before

/-- **Every step keeps the books.** -/
theorem step_books {event : Event P E} (step : m.step format event = some m') (books : Books m) : Books m' := by
  cases event with
  | print_msg msg =>
    rw [MultiThreadingManager.step] at step
    split at step
    · rename_i before
      exact print_msg_books step before books
    · simp at step
  | error msg =>
    rw [MultiThreadingManager.step] at step
    split at step
    · rename_i before
      exact client_error_books step before books
    · simp at step
  | runPrinter i run =>
    obtain ⟨pool, stepped, rfl⟩ := Option.map_eq_some_iff.mp step
    exact runPrinter_books stepped books
  | runErrorPrinter i run => exact runErrorPrinter_books step books
  | exit =>
    rw [MultiThreadingManager.step, MultiThreadingManager.exitStep] at step
    split at step
    · rename_i first
      obtain ⟨r, stepped, reported⟩ := Option.bind_eq_some_iff.mp step
      exact exit_printer_books stepped first reported books
    · rename_i first
      obtain ⟨r, stepped, reported⟩ := Option.bind_eq_some_iff.mp step
      exact exit_error_printer_books stepped first reported books

/-! ## Exceptions of the printer -/

/-- The exceptions that the printer has had. -/
def MultiThreadingManager.raised (m : MultiThreadingManager P E) : Nat :=
  (m.printer.thread_list.flatMap QueueFunctionThread.exc_infos).length

/-- The write of a message raises. -/
def Event.raises : Event P E → Bool
  | .runPrinter _ (.finish raises) => raises
  | _ => false

theorem runErrorPrinter_printer {i : Nat} {step : RunStep} (run : m.runErrorPrinter i step = some m') :
    m'.printer = m.printer := by
  obtain ⟨pool, -, rest⟩ := Option.bind_eq_some_iff.mp run
  cases step with
  | get =>
    obtain rfl := Option.some.inj rest
    rfl
  | call =>
    obtain rfl := Option.some.inj rest
    rfl
  | finish raises =>
    cases raises with
    | true => simp at rest
    | false =>
      obtain ⟨thread, -, rest⟩ := Option.bind_eq_some_iff.mp rest
      obtain rfl := Option.some.inj rest
      rfl
  | die =>
    obtain rfl := Option.some.inj rest
    rfl

theorem report_printer {text : Option E} (call : m.report text = some m') : m'.printer = m.printer := by
  cases text with
  | none =>
    obtain rfl := Option.some.inj call
    rfl
  | some text =>
    obtain ⟨pool, -, rfl⟩ := Option.map_eq_some_iff.mp call
    rfl

theorem step_raised {event : Event P E} (step : m.step format event = some m') (books : Books m) :
    m'.raised = m.raised + if event.raises then 1 else 0 := by
  obtain ⟨thread, one, -⟩ := books.printThread
  cases event with
  | print_msg msg =>
    rw [MultiThreadingManager.step] at step
    split at step
    · obtain ⟨pool, put, rfl⟩ := Option.map_eq_some_iff.mp step
      obtain ⟨queue, -, rfl⟩ := Option.map_eq_some_iff.mp put
      rfl
    · simp at step
  | error msg =>
    rw [MultiThreadingManager.step] at step
    split at step
    · obtain ⟨pool, -, rfl⟩ := Option.map_eq_some_iff.mp step
      rfl
    · simp at step
  | runPrinter i run =>
    obtain ⟨pool, stepped, rfl⟩ := Option.map_eq_some_iff.mp step
    obtain ⟨thread', queue', -, ran, rfl⟩ := runThread_one stepped one
    cases ran with
    | item point head => simp [MultiThreadingManager.raised, one, Event.raises]
    | signal point head => simp [MultiThreadingManager.raised, one, Event.raises]
    | call point => simp [MultiThreadingManager.raised, one, Event.raises]
    | finish raises point =>
      cases raises with
      | true => simp [MultiThreadingManager.raised, one, Event.raises]
      | false => simp [MultiThreadingManager.raised, one, Event.raises]
    | die point => simp [MultiThreadingManager.raised, one, Event.raises]
  | runErrorPrinter i run =>
    have printer := runErrorPrinter_printer step
    simp [MultiThreadingManager.raised, printer, Event.raises]
  | exit =>
    rw [MultiThreadingManager.step, MultiThreadingManager.exitStep] at step
    split at step
    · obtain ⟨r, stepped, reported⟩ := Option.bind_eq_some_iff.mp step
      have printer := report_printer reported
      obtain ⟨-, -, list, -⟩ := exitStep_inv stepped books.printPool (by simp [one])
      simp [MultiThreadingManager.raised, printer, list, Event.raises]
    · obtain ⟨r, stepped, reported⟩ := Option.bind_eq_some_iff.mp step
      have printer := report_printer reported
      simp [MultiThreadingManager.raised, printer, Event.raises]

theorem path_books {events : List (Event P E)} (path : Path (fun m event m' => m.step format event = some m') m events m')
    (books : Books m) : Books m' ∧ m'.raised = m.raised + events.countP Event.raises := by
  induction path with
  | nil m => exact ⟨books, rfl⟩
  | cons next _ ih =>
    have raised := step_raised next books
    obtain ⟨last, count⟩ := ih (step_books next books)
    refine ⟨last, ?_⟩
    rw [count, raised, List.countP_cons]
    omega

/-- No write raises. -/
theorem countP_raises_eq_zero_iff {events : List (Event P E)} :
    events.countP Event.raises = 0 ↔ ∀ i, Event.runPrinter i (.finish true) ∉ events := by
  rw [List.countP_eq_zero]
  constructor
  · intro none i happened
    exact none _ happened rfl
  · intro none event happened raises
    cases event with
    | runPrinter i step =>
      cases step with
      | finish raised =>
        obtain rfl : raised = true := raises
        exact none i happened
      | get => simp [Event.raises] at raises
      | call => simp [Event.raises] at raises
      | die => simp [Event.raises] at raises
    | print_msg msg => simp [Event.raises] at raises
    | error msg => simp [Event.raises] at raises
    | runErrorPrinter i step => simp [Event.raises] at raises
    | exit => simp [Event.raises] at raises

/-- When `__exit__` has returned, the calls of `error` are the errors written and those left in the
queue, one for each exception of the printer. -/
theorem Books.left (books : Books m) (returned : m.printer.exit = .returned) :
    (m.written ++ itemsOf m.error_printer.queue).Perm m.errors ∧ m.error_count = m.written.length ∧
      (itemsOf m.error_printer.queue).length = m.raised := by
  have first : m.error_printer.exit = .returned := books.order.resolve_right (by simp [returned])
  have closed : m.error_printer.exit.closed = true := by
    rw [first]
    rfl
  obtain ⟨thread, one, -, count, written⟩ := books.errorThread
  obtain ⟨printing, single, -, late⟩ := books.printThread
  have dead := books.errorPool.dead closed thread (by simp [one])
  -- what the dead thread has been called for is written
  have handed : m.written = thread.handed := by simpa [QueueFunctionThread.inFunc, dead] using written
  refine ⟨?_, ?_, ?_⟩
  · have taken := books.errorPool.items
    rw [books.errors, QueueFunctionManager.taken, one] at taken
    simpa [QueueFunctionThread.taken, QueueFunctionThread.holding, dead, handed] using taken
  · rw [count, handed]
  · rw [late closed, returned]
    simp [MultiThreadingManager.raised, single, Exit.reported]

/-- **Lost errors**: when `__exit__` has returned, every call of `error` has been written and counted if and
only if no write of a printed message has raised. -/
theorem errors_written_iff (format : FormatException P E) {events : List (Event P E)} {m : MultiThreadingManager P E}
    (path : Path (fun m event m' => m.step format event = some m') MultiThreadingManager.enter events m)
    (returned : m.printer.exit = .returned) :
    (m.written.Perm m.errors ∧ m.error_count = m.errors.length) ↔
      ∀ i, Event.runPrinter i (.finish true) ∉ events := by
  obtain ⟨books, raised⟩ := path_books path books_enter
  obtain ⟨items, count, left⟩ := books.left returned
  have start : (MultiThreadingManager.enter : MultiThreadingManager P E).raised = 0 := rfl
  rw [start, Nat.zero_add] at raised
  rw [raised] at left
  rw [← countP_raises_eq_zero_iff]
  constructor
  · rintro ⟨all, -⟩
    have lengths := items.length_eq
    rw [List.length_append, left] at lengths
    have same := all.length_eq
    omega
  · intro none
    have empty : itemsOf m.error_printer.queue = [] := List.eq_nil_of_length_eq_zero (left.trans none)
    rw [empty, List.append_nil] at items
    exact ⟨items, count.trans items.length_eq⟩

/-! ## One message and one error -/

def traceback : FormatException Nat String :=
  { print := fun _ => "Traceback", print_error := fun _ => "Traceback" }

/-- The error is written; the write of the message comes when the error printer is closed. -/
def oneMessage (raises : Bool) : List (Event Nat String) :=
  let events : List (Event Nat String) :=
    [.print_msg 1, .error "error", .runPrinter 0 .get, .runErrorPrinter 0 .get, .runErrorPrinter 0 .call,
      .runPrinter 0 .call, .exit, .exit, .runErrorPrinter 0 (.finish false), .exit, .exit, .exit,
      .runErrorPrinter 0 .get, .runErrorPrinter 0 .die, .exit, .exit, .exit, .exit, .runPrinter 0 (.finish raises),
      .exit, .exit, .exit, .exit, .exit, .runPrinter 0 .get, .runPrinter 0 .die, .exit, .exit, .exit, .exit]
  events ++ if raises then [.exit] else []

theorem errors_written_iff_one :
    ∃ m, (oneMessage false).foldlM (MultiThreadingManager.step traceback) MultiThreadingManager.enter = some m ∧
      ((m.written.Perm m.errors ∧ m.error_count = m.errors.length) ↔
        ∀ i, Event.runPrinter i (.finish true) ∉ oneMessage false) :=
  ⟨_, rfl, errors_written_iff traceback (path_of_foldlM rfl) rfl⟩

/-- If it raises, its exception is reported and never written. -/
theorem printer_exception_lost :
    ∃ m, (oneMessage true).foldlM (MultiThreadingManager.step traceback) MultiThreadingManager.enter = some m ∧
      m.error_printer.exit = .returned ∧ m.printer.exit = .returned ∧
      m.errors = ["error", "Traceback"] ∧ m.written = ["error"] ∧ m.error_count = 1 ∧
      ¬ (m.written.Perm m.errors ∧ m.error_count = m.errors.length) := by
  refine ⟨_, rfl, rfl, rfl, rfl, rfl, rfl, ?_⟩
  rintro ⟨-, count⟩
  exact absurd count (by decide)

end Books

end CodeClips.MultiThreading
