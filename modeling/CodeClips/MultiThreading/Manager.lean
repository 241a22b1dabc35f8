import CodeClips.MultiThreading.Invariant

/-!
# MultiThreadingManager

Two pools of one thread: the printer writes messages to `print_stream`, the error printer writes
errors to `error_stream` and counts them. `__exit__` closes the error printer first. The exceptions
of a pool go to `error`, with the texts that `format_exception` makes of them.
-/

namespace CodeClips.MultiThreading

/-- The text of an exception raised by the write of a message, and by that of an error. -/
structure FormatException (P E : Type) where
  print : P → E
  print_error : E → E

/-- `written` is what has been written to `error_stream`, and `errors` are the calls of `error`. -/
structure MultiThreadingManager (P E : Type) where
  printer : QueueFunctionManager P
  error_printer : QueueFunctionManager E
  error_count : Nat
  written : List E
  errors : List E

section Manager
variable {P E : Type}

def MultiThreadingManager.enter : MultiThreadingManager P E :=
  { printer := .enter 1 none, error_printer := .enter 1 none, error_count := 0, written := [], errors := [] }

def MultiThreadingManager.print_msg (m : MultiThreadingManager P E) (msg : P) : Option (MultiThreadingManager P E) :=
  (m.printer.putItem msg).map fun pool => { m with printer := pool }

def MultiThreadingManager.error (m : MultiThreadingManager P E) (msg : E) : Option (MultiThreadingManager P E) :=
  (m.error_printer.putItem msg).map fun pool => { m with error_printer := pool, errors := m.errors ++ [msg] }

/-- The item that a thread is in a call of `func` with. -/
def QueueFunctionThread.inFunc {A : Type} (thread : QueueFunctionThread A) : List A :=
  match thread.point with
  | .func a => [a]
  | _ => []

/-- A step of the error printer's thread. `_print_error` counts the error when it is called and has
written it when it returns; its write does not raise. -/
def MultiThreadingManager.runErrorPrinter (m : MultiThreadingManager P E) (i : Nat) (step : RunStep) :
    Option (MultiThreadingManager P E) := do
  let pool ← m.error_printer.runThread i step
  match step with
  | .call => some { m with error_printer := pool, error_count := m.error_count + 1 }
  | .finish true => none
  | .finish false =>
    let thread ← m.error_printer.thread_list[i]?
    some { m with error_printer := pool, written := m.written ++ thread.inFunc }
  | _ => some { m with error_printer := pool }

/-- The exception that a step of `__exit__` reports goes to `error`. -/
def MultiThreadingManager.report (m : MultiThreadingManager P E) (text : Option E) : Option (MultiThreadingManager P E) :=
  match text with
  | some text => m.error text
  | none => some m

/-- A step of `__exit__`: of the error printer's, then of the printer's. -/
def MultiThreadingManager.exitStep (format : FormatException P E) (m : MultiThreadingManager P E) :
    Option (MultiThreadingManager P E) :=
  if m.error_printer.exit = .returned then do
    let r ← m.printer.exitStep
    { m with printer := r.1 }.report (r.2.map format.print)
  else do
    let r ← m.error_printer.exitStep
    { m with error_printer := r.1 }.report (r.2.map format.print_error)

/-- In the context messages are printed and errors reported; the two threads and `__exit__` take
their steps. -/
inductive Event (P E : Type) where
  | print_msg (msg : P)
  | error (msg : E)
  | runPrinter (i : Nat) (step : RunStep)
  | runErrorPrinter (i : Nat) (step : RunStep)
  | exit

def MultiThreadingManager.step (format : FormatException P E) (m : MultiThreadingManager P E) :
    Event P E → Option (MultiThreadingManager P E)
  | .print_msg msg => if m.error_printer.exit = .before then m.print_msg msg else none
  | .error msg => if m.error_printer.exit = .before then m.error msg else none
  | .runPrinter i step => (m.printer.runThread i step).map fun pool => { m with printer := pool }
  | .runErrorPrinter i step => m.runErrorPrinter i step
  | .exit => m.exitStep format

end Manager

end CodeClips.MultiThreading
