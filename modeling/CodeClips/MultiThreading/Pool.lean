import CodeClips.Lib.Transition
import Mathlib.Data.List.Basic

/-!
# The worker pool of `multithreading.py`

A `QueueFunctionManager` has a bounded queue and threads that take items from it. Its methods run
in small steps, so that the threads and the one that calls `__exit__` interleave in any order: an
operation on the queue is one step, and is `none` where it blocks.
-/

namespace CodeClips.MultiThreading

inductive Entry (A : Type) where
  | item (a : A)
  | StopWorkerThreadSignal

/-- Where a thread is in `run`: before `queue.get()`, with the item, in the call of `func`, out of
the loop, no more alive. -/
inductive Point (A : Type) where
  | get
  | got (a : A)
  | func (a : A)
  | out
  | dead

/-- An exception is known by the item for which `func` raised it. `handed` are the items `func` has
been called for, and `stops` counts the signals taken. -/
structure QueueFunctionThread (A : Type) where
  point : Point A
  exc_infos : List A
  handed : List A
  stops : Nat

/-- Where `__exit__` is: not called; at the thread `i` of the first list; with `left` signals to
put; at the thread `i` of `map(is_alive, ..)`; at the exception `j` of the thread `i`; returned. -/
inductive Exit where
  | before
  | listing (i alive : Nat)
  | stopping (left : Nat)
  | polling (i : Nat) (alive : Bool)
  | reporting (i j : Nat)
  | returned
  deriving DecidableEq

/-- `put` are the items that have been put into the queue. -/
structure QueueFunctionManager (A : Type) where
  queue : List (Entry A)
  thread_list : List (QueueFunctionThread A)
  error_counter : Option Nat
  exit : Exit
  put : List A

def maxsize : Nat := 10000

section Pool
variable {A : Type}

def QueueFunctionThread.new : QueueFunctionThread A := { point := .get, exc_infos := [], handed := [], stops := 0 }

/-- After `__enter__`. -/
def QueueFunctionManager.enter (thread_count : Nat) (error_counter : Option Nat) : QueueFunctionManager A :=
  { queue := []
    thread_list := List.replicate thread_count .new
    error_counter := error_counter
    exit := .before
    put := [] }

/-! ## The queue -/

def putEntry (queue : List (Entry A)) (entry : Entry A) : Option (List (Entry A)) :=
  if queue.length < maxsize then some (queue ++ [entry]) else none

def QueueFunctionManager.putItem (m : QueueFunctionManager A) (a : A) : Option (QueueFunctionManager A) :=
  (putEntry m.queue (.item a)).map fun queue => { m with queue := queue, put := m.put ++ [a] }

/-! ## The threads -/

def QueueFunctionThread.is_alive (thread : QueueFunctionThread A) : Bool :=
  match thread.point with
  | .dead => false
  | _ => true

/-- The steps of `run`. -/
inductive RunStep where
  | get
  | call
  | finish (raises : Bool)
  | die

/-- One step of a thread, with the queue before and after it. -/
def QueueFunctionThread.run (thread : QueueFunctionThread A) (queue : List (Entry A)) (step : RunStep) :
    Option (QueueFunctionThread A × List (Entry A)) :=
  match step, thread.point, queue with
  | .get, .get, .item a :: queue => some ({ thread with point := .got a }, queue)
  | .get, .get, .StopWorkerThreadSignal :: queue =>
    some ({ thread with point := .out, stops := thread.stops + 1 }, queue)
  | .call, .got a, queue => some ({ thread with point := .func a, handed := thread.handed ++ [a] }, queue)
  | .finish raises, .func a, queue =>
    some ({ thread with
      point := .get
      exc_infos := if raises then thread.exc_infos ++ [a] else thread.exc_infos }, queue)
  | .die, .out, queue => some ({ thread with point := .dead }, queue)
  | _, _, _ => none

/-- A step of the thread `i`. -/
def QueueFunctionManager.runThread (m : QueueFunctionManager A) (i : Nat) (step : RunStep) :
    Option (QueueFunctionManager A) := do
  let thread ← m.thread_list[i]?
  let r ← thread.run m.queue step
  some { m with thread_list := m.thread_list.set i r.1, queue := r.2 }

/-! ## `__exit__` -/

/-- One step of `__exit__`, and the exception that it reports. -/
def QueueFunctionManager.exitStep (m : QueueFunctionManager A) : Option (QueueFunctionManager A × Option A) :=
  match m.exit with
  | .before => some ({ m with exit := .listing 0 0 }, none)
  | .listing i alive =>
    match m.thread_list[i]? with
    | some thread => some ({ m with exit := .listing (i + 1) (if thread.is_alive then alive + 1 else alive) }, none)
    | none => some ({ m with exit := .stopping alive }, none)
  | .stopping 0 => some ({ m with exit := .polling 0 false }, none)
  | .stopping (left + 1) =>
    (putEntry m.queue .StopWorkerThreadSignal).map fun queue =>
      ({ m with queue := queue, exit := .stopping left }, none)
  | .polling i alive =>
    match m.thread_list[i]? with
    | some thread => some ({ m with exit := .polling (i + 1) (alive || thread.is_alive) }, none)
    | none => some ({ m with exit := if alive then .polling 0 false else .reporting 0 0 }, none)
  | .reporting i j =>
    match m.thread_list[i]? with
    | some thread =>
      match thread.exc_infos[j]? with
      | some info =>
        some ({ m with exit := .reporting i (j + 1), error_counter := m.error_counter.map (· + 1) }, some info)
      | none => some ({ m with exit := .reporting (i + 1) 0 }, none)
    | none => some ({ m with exit := .returned }, none)
  | .returned => none

/-! ## The pool in its context -/

/-- An item is put inside of the context, a thread takes a step, or `__exit__` does. -/
inductive Act (A : Type) where
  | put (a : A)
  | run (i : Nat) (step : RunStep)
  | exit

def QueueFunctionManager.step (m : QueueFunctionManager A) : Act A → Option (QueueFunctionManager A)
  | .put a => if m.exit = .before then m.putItem a else none
  | .run i step => m.runThread i step
  | .exit => m.exitStep.map Prod.fst

end Pool

end CodeClips.MultiThreading
