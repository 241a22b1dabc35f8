import Mathlib.Logic.Function.Basic
import Mathlib.Tactic.Common

/-!
# A heap of cells

The allocated cells by their addresses. A pointer may be null, and an access through it stops
the program where it is null or its cell is not allocated; `free` of null does nothing.
-/

namespace CodeClips

/-- Why a program has not returned: the fuel is spent, or it has done what is undefined. -/
inductive Stop
  | running
  | null
  | freed
  | outside
  deriving DecidableEq, Repr

@[simp] theorem ok_bind {α β : Type} (x : α) (f : α → Except Stop β) : ((Except.ok x : Except Stop α) >>= f) = f x := rfl

@[simp] theorem error_bind {α β : Type} (e : Stop) (f : α → Except Stop β) :
    ((Except.error e : Except Stop α) >>= f) = .error e := rfl

/-- Cells at addresses; there is none where nothing is allocated. -/
structure CellHeap (A C : Type*) where
  cell : A → Option C

namespace CellHeap
variable {A C : Type*}

/-- The cell at a pointer is read. -/
def load (h : CellHeap A C) : Option A → Except Stop C
  | none => .error .null
  | some a =>
    match h.cell a with
    | some c => .ok c
    | none => .error .freed

/-- The link in the cell at `a`, where there is one. -/
def next (link : C → Option A) (h : CellHeap A C) (a : A) : Option A := (h.cell a).bind link

/-- An allocated cell can be read. -/
theorem load_some {h : CellHeap A C} {a : A} {c : C} (here : h.cell a = some c) : h.load (some a) = .ok c := by
  rw [load, here]

/-- The link that is read from a cell. -/
theorem next_of_cell (link : C → Option A) {h : CellHeap A C} {a : A} {c : C} (here : h.cell a = some c) :
    h.next link a = link c := by
  rw [next, here]
  rfl

/-- Two heaps with one cell at `a` have one link there. -/
theorem next_congr (link : C → Option A) {h h' : CellHeap A C} {a : A} (same : h'.cell a = h.cell a) :
    h'.next link a = h.next link a := by
  rw [next, next, same]

section Changes
variable [DecidableEq A]

/-- The cell at `a` is `c`, or not allocated. -/
def put (h : CellHeap A C) (a : A) (c : Option C) : CellHeap A C := { cell := Function.update h.cell a c }

/-- The cell at a pointer is read and written. -/
def modify (h : CellHeap A C) (p : Option A) (f : C → C) : Except Stop (CellHeap A C) :=
  match p with
  | none => .error .null
  | some a =>
    match h.cell a with
    | some c => .ok (h.put a (some (f c)))
    | none => .error .freed

/-- `free`: of null nothing happens, and a cell is freed once only. -/
def free (h : CellHeap A C) : Option A → Except Stop (CellHeap A C)
  | none => .ok h
  | some a => if (h.cell a).isSome then .ok (h.put a none) else .error .freed

variable {h : CellHeap A C} {a b : A}

@[simp] theorem cell_put_self (h : CellHeap A C) (a : A) (c : Option C) : (h.put a c).cell a = c :=
  Function.update_self ..

/-- The other cells stay. -/
theorem cell_put_of_ne (h : CellHeap A C) (apart : b ≠ a) (c : Option C) : (h.put a c).cell b = h.cell b :=
  Function.update_of_ne apart ..

/-- An allocated cell can be written. -/
theorem modify_some {c : C} (here : h.cell a = some c) (f : C → C) :
    h.modify (some a) f = .ok (h.put a (some (f c))) := by
  simp only [modify, here]

/-- And freed. -/
theorem free_some {c : C} (here : h.cell a = some c) : h.free (some a) = .ok (h.put a none) := by
  rw [free, here]
  rfl

theorem next_put_self (link : C → Option A) (h : CellHeap A C) (a : A) (c : C) :
    (h.put a (some c)).next link a = link c :=
  next_of_cell link (cell_put_self h a (some c))

theorem next_put_of_ne (link : C → Option A) (h : CellHeap A C) (apart : b ≠ a) (c : Option C) :
    (h.put a c).next link b = h.next link b :=
  next_congr link (cell_put_of_ne h apart c)

/-- Where a cell is written, its link may be another one, and only its. -/
theorem next_put (link : C → Option A) (h : CellHeap A C) (a : A) (c : C) :
    (h.put a (some c)).next link = Function.update (h.next link) a (link c) := by
  funext b
  by_cases same : b = a
  · subst same
    rw [next_put_self, Function.update_self]
  · rw [next_put_of_ne link h same, Function.update_of_ne same]

end Changes

end CellHeap

end CodeClips
