import CodeClips.Lib.CellHeap
import CodeClips.Lib.Ring

/-!
# The doubly linked list of lwan

`list.h` and `list.c`. A list is a head that lies on a circle with its nodes; a node lies in the
structure that is in the list, and is named here by its address as the structure is. With
`_LIST_DEBUG` every operation checks the circle it works on and aborts where it is corrupt, and a
node taken out loses its links.
-/

namespace CodeClips.LwanList

/-- `struct list_node`: the links, which may be null. -/
structure ListNode (A : Type) where
  next : Option A
  prev : Option A

/-- The nodes that are allocated, by their addresses. -/
abbrev Memory (A : Type) := CellHeap A (ListNode A)

/-- Why an operation has not returned: an access that is undefined, an abort with its message, or
an assertion. -/
inductive Halt (A : Type) where
  | access (stop : Stop)
  | aborted (abortstr : String) (node : Option A) (count : BitVec 32) (head : A)
  | assertion

variable {A : Type}

@[simp] theorem returned_bind {α β : Type} (x : α) (f : α → Except (Halt A) β) :
    ((Except.ok x : Except (Halt A) α) >>= f) = f x := rfl

@[simp] theorem halted_bind {α β : Type} (e : Halt A) (f : α → Except (Halt A) β) :
    ((Except.error e : Except (Halt A) α) >>= f) = .error e := rfl

/-- `p->next`. -/
def nextOf (m : Memory A) (p : Option A) : Except (Halt A) (Option A) :=
  (m.load p).mapError .access |>.map ListNode.next

/-- `p->prev`. -/
def prevOf (m : Memory A) (p : Option A) : Except (Halt A) (Option A) :=
  (m.load p).mapError .access |>.map ListNode.prev

variable [DecidableEq A]

/-- `p->next = q`, which is an access of `p`. -/
def setNext (m : Memory A) (p q : Option A) : Except (Halt A) (Memory A) :=
  (m.modify p fun node => { node with next := q }).mapError .access

/-- `p->prev = q`. -/
def setPrev (m : Memory A) (p q : Option A) : Except (Halt A) (Memory A) :=
  (m.modify p fun node => { node with prev := q }).mapError .access

/-- The message and the abort, or null. -/
def corrupt (abortstr : Option String) (head : A) (node : Option A) (count : BitVec 32) : Except (Halt A) (Option A) :=
  match abortstr with
  | some abortstr => .error (.aborted abortstr node count head)
  | none => .ok none

/-- The loop of `list_check_node`, `p` the node before `n`, and the check after it. -/
def checkLoop (m : Memory A) (abortstr : Option String) (node : A) :
    Nat → Option A → Option A → BitVec 32 → Except (Halt A) (Option A)
  | 0, _, _, _ => .error (.access .running)
  | fuel + 1, p, n, count => do
    if n = some node then
      let prev ← prevOf m (some node)
      if prev ≠ p then corrupt abortstr node (some node) 0 else .ok (some node)
    else
      let prev ← prevOf m n
      if prev ≠ p then corrupt abortstr node n (count + 1)
      else
        let next ← nextOf m n
        checkLoop m abortstr node fuel n next (count + 1)

def listCheckNode (fuel : Nat) (m : Memory A) (node : A) (abortstr : Option String) : Except (Halt A) (Option A) := do
  let n ← nextOf m (some node)
  checkLoop m abortstr node fuel (some node) n 0

/-- The list, or null where it is corrupt: its head is checked as a node. -/
def listCheck (fuel : Nat) (m : Memory A) (h : A) (abortstr : Option String) : Except (Halt A) (Option A) := do
  let found ← listCheckNode fuel m h abortstr
  if found = none then .ok none else .ok (some h)

section Operations

-- Whether `_LIST_DEBUG` is defined, and the fuel of the loops it adds.
variable (debug : Bool) (fuel : Nat)

/-- With `_LIST_DEBUG` the list is checked, and a corrupt one ends the program. -/
def listDebug (m : Memory A) (h : A) (func : String) : Except (Halt A) (Option A) :=
  if debug then listCheck fuel m h (some func) else .ok (some h)

/-- The same from a node of the list. -/
def listDebugNode (m : Memory A) (n : A) (func : String) : Except (Halt A) (Option A) :=
  if debug then listCheckNode fuel m n (some func) else .ok (some n)

/-- The head is its own neighbour on both sides. -/
def listHeadInit (m : Memory A) (h : A) : Except (Halt A) (Memory A) := do
  let m ← setPrev m (some h) (some h)
  setNext m (some h) (some h)

/-- `list_add`: at the front. -/
def listAdd (m : Memory A) (h n : A) : Except (Halt A) (Memory A) := do
  let m ← setNext m (some n) (← nextOf m (some h))
  let m ← setPrev m (some n) (some h)
  let m ← setPrev m (← nextOf m (some h)) (some n)
  let m ← setNext m (some h) (some n)
  let _ ← listDebug debug fuel m h "list_add"
  .ok m

/-- `list_add_tail`: at the end. -/
def listAddTail (m : Memory A) (h n : A) : Except (Halt A) (Memory A) := do
  let m ← setNext m (some n) (some h)
  let m ← setPrev m (some n) (← prevOf m (some h))
  let m ← setNext m (← prevOf m (some h)) (some n)
  let m ← setPrev m (some h) (some n)
  let _ ← listDebug debug fuel m h "list_add_tail"
  .ok m

def listEmpty (m : Memory A) (h : A) : Except (Halt A) Bool := do
  let _ ← listDebug debug fuel m h "list_empty"
  let next ← nextOf m (some h)
  .ok (next = some h)

/-- With `_LIST_DEBUG` a use after the deletion is caught: the links become null. -/
def dropLinks (m : Memory A) (n : A) : Except (Halt A) (Memory A) :=
  if debug then do
    let m ← setPrev m (some n) none
    setNext m (some n) none
  else .ok m

/-- The neighbours of the node are linked to each other. -/
def listDel (m : Memory A) (n : A) : Except (Halt A) (Memory A) := do
  let _ ← listDebugNode debug fuel m n "list_del"
  let m ← setPrev m (← nextOf m (some n)) (← prevOf m (some n))
  let m ← setNext m (← prevOf m (some n)) (← nextOf m (some n))
  dropLinks debug m n

/-- The loop that makes sure that `n` is in the list. -/
def inList (m : Memory A) (h n : A) : Nat → Option A → Except (Halt A) Unit
  | 0, _ => .error (.access .running)
  | fuel + 1, i =>
    if i = some n then .ok ()
    else if i = some h then .error .assertion
    else do
      let next ← nextOf m i
      inList m h n fuel next

/-- What `list_del_from` checks with `_LIST_DEBUG`: the node has to be in that list. -/
def thoroughCheck (m : Memory A) (h n : A) : Except (Halt A) Unit :=
  if debug then do
    let first ← nextOf m (some h)
    inList m h n fuel first
  else .ok ()

def listDelFrom (m : Memory A) (h n : A) : Except (Halt A) (Memory A) := do
  thoroughCheck debug fuel m h n
  if ← listEmpty debug fuel m h then .error .assertion
  else listDel debug fuel m n

/-- `list_top` with an offset of 0: the first node, or null. -/
def listTop (m : Memory A) (h : A) : Except (Halt A) (Option A) := do
  if ← listEmpty debug fuel m h then .ok none else nextOf m (some h)

/-- The first node, whose link is not null in a list that is not empty, is taken out. -/
def takeOut (m : Memory A) : Option A → Except (Halt A) (Memory A × Option A)
  | none => .error (.access .null)
  | some n => do
    let m ← listDel debug fuel m n
    .ok (m, some n)

/-- `list_pop`: the first node is taken out. -/
def listPop (m : Memory A) (h : A) : Except (Halt A) (Memory A × Option A) := do
  if ← listEmpty debug fuel m h then .ok (m, none)
  else
    let n ← nextOf m (some h)
    takeOut debug fuel m n

/-- The last node, or null. -/
def listTail (m : Memory A) (h : A) : Except (Halt A) (Option A) := do
  if ← listEmpty debug fuel m h then .ok none else prevOf m (some h)

/-- The nodes of `from_` go to the end of `to_`, and `from_` is left empty. -/
def listAppendList (m : Memory A) (to_ from_ : A) : Except (Halt A) (Memory A) := do
  let _ ← listDebug debug fuel m from_ "list_append_list"
  let fromTail ← prevOf m (some from_)
  let _ ← listDebug debug fuel m to_ "list_append_list"
  let toTail ← prevOf m (some to_)
  -- The head and the whole list are sewn in, and the head is taken out again.
  let m ← setPrev m (some to_) fromTail
  let m ← setNext m fromTail (some to_)
  let m ← setNext m toTail (some from_)
  let m ← setPrev m (some from_) toTail
  let m ← listDel debug fuel m from_
  listHeadInit m from_

/-- They go to the front. -/
def listPrependList (m : Memory A) (to_ from_ : A) : Except (Halt A) (Memory A) := do
  let _ ← listDebug debug fuel m from_ "list_prepend_list"
  let fromTail ← prevOf m (some from_)
  let _ ← listDebug debug fuel m to_ "list_prepend_list"
  let toHead ← nextOf m (some to_)
  let m ← setNext m (some to_) (some from_)
  let m ← setPrev m (some from_) (some to_)
  let m ← setPrev m toHead fromTail
  let m ← setNext m fromTail toHead
  let m ← listDel debug fuel m from_
  listHeadInit m from_

end Operations

end CodeClips.LwanList
