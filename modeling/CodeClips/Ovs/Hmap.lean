import Mathlib.Algebra.GroupWithZero.Nat
import Mathlib.Data.List.Basic
import Mathlib.Logic.Function.Basic

/-!
# The hash map of `hmap.c`

Nodes are linked by pointers in memory, each map with the array of its list heads: the member
`one` while there is a single bucket, else memory from `malloc`. An operation is `none` where it
does not come to its end: an assertion fails, a pointer is `NULL` or outside its array, or a
loop follows a list round and round. `malloc` gives the memory that it is asked for.
-/

namespace CodeClips.Ovs

/-- Where a `struct hmap` is: with the client, or in the frame of `resize`. -/
inductive Place (M : Type) where
  | tmp
  | client (m : M)
  deriving DecidableEq

/-- What `buckets` points to: the member `one` of a map, or an array. -/
inductive Buckets (M : Type) where
  | one (x : Place M)
  | array (a : Nat)
  deriving DecidableEq

structure HmapNode (N : Type) where
  hash : BitVec 64
  next : Option N

/-- A map without its member `one`, which is with the arrays in `Memory.cells`. -/
structure Hmap (M : Type) where
  buckets : Buckets M
  mask : BitVec 64
  n : BitVec 64

/-- The cells of an array that is not allocated are the empty list. -/
structure Memory (N M : Type) where
  node : N → HmapNode N
  hmap : Place M → Hmap M
  cells : Buckets M → List (Option N)
  arrays : Nat

/-- A node takes 16 of the 2^64 bytes, so that no list has more nodes. -/
def mostNodes : Nat := 2 ^ 60

section Hmap
variable {N M : Type} [DecidableEq N] [DecidableEq M]

def hmap_init (s : Memory N M) (x : Place M) : Memory N M :=
  { s with
    hmap := Function.update s.hmap x { buckets := .one x, mask := 0, n := 0 }
    cells := Function.update s.cells (.one x) [none] }

def hmap_moved (s : Memory N M) (x : Place M) : Memory N M :=
  let hmap := s.hmap x
  if hmap.mask = 0 then { s with hmap := Function.update s.hmap x { hmap with buckets := .one x } } else s

/-- The assignment `*x = *y` of structs, where `hmap` and `one` are the contents of `y`. -/
def Memory.assign (s : Memory N M) (x : Place M) (hmap : Hmap M) (one : List (Option N)) : Memory N M :=
  { s with hmap := Function.update s.hmap x hmap, cells := Function.update s.cells (.one x) one }

def hmap_swap (s : Memory N M) (a b : Place M) : Memory N M :=
  let tmp := s.hmap a
  let tmp_one := s.cells (.one a)
  let s := s.assign a (s.hmap b) (s.cells (.one b))
  let s := s.assign b tmp tmp_one
  hmap_moved (hmap_moved s a) b

/-- `free` takes the cells of an array away. -/
def hmap_destroy (s : Memory N M) (x : Place M) : Memory N M :=
  if (s.hmap x).buckets ≠ .one x then { s with cells := Function.update s.cells (s.hmap x).buckets [] } else s

def hmap_insert_fast (s : Memory N M) (x : Place M) (node : N) (hash : BitVec 64) : Option (Memory N M) := do
  let hmap := s.hmap x
  let i := (hash &&& hmap.mask).toNat
  let bucket ← (s.cells hmap.buckets)[i]?
  some
    { s with
      node := Function.update s.node node { hash := hash, next := bucket }
      cells := Function.update s.cells hmap.buckets ((s.cells hmap.buckets).set i (some node))
      hmap := Function.update s.hmap x { hmap with n := hmap.n + 1 } }

/-! ## Resizing -/

def is_pow2 (x : BitVec 64) : Bool := decide (x ≠ 0) && decide (x &&& (x - 1) = 0)

/-- `tmp.buckets = malloc(..)` and the loop that clears it. The size is a 64-bit product. -/
def Memory.allocate (s : Memory N M) (new_mask : BitVec 64) : Option (Memory N M) :=
  let size := 8 * (new_mask + 1)
  if new_mask.toNat < size.toNat / 8 then
    some
      { s with
        hmap := Function.update s.hmap .tmp { buckets := .array s.arrays, mask := new_mask, n := 0 }
        cells := Function.update s.cells (.array s.arrays) (List.replicate (size.toNat / 8) none)
        arrays := s.arrays + 1 }
  else none

/-- The loop over the nodes of a bucket, which go to `tmp`. -/
def moveNodes : Nat → Memory N M → Option N → Option (Memory N M)
  | _, s, none => some s
  | 0, _, some _ => none
  | fuel + 1, s, some node => do
    let next := (s.node node).next
    let s ← hmap_insert_fast s .tmp node (s.node node).hash
    moveNodes fuel s next

/-- The loop over `count` buckets from the bucket `i`. -/
def moveBuckets (x : Place M) : Nat → Nat → Memory N M → Option (Memory N M)
  | _, 0, s => some s
  | i, count + 1, s => do
    let bucket ← (s.cells (s.hmap x).buckets)[i]?
    let s ← moveNodes mostNodes s bucket
    moveBuckets x (i + 1) count s

def resize (s : Memory N M) (x : Place M) (new_mask : BitVec 64) : Option (Memory N M) :=
  if is_pow2 (new_mask + 1) then do
    let s := hmap_init s .tmp
    let s ← if new_mask = 0 then some s else s.allocate new_mask
    let s ← moveBuckets x 0 ((s.hmap x).mask.toNat + 1) s
    some (hmap_destroy (hmap_swap s x .tmp) .tmp)
  else none

def calc_mask (capacity : BitVec 64) : BitVec 64 :=
  let mask := capacity / 2
  let mask := mask ||| mask >>> 1
  let mask := mask ||| mask >>> 2
  let mask := mask ||| mask >>> 4
  let mask := mask ||| mask >>> 8
  let mask := mask ||| mask >>> 16
  let mask := mask ||| mask >>> 32
  mask ||| (mask &&& 1) <<< 1

def hmap_expand (s : Memory N M) (x : Place M) : Option (Memory N M) :=
  let new_mask := calc_mask (s.hmap x).n
  if new_mask > (s.hmap x).mask then resize s x new_mask else some s

def hmap_shrink (s : Memory N M) (x : Place M) : Option (Memory N M) :=
  let new_mask := calc_mask (s.hmap x).n
  if new_mask < (s.hmap x).mask then resize s x new_mask else some s

def hmap_reserve (s : Memory N M) (x : Place M) (n : BitVec 64) : Option (Memory N M) :=
  let new_mask := calc_mask n
  if new_mask > (s.hmap x).mask then resize s x new_mask else some s

/-! ## Insertion and deletion -/

def hmap_insert (s : Memory N M) (x : Place M) (node : N) (hash : BitVec 64) : Option (Memory N M) := do
  let s ← hmap_insert_fast s x node hash
  if (s.hmap x).n / 2 > (s.hmap x).mask then hmap_expand s x else some s

/-- What a `struct hmap_node **` points to: a cell of an array, or the link of a node. -/
inductive Link (N M : Type) where
  | cell (buckets : Buckets M) (i : Nat)
  | next (node : N)

def Memory.load (s : Memory N M) : Link N M → Option (Option N)
  | .cell buckets i => (s.cells buckets)[i]?
  | .next node => some (s.node node).next

def Memory.store (s : Memory N M) (value : Option N) : Link N M → Memory N M
  | .cell buckets i => { s with cells := Function.update s.cells buckets ((s.cells buckets).set i value) }
  | .next node => { s with node := Function.update s.node node { s.node node with next := value } }

/-- `while (*bucket != node) bucket = &(*bucket)->next`. -/
def findLink (s : Memory N M) (node : N) : Nat → Link N M → Option (Link N M)
  | 0, _ => none
  | fuel + 1, bucket => do
    let some there ← s.load bucket | none
    if there = node then some bucket else findLink s node fuel (.next there)

def hmap_remove (s : Memory N M) (x : Place M) (node : N) : Option (Memory N M) := do
  let hmap := s.hmap x
  let i := ((s.node node).hash &&& hmap.mask).toNat
  let bucket ← findLink s node mostNodes (.cell hmap.buckets i)
  let s := s.store (s.node node).next bucket
  some { s with hmap := Function.update s.hmap x { hmap with n := hmap.n - 1 } }

end Hmap

end CodeClips.Ovs
