import CodeClips.Lib.Buffer
import CodeClips.Lib.Spread
import CodeClips.Lib.Transition
import Mathlib.Algebra.BigOperators.Fin
import Mathlib.Algebra.GroupWithZero.Nat

/-!
# The hash table of `hash.c`

512 buckets, each an array that grows in steps of 64 entries and shrinks on deletion. A cell of
an array that has not been written is `none`. An operation is `none` where C leaves it
undefined: it reads such a cell, it writes outside the array, or it goes on with an array that
`realloc` has freed. `fails` says that a reallocation made in the operation fails.
-/

namespace CodeClips.Lwan

def n_buckets : Nat := 512

def steps : BitVec 32 := 64

def ENOENT : Int := 2
def ENOMEM : Int := 12
def EEXIST : Int := 17

/-- The two functions a table is made with. Keys are values: they compare equal exactly if
they are the same. -/
structure KeyFunctions (K : Type) where
  hash_value : K → BitVec 32
  key_compare : K → K → Int
  compare_eq : ∀ a b, key_compare a b = 0 ↔ a = b

section Hash
variable {K V : Type}

structure HashEntry (K V : Type) where
  key : K
  value : V
  hashval : BitVec 32

structure HashBucket (K V : Type) where
  entries : List (Option (HashEntry K V))
  used : BitVec 32
  total : BitVec 32

structure Hash (K V : Type) where
  count : BitVec 32
  buckets : Fin n_buckets → HashBucket K V

/-- `hash_internal_new`: all is zero. -/
def Hash.new : Hash K V := { count := 0, buckets := fun _ => { entries := [], used := 0, total := 0 } }

/-- `hashval & (n_buckets - 1)`. -/
def pos (hashval : BitVec 32) : Fin n_buckets :=
  ⟨(hashval &&& 511).toNat, by
    rw [BitVec.toNat_and]
    exact Nat.lt_succ_of_le Nat.and_le_right⟩

/-- The array after `realloc` to `n` entries: new cells are not written. -/
def resize (entries : List (Option (HashEntry K V))) (n : Nat) : List (Option (HashEntry K V)) :=
  entries.take n ++ List.replicate (n - entries.length) none

/-- The bucket with a place left for one more entry, as `hash_add` begins: `some none` when
there is no memory for it. -/
def HashBucket.grow (bucket : HashBucket K V) (fails : Bool) : Option (Option (HashBucket K V)) :=
  if bucket.used + 1 ≥ bucket.total then
    let new_total := bucket.total + steps
    -- a size of 0 frees the array, to which the bucket goes on pointing
    if new_total = 0 then none
    else if fails then some none
    else some (some { bucket with entries := resize bucket.entries new_total.toNat, total := new_total })
  else some (some bucket)

/-- The entries that the loops over a bucket read. -/
def HashBucket.read (bucket : HashBucket K V) : Option (List (HashEntry K V)) :=
  (bucket.entries.take bucket.used.toNat).mapM id

variable (ops : KeyFunctions K)

/-- The entry is the one looked for. -/
def hit (key : K) (hashval : BitVec 32) (entry : HashEntry K V) : Bool :=
  decide (hashval = entry.hashval) && decide (ops.key_compare key entry.key = 0)

/-- What an operation on the table returns, and the entry whose value and key it has given to
`free_value` and `free_key`. -/
structure Answer (K V : Type) where
  ret : Int
  freed : Option (HashEntry K V)

/-- `hash_add`, and `hash_add_unique` where an entry with the key makes it fail. -/
def hash_put (unique : Bool) (hash : Hash K V) (key : K) (value : V) (fails : Bool) :
    Option (Hash K V × Answer K V) := do
  let hashval := ops.hash_value key
  match ← (hash.buckets (pos hashval)).grow fails with
  | none => some (hash, { ret := -ENOMEM, freed := none })
  | some bucket =>
    let entries ← bucket.read
    match entries.findIdx? (hit ops key hashval) with
    | some i =>
      if unique then
        some ({ hash with buckets := Function.update hash.buckets (pos hashval) bucket },
          { ret := -EEXIST, freed := none })
      else
        let entry := entries[i]?.map fun entry => { entry with key := key, value := value }
        let bucket := { bucket with entries := bucket.entries.set i entry }
        some ({ hash with buckets := Function.update hash.buckets (pos hashval) bucket },
          { ret := 0, freed := entries[i]? })
    | none =>
      if bucket.used.toNat < bucket.entries.length then
        let entry := { key := key, value := value, hashval := hashval }
        let bucket := { bucket with
          entries := bucket.entries.set bucket.used.toNat (some entry)
          used := bucket.used + 1 }
        some ({ count := hash.count + 1, buckets := Function.update hash.buckets (pos hashval) bucket },
          { ret := 0, freed := none })
      else none

def hash_add (hash : Hash K V) (key : K) (value : V) (fails : Bool) : Option (Hash K V × Answer K V) :=
  hash_put ops false hash key value fails

def hash_add_unique (hash : Hash K V) (key : K) (value : V) (fails : Bool) : Option (Hash K V × Answer K V) :=
  hash_put ops true hash key value fails

/-- The index and the entry, or `NULL`. -/
def hash_find_entry (hash : Hash K V) (key : K) (hashval : BitVec 32) : Option (Option (Nat × HashEntry K V)) := do
  let entries ← (hash.buckets (pos hashval)).read
  some ((entries.findIdx? (hit ops key hashval)).bind fun i => entries[i]?.map (i, ·))

/-- The value, or `NULL`. -/
def hash_find (hash : Hash K V) (key : K) : Option (Option V) := do
  let entry ← hash_find_entry ops hash key (ops.hash_value key)
  some (entry.map fun (_, entry) => entry.value)

/-- The reallocation at the end of `hash_del`. -/
def HashBucket.shrink (bucket : HashBucket K V) (fails : Bool) : HashBucket K V :=
  let steps_used := bucket.used / steps
  let steps_total := bucket.total / steps
  if steps_used + 1 < steps_total then
    if fails then bucket
    else
      let total := (steps_used + 1) * steps
      { bucket with entries := resize bucket.entries total.toNat, total := total }
  else bucket

/-- `hash_del`. The `memmove` takes one cell more than there are entries behind the one
deleted. -/
def hash_del (hash : Hash K V) (key : K) (fails : Bool) : Option (Hash K V × Answer K V) := do
  let hashval := ops.hash_value key
  let bucket := hash.buckets (pos hashval)
  match ← hash_find_entry ops hash key hashval with
  | none => some (hash, { ret := -ENOENT, freed := none })
  | some (i, entry) =>
    let moved := bucket.used.toNat - i
    if i + 1 + moved ≤ bucket.entries.length then
      let bucket := { bucket with
        entries := blit bucket.entries i (slice bucket.entries (i + 1) moved)
        used := bucket.used - 1 }
      let bucket := bucket.shrink fails
      some ({ count := hash.count - 1, buckets := Function.update hash.buckets (pos hashval) bucket },
        { ret := 0, freed := some entry })
    else none

end Hash

end CodeClips.Lwan
