import CodeClips.Sds.Format

/-!
# The representation of an `sds`

Each operation keeps a string exact: it holds the bytes that the same operations make of a list, and
what is allocated behind the header is the length, the bytes left over and one byte more. A write
outside of the allocation and a failed `assert` have no result. `run_exact` is about the runs whose
sizes add up to less than `2^31`; `free` has place for what is allocated in advance then.
-/

namespace CodeClips.Sds

/-! ## The functions -/

/-- What `init` and `initlen` stand for: the bytes at `init`, or `NULL` and a length. -/
inductive Init where
  | bytes (t : List Byte)
  | null (initlen : Nat)

def Init.initlen : Init → Nat
  | bytes t => t.length
  | null initlen => initlen

section Functions
variable (junk : Nat → Byte)

def Allocated.sdsnewlen (init : Init) : Option Allocated := do
  let buf ← match init with
    | .bytes t => writeAt (zrealloc junk [] (t.length + 1)) 0 t
    | .null initlen => some (List.replicate (initlen + 1) 0)
  let buf ← writeAt buf init.initlen [0]
  some { len := BitVec.ofNat 32 init.initlen, free := 0, buf := buf }

def sdsclear (s : Allocated) : Option Allocated := do
  let buf ← writeAt s.buf 0 [0]
  some { len := 0, free := s.free + s.len, buf := buf }

def sdsRemoveFreeSpace (s : Allocated) : Allocated :=
  { s with free := 0, buf := zrealloc junk s.buf (sdslen s.tosdshdr + 1) }

def sdsIncrLen (s : Allocated) (incr : BitVec 32) : Option Allocated := do
  guard (if 0 ≤ incr.toInt then incr.toNat ≤ s.free.toNat else (-incr).toNat ≤ s.len.toNat)
  let len := s.len + incr
  let buf ← writeAt s.buf len.toNat [0]
  some { len := len, free := s.free - incr, buf := buf }

def sdsgrowzero (s : Allocated) (len : Nat) : Option Allocated :=
  let curlen := sdslen s.tosdshdr
  if len ≤ curlen then some s
  else do
    let s := sdsMakeRoomFor junk s (len - curlen)
    let buf ← writeAt s.buf curlen (List.replicate (len - curlen + 1) 0)
    let totlen := s.len + s.free
    some { len := BitVec.ofNat 32 len, free := totlen - BitVec.ofNat 32 len, buf := buf }

/-- `sdscatlen` with the room it makes, and `free`. -/
def Allocated.sdscatlen (s : Allocated) (t : List Byte) : Option Allocated := do
  let curlen := sdslen s.tosdshdr
  let s := sdsMakeRoomFor junk s t.length
  let buf ← writeAt s.buf curlen t
  let buf ← writeAt buf (curlen + t.length) [0]
  some { len := BitVec.ofNat 32 (curlen + t.length), free := s.free - BitVec.ofNat 32 t.length, buf := buf }

/-- `totlen` is a sum of two `unsigned int`, and `len - sh->len` a `size_t`. -/
def sdscpylen (s : Allocated) (t : List Byte) : Option Allocated := do
  let len := t.length
  let s := if (s.free + s.len).toNat < len then
      sdsMakeRoomFor junk s (BitVec.ofNat 64 len - s.len.setWidth 64).toNat
    else s
  let totlen := s.free + s.len
  let buf ← writeAt s.buf 0 t
  let buf ← writeAt buf len [0]
  some { len := BitVec.ofNat 32 len, free := totlen - BitVec.ofNat 32 len, buf := buf }

/-- A call; before `sdsIncrLen` the caller writes behind the string. -/
inductive Op where
  | newlen (init : Init)
  | makeRoomFor (addlen : Nat)
  | incrLen (written : List Byte) (incr : BitVec 32)
  | growzero (len : Nat)
  | catlen (t : List Byte)
  | cpylen (t : List Byte)
  | clear
  | removeFreeSpace

/-- `NULL` is never returned, since an allocation succeeds. -/
def call (s : Allocated) : Op → Option Allocated
  | .newlen init => Allocated.sdsnewlen junk init
  | .makeRoomFor addlen => some (sdsMakeRoomFor junk s addlen)
  | .incrLen written incr => do
    let buf ← writeAt s.buf (sdslen s.tosdshdr) written
    sdsIncrLen { s with buf := buf } incr
  | .growzero len => sdsgrowzero junk s len
  | .catlen t => s.sdscatlen junk t
  | .cpylen t => sdscpylen junk s t
  | .clear => sdsclear s
  | .removeFreeSpace => some (sdsRemoveFreeSpace junk s)

end Functions

/-- Some calls one after another, each with what it finds in memory that is not set. -/
def run (s : Allocated) (calls : List (Op × (Nat → Byte))) : Option Allocated :=
  calls.foldlM (fun s (op, junk) => call junk s op) s

/-! ## What they are for -/

def Init.content : Init → List Byte
  | bytes t => t
  | null initlen => List.replicate initlen 0

/-- The calls on a string of bytes. -/
def Op.apply (bytes : List Byte) : Op → List Byte
  | newlen init => init.content
  | makeRoomFor _ => bytes
  | incrLen written incr =>
    if 0 ≤ incr.toInt then bytes ++ written.take incr.toNat else bytes.take (bytes.length - (-incr).toNat)
  | growzero len => bytes ++ List.replicate (len - bytes.length) 0
  | catlen t => bytes ++ t
  | cpylen t => t
  | clear => []
  | removeFreeSpace => bytes

/-- The size a call asks for. -/
def Op.size : Op → Nat
  | newlen init => init.initlen
  | makeRoomFor addlen => addlen
  | incrLen _ incr => incr.toInt.toNat
  | growzero len => len
  | catlen t => t.length
  | cpylen t => t.length
  | clear => 0
  | removeFreeSpace => 0

/-- `sdsIncrLen` stays inside of the string, or of the free space, where its caller has written the bytes it takes in
(be it what was there). -/
def Allowed (s : Allocated) : Op → Prop
  | .incrLen written incr =>
    written.length ≤ s.free.toNat ∧ incr.toInt ≤ written.length ∧ -incr.toInt ≤ sdslen s.tosdshdr
  | _ => True

/-- All calls of a run are allowed where they are made. -/
def AllAllowed : Allocated → List (Op × (Nat → Byte)) → Prop
  | _, [] => True
  | s, (op, junk) :: calls => Allowed s op ∧ ∀ s', call junk s op = some s' → AllAllowed s' calls

/-- The string holds the bytes, and the header counts what is allocated. -/
structure Allocated.Exact (s : Allocated) (bytes : List Byte) : Prop where
  holds : s.Holds bytes
  size : s.buf.length = sdslen s.tosdshdr + s.free.toNat + 1

variable {junk : Nat → Byte} {s s' : Allocated} {bytes rest : List Byte} {cap n : Nat}

/-! ## One call -/

/-- An exact string for which `cap` bytes are allocated; they can be counted. -/
structure Kept (s : Allocated) (bytes : List Byte) (cap : Nat) : Prop where
  len : sdslen s.tosdshdr = bytes.length
  buf : ∃ rest, s.buf = bytes ++ 0 :: rest
  room : s.buf.length = cap + 1
  sum : bytes.length + s.free.toNat = cap
  fits : cap < 2 ^ 32

theorem Kept.exact (kept : Kept s bytes cap) : s.Exact bytes := by
  refine ⟨⟨kept.len, kept.buf⟩, ?_⟩
  rw [kept.len, kept.sum, kept.room]

/-- What a call has to set. -/
theorem kept_of {len free : BitVec 32} (len_eq : len.toNat = bytes.length) (room : (bytes ++ 0 :: rest).length = cap + 1)
    (free_eq : bytes.length + free.toNat = cap) (fits : cap < 2 ^ 32) :
    Kept { len := len, free := free, buf := bytes ++ 0 :: rest } bytes cap :=
  ⟨len_eq, ⟨rest, rfl⟩, room, free_eq, fits⟩

theorem length_zrealloc (buf : List Byte) (size : Nat) : (zrealloc junk buf size).length = size :=
  length_resized junk buf size

theorem Init.length_content (init : Init) : init.content.length = init.initlen := by
  cases init with
  | bytes t => rfl
  | null initlen => exact List.length_replicate ..

theorem kept_sdsnewlen (init : Init) (fits : init.initlen < 2 ^ 32) :
    ∃ s, Allocated.sdsnewlen junk init = some s ∧ Kept s init.content init.initlen := by
  have len : (BitVec.ofNat 32 init.initlen).toNat = init.content.length := by
    rw [BitVec.toNat_ofNat, Nat.mod_eq_of_lt fits, init.length_content]
  have free : init.content.length + (0 : BitVec 32).toNat = init.initlen := init.length_content
  have start : ∃ rest, Allocated.sdsnewlen junk init =
      some { len := BitVec.ofNat 32 init.initlen, free := 0, buf := init.content ++ 0 :: rest } ∧
        (init.content ++ 0 :: rest).length = init.initlen + 1 := by
    cases init with
    | bytes t =>
      have fresh : (zrealloc junk [] (t.length + 1)).length = t.length + 1 := length_zrealloc [] _
      obtain ⟨rest, copied, length⟩ := @writeAt_then_close _ [] (zrealloc junk [] (t.length + 1)) t 0 t.length 0 rfl fresh
        (by rw [List.length_nil, Nat.zero_add])
      obtain ⟨buf, first, second⟩ := Option.bind_eq_some_iff.mp copied
      rw [List.nil_append] at first
      rw [Nat.zero_add] at second
      refine ⟨rest, ?_, length⟩
      rw [Allocated.sdsnewlen]
      dsimp only [Init.initlen]
      rw [first, Option.bind_eq_bind, Option.bind_some, second]
      rfl
    | null initlen =>
      have zeros : List.replicate (initlen + 1) (0 : Byte) = List.replicate initlen 0 ++ [0] := List.replicate_succ'
      have last := @writeAt_append Byte (List.replicate initlen 0) [0] [0] initlen (List.length_replicate ..).symm le_rfl
      refine ⟨[], ?_, by rw [List.length_append, Init.length_content, List.length_singleton]⟩
      rw [Allocated.sdsnewlen]
      dsimp only [Init.initlen]
      rw [Option.bind_eq_bind, Option.bind_some, zeros, last, List.append_assoc]
      rfl
  obtain ⟨rest, start, length⟩ := start
  exact ⟨_, start, kept_of len length free fits⟩

theorem Kept.makeRoomFor (kept : Kept s bytes cap) {addlen : Nat} (fits : bytes.length + addlen ≤ 2 ^ 31) :
    ∃ cap', Kept (sdsMakeRoomFor junk s addlen) bytes cap' ∧ bytes.length + addlen ≤ cap' := by
  obtain ⟨len, ⟨rest, whole⟩, room, sum, small⟩ := kept
  rw [sdsMakeRoomFor]
  split_ifs with enough
  · exact ⟨cap, ⟨len, ⟨rest, whole⟩, room, sum, small⟩, by omega⟩
  · have bounds := prealloc_bounds fits
    have long : (bytes ++ [0]).length ≤ prealloc (bytes.length + addlen) + 1 := by
      rw [List.length_append, List.length_singleton]
      omega
    obtain ⟨rest', grows, length⟩ := @zrealloc_append junk (bytes ++ [0]) _ long rest
    rw [List.append_assoc, List.append_assoc, List.singleton_append, List.singleton_append, ← whole] at grows
    dsimp only
    rw [len, grows]
    refine ⟨prealloc (bytes.length + addlen), kept_of len ?_ ?_ bounds.2, bounds.1⟩
    · rw [List.length_append, List.length_singleton] at length
      simp only [List.length_append, List.length_cons]
      omega
    · rw [BitVec.toNat_ofNat, Nat.mod_eq_of_lt (by omega)]
      omega

theorem Kept.removeFreeSpace (kept : Kept s bytes cap) : Kept (sdsRemoveFreeSpace junk s) bytes bytes.length := by
  obtain ⟨len, ⟨rest, whole⟩, room, sum, small⟩ := kept
  have long : (bytes ++ [0]).length ≤ bytes.length + 1 := by rw [List.length_append, List.length_singleton]
  obtain ⟨rest', shrinks, length⟩ := @zrealloc_append junk (bytes ++ [0]) _ long rest
  rw [List.append_assoc, List.append_assoc, List.singleton_append, List.singleton_append, ← whole] at shrinks
  rw [sdsRemoveFreeSpace, len, shrinks]
  refine kept_of len ?_ rfl (by omega)
  rw [List.length_append, List.length_singleton] at length
  simp only [List.length_append, List.length_cons]
  omega

theorem toNat_ofNat_of_lt (fits : n < 2 ^ 32) : (BitVec.ofNat 32 n).toNat = n := by
  rw [BitVec.toNat_ofNat, Nat.mod_eq_of_lt fits]

/-- The bytes left over, as they are counted anew. -/
theorem toNat_rest {total : BitVec 32} (sum : total.toNat = cap) (le : n ≤ cap) :
    n + (total - BitVec.ofNat 32 n).toNat = cap := by
  have bound := total.isLt
  rw [BitVec.toNat_sub, toNat_ofNat_of_lt (by omega), sum]
  omega

theorem Kept.total (kept : Kept s bytes cap) : (s.free + s.len).toNat = cap ∧ (s.len + s.free).toNat = cap := by
  have len : s.len.toNat = bytes.length := kept.len
  have sum := kept.sum
  have fits := kept.fits
  rw [BitVec.add_comm s.len, and_self, BitVec.toNat_add, Nat.mod_eq_of_lt (by omega)]
  omega

theorem Kept.clear (kept : Kept s bytes cap) : ∃ s', sdsclear s = some s' ∧ Kept s' [] cap := by
  obtain ⟨rest, written, length⟩ := @writeAt_closed _ [] s.buf [] 0 cap 0 rfl kept.room (Nat.zero_le _)
  rw [List.nil_append, List.nil_append] at written
  have free : ([] : List Byte).length + (s.free + s.len).toNat = cap := by
    rw [kept.total.1]
    exact Nat.zero_add _
  rw [sdsclear, written]
  exact ⟨_, rfl, kept_of rfl length free kept.fits⟩

theorem Kept.growzero (kept : Kept s bytes cap) {len : Nat} (fits : len ≤ 2 ^ 31) :
    ∃ s' cap', sdsgrowzero junk s len = some s' ∧ Kept s' (bytes ++ List.replicate (len - bytes.length) 0) cap' := by
  rw [sdsgrowzero, kept.len]
  split_ifs with none
  · refine ⟨s, cap, rfl, ?_⟩
    rw [Nat.sub_eq_zero_of_le none, List.replicate_zero, List.append_nil]
    exact kept
  · obtain ⟨cap', kept', enough⟩ := @Kept.makeRoomFor junk _ _ _ kept (len - bytes.length) (by omega)
    obtain ⟨rest, whole⟩ := kept'.buf
    have room := kept'.room
    have small := kept'.fits
    have length : (bytes ++ List.replicate (len - bytes.length) (0 : Byte)).length = len := by
      rw [List.length_append, List.length_replicate]
      omega
    rw [whole] at room
    obtain ⟨behind, written, total⟩ := @writeAt_closed _ bytes (0 :: rest) (List.replicate (len - bytes.length) 0) _ cap'
      0 rfl room (by rw [← List.length_append, length]; omega)
    have counted := toNat_rest kept'.total.2 (by omega : len ≤ cap')
    rw [← List.replicate_succ'] at written
    dsimp only
    rw [whole, written, Option.bind_eq_bind, Option.bind_some]
    refine ⟨_, cap', rfl, kept_of ?_ total ?_ small⟩
    · rw [toNat_ofNat_of_lt (by omega), length]
    · rw [length]
      exact counted

theorem Kept.catlen (kept : Kept s bytes cap) (t : List Byte) (fits : bytes.length + t.length ≤ 2 ^ 31) :
    ∃ s' cap', s.sdscatlen junk t = some s' ∧ Kept s' (bytes ++ t) cap' := by
  obtain ⟨cap', kept', enough⟩ := @Kept.makeRoomFor junk _ _ _ kept t.length fits
  obtain ⟨rest, whole⟩ := kept'.buf
  have room := kept'.room
  have sum := kept'.sum
  have small := kept'.fits
  rw [whole] at room
  obtain ⟨behind, written, total⟩ := @writeAt_then_close _ bytes (0 :: rest) t _ cap' 0 rfl room enough
  obtain ⟨buf, copied, closed⟩ := Option.bind_eq_some_iff.mp written
  rw [Allocated.sdscatlen, kept.len, whole, copied, Option.bind_eq_bind, Option.bind_some, closed]
  refine ⟨_, cap', rfl, kept_of ?_ total ?_ small⟩
  · rw [toNat_ofNat_of_lt (by omega), List.length_append]
  · rw [BitVec.toNat_sub, toNat_ofNat_of_lt (by omega), List.length_append]
    omega

theorem Kept.cpylen (kept : Kept s bytes cap) (t : List Byte) (fits : t.length ≤ 2 ^ 31) :
    ∃ s' cap', sdscpylen junk s t = some s' ∧ Kept s' t cap' := by
  have grown : ∃ s' cap', (if (s.free + s.len).toNat < t.length then
      sdsMakeRoomFor junk s (BitVec.ofNat 64 t.length - s.len.setWidth 64).toNat else s) = s' ∧
      Kept s' bytes cap' ∧ t.length ≤ cap' := by
    rw [kept.total.1]
    split_ifs with short
    · have len : s.len.toNat = bytes.length := kept.len
      have sum := kept.sum
      have more : (BitVec.ofNat 64 t.length - s.len.setWidth 64).toNat = t.length - bytes.length := by
        rw [BitVec.toNat_sub, BitVec.toNat_ofNat, BitVec.toNat_setWidth, len]
        omega
      rw [more]
      obtain ⟨cap', kept', enough⟩ := @Kept.makeRoomFor junk _ _ _ kept (t.length - bytes.length) (by omega)
      exact ⟨_, cap', rfl, kept', by omega⟩
    · exact ⟨s, cap, rfl, kept, by omega⟩
  obtain ⟨s', cap', grown, kept', enough⟩ := grown
  have small := kept'.fits
  obtain ⟨behind, written, total⟩ := @writeAt_then_close _ [] s'.buf t 0 cap' 0 rfl kept'.room (by simpa using enough)
  obtain ⟨buf, copied, closed⟩ := Option.bind_eq_some_iff.mp written
  rw [List.nil_append] at copied
  rw [Nat.zero_add] at closed
  rw [sdscpylen, grown, copied, Option.bind_eq_bind, Option.bind_some, closed]
  exact ⟨_, cap', rfl, kept_of (toNat_ofNat_of_lt (by omega)) total (toNat_rest kept'.total.1 enough) small⟩

/-- The numbers of `sdsIncrLen`, which passes its `assert`. -/
theorem Kept.incr (kept : Kept s bytes cap) {written : List Byte} {incr : BitVec 32}
    (allowed : Allowed s (.incrLen written incr)) (rest : List Byte) :
    (if 0 ≤ incr.toInt then incr.toNat ≤ s.free.toNat else (-incr).toNat ≤ s.len.toNat) ∧
      (bytes ++ written ++ rest).take (s.len + incr).toNat = Op.apply bytes (.incrLen written incr) ∧
      (Op.apply bytes (.incrLen written incr)).length = (s.len + incr).toNat ∧
      (s.len + incr).toNat + (s.free - incr).toNat = cap := by
  obtain ⟨enough, up, down⟩ := allowed
  have len : s.len.toNat = bytes.length := kept.len
  have sum := kept.sum
  have small := kept.fits
  have bound := incr.isLt
  have sign := BitVec.toInt_eq_toNat_cond incr
  rw [kept.len] at down
  rw [Op.apply, BitVec.toNat_add, BitVec.toNat_sub, BitVec.toNat_neg, len]
  split_ifs at sign ⊢ with _ positive negative
  · have count : (bytes.length + incr.toNat) % 2 ^ 32 = bytes.length + incr.toNat := Nat.mod_eq_of_lt (by omega)
    refine ⟨by omega, ?_, ?_, by omega⟩
    · rw [count, List.append_assoc, List.take_length_add_append, List.take_append_of_le_length (by omega)]
    · rw [count, List.length_append, List.length_take, Nat.min_eq_left (by omega)]
  · omega
  · omega
  · have count : (bytes.length + incr.toNat) % 2 ^ 32 = bytes.length - (2 ^ 32 - incr.toNat) % 2 ^ 32 := by omega
    refine ⟨by omega, ?_, ?_, by omega⟩
    · rw [count, List.append_assoc, List.take_append_of_le_length (by omega)]
    · rw [count, List.length_take, Nat.min_eq_left (by omega)]

theorem Kept.incrLen (kept : Kept s bytes cap) {written : List Byte} {incr : BitVec 32}
    (allowed : Allowed s (.incrLen written incr)) :
    ∃ s', call junk s (.incrLen written incr) = some s' ∧ Kept s' (Op.apply bytes (.incrLen written incr)) cap := by
  obtain ⟨rest, whole⟩ := kept.buf
  have room := kept.room
  have sum := kept.sum
  rw [whole] at room
  have copied := @writeAt_append _ bytes (0 :: rest) written _ rfl (by
    rw [List.length_append] at room
    have free := allowed.1
    omega)
  obtain ⟨passes, front, length, free⟩ := kept.incr allowed ((0 :: rest).drop written.length)
  have after := (length_writeAt copied).trans room
  rw [← List.take_append_drop (s.len + incr).toNat (bytes ++ written ++ _), front] at copied after
  obtain ⟨behind, closed, total⟩ := @writeAt_closed _ _ _ [] _ cap 0 length.symm after (by
    rw [length, List.length_nil]
    omega)
  rw [List.append_nil] at closed total
  rw [call, kept.len, whole, copied, Option.bind_eq_bind, Option.bind_some, sdsIncrLen, guard, if_pos passes]
  dsimp only
  rw [List.nil_append] at closed
  refine ⟨_, by rw [closed]; rfl, kept_of length.symm total ?_ kept.fits⟩
  rw [length]
  exact free

/-! ## Runs -/

/-- A call keeps the string exact, and its length within the sizes asked for. -/
theorem Kept.call (kept : Kept s bytes cap) {op : Op} {sizes : Nat} (bounded : bytes.length ≤ sizes)
    (fits : sizes + op.size < 2 ^ 31) (allowed : Allowed s op) :
    ∃ s' cap', Sds.call junk s op = some s' ∧ Kept s' (op.apply bytes) cap' ∧
      (op.apply bytes).length ≤ sizes + op.size := by
  cases op with
  | newlen init =>
    rw [Op.size] at fits
    obtain ⟨s', returns, kept'⟩ := @kept_sdsnewlen junk init (by omega)
    refine ⟨s', _, returns, kept', ?_⟩
    rw [Op.apply, Op.size, init.length_content]
    omega
  | makeRoomFor addlen =>
    rw [Op.size] at fits
    obtain ⟨cap', kept', -⟩ := @Kept.makeRoomFor junk _ _ _ kept addlen (by omega)
    exact ⟨_, cap', rfl, kept', by rw [Op.apply]; omega⟩
  | incrLen written incr =>
    obtain ⟨s', returns, kept'⟩ := @Kept.incrLen junk _ _ _ kept _ _ allowed
    refine ⟨s', cap, returns, kept', ?_⟩
    rw [Op.apply, Op.size]
    split_ifs with positive
    · have sign := BitVec.toInt_eq_toNat_cond incr
      have bound := incr.isLt
      rw [List.length_append, List.length_take]
      split_ifs at sign <;> omega
    · rw [List.length_take]
      omega
  | growzero len =>
    rw [Op.size] at fits
    obtain ⟨s', cap', returns, kept'⟩ := @Kept.growzero junk _ _ _ kept len (by omega)
    refine ⟨s', cap', returns, kept', ?_⟩
    rw [Op.apply, Op.size, List.length_append, List.length_replicate]
    omega
  | catlen t =>
    rw [Op.size] at fits
    obtain ⟨s', cap', returns, kept'⟩ := @Kept.catlen junk _ _ _ kept t (by omega)
    refine ⟨s', cap', returns, kept', ?_⟩
    rw [Op.apply, Op.size, List.length_append]
    omega
  | cpylen t =>
    rw [Op.size] at fits
    obtain ⟨s', cap', returns, kept'⟩ := @Kept.cpylen junk _ _ _ kept t (by omega)
    exact ⟨s', cap', returns, kept', by rw [Op.apply, Op.size]; omega⟩
  | clear =>
    obtain ⟨s', returns, kept'⟩ := kept.clear
    exact ⟨s', cap, returns, kept', Nat.zero_le _⟩
  | removeFreeSpace => exact ⟨_, _, rfl, kept.removeFreeSpace, Nat.le_add_right_of_le bounded⟩

/-- The sizes that the calls of a run ask for, in all. -/
def sizes (calls : List (Op × (Nat → Byte))) : Nat := (calls.map (·.1.size)).sum

theorem Kept.run {calls : List (Op × (Nat → Byte))} {asked : Nat} (kept : Kept s bytes cap)
    (bounded : bytes.length ≤ asked) (fits : asked + sizes calls < 2 ^ 31) (allowed : AllAllowed s calls) :
    ∃ s' cap', Sds.run s calls = some s' ∧ Kept s' (calls.foldl (fun bytes (op, _) => op.apply bytes) bytes) cap' := by
  induction calls generalizing s bytes cap asked with
  | nil => exact ⟨s, cap, rfl, kept⟩
  | cons first calls ih =>
    obtain ⟨op, junk⟩ := first
    obtain ⟨here, later⟩ := allowed
    rw [sizes, List.map_cons, List.sum_cons, ← sizes, ← Nat.add_assoc] at fits
    have small := Nat.lt_of_add_right_lt fits
    obtain ⟨s', cap', returns, kept', bounded'⟩ := @Kept.call junk _ _ _ kept op asked bounded small here
    obtain ⟨s'', cap'', rest, kept''⟩ := ih kept' bounded' fits (later s' returns)
    exact ⟨s'', cap'', Option.bind_eq_some_iff.mpr ⟨s', returns, rest⟩, kept''⟩

/-- **Every run** that begins with `sdsnewlen` keeps the string exact for the bytes that the calls make, writes
inside of what is allocated only, and passes each `assert`. -/
theorem run_exact (junk : Nat → Byte) {init : Init} {calls : List (Op × (Nat → Byte))}
    (fits : init.initlen + sizes calls < 2 ^ 31)
    (allowed : ∀ s, Allocated.sdsnewlen junk init = some s → AllAllowed s calls) :
    ∃ s, (Allocated.sdsnewlen junk init >>= (run · calls)) = some s ∧
      s.Exact (calls.foldl (fun bytes (op, _) => op.apply bytes) init.content) := by
  obtain ⟨s, returns, kept⟩ := @kept_sdsnewlen junk init (by omega)
  obtain ⟨s', cap, rest, kept'⟩ := kept.run (Nat.le_of_eq init.length_content) fits (allowed s returns)
  refine ⟨s', ?_, kept'.exact⟩
  rw [returns]
  exact rest

/-- Three bytes and two more, the last of which is taken away again. -/
theorem run_exact_four :
    ∃ s, (Allocated.sdsnewlen (fun _ => 7) (.bytes [1, 2, 3]) >>=
        (run · [(.catlen [4], fun _ => 7), (.incrLen [5] 1, fun _ => 7), (.incrLen [] (-1), fun _ => 7)])) = some s ∧
      s.Exact [1, 2, 3, 4] := by
  apply run_exact (fun _ => 7) (by decide)
  intro s created
  cases created
  refine ⟨trivial, fun s returns => ?_⟩
  cases returns
  refine ⟨⟨by decide, by decide, by decide⟩, fun s returns => ?_⟩
  cases returns
  refine ⟨⟨by decide, by decide, by decide⟩, fun s returns => ?_⟩
  trivial

end CodeClips.Sds
