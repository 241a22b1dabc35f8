import CodeClips.Lib.Bits
import CodeClips.Lib.Extents
import CodeClips.Lib.Outcome
import CodeClips.Lib.Transition

/-!
# The accounting of `zmalloc`

Without a `malloc_size` function a block begins with the number of bytes its owner has asked for, and
`used_memory` counts the blocks with this prefix, rounded up to whole `long`s. The C library is what
grants a block, and `Grants` is what its documentation says of it; where it refuses one, the program is
over. `zrealloc` counts without the prefix on both sides, which comes to the same as a `zfree` and a
`zmalloc` (`zrealloc_eq`).
-/

namespace CodeClips.Zmalloc

/-- `sizeof(size_t)`. -/
def PREFIX_SIZE : BitVec 64 := 8

def sizeofLong : BitVec 64 := 8

/-- What the C library has given out, and the `size_t` at its beginning. -/
structure Block extends Extent where
  size : BitVec 64

structure Memory where
  used_memory : BitVec 64
  blocks : List Block

/-- Out of memory, or a block that is none or too small. -/
inductive Halt where
  | oom
  | undefined

/-- `_n` in the two macros. -/
def rounded (n : BitVec 64) : BitVec 64 :=
  if n &&& (sizeofLong - 1) ≠ 0 then n + (sizeofLong - (n &&& (sizeofLong - 1))) else n

def update_zmalloc_stat_alloc (m : Memory) (n : BitVec 64) : Memory :=
  { m with used_memory := m.used_memory + rounded n }

def update_zmalloc_stat_free (m : Memory) (n : BitVec 64) : Memory :=
  { m with used_memory := m.used_memory - rounded n }

/-- A block of `n` bytes at `ptr`, and `*((size_t*)ptr) = size`. -/
def Memory.store (m : Memory) (ptr : Nat) (n size : BitVec 64) : Except Halt Memory :=
  if PREFIX_SIZE ≤ n then .ok { m with blocks := { start := ptr, bytes := n.toNat, size := size } :: m.blocks }
  else .error .undefined

/-- `*((size_t*)realptr)`. -/
def Memory.load (m : Memory) (realptr : Nat) : Except Halt (BitVec 64) :=
  match m.blocks.find? fun b => b.start = realptr with
  | some b => .ok b.size
  | none => .error .undefined

def Memory.free (m : Memory) (realptr : Nat) : Memory :=
  { m with blocks := m.blocks.eraseP fun b => b.start = realptr }

/-- `zmalloc`; `malloc` is where the block is. -/
def zmalloc (m : Memory) (size : BitVec 64) (malloc : Option Nat) : Except Halt Memory :=
  match malloc with
  | none => .error .oom
  | some ptr => do
    let m ← m.store ptr (size + PREFIX_SIZE) size
    return update_zmalloc_stat_alloc m (size + PREFIX_SIZE)

/-- The bytes that `calloc` clears are not looked at. -/
def zcalloc (m : Memory) (size : BitVec 64) (calloc : Option Nat) : Except Halt Memory :=
  zmalloc m size calloc

def zrealloc (m : Memory) (ptr : Option Nat) (size : BitVec 64) (realloc : Option Nat) : Except Halt Memory :=
  match ptr with
  | none => zmalloc m size realloc
  | some ptr => do
    let realptr := ptr - PREFIX_SIZE.toNat
    let oldsize ← m.load realptr
    match realloc with
    | none => .error .oom
    | some newptr =>
      let m ← (m.free realptr).store newptr (size + PREFIX_SIZE) size
      let m := update_zmalloc_stat_free m oldsize
      return update_zmalloc_stat_alloc m size

def zfree (m : Memory) (ptr : Option Nat) : Except Halt Memory :=
  match ptr with
  | none => .ok m
  | some ptr => do
    let realptr := ptr - PREFIX_SIZE.toNat
    let oldsize ← m.load realptr
    let m := update_zmalloc_stat_free m (oldsize + PREFIX_SIZE)
    return m.free realptr

/-! ## Calls -/

/-- A call with the pointer it is given and what the C library answers. -/
inductive Call where
  | zmalloc (size : BitVec 64) (malloc : Option Nat)
  | zcalloc (size : BitVec 64) (calloc : Option Nat)
  | zrealloc (ptr : Option Nat) (size : BitVec 64) (realloc : Option Nat)
  | zfree (ptr : Option Nat)

def Memory.call (m : Memory) : Call → Except Halt Memory
  | .zmalloc size malloc => Zmalloc.zmalloc m size malloc
  | .zcalloc size calloc => Zmalloc.zcalloc m size calloc
  | .zrealloc ptr size realloc => Zmalloc.zrealloc m ptr size realloc
  | .zfree ptr => Zmalloc.zfree m ptr

/-- A block as its owner knows it, and where it really begins. -/
structure Live where
  realptr : Nat
  size : BitVec 64

def Live.ptr (l : Live) : Nat := l.realptr + PREFIX_SIZE.toNat

/-- What it counts for. -/
def Live.counted (l : Live) : Nat := roundUp sizeofLong.toNat (l.size.toNat + PREFIX_SIZE.toNat)

/-- The blocks that are left without the one at a pointer. -/
def without (ptr : Option Nat) (live : List Live) : List Live :=
  match ptr with
  | none => live
  | some ptr => live.eraseP fun l => l.ptr = ptr

def Call.live (live : List Live) : Call → List Live
  | .zmalloc size malloc => (malloc.map ({ realptr := ·, size := size })).toList ++ live
  | .zcalloc size calloc => (calloc.map ({ realptr := ·, size := size })).toList ++ live
  | .zrealloc ptr size realloc => (realloc.map ({ realptr := ·, size := size })).toList ++ without ptr live
  | .zfree ptr => without ptr live

structure State where
  mem : Memory
  live : List Live

/-- What is granted is a place in memory of its own, aligned for every type. -/
def Grants (blocks : List Block) (n : BitVec 64) (ptr : Nat) : Prop :=
  ptr ≠ 0 ∧ 8 ∣ ptr ∧ ptr + n.toNat ≤ 2 ^ 64 ∧
    ∀ b ∈ blocks, Extent.Apart { start := ptr, bytes := n.toNat } b.toExtent

/-- A pointer is null or to a live block. -/
def State.Owns (s : State) (ptr : Option Nat) : Prop := ∀ p ∈ ptr, ∃ l ∈ s.live, l.ptr = p

/-- What may be called in a state, and what may be answered. -/
def Call.Allowed (s : State) : Call → Prop
  | .zmalloc size malloc => ∀ p ∈ malloc, Grants s.mem.blocks (size + PREFIX_SIZE) p
  | .zcalloc size calloc => ∀ p ∈ calloc, Grants s.mem.blocks (size + PREFIX_SIZE) p
  | .zrealloc none size realloc => ∀ p ∈ realloc, Grants s.mem.blocks (size + PREFIX_SIZE) p
  | .zrealloc (some ptr) size realloc =>
    s.Owns (some ptr) ∧ ∀ p ∈ realloc, Grants (s.mem.free (ptr - PREFIX_SIZE.toNat)).blocks (size + PREFIX_SIZE) p
  | .zfree ptr => s.Owns ptr

/-- There is no state behind a call that is refused its memory; `none` is behind one that is undefined. -/
def Leads (result : Except Halt Memory) (live : List Live) (s' : Option State) : Prop :=
  match result with
  | .ok m => s' = some { mem := m, live := live }
  | .error .oom => False
  | .error .undefined => s' = none

/-- One call. -/
def Step (s : Option State) (c : Call) (s' : Option State) : Prop :=
  ∃ t, s = some t ∧ c.Allowed t ∧ Leads (t.mem.call c) (c.live t.live) s'

def start : State := { mem := { used_memory := 0, blocks := [] }, live := [] }

/-- `used_memory` is the sum over the live blocks, and 0 if there are none. -/
def State.Accounted (s : State) : Prop :=
  s.mem.used_memory.toNat = (s.live.map Live.counted).sum ∧ (s.live = [] → s.mem.used_memory = 0)

/-- Nothing undefined has been done, and the memory is accounted for. -/
def Good (s : Option State) : Prop := ∃ t, s = some t ∧ t.Accounted

/-- The size that is asked for, where it is granted. -/
def Call.granted : Call → Option (BitVec 64)
  | .zmalloc size malloc => malloc.map fun _ => size
  | .zcalloc size calloc => calloc.map fun _ => size
  | .zrealloc _ size realloc => realloc.map fun _ => size
  | .zfree _ => none

/-- The size with the prefix is one of a `size_t`. -/
def Fits (_ : Option State) (c : Call) : Prop := ∀ size ∈ c.granted, size.toNat + PREFIX_SIZE.toNat < 2 ^ 64

/-! ## Rounding -/

theorem rounded_eq (n : BitVec 64) : rounded n = BitVec.ofNat 64 (roundUp 8 n.toNat) := by
  have rest : (n &&& (sizeofLong - 1)).toNat = n.toNat % 8 := toNat_and_mask n 3 rfl
  have unit : sizeofLong.toNat = 8 := rfl
  have small := n.isLt
  apply BitVec.eq_of_toNat_eq
  rw [rounded, roundUp, BitVec.toNat_ofNat]
  split_ifs with some
  · have positive : n.toNat % 8 ≠ 0 := fun zero => some (BitVec.eq_of_toNat_eq (rest.trans zero))
    rw [BitVec.toNat_add, BitVec.toNat_sub, rest, unit]
    omega
  · have none : n.toNat % 8 = 0 := by
      rw [← rest, not_not.mp some]
      rfl
    omega

/-- The prefix is a whole `long`. -/
theorem rounded_request_eq (n : BitVec 64) : rounded (n + PREFIX_SIZE) = rounded n + PREFIX_SIZE := by
  have small := n.isLt
  have unit : PREFIX_SIZE.toNat = 8 := rfl
  rw [rounded_eq, rounded_eq]
  apply BitVec.eq_of_toNat_eq
  rw [roundUp, roundUp, BitVec.toNat_ofNat, BitVec.toNat_add, BitVec.toNat_add, BitVec.toNat_ofNat, unit]
  omega
/-- A `zrealloc` is a `zfree` and a `zmalloc`. -/
theorem zrealloc_eq (m : Memory) (ptr p : Nat) (size : BitVec 64) :
    zrealloc m (some ptr) size (some p) = zfree m (some ptr) >>= fun m => zmalloc m size (some p) := by
  have same (used oldsize : BitVec 64) :
      used - rounded (oldsize + PREFIX_SIZE) + rounded (size + PREFIX_SIZE) = used - rounded oldsize + rounded size := by
    rw [rounded_request_eq, rounded_request_eq]
    generalize rounded oldsize = old, rounded size = new, PREFIX_SIZE = prefixed
    bv_omega
  rw [zrealloc, zfree]
  cases m.load (ptr - PREFIX_SIZE.toNat) with
  | error e => rfl
  | ok oldsize =>
    simp only [zmalloc, Memory.store, Memory.free, update_zmalloc_stat_free, update_zmalloc_stat_alloc, bind, Except.bind,
      pure, Except.pure]
    split_ifs with large
    · simp only [same]
    · rfl

/-! ## The blocks that are live -/

def Live.extent (l : Live) : Extent := { start := l.realptr, bytes := l.size.toNat + PREFIX_SIZE.toNat }

def Live.block (l : Live) : Block := { l.extent with size := l.size }

/-- The blocks of the memory are the live ones, each with its size and its own place. -/
structure State.Kept (t : State) : Prop where
  blocks : t.mem.blocks = t.live.map Live.block
  apart : (t.live.map Live.extent).Pairwise Extent.Apart
  inside : ∀ l ∈ t.live, l.extent.Within 8 (2 ^ 64)
  aligned : ∀ l ∈ t.live, 8 ∣ l.realptr
  used : t.mem.used_memory = BitVec.ofNat 64 (t.live.map Live.counted).sum

variable {t : State} {p : Nat} {size : BitVec 64} {c : Call} {s' : Option State}

theorem kept_start : start.Kept :=
  ⟨rfl, .nil, List.forall_mem_nil _, List.forall_mem_nil _, rfl⟩

/-- Memory has room for what is counted. -/
theorem State.Kept.accounted (kept : t.Kept) : t.Accounted := by
  have few := @Extent.sum_roundUp_le (t.live.map Live.extent) 8 (2 ^ 64) 8 kept.apart
    (List.forall_mem_map.mpr kept.inside) (List.forall_mem_map.mpr kept.aligned) (by decide)
  rw [List.map_map] at few
  have sum : t.mem.used_memory.toNat = (t.live.map Live.counted).sum := by
    rw [kept.used, BitVec.toNat_ofNat]
    apply Nat.mod_eq_of_lt
    exact Nat.lt_of_le_of_lt few (by decide)
  refine ⟨sum, fun none => ?_⟩
  rw [none] at sum
  exact BitVec.eq_of_toNat_eq sum

theorem toNat_request (fits : size.toNat + PREFIX_SIZE.toNat < 2 ^ 64) :
    (size + PREFIX_SIZE).toNat = size.toNat + PREFIX_SIZE.toNat := by
  rw [BitVec.toNat_add, Nat.mod_eq_of_lt fits]

/-- What the macros add for a block. -/
theorem Live.rounded_request {l : Live} (fits : l.size.toNat + PREFIX_SIZE.toNat < 2 ^ 64) :
    rounded (l.size + PREFIX_SIZE) = BitVec.ofNat 64 l.counted := by
  rw [rounded_eq, toNat_request fits, counted]
  rfl

theorem zmalloc_some (m : Memory) (large : PREFIX_SIZE ≤ size + PREFIX_SIZE) :
    zmalloc m size (some p) = .ok
      { used_memory := m.used_memory + rounded (size + PREFIX_SIZE)
        blocks := { start := p, bytes := (size + PREFIX_SIZE).toNat, size := size } :: m.blocks } := by
  rw [zmalloc, Memory.store, if_pos large]
  rfl

/-- A block is added. -/
theorem State.Kept.zmalloc (kept : t.Kept) (grants : Grants t.mem.blocks (size + PREFIX_SIZE) p)
    (fits : size.toNat + PREFIX_SIZE.toNat < 2 ^ 64) :
    ∃ m, Zmalloc.zmalloc t.mem size (some p) = .ok m ∧
      Kept { mem := m, live := { realptr := p, size := size } :: t.live } := by
  obtain ⟨some, aligned, inside, apart⟩ := grants
  rw [toNat_request fits] at inside apart
  have large : PREFIX_SIZE ≤ size + PREFIX_SIZE := by
    rw [BitVec.le_def, toNat_request fits]
    exact Nat.le_add_left _ _
  have counted := @Live.rounded_request { realptr := p, size := size } fits
  refine ⟨_, zmalloc_some t.mem large, ⟨?_, ?_, ?_, ?_, ?_⟩⟩
  · rw [kept.blocks, toNat_request fits, List.map_cons]
    rfl
  · refine List.pairwise_cons.mpr ⟨List.forall_mem_map.mpr fun l member => ?_, kept.apart⟩
    rw [kept.blocks] at apart
    exact apart l.block (List.mem_map_of_mem member)
  · refine List.forall_mem_cons.mpr ⟨⟨?_, inside⟩, kept.inside⟩
    exact Nat.le_of_dvd (Nat.pos_of_ne_zero some) aligned
  · exact List.forall_mem_cons.mpr ⟨aligned, kept.aligned⟩
  · rw [kept.used, counted, List.map_cons, List.sum_cons, BitVec.ofNat_add, BitVec.add_comm]

theorem State.Kept.fits (kept : t.Kept) {l : Live} (member : l ∈ t.live) :
    l.size.toNat + PREFIX_SIZE.toNat < 2 ^ 64 := by
  obtain ⟨low, high⟩ := kept.inside l member
  have positive : 0 < l.realptr := Nat.lt_of_lt_of_le (by decide) low
  exact Nat.lt_of_lt_of_le (Nat.lt_add_of_pos_left positive) high

/-- The block at a pointer. -/
theorem Live.block_start_iff (l l' : Live) : l.block.start = l'.ptr - PREFIX_SIZE.toNat ↔ l.ptr = l'.ptr := by
  rw [ptr, ptr, Nat.add_sub_cancel, Nat.add_right_cancel_iff]
  rfl

/-- A block is taken away. -/
theorem State.Kept.zfree (kept : t.Kept) (owns : t.Owns (some p)) :
    ∃ m, Zmalloc.zfree t.mem (some p) = .ok m ∧ m.blocks = (t.mem.free (p - PREFIX_SIZE.toNat)).blocks ∧
      Kept { mem := m, live := without (some p) t.live } := by
  obtain ⟨l', member, rfl⟩ := owns p rfl
  obtain ⟨l, front, back, others, same, split, left⟩ :=
    @List.exists_of_eraseP _ (fun l : Live => l.ptr = l'.ptr) _ _ member (decide_eq_true rfl)
  have inside : l ∈ t.live := split ▸ List.mem_append_right front List.mem_cons_self
  have places : (fun b : Block => decide (b.start = l'.ptr - PREFIX_SIZE.toNat)) ∘ Live.block =
      fun l => decide (l.ptr = l'.ptr) := funext fun l => decide_eq_decide.mpr (l.block_start_iff l')
  have first : t.live.find? (fun l => l.ptr = l'.ptr) = some l := by
    rw [split, List.find?_append, List.find?_eq_none.mpr others, Option.none_or]
    exact List.find?_cons_of_pos same
  have loaded : t.mem.load (l'.ptr - PREFIX_SIZE.toNat) = .ok l.size := by
    rw [Memory.load, kept.blocks, List.find?_map, places, first]
    rfl
  have smaller : (t.live.eraseP fun l => l.ptr = l'.ptr).Sublist t.live := List.eraseP_sublist
  refine ⟨{ t.mem.free (l'.ptr - PREFIX_SIZE.toNat) with
      used_memory := t.mem.used_memory - rounded (l.size + PREFIX_SIZE) }, ?_, rfl, ⟨?_, ?_, ?_, ?_, ?_⟩⟩
  · rw [Zmalloc.zfree, loaded]
    rfl
  · show (t.mem.free _).blocks = _
    rw [Memory.free, kept.blocks, List.eraseP_map, places]
    rfl
  · exact kept.apart.sublist (smaller.map Live.extent)
  · exact fun l member => kept.inside l (smaller.subset member)
  · exact fun l member => kept.aligned l (smaller.subset member)
  · rw [kept.used, Live.rounded_request (kept.fits inside), split, without, ← split, left]
    simp only [split, List.map_append, List.map_cons, List.sum_append, List.sum_cons, BitVec.ofNat_add]
    generalize BitVec.ofNat 64 (front.map Live.counted).sum = before, BitVec.ofNat 64 l.counted = own,
      BitVec.ofNat 64 (back.map Live.counted).sum = behind
    bv_omega

/-! ## Runs -/

theorem zmalloc_wrapped (m : Memory) (wraps : ¬ size.toNat + PREFIX_SIZE.toNat < 2 ^ 64) :
    zmalloc m size (some p) = .error .undefined := by
  have small : ¬ PREFIX_SIZE ≤ size + PREFIX_SIZE := by
    have bound := size.isLt
    have unit : PREFIX_SIZE.toNat = 8 := rfl
    rw [BitVec.le_def, BitVec.toNat_add]
    omega
  rw [zmalloc, Memory.store, if_neg small]
  rfl

theorem zmalloc_exact (kept : t.Kept) (grants : Grants t.mem.blocks (size + PREFIX_SIZE) p)
    (leads : Leads (zmalloc t.mem size (some p)) ({ realptr := p, size := size } :: t.live) s') :
    (Good s' ↔ size.toNat + PREFIX_SIZE.toNat < 2 ^ 64) ∧ ∀ t', s' = some t' → t'.Kept := by
  by_cases fits : size.toNat + PREFIX_SIZE.toNat < 2 ^ 64
  · obtain ⟨m, run, kept'⟩ := kept.zmalloc grants fits
    rw [run] at leads
    obtain rfl : s' = _ := leads
    refine ⟨iff_of_true ⟨_, rfl, kept'.accounted⟩ fits, fun t' same => ?_⟩
    exact Option.some.inj same ▸ kept'
  · rw [zmalloc_wrapped t.mem fits] at leads
    obtain rfl : s' = none := leads
    refine ⟨iff_of_false ?_ fits, fun t' same => nomatch same⟩
    rintro ⟨t', same, -⟩
    cases same

/-- A request that is answered. -/
theorem answer_exact {answer : Option Nat} (kept : t.Kept)
    (grants : ∀ p ∈ answer, Grants t.mem.blocks (size + PREFIX_SIZE) p)
    (leads : Leads (zmalloc t.mem size answer) ((answer.map ({ realptr := ·, size := size })).toList ++ t.live) s') :
    (Good s' ↔ ∀ n ∈ answer.map fun _ => size, n.toNat + PREFIX_SIZE.toNat < 2 ^ 64) ∧ ∀ t', s' = some t' → t'.Kept := by
  cases answer with
  | none => exact leads.elim
  | some p =>
    obtain ⟨good, kept'⟩ := zmalloc_exact kept (grants p rfl) leads
    refine ⟨good.trans ⟨?_, fun all => all size rfl⟩, kept'⟩
    rintro fits _ ⟨⟩
    exact fits

/-- Where nothing is asked for, or nothing is granted, only a state that is kept is led to. -/
theorem kept_exact {m : Memory} {live : List Live} (kept : State.Kept { mem := m, live := live })
    (leads : Leads (.ok m) live s') : Good s' ∧ ∀ t', s' = some t' → t'.Kept := by
  obtain rfl : s' = _ := leads
  refine ⟨⟨_, rfl, kept.accounted⟩, fun t' same => ?_⟩
  exact Option.some.inj same ▸ kept

/-- **One call** leads to an accounted state exactly if what is granted fits. -/
theorem step_exact (kept : t.Kept) (step : Step (some t) c s') :
    (Good s' ↔ Fits (some t) c) ∧ ∀ t', s' = some t' → t'.Kept := by
  obtain ⟨t', same, allowed, leads⟩ := step
  obtain rfl := Option.some.inj same
  cases c with
  | zmalloc size malloc => exact answer_exact kept allowed leads
  | zcalloc size calloc => exact answer_exact kept allowed leads
  | zrealloc ptr size realloc =>
    cases ptr with
    | none => exact answer_exact kept allowed leads
    | some ptr =>
      obtain ⟨owns, grants⟩ := allowed
      obtain ⟨m, freed, blocks, kept'⟩ := kept.zfree owns
      cases realloc with
      | none =>
        obtain ⟨oldsize, loaded, -⟩ := bind_eq_ok freed
        rw [Memory.call, zrealloc, loaded] at leads
        exact leads.elim
      | some newptr =>
        rw [Memory.call, zrealloc_eq, freed] at leads
        rw [← blocks] at grants
        exact @answer_exact _ size s' (some newptr) kept' grants leads
  | zfree ptr =>
    have nothing : Fits (some t) (.zfree ptr) := fun _ none => nomatch none
    rw [iff_true_right nothing]
    cases ptr with
    | none => exact kept_exact kept leads
    | some ptr =>
      obtain ⟨m, freed, -, kept'⟩ := kept.zfree allowed
      rw [Memory.call, freed] at leads
      exact kept_exact kept' leads

/-- In a run on live blocks `used_memory` is the sum over them in every state, and nothing undefined is
done, if and only if no granted size overflows a `size_t` with its prefix. -/
theorem used_memory_iff (calls : List Call) :
    Always Step Good (some start) calls ↔ StepsMeet Step Fits (some start) calls := by
  apply always_iff_stepsMeet (J := fun s => ∀ t, s = some t → t.Kept)
  · rintro _ c s' kept ⟨t, rfl, -⟩ step
    exact (step_exact (kept t rfl) step).2
  · rintro _ c s' kept ⟨t, rfl, -⟩ step
    exact (step_exact (kept t rfl) step).1
  · rintro t ⟨⟩
    exact kept_start
  · exact ⟨start, rfl, kept_start.accounted⟩

/-- Seven bytes are granted where `SIZE_MAX` are asked for, and the size does not fit in. -/
theorem zmalloc_wraps :
    Call.Allowed start (.zmalloc (-1) (some 16)) ∧ zmalloc start.mem (-1) (some 16) = .error .undefined ∧
      ¬ Always Step Good (some start) [.zmalloc (-1) (some 16)] := by
  have allowed : Call.Allowed start (.zmalloc (-1) (some 16)) := by
    rintro _ ⟨⟩
    exact ⟨by decide, by decide, by decide, List.forall_mem_nil _⟩
  refine ⟨allowed, rfl, ?_⟩
  rintro ⟨-, good⟩
  obtain ⟨t, same, -⟩ := good none ⟨start, rfl, allowed, rfl⟩
  cases same

end CodeClips.Zmalloc
