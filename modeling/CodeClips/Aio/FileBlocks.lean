import CodeClips.Lib.Buffer
import Mathlib.Data.List.Basic
import Mathlib.Algebra.Ring.Int.Defs
import Mathlib.Data.List.Infix

/-!
# A file read in asynchronous blocks

The server asks for all blocks of a file at once, the last block first, and builds the buffer
that it sends when the eventfd is first readable. It takes the blocks in the order in which
`io_getevents` returns them, each batch backwards, and closes the eventfd afterwards, so that
this first notification is the only one. `file_order_iff` says which completions make the
buffer the file. The calls that set up the reads succeed, and a read ends early only at the
end of the file.
-/

namespace CodeClips.Aio.FileBlocks

abbrev Byte := BitVec 8

def BUFFSIZE : Nat := 1024

/-- What an `int` holds of an unsigned value. -/
def int (n : Nat) : Int := (BitVec.ofNat 32 n).toInt

def total (st_size : Nat) : Int := int (st_size / BUFFSIZE + 1)

def filesize (st_size : Nat) : Int := int st_size

/-- `struct iocb` of a read; for `aio_buf` the bytes at that address. -/
structure Iocb where
  aio_buf : List Byte
  aio_nbytes : Nat
  aio_offset : Nat

/-- `io_submit_read` fills in `iocb[i]`; `buf i` is the memory `malloc` returns for it. -/
def io_submit_read (n iortx_size : Nat) (buf : Nat → List Byte) (i : Nat) : Iocb :=
  { aio_buf := buf i, aio_nbytes := iortx_size, aio_offset := (n - i - 1) * iortx_size }

/-- The read is done: what the file has there is at the start of the buffer. -/
def Iocb.done (file : List Byte) (cb : Iocb) : Iocb :=
  { cb with aio_buf := blit cb.aio_buf 0 (slice file cb.aio_offset cb.aio_nbytes) }

/-- The loop of `io_obt_filebuf`: `eval` completions are left to fetch, and `batches` are the
indices of the iocbs that the calls of `io_getevents` return. -/
def io_obt_filebuf (iocb : Nat → Iocb) : Nat → List (List Nat) → List (List Byte)
  | 0, _ => []
  | _ + 1, [] => []
  | eval + 1, events :: batches =>
    events.reverse.map (fun i => (iocb i).aio_buf) ++ io_obt_filebuf iocb (eval + 1 - events.length) batches

/-- The copies to `wbuf + i * BUFFSIZE` and on. -/
def copyBlocks (wbuf : List Byte) (i : Nat) : List (List Byte) → List Byte
  | [] => wbuf
  | buf :: bufs => copyBlocks (blit wbuf (i * BUFFSIZE) (buf.take BUFFSIZE)) (i + 1) bufs

/-- What one notification of the eventfd covers: the count it is read with, and the completed
reads as `io_getevents` returns them. -/
structure Completions (n : Nat) where
  eval : Nat
  batches : List (List Nat)
  submitted : ∀ events ∈ batches, ∀ i ∈ events, i < n
  once : batches.flatten.Nodup
  count : batches.flatten.length = eval

/-- The branch of the eventfd, up to its `send`; `wbuf` is the memory from `malloc`'s result on.
A negative size is none that `malloc` has memory for. -/
def onEventfd (st_size : Nat) (iocb : Nat → Iocb) {n : Nat} (c : Completions n) (wbuf : List Byte) :
    Option (List Byte) :=
  if filesize st_size < 0 then none
  else some ((copyBlocks wbuf 0 (io_obt_filebuf iocb c.eval c.batches)).take (filesize st_size).toNat)

/-- The buffer that is sent is the file, for every content of that size, whatever the memory
holds before. -/
def Completions.Delivers {st_size : Nat} (c : Completions (total st_size).toNat) : Prop :=
  ∀ (file wbuf : List Byte) (buf : Nat → List Byte), file.length = st_size →
    (filesize st_size).toNat ≤ wbuf.length → (∀ i, (buf i).length = BUFFSIZE) →
      onEventfd st_size (fun i => (io_submit_read (total st_size).toNat BUFFSIZE buf i).done file) c wbuf =
        some file

/-- The iocbs in the order in which their blocks are copied. -/
def Completions.order {n : Nat} (c : Completions n) : List Nat := c.batches.flatMap List.reverse

/-- How many blocks have bytes of the file. -/
def filled (st_size : Nat) : Nat := (st_size + (BUFFSIZE - 1)) / BUFFSIZE

/-! ## What is copied -/

section Copies
variable {file : List Byte} {buf : Nat → List Byte} {n : Nat}

/-- A block's bytes of the file, and behind them what the memory held. -/
theorem aio_buf_done (i : Nat) :
    ((io_submit_read n BUFFSIZE buf i).done file).aio_buf =
      slice file ((n - i - 1) * BUFFSIZE) BUFFSIZE ++
        (buf i).drop (slice file ((n - i - 1) * BUFFSIZE) BUFFSIZE).length := blit_zero _ _

theorem length_aio_buf_done (file : List Byte) (n : Nat) (memory : ∀ i, (buf i).length = BUFFSIZE) (i : Nat) :
    ((io_submit_read n BUFFSIZE buf i).done file).aio_buf.length = BUFFSIZE := by
  have bound := memory i
  rw [aio_buf_done, List.length_append, List.length_drop, slice_length, bound]
  omega

/-- The loop stores the batches one after another, each backwards. -/
theorem io_obt_filebuf_eq (iocb : Nat → Iocb) {eval : Nat} {batches : List (List Nat)}
    (count : batches.flatten.length = eval) :
    io_obt_filebuf iocb eval batches = (batches.flatMap List.reverse).map (fun i => (iocb i).aio_buf) := by
  induction batches generalizing eval with
  | nil => cases eval with
    | zero => rfl
    | succ eval => rfl
  | cons events batches ih =>
    rw [List.flatten_cons, List.length_append] at count
    cases eval with
    | zero =>
      have none : events = [] := List.length_eq_zero_iff.mp (by omega)
      have rest : io_obt_filebuf iocb 0 batches = _ := ih (by omega)
      rw [io_obt_filebuf] at rest
      rw [io_obt_filebuf, none, List.flatMap_cons, List.reverse_nil, List.nil_append, ← rest]
    | succ eval =>
      rw [io_obt_filebuf, List.flatMap_cons, List.map_append, ih (by omega)]

/-- Whole blocks are copied end to end. -/
theorem copyBlocks_append {bufs : List (List Byte)} (length : ∀ buf ∈ bufs, buf.length = BUFFSIZE)
    {front : List Byte} {i : Nat} (start : front.length = i * BUFFSIZE) (rest : List Byte) :
    copyBlocks (front ++ rest) i bufs = front ++ bufs.flatten ++ rest.drop bufs.flatten.length := by
  induction bufs generalizing front i rest with
  | nil => simp [copyBlocks]
  | cons buf bufs ih =>
    have here : buf.length = BUFFSIZE := length buf List.mem_cons_self
    have next : (front ++ buf).length = (i + 1) * BUFFSIZE := by
      rw [List.length_append, start, here, Nat.add_mul, Nat.one_mul]
    rw [copyBlocks, ← here, List.take_length, here, ← start, blit_append,
      ih (fun buf member => length buf (List.mem_cons_of_mem _ member)) next, List.drop_drop,
      List.flatten_cons, List.length_append]
    simp only [List.append_assoc]

/-- What is sent: the blocks in the order of their completions, cut to the size. -/
theorem onEventfd_done (memory : ∀ i, (buf i).length = BUFFSIZE) {st_size : Nat} (fits : 0 ≤ filesize st_size)
    (c : Completions n) (wbuf : List Byte) :
    let bufs := c.order.map (fun i => ((io_submit_read n BUFFSIZE buf i).done file).aio_buf)
    onEventfd st_size (fun i => (io_submit_read n BUFFSIZE buf i).done file) c wbuf =
      some ((bufs.flatten ++ wbuf.drop bufs.flatten.length).take (filesize st_size).toNat) := by
  intro bufs
  have whole : ∀ b ∈ bufs, b.length = BUFFSIZE := by
    intro b member
    obtain ⟨i, -, rfl⟩ := List.mem_map.mp member
    exact length_aio_buf_done file n memory i
  have copies : copyBlocks ([] ++ wbuf) 0 bufs = _ := copyBlocks_append whole (by simp) wbuf
  rw [onEventfd, if_neg (by omega), io_obt_filebuf_eq _ c.count]
  exact congrArg (fun sent => some (sent.take (filesize st_size).toNat)) copies

end Copies

/-! ## The sizes -/

theorem filesize_of_lt {st_size : Nat} (small : st_size < 2 ^ 31) : filesize st_size = st_size := by
  rw [filesize, int, BitVec.toInt_eq_toNat_of_lt (by rw [BitVec.toNat_ofNat]; omega), BitVec.toNat_ofNat,
    Nat.mod_eq_of_lt (by omega)]

theorem filesize_lt (st_size : Nat) : filesize st_size < 2 ^ 31 := BitVec.toInt_lt

theorem total_of_lt {st_size : Nat} (small : st_size < 2 ^ 31) :
    (total st_size).toNat = st_size / BUFFSIZE + 1 := by
  have count : st_size / BUFFSIZE + 1 < 2 ^ 31 := by
    simp only [BUFFSIZE]
    omega
  have value : total st_size = (st_size / BUFFSIZE + 1 : Nat) := filesize_of_lt count
  rw [value, Int.toNat_natCast]

theorem filled_le {st_size : Nat} (small : st_size < 2 ^ 31) : filled st_size ≤ (total st_size).toNat := by
  rw [total_of_lt small]
  simp only [filled, BUFFSIZE]
  omega

/-! ## Blocks in the order of the file -/

section Order
variable (file : List Byte) {buf : Nat → List Byte}

/-- The read submitted `k` places before the last is the one of block `k`. -/
theorem aio_buf_block {n k : Nat} (within : k < n) :
    ((io_submit_read n BUFFSIZE buf (n - 1 - k)).done file).aio_buf =
      slice file (BUFFSIZE * k) BUFFSIZE ++ (buf (n - 1 - k)).drop (slice file (BUFFSIZE * k) BUFFSIZE).length := by
  have place : (n - (n - 1 - k) - 1) * BUFFSIZE = BUFFSIZE * k := by
    rw [Nat.mul_comm]
    congr 1
    omega
  rw [aio_buf_done, place]

/-- The blocks that lie wholly in the file. -/
theorem flatten_whole (memory : ∀ i, (buf i).length = BUFFSIZE) {n m : Nat} (within : m ≤ n)
    (inside : BUFFSIZE * m ≤ file.length) :
    ((List.range m).map (fun k => ((io_submit_read n BUFFSIZE buf (n - 1 - k)).done file).aio_buf)).flatten ++
      file.drop (BUFFSIZE * m) = file := by
  have block : ∀ k ∈ List.range m, ((io_submit_read n BUFFSIZE buf (n - 1 - k)).done file).aio_buf =
      slice file (BUFFSIZE * k) BUFFSIZE := by
    intro k member
    have before : k < m := List.mem_range.mp member
    have room : BUFFSIZE * (k + 1) ≤ BUFFSIZE * m := Nat.mul_le_mul_left _ before
    have bound := memory (n - 1 - k)
    rw [Nat.mul_add, Nat.mul_one] at room
    rw [aio_buf_block _ (by omega), List.drop_of_length_le, List.append_nil]
    rw [slice_length]
    omega
  have rest : slice file (BUFFSIZE * m) (file.length - BUFFSIZE * m) = file.drop (BUFFSIZE * m) := by
    apply List.take_of_length_le
    rw [List.length_drop]
  have whole := slices_from file BUFFSIZE (file.length - BUFFSIZE * m) 0 m
      (by rw [Nat.zero_add]; omega)
  rw [Nat.zero_add, rest, Nat.mul_zero, List.drop_zero, ← List.range_eq_range'] at whole
  rw [List.map_congr_left block]
  exact whole

/-- The last block that has bytes of the file ends with what the memory held. -/
theorem flatten_filled (memory : ∀ i, (buf i).length = BUFFSIZE) {n : Nat} (within : filled file.length ≤ n) :
    ∃ junk, ((List.range (filled file.length)).map
      (fun k => ((io_submit_read n BUFFSIZE buf (n - 1 - k)).done file).aio_buf)).flatten = file ++ junk := by
  have extent := Nat.div_add_mod file.length BUFFSIZE
  have short : file.length % BUFFSIZE < BUFFSIZE := Nat.mod_lt _ (by decide)
  cases part : file.length % BUFFSIZE with
  | zero =>
    have count : filled file.length = file.length / BUFFSIZE := by
      simp only [filled, BUFFSIZE] at part ⊢
      omega
    have whole := flatten_whole file memory (count ▸ within) (by omega)
    rw [List.drop_of_length_le (by omega), List.append_nil] at whole
    exact ⟨[], by rw [count, whole, List.append_nil]⟩
  | succ r =>
    have count : filled file.length = file.length / BUFFSIZE + 1 := by
      simp only [filled, BUFFSIZE] at part ⊢
      omega
    have before : file.length / BUFFSIZE ≤ n := by omega
    have whole := flatten_whole file memory before (by omega)
    have last : slice file (BUFFSIZE * (file.length / BUFFSIZE)) BUFFSIZE =
        file.drop (BUFFSIZE * (file.length / BUFFSIZE)) := by
      apply List.take_of_length_le
      rw [List.length_drop]
      omega
    refine ⟨(buf (n - 1 - file.length / BUFFSIZE)).drop
      (slice file (BUFFSIZE * (file.length / BUFFSIZE)) BUFFSIZE).length, ?_⟩
    rw [count, List.range_succ, List.map_append, List.flatten_append, List.map_singleton, List.flatten_singleton,
      aio_buf_block _ (by omega), ← List.append_assoc]
    congr 1
    rw [last, whole]

end Order

section Schedule
variable {st_size : Nat} {c : Completions (total st_size).toNat}

/-- If the blocks of the file come first and in order, the file is sent. -/
theorem delivers_of_order (small : st_size < 2 ^ 31)
    (order : (List.range (filled st_size)).map ((total st_size).toNat - 1 - ·) <+: c.order) : c.Delivers := by
  intro file wbuf buf size _ memory
  obtain ⟨others, split⟩ := order
  have within := filled_le small
  rw [← size] at within
  obtain ⟨junk, blocks⟩ := flatten_filled file memory within
  rw [onEventfd_done memory (by rw [filesize_of_lt small]; omega), ← split, List.map_append, List.map_map,
    List.flatten_append, ← size]
  simp only [Function.comp_def]
  rw [blocks, filesize_of_lt (by omega), Int.toNat_natCast, List.append_assoc, List.append_assoc, List.take_left]

/-- A size that the server's `int` does not hold is not sent. -/
theorem Completions.Delivers.small (delivers : c.Delivers) : st_size < 2 ^ 31 := by
  have sent := delivers (List.replicate st_size 0) (List.replicate (filesize st_size).toNat 0)
    (fun _ => List.replicate BUFFSIZE 0) List.length_replicate (by rw [List.length_replicate])
    (fun _ => List.length_replicate)
  have most := filesize_lt st_size
  cases Int.lt_or_le (filesize st_size) 0 with
  | inl negative =>
    rw [onEventfd, if_pos negative] at sent
    cases sent
  | inr fits =>
    rw [onEventfd_done (fun _ => List.length_replicate) fits, Option.some.injEq] at sent
    have length := congrArg List.length sent
    rw [List.length_take, List.length_replicate] at length
    omega

theorem Completions.lt_of_mem_order {n i : Nat} {c : Completions n} (member : i ∈ c.order) : i < n := by
  obtain ⟨events, batch, listed⟩ := List.mem_flatMap.mp member
  exact c.submitted events batch i (List.mem_reverse.mp listed)

/-- The file that is zero but for the first byte of block `k`. -/
def marked (size k : Nat) : List Byte := (List.replicate size 0).set (BUFFSIZE * k) 1

theorem length_marked (size k : Nat) : (marked size k).length = size := by
  rw [marked, List.length_set, List.length_replicate]

theorem getElem?_marked {size k p : Nat} : (marked size k)[p]? = some 1 ↔ p < size ∧ p = BUFFSIZE * k := by
  rw [marked, List.getElem?_set, List.length_replicate, List.getElem?_replicate]
  grind -ring -linarith

/-- A block starts with the mark only if it is the marked one. -/
theorem first_marked {n size k i : Nat}
    (mark : ((io_submit_read n BUFFSIZE (fun _ => List.replicate BUFFSIZE 0) i).done (marked size k)).aio_buf[0]? =
      some 1) : n - i - 1 = k := by
  rw [aio_buf_done] at mark
  cases Nat.lt_or_ge ((n - i - 1) * BUFFSIZE) size with
  | inl inside =>
    rw [List.getElem?_append_left (by rw [slice_length, length_marked]; simp only [BUFFSIZE] at inside ⊢; omega), slice,
      List.getElem?_take_of_lt (by decide), List.getElem?_drop, Nat.add_zero] at mark
    have place := (getElem?_marked.mp mark).2
    rw [Nat.mul_comm] at place
    exact Nat.eq_of_mul_eq_mul_left (by decide) place
  | inr outside =>
    rw [slice, List.drop_of_length_le (by rw [length_marked]; exact outside), List.take_nil, List.nil_append,
      List.length_nil, List.drop_zero, List.getElem?_replicate] at mark
    simp at mark

/-- If the file is sent, the block copied to place `k` is block `k`. -/
theorem Completions.Delivers.getElem?_order (delivers : c.Delivers) {k : Nat} (used : k < filled st_size) :
    c.order[k]? = some ((total st_size).toNat - 1 - k) := by
  have small := delivers.small
  have place : BUFFSIZE * k < st_size := by
    simp only [filled, BUFFSIZE] at used ⊢
    omega
  have zeros : ∀ i, ((fun _ : Nat => List.replicate BUFFSIZE (0 : Byte)) i).length = BUFFSIZE :=
    fun _ => List.length_replicate
  have sent := delivers (marked st_size k) (List.replicate (filesize st_size).toNat 0) _ (length_marked st_size k)
    (by rw [List.length_replicate]) zeros
  rw [onEventfd_done zeros (by rw [filesize_of_lt small]; omega), Option.some.injEq, filesize_of_lt small,
    Int.toNat_natCast] at sent
  have mark : (marked st_size k)[BUFFSIZE * k]? = some 1 := getElem?_marked.mpr ⟨place, rfl⟩
  rw [← sent, List.getElem?_take_of_lt place] at mark
  have whole : ∀ b ∈ c.order.map (fun i => ((io_submit_read (total st_size).toNat BUFFSIZE
      (fun _ => List.replicate BUFFSIZE 0) i).done (marked st_size k)).aio_buf), b.length = BUFFSIZE := by
    intro b member
    obtain ⟨i, -, rfl⟩ := List.mem_map.mp member
    exact length_aio_buf_done _ _ zeros i
  have start := getElem?_flatten_of_length (by decide) whole k
  rw [List.getElem?_map] at start
  cases copied : c.order[k]? with
  | none =>
    -- nothing is copied to place `k`, and the byte there is the memory's
    rw [copied, Option.map_none, Option.bind_none] at start
    rw [List.getElem?_append_right (List.getElem?_eq_none_iff.mp start), List.getElem?_drop,
      List.getElem?_replicate] at mark
    simp at mark
  | some i =>
    rw [copied, Option.map_some, Option.bind_some] at start
    have block := length_aio_buf_done (marked st_size k) (total st_size).toNat zeros i
    have head := List.getElem?_eq_getElem (Nat.lt_of_lt_of_eq (by decide : 0 < BUFFSIZE) block.symm)
    obtain ⟨stored, -⟩ := List.getElem?_eq_some_iff.mp (start.trans head)
    rw [List.getElem?_append_left stored, start] at mark
    have number := first_marked mark
    have listed : i < (total st_size).toNat := c.lt_of_mem_order (List.mem_of_getElem? copied)
    congr 1
    omega

/-- The buffer that is sent is the file, for every content of that size, exactly when an `int`
holds the size and the blocks of the file are the first that are copied, in order. -/
theorem file_order_iff (st_size : Nat) (c : Completions (total st_size).toNat) :
    c.Delivers ↔
      st_size < 2 ^ 31 ∧ (List.range (filled st_size)).map ((total st_size).toNat - 1 - ·) <+: c.order := by
  constructor
  · intro delivers
    refine ⟨delivers.small, List.prefix_iff_getElem?.mpr ?_⟩
    intro k used
    rw [List.length_map, List.length_range] at used
    rw [delivers.getElem?_order used, List.getElem_map, List.getElem_range]
  · intro ⟨small, order⟩
    exact delivers_of_order small order

/-- Two blocks are asked for, and their reads are returned one by one. -/
def oneByOne : Completions (total 1024).toNat :=
  { eval := 2, batches := [[0], [1]], submitted := by decide, once := by decide, count := rfl }

/-- The empty block at the end of the file is copied to the start of the buffer. -/
theorem second_block_first : ¬ oneByOne.Delivers := by
  intro delivers
  have first := delivers.getElem?_order (k := 0) (by decide)
  cases first

/-- When all reads are done, the last block is copied past the end of the buffer. -/
theorem copies_overrun (small : st_size < 2 ^ 31) (all : c.eval = (total st_size).toNat) (iocb : Nat → Iocb) :
    filesize st_size < ((io_obt_filebuf iocb c.eval c.batches).length * BUFFSIZE : Nat) := by
  have reversed : (c.batches.flatMap List.reverse).length = c.eval := by
    rw [← c.count, List.length_flatMap, List.length_flatten]
    simp only [List.length_reverse]
  have blocks := Nat.lt_mul_div_succ st_size (by decide : 0 < BUFFSIZE)
  rw [io_obt_filebuf_eq iocb c.count, List.length_map, reversed, all, total_of_lt small, filesize_of_lt small,
    Nat.mul_comm]
  exact_mod_cast blocks

end Schedule

end CodeClips.Aio.FileBlocks
