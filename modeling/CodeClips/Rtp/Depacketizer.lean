import CodeClips.Rtp.Header
import Mathlib.Data.List.GetD

/-!
# The depacketiser: `decode_rtp2h264`

The receivers `test_decode_rtp2h264.c` (UDP) and `test_tcp_recv_nal.c` (TCP) share this
function. It is a list of writes to the file (`FileOp`), since what it does with a
length it never checks is a question about the calls of `fwrite` it makes: a count
below zero is converted to `size_t` and reads far past the buffer, which
`FileOp.apply` reports as `none`.

`recv_fun` keeps one buffer over all its `recv` calls, so a short chunk leaves old bytes
behind it. `recv_fun_eq` says that these never reach the file: the output is a function
of the chunks alone (`chunksOutput`).
-/

namespace CodeClips.Rtp

/-- A call of `fputc`, or of `fwrite(&rtp_buf[off], 1, count, savefp)`. -/
inductive FileOp where
  | fputc (c : Byte)
  | fwrite (off : Nat) (count : Int)
deriving DecidableEq, Repr

/-- What a call appends to the file; `none` when it reads outside `rtp_buf`. -/
def FileOp.apply (rtp_buf : List Byte) : FileOp → Option (List Byte)
  | .fputc c => some [c]
  | .fwrite off count =>
    if 0 ≤ count ∧ off + count ≤ rtp_buf.length then some (slice rtp_buf off count.toNat) else none

/-- The NAL header byte put together from three fields. -/
def h264_nal_header (type : BitVec 5) (nri : BitVec 2) (f : BitVec 1) : Byte :=
  (type.setWidth 8 &&& 0x1f#8) ||| (nri.setWidth 8 <<< 5) ||| (f.setWidth 8 <<< 7)

/-- The start code the receiver writes before a NAL. -/
def startCodeOps : List FileOp := [.fputc 0, .fputc 0, .fputc 0, .fputc 1]

/-- `decode_rtp2h264(rtp_buf, len, savefp)`. -/
def decode_rtp2h264 (rtp_buf : List Byte) (len : Int) : List FileOp :=
  let nalu_header := nalu_header_t.ofByte (rtp_buf.getD 12 0)
  if nalu_header.type = 28 then
    let fu_header := fu_header_t.ofByte (rtp_buf.getD 13 0)
    if fu_header.e = 1 then
      [.fwrite 14 (len - 14)]
    else if fu_header.s = 1 then
      startCodeOps ++
        [.fputc (h264_nal_header fu_header.type nalu_header.nri nalu_header.f), .fwrite 14 (len - 14)]
    else
      [.fwrite 14 (len - 14)]
  else
    startCodeOps ++
      [.fputc (h264_nal_header nalu_header.type nalu_header.nri nalu_header.f), .fwrite 13 (len - 13)]

/-- What a list of calls appends to the file. -/
def applyOps (rtp_buf : List Byte) : List FileOp → Option (List Byte)
  | [] => some []
  | op :: ops => do
    let bytes ← op.apply rtp_buf
    let rest ← applyOps rtp_buf ops
    some (bytes ++ rest)

/-- The receive loop: each chunk `recv` returns is copied to the start of `recv_buf` and
decoded with its own length. -/
def recv_fun (recv_buf : List Byte) : List (List Byte) → Option (List Byte)
  | [] => some []
  | chunk :: chunks => do
    let recv_buf := blit recv_buf 0 chunk
    let bytes ← applyOps recv_buf (decode_rtp2h264 recv_buf chunk.length)
    let rest ← recv_fun recv_buf chunks
    some (bytes ++ rest)

/-! ## The output as a function of the chunks -/

def startCode : List Byte := [0, 0, 0, 1]

/-- What one chunk appends to the file. -/
def chunkOutput (chunk : List Byte) : Option (List Byte) :=
  let nalu_header := nalu_header_t.ofByte (chunk.getD 12 0)
  let fu_header := fu_header_t.ofByte (chunk.getD 13 0)
  if chunk.length < 13 then none
  else if nalu_header.type = 28 then
    if chunk.length < 14 then none
    else if fu_header.e = 1 then some (chunk.drop 14)
    else if fu_header.s = 1 then
      some (startCode ++ h264_nal_header fu_header.type nalu_header.nri nalu_header.f :: chunk.drop 14)
    else some (chunk.drop 14)
  else some (startCode ++ h264_nal_header nalu_header.type nalu_header.nri nalu_header.f :: chunk.drop 13)

/-- What a list of chunks appends to the file. -/
def chunksOutput : List (List Byte) → Option (List Byte)
  | [] => some []
  | chunk :: chunks => do
    let bytes ← chunkOutput chunk
    let rest ← chunksOutput chunks
    some (bytes ++ rest)

@[simp] theorem applyOps_fputc (buf : List Byte) (c : Byte) (ops : List FileOp) :
    applyOps buf (.fputc c :: ops) = (applyOps buf ops).map (c :: ·) := by
  cases h : applyOps buf ops <;> simp [applyOps, FileOp.apply, h]

/-- An `fwrite` of a count below zero is out of bounds. -/
theorem applyOps_negative (buf : List Byte) (off : Nat) {count : Int} (negative : count < 0) :
    applyOps buf [.fwrite off count] = none := by
  have out : ¬ (0 ≤ count ∧ off + count ≤ buf.length) := by omega
  simp [applyOps, FileOp.apply, out]

/-- An `fwrite` from `off` to the end of the chunk. -/
theorem applyOps_tail (chunk junk : List Byte) {off : Nat} (bound : off ≤ chunk.length) :
    applyOps (chunk ++ junk) [.fwrite off (chunk.length - off)] = some (chunk.drop off) := by
  have inside : 0 ≤ (chunk.length : Int) - off ∧
      (off : Int) + (chunk.length - off) ≤ (chunk ++ junk).length := by
    rw [List.length_append]
    omega
  have count : ((chunk.length : Int) - off).toNat = (chunk.drop off).length := by
    rw [List.length_drop]
    omega
  have bytes : slice (chunk ++ junk) off (chunk.drop off).length = chunk.drop off := by
    rw [slice, List.drop_append_of_le_length bound, List.take_left]
  simp only [applyOps, FileOp.apply, inside, and_self, if_true, count, bytes]
  simp

/-- Old bytes behind a chunk do not reach the file. -/
theorem decode_eq (chunk junk : List Byte) :
    applyOps (chunk ++ junk) (decode_rtp2h264 (chunk ++ junk) chunk.length) = chunkOutput chunk := by
  by_cases tiny : chunk.length < 13
  · have n14 : (chunk.length : Int) - 14 < 0 := by omega
    have n13 : (chunk.length : Int) - 13 < 0 := by omega
    simp only [chunkOutput, tiny, if_true, decode_rtp2h264, startCodeOps]
    split_ifs <;>
      simp only [List.cons_append, List.nil_append, applyOps_fputc, applyOps_negative _ _ n14,
        applyOps_negative _ _ n13, Option.map_none]
  · have byte12 : (chunk ++ junk).getD 12 0 = chunk.getD 12 0 := by
      rw [List.getD_append _ _ _ _ (by omega)]
    by_cases fu : (nalu_header_t.ofByte (chunk.getD 12 0)).type = 28
    · by_cases short : chunk.length < 14
      · have n14 : (chunk.length : Int) - 14 < 0 := by omega
        simp only [chunkOutput, tiny, if_false, fu, short, if_true, decode_rtp2h264, byte12, startCodeOps]
        split_ifs <;>
          simp only [List.cons_append, List.nil_append, applyOps_fputc, applyOps_negative _ _ n14,
            Option.map_none]
      · have byte13 : (chunk ++ junk).getD 13 0 = chunk.getD 13 0 := by
          rw [List.getD_append _ _ _ _ (by omega)]
        have tail : applyOps (chunk ++ junk) [.fwrite 14 (chunk.length - 14)] = some (chunk.drop 14) :=
          applyOps_tail chunk junk (by omega)
        simp only [chunkOutput, tiny, if_false, fu, short, if_true, decode_rtp2h264, byte12, byte13,
          startCodeOps]
        split_ifs <;>
          simp only [List.cons_append, List.nil_append, applyOps_fputc, tail, Option.map_some, startCode]
    · have tail : applyOps (chunk ++ junk) [.fwrite 13 (chunk.length - 13)] = some (chunk.drop 13) :=
        applyOps_tail chunk junk (by omega)
      simp only [chunkOutput, tiny, if_false, fu, decode_rtp2h264, byte12, startCodeOps, List.cons_append,
        List.nil_append, applyOps_fputc, tail, Option.map_some, startCode]

/-- **The receive loop** writes a function of the chunks, whatever the buffer held. -/
theorem recv_fun_eq (recv_buf : List Byte) (chunks : List (List Byte)) :
    recv_fun recv_buf chunks = chunksOutput chunks := by
  induction chunks generalizing recv_buf with
  | nil => rfl
  | cons chunk chunks ih =>
    simp only [recv_fun, chunksOutput, ih, blit_zero, decode_eq]

theorem chunksOutput_append {xs ys : List (List Byte)} {a b : List Byte}
    (first : chunksOutput xs = some a) (second : chunksOutput ys = some b) :
    chunksOutput (xs ++ ys) = some (a ++ b) := by
  induction xs generalizing a with
  | nil =>
    cases first
    simpa using second
  | cons x xs ih =>
    simp only [chunksOutput, Option.bind_eq_bind, Option.bind_eq_some_iff, Option.some.injEq] at first
    obtain ⟨bytes, hx, rest, hxs, rfl⟩ := first
    simp only [List.cons_append, chunksOutput, hx, ih hxs, Option.bind_eq_bind, Option.bind_some,
      List.append_assoc]

end CodeClips.Rtp
