import CodeClips.Rtp.Header
import Mathlib.Tactic.Common

/-!
# The NAL scanner: `copy_nal_from_file` and the loop of `main`

`send_h264file_rtp.c` and `test_tcp_send_nal.c` read the input byte by byte. `flag` counts
the zero bytes held back in `tmpbuf`. A call returns the number of bytes it stored when a
start code ends, and -1 at the end of the file. Nothing checks the index into `buf`:
a store at or beyond the size of the caller's array is `overflow` here.

`scan` is the scanner without that array. `mainLoop_eq` relates the two: the calls do what
`scan` says as long as everything `scan` stores fits.
-/

namespace CodeClips.Rtp

/-- `NAL_BUF_SIZE`, and `MAX_NAL_BUF_SIZE` in `test_tcp_send_nal.c`. -/
def NAL_BUF_SIZE : Nat := 1500 * 100

/-- The locals of `copy_nal_from_file`: `buf` holds the `*len` bytes stored so far. -/
structure ScanState where
  flag : Nat
  tmpbuf : List Byte
  buf : List Byte
deriving DecidableEq, Repr

/-- The locals at the start of a call. -/
def ScanState.start : ScanState := { flag := 0, tmpbuf := [], buf := [] }

/-- One pass of the loop; `none` when the byte completes a start code. -/
def scanByte (s : ScanState) (b : Byte) : Option ScanState :=
  if s.flag = 0 then
    if b ≠ 0 then some { s with buf := s.buf ++ [b] }
    else some { s with flag := 1, tmpbuf := [b] }
  else if s.flag = 1 then
    if b = 0 then some { s with flag := 2, tmpbuf := s.tmpbuf ++ [b] }
    else some { s with flag := 0, buf := s.buf ++ [s.tmpbuf.getD 0 0, b] }
  else if s.flag = 2 then
    if b = 0 then some { s with flag := 3, tmpbuf := s.tmpbuf ++ [b] }
    else if b = 1 then none
    else some { s with flag := 0, buf := s.buf ++ [s.tmpbuf.getD 0 0, s.tmpbuf.getD 1 0, b] }
  else
    if b = 1 then none
    -- neither the three bytes held back nor `b` is stored
    else some { s with flag := 0 }

/-- How a call ends: at a start code, at the end of the file (-1), or by a store outside
the array. -/
inductive CopyResult where
  | nal (buf rest : List Byte)
  | eof (buf : List Byte)
  | overflow
deriving DecidableEq, Repr

/-- The `do` loop of `copy_nal_from_file` on the bytes left in the file. -/
def copyLoop (size : Nat) : ScanState → List Byte → CopyResult
  | s, [] => .eof s.buf
  | s, b :: rest =>
    match scanByte s b with
    | none => .nal s.buf rest
    | some s' => if s'.buf.length ≤ size then copyLoop size s' rest else .overflow

/-- `copy_nal_from_file(fp, buf, &len)` with `size` bytes behind `buf`. -/
def copy_nal_from_file (size : Nat) (fp : List Byte) : CopyResult := copyLoop size .start fp

/-- A call that ends at a start code has consumed it. -/
theorem copyLoop_rest {size : Nat} {s : ScanState} {fp buf rest : List Byte}
    (h : copyLoop size s fp = .nal buf rest) : rest.length < fp.length := by
  induction fp generalizing s with
  | nil => cases h
  | cons b fp ih =>
    rw [copyLoop] at h
    split at h
    · cases h
      exact Nat.lt_succ_self _
    · split at h
      · exact Nat.lt_succ_of_lt (ih h)
      · cases h

/-- A finished call: what it returns and the bytes it leaves in `buf`. -/
structure Call where
  ret : Int
  buf : List Byte
deriving DecidableEq, Repr

/-- The calls the loop of `main` makes on a file, up to the one that returns -1; `none` when
a call stores outside `nal_buf`. -/
def mainLoop (size : Nat) (fp : List Byte) : Option (List Call) :=
  match _h : copy_nal_from_file size fp with
  | .nal buf rest => (mainLoop size rest).map ({ ret := buf.length, buf := buf } :: ·)
  | .eof buf => some [{ ret := -1, buf := buf }]
  | .overflow => none
termination_by fp.length
decreasing_by exact copyLoop_rest ‹_›

/-- The NALs the body of that loop hands to `h264naltortp_send`. -/
def handed (cs : List Call) : List (List Byte) := (cs.filter fun c => c.ret ≠ -1).map Call.buf

/-! ## The scanner without the array -/

/-- The buffers of all calls from a call in progress on. -/
def scan : ScanState → List Byte → List (List Byte)
  | s, [] => [s.buf]
  | s, b :: rest =>
    match scanByte s b with
    | none => s.buf :: scan .start rest
    | some s' => scan s' rest

theorem scan_ne_nil (s : ScanState) (fp : List Byte) : scan s fp ≠ [] := by
  induction fp generalizing s with
  | nil => simp [scan]
  | cons b fp ih =>
    rw [scan]
    split
    · simp
    · exact ih _

/-- A pass only adds to the buffer. -/
theorem scanByte_mono {s s' : ScanState} {b : Byte} (h : scanByte s b = some s') :
    s.buf.length ≤ s'.buf.length := by
  simp only [scanByte] at h
  split_ifs at h <;> cases h <;> simp

/-- The first buffer of a scan extends the one in progress. -/
theorem scan_head {s : ScanState} {fp : List Byte} {buf : List Byte} {rest : List (List Byte)}
    (h : scan s fp = buf :: rest) : s.buf.length ≤ buf.length := by
  induction fp generalizing s with
  | nil =>
    cases h
    exact Nat.le_refl _
  | cons b fp ih =>
    rw [scan] at h
    split at h
    · cases h
      exact Nat.le_refl _
    · rename_i s' step
      exact (scanByte_mono step).trans (ih h)

/-- Everything a scan stores fits in `size` bytes. -/
def Fits (size : Nat) (bufs : List (List Byte)) : Prop := ∀ buf ∈ bufs, buf.length ≤ size

/-- One call against the scan from the same point. -/
theorem copyLoop_scan (size : Nat) (s : ScanState) (fp : List Byte) (room : s.buf.length ≤ size) :
    match copyLoop size s fp with
    | .nal buf rest => scan s fp = buf :: scan .start rest ∧ buf.length ≤ size
    | .eof buf => scan s fp = [buf] ∧ buf.length ≤ size
    | .overflow => ¬ Fits size (scan s fp) := by
  induction fp generalizing s with
  | nil => exact ⟨rfl, room⟩
  | cons b fp ih =>
    rw [copyLoop, scan]
    cases step : scanByte s b with
    | none => exact ⟨rfl, room⟩
    | some s' =>
      by_cases fits : s'.buf.length ≤ size
      · simp only [fits, if_true]
        exact ih s' fits
      · simp only [fits, if_false]
        intro all
        obtain ⟨buf, rest, whole⟩ := List.exists_cons_of_ne_nil (scan_ne_nil s' fp)
        have head := scan_head whole
        have bound := all buf (by rw [whole]; simp)
        omega

/-- The calls that leave the given buffers: the last returns -1. -/
def callsOf : List (List Byte) → List Call
  | [] => []
  | [buf] => [{ ret := -1, buf := buf }]
  | buf :: bufs => { ret := buf.length, buf := buf } :: callsOf bufs

theorem callsOf_cons (buf : List Byte) {bufs : List (List Byte)} (more : bufs ≠ []) :
    callsOf (buf :: bufs) = { ret := buf.length, buf := buf } :: callsOf bufs := by
  obtain ⟨b, bs, rfl⟩ := List.exists_cons_of_ne_nil more
  rfl

theorem callsOf_buf (bufs : List (List Byte)) : (callsOf bufs).map Call.buf = bufs := by
  induction bufs with
  | nil => rfl
  | cons buf bufs ih =>
    cases bufs with
    | nil => rfl
    | cons b bs => rw [callsOf_cons _ (by simp), List.map_cons, ih]

/-- All buffers but the last are handed over. -/
theorem handed_callsOf (bufs : List (List Byte)) : handed (callsOf bufs) = bufs.dropLast := by
  induction bufs with
  | nil => rfl
  | cons buf bufs ih =>
    cases bufs with
    | nil => rfl
    | cons b bs =>
      have counted : ((buf.length : Int) ≠ -1) := by omega
      rw [callsOf_cons _ (by simp), handed, List.filter_cons_of_pos (by simp [counted]), List.map_cons,
        ← handed, ih]
      rfl

/-- One pass of the loop of `main`. -/
theorem mainLoop_pass (size : Nat) (fp : List Byte) :
    mainLoop size fp =
      match copy_nal_from_file size fp with
      | .nal buf rest => (mainLoop size rest).map ({ ret := buf.length, buf := buf } :: ·)
      | .eof buf => some [{ ret := -1, buf := buf }]
      | .overflow => none := by
  rw [mainLoop]
  split <;> simp_all only

/-- **The loop of `main`** makes the calls `scan` describes if everything they store fits,
and stores outside the array otherwise. -/
theorem mainLoop_eq (size : Nat) (fp : List Byte) (cs : List Call) :
    mainLoop size fp = some cs ↔ Fits size (scan .start fp) ∧ cs = callsOf (scan .start fp) := by
  induction fp using mainLoop.induct size generalizing cs with
  | case1 fp buf rest h ih =>
    have call := copyLoop_scan size .start fp (Nat.zero_le _)
    rw [← copy_nal_from_file, h] at call
    obtain ⟨whole, bound⟩ := call
    rw [mainLoop_pass, h, whole, callsOf_cons _ (scan_ne_nil _ _), Option.map_eq_some_iff]
    simp only [Fits, List.forall_mem_cons, bound, true_and]
    constructor
    · rintro ⟨tail, done, rfl⟩
      obtain ⟨fits, rfl⟩ := (ih tail).mp done
      exact ⟨fits, rfl⟩
    · rintro ⟨fits, rfl⟩
      exact ⟨_, (ih _).mpr ⟨fits, rfl⟩, rfl⟩
  | case2 fp buf h =>
    have call := copyLoop_scan size .start fp (Nat.zero_le _)
    rw [← copy_nal_from_file, h] at call
    obtain ⟨whole, bound⟩ := call
    rw [mainLoop_pass, h, whole]
    simp only [Fits, List.forall_mem_singleton, bound, true_and, callsOf, Option.some.injEq]
    exact eq_comm
  | case3 fp h =>
    have call := copyLoop_scan size .start fp (Nat.zero_le _)
    rw [← copy_nal_from_file, h] at call
    rw [mainLoop_pass, h]
    simp only [reduceCtorEq, false_iff, not_and]
    intro fits
    exact absurd fits call

end CodeClips.Rtp
