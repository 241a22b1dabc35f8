import CodeClips.Rtp.LostBytes
import CodeClips.Rtp.Packetizer

/-!
# The timestamps of a run

`ts_current` is moved on by `90000 / framerate` at the top of `h264naltortp_send`, before the
test that rejects an empty NAL. So the clock counts the calls and not the NALs transmitted:
they agree exactly if no call is rejected, or if the clock does not move at all
(`timestamps_iff`). What each call stores is read off the file (`nalLengths`): a NAL is empty
if a start code has nothing to store since the one before it, or since the beginning.
-/

namespace CodeClips.Rtp

/-- The timestamp a receiver reads from a packet: bytes 4 to 7 in network order. -/
def timestampOf (packet : List Byte) : BitVec 32 :=
  packet.getD 4 0 ++ packet.getD 5 0 ++ packet.getD 6 0 ++ packet.getD 7 0

/-- `90000 / framerate`, added to a `uint32_t`. -/
def tsStep (framerate : Int) : BitVec 32 := BitVec.ofInt 32 (Int.tdiv 90000 framerate)

/-- A call of `h264naltortp_send`: the static variables it finds, and what it does. -/
structure SendCall where
  before : Statics
  result : SendResult
deriving DecidableEq, Repr

/-- The calls for the NALs handed over; `none` when the frame rate divides by zero. -/
def sendCalls (framerate : Int) : List (List Byte) → Statics → Option (List SendCall)
  | [], _ => some []
  | nal :: nals, st =>
    if divides : framerate ≠ 0 then
      let result := h264naltortp_send ⟨framerate, divides⟩ nal st
      (sendCalls framerate nals result.statics).map ({ before := st, result := result } :: ·)
    else none

/-- The calls a run of `main` makes on a file; `none` when a store leaves `nal_buf` or a
division is by zero. `main` itself passes the frame rate 25. -/
def sendFile (framerate : Int) (fp : List Byte) : Option (List SendCall) :=
  (mainLoop NAL_BUF_SIZE fp).bind fun cs => sendCalls framerate (handed cs) .start

/-- The calls that transmit their NAL. -/
def transmitted (calls : List SendCall) : List SendCall := calls.filter fun c => c.result.ret ≠ -1

/-- The packets of the `k`-th NAL transmitted, counted on from `j`, have `k` steps on the
clock, and a rejected call leaves the clock as it was. -/
structure TimestampsCount (framerate : Int) (j : Nat) (calls : List SendCall) : Prop where
  counted : ∀ k call, (transmitted calls)[k]? = some call → ∀ packet ∈ call.result.packets,
    timestampOf packet = BitVec.ofNat 32 (j + (k + 1)) * tsStep framerate
  rejected : ∀ call ∈ calls, call.result.ret = -1 → call.result.statics.ts_current = call.before.ts_current

/-! ## One call -/

/-- `htonl` twice is the identity, read byte by byte. -/
theorem htonl_bytes (n : BitVec 32) :
    (htonl n).extractLsb' 0 8 ++ (htonl n).extractLsb' 8 8 ++ (htonl n).extractLsb' 16 8 ++
      (htonl n).extractLsb' 24 8 = n := by
  ext i hi
  simp only [htonl, BitVec.getElem_append, BitVec.getElem_extractLsb', BitVec.getLsbD_append]
  grind -ring -linarith

/-- A receiver reads the clock the sender gave to `htonl`. -/
theorem timestampOf_bytes (h : rtp_header_t) (n : BitVec 32) (stored : h.timestamp = htonl n)
    (load : List Byte) : timestampOf (h.bytes ++ load) = n := by
  simp only [timestampOf, rtp_header_t.bytes, le16, le32, stored, List.cons_append, List.nil_append,
    List.getD_cons_succ, List.getD_cons_zero]
  exact htonl_bytes n

/-- The packets of one NAL have one timestamp. -/
theorem stamp_timestamp (st : Statics) (loads : List Load) :
    ∀ packet ∈ stamp st loads, timestampOf packet = st.ts_current := by
  induction loads generalizing st with
  | nil => simp [stamp]
  | cons load loads ih =>
    intro packet listed
    rcases List.mem_cons.mp listed with rfl | later
    · exact timestampOf_bytes _ _ rfl _
    · exact ih st.next packet later

/-- Every call moves the clock on. -/
theorem send_clock (framerate : FrameRate) (nal : List Byte) (st : Statics) :
    (h264naltortp_send framerate nal st).statics.ts_current = st.ts_current + tsStep framerate.val := by
  rw [h264naltortp_send, (packets_eq framerate nal st).2]
  rfl

/-- It is rejected exactly if the NAL is empty. -/
theorem send_rejected (framerate : FrameRate) (nal : List Byte) (st : Statics) :
    (h264naltortp_send framerate nal st).ret = -1 ↔ nal = [] := by
  rw [h264naltortp_send, h264naltortp, ← List.length_eq_zero_iff]
  by_cases empty : nal.length < 1
  · exact iff_of_true (by rw [if_pos empty]) (by omega)
  by_cases short : nal.length ≤ RTP_PAYLOAD_MAX_SIZE
  · exact iff_of_false (by simp [empty, short]) (by omega)
  · exact iff_of_false (by simp [empty, short]) (by omega)

theorem send_timestamp (framerate : FrameRate) (nal : List Byte) (st : Statics) :
    ∀ packet ∈ (h264naltortp_send framerate nal st).packets,
      timestampOf packet = st.ts_current + tsStep framerate.val := by
  rw [h264naltortp_send, (packets_eq framerate nal st).1]
  exact stamp_timestamp (st.tick framerate) (rtpLoads nal)

/-- The clock stands still exactly for frame rates beyond 90000. -/
theorem tsStep_eq_zero {framerate : Int} (nonzero : framerate ≠ 0) :
    tsStep framerate = 0 ↔ 90000 < framerate.natAbs := by
  have size : (Int.tdiv 90000 framerate).natAbs = 90000 / framerate.natAbs := Int.natAbs_tdiv ..
  have small : 90000 / framerate.natAbs ≤ 90000 := Nat.div_le_self ..
  have zero : 90000 / framerate.natAbs = 0 ↔ 90000 < framerate.natAbs := by
    rw [Nat.div_eq_zero_iff]
    omega
  rw [← zero, ← size, Int.natAbs_eq_zero, tsStep, ← BitVec.toInt_inj, BitVec.toInt_ofInt]
  simp [Int.bmod_def]
  omega

/-! ## The calls of a run -/

theorem sendCalls_cons (framerate : FrameRate) (nal : List Byte) (nals : List (List Byte)) (st : Statics) :
    sendCalls framerate.val (nal :: nals) st =
      (sendCalls framerate.val nals (h264naltortp_send framerate nal st).statics).map
        ({ before := st, result := h264naltortp_send framerate nal st } :: ·) := by
  rw [sendCalls, dif_pos framerate.property]

/-- While no call is rejected, or none moves the clock, the clock counts what is transmitted. -/
theorem sendCalls_count (framerate : FrameRate) (nals : List (List Byte)) (j : Nat)
    (st : Statics) (clock : st.ts_current = BitVec.ofNat 32 j * tsStep framerate.val)
    (fine : tsStep framerate.val = 0 ∨ [] ∉ nals) :
    ∃ calls, sendCalls framerate.val nals st = some calls ∧ TimestampsCount framerate.val j calls := by
  induction nals generalizing j st with
  | nil => exact ⟨[], rfl, by simp [transmitted], by simp⟩
  | cons nal nals ih =>
    have after := send_clock framerate nal st
    have stamps := send_timestamp framerate nal st
    have rest : tsStep framerate.val = 0 ∨ [] ∉ nals :=
      fine.imp_right fun all later => all (List.mem_cons_of_mem _ later)
    by_cases empty : nal = []
    · have still : tsStep framerate.val = 0 := by
        rcases fine with still | all
        · exact still
        · exact absurd (by simp [empty]) all
      rw [still, show st.ts_current + 0 = st.ts_current from BitVec.add_zero _] at after
      obtain ⟨calls, made, count⟩ := ih j _ (after.trans clock) rest
      have ret := (send_rejected framerate nal st).mpr empty
      refine ⟨_, by rw [sendCalls_cons, made, Option.map_some], ?_, ?_⟩
      · rw [transmitted, List.filter_cons_of_neg (by simp [ret])]
        exact count.counted
      · rw [List.forall_mem_cons]
        exact ⟨fun _ => after, count.rejected⟩
    · have step : st.ts_current + tsStep framerate.val = BitVec.ofNat 32 (j + 1) * tsStep framerate.val := by
        rw [clock, BitVec.ofNat_add, BitVec.add_mul, BitVec.one_mul]
      obtain ⟨calls, made, count⟩ := ih (j + 1) _ (after.trans step) rest
      have ret : (h264naltortp_send framerate nal st).ret ≠ -1 :=
        fun rejected => empty ((send_rejected framerate nal st).mp rejected)
      refine ⟨_, by rw [sendCalls_cons, made, Option.map_some], ?_, ?_⟩
      · rw [transmitted, List.filter_cons_of_pos (by simp [ret])]
        rintro (_ | k) call at_k packet listed
        · cases at_k
          rw [stamps packet listed, step]
        · have later := count.counted k call at_k packet listed
          rw [later, Nat.add_assoc, Nat.add_comm 1 (k + 1)]
      · rw [List.forall_mem_cons]
        exact ⟨fun rejected => absurd rejected ret, count.rejected⟩

/-- An empty NAL among those handed over moves the clock all the same. -/
theorem sendCalls_empty (framerate : FrameRate) (nals : List (List Byte)) (st : Statics)
    (empty : [] ∈ nals) {calls : List SendCall} (made : sendCalls framerate.val nals st = some calls) :
    ∃ call ∈ calls, call.result.ret = -1 ∧
      call.result.statics.ts_current = call.before.ts_current + tsStep framerate.val := by
  induction nals generalizing st calls with
  | nil => cases empty
  | cons nal nals ih =>
    rw [sendCalls_cons, Option.map_eq_some_iff] at made
    obtain ⟨rest, later, rfl⟩ := made
    by_cases here : nal = []
    · exact ⟨_, List.mem_cons_self, (send_rejected framerate nal st).mpr here, send_clock framerate nal st⟩
    · have tail : [] ∈ nals := (List.mem_cons.mp empty).resolve_left fun same => here same.symm
      obtain ⟨call, listed, rejected⟩ := ih _ tail later
      exact ⟨call, List.mem_cons_of_mem _ listed, rejected⟩

/-- **The calls of a run** count what they transmit exactly if the clock stands still or no
NAL handed over is empty. -/
theorem sendCalls_iff (framerate : Int) (nals : List (List Byte)) :
    (∃ calls, sendCalls framerate nals .start = some calls ∧ TimestampsCount framerate 0 calls) ↔
      nals = [] ∨ framerate ≠ 0 ∧ (90000 < framerate.natAbs ∨ [] ∉ nals) := by
  by_cases zero : framerate = 0
  · cases nals with
    | nil => exact iff_of_true ⟨[], rfl, by simp [transmitted], by simp⟩ (.inl rfl)
    | cons nal nals => simp [sendCalls, zero]
  · constructor
    · rintro ⟨calls, made, count⟩
      refine .inr ⟨zero, ?_⟩
      rw [← tsStep_eq_zero zero]
      by_cases empty : [] ∈ nals
      · obtain ⟨call, listed, ret, clock⟩ := sendCalls_empty ⟨framerate, zero⟩ nals .start empty made
        have still := count.rejected call listed ret
        rw [clock] at still
        exact .inl (by simpa using still)
      · exact .inr empty
    · rintro (rfl | ⟨_, fine⟩)
      · exact ⟨[], rfl, by simp [transmitted], by simp⟩
      · rw [← tsStep_eq_zero zero] at fine
        exact sendCalls_count ⟨framerate, zero⟩ nals 0 .start (by simp [Statics.start]) fine

/-! ## The lengths of the NALs of a file -/

/-- What each call stores of a file, `n` bytes having been stored before: three zeros and the byte after them
count for nothing, nor do zeros at the end of the file. The last call returns -1. -/
def nalLengths (n : Nat) (bs : List Byte) : List Nat :=
  match bs with
  | [] => [n]
  | b :: rest =>
    if [0, 0, 0, 1] <+: b :: rest then n :: nalLengths 0 (rest.drop 3)
    else if [0, 0, 1] <+: b :: rest then n :: nalLengths 0 (rest.drop 2)
    else if [0, 0, 0] <+: b :: rest then nalLengths n (rest.drop 3)
    else if b :: rest = [0] ∨ b :: rest = [0, 0] then [n]
    else nalLengths (n + 1) rest
termination_by bs.length
decreasing_by all_goals simp; try omega

theorem nalLengths_code (n : Nat) (bs : List Byte) {p : Nat} (two : p = 2 ∨ p = 3) :
    nalLengths n (zeros p ++ 1 :: bs) = n :: nalLengths 0 bs := by
  rcases two with rfl | rfl
  · simp [zeros, List.replicate, nalLengths, List.cons_prefix_cons]
  · simp [zeros, List.replicate, nalLengths, List.cons_prefix_cons]

theorem nalLengths_loss (n : Nat) (bs : List Byte) {b : Byte} (noCode : b ≠ 1) :
    nalLengths n (zeros 3 ++ b :: bs) = nalLengths n bs := by
  have notOne : ¬ (1#8 = b) := fun same => noCode same.symm
  simp [zeros, List.replicate, nalLengths, List.cons_prefix_cons, notOne]

theorem nalLengths_keep (n : Nat) (bs : List Byte) {p : Nat} {b : Byte} (few : p < 3) (nonzero : b ≠ 0)
    (noCode : 2 ≤ p → b ≠ 1) : nalLengths n (zeros p ++ b :: bs) = nalLengths (n + p + 1) bs := by
  have notZero : ¬ (0#8 = b) := fun same => nonzero same.symm
  have here : ¬ (b = 0#8) := nonzero
  interval_cases p
  · simp [zeros, List.replicate, nalLengths, List.cons_prefix_cons, notZero, here]
  · simp [zeros, List.replicate, nalLengths, List.cons_prefix_cons, notZero, here]
  · have notOne : ¬ (1#8 = b) := fun same => noCode (Nat.le_refl 2) same.symm
    simp [zeros, List.replicate, nalLengths, List.cons_prefix_cons, notZero, here, notOne]

theorem nalLengths_zeros (n : Nat) {p : Nat} (few : p ≤ 3) : nalLengths n (zeros p) = [n] := by
  interval_cases p <;> simp [zeros, List.replicate, nalLengths, List.cons_prefix_cons]

/-- The lengths are those of the buffers of the scan. -/
theorem nalLengths_eq (buf bs : List Byte) {p : Nat} (few : p ≤ 3) :
    nalLengths buf.length (zeros p ++ bs) = (scan (held p buf) bs).map List.length := by
  induction bs generalizing p buf with
  | nil => rw [List.append_nil, nalLengths_zeros _ few, scan_end, List.map_singleton]
  | cons b bs ih =>
    cases agree buf bs b few with
    | code one two scanned =>
      subst one
      rw [nalLengths_code _ _ two, scanned, List.map_cons]
      exact congrArg (buf.length :: ·) (ih [] (Nat.zero_le 3))
    | zero none few' scanned =>
      subst none
      rw [zeros_succ, scanned]
      exact ih buf few'
    | keep nonzero few' noCode scanned =>
      have stored := ih (buf ++ zeros p ++ [b]) (Nat.zero_le 3)
      have more : (buf ++ zeros p ++ [b]).length = buf.length + p + 1 := by simp [zeros, Nat.add_assoc]
      rw [more] at stored
      rw [nalLengths_keep _ _ few' nonzero noCode, scanned]
      exact stored
    | loss three noCode p' seg few' lost scanned =>
      subst three
      rw [nalLengths_loss _ _ noCode, scanned]
      exact ih buf (Nat.zero_le 3)

theorem nalLengths_scan (fp : List Byte) : nalLengths 0 fp = (scan .start fp).map List.length :=
  nalLengths_eq [] fp (Nat.zero_le 3)

/-- **When the timestamps count the NALs transmitted.** Every NAL of the file fits in `nal_buf`, and there is
no start code, or the clock stands still, or no start code ends an empty NAL. -/
theorem timestamps_iff (framerate : Int) (fp : List Byte) :
    (∃ calls, sendFile framerate fp = some calls ∧ TimestampsCount framerate 0 calls) ↔
      (∀ n ∈ nalLengths 0 fp, n ≤ NAL_BUF_SIZE) ∧
        ((nalLengths 0 fp).dropLast = [] ∨
          framerate ≠ 0 ∧ (90000 < framerate.natAbs ∨ 0 ∉ (nalLengths 0 fp).dropLast)) := by
  have nals : (nalLengths 0 fp).dropLast = (handed (callsOf (scan .start fp))).map List.length := by
    rw [nalLengths_scan, handed_callsOf, List.map_dropLast]
  have none : (nalLengths 0 fp).dropLast = [] ↔ handed (callsOf (scan .start fp)) = [] := by
    rw [nals, List.map_eq_nil_iff]
  have empty : 0 ∉ (nalLengths 0 fp).dropLast ↔ [] ∉ handed (callsOf (scan .start fp)) := by
    simp [nals]
  have fits : (∀ n ∈ nalLengths 0 fp, n ≤ NAL_BUF_SIZE) ↔ Fits NAL_BUF_SIZE (scan .start fp) := by
    rw [nalLengths_scan, List.forall_mem_map, Fits]
  rw [none, empty, fits, ← sendCalls_iff, sendFile]
  constructor
  · rintro ⟨calls, made, count⟩
    obtain ⟨cs, run, made⟩ := Option.bind_eq_some_iff.mp made
    obtain ⟨fits, rfl⟩ := (mainLoop_eq ..).mp run
    exact ⟨fits, calls, made, count⟩
  · rintro ⟨fits, calls, made, count⟩
    refine ⟨calls, ?_, count⟩
    rw [(mainLoop_eq ..).mpr ⟨fits, rfl⟩]
    exact made

/-- A file that begins with a start code, at 25 frames a second: the first NAL transmitted has
two steps on the clock. -/
theorem timestamps_late :
    ¬ ∃ calls, sendFile 25 [0, 0, 0, 1, 0x65, 0, 0, 0, 1, 0x41] = some calls ∧ TimestampsCount 25 0 calls := by
  rintro ⟨calls, made, count⟩
  have run := (mainLoop_eq NAL_BUF_SIZE [0, 0, 0, 1, 0x65, 0, 0, 0, 1, 0x41] _).mpr ⟨by unfold Fits; decide, rfl⟩
  have nals : handed (callsOf (scan .start [0, 0, 0, 1, 0x65, 0, 0, 0, 1, 0x41])) = [[], [0x65]] := by decide
  rw [sendFile, run, Option.bind_some, nals] at made
  exact absurd ((sendCalls_iff ..).mp ⟨calls, made, count⟩) (by decide)

end CodeClips.Rtp
