import CodeClips.Rtp.Header
import Mathlib.Tactic.Common

/-!
# `send_nalu_by_rtp` of `video_njue`

A NAL longer than `MTU` is cut into FU-A fragments. The loop counts them with
`payload_count / MTU`, rounded down: the last fragment takes what the division left over,
and a count of one takes the branch of the first fragment and never that of the last.
`fuGroup_iff` says for which lengths the fragments are a correct group all the same.
-/

namespace CodeClips.Rtp.Ortp

/-- `#define MTU 1400`. -/
def MTU : Nat := 1400

/-- `x264_nal_t`: `i_payload` is the length of `p_payload`, which begins with a start code. -/
structure x264_nal_t where
  p_payload : List Byte

/-- `rtp_session_mgr_t`; the session is what was sent on it, each buffer with its timestamp. -/
structure rtp_session_mgr_t where
  rtp_session : List (BitVec 32 × List Byte)
  timestamp_inc : BitVec 32
  cur_timestamp : BitVec 32

/-- `rtp_send`: an empty buffer is refused. -/
def rtp_send (mgr : rtp_session_mgr_t) (src : List Byte) : rtp_session_mgr_t :=
  if src.length = 0 then mgr
  else { mgr with rtp_session := mgr.rtp_session ++ [(mgr.cur_timestamp, src)] }

def rtp_update_timestamp (mgr : rtp_session_mgr_t) : rtp_session_mgr_t :=
  { mgr with cur_timestamp := mgr.cur_timestamp + mgr.timestamp_inc }

/-- The NAL behind the start code: byte 2 tells 00 00 01 from 00 00 00 01. -/
def abandonHeader (nal : x264_nal_t) : List Byte :=
  if nal.p_payload.getD 2 0 &&& 0x01 ≠ 0 then nal.p_payload.drop 3 else nal.p_payload.drop 4

theorem abandonHeader_three (bytes : List Byte) : abandonHeader { p_payload := [0, 0, 1] ++ bytes } = bytes :=
  if_pos (by simp)

/-- `nal_flag` and `current_bytes` of round `j`. -/
def fuRound (flag : Byte) (fu_count j payload_count : Nat) : Byte × Nat :=
  let nal_flag := flag &&& 31
  if j = 0 then (nal_flag ||| 128, MTU)
  else if j = fu_count - 1 then (nal_flag ||| 64, payload_count)
  else (nal_flag, MTU)

/-- `buf` when it is sent: `fu_flag`, `nal_flag` and the copied bytes. -/
def fuBuffer (flag nal_flag : Byte) (bytes : List Byte) : List Byte := (flag &&& 224 ||| 28) :: nal_flag :: bytes

/-- What the loop over the fragments puts in `buf`, for `rounds` rounds from `j` on. The
`memcpy` of the last round can be longer than `MTU`, and then runs over the end of `nal_buf`. -/
def fuLoop (flag : Byte) (fu_count : Nat) : (rounds j : Nat) → (tmp : List Byte) → (payload_count : Nat) →
    List (List Byte)
  | 0, _, _, _ => []
  | rounds + 1, j, tmp, payload_count =>
    let (nal_flag, current_bytes) := fuRound flag fu_count j payload_count
    fuBuffer flag nal_flag (tmp.take current_bytes) ::
      fuLoop flag fu_count rounds (j + 1) (tmp.drop current_bytes) (payload_count - current_bytes)

/-- The buffers one NAL gives to `rtp_send`. -/
def naluBuffers (tmp : List Byte) : List (List Byte) :=
  if MTU < tmp.length then
    let payload_count := tmp.length - 1
    let fu_count := payload_count / MTU
    fuLoop (tmp.headD 0) fu_count fu_count 0 (tmp.drop 1) payload_count
  else [tmp]

def send_nalu_by_rtp (mgr : rtp_session_mgr_t) (nal : List x264_nal_t) : rtp_session_mgr_t :=
  rtp_update_timestamp (nal.foldl (fun mgr n => (naluBuffers (abandonHeader n)).foldl rtp_send mgr) mgr)

/-! ## What is sent -/

/-- The buffers go out in order, under one timestamp. -/
theorem send_buffers (mgr : rtp_session_mgr_t) (bufs : List (List Byte)) :
    bufs.foldl rtp_send mgr =
      { mgr with rtp_session := mgr.rtp_session ++
          (bufs.filter fun b => b.length ≠ 0).map fun b => (mgr.cur_timestamp, b) } := by
  induction bufs generalizing mgr with
  | nil => simp
  | cons b bufs ih =>
    rw [List.foldl_cons, ih, rtp_send]
    by_cases empty : b.length = 0
    · rw [if_pos empty, List.filter_cons_of_neg (by simp [empty])]
    · rw [if_neg empty, List.filter_cons_of_pos (by simp [empty]), List.map_cons]
      simp only [List.append_assoc, List.singleton_append]

/-- The buffers that go out for one NAL. -/
def sentFor (nal : x264_nal_t) : List (List Byte) := (naluBuffers (abandonHeader nal)).filter fun b => b.length ≠ 0

/-- The NALs of one call follow one another under the same timestamp. -/
theorem send_nalus (mgr : rtp_session_mgr_t) (nal : List x264_nal_t) :
    (send_nalu_by_rtp mgr nal).rtp_session =
      mgr.rtp_session ++ nal.flatMap fun n => (sentFor n).map fun b => (mgr.cur_timestamp, b) := by
  rw [send_nalu_by_rtp, rtp_update_timestamp]
  induction nal generalizing mgr with
  | nil => simp
  | cons n nal ih =>
    rw [List.foldl_cons, ih, send_buffers]
    simp [sentFor]

/-- Every fragment holds its two header bytes. -/
theorem fuLoop_nonempty (flag : Byte) (c rounds j : Nat) (tmp : List Byte) (n : Nat) :
    ∀ b ∈ fuLoop flag c rounds j tmp n, b.length ≠ 0 := by
  induction rounds generalizing j tmp n with
  | zero => exact fun b mem => absurd mem List.not_mem_nil
  | succ rounds ih =>
    rw [fuLoop, List.forall_mem_cons]
    exact ⟨Nat.succ_ne_zero _, ih _ _ _⟩

/-- The fragments from the second on: the middle ones carry `MTU` bytes, the last the rest. -/
theorem fuLoop_rest (flag : Byte) (l : List Byte) {c m j : Nat} (inner : j ≠ 0) (count : j + m + 1 = c) :
    fuLoop flag c (m + 1) j (l.drop (MTU * j)) (l.length - MTU * j) =
      (List.range' j m).map (fun i => fuBuffer flag (flag &&& 31) (slice l (MTU * i) MTU)) ++
        [fuBuffer flag (flag &&& 31 ||| 64) (slice l (MTU * (j + m)) (l.length - MTU * (j + m)))] := by
  induction m generalizing j with
  | zero =>
    have last : j = c - 1 := by omega
    rw [fuLoop, fuRound, if_neg inner, if_pos last]
    rfl
  | succ m ih =>
    have middle : j ≠ c - 1 := by omega
    have next := ih (j := j + 1) (by omega) (by omega)
    rw [Nat.mul_add, Nat.mul_one, ← List.drop_drop, ← Nat.sub_sub] at next
    rw [fuLoop, fuRound, if_neg inner, if_neg middle, List.range'_succ, List.map_cons,
      show j + (m + 1) = j + 1 + m by omega]
    exact congrArg _ next

/-- A NAL with at least one full fragment after its header byte is cut. -/
theorem long_of_count {nal : List Byte} {c : Nat} (count : (nal.length - 1) / MTU = c + 1) : MTU < nal.length := by
  have whole := Nat.div_add_mod (nal.length - 1) MTU
  rw [count, MTU] at whole
  rw [MTU]
  omega

/-- With one full fragment the loop makes one round, for the start. -/
theorem naluBuffers_one (nal : List Byte) (one : (nal.length - 1) / MTU = 1) :
    naluBuffers nal = [fuBuffer (nal.headD 0) (nal.headD 0 &&& 31 ||| 128) (slice (nal.drop 1) 0 MTU)] := by
  rw [naluBuffers, if_pos (long_of_count one)]
  dsimp only
  rw [one, fuLoop, fuRound, if_pos rfl]
  rfl

/-- With more, a first, middle and a last fragment. -/
theorem naluBuffers_many (nal : List Byte) {m : Nat} (many : (nal.length - 1) / MTU = m + 2) :
    naluBuffers nal =
      fuBuffer (nal.headD 0) (nal.headD 0 &&& 31 ||| 128) (slice (nal.drop 1) 0 MTU) ::
      ((List.range' 1 m).map (fun i =>
        fuBuffer (nal.headD 0) (nal.headD 0 &&& 31) (slice (nal.drop 1) (MTU * i) MTU)) ++
      [fuBuffer (nal.headD 0) (nal.headD 0 &&& 31 ||| 64)
        (slice (nal.drop 1) (MTU * (1 + m)) ((nal.drop 1).length - MTU * (1 + m)))]) := by
  have rest := fuLoop_rest (nal.headD 0) (nal.drop 1) (c := m + 2) (m := m) (j := 1) (by omega) (by omega)
  rw [Nat.mul_one] at rest
  rw [naluBuffers, if_pos (long_of_count many)]
  dsimp only
  rw [many, fuLoop, fuRound, if_pos rfl, ← rest, List.length_drop]
  rfl

/-! ## When the fragments are a group -/

/-- The S bit of a fragment's second byte. -/
def startBit (b : List Byte) : Bool := (b.getD 1 0).getLsbD 7

/-- The E bit. -/
def endBit (b : List Byte) : Bool := (b.getD 1 0).getLsbD 6

@[simp] theorem fuBuffer_bytes (flag nal_flag : Byte) (bytes : List Byte) :
    (fuBuffer flag nal_flag bytes).drop 2 = bytes := rfl

@[simp] theorem fuBuffer_startBit (flag nal_flag : Byte) (bytes : List Byte) :
    startBit (fuBuffer flag nal_flag bytes) = nal_flag.getLsbD 7 := rfl

@[simp] theorem fuBuffer_endBit (flag nal_flag : Byte) (bytes : List Byte) :
    endBit (fuBuffer flag nal_flag bytes) = nal_flag.getLsbD 6 := rfl

/-- What FU-A asks of the fragments of a NAL. -/
structure FuGroup (nal : List Byte) (bufs : List (List Byte)) : Prop where
  small : ∀ b ∈ bufs, (b.drop 2).length ≤ MTU
  start : ∃ first rest, bufs = first :: rest ∧ startBit first ∧ ∀ b ∈ rest, ¬ startBit b
  finish : ∃ front last, bufs = front ++ [last] ∧ endBit last ∧ ∀ b ∈ front, ¬ endBit b
  whole : bufs.flatMap (·.drop 2) = nal.drop 1

/-- The bits of the three headers. -/
theorem header_bits (flag : Byte) :
    (flag &&& 31 ||| 128).getLsbD 7 = true ∧ (flag &&& 31 ||| 128).getLsbD 6 = false ∧
    (flag &&& 31).getLsbD 7 = false ∧ (flag &&& 31).getLsbD 6 = false ∧
    (flag &&& 31 ||| 64).getLsbD 7 = false ∧ (flag &&& 31 ||| 64).getLsbD 6 = true := by
  revert flag
  decide

/-- The one fragment has no E bit. -/
theorem not_group_one {nal : List Byte} (one : (nal.length - 1) / MTU = 1) : ¬ FuGroup nal (naluBuffers nal) := by
  intro group
  obtain ⟨front, last, ends, final, -⟩ := group.finish
  rw [naluBuffers_one nal one] at ends
  have same : last = fuBuffer (nal.headD 0) (nal.headD 0 &&& 31 ||| 128) (slice (nal.drop 1) 0 MTU) := by
    cases front with
    | nil => simpa using ends.symm
    | cons => simp at ends
  rw [same] at final
  exact absurd ((header_bits (nal.headD 0)).2.1.symm.trans final) (by decide)

/-- The last of several fragments takes all that is left, which may be too much. -/
theorem group_many_iff {nal : List Byte} {m : Nat} (many : (nal.length - 1) / MTU = m + 2) :
    FuGroup nal (naluBuffers nal) ↔ (nal.length - 1) % MTU = 0 := by
  obtain ⟨s7, s6, m7, m6, e7, e6⟩ := header_bits (nal.headD 0)
  have split := Nat.div_add_mod (nal.length - 1) MTU
  rw [many] at split
  rw [naluBuffers_many nal many]
  constructor
  · intro group
    have last := group.small (fuBuffer (nal.headD 0) (nal.headD 0 &&& 31 ||| 64)
      (slice (nal.drop 1) (MTU * (1 + m)) ((nal.drop 1).length - MTU * (1 + m)))) (by simp)
    rw [fuBuffer_bytes, slice_length, Nat.min_self, List.length_drop] at last
    simp only [MTU] at *
    omega
  · intro exact
    have extent : (nal.drop 1).length = MTU * (1 + m) + MTU := by
      rw [List.length_drop, ← split, exact, MTU]
      omega
    have left : (nal.drop 1).length - MTU * (1 + m) = MTU := by omega
    rw [left]
    refine ⟨?_, ⟨_, _, rfl, s7, ?_⟩, ⟨_ :: _, _, rfl, e6, ?_⟩, ?_⟩
    · simp only [List.forall_mem_cons, List.forall_mem_append, List.forall_mem_map,
        fuBuffer_bytes, slice_length]
      exact ⟨Nat.min_le_left .., fun _ _ => Nat.min_le_left .., Nat.min_le_left .., by simp⟩
    · simp only [List.forall_mem_append, List.forall_mem_map, List.forall_mem_singleton, fuBuffer_startBit,
        m7, e7]
      simp
    · simp only [List.forall_mem_cons, List.forall_mem_map, fuBuffer_endBit, s6, m6]
      simp
    · have slices := slices_from (nal.drop 1) MTU MTU 1 m extent
      rw [List.flatMap_cons, List.flatMap_append, List.flatMap_map, List.flatMap_singleton]
      simp only [fuBuffer_bytes]
      rw [slices]
      simp only [slice, List.drop_zero, Nat.mul_one, List.take_append_drop]

/-- **Which long NALs leave as a group**: those whose bytes after the first fill two or more
fragments exactly. -/
theorem naluBuffers_group (nal : List Byte) (long : MTU < nal.length) :
    FuGroup nal (naluBuffers nal) ↔ (nal.length - 1) % MTU = 0 ∧ 2 * MTU ≤ nal.length - 1 := by
  have split := Nat.div_add_mod (nal.length - 1) MTU
  have short := Nat.mod_lt (nal.length - 1) (show 0 < MTU by decide)
  cases count : (nal.length - 1) / MTU with
  | zero =>
    rw [count] at split
    omega
  | succ c =>
    cases c with
    | zero =>
      rw [count] at split
      exact iff_of_false (not_group_one count) (by omega)
    | succ m =>
      have enough : 2 * MTU ≤ nal.length - 1 := by
        rw [count, Nat.mul_comm] at split
        have two : 2 * MTU ≤ (m + 1 + 1) * MTU := Nat.mul_le_mul_right _ (Nat.le_add_left 2 m)
        omega
      rw [group_many_iff count, and_iff_left enough]

/-- The fragments all go out. -/
theorem sentFor_long (nal : x264_nal_t) (long : MTU < (abandonHeader nal).length) :
    sentFor nal = naluBuffers (abandonHeader nal) := by
  rw [sentFor, naluBuffers, if_pos long]
  exact List.filter_eq_self.mpr fun b mem => decide_eq_true (fuLoop_nonempty _ _ _ _ _ _ b mem)

/-- In any call, the buffers sent for a long NAL are a correct group exactly if its bytes
after the first fill two or more fragments. -/
theorem fuGroup_iff (mgr : rtp_session_mgr_t) (nals : List x264_nal_t) :
    (send_nalu_by_rtp mgr nals).rtp_session =
      mgr.rtp_session ++ nals.flatMap (fun n => (sentFor n).map fun b => (mgr.cur_timestamp, b)) ∧
    ∀ nal ∈ nals, MTU < (abandonHeader nal).length →
      (FuGroup (abandonHeader nal) (sentFor nal) ↔
        ((abandonHeader nal).length - 1) % MTU = 0 ∧ 2 * MTU ≤ (abandonHeader nal).length - 1) := by
  refine ⟨send_nalus mgr nals, fun nal _ long => ?_⟩
  rw [sentFor_long nal long]
  exact naluBuffers_group _ long

/-- Of a NAL of 2000 bytes one fragment is sent, without the E bit; 599 bytes are lost. -/
theorem fragments_lost :
    let nal : x264_nal_t := { p_payload := [0, 0, 1] ++ List.replicate 2000 0x65 }
    MTU < (abandonHeader nal).length ∧
    (sentFor nal).map List.length = [1402] ∧
    ¬ FuGroup (abandonHeader nal) (sentFor nal) := by
  intro nal
  have payload : abandonHeader nal = List.replicate 2000 0x65 := abandonHeader_three _
  have long : MTU < (abandonHeader nal).length := by
    rw [payload, List.length_replicate, MTU]
    decide
  have one : ((abandonHeader nal).length - 1) / MTU = 1 := by
    rw [payload, List.length_replicate, MTU]
  rw [sentFor_long nal long]
  refine ⟨long, ?_, fun group => ?_⟩
  · rw [naluBuffers_one _ one, payload]
    simp only [fuBuffer, List.map_cons, List.map_nil, List.length_cons, slice_length, List.length_drop,
      List.length_replicate, MTU]
    rfl
  · have fits := (naluBuffers_group _ long).mp group
    rw [payload, List.length_replicate] at fits
    exact absurd fits (by decide)

end CodeClips.Rtp.Ortp
