import CodeClips.Rtp.Packetizer
import Mathlib.Data.List.Chain
import Mathlib.Algebra.BigOperators.Group.List.Basic
import Mathlib.Algebra.GroupWithZero.Nat

/-!
# The sequence numbers of a run

`seq_num` is a 16-bit counter, and what goes into the header is
`++seq_num % UINT16_MAX`. `UINT16_MAX` is 65535, not 65536: the 65535th packet of a run
gets number 0 instead of 65535, and so does the next. `seqNos_eq` gives every number of a
run, `consecutive_iff` the exact length up to which the numbers are consecutive.
-/

namespace CodeClips.Rtp

/-- Each packet's number is its predecessor's plus one, modulo 2^16. -/
def Consecutive (packets : List (List Byte)) : Prop :=
  (packets.map seqNoOf).IsChain fun m n => n = m + 1

instance (packets : List (List Byte)) : Decidable (Consecutive packets) := by
  unfold Consecutive
  infer_instance

/-- The number of packets a NAL of `nalu_len` bytes is sent as: `⌈nalu_len / 1400⌉`. -/
def packetCount (nalu_len : Nat) : Nat :=
  (nalu_len + (RTP_PAYLOAD_MAX_SIZE - 1)) / RTP_PAYLOAD_MAX_SIZE

/-- The number in the header of the `k`-th packet after `st`. -/
def seqNoAt (st : Statics) (k : Nat) : BitVec 16 := (st.seq_num + BitVec.ofNat 16 k) % UINT16_MAX

theorem rtpLoads_length (nal : List Byte) : (rtpLoads nal).length = packetCount nal.length := by
  unfold rtpLoads packetCount fu_pack_num RTP_PAYLOAD_MAX_SIZE
  split_ifs <;> simp <;> omega

theorem stamp_seqNos (st : Statics) (loads : List Load) :
    (stamp st loads).map seqNoOf = (List.range' 1 loads.length).map (seqNoAt st) := by
  induction loads generalizing st with
  | nil => rfl
  | cons load loads ih =>
    have shift : seqNoAt st.next = fun k => seqNoAt st (k + 1) := by
      funext k
      simp only [seqNoAt, Statics.next, BitVec.ofNat_add, BitVec.add_assoc]
      rw [BitVec.add_comm 1 (BitVec.ofNat 16 k)]
      rfl
    rw [stamp, List.map_cons, seqNoOf_bytes _ _ rfl, ih, List.length_cons, List.range'_succ,
      List.map_cons, shift, List.range'_eq_map_range, List.range'_eq_map_range (s := 1 + 1), List.map_map,
      List.map_map]
    congr 1
    apply List.map_congr_left
    intro k _
    simp only [Function.comp, Nat.add_right_comm]

/-- The numbers of a run are those of the counter, packet after packet. -/
theorem seqNos_eq (framerate : FrameRate) (nals : List (List Byte)) (st : Statics) :
    (sendAll (h264naltortp_send framerate) nals st).map seqNoOf =
      (List.range' 1 (nals.map fun nal => packetCount nal.length).sum).map (seqNoAt st) := by
  induction nals generalizing st with
  | nil => rfl
  | cons nal nals ih =>
    obtain ⟨packets, statics⟩ := packets_eq framerate nal st
    have clock : ∀ st : Statics, seqNoAt (st.tick framerate) = seqNoAt st := fun _ => rfl
    have shift : seqNoAt ((st.tick framerate).advance (packetCount nal.length)) =
        fun k => seqNoAt st (packetCount nal.length + k) := by
      funext k
      simp only [seqNoAt, Statics.advance, Statics.tick, BitVec.ofNat_add, BitVec.add_assoc]
    rw [sendAll, List.map_append, ih]
    simp only [h264naltortp_send, packets, statics, rtpLoads_length, stamp_seqNos, clock, shift,
      List.map_cons, List.sum_cons]
    rw [← List.range'_append_1, List.map_append, List.range'_eq_map_range (s := 1 + packetCount nal.length),
      List.range'_eq_map_range (s := 1) (n := List.sum _), List.map_map, List.map_map]
    congr 1
    apply List.map_congr_left
    intro k _
    simp only [Function.comp, Nat.add_left_comm, Nat.add_assoc]

/-- From the start of the program the counter is the packet's place in the run. -/
theorem seqNoAt_start (k : Nat) : (seqNoAt Statics.start k).toNat = k % 65536 % 65535 := by
  simp [seqNoAt, Statics.start, UINT16_MAX]

/-- The counter steps by one below 65535 and not at 65535. -/
theorem start_step (k : Nat) (bound : k ≤ 65534) :
    seqNoAt Statics.start (k + 1) = seqNoAt Statics.start k + 1 ↔ k < 65534 := by
  rw [← BitVec.toNat_inj, BitVec.toNat_add, seqNoAt_start, seqNoAt_start]
  simp
  omega

/-- The first `n` numbers of a run are consecutive exactly when there are fewer than 65535. -/
theorem start_chain_iff (n : Nat) :
    ((List.range' 1 n).map (seqNoAt Statics.start)).IsChain (fun a b => b = a + 1) ↔ n ≤ 65534 := by
  rw [List.isChain_map, List.isChain_iff_getElem]
  simp only [List.length_range', List.getElem_range', Nat.one_mul]
  constructor
  · intro chain
    by_contra long
    have wrap := chain 65533 (by omega)
    rw [show 1 + (65533 + 1) = 65534 + 1 by omega, show 1 + 65533 = 65534 by omega,
      start_step 65534 (by omega)] at wrap
    omega
  · intro short i hi
    rw [show 1 + (i + 1) = (1 + i) + 1 by omega, start_step (1 + i) (by omega)]
    omega

/-- **Exact range.** The numbers of a run are consecutive modulo 2^16 if and only if the
run has at most 65534 packets. -/
theorem consecutive_iff (framerate : FrameRate) (nals : List (List Byte)) :
    Consecutive (sendAll (h264naltortp_send framerate) nals Statics.start) ↔
      (nals.map fun nal => packetCount nal.length).sum ≤ 65534 := by
  rw [Consecutive, seqNos_eq]
  exact start_chain_iff _

/-- 65535 NALs of one byte: the last packet is numbered 0 after 65534. -/
theorem not_consecutive_at_wrap :
    ¬ Consecutive (sendAll (h264naltortp_send 25) (List.replicate 65535 [0x65]) Statics.start) := by
  rw [Consecutive, seqNos_eq, start_chain_iff, List.map_replicate, List.sum_replicate]
  decide

end CodeClips.Rtp
