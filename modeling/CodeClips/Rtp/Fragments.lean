import CodeClips.Rtp.RoundTrip
import CodeClips.Rtp.SequenceNumber
import CodeClips.Rtp.Timestamps

/-!
# FU-A fragmentation

A NAL of more than `RTP_PAYLOAD_MAX_SIZE` bytes leaves in several packets. `FuA` is what the
packet number `k` of `n` is to look like, read from its bytes as a receiver would;
`fuA_wellFormed` says that the packets of a call are those, and that the `memcpy` of each
pass (`fuCopy`) stays inside `SENDBUFFER` and the NAL.
-/

namespace CodeClips.Rtp

/-- The `memcpy` into `SENDBUFFER + 14`: where in `nalu_buf` it reads, and how many bytes. -/
structure Copy where
  src : Nat
  count : Nat
deriving DecidableEq, Repr

/-- The `memcpy` of the pass `fu_seq`. -/
def fuCopy (nalu_len fu_seq : Nat) : Copy :=
  if fu_seq = 0 then { src := 1, count := RTP_PAYLOAD_MAX_SIZE - 1 }
  else if fu_seq < fu_pack_num nalu_len - 1 then
    { src := RTP_PAYLOAD_MAX_SIZE * fu_seq, count := RTP_PAYLOAD_MAX_SIZE }
  else { src := RTP_PAYLOAD_MAX_SIZE * fu_seq, count := last_fu_pack_size nalu_len }

/-- The marker bit a receiver reads from a packet. -/
def markerOf (packet : List Byte) : BitVec 1 := (packet.getD 1 0).extractLsb' 7 1

/-- The NAL header, or FU indicator, and the FU header a receiver reads from a packet. -/
def naluHeaderOf (packet : List Byte) : nalu_header_t := nalu_header_t.ofByte (packet.getD 12 0)

def fuHeaderOf (packet : List Byte) : fu_header_t := fu_header_t.ofByte (packet.getD 13 0)

/-- Packet number `k` of the `n` FU-A packets of a NAL. -/
structure FuA (nal : List Byte) (timestamp : BitVec 32) (n k : Nat) (packet : List Byte) : Prop where
  fuA : (naluHeaderOf packet).type = 28
  sameTime : timestampOf packet = timestamp
  sameType : (fuHeaderOf packet).type = (nalu_header_t.ofByte (nal.headD 0)).type
  start : (fuHeaderOf packet).s = 1 ↔ k = 0
  stop : (fuHeaderOf packet).e = 1 ↔ k + 1 = n
  marker : markerOf packet = 1 ↔ k + 1 = n
  payload : packet.drop 14 = slice nal (fuCopy nal.length k).src (fuCopy nal.length k).count
  sizes : (packet.drop 14).length =
    if k = 0 then RTP_PAYLOAD_MAX_SIZE - 1
    else if k + 1 < n then RTP_PAYLOAD_MAX_SIZE
    else nal.length - RTP_PAYLOAD_MAX_SIZE * (n - 1)
  small : 14 ≤ packet.length ∧ packet.length ≤ 1414

/-! ## What the copies are -/

theorem fragment_eq_copy (nal : List Byte) (k : Nat) :
    fragment nal k = slice nal (fuCopy nal.length k).src (fuCopy nal.length k).count := by
  unfold fragment fuCopy
  split_ifs <;> rfl

/-- The number of passes, the size of the last one and the number of packets. -/
theorem fu_pack_num_eq {nalu_len : Nat} (long : RTP_PAYLOAD_MAX_SIZE < nalu_len) :
    fu_pack_num nalu_len = packetCount nalu_len ∧
      last_fu_pack_size nalu_len = nalu_len - RTP_PAYLOAD_MAX_SIZE * (packetCount nalu_len - 1) := by
  obtain ⟨_, _, _, extent⟩ := fu_pack_num_mul nalu_len long
  have count : fu_pack_num nalu_len = packetCount nalu_len := by
    unfold fu_pack_num packetCount RTP_PAYLOAD_MAX_SIZE
    split <;> omega
  rw [count] at extent
  exact ⟨count, by omega⟩

/-- **The copies** stay inside the send buffer and the NAL. -/
theorem fuCopy_inside {nalu_len k : Nat} (long : RTP_PAYLOAD_MAX_SIZE < nalu_len) (pass : k < fu_pack_num nalu_len) :
    14 + (fuCopy nalu_len k).count ≤ SEND_BUF_SIZE ∧
      (fuCopy nalu_len k).src + (fuCopy nalu_len k).count ≤ nalu_len := by
  obtain ⟨many, _, most, extent⟩ := fu_pack_num_mul nalu_len long
  have room : RTP_PAYLOAD_MAX_SIZE = 1400 ∧ SEND_BUF_SIZE = 1500 := ⟨rfl, rfl⟩
  unfold fuCopy
  split_ifs with first middle
  · constructor <;> dsimp only <;> omega
  · have before := Nat.mul_le_mul_left RTP_PAYLOAD_MAX_SIZE (show k + 1 ≤ fu_pack_num nalu_len - 1 by omega)
    rw [Nat.mul_succ] at before
    constructor <;> dsimp only <;> omega
  · have last : k = fu_pack_num nalu_len - 1 := by omega
    subst last
    constructor <;> dsimp only <;> omega

/-! ## What a packet holds -/

theorem stamp_length (st : Statics) (loads : List Load) : (stamp st loads).length = loads.length := by
  induction loads generalizing st with
  | nil => rfl
  | cons load loads ih => rw [stamp, List.length_cons, ih, List.length_cons]

/-- The packets of `stamp`, by their number. -/
theorem stamp_getElem? (st : Statics) (loads : List Load) (k : Nat) :
    (stamp st loads)[k]? =
      loads[k]?.map fun load => (rtp_hdr (st.advance (k + 1)) load.marker).bytes ++ load.bytes := by
  induction loads generalizing st k with
  | nil => rfl
  | cons load loads ih =>
    cases k with
    | zero => simp [stamp, ← Statics.next_advance]
    | succ k => rw [stamp, List.getElem?_cons_succ, List.getElem?_cons_succ, ih, Statics.next_advance]

theorem markerOf_bytes (h : rtp_header_t) (load : List Byte) : markerOf (h.bytes ++ load) = h.marker := by
  simp only [markerOf, rtp_header_t.bytes, List.cons_append, List.nil_append, List.getD_cons_succ,
    List.getD_cons_zero]
  ext i hi
  simp only [BitVec.getElem_extractLsb', BitVec.getLsbD_append]
  grind -ring -linarith

/-- The E bit and the marker mark the last pass. -/
theorem endBit_eq {nalu_len k : Nat} (long : RTP_PAYLOAD_MAX_SIZE < nalu_len) (pass : k < fu_pack_num nalu_len) :
    endBit nalu_len k = 1 ↔ k + 1 = fu_pack_num nalu_len := by
  have many := (fu_pack_num_mul nalu_len long).1
  unfold endBit
  split_ifs with last
  · exact iff_of_true rfl (by omega)
  · exact iff_of_false (by decide) (by omega)

theorem startBit_eq (k : Nat) : startBit k = 1 ↔ k = 0 := by
  unfold startBit
  split_ifs with first <;> simp [first]

/-- **One packet**, whatever the counter of its header. -/
theorem fuLoad_fuA {nal : List Byte} (long : RTP_PAYLOAD_MAX_SIZE < nal.length) {k : Nat}
    (pass : k < fu_pack_num nal.length) (st : Statics) :
    FuA nal st.ts_current (packetCount nal.length) k
      ((rtp_hdr st (fuLoad nal k).marker).bytes ++ (fuLoad nal k).bytes) := by
  obtain ⟨passes, last⟩ := fu_pack_num_eq long
  obtain ⟨byte12, byte13, tail⟩ := bytes_at_fu (rtp_hdr st (fuLoad nal k).marker) (fu_ind nal).byte
    (fu_hdr nal (startBit k) (endBit nal.length k)).byte (fragment nal k)
  obtain ⟨indicator, sBit, eBit, _⟩ := fu_header_roundTrip nal (startBit k) (endBit nal.length k)
  have size := fragment_length long pass
  have most : (fragment nal k).length ≤ RTP_PAYLOAD_MAX_SIZE := by
    have bound := (fu_pack_num_mul nal.length long).2.2.1
    rw [size]
    unfold fragmentSize
    split_ifs <;> omega
  have whole : ((rtp_hdr st (fuLoad nal k).marker).bytes ++ (fuLoad nal k).bytes).length =
      14 + (fragment nal k).length := by
    simp [fuLoad]
    omega
  refine ⟨?_, timestampOf_bytes _ _ rfl _, ?_, ?_, ?_, ?_, ?_, ?_, ?_⟩
  · exact (congrArg (fun b => (nalu_header_t.ofByte b).type) byte12).trans indicator
  · have fields : fuHeaderOf ((rtp_hdr st (fuLoad nal k).marker).bytes ++ (fuLoad nal k).bytes) =
        fu_hdr nal (startBit k) (endBit nal.length k) :=
      (congrArg fu_header_t.ofByte byte13).trans (fu_header_t.ofByte_byte _)
    rw [fields]
    simp only [fu_hdr, nalu_header_t.ofByte]
    generalize nal.headD 0 = b
    revert b
    decide
  · rw [← startBit_eq, ← sBit]
    exact iff_of_eq (congrArg (fun b => (fu_header_t.ofByte b).s = 1) byte13)
  · rw [← passes, ← endBit_eq long pass, ← eBit]
    exact iff_of_eq (congrArg (fun b => (fu_header_t.ofByte b).e = 1) byte13)
  · rw [markerOf_bytes, ← passes, ← endBit_eq long pass]
    rfl
  · rw [← fragment_eq_copy]
    exact tail
  · refine ((congrArg List.length tail).trans size).trans ?_
    rw [fragmentSize, passes, last]
    split_ifs <;> first | rfl | omega
  · rw [RTP_PAYLOAD_MAX_SIZE] at most
    omega

/-- The packets of a call, by their number. -/
theorem send_packet {nal : List Byte} (long : RTP_PAYLOAD_MAX_SIZE < nal.length) (framerate : FrameRate) (st : Statics)
    (k : Nat) :
    (h264naltortp_send framerate nal st).packets[k]? =
      if k < fu_pack_num nal.length then
        some ((rtp_hdr ((st.tick framerate).advance (k + 1)) (fuLoad nal k).marker).bytes ++ (fuLoad nal k).bytes)
      else none := by
  have several : ¬ nal.length < 1 ∧ ¬ nal.length ≤ RTP_PAYLOAD_MAX_SIZE := by omega
  rw [h264naltortp_send, (packets_eq framerate nal st).1, stamp_getElem?, rtpLoads, if_neg several.1,
    if_neg several.2, List.getElem?_map]
  by_cases pass : k < fu_pack_num nal.length
  · rw [if_pos pass, List.getElem?_range pass]
    rfl
  · rw [if_neg pass, List.getElem?_eq_none (by simpa using pass)]
    rfl

/-- The payloads of stamped loads, joined. -/
theorem stamp_payloads (st : Statics) (nal : List Byte) (ks : List Nat) :
    (stamp st (ks.map (fuLoad nal))).flatMap (·.drop 14) = ks.flatMap (fragment nal) := by
  induction ks generalizing st with
  | nil => rfl
  | cons k ks ih =>
    rw [List.map_cons, stamp, List.flatMap_cons, ih, List.flatMap_cons]
    rfl

/-- **FU-A fragmentation is well formed.** -/
theorem fuA_wellFormed (framerate : FrameRate) (nal : List Byte) (st : Statics)
    (long : RTP_PAYLOAD_MAX_SIZE < nal.length) :
    let packets := (h264naltortp_send framerate nal st).packets
    packets.length = packetCount nal.length ∧
      (∀ k packet, packets[k]? = some packet →
        FuA nal (st.ts_current + tsStep framerate.val) packets.length k packet) ∧
      packets.flatMap (·.drop 14) = nal.drop 1 ∧
      ∀ k, k < packets.length →
        14 + (fuCopy nal.length k).count ≤ SEND_BUF_SIZE ∧
          (fuCopy nal.length k).src + (fuCopy nal.length k).count ≤ nal.length := by
  intro packets
  have passes := (fu_pack_num_eq long).1
  have loads := (packets_eq framerate nal st).1
  have count : packets.length = packetCount nal.length := by
    simp only [packets, h264naltortp_send, loads]
    rw [stamp_length, rtpLoads_length]
  refine ⟨count, ?_, ?_, ?_⟩
  · intro k packet listed
    simp only [packets, send_packet long] at listed
    split_ifs at listed with pass
    cases listed
    rw [count]
    exact fuLoad_fuA long pass ((st.tick framerate).advance (k + 1))
  · have several : ¬ nal.length < 1 ∧ ¬ nal.length ≤ RTP_PAYLOAD_MAX_SIZE := by omega
    simp only [packets, h264naltortp_send, loads, rtpLoads, several, if_false]
    rw [stamp_payloads, fragments_flatten long]
  · intro k pass
    rw [count, ← passes] at pass
    exact fuCopy_inside long pass

/-- A NAL of exactly two loads: the last fragment is full. -/
theorem fuA_wellFormed_multiple :
    let packets := (h264naltortp_send 25 (0x65 :: List.replicate 2799 7) .start).packets
    packets.length = packetCount (0x65 :: List.replicate 2799 (7 : Byte)).length ∧
      (∀ k packet, packets[k]? = some packet →
        FuA (0x65 :: List.replicate 2799 7) (Statics.start.ts_current + tsStep 25) packets.length k packet) ∧
      packets.flatMap (·.drop 14) = (0x65 :: List.replicate 2799 (7 : Byte)).drop 1 ∧
      ∀ k, k < packets.length →
        14 + (fuCopy (0x65 :: List.replicate 2799 (7 : Byte)).length k).count ≤ SEND_BUF_SIZE ∧
          (fuCopy (0x65 :: List.replicate 2799 (7 : Byte)).length k).src +
            (fuCopy (0x65 :: List.replicate 2799 (7 : Byte)).length k).count ≤
            (0x65 :: List.replicate 2799 (7 : Byte)).length :=
  fuA_wellFormed 25 (0x65 :: List.replicate 2799 7) .start (by
    rw [List.length_cons, List.length_replicate, RTP_PAYLOAD_MAX_SIZE]
    decide)

end CodeClips.Rtp
