import CodeClips.Rtp.Packetizer
import CodeClips.Rtp.Depacketizer

/-!
# Packetiser and depacketiser round trip

`fragments_flatten`: the FU-A fragments of a NAL are the NAL without its first byte.
`nal_roundTrip`: the packets of one NAL decode to the start code and the NAL.
`stream_roundTrip`: so do the packets of a list of NALs, in one run of the sender.
-/

namespace CodeClips.Rtp

/-- The Annex-B stream of a list of NALs, with 4-byte start codes. -/
def annexB (nals : List (List Byte)) : List Byte := nals.flatMap (startCode ++ ·)

/-- A NAL the two programs agree on: non-empty, and a short one is not of the FU-A type. -/
structure Packetisable (nal : List Byte) : Prop where
  nonempty : 1 ≤ nal.length
  notFuA : nal.length ≤ RTP_PAYLOAD_MAX_SIZE → (nalu_header_t.ofByte (nal.headD 0)).type ≠ 28

/-- The fragments of a NAL, in order, are its bytes after the first. -/
theorem fragments_flatten {nal : List Byte} (long : RTP_PAYLOAD_MAX_SIZE < nal.length) :
    (List.range (fu_pack_num nal.length)).flatMap (fragment nal) = nal.drop 1 := by
  obtain ⟨many, _, _, extent⟩ := fu_pack_num_mul nal.length long
  obtain ⟨m, count⟩ : ∃ m, fu_pack_num nal.length = 1 + m + 1 := ⟨fu_pack_num nal.length - 2, by omega⟩
  rw [count, show 1 + m + 1 - 1 = 1 + m by omega] at extent
  have slices := slices_from nal RTP_PAYLOAD_MAX_SIZE (last_fu_pack_size nal.length) 1 m extent
  have middles : (List.range' 1 m).flatMap (fragment nal) =
      (List.range' 1 m).flatMap (fun i => slice nal (RTP_PAYLOAD_MAX_SIZE * i) RTP_PAYLOAD_MAX_SIZE) := by
    apply List.flatMap_congr
    intro i hi
    obtain ⟨lower, upper⟩ := List.mem_range'_1.mp hi
    have inner : i ≠ 0 := by omega
    have middle : i < fu_pack_num nal.length - 1 := by omega
    simp only [fragment, inner, middle, if_true, if_false]
  have last : fragment nal (1 + m) =
      slice nal (RTP_PAYLOAD_MAX_SIZE * (1 + m)) (last_fu_pack_size nal.length) := by
    have inner : 1 + m ≠ 0 := by omega
    have outer : ¬ 1 + m < fu_pack_num nal.length - 1 := by omega
    simp only [fragment, inner, outer, if_false]
  have split : List.range (1 + m + 1) = 0 :: List.range' 1 m ++ [1 + m] := by
    rw [List.range_succ, List.range_eq_range', Nat.add_comm 1 m, List.range'_succ]
  rw [count, split, List.flatMap_append, List.flatMap_cons, List.flatMap_singleton, middles, last,
    List.append_assoc, slices]
  have first : fragment nal 0 = (nal.drop 1).take (RTP_PAYLOAD_MAX_SIZE - 1) := by
    simp only [fragment, if_true, slice]
  have rest : nal.drop (RTP_PAYLOAD_MAX_SIZE * 1) = (nal.drop 1).drop (RTP_PAYLOAD_MAX_SIZE - 1) := by
    rw [List.drop_drop]
    rfl
  rw [first, rest, List.take_append_drop]

/-! The header byte survives both paths; each fact about it is one check of all 256 bytes. -/

theorem single_header (b : Byte) :
    let h := nalu_header_t.ofByte b
    h264_nal_header h.type h.nri h.f = b := by
  revert b
  decide

/-- The fields the sender splits off are those the receiver puts together. -/
theorem fu_fields (b : Byte) :
    h264_nal_header ((b &&& 0x1f#8).setWidth 5) (((b &&& 0x60#8) >>> 5).setWidth 2)
      (((b &&& 0x80#8) >>> 7).setWidth 1) = b := by
  revert b
  decide

/-- The indicator is of type 28, and with the FU header of a first fragment it gives back
the NAL header. -/
theorem fu_header_roundTrip (nal : List Byte) (s e : BitVec 1) :
    let ind := nalu_header_t.ofByte (fu_ind nal).byte
    let fu := fu_header_t.ofByte (fu_hdr nal s e).byte
    ind.type = 28 ∧ fu.s = s ∧ fu.e = e ∧ h264_nal_header fu.type ind.nri ind.f = nal.headD 0 := by
  rw [nalu_header_t.ofByte_indicator, fu_header_t.ofByte_byte]
  exact ⟨rfl, rfl, rfl, fu_fields (nal.headD 0)⟩

theorem bytes_at (hdr : rtp_header_t) (x : Byte) (rest : List Byte) :
    (hdr.bytes ++ x :: rest).getD 12 0 = x ∧ (hdr.bytes ++ x :: rest).drop 13 = rest := ⟨rfl, rfl⟩

theorem bytes_at_fu (hdr : rtp_header_t) (x y : Byte) (rest : List Byte) :
    (hdr.bytes ++ x :: y :: rest).getD 12 0 = x ∧ (hdr.bytes ++ x :: y :: rest).getD 13 0 = y ∧
      (hdr.bytes ++ x :: y :: rest).drop 14 = rest := ⟨rfl, rfl, rfl⟩

/-- A single NAL unit packet decodes to the NAL. -/
theorem single_output (hdr : rtp_header_t) {nal : List Byte} (ok : Packetisable nal)
    (short : nal.length ≤ RTP_PAYLOAD_MAX_SIZE) :
    chunkOutput (hdr.bytes ++ nal) = some (startCode ++ nal) := by
  obtain ⟨b, body, rfl⟩ := List.exists_cons_of_length_pos ok.nonempty
  have type := ok.notFuA short
  obtain ⟨byte12, tail⟩ := bytes_at hdr b body
  have enough : ¬ (hdr.bytes ++ b :: body).length < 13 := by
    simp only [List.length_append, rtp_header_t.bytes_length, List.length_cons]
    omega
  rw [List.headD_cons] at type
  simp only [chunkOutput, enough, if_false, byte12, type, tail, single_header b]

/-- An FU-A packet decodes to its payload; the receiver puts the start code and the NAL
header in front when the S bit is set and the E bit is not. -/
theorem fu_decodes (hdr : rtp_header_t) (nal : List Byte) (s e : BitVec 1) (payload : List Byte) :
    chunkOutput (hdr.bytes ++ (fu_ind nal).byte :: (fu_hdr nal s e).byte :: payload) =
      some (if e ≠ 1 ∧ s = 1 then startCode ++ nal.headD 0 :: payload else payload) := by
  obtain ⟨type, sBit, eBit, header⟩ := fu_header_roundTrip nal s e
  obtain ⟨byte12, byte13, tail⟩ := bytes_at_fu hdr (fu_ind nal).byte (fu_hdr nal s e).byte payload
  have enough : ∀ n, n ≤ 14 →
      ¬ (hdr.bytes ++ (fu_ind nal).byte :: (fu_hdr nal s e).byte :: payload).length < n := by
    intro n small
    simp only [List.length_append, rtp_header_t.bytes_length, List.length_cons]
    omega
  simp only [chunkOutput, enough 13 (by omega), enough 14 (by omega), if_false, byte12, byte13, type,
    if_true, sBit, eBit, tail, header]
  by_cases last : e = 1
  · rw [if_pos last, if_neg (fun both => both.1 last)]
  · rw [if_neg last]
    by_cases first : s = 1
    · rw [if_pos first, if_pos ⟨last, first⟩]
    · rw [if_neg first, if_neg (fun both => first both.2)]

/-- What the receiver writes in front of fragment number `fu_seq`. -/
def fuLead (b : Byte) (fu_seq : Nat) : List Byte := if fu_seq = 0 then startCode ++ [b] else []

/-- The flags of fragment `fu_seq` of any NAL announce the NAL exactly at the first. -/
theorem fuFlags_decode (b : Byte) (nalu_len fu_seq : Nat) (payload : List Byte) :
    (if endBit nalu_len fu_seq ≠ 1 ∧ startBit fu_seq = 1 then startCode ++ b :: payload else payload) =
      fuLead b fu_seq ++ payload := by
  by_cases first : fu_seq = 0
  · simp [endBit, startBit, fuLead, first]
  · simp [startBit, fuLead, first]

theorem fu_output (hdr : rtp_header_t) (nal : List Byte) (k : Nat) :
    chunkOutput (hdr.bytes ++ (fuLoad nal k).bytes) = some (fuLead (nal.headD 0) k ++ fragment nal k) := by
  rw [fuLoad, fu_decodes, fuFlags_decode]

/-- The fragments from the `k`-th on, wherever the counter stands. -/
theorem fus_output (nal : List Byte) (k m : Nat) (st : Statics) :
    chunksOutput (stamp st ((List.range' k m).map (fuLoad nal))) =
      some ((List.range' k m).flatMap fun k => fuLead (nal.headD 0) k ++ fragment nal k) := by
  induction m generalizing k st with
  | zero => rfl
  | succ m ih =>
    simp only [List.range'_succ, List.map_cons, stamp, chunksOutput, fu_output, ih, List.flatMap_cons,
      Option.bind_eq_bind, Option.bind_some]

/-- Only the first fragment has the start code and the NAL header in front. -/
theorem fuLead_once (nal : List Byte) (m : Nat) :
    ((List.range (m + 1)).flatMap fun k => fuLead (nal.headD 0) k ++ fragment nal k) =
      startCode ++ nal.headD 0 :: (List.range (m + 1)).flatMap (fragment nal) := by
  have rest : (List.range' 1 m).flatMap (fun k => fuLead (nal.headD 0) k ++ fragment nal k) =
      (List.range' 1 m).flatMap (fragment nal) := by
    apply List.flatMap_congr
    intro k listed
    have later := (List.mem_range'_1.mp listed).1
    have inner : k ≠ 0 := by omega
    rw [fuLead, if_neg inner, List.nil_append]
  rw [List.range_eq_range', List.range'_succ, List.flatMap_cons, List.flatMap_cons, rest, fuLead, if_pos rfl]
  simp only [List.append_assoc, List.cons_append, List.nil_append]

/-- The packets of one NAL decode to the start code and the NAL. -/
theorem nal_roundTrip (st : Statics) {nal : List Byte} (ok : Packetisable nal) :
    chunksOutput (stamp st (rtpLoads nal)) = some (startCode ++ nal) := by
  have nonempty : ¬ nal.length < 1 := Nat.not_lt.mpr ok.nonempty
  by_cases short : nal.length ≤ RTP_PAYLOAD_MAX_SIZE
  · simp [rtpLoads, nonempty, short, stamp, chunksOutput, single_output _ ok short]
  · have long : RTP_PAYLOAD_MAX_SIZE < nal.length := Nat.lt_of_not_le short
    obtain ⟨many, _, _, _⟩ := fu_pack_num_mul nal.length long
    obtain ⟨m, count⟩ : ∃ m, fu_pack_num nal.length = m + 1 := ⟨fu_pack_num nal.length - 1, by omega⟩
    have whole := fragments_flatten long
    rw [count] at whole
    obtain ⟨b, body, rfl⟩ := List.exists_cons_of_length_pos ok.nonempty
    rw [rtpLoads, if_neg nonempty, if_neg short, List.range_eq_range', fus_output, ← List.range_eq_range', count,
      fuLead_once, whole]
    rfl

/-- **The round trip.** Whatever frame rate, counter and clock the sender starts from, and
whatever the receive buffer holds, the file is the Annex-B stream of the NALs. -/
theorem stream_roundTrip (framerate : FrameRate) (st : Statics) (recv_buf : List Byte) (nals : List (List Byte))
    (ok : ∀ nal ∈ nals, Packetisable nal) :
    recv_fun recv_buf (sendAll (h264naltortp_send_tcp framerate) nals st) = some (annexB nals) := by
  rw [recv_fun_eq]
  induction nals generalizing st with
  | nil => rfl
  | cons nal nals ih =>
    obtain ⟨packets, _⟩ := packets_eq framerate nal st
    have head := nal_roundTrip (st.tick framerate) (ok nal (by simp))
    have tail := ih (h264naltortp_send_tcp framerate nal st).statics
      (fun n hn => ok n (List.mem_cons_of_mem _ hn))
    rw [← packets] at head
    exact chunksOutput_append head tail

/-- Two NALs, a short one and one of three fragments, through one run. -/
theorem stream_roundTrip_two :
    recv_fun (List.replicate 2000 0)
        (sendAll (h264naltortp_send_tcp 25) [[0x67, 0x42], 0x65 :: List.replicate 2801 7] Statics.start) =
      some (annexB [[0x67, 0x42], 0x65 :: List.replicate 2801 7]) := by
  apply stream_roundTrip
  intro nal hnal
  simp only [List.mem_cons, List.not_mem_nil, or_false] at hnal
  rcases hnal with rfl | rfl
  · exact ⟨by decide, fun _ => by decide⟩
  · constructor
    · rw [List.length_cons]
      omega
    · intro short
      rw [List.length_cons, List.length_replicate, RTP_PAYLOAD_MAX_SIZE] at short
      omega

end CodeClips.Rtp
