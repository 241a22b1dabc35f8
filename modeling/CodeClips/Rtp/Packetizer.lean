import CodeClips.Rtp.Header

/-!
# The packetiser: `h264naltortp_send` and `h264naltortp_send_tcp`

The two functions have one body and differ in what they do with a finished packet:
`send_h264file_rtp.c` calls `deal_func`, `test_tcp_send_nal.c` calls
`send_data_to_client_list`. `h264naltortp` is that body; a packet is the first
`len_sendbuf` bytes of `SENDBUFFER` at the call.

`packets_eq` says what a call emits without the buffer: the NAL is cut into RTP loads
(`rtpLoads`), and each load gets a header whose number is one more than the last.
-/

namespace CodeClips.Rtp

def RTP_PAYLOAD_MAX_SIZE : Nat := 1400
def SEND_BUF_SIZE : Nat := 1500
def SSRC_NUM : BitVec 32 := 10
def UINT16_MAX : BitVec 16 := 65535

/-- The function's `static` variables. -/
structure Statics where
  ts_current : BitVec 32
  seq_num : BitVec 16
deriving DecidableEq, Repr

/-- Their values when the program starts. -/
def Statics.start : Statics := { ts_current := 0, seq_num := 0 }

/-- What a call returns, the packets it hands on, and the statics it leaves. -/
structure SendResult where
  ret : Int
  packets : List (List Byte)
  statics : Statics
deriving DecidableEq, Repr

/-- `memset(SENDBUFFER, 0, SEND_BUF_SIZE)`. -/
def clearedBuffer : List Byte := List.replicate SEND_BUF_SIZE 0

/-- The header every branch writes; `seq_num` is the counter after its increment. -/
def rtp_hdr (st : Statics) (marker : BitVec 1) : rtp_header_t :=
  { rtp_header_t.zero with
    version := 2
    payload_type := H264
    marker := marker
    seq_no := htons (st.seq_num % UINT16_MAX)
    timestamp := htonl st.ts_current
    ssrc := htonl SSRC_NUM }

/-- `++seq_num`. -/
def Statics.next (st : Statics) : Statics := { st with seq_num := st.seq_num + 1 }

/-- The single NAL unit branch. The marker bit is the one `memset` left. -/
def singlePacket (st : Statics) (nalu_buf : List Byte) : List Byte :=
  let b := nalu_buf.headD 0
  let nalu_hdr : nalu_header_t :=
    { f := ((b &&& 0x80#8) >>> 7).setWidth 1
      nri := ((b &&& 0x60#8) >>> 5).setWidth 2
      type := (b &&& 0x1f#8).setWidth 5 }
  let buf := blit clearedBuffer 0 (rtp_hdr st 0).bytes
  let buf := blit buf 12 [nalu_hdr.byte]
  let buf := blit buf 13 (slice nalu_buf 1 (nalu_buf.length - 1))
  buf.take (12 + nalu_buf.length)

/-- The bytes 12 and 13 of an FU-A packet. -/
def fu_ind (nalu_buf : List Byte) : fu_indicator_t :=
  let b := nalu_buf.headD 0
  { f := ((b &&& 0x80#8) >>> 7).setWidth 1, nri := ((b &&& 0x60#8) >>> 5).setWidth 2, type := 28 }

def fu_hdr (nalu_buf : List Byte) (s e : BitVec 1) : fu_header_t :=
  { s := s, e := e, r := 0, type := (nalu_buf.headD 0 &&& 0x1f#8).setWidth 5 }

/-- The four writes an FU-A branch makes, and the prefix it sends. -/
def fuPacket (hdr : rtp_header_t) (ind : fu_indicator_t) (fu : fu_header_t) (src : List Byte)
    (len_sendbuf : Nat) : List Byte :=
  let buf := blit clearedBuffer 0 hdr.bytes
  let buf := blit buf 12 [ind.byte]
  let buf := blit buf 13 [fu.byte]
  let buf := blit buf 14 src
  buf.take len_sendbuf

def fu_pack_num (nalu_len : Nat) : Nat :=
  if nalu_len % RTP_PAYLOAD_MAX_SIZE ≠ 0 then nalu_len / RTP_PAYLOAD_MAX_SIZE + 1
  else nalu_len / RTP_PAYLOAD_MAX_SIZE

def last_fu_pack_size (nalu_len : Nat) : Nat :=
  if nalu_len % RTP_PAYLOAD_MAX_SIZE ≠ 0 then nalu_len % RTP_PAYLOAD_MAX_SIZE
  else RTP_PAYLOAD_MAX_SIZE

/-- One pass of the `for (fu_seq ...)` body: first, middle or last FU-A. -/
def fuBody (st : Statics) (nalu_buf : List Byte) (fu_seq : Nat) : List Byte :=
  let nalu_len := nalu_buf.length
  if fu_seq = 0 then
    fuPacket (rtp_hdr st 0) (fu_ind nalu_buf) (fu_hdr nalu_buf 1 0)
      (slice nalu_buf 1 (RTP_PAYLOAD_MAX_SIZE - 1)) (12 + 2 + (RTP_PAYLOAD_MAX_SIZE - 1))
  else if fu_seq < fu_pack_num nalu_len - 1 then
    fuPacket (rtp_hdr st 0) (fu_ind nalu_buf) (fu_hdr nalu_buf 0 0)
      (slice nalu_buf (RTP_PAYLOAD_MAX_SIZE * fu_seq) RTP_PAYLOAD_MAX_SIZE)
      (12 + 2 + RTP_PAYLOAD_MAX_SIZE)
  else
    fuPacket (rtp_hdr st 1) (fu_ind nalu_buf) (fu_hdr nalu_buf 0 1)
      (slice nalu_buf (RTP_PAYLOAD_MAX_SIZE * fu_seq) (last_fu_pack_size nalu_len))
      (12 + 2 + last_fu_pack_size nalu_len)

/-- The loop from `fu_seq` on, `left` passes before `fu_pack_num`. -/
def fuLoop (nalu_buf : List Byte) (fu_seq : Nat) : Nat → Statics → List (List Byte) × Statics
  | 0, st => ([], st)
  | left + 1, st =>
    let st := st.next
    let (rest, st') := fuLoop nalu_buf (fu_seq + 1) left st
    (fuBody st nalu_buf fu_seq :: rest, st')

/-- A frame rate that C divides by. -/
abbrev FrameRate := { framerate : Int // framerate ≠ 0 }

instance {n : Nat} : OfNat FrameRate (n + 1) := ⟨⟨n + 1, by omega⟩⟩

/-- The common body. `pstStream` holds the `nalu_len` bytes of the NAL. The clock is
advanced before the length is checked. -/
def h264naltortp (framerate : FrameRate) (pstStream : List Byte) (st : Statics) : SendResult :=
  let nalu_len := pstStream.length
  let st := { st with ts_current := st.ts_current + BitVec.ofInt 32 (Int.tdiv 90000 framerate.val) }
  if nalu_len < 1 then
    { ret := -1, packets := [], statics := st }
  else if nalu_len ≤ RTP_PAYLOAD_MAX_SIZE then
    let st := st.next
    { ret := 0, packets := [singlePacket st pstStream], statics := st }
  else
    let (packets, st) := fuLoop pstStream 0 (fu_pack_num nalu_len) st
    { ret := 0, packets := packets, statics := st }

/-- `send_h264file_rtp.c`: each packet is announced to `deal_func`. -/
def h264naltortp_send (framerate : FrameRate) (pstStream : List Byte) (st : Statics) : SendResult :=
  h264naltortp framerate pstStream st

/-- `test_tcp_send_nal.c`: each packet goes to `send_data_to_client_list`. -/
def h264naltortp_send_tcp (framerate : FrameRate) (pstStream : List Byte) (st : Statics) : SendResult :=
  h264naltortp framerate pstStream st

/-- The packets of one run: the NALs are handed over in order, the statics live on. -/
def sendAll (send : List Byte → Statics → SendResult) : List (List Byte) → Statics → List (List Byte)
  | [], _ => []
  | nal :: nals, st => (send nal st).packets ++ sendAll send nals (send nal st).statics

/-! ## What a packet holds -/

/-- The cleared buffer after the header is written. -/
theorem header_written (h : rtp_header_t) :
    blit clearedBuffer 0 h.bytes = h.bytes ++ List.replicate 1488 0 := by
  rw [blit_zero, rtp_header_t.bytes_length, clearedBuffer, SEND_BUF_SIZE, List.drop_replicate]

/-- A single packet is the header and the NAL. -/
theorem singlePacket_eq (st : Statics) {nal : List Byte} (nonempty : nal ≠ []) :
    singlePacket st nal = (rtp_hdr st 0).bytes ++ nal := by
  obtain ⟨b, body, rfl⟩ := List.exists_cons_of_ne_nil nonempty
  have rest : slice (b :: body) 1 ((b :: body).length - 1) = body := by simp [slice]
  simp only [singlePacket, List.headD_cons, nalu_header_byte, rest]
  rw [header_written, ← (rtp_hdr st 0).bytes_length, blit_append, take_blit_append]
  · simp
  · simp
  · simp
    omega

/-- An FU-A packet is the header, the two FU bytes and the fragment. -/
theorem fuPacket_eq (hdr : rtp_header_t) (ind : fu_indicator_t) (fu : fu_header_t) {src : List Byte}
    {len_sendbuf : Nat} (count : len_sendbuf = 14 + src.length) :
    fuPacket hdr ind fu src len_sendbuf = hdr.bytes ++ (ind.byte :: fu.byte :: src) := by
  have indicator := blit_append hdr.bytes [ind.byte] (List.replicate 1488 0)
  have header := blit_append (hdr.bytes ++ [ind.byte]) [fu.byte] (List.replicate 1487 0)
  simp only [List.length_append, rtp_header_t.bytes_length, List.length_singleton] at indicator header
  simp only [fuPacket, header_written]
  rw [indicator, List.drop_replicate, header, take_blit_append]
  · simp
  · simp
  · simpa using count

/-- What an RTP packet carries, and the marker bit its header has. -/
structure Load where
  marker : BitVec 1
  bytes : List Byte
deriving DecidableEq, Repr

/-- The fragment of the NAL that FU-A number `fu_seq` carries. -/
def fragment (nal : List Byte) (fu_seq : Nat) : List Byte :=
  if fu_seq = 0 then slice nal 1 (RTP_PAYLOAD_MAX_SIZE - 1)
  else if fu_seq < fu_pack_num nal.length - 1 then
    slice nal (RTP_PAYLOAD_MAX_SIZE * fu_seq) RTP_PAYLOAD_MAX_SIZE
  else slice nal (RTP_PAYLOAD_MAX_SIZE * fu_seq) (last_fu_pack_size nal.length)

/-- The number of bytes FU-A number `fu_seq` copies. -/
def fragmentSize (nalu_len fu_seq : Nat) : Nat :=
  if fu_seq = 0 then RTP_PAYLOAD_MAX_SIZE - 1
  else if fu_seq < fu_pack_num nalu_len - 1 then RTP_PAYLOAD_MAX_SIZE
  else last_fu_pack_size nalu_len

/-- The S bit is on the first fragment. -/
def startBit (fu_seq : Nat) : BitVec 1 := if fu_seq = 0 then 1 else 0

/-- The E bit, and the marker, are on the last fragment of several. -/
def endBit (nalu_len fu_seq : Nat) : BitVec 1 :=
  if fu_seq ≠ 0 ∧ fu_pack_num nalu_len - 1 ≤ fu_seq then 1 else 0

/-- The load of FU-A number `fu_seq`. -/
def fuLoad (nal : List Byte) (fu_seq : Nat) : Load :=
  let e := endBit nal.length fu_seq
  { marker := e
    bytes := (fu_ind nal).byte :: (fu_hdr nal (startBit fu_seq) e).byte :: fragment nal fu_seq }

/-- The loads a NAL is sent as. -/
def rtpLoads (nal : List Byte) : List Load :=
  if nal.length < 1 then []
  else if nal.length ≤ RTP_PAYLOAD_MAX_SIZE then [{ marker := 0, bytes := nal }]
  else (List.range (fu_pack_num nal.length)).map (fuLoad nal)

/-- Loads with consecutive headers: the counter is incremented before each. -/
def stamp : Statics → List Load → List (List Byte)
  | _, [] => []
  | st, l :: ls => ((rtp_hdr st.next l.marker).bytes ++ l.bytes) :: stamp st.next ls

/-- The statics after `n` packets. -/
def Statics.advance (st : Statics) (n : Nat) : Statics :=
  { st with seq_num := st.seq_num + BitVec.ofNat 16 n }

/-- The statics after the clock moved on by one frame. -/
def Statics.tick (st : Statics) (framerate : FrameRate) : Statics :=
  { st with ts_current := st.ts_current + BitVec.ofInt 32 (Int.tdiv 90000 framerate.val) }

@[simp] theorem Statics.advance_zero (st : Statics) : st.advance 0 = st := by
  simp [Statics.advance]

theorem Statics.next_advance (st : Statics) (n : Nat) : st.next.advance n = st.advance (n + 1) := by
  simp only [Statics.next, Statics.advance, BitVec.ofNat_add, BitVec.add_assoc]
  rw [BitVec.add_comm 1 (BitVec.ofNat 16 n)]
  rfl

/-! The three branches differ in the slice and the two flags, and their sizes add up. -/

theorem fu_pack_num_mul (n : Nat) (long : RTP_PAYLOAD_MAX_SIZE < n) :
    1 < fu_pack_num n ∧ 0 < last_fu_pack_size n ∧ last_fu_pack_size n ≤ RTP_PAYLOAD_MAX_SIZE ∧
      n = RTP_PAYLOAD_MAX_SIZE * (fu_pack_num n - 1) + last_fu_pack_size n := by
  unfold fu_pack_num last_fu_pack_size RTP_PAYLOAD_MAX_SIZE at *
  split <;> omega

theorem fragment_length {nal : List Byte} {k : Nat} (long : RTP_PAYLOAD_MAX_SIZE < nal.length)
    (bound : k < fu_pack_num nal.length) : (fragment nal k).length = fragmentSize nal.length k := by
  obtain ⟨many, _, _, extent⟩ := fu_pack_num_mul nal.length long
  unfold fragment fragmentSize
  split_ifs with first middle
  · rw [slice_length]
    omega
  · have room := Nat.mul_le_mul_left RTP_PAYLOAD_MAX_SIZE (show k + 1 ≤ fu_pack_num nal.length - 1 by omega)
    rw [Nat.mul_succ] at room
    rw [slice_length]
    omega
  · rw [show k = fu_pack_num nal.length - 1 by omega, slice_length]
    omega

/-- Each pass of the loop sends its load under its own marker. -/
theorem fuBody_eq (st : Statics) {nal : List Byte} {k : Nat} (long : RTP_PAYLOAD_MAX_SIZE < nal.length)
    (bound : k < fu_pack_num nal.length) :
    fuBody st nal k = (rtp_hdr st (fuLoad nal k).marker).bytes ++ (fuLoad nal k).bytes := by
  have size := fragment_length long bound
  by_cases first : k = 0
  · simp only [fragment, fragmentSize, first, if_true] at size
    simp only [fuBody, fuLoad, endBit, startBit, fragment, first, if_true]
    rw [fuPacket_eq _ _ _ (by omega)]
    rfl
  · by_cases middle : k < fu_pack_num nal.length - 1
    · have notEnd : ¬ fu_pack_num nal.length - 1 ≤ k := by omega
      simp only [fragment, fragmentSize, first, middle, if_true, if_false] at size
      simp only [fuBody, fuLoad, endBit, startBit, fragment, first, middle, notEnd, if_true, if_false,
        and_false]
      exact fuPacket_eq _ _ _ (by omega)
    · have isEnd : fu_pack_num nal.length - 1 ≤ k := by omega
      simp only [fragment, fragmentSize, first, middle, if_false] at size
      simp only [fuBody, fuLoad, endBit, startBit, fragment, first, middle, isEnd, if_true, if_false,
        ne_eq, not_false_iff, and_self]
      exact fuPacket_eq _ _ _ (by omega)

theorem fuLoop_eq {nal : List Byte} (long : RTP_PAYLOAD_MAX_SIZE < nal.length) (left k : Nat)
    (st : Statics) (count : k + left = fu_pack_num nal.length) :
    fuLoop nal k left st = (stamp st ((List.range' k left).map (fuLoad nal)), st.advance left) := by
  induction left generalizing k st with
  | zero => simp [fuLoop, stamp]
  | succ left ih =>
    have tail := ih (k + 1) st.next (by omega)
    simp only [fuLoop, tail, List.range'_succ, List.map_cons, stamp]
    rw [fuBody_eq st.next long (by omega), Statics.next_advance]

/-- **One call.** It emits the NAL's loads, numbered from the counter it finds. -/
theorem packets_eq (framerate : FrameRate) (nal : List Byte) (st : Statics) :
    (h264naltortp framerate nal st).packets = stamp (st.tick framerate) (rtpLoads nal) ∧
      (h264naltortp framerate nal st).statics = (st.tick framerate).advance (rtpLoads nal).length := by
  unfold h264naltortp rtpLoads
  by_cases empty : nal.length < 1
  · simp only [empty, if_true, stamp, List.length_nil, Statics.advance_zero, Statics.tick, and_self]
  by_cases short : nal.length ≤ RTP_PAYLOAD_MAX_SIZE
  · have nonempty : nal ≠ [] := by rintro rfl; simp at empty
    simp only [empty, short, if_true, if_false, stamp, singlePacket_eq _ nonempty, List.length_singleton]
    exact ⟨rfl, (Statics.advance_zero _).symm.trans (Statics.next_advance _ 0)⟩
  · have loop := @fuLoop_eq nal (by omega) (fu_pack_num nal.length) 0 (st.tick framerate) (by omega)
    simp only [Statics.tick] at loop
    simp only [empty, short, if_false, loop, ← List.range_eq_range', List.length_map, List.length_range,
      Statics.tick, and_self]

end CodeClips.Rtp
