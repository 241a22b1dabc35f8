import CodeClips.Rtp.RoundTrip
import CodeClips.Rtp.SequenceNumber

/-!
# RTP packets over a TCP byte stream

The sender writes packets to a stream socket, the receiver decodes whatever each `recv`
returns. The kernel chooses the cut; no length prefix or reassembly buffer restores the
packets. `framing_iff` says which cuts give the file of the uncut packets for every
content of the NALs: the cut at the packet boundaries, and no other.

The argument is about frames. A `Frame` is a packet whose payload is left open: a fixed
prefix, what the receiver writes for it, and the number of payload bytes. If a chunk
starts inside a payload, its first byte never reaches the file (`chunkOutput_cons`); if
it holds the start of a second packet, the `0x80` of that header does.
-/

namespace CodeClips.Rtp

/-- A packet with an open payload of `size` bytes. -/
structure Frame where
  /-- The bytes in front of the payload. -/
  front : List Byte
  /-- What the receiver writes in front of the payload. -/
  out : List Byte
  size : Nat
  decodes : ∀ payload, chunkOutput (front ++ payload) = some (out ++ payload)
  truncated : ∀ n, n < front.length → chunkOutput (front.take n) = none
  version : front.head? = some 0x80
  visible : out.head? = some 0 ∨ out = [] ∧ 0 < size

/-- The packet sizes. -/
def Frame.total (f : Frame) : Nat := f.front.length + f.size

/-- The payload bytes a list of frames takes. -/
def payloadSize (fs : List Frame) : Nat := (fs.map Frame.size).sum

/-- The packets, with the payload bytes dealt out in order. -/
def framePackets : List Frame → List Byte → List (List Byte)
  | [], _ => []
  | f :: fs, payload => (f.front ++ payload.take f.size) :: framePackets fs (payload.drop f.size)

/-- The file when every chunk is one packet. -/
def frameOutput : List Frame → List Byte → List Byte
  | [], _ => []
  | f :: fs, payload => f.out ++ payload.take f.size ++ frameOutput fs (payload.drop f.size)

/-- The cut of a list at the lengths of its pieces gives back the pieces. -/
theorem splitLengths_flatten {α : Type*} (ps : List (List α)) :
    (ps.map List.length).splitLengths ps.flatten = ps := by
  induction ps with
  | nil => rfl
  | cons p ps ih => simp [ih]

/-- The first byte of a chunk never reaches the file. -/
theorem chunkOutput_cons (x y : Byte) (rest : List Byte) :
    chunkOutput (x :: rest) = chunkOutput (y :: rest) := by
  simp only [chunkOutput, List.length_cons, List.getD_cons_succ, List.drop_succ_cons]

theorem framePackets_output (fs : List Frame) (payload : List Byte) :
    chunksOutput (framePackets fs payload) = some (frameOutput fs payload) := by
  induction fs generalizing payload with
  | nil => rfl
  | cons f fs ih =>
    simp only [framePackets, chunksOutput, f.decodes, ih, frameOutput, Option.bind_eq_bind, Option.bind_some]

theorem framePackets_lengths (fs : List Frame) {payload : List Byte}
    (enough : payloadSize fs ≤ payload.length) :
    (framePackets fs payload).map List.length = fs.map Frame.total := by
  induction fs generalizing payload with
  | nil => rfl
  | cons f fs ih =>
    simp only [payloadSize, List.map_cons, List.sum_cons] at enough
    have rest : payloadSize fs ≤ (payload.drop f.size).length := by
      rw [List.length_drop]
      simp only [payloadSize]
      omega
    simp only [framePackets, List.map_cons, ih rest, List.length_append, List.length_take, Frame.total]
    congr 2
    omega

/-- With a zero payload, what a packet writes starts with a zero. -/
theorem frameOutput_zero (f : Frame) (fs : List Frame) (n : Nat) (enough : f.size ≤ n) :
    (frameOutput (f :: fs) (List.replicate n 0)).head? = some 0 := by
  rcases f.visible with start | ⟨none, positive⟩
  · simp [frameOutput, List.head?_append, start]
  · have nonempty : min f.size n ≠ 0 := by omega
    simp [frameOutput, List.head?_append, none, List.take_replicate, List.head?_replicate, nonempty]

theorem Frame.front_cons (f : Frame) : ∃ rest, f.front = 0x80 :: rest :=
  List.head?_eq_some_iff.mp f.version

theorem Frame.total_pos (f : Frame) : 0 < f.total := by
  obtain ⟨rest, front⟩ := f.front_cons
  simp only [Frame.total, front, List.length_cons]
  omega

/-- A decoded list of chunks, taken apart at the first. -/
theorem chunksOutput_cons {chunk : List Byte} {chunks : List (List Byte)} {bytes file : List Byte}
    (head : chunkOutput chunk = some bytes) (whole : chunksOutput (chunk :: chunks) = some (bytes ++ file)) :
    chunksOutput chunks = some file := by
  simp only [chunksOutput, head, Option.bind_eq_bind, Option.bind_some, Option.bind_eq_some_iff,
    Option.some.injEq, List.append_cancel_left_eq] at whole
  obtain ⟨rest, tail, rfl⟩ := whole
  exact tail

section Cut
variable {f : Frame} {fs : List Frame} {s : Nat} {sizes : List Nat}

/-- The file the receiver should write, under a given cut. -/
def Agrees (sizes : List Nat) (fs : List Frame) (payload : List Byte) : Prop :=
  chunksOutput (sizes.splitLengths (framePackets fs payload).flatten) = some (frameOutput fs payload)

/-- A chunk that ends inside the prefix of a packet is not decoded at all. -/
theorem not_agrees_front (short : s < f.front.length) (payload : List Byte) :
    ¬ Agrees (s :: sizes) (f :: fs) payload := by
  intro agree
  have chunk : (f.front ++ payload.take f.size ++ (framePackets fs (payload.drop f.size)).flatten).take s =
      f.front.take s := by
    rw [List.append_assoc, List.take_append_of_le_length (by omega)]
  simp only [Agrees, framePackets, List.flatten_cons, List.splitLengths_cons, chunk, chunksOutput,
    f.truncated s short] at agree
  cases agree

/-- A chunk that ends inside a payload: the next one drops the byte after the cut, so it
cannot be right for both values of that byte. -/
theorem not_agrees_payload {o : Nat} (cut : s = f.front.length + o) (inside : o < f.size)
    (positive : ∀ n ∈ sizes, 0 < n) (more : sizes ≠ []) :
    ∃ payload, payload.length = payloadSize (f :: fs) ∧ ¬ Agrees (s :: sizes) (f :: fs) payload := by
  by_contra all
  push Not at all
  obtain ⟨s', sizes, rfl⟩ := List.exists_cons_of_ne_nil more
  obtain ⟨m, rfl⟩ : ∃ m, s' = m + 1 := ⟨s' - 1, by have := positive s' (by simp); omega⟩
  obtain ⟨k, size⟩ : ∃ k, f.size = o + (k + 1) := ⟨f.size - o - 1, by omega⟩
  -- the payload with `x` as the byte after the cut
  let payload : Byte → List Byte := fun x =>
    List.replicate o 0 ++ x :: (List.replicate k 0 ++ List.replicate (payloadSize fs) 0)
  have length : ∀ x, (payload x).length = payloadSize (f :: fs) := by
    intro x
    simp [payload, payloadSize, size]
    omega
  have taken : ∀ x, (payload x).take f.size = List.replicate o 0 ++ x :: List.replicate k 0 := by
    intro x
    simp [payload, size, List.take_append]
  have dropped : ∀ x, (payload x).drop f.size = List.replicate (payloadSize fs) 0 := by
    intro x
    simp [payload, size, List.drop_append]
  have rest : ∀ x, chunksOutput (((m + 1) :: sizes).splitLengths
      (x :: (List.replicate k 0 ++ (framePackets fs (List.replicate (payloadSize fs) 0)).flatten))) =
      some (x :: (List.replicate k 0 ++ frameOutput fs (List.replicate (payloadSize fs) 0))) := by
    intro x
    have agree := all (payload x) (length x)
    have stream : f.front ++ (List.replicate o 0 ++ x :: List.replicate k 0) ++
        (framePackets fs (List.replicate (payloadSize fs) 0)).flatten =
        (f.front ++ List.replicate o 0) ++
          (x :: (List.replicate k 0 ++ (framePackets fs (List.replicate (payloadSize fs) 0)).flatten)) := by
      simp
    have here : s = (f.front ++ List.replicate o (0 : Byte)).length := by simp [cut]
    rw [Agrees, framePackets, List.flatten_cons, frameOutput, taken, dropped, stream,
      List.splitLengths_cons, here, List.take_left, List.drop_left] at agree
    apply chunksOutput_cons (f.decodes (List.replicate o 0))
    rw [agree]
    simp
  have zero := rest 0
  have one := rest 1
  simp only [List.splitLengths_cons, List.take_succ_cons, List.drop_succ_cons, chunksOutput] at zero one
  rw [chunkOutput_cons 1 0, zero] at one
  simp at one

/-- A chunk that runs on into the next packet: that packet's `0x80` is written. -/
theorem not_agrees_coalesced {g : Frame} {gs : List Frame} (long : f.total < s) :
    ¬ Agrees (s :: sizes) (f :: g :: gs) (List.replicate (payloadSize (f :: g :: gs)) 0) := by
  intro agree
  obtain ⟨front, version⟩ := g.front_cons
  have size : payloadSize (f :: g :: gs) = f.size + payloadSize (g :: gs) := by
    simp [payloadSize]
  have taken : (List.replicate (payloadSize (f :: g :: gs)) (0 : Byte)).take f.size =
      List.replicate f.size 0 := by
    rw [List.take_replicate, size, Nat.min_eq_left (by omega)]
  have dropped : (List.replicate (payloadSize (f :: g :: gs)) (0 : Byte)).drop f.size =
      List.replicate (payloadSize (g :: gs)) 0 := by
    rw [List.drop_replicate, size, Nat.add_sub_cancel_left]
  obtain ⟨k, beyond⟩ : ∃ k, s = (f.front ++ List.replicate f.size (0 : Byte)).length + (k + 1) :=
    ⟨s - f.total - 1, by simp [Frame.total] at *; omega⟩
  rw [Agrees, framePackets, List.flatten_cons, frameOutput, taken, dropped, List.splitLengths_cons,
    beyond, List.take_length_add_append] at agree
  have chunk : ∃ more, ((framePackets (g :: gs) (List.replicate (payloadSize (g :: gs)) 0)).flatten).take
      (k + 1) = 0x80 :: more := by
    simp [framePackets, version]
  obtain ⟨more, chunk⟩ := chunk
  rw [chunk, List.append_assoc, chunksOutput, f.decodes] at agree
  simp only [Option.bind_eq_bind, Option.bind_some, Option.bind_eq_some_iff, Option.some.injEq] at agree
  obtain ⟨rest, _, file⟩ := agree
  have zero := frameOutput_zero g gs (payloadSize (g :: gs)) (by simp [payloadSize])
  simp only [List.append_assoc, List.append_cancel_left_eq, List.cons_append] at file
  rw [← file] at zero
  simp at zero

/-- A first chunk that is the first packet leaves the rest to the other cuts. -/
theorem not_agrees_next {payload : List Byte} (wrong : ¬ Agrees sizes fs payload) :
    ¬ Agrees (f.total :: sizes) (f :: fs) (List.replicate f.size 0 ++ payload) := by
  intro agree
  have here : f.total = (f.front ++ List.replicate f.size (0 : Byte)).length := by simp [Frame.total]
  have taken : (List.replicate f.size 0 ++ payload).take f.size = List.replicate f.size 0 := by simp
  have dropped : (List.replicate f.size 0 ++ payload).drop f.size = payload := by simp
  rw [Agrees, framePackets, List.flatten_cons, frameOutput, taken, dropped, List.splitLengths_cons,
    here, List.take_left, List.drop_left] at agree
  exact wrong (chunksOutput_cons (f.decodes _) agree)

/-- A cut that is not the packets' own is wrong for some payload. -/
theorem exists_not_agrees (fs : List Frame) (sizes : List Nat) (positive : ∀ n ∈ sizes, 0 < n)
    (sum : sizes.sum = (fs.map Frame.total).sum) (differs : sizes ≠ fs.map Frame.total) :
    ∃ payload, payload.length = payloadSize fs ∧ ¬ Agrees sizes fs payload := by
  induction fs generalizing sizes with
  | nil =>
    cases sizes with
    | nil => exact absurd rfl differs
    | cons s sizes =>
      have := positive s (by simp)
      simp at sum
      omega
  | cons f fs ih =>
    have totalPos := f.total_pos
    simp only [List.map_cons, List.sum_cons] at sum
    cases sizes with
    | nil =>
      simp at sum
      omega
    | cons s sizes =>
      rw [List.sum_cons] at sum
      have positive' : ∀ n ∈ sizes, 0 < n := fun n hn => positive n (List.mem_cons_of_mem _ hn)
      have more : s < f.total → sizes ≠ [] := by
        rintro short rfl
        simp at sum
        omega
      rcases Nat.lt_trichotomy s f.total with short | same | long
      · rcases Nat.lt_or_ge s f.front.length with front | inside
        · exact ⟨List.replicate (payloadSize (f :: fs)) 0, by simp, not_agrees_front front _⟩
        · apply not_agrees_payload (o := s - f.front.length) (by omega) ?_ positive' (more short)
          simp only [Frame.total] at short
          omega
      · subst same
        obtain ⟨payload, length, wrong⟩ := ih sizes positive' (by omega) (by simpa using differs)
        exact ⟨List.replicate f.size 0 ++ payload, by simp [length, payloadSize], not_agrees_next wrong⟩
      · cases fs with
        | nil =>
          simp at sum
          omega
        | cons g gs =>
          exact ⟨List.replicate (payloadSize (f :: g :: gs)) 0, by simp, not_agrees_coalesced long⟩

end Cut

/-! ## The sender's packets as frames -/

/-- The packet sizes of a NAL of `nalu_len` bytes. -/
def packetSizes (nalu_len : Nat) : List Nat :=
  if nalu_len < 1 then []
  else if nalu_len ≤ RTP_PAYLOAD_MAX_SIZE then [12 + nalu_len]
  else (List.range (fu_pack_num nalu_len)).map fun fu_seq => 12 + 2 + fragmentSize nalu_len fu_seq

/-- The bytes written to the connection in one run. -/
def tcpStream (framerate : FrameRate) (nals : List (List Byte)) (st : Statics) : List Byte :=
  (sendAll (h264naltortp_send_tcp framerate) nals st).flatten

/-- The packets of a NAL have the sizes its length gives. -/
theorem stamp_lengths (st : Statics) (nal : List Byte) :
    (stamp st (rtpLoads nal)).map List.length = packetSizes nal.length := by
  have loads : ∀ (ls : List Load) st, (stamp st ls).map List.length = ls.map fun l => 12 + l.bytes.length := by
    intro ls
    induction ls with
    | nil => intro st; rfl
    | cons l ls ih => intro st; simp [stamp, ih]
  rw [loads, rtpLoads, packetSizes]
  split_ifs with empty short
  · rfl
  · rfl
  · rw [List.map_map]
    apply List.map_congr_left
    intro k hk
    have size := @fragment_length nal k (by omega) (List.mem_range.mp hk)
    simp only [Function.comp, fuLoad, List.length_cons, size]
    omega

theorem sendAll_lengths (framerate : FrameRate) (nals : List (List Byte)) (st : Statics) :
    (sendAll (h264naltortp_send_tcp framerate) nals st).map List.length =
      (nals.map List.length).flatMap packetSizes := by
  induction nals generalizing st with
  | nil => rfl
  | cons nal nals ih =>
    obtain ⟨packets, _⟩ := packets_eq framerate nal st
    simp only [sendAll, List.map_append, ih, List.map_cons, List.flatMap_cons]
    rw [h264naltortp_send_tcp, packets, stamp_lengths]

/-- A single NAL unit packet with an open payload. -/
def singleFrame (hdr : rtp_header_t) (version : hdr.bytes.head? = some 0x80) (size : Nat) : Frame where
  front := hdr.bytes ++ [0x65]
  out := startCode ++ [0x65]
  size := size
  decodes payload := by
    obtain ⟨byte12, tail⟩ := bytes_at hdr 0x65 payload
    have enough : ¬ (hdr.bytes ++ 0x65 :: payload).length < 13 := by
      simp
      omega
    have type : ¬ (nalu_header_t.ofByte 0x65).type = 28 := by decide
    rw [List.append_assoc, List.singleton_append]
    simp only [chunkOutput, enough, if_false, byte12, type, tail, single_header 0x65]
    simp
  truncated n short := by
    have tiny : ((hdr.bytes ++ [(0x65 : Byte)]).take n).length < 13 := by
      simp at *
      omega
    simp only [chunkOutput, tiny, if_true]
  version := by
    rw [List.head?_append, version]
    rfl
  visible := Or.inl rfl

/-- FU-A number `fu_seq` of a NAL with first byte `0x65`, with an open payload. -/
def fuFrame (hdr : rtp_header_t) (version : hdr.bytes.head? = some 0x80) (nalu_len fu_seq size : Nat)
    (positive : 0 < size) : Frame where
  front := hdr.bytes ++ [(fu_ind [0x65]).byte, (fu_hdr [0x65] (startBit fu_seq) (endBit nalu_len fu_seq)).byte]
  out := fuLead 0x65 fu_seq
  size := size
  decodes payload := by
    rw [List.append_assoc, List.cons_append, List.singleton_append, fu_decodes]
    exact congrArg some (fuFlags_decode 0x65 nalu_len fu_seq payload)
  truncated n short := by
    obtain ⟨type, _⟩ := fu_header_roundTrip [0x65] (startBit fu_seq) (endBit nalu_len fu_seq)
    simp only [List.length_append, rtp_header_t.bytes_length, List.length_cons, List.length_nil] at short
    by_cases tiny : n < 13
    · have length : ((hdr.bytes ++ [(fu_ind [0x65]).byte,
          (fu_hdr [0x65] (startBit fu_seq) (endBit nalu_len fu_seq)).byte]).take n).length < 13 := by
        simp
        omega
      simp only [chunkOutput, length, if_true]
    · obtain rfl : n = 13 := by omega
      have chunk : (hdr.bytes ++ [(fu_ind [0x65]).byte,
          (fu_hdr [0x65] (startBit fu_seq) (endBit nalu_len fu_seq)).byte]).take 13 =
          hdr.bytes ++ (fu_ind [0x65]).byte :: [] := rfl
      obtain ⟨byte12, _⟩ := bytes_at hdr (fu_ind [0x65]).byte []
      simp only [chunk, chunkOutput, byte12, type, if_true]
      simp
  version := by
    rw [List.head?_append, version]
    rfl
  visible := by
    by_cases first : fu_seq = 0
    · exact Or.inl (by rw [fuLead, if_pos first]; rfl)
    · exact Or.inr ⟨if_neg first, positive⟩

theorem rtp_hdr_version (st : Statics) (marker : BitVec 1) : (rtp_hdr st marker).bytes.head? = some 0x80 := by
  simp [rtp_hdr, rtp_header_t.zero, rtp_header_t.bytes]

/-- Frames in a row take their payloads in a row. -/
theorem framePackets_append (fs gs : List Frame) (payload rest : List Byte)
    (length : payload.length = payloadSize fs) :
    framePackets (fs ++ gs) (payload ++ rest) = framePackets fs payload ++ framePackets gs rest := by
  induction fs generalizing payload with
  | nil =>
    have empty : payload = [] := List.length_eq_zero_iff.mp length
    simp [framePackets, empty]
  | cons f fs ih =>
    simp only [payloadSize, List.map_cons, List.sum_cons] at length
    have bound : f.size ≤ payload.length := by omega
    have tail : (payload.drop f.size).length = payloadSize fs := by
      rw [List.length_drop]
      simp only [payloadSize]
      omega
    simp only [List.cons_append, framePackets, List.take_append_of_le_length bound,
      List.drop_append_of_le_length bound, ih _ tail]

/-- Where fragment number `fu_seq` starts in the NAL. -/
def fragmentStart (fu_seq : Nat) : Nat := if fu_seq = 0 then 1 else RTP_PAYLOAD_MAX_SIZE * fu_seq

/-- Each fragment but the last ends where the next starts, and the last ends with the NAL. -/
theorem fragment_ends {nalu_len k : Nat} (long : RTP_PAYLOAD_MAX_SIZE < nalu_len)
    (bound : k < fu_pack_num nalu_len) :
    if k < fu_pack_num nalu_len - 1 then
      fragmentStart k + fragmentSize nalu_len k = fragmentStart (k + 1) ∧ fragmentStart (k + 1) ≤ nalu_len
    else fragmentStart k + fragmentSize nalu_len k = nalu_len ∧ nalu_len ≤ fragmentStart (k + 1) := by
  obtain ⟨many, _, smallest, extent⟩ := fu_pack_num_mul nalu_len long
  have next : RTP_PAYLOAD_MAX_SIZE * (k + 1) = RTP_PAYLOAD_MAX_SIZE * k + RTP_PAYLOAD_MAX_SIZE :=
    Nat.mul_succ _ _
  simp only [fragmentStart, fragmentSize, Nat.add_one_ne_zero, if_false]
  split_ifs with middle first
  · rw [first] at next ⊢
    constructor
    · rfl
    · omega
  · have := Nat.mul_le_mul_left RTP_PAYLOAD_MAX_SIZE (show k + 1 ≤ fu_pack_num nalu_len - 1 by omega)
    omega
  · omega
  · have last : k = fu_pack_num nalu_len - 1 := by omega
    rw [← last] at extent
    omega

/-- A fragment is a slice, and the next starts where it ends. -/
theorem fragment_slice {nal : List Byte} {k : Nat} (long : RTP_PAYLOAD_MAX_SIZE < nal.length)
    (bound : k < fu_pack_num nal.length) :
    fragment nal k = (nal.drop (fragmentStart k)).take (fragmentSize nal.length k) ∧
      (nal.drop (fragmentStart k)).drop (fragmentSize nal.length k) = nal.drop (fragmentStart (k + 1)) := by
  have ends := fragment_ends long bound
  constructor
  · simp only [fragment, fragmentStart, fragmentSize, slice]
    split_ifs <;> rfl
  · rw [List.drop_drop]
    split_ifs at ends with middle
    · rw [ends.1]
    · rw [List.drop_eq_nil_of_le (by omega), List.drop_eq_nil_of_le ends.2]

/-- The fragments from the `k`-th on are frames over the rest of the NAL. -/
theorem fragments_frames {nalu_len : Nat} (long : RTP_PAYLOAD_MAX_SIZE < nalu_len) (m k : Nat)
    (st : Statics) (count : k + m = fu_pack_num nalu_len) :
    ∃ fs : List Frame, payloadSize fs = nalu_len - fragmentStart k ∧
      ∀ nal : List Byte, nal.length = nalu_len → nal.headD 0 = 0x65 →
        framePackets fs (nal.drop (fragmentStart k)) = stamp st ((List.range' k m).map (fuLoad nal)) := by
  obtain ⟨many, least, _, extent⟩ := fu_pack_num_mul nalu_len long
  induction m generalizing k st with
  | zero =>
    refine ⟨[], ?_, fun _ _ _ => rfl⟩
    have ends := fragment_ends long (show fu_pack_num nalu_len - 1 < fu_pack_num nalu_len by omega)
    simp only [Nat.lt_irrefl, if_false, show fu_pack_num nalu_len - 1 + 1 = k by omega] at ends
    simp only [payloadSize, List.map_nil, List.sum_nil]
    omega
  | succ m ih =>
    obtain ⟨fs, size, packets⟩ := ih (k + 1) st.next (by omega)
    have positive : 0 < fragmentSize nalu_len k := by
      unfold fragmentSize RTP_PAYLOAD_MAX_SIZE
      split_ifs <;> omega
    refine ⟨fuFrame (rtp_hdr st.next (endBit nalu_len k)) (rtp_hdr_version _ _) nalu_len k _ positive :: fs,
      ?_, fun nal hlen hhead => ?_⟩
    · have ends := fragment_ends long (show k < fu_pack_num nalu_len by omega)
      have sum : payloadSize (fuFrame (rtp_hdr st.next (endBit nalu_len k)) (rtp_hdr_version _ _) nalu_len k _
          positive :: fs) = fragmentSize nalu_len k + payloadSize fs := by
        simp [payloadSize, fuFrame]
      rw [sum, size]
      split_ifs at ends <;> omega
    · subst hlen
      obtain ⟨here, next⟩ := fragment_slice long (k := k) (by omega)
      simp only [framePackets, List.range'_succ, List.map_cons, stamp, fuFrame, next, ← here,
        packets nal rfl hhead, fuLoad, fu_ind, fu_hdr, hhead, List.headD_cons]
      simp

/-- The packets of a non-empty NAL with first byte `0x65` are frames over its other bytes. -/
theorem nal_frames (st : Statics) {nalu_len : Nat} (nonempty : ¬ nalu_len < 1) :
    ∃ fs : List Frame, payloadSize fs = nalu_len - 1 ∧
      ∀ body : List Byte, body.length = nalu_len - 1 →
        framePackets fs body = stamp st (rtpLoads (0x65 :: body)) := by
  by_cases short : nalu_len ≤ RTP_PAYLOAD_MAX_SIZE
  · refine ⟨[singleFrame (rtp_hdr st.next 0) (rtp_hdr_version _ _) (nalu_len - 1)], ?_, fun body length => ?_⟩
    · simp [payloadSize, singleFrame]
    · have load : rtpLoads (0x65 :: body) = [{ marker := 0, bytes := 0x65 :: body }] := by
        rw [rtpLoads, List.length_cons, length, if_neg (by omega), if_pos (by omega)]
      rw [load, framePackets, framePackets, stamp, stamp, singleFrame, ← length, List.take_length]
      simp
  · have long : RTP_PAYLOAD_MAX_SIZE < nalu_len := Nat.lt_of_not_le short
    obtain ⟨fs, size, packets⟩ := fragments_frames long (fu_pack_num nalu_len) 0 st (by omega)
    refine ⟨fs, size, fun body length => ?_⟩
    have whole : (0x65 :: body).length = nalu_len := by
      rw [List.length_cons]
      omega
    have loads : rtpLoads (0x65 :: body) = (List.range (fu_pack_num nalu_len)).map (fuLoad (0x65 :: body)) := by
      rw [rtpLoads, whole, if_neg nonempty, if_neg short]
    rw [loads, List.range_eq_range', ← packets _ whole rfl]
    rfl

/-- The packets of one run are frames over the payloads of its NALs. -/
theorem run_frames (framerate : FrameRate) (lens : List Nat) (st : Statics) :
    ∃ fs : List Frame, ∀ payload : List Byte, payload.length = payloadSize fs →
      ∃ nals : List (List Byte), nals.map List.length = lens ∧
        framePackets fs payload = sendAll (h264naltortp_send_tcp framerate) nals st := by
  induction lens generalizing st with
  | nil => exact ⟨[], fun _ _ => ⟨[], rfl, rfl⟩⟩
  | cons len lens ih =>
    by_cases empty : len < 1
    · obtain ⟨fs, packets⟩ := ih (st.tick framerate)
      refine ⟨fs, fun payload length => ?_⟩
      obtain ⟨nals, lengths, sent⟩ := packets payload length
      refine ⟨[] :: nals, by simp [lengths]; omega, ?_⟩
      rw [sent]
      rfl
    · obtain ⟨fs, size, first⟩ := nal_frames (st.tick framerate) empty
      obtain ⟨gs, packets⟩ := ih ((st.tick framerate).advance (packetCount len))
      refine ⟨fs ++ gs, fun payload length => ?_⟩
      have split : payloadSize (fs ++ gs) = payloadSize fs + payloadSize gs := by simp [payloadSize]
      have head : (payload.take (payloadSize fs)).length = payloadSize fs := by
        rw [List.length_take]
        omega
      obtain ⟨nals, lengths, sent⟩ := packets (payload.drop (payloadSize fs)) (by rw [List.length_drop]; omega)
      have whole : (0x65 :: payload.take (payloadSize fs)).length = len := by
        rw [List.length_cons, head, size]
        omega
      refine ⟨(0x65 :: payload.take (payloadSize fs)) :: nals, by rw [List.map_cons, whole, lengths], ?_⟩
      obtain ⟨loads, statics⟩ := packets_eq framerate (0x65 :: payload.take (payloadSize fs)) st
      have dealt := framePackets_append fs gs _ (payload.drop (payloadSize fs)) head
      rw [List.take_append_drop] at dealt
      rw [dealt, first _ (by omega), sent, sendAll, h264naltortp_send_tcp, loads, statics, rtpLoads_length,
        whole]

/-- **Which cuts are harmless.** Take any list of NAL lengths and any cut of the bytes sent
for them into chunks of 1 to 2000 bytes. The receiver writes the file of the uncut packets
for every content of the NALs if and only if the cut is at the packet boundaries. -/
theorem framing_iff (framerate : FrameRate) (st : Statics) (recv_buf : List Byte) (lens sizes : List Nat)
    (chunks : ∀ n ∈ sizes, 1 ≤ n ∧ n ≤ 2000) (whole : sizes.sum = (lens.flatMap packetSizes).sum) :
    (∀ nals : List (List Byte), nals.map List.length = lens →
      recv_fun recv_buf (sizes.splitLengths (tcpStream framerate nals st)) =
        recv_fun recv_buf (sendAll (h264naltortp_send_tcp framerate) nals st)) ↔
      sizes = lens.flatMap packetSizes := by
  constructor
  · intro same
    by_contra differs
    obtain ⟨fs, packets⟩ := run_frames framerate lens st
    have totals : fs.map Frame.total = lens.flatMap packetSizes := by
      obtain ⟨nals, lengths, sent⟩ := packets (List.replicate (payloadSize fs) 0) (by simp)
      rw [← lengths, ← sendAll_lengths framerate nals st, ← sent]
      exact (framePackets_lengths fs (by simp)).symm
    rw [← totals] at whole differs
    obtain ⟨payload, length, wrong⟩ :=
      exists_not_agrees fs sizes (fun n hn => (chunks n hn).1) whole differs
    obtain ⟨nals, lengths, sent⟩ := packets payload length
    have file := same nals lengths
    rw [recv_fun_eq, recv_fun_eq, tcpStream, ← sent, framePackets_output] at file
    exact wrong file
  · rintro rfl nals rfl
    rw [tcpStream, ← sendAll_lengths framerate nals st, splitLengths_flatten]

/-- Two NALs of one byte, each received on its own. -/
theorem framing_iff_two :
    recv_fun (List.replicate 2000 0) ([13, 13].splitLengths (tcpStream 25 [[0x65], [0x66]] Statics.start)) =
      recv_fun (List.replicate 2000 0) (sendAll (h264naltortp_send_tcp 25) [[0x65], [0x66]] Statics.start) :=
  (framing_iff 25 Statics.start (List.replicate 2000 0) [1, 1] [13, 13] (by decide) (by decide)).mpr (by decide)
    [[0x65], [0x66]] rfl

/-- Two such NALs in one chunk of 26 bytes: the header of the second packet ends up in
the file, and its start code does not. -/
theorem coalesced_differs :
    recv_fun (List.replicate 2000 0)
        ([26].splitLengths (tcpStream 25 [[0x65], [0x65]] Statics.start)) ≠
      recv_fun (List.replicate 2000 0)
        (sendAll (h264naltortp_send_tcp 25) [[0x65], [0x65]] Statics.start) := by
  have packets : sendAll (h264naltortp_send_tcp 25) [[0x65], [0x65]] Statics.start =
      [[0x80, 0x60, 0, 1, 0, 0, 0x0e, 0x10, 0, 0, 0, 10, 0x65],
        [0x80, 0x60, 0, 2, 0, 0, 0x1c, 0x20, 0, 0, 0, 10, 0x65]] := by
    decide +kernel
  rw [tcpStream, packets, recv_fun_eq, recv_fun_eq]
  decide

end CodeClips.Rtp
