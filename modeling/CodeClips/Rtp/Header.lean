import CodeClips.Lib.Buffer

/-!
# `h264tortp.h`: the packed headers

The bit-field structures the packetiser writes through and the depacketiser reads
through, with their little-endian layout: the first field of a byte holds its low bits.
A structure is laid out by `bytes`, a byte is read through a structure by `ofByte`.
-/

namespace CodeClips.Rtp

/-- `uint8_t`. -/
abbrev Byte := BitVec 8

/-- `#define H264 96`. -/
def H264 : BitVec 7 := 96#7

/-- `rtp_header_t`, 12 bytes. The 16- and 32-bit fields hold the value as it was stored,
that is, after `htons` and `htonl`. -/
structure rtp_header_t where
  csrc_len : BitVec 4
  extension : BitVec 1
  padding : BitVec 1
  version : BitVec 2
  payload_type : BitVec 7
  marker : BitVec 1
  seq_no : BitVec 16
  timestamp : BitVec 32
  ssrc : BitVec 32
deriving DecidableEq, Repr

/-- `nalu_header_t`, 1 byte. -/
structure nalu_header_t where
  type : BitVec 5
  nri : BitVec 2
  f : BitVec 1
deriving DecidableEq, Repr

/-- `fu_indicator_t`, 1 byte. -/
structure fu_indicator_t where
  type : BitVec 5
  nri : BitVec 2
  f : BitVec 1
deriving DecidableEq, Repr

/-- `fu_header_t`, 1 byte. -/
structure fu_header_t where
  type : BitVec 5
  r : BitVec 1
  e : BitVec 1
  s : BitVec 1
deriving DecidableEq, Repr

/-- The bytes of a 16-bit word in a little-endian memory. -/
def le16 (w : BitVec 16) : List Byte := [w.extractLsb' 0 8, w.extractLsb' 8 8]

/-- The bytes of a 32-bit word in a little-endian memory. -/
def le32 (w : BitVec 32) : List Byte :=
  [w.extractLsb' 0 8, w.extractLsb' 8 8, w.extractLsb' 16 8, w.extractLsb' 24 8]

/-- `htons` on a little-endian host: the two bytes swapped. -/
def htons (w : BitVec 16) : BitVec 16 := w.extractLsb' 0 8 ++ w.extractLsb' 8 8

/-- `htonl` on a little-endian host: the four bytes reversed. -/
def htonl (w : BitVec 32) : BitVec 32 :=
  w.extractLsb' 0 8 ++ w.extractLsb' 8 8 ++ w.extractLsb' 16 8 ++ w.extractLsb' 24 8

def rtp_header_t.bytes (h : rtp_header_t) : List Byte :=
  [h.version ++ h.padding ++ h.extension ++ h.csrc_len, h.marker ++ h.payload_type] ++
    le16 h.seq_no ++ le32 h.timestamp ++ le32 h.ssrc

def nalu_header_t.byte (h : nalu_header_t) : Byte := h.f ++ h.nri ++ h.type

def fu_indicator_t.byte (h : fu_indicator_t) : Byte := h.f ++ h.nri ++ h.type

def fu_header_t.byte (h : fu_header_t) : Byte := h.s ++ h.e ++ h.r ++ h.type

def nalu_header_t.ofByte (b : Byte) : nalu_header_t :=
  { type := b.extractLsb' 0 5, nri := b.extractLsb' 5 2, f := b.extractLsb' 7 1 }

def fu_header_t.ofByte (b : Byte) : fu_header_t :=
  { type := b.extractLsb' 0 5, r := b.extractLsb' 5 1, e := b.extractLsb' 6 1, s := b.extractLsb' 7 1 }

/-- A structure in memory that `memset` has cleared. -/
def rtp_header_t.zero : rtp_header_t :=
  { csrc_len := 0, extension := 0, padding := 0, version := 0, payload_type := 0, marker := 0,
    seq_no := 0, timestamp := 0, ssrc := 0 }

@[simp] theorem rtp_header_t.bytes_length (h : rtp_header_t) : h.bytes.length = 12 := rfl

/-- The sequence number a receiver reads from a packet: bytes 2 and 3 in network order. -/
def seqNoOf (packet : List Byte) : BitVec 16 := packet.getD 2 0 ++ packet.getD 3 0

/-- `htons` twice is the identity, read byte by byte. -/
theorem htons_bytes (n : BitVec 16) :
    (htons n).extractLsb' 0 8 ++ (htons n).extractLsb' 8 8 = n := by
  ext i hi
  simp only [htons, BitVec.getElem_append, BitVec.getElem_extractLsb', BitVec.getLsbD_append]
  grind -ring -linarith

/-- A receiver reads the number the sender gave to `htons`. -/
theorem seqNoOf_bytes (h : rtp_header_t) (n : BitVec 16) (stored : h.seq_no = htons n)
    (load : List Byte) : seqNoOf (h.bytes ++ load) = n := by
  simp only [seqNoOf, rtp_header_t.bytes, le16, stored, List.cons_append, List.nil_append,
    List.getD_cons_succ, List.getD_cons_zero]
  exact htons_bytes n

/-- An FU indicator reads as a NAL header with its fields. -/
theorem nalu_header_t.ofByte_indicator (h : fu_indicator_t) :
    nalu_header_t.ofByte h.byte = { type := h.type, nri := h.nri, f := h.f } := by
  obtain ⟨type, nri, f⟩ := h
  simp only [nalu_header_t.ofByte, fu_indicator_t.byte, nalu_header_t.mk.injEq]
  refine ⟨?_, ?_, ?_⟩
  all_goals
    ext i hi
    simp only [BitVec.getElem_extractLsb', BitVec.getLsbD_append]
    grind -ring -linarith

theorem fu_header_t.ofByte_byte (h : fu_header_t) : fu_header_t.ofByte h.byte = h := by
  obtain ⟨type, r, e, s⟩ := h
  simp only [fu_header_t.ofByte, fu_header_t.byte, fu_header_t.mk.injEq]
  refine ⟨?_, ?_, ?_, ?_⟩
  all_goals
    ext i hi
    simp only [BitVec.getElem_extractLsb', BitVec.getLsbD_append]
    grind -ring -linarith

/-- The three masked copies of `nalu_buf[0]` the sender assigns rebuild the byte. -/
theorem nalu_header_byte (b : Byte) :
    nalu_header_t.byte
      { type := (b &&& 0x1f#8).setWidth 5
        nri := ((b &&& 0x60#8) >>> 5).setWidth 2
        f := ((b &&& 0x80#8) >>> 7).setWidth 1 } = b := by
  revert b
  decide

end CodeClips.Rtp
