import CodeClips.Lib.Bits
import CodeClips.Packet.Deserialize
import CodeClips.Packet.SerializeSpec
import Mathlib.Tactic.IntervalCases

/-!
# What a class decodes from its own bytes

The header that a class encodes, with anything after it, given to its decoder: the fields come
back up to the width that they have on the wire, and the rest is left to the options and to the
payload.
-/

namespace CodeClips.Packet
open ByteBuffer

/-- A check lets the reading go on, or throws. -/
theorem run_check {α : Type} (holds : Bool) (e : Throwable) (f : Unit → ByteBuffer α) (input : List Byte) :
    (check holds e >>= f).run input = if holds then (f ()).run input else .error e := by
  cases holds <;> rfl

/-- `remaining` counts what has not been read. -/
theorem run_remaining {α : Type} (f : Nat → ByteBuffer α) (input : List Byte) :
    (remaining >>= f).run input = (f input.length).run input := rfl

/-! ## `Data`, `ICMP` and `UDP` -/

/-- All bytes that are left are the payload of `Data`. -/
theorem run_data (input : List Byte) : Data.deserialize.run input = .ok ([.data { data := some input }], []) := rfl

/-- An ICMP header is read as it was written; what follows is its payload. -/
theorem run_icmp (this : ICMP) (payload : List Byte) :
    ICMP.deserialize.run (this.header ++ payload) = .ok ([.icmp this, .data { data := some payload }], []) := by
  have bytes : this.header ++ payload = [this.icmpType] ++ ([this.icmpCode] ++ (putShort this.checksum ++
      (List.replicate this.padding 0 ++ payload))) := by
    simp [ICMP.header]
  have padding : Reads (Reader.take Throwable.illegalArgument ((ICMP.paddingMap this.icmpType).getD 0))
      (List.replicate this.padding (0 : Byte)) (List.replicate this.padding 0) :=
    .take Throwable.illegalArgument List.length_replicate
  rw [bytes, ICMP.deserialize, (reads_get this.icmpType).run_bind, (reads_get this.icmpCode).run_bind,
    (reads_getShort this.checksum).run_bind, padding.run_bind]
  rfl

/-- A UDP header is read, and the ports choose the decoder of what follows. -/
theorem run_udp {this : UDP} {sourcePort destinationPort : TransportPort} (source : this.sourcePort = some sourcePort)
    (destination : this.destinationPort = some destinationPort) (payload : List Byte) :
    UDP.deserialize.run (this.header sourcePort destinationPort ++ payload) =
      (do
        let decoded ← UDP.decoder sourcePort destinationPort
        pure (.udp this :: decoded) : ByteBuffer IPacket).run payload := by
  have bytes : this.header sourcePort destinationPort ++ payload = putShort sourcePort ++ (putShort destinationPort ++
      (putShort this.length ++ (putShort this.checksum ++ payload))) := by
    simp [UDP.header]
  rw [bytes, UDP.deserialize, (reads_getShort sourcePort).run_bind, (reads_getShort destinationPort).run_bind,
    (reads_getShort this.length).run_bind, (reads_getShort this.checksum).run_bind, ← source, ← destination]

/-! ## `TCP` -/

/-- The data offset and the flags as they share a short, taken apart again. -/
def TCP.word (this : TCP) : Short := this.flags ||| (this.dataOffset.signExtend 16 <<< 12)

/-- The data offset that is read back: four bits of the word. -/
def TCP.wireOffset (this : TCP) : Byte := (this.word.sshiftRight 12 &&& 0xf).setWidth 8

/-- The flags that are read back: nine bits of the word. -/
def TCP.wireFlags (this : TCP) : Short := this.word &&& 0x1ff

/-- The offset comes back if it fits into its four bits. -/
theorem wireOffset_eq_iff {this : TCP} (flags : this.wireFlags = this.flags) :
    this.wireOffset = this.dataOffset ↔ this.dataOffset &&& 0xf = this.dataOffset := by
  have low : this.flags &&& 0x1ff = this.flags := by
    rw [← flags, TCP.wireFlags, BitVec.and_assoc]
    rfl
  constructor
  · intro same
    rw [← same, TCP.wireOffset]
    apply BitVec.eq_of_getLsbD_eq
    intro i inside
    interval_cases i <;> simp
  · intro four
    rw [TCP.wireOffset, TCP.word, ← low, ← four]
    apply BitVec.eq_of_getLsbD_eq
    intro i inside
    interval_cases i <;> simp [BitVec.getElem_signExtend, BitVec.getElem_sshiftRight]

/-- The flags come back if they fit into their nine bits. -/
theorem wireFlags_eq_iff (this : TCP) : this.wireFlags = this.flags ↔ this.flags &&& 0x1ff = this.flags := by
  constructor
  · intro same
    rw [← same, TCP.wireFlags, BitVec.and_assoc]
    rfl
  · intro low
    rw [TCP.wireFlags, TCP.word, ← low]
    apply BitVec.eq_of_getLsbD_eq
    intro i inside
    interval_cases i <;> simp [BitVec.getElem_signExtend]

/-- A TCP header is read; an offset below 5 throws. -/
theorem run_tcp {this : TCP} {sourcePort destinationPort : TransportPort} (source : this.sourcePort = some sourcePort)
    (destination : this.destinationPort = some destinationPort) (rest : List Byte) :
    TCP.deserialize.run (this.header sourcePort destinationPort ++ rest) =
      (do
        check (5 ≤ this.wireOffset.toInt) (.packetParsing "Invalid tcp header length < 20")
        let options ← TCP.readOptions this.wireOffset
        let decoded ← Data.deserialize
        pure (.tcp { this with dataOffset := this.wireOffset, flags := this.wireFlags, options := options } :: decoded) :
        ByteBuffer IPacket).run rest := by
  have bytes : this.header sourcePort destinationPort ++ rest = putShort sourcePort ++ (putShort destinationPort ++
      (putInt this.sequence ++ (putInt this.acknowledge ++ (putShort this.word ++ (putShort this.windowSize ++
        (putShort this.checksum ++ (putShort this.urgentPointer ++ rest))))))) := by
    simp [TCP.header, TCP.word]
  rw [bytes, TCP.deserialize, (reads_getShort sourcePort).run_bind, (reads_getShort destinationPort).run_bind,
    (reads_getInt this.sequence).run_bind, (reads_getInt this.acknowledge).run_bind,
    (reads_getShort this.word).run_bind]
  dsimp only
  rw [run_check, run_check, ← source, ← destination]
  congr 1
  rw [(reads_getShort this.windowSize).run_bind, (reads_getShort this.checksum).run_bind,
    (reads_getShort this.urgentPointer).run_bind]
  rfl

/-- With the data offset that it has on the wire, all options and the payload come back. -/
theorem run_tcp_options {this : TCP} {options payload : List Byte}
    (offset : this.dataOffset.toInt * 4 = 20 + options.length) :
    (TCP.readOptions this.dataOffset).run (options ++ payload) =
      .ok (if 5 < this.dataOffset.toInt then some options else none, payload) := by
  have value : (this.dataOffset.toNat : Int) = this.dataOffset.toInt := by
    rw [BitVec.toInt_eq_toNat_cond]
    split_ifs with small
    · rfl
    · rw [BitVec.toInt_eq_toNat_cond, if_neg small] at offset
      omega
  rw [TCP.readOptions]
  split_ifs with more
  · have length : min (this.dataOffset.toNat * 4 - 20) (options ++ payload).length = options.length := by
      rw [List.length_append]
      omega
    rw [run_remaining]
    dsimp only
    rw [length, (reads_getBytes rfl).run_bind]
    rfl
  · have none_left : options = [] := List.length_eq_zero_iff.mp (by omega)
    rw [none_left]
    rfl

/-! ## `IPv4` -/

/-- The version and the length of the header in one byte. -/
def IPv4.firstByte (this : IPv4) : Byte := ((this.version &&& 0xf) <<< 4) ||| (this.headerLength &&& 0xf)

/-- The flags and the offset of the fragment in one short. -/
def IPv4.fragmentWord (this : IPv4) : Short :=
  (this.flags &&& IPV4_FLAGS_MASK).setWidth 16 <<< IPV4_FLAGS_SHIFT ||| (this.fragmentOffset &&& IPV4_OFFSET_MASK)

section IPv4
variable (this : IPv4)

/-- The lower half of the byte. -/
theorem firstByte_headerLength : this.firstByte &&& 0xf = this.headerLength &&& 0xf := by
  rw [IPv4.firstByte]
  apply BitVec.eq_of_getLsbD_eq
  intro i inside
  interval_cases i <;> simp

/-- The upper half of the byte, although the shift is arithmetic. -/
theorem firstByte_version : this.firstByte.sshiftRight 4 &&& 0xf = this.version &&& 0xf := by
  rw [IPv4.firstByte]
  apply BitVec.eq_of_getLsbD_eq
  intro i inside
  interval_cases i <;> simp [BitVec.getElem_sshiftRight]

/-- The upper three bits of the word. -/
theorem fragmentWord_flags :
    ((this.fragmentWord.sshiftRight IPV4_FLAGS_SHIFT &&& IPV4_FLAGS_MASK.setWidth 16).setWidth 8 : Byte) =
      this.flags &&& IPV4_FLAGS_MASK := by
  rw [IPv4.fragmentWord]
  apply BitVec.eq_of_getLsbD_eq
  intro i inside
  interval_cases i <;> simp [BitVec.getElem_sshiftRight, IPV4_FLAGS_SHIFT, IPV4_FLAGS_MASK, IPV4_OFFSET_MASK]

/-- The other thirteen bits of the word. -/
theorem fragmentWord_offset : this.fragmentWord &&& IPV4_OFFSET_MASK = this.fragmentOffset &&& IPV4_OFFSET_MASK := by
  rw [IPv4.fragmentWord]
  apply BitVec.eq_of_getLsbD_eq
  intro i inside
  interval_cases i <;> simp [IPV4_FLAGS_SHIFT, IPV4_FLAGS_MASK, IPV4_OFFSET_MASK]

end IPv4

/-- The header without the options. -/
def IPv4.fixedHeader (this : IPv4) : List Byte :=
  [this.firstByte] ++ ([this.diffServ] ++ (putShort this.totalLength ++ (putShort this.identification ++
    (putShort this.fragmentWord ++ ([this.ttl] ++ ([this.protocol] ++ (putShort this.checksum ++
      (putInt this.sourceAddress ++ putInt this.destinationAddress))))))))

/-- The options come behind the fields of fixed length. -/
theorem ipv4_header_eq (this : IPv4) : this.header = this.fixedHeader ++ this.options.getD [] := by
  simp [IPv4.header, IPv4.fixedHeader, IPv4.firstByte, IPv4.fragmentWord]

/-- What a decoder knows of a header before the options. -/
def IPv4.wire (this : IPv4) : IPv4 :=
  { this with
    version := this.version &&& 0xf, headerLength := this.headerLength &&& 0xf, flags := this.flags &&& IPV4_FLAGS_MASK,
    fragmentOffset := this.fragmentOffset &&& IPV4_OFFSET_MASK }

/-- The fixed fields are read; another version than 4 throws. -/
theorem run_ipv4 (this : IPv4) (rest : List Byte) :
    IPv4.deserialize.run (this.fixedHeader ++ rest) =
      (do
        check (this.wire.version = 4)
          (.packetParsing ("Invalid version for IPv4 packet: " ++ toString this.wire.version.toInt))
        let options ← IPv4.readOptions this.wire.headerLength
        let payloadLength := min (this.totalLength.toInt - this.wire.headerLength.toInt * 4) (← remaining)
        let decoded ← IPv4.readPayload this.protocol (IPv4.isFragment this.wire.flags this.wire.fragmentOffset)
          payloadLength
        pure (.ipv4 { this.wire with options := options } :: decoded) : ByteBuffer IPacket).run rest := by
  rw [IPv4.fixedHeader]
  simp only [List.append_assoc]
  rw [IPv4.deserialize, (reads_get this.firstByte).run_bind]
  dsimp only
  rw [firstByte_headerLength, firstByte_version, run_check, run_check]
  congr 1
  rw [(reads_get this.diffServ).run_bind, (reads_getShort this.totalLength).run_bind,
    (reads_getShort this.identification).run_bind, (reads_getShort this.fragmentWord).run_bind]
  rw [(reads_get this.ttl).run_bind, (reads_get this.protocol).run_bind, (reads_getShort this.checksum).run_bind,
    (reads_getInt this.sourceAddress).run_bind, (reads_getInt this.destinationAddress).run_bind,
    fragmentWord_flags, fragmentWord_offset]
  rfl

/-- Where the length of the header has come back, so do the options. -/
theorem run_ipv4_options {headerLength : Byte} {options payload : List Byte}
    (exact : headerLength.toNat * 4 = 20 + options.length) (small : headerLength.toNat < 128) :
    (IPv4.readOptions headerLength).run (options ++ payload) =
      .ok (if options = [] then none else some options, payload) := by
  have value : headerLength.toInt = headerLength.toNat := by
    rw [BitVec.toInt_eq_toNat_cond, if_pos (by omega)]
  have length : options.length = (headerLength.toNat - 5) * 4 := by omega
  rw [IPv4.readOptions]
  split_ifs with more empty empty
  · rw [empty] at length
    simp at length
    omega
  · rw [(reads_getBytes length).run_bind]
    rfl
  · rw [empty]
    rfl
  · exact absurd (List.length_eq_zero_iff.mp (by omega)) empty

end CodeClips.Packet
