import CodeClips.Lib.Buffer
import CodeClips.Packet.Layers

/-!
# `serialize`

Each class puts its header before what its payload serializes to. `serialize` returns the bytes
(`none` for the `null` of a `Data` without any), the packet with the fields that it has set, and
what it has done to its parent: a payload sets the type fields of its parent, and `DHCP` resets
the checksums of all its parents. An `int` is 32 bits and may overflow.
-/

namespace CodeClips.Packet

/-! ## Checksums -/

/-- The sum of the shorts, and of a last byte padded to one, in an `int`. -/
def accumulate : List Byte → BitVec 32
  | [] => 0
  | [b] => (b.setWidth 32 &&& 0xff) <<< 8
  | b₁ :: b₂ :: bytes => (0xffff &&& (BitVec.ofNat 16 (fromBigEndian [b₁, b₂])).setWidth 32) + accumulate bytes

/-- The accumulation is folded once, and its complement is the checksum. -/
def fold (accumulation : BitVec 32) : Short :=
  let accumulation := (accumulation.sshiftRight 16 &&& 0xffff) + (accumulation &&& 0xffff)
  (~~~ accumulation &&& 0xffff).setWidth 16

/-- The two halves of an address, a protocol and a length. -/
def pseudoHeader (ipv4 : IPv4) (protocol : IpProtocol) (length : BitVec 32) : BitVec 32 :=
  ((ipv4.sourceAddress.sshiftRight 16 &&& 0xffff) + (ipv4.sourceAddress &&& 0xffff)) +
    ((ipv4.destinationAddress.sshiftRight 16 &&& 0xffff) + (ipv4.destinationAddress &&& 0xffff)) +
    (protocol.setWidth 32 &&& 0xff) + (length &&& 0xffff)

/-- What the parent adds: only an `IPv4` does, whose protocol has been set before. -/
def parentHeader (parent : Option Layer) (protocol : IpProtocol) (length : BitVec 32) : BitVec 32 :=
  match parent with
  | some (.ipv4 ipv4) => pseudoHeader ipv4 protocol length
  | _ => 0

/-- A checksum that is 0 is computed, of what the header adds and the covered bytes, and put at
its place. -/
def withChecksum (checksum : Short) (header : BitVec 32) (covered offset : Nat) (data : List Byte) :
    List Byte × Short :=
  if checksum = 0 then
    let checksum := fold (header + accumulate (data.take covered))
    (blit data offset (putShort checksum), checksum)
  else (data, checksum)

/-! ## The classes -/

def Ethernet.serialize (this : Ethernet) (payloadData : Option (List Byte)) : Java (List Byte) := do
  let length : BitVec 32 := 14 + (if this.vlanID = VLAN_UNTAGGED then 0 else 4) + BitVec.ofNat 32 (payloadData.getD []).length
  let length := if this.pad ∧ length.toInt < 60 then 60 else length
  let destination ← nonNull this.destinationMACAddress
  let source ← nonNull this.sourceMACAddress
  let tag :=
    if this.vlanID = VLAN_UNTAGGED then []
    else putShort 0x8100 ++ putShort (this.priorityCode.signExtend 16 <<< 13 ||| (this.vlanID &&& 0x0fff))
  allocate length (destination.bytes ++ source.bytes ++ tag ++ putShort this.etherType ++ payloadData.getD [])

def IPv4.header (this : IPv4) : List Byte :=
  [((this.version &&& 0xf) <<< 4) ||| (this.headerLength &&& 0xf), this.diffServ] ++ putShort this.totalLength ++
    putShort this.identification ++
    putShort ((this.flags &&& IPV4_FLAGS_MASK).setWidth 16 <<< IPV4_FLAGS_SHIFT |||
      (this.fragmentOffset &&& IPV4_OFFSET_MASK)) ++
    [this.ttl, this.protocol] ++ putShort this.checksum ++ putInt this.sourceAddress ++ putInt this.destinationAddress ++
    this.options.getD []

/-- The two length fields are always set. -/
def IPv4.setLengths (this : IPv4) (payloadLength : Nat) : IPv4 :=
  let headerLength : Byte := BitVec.ofNat 8 (5 + (this.options.getD []).length / 4)
  { this with headerLength := headerLength, totalLength := BitVec.ofInt 16 (headerLength.toInt * 4 + payloadLength) }

def IPv4.serialize (this : IPv4) (payloadData : Option (List Byte)) : Java (List Byte × IPv4) := do
  let this := this.setLengths (payloadData.getD []).length
  let data ← allocate (this.totalLength.signExtend 32) (this.header ++ payloadData.getD [])
  let (data, checksum) := withChecksum this.checksum 0 (this.headerLength.toInt.toNat * 4) 10 data
  pure (data, { this with checksum := checksum })

/-- The options and their padding, which only a header above the default length has. -/
def TCP.optionBytes (this : TCP) : Java (List Byte) :=
  if 5 < this.dataOffset.toInt then do
    let options ← nonNull this.options
    let padding : Int := this.dataOffset.toInt * 4 - 20 - options.length
    pure (options ++ List.replicate padding.toNat 0)
  else pure []

def TCP.header (this : TCP) (sourcePort destinationPort : TransportPort) : List Byte :=
  putShort sourcePort ++ putShort destinationPort ++ putInt this.sequence ++ putInt this.acknowledge ++
    putShort (this.flags ||| (this.dataOffset.signExtend 16 <<< 12)) ++ putShort this.windowSize ++
    putShort this.checksum ++ putShort this.urgentPointer

def TCP.serialize (this : TCP) (parent : Option Layer) (payloadData : List Byte) : Java (List Byte × TCP) := do
  let length : BitVec 32 := (this.dataOffset.signExtend 32 <<< 2) + BitVec.ofNat 32 payloadData.length
  let sourcePort ← nonNull this.sourcePort
  let destinationPort ← nonNull this.destinationPort
  let options ← this.optionBytes
  let data ← allocate length (this.header sourcePort destinationPort ++ options ++ payloadData)
  let (data, checksum) :=
    withChecksum this.checksum (parentHeader parent IpProtocol.TCP length) data.length 16 data
  pure (data, { this with checksum := checksum })

def UDP.header (this : UDP) (sourcePort destinationPort : TransportPort) : List Byte :=
  putShort sourcePort ++ putShort destinationPort ++ putShort this.length ++ putShort this.checksum

def UDP.setLength (this : UDP) (payloadLength : Nat) : UDP :=
  { this with length := BitVec.ofNat 16 (8 + payloadLength) }

def UDP.serialize (this : UDP) (parent : Option Layer) (payloadData : Option (List Byte)) :
    Java (List Byte × UDP) := do
  let this := this.setLength (payloadData.getD []).length
  let length := this.length.signExtend 32
  let sourcePort ← nonNull this.sourcePort
  let destinationPort ← nonNull this.destinationPort
  let data ← allocate length (this.header sourcePort destinationPort ++ payloadData.getD [])
  let (data, checksum) :=
    withChecksum this.checksum (parentHeader parent IpProtocol.UDP length) data.length 6 data
  pure (data, { this with checksum := checksum })

def ICMP.padding (this : ICMP) : Nat := (ICMP.paddingMap this.icmpType).getD 0

def ICMP.header (this : ICMP) : List Byte :=
  [this.icmpType, this.icmpCode] ++ putShort this.checksum ++ List.replicate this.padding 0

def ICMP.serialize (this : ICMP) (payloadData : List Byte) : Java (List Byte × ICMP) := do
  let length : BitVec 32 := BitVec.ofNat 32 (4 + this.padding + payloadData.length)
  let data ← allocate length (this.header ++ payloadData)
  let (data, checksum) := withChecksum this.checksum 0 data.length 2 data
  pure (data, { this with checksum := checksum })

/-- `bb.put(src, 0, length)`. -/
def putPart (src : Option (List Byte)) (length : Nat) : Java (List Byte) := do
  let src ← nonNull src
  if src.length < length then .error .indexOutOfBounds else pure (src.take length)

def ARP.serialize (this : ARP) : Java (List Byte) := do
  let hardware := this.hardwareAddressLength.toNat
  let protocol := this.protocolAddressLength.toNat
  let senderHardware ← putPart this.senderHardwareAddress hardware
  let senderProtocol ← putPart this.senderProtocolAddress protocol
  let targetHardware ← putPart this.targetHardwareAddress hardware
  let targetProtocol ← putPart this.targetProtocolAddress protocol
  allocate (BitVec.ofNat 32 (8 + 2 * hardware + 2 * protocol))
    (putShort this.hardwareType ++ putShort this.protocolType ++
      [this.hardwareAddressLength, this.protocolAddressLength] ++ putShort this.opCode ++ senderHardware ++
      senderProtocol ++ targetHardware ++ targetProtocol)

/-- The lengths of `BSN` and `BSNPROBE` are shorts. -/
def BSN.serialize (this : BSN) (payloadData : List Byte) : Java (List Byte) :=
  let length : Short := BitVec.ofNat 16 (4 + 2 + 2 + payloadData.length)
  allocate (length.signExtend 32) (putInt BSN_MAGIC ++ putShort this.type ++ putShort this.version ++ payloadData)

def BSNPROBE.serialize (this : BSNPROBE) (payloadData : List Byte) : Java (List Byte) := do
  let length : Short := BitVec.ofNat 16 (8 + 4 + 12 + 8 + 4 + payloadData.length)
  let srcMac ← nonNull this.srcMac
  let dstMac ← nonNull this.dstMac
  allocate (length.signExtend 32)
    (putLong this.controllerId ++ putInt this.sequenceId ++ srcMac ++ dstMac ++ putLong this.srcSwDpid ++
      putInt this.srcPortNo ++ payloadData)

/-- `string.getBytes("ascii")`: other characters become question marks. -/
def asciiBytes (string : List Char) : List Byte :=
  string.map fun c => if c.toNat < 128 then BitVec.ofNat 8 c.toNat else 63

def DHCP.writeString (string : Option (List Char)) (maxLength : Nat) : List Byte :=
  let bytes := (asciiBytes (string.getD [])).take maxLength
  bytes ++ List.replicate (maxLength - bytes.length) 0

def DHCPOption.size (option : DHCPOption) : Nat :=
  if option.code = 0 ∨ option.code = 255 then 1 else 2 + option.length.toNat

def DHCPOption.bytes (option : DHCPOption) : Java (List Byte) :=
  if option.code ≠ 0 ∧ option.code ≠ 255 then do
    let data ← nonNull option.data
    pure ([option.code, option.length] ++ data)
  else pure [option.code]

def DHCP.serialize (this : DHCP) : Java (List Byte) := do
  let optionsLength : BitVec 32 := this.options.foldl (fun length option => length + BitVec.ofNat 32 option.size) 0
  let optionsPadLength := if optionsLength.toInt < 60 then 60 - optionsLength else 0
  let clientHardwareAddress ← nonNull this.clientHardwareAddress
  let options ← this.options.mapM DHCPOption.bytes
  allocate (240 + optionsLength + optionsPadLength)
    ([this.opCode, this.hardwareType, this.hardwareAddressLength, this.hops] ++ putInt this.transactionId ++
      putShort this.seconds ++ putShort this.flags ++ putInt this.clientIPAddress ++ putInt this.yourIPAddress ++
      putInt this.serverIPAddress ++ putInt this.gatewayIPAddress ++ clientHardwareAddress ++
      List.replicate (16 - clientHardwareAddress.length) 0 ++ writeString this.serverName 64 ++
      writeString this.bootFileName 128 ++ [0x63, 0x82, 0x53, 0x63] ++ options.flatten)

/-! ## Packets -/

/-- What a payload has done to its parent. -/
structure Touch where
  protocol : Option IpProtocol
  etherType : Option Short
  type : Option Short
  resetChecksum : Bool
  deriving DecidableEq

def Touch.none : Touch := { protocol := .none, etherType := .none, type := .none, resetChecksum := false }

def Layer.touch (touch : Touch) : Layer → Layer
  | .ethernet this => .ethernet { this with etherType := touch.etherType.getD this.etherType }
  | .ipv4 this => .ipv4 { this with
      protocol := touch.protocol.getD this.protocol
      checksum := if touch.resetChecksum then 0 else this.checksum }
  | .tcp this => .tcp { this with checksum := if touch.resetChecksum then 0 else this.checksum }
  | .udp this => .udp { this with checksum := if touch.resetChecksum then 0 else this.checksum }
  | .bsn this => .bsn { this with type := touch.type.getD this.type }
  | layer => layer

/-- `TCP` gives a data offset of 0 its default first. -/
def Layer.prepare : Layer → Layer
  | .tcp this => .tcp { this with dataOffset := if this.dataOffset = 0 then 5 else this.dataOffset }
  | layer => layer

/-- The payload's bytes where the class takes their length without a check for `null`. -/
def required (payload : IPacket) (payloadData : Option (List Byte)) : Java (List Byte) :=
  if payload = [] then pure [] else nonNull payloadData

/-- The class's own part, after its payload's. -/
def Layer.serialize (parent : Option Layer) (payload : IPacket) (payloadData : Option (List Byte)) :
    Layer → Java (Option (List Byte) × Layer × Touch)
  | .ethernet this => do
    let bytes ← this.serialize payloadData
    pure (bytes, .ethernet this, .none)
  | .ipv4 this => do
    let (bytes, this) ← this.serialize payloadData
    pure (bytes, .ipv4 this, .none)
  | .tcp this => do
    let payloadData ← required payload payloadData
    let (bytes, this) ← this.serialize parent payloadData
    pure (bytes, .tcp this, { Touch.none with protocol := some IpProtocol.TCP })
  | .udp this => do
    let (bytes, this) ← this.serialize parent payloadData
    pure (bytes, .udp this, { Touch.none with protocol := some IpProtocol.UDP })
  | .icmp this => do
    let payloadData ← required payload payloadData
    let (bytes, this) ← this.serialize payloadData
    pure (bytes, .icmp this, { Touch.none with protocol := some IpProtocol.ICMP })
  | .arp this => do
    let bytes ← this.serialize
    pure (bytes, .arp this, .none)
  | .lldp this => do
    let bytes ← this.serialize
    pure (bytes, .lldp this, { Touch.none with etherType := some TYPE_LLDP })
  | .bsn this => do
    let payloadData ← required payload payloadData
    let bytes ← this.serialize payloadData
    pure (bytes, .bsn this, { Touch.none with etherType := some TYPE_BSN })
  | .bsnprobe this => do
    let payloadData ← required payload payloadData
    let bytes ← this.serialize payloadData
    pure (bytes, .bsnprobe this, { Touch.none with type := some BSN_TYPE_PROBE })
  | .dhcp this => do
    let bytes ← this.serialize
    pure (bytes, .dhcp this, { Touch.none with resetChecksum := true })
  | .data this => pure (this.data, .data this, .none)

/-- The classes that serialize their payload. -/
def Layer.hasPayload : Layer → Bool
  | .arp _ | .lldp _ | .dhcp _ | .data _ => false
  | _ => true

def serialize (parent : Option Layer) : IPacket → Java (Option (List Byte) × IPacket × Touch)
  | [] => pure (none, [], .none)
  | layer :: payload =>
    if layer.hasPayload then do
      let layer := layer.prepare
      let (payloadData, payload, touch) ← serialize (some layer) payload
      let (bytes, layer, touch') ← (layer.touch touch).serialize parent payload payloadData
      pure (bytes, layer :: payload, { touch' with resetChecksum := touch'.resetChecksum || touch.resetChecksum })
    else do
      let (bytes, layer, touch) ← layer.serialize parent payload none
      pure (bytes, layer :: payload, touch)

end CodeClips.Packet
