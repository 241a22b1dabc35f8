import CodeClips.Packet.Layers

/-!
# `deserialize`

Each class reads its fields from its part of the frame and hands the rest to the class of its
payload, which is always a fresh instance. Only `Ethernet`, the outermost one, is given a
receiver of its own and the whole array: it falls back to `Data` when the payload's class throws.
-/

namespace CodeClips.Packet
open ByteBuffer

namespace ByteBuffer

/-- Throws where the condition does not hold. -/
def check (holds : Bool) (e : Throwable) : ByteBuffer Unit := if holds then pure () else throw e

/-- `payload.deserialize(data, bb.position(), length)`, and what it throws for a negative length. -/
def part {α : Type} (length : Int) (negative : Throwable) (decoder : ByteBuffer α) : ByteBuffer α := fun input =>
  if length < 0 then .error negative
  else (decoder.run (input.take length.toNat)).map fun (payload, _) => (payload, input.drop length.toNat)

end ByteBuffer

/-- `Arrays.copyOfRange(data, offset, offset + length)`. -/
def Data.deserialize : ByteBuffer IPacket := do
  let data ← rest
  pure [.data { data := some data }]

def ICMP.deserialize : ByteBuffer IPacket := do
  let icmpType ← ByteBuffer.get
  let icmpCode ← ByteBuffer.get
  let checksum ← getShort
  let _ ← Reader.take .illegalArgument ((ICMP.paddingMap icmpType).getD 0)
  let payload ← Data.deserialize
  pure (.icmp { icmpType := icmpType, icmpCode := icmpCode, checksum := checksum } :: payload)

/-- A header of the default length has no options. -/
def TCP.readOptions (dataOffset : Byte) : ByteBuffer (Option (List Byte)) :=
  if 5 < dataOffset.toInt then do
    let optLength := min (dataOffset.toNat * 4 - 20) (← remaining)
    let options ← getBytes optLength
    pure (some options)
  else pure none

def TCP.deserialize : ByteBuffer IPacket := do
  let sourcePort ← getShort
  let destinationPort ← getShort
  let sequence ← getInt
  let acknowledge ← getInt
  let flags ← getShort
  let dataOffset : Byte := (flags.sshiftRight 12 &&& 0xf).setWidth 8
  check (5 ≤ dataOffset.toInt) (.packetParsing "Invalid tcp header length < 20")
  let windowSize ← getShort
  let checksum ← getShort
  let urgentPointer ← getShort
  let options ← readOptions dataOffset
  let payload ← Data.deserialize
  pure (.tcp { sourcePort := some sourcePort, destinationPort := some destinationPort, sequence := sequence,
               acknowledge := acknowledge, dataOffset := dataOffset, flags := flags &&& 0x1ff,
               windowSize := windowSize, checksum := checksum, urgentPointer := urgentPointer,
               options := options } :: payload)

/-! ## `DHCP` -/

def DHCPOption.end : DHCPOption := { code := 255, length := 0, data := none }

/-- The loop over the options; what is cut short becomes the end. -/
def DHCP.readOptions : List Byte → List DHCPOption
  | [] => []
  | code :: rest =>
    if code = 0 then readOptions rest
    else if code = 255 then [.end]
    else
      match rest with
      | [] => [.end]
      | length :: rest =>
        if length.toNat ≤ rest.length then
          { code := code, length := length, data := some (rest.take length.toNat) } ::
            readOptions (rest.drop length.toNat)
        else [.end]
termination_by input => input.length
decreasing_by
  · exact Nat.lt_succ_self _
  · rw [List.length_drop, List.length_cons, List.length_cons]
    omega

/-- `new String(bytes, "ascii").trim()`. -/
def DHCP.readString (maxLength : Nat) : ByteBuffer (List Char) := do
  let bytes ← getBytes maxLength
  let string := bytes.map fun b => if b.toNat < 128 then Char.ofNat b.toNat else Char.ofNat 0xfffd
  let blank := fun c : Char => decide (c ≤ ' ')
  pure ((string.dropWhile blank).reverse.dropWhile blank).reverse

def DHCP.deserialize : ByteBuffer IPacket := do
  if (← remaining) < MIN_HEADER_LENGTH then pure [.dhcp .new]
  else
    let opCode ← ByteBuffer.get
    let hardwareType ← ByteBuffer.get
    let hardwareAddressLength ← ByteBuffer.get
    let hops ← ByteBuffer.get
    let transactionId ← getInt
    let seconds ← getShort
    let flags ← getShort
    let clientIPAddress ← getInt
    let yourIPAddress ← getInt
    let serverIPAddress ← getInt
    let gatewayIPAddress ← getInt
    let clientHardwareAddress ← getBytes hardwareAddressLength.toNat
    let _ ← getBytes (16 - hardwareAddressLength.toNat)
    let serverName ← readString 64
    let bootFileName ← readString 128
    let _ ← getBytes 4
    let options ← rest
    pure [.dhcp { opCode := opCode, hardwareType := hardwareType, hardwareAddressLength := hardwareAddressLength,
                  hops := hops, transactionId := transactionId, seconds := seconds, flags := flags,
                  clientIPAddress := clientIPAddress, yourIPAddress := yourIPAddress,
                  serverIPAddress := serverIPAddress, gatewayIPAddress := gatewayIPAddress,
                  clientHardwareAddress := some clientHardwareAddress, serverName := some serverName,
                  bootFileName := some bootFileName, options := readOptions options }]

/-! ## `UDP` and `IPv4` -/

/-- The ports of which the payload is decoded. -/
def UDP.decodeMap (port : TransportPort) : Option (ByteBuffer IPacket) :=
  if port = DHCP_CLIENT_PORT ∨ port = DHCP_SERVER_PORT then some DHCP.deserialize else none

/-- The destination's decoder, else the source's. -/
def UDP.decoder (sourcePort destinationPort : TransportPort) : ByteBuffer IPacket :=
  match decodeMap destinationPort, decodeMap sourcePort with
  | some decoder, _ => decoder
  | none, some decoder => decoder
  | none, none => Data.deserialize

def UDP.deserialize : ByteBuffer IPacket := do
  let sourcePort ← getShort
  let destinationPort ← getShort
  let length ← getShort
  let checksum ← getShort
  let payload ← decoder sourcePort destinationPort
  pure (.udp { sourcePort := some sourcePort, destinationPort := some destinationPort, length := length,
               checksum := checksum } :: payload)

/-- The protocols of which the payload is decoded. -/
def IPv4.protocolClassMap (protocol : IpProtocol) : Option (ByteBuffer IPacket) :=
  if protocol = IpProtocol.ICMP then some ICMP.deserialize
  else if protocol = IpProtocol.TCP then some TCP.deserialize
  else if protocol = IpProtocol.UDP then some UDP.deserialize
  else none

/-- More fragments follow, or some came before; and fragmenting is not forbidden. -/
def IPv4.isFragment (flags : Byte) (fragmentOffset : Short) : Bool :=
  flags &&& IPV4_FLAGS_DONTFRAG = 0 ∧ (flags &&& IPV4_FLAGS_MOREFRAG ≠ 0 ∨ fragmentOffset ≠ 0)

def IPv4.readOptions (headerLength : Byte) : ByteBuffer (Option (List Byte)) :=
  if 5 < headerLength.toInt then do
    let options ← getBytes ((headerLength.toNat - 5) * 4)
    pure (some options)
  else pure none

/-- Where the length is negative, a class that wraps it and `Data` throw different exceptions. -/
def IPv4.readPayload (protocol : IpProtocol) (isFragment : Bool) (length : Int) : ByteBuffer IPacket :=
  match protocolClassMap protocol with
  | some decoder =>
    if isFragment then part length .illegalArgument Data.deserialize else part length .indexOutOfBounds decoder
  | none => part length .illegalArgument Data.deserialize

def IPv4.deserialize : ByteBuffer IPacket := do
  let first ← ByteBuffer.get
  let headerLength : Byte := first &&& 0xf
  let version : Byte := first.sshiftRight 4 &&& 0xf
  check (version = 4) (.packetParsing ("Invalid version for IPv4 packet: " ++ toString version.toInt))
  let diffServ ← ByteBuffer.get
  let totalLength ← getShort
  let identification ← getShort
  let sscratch ← getShort
  let flags : Byte := (sscratch.sshiftRight IPV4_FLAGS_SHIFT &&& IPV4_FLAGS_MASK.setWidth 16).setWidth 8
  let fragmentOffset := sscratch &&& IPV4_OFFSET_MASK
  let ttl ← ByteBuffer.get
  let protocol ← ByteBuffer.get
  let checksum ← getShort
  let sourceAddress ← getInt
  let destinationAddress ← getInt
  let options ← readOptions headerLength
  let payloadLength := min (totalLength.toInt - headerLength.toInt * 4) (← remaining)
  let payload ← readPayload protocol (isFragment flags fragmentOffset) payloadLength
  pure (.ipv4 { version := version, headerLength := headerLength, diffServ := diffServ, totalLength := totalLength,
                identification := identification, flags := flags, fragmentOffset := fragmentOffset, ttl := ttl,
                protocol := protocol, checksum := checksum, sourceAddress := sourceAddress,
                destinationAddress := destinationAddress, options := options } :: payload)

/-! ## `ARP` and `BSN` -/

def ARP.deserialize : ByteBuffer IPacket := do
  let hardwareType ← getShort
  let protocolType ← getShort
  let hardwareAddressLength ← ByteBuffer.get
  let protocolAddressLength ← ByteBuffer.get
  check (hardwareAddressLength = 6)
    (.packetParsing ("Incorrect ARP hardware address length: " ++ toString hardwareAddressLength.toInt))
  check (protocolAddressLength = 4)
    (.packetParsing ("Incorrect ARP protocol address length: " ++ toString protocolAddressLength.toInt))
  let opCode ← getShort
  let senderHardwareAddress ← getBytes hardwareAddressLength.toNat
  let senderProtocolAddress ← getBytes protocolAddressLength.toNat
  let targetHardwareAddress ← getBytes hardwareAddressLength.toNat
  let targetProtocolAddress ← getBytes protocolAddressLength.toNat
  pure [.arp { hardwareType := hardwareType, protocolType := protocolType,
               hardwareAddressLength := hardwareAddressLength, protocolAddressLength := protocolAddressLength,
               opCode := opCode, senderHardwareAddress := some senderHardwareAddress,
               senderProtocolAddress := some senderProtocolAddress,
               targetHardwareAddress := some targetHardwareAddress,
               targetProtocolAddress := some targetProtocolAddress }]

/-- Without any bytes left there is no payload. -/
def BSNPROBE.deserialize : ByteBuffer IPacket := do
  let controllerId ← getLong
  let sequenceId ← getInt
  let srcMac ← getBytes 6
  let dstMac ← getBytes 6
  let srcSwDpid ← getLong
  let srcPortNo ← getInt
  let payload ← if (← remaining) = 0 then pure [] else Data.deserialize
  pure (.bsnprobe { controllerId := controllerId, sequenceId := sequenceId, srcMac := some srcMac,
                    dstMac := some dstMac, srcSwDpid := srcSwDpid, srcPortNo := srcPortNo } :: payload)

def LLDP.decode : ByteBuffer IPacket := do
  let lldp ← LLDP.deserialize
  pure [.lldp lldp]

/-- A probe, or bytes. -/
def BSN.decoder (type : Short) : ByteBuffer IPacket :=
  if type = BSN_TYPE_PROBE then BSNPROBE.deserialize
  else if type = BSN_TYPE_BDDP then LLDP.decode
  else Data.deserialize

def BSN.deserialize : ByteBuffer IPacket := do
  let magic ← getInt
  check (magic = BSN_MAGIC) (.packetParsing ("Invalid BSN magic " ++ toString magic.toInt))
  let type ← getShort
  let version ← getShort
  check (version = BSN_VERSION_CURRENT)
    (.packetParsing ("Invalid BSN packet version " ++ toString version.toInt ++ ", should be " ++
      toString BSN_VERSION_CURRENT.toInt))
  let payload ← decoder type
  pure (.bsn { type := type, version := version } :: payload)

/-! ## `Ethernet` -/

/-- The types of which the payload is decoded. -/
def Ethernet.etherTypeClassMap (etherType : Short) : Option (ByteBuffer IPacket) :=
  if etherType = TYPE_ARP ∨ etherType = TYPE_RARP then some ARP.deserialize
  else if etherType = TYPE_IPv4 then some IPv4.deserialize
  else if etherType = TYPE_LLDP then some LLDP.decode
  else if etherType = TYPE_BSN then some BSN.deserialize
  else none

def getMacAddress : ByteBuffer MacAddress := fun input =>
  if enough : 6 ≤ input.length then .ok (⟨input.take 6, by simp [enough]⟩, input.drop 6) else .error .bufferUnderflow

/-- The fields of the frame's header. An untagged frame leaves the priority of the receiver. -/
def Ethernet.readHeader (this : Ethernet) : ByteBuffer Ethernet := do
  let destination ← getMacAddress
  let source ← getMacAddress
  let etherType ← getShort
  let this := { this with destinationMACAddress := some destination, sourceMACAddress := some source }
  if etherType = 0x8100 then
    let tci ← getShort
    let etherType ← getShort
    pure { this with
      priorityCode := (tci.sshiftRight 13 &&& 0x07).setWidth 8, vlanID := tci &&& 0x0fff, etherType := etherType }
  else pure { this with vlanID := VLAN_UNTAGGED, etherType := etherType }

/-- Both the checked exception and the others are caught; `Data` then has the whole array. -/
def Ethernet.readPayload (etherType : Short) (data bytes : List Byte) : IPacket :=
  match etherTypeClassMap etherType with
  | some decoder =>
    match decoder.run bytes with
    | .ok (payload, _) => payload
    | .error _ => [.data { data := some data }]
  | none => [.data { data := some data }]

/-- `none` is the `null` for a frame that is too short. -/
def Ethernet.deserialize (this : Ethernet) (data : List Byte) (offset length : Int) : Java (Option IPacket) :=
  if length ≤ 16 then pure none
  else if offset < 0 ∨ data.length < offset + length then .error .indexOutOfBounds
  else do
    let (this, bytes) ← this.readHeader.run ((data.drop offset.toNat).take length.toNat)
    pure (some (.ethernet this :: readPayload this.etherType data bytes))

end CodeClips.Packet
