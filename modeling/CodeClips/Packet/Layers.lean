import CodeClips.Packet.Lldp

/-!
# The packet classes

The fields of each class that its codec reads or writes, and a packet as its layers: a packet
is its own layer followed by those of its payload, and `null` has none. A reference that can be
`null` is an option. The value types of the OpenFlow library are what they wrap.
-/

namespace CodeClips.Packet

/-- Six bytes, and never another number of them. -/
structure MacAddress where
  bytes : List Byte
  length_eq : bytes.length = 6
  deriving DecidableEq

abbrev IPv4Address := BitVec 32
abbrev IpProtocol := Byte
abbrev TransportPort := Short

/-- The fields of an Ethernet frame before its payload. -/
structure Ethernet where
  destinationMACAddress : Option MacAddress
  sourceMACAddress : Option MacAddress
  priorityCode : Byte
  vlanID : Short
  etherType : Short
  pad : Bool
  deriving DecidableEq

def TYPE_ARP : Short := 0x0806
def TYPE_RARP : Short := 0x8035
def TYPE_IPv4 : Short := 0x0800
def TYPE_LLDP : Short := 0x88cc
def TYPE_BSN : Short := 0x8942
def VLAN_UNTAGGED : Short := 0

/-- The values that the constructor gives. -/
def Ethernet.new : Ethernet :=
  { destinationMACAddress := none, sourceMACAddress := none, priorityCode := 0, vlanID := VLAN_UNTAGGED, etherType := 0,
    pad := false }

/-- The fields of an IPv4 datagram before its payload. -/
structure IPv4 where
  version : Byte
  headerLength : Byte
  diffServ : Byte
  totalLength : Short
  identification : Short
  flags : Byte
  fragmentOffset : Short
  ttl : Byte
  protocol : IpProtocol
  checksum : Short
  sourceAddress : IPv4Address
  destinationAddress : IPv4Address
  options : Option (List Byte)
  deriving DecidableEq

def IPV4_FLAGS_MOREFRAG : Byte := 0x1
def IPV4_FLAGS_DONTFRAG : Byte := 0x2
def IPV4_FLAGS_MASK : Byte := 0x7
def IPV4_FLAGS_SHIFT : Nat := 13
def IPV4_OFFSET_MASK : Short := 0x1fff

def IpProtocol.ICMP : IpProtocol := 1
def IpProtocol.TCP : IpProtocol := 6
def IpProtocol.UDP : IpProtocol := 17

/-- The fields of a TCP segment; the ports are null before they have been set. -/
structure TCP where
  sourcePort : Option TransportPort
  destinationPort : Option TransportPort
  sequence : BitVec 32
  acknowledge : BitVec 32
  dataOffset : Byte
  flags : Short
  windowSize : Short
  checksum : Short
  urgentPointer : Short
  options : Option (List Byte)
  deriving DecidableEq

/-- The fields of a UDP datagram. -/
structure UDP where
  sourcePort : Option TransportPort
  destinationPort : Option TransportPort
  length : Short
  checksum : Short
  deriving DecidableEq

def DHCP_CLIENT_PORT : TransportPort := 68
def DHCP_SERVER_PORT : TransportPort := 67

/-- The fields of an ICMP message before its padding. -/
structure ICMP where
  icmpType : Byte
  icmpCode : Byte
  checksum : Short
  deriving DecidableEq

def ICMP.ECHO_REPLY : Byte := 0x0
def ICMP.ECHO_REQUEST : Byte := 0x8
def ICMP.TIME_EXCEEDED : Byte := 0xB
def ICMP.DESTINATION_UNREACHABLE : Byte := 0x3

/-- The bytes of padding after the header. -/
def ICMP.paddingMap (icmpType : Byte) : Option Nat :=
  if icmpType = ECHO_REPLY then some 0
  else if icmpType = ECHO_REQUEST then some 0
  else if icmpType = TIME_EXCEEDED then some 4
  else if icmpType = DESTINATION_UNREACHABLE then some 4
  else none

/-- The fields of an ARP packet; the addresses have any length. -/
structure ARP where
  hardwareType : Short
  protocolType : Short
  hardwareAddressLength : Byte
  protocolAddressLength : Byte
  opCode : Short
  senderHardwareAddress : Option (List Byte)
  senderProtocolAddress : Option (List Byte)
  targetHardwareAddress : Option (List Byte)
  targetProtocolAddress : Option (List Byte)
  deriving DecidableEq

/-- The fields of a BSN packet before its payload. -/
structure BSN where
  type : Short
  version : Short
  deriving DecidableEq

def BSN_MAGIC : BitVec 32 := 0x20000604
def BSN_VERSION_CURRENT : Short := 0x0
def BSN_TYPE_PROBE : Short := 0x1
def BSN_TYPE_BDDP : Short := 0x2

/-- The fields of a probe, which is the payload of a BSN packet. -/
structure BSNPROBE where
  controllerId : BitVec 64
  sequenceId : BitVec 32
  srcMac : Option (List Byte)
  dstMac : Option (List Byte)
  srcSwDpid : BitVec 64
  srcPortNo : BitVec 32
  deriving DecidableEq

/-- An option with its length, which need not be that of its data. -/
structure DHCPOption where
  code : Byte
  length : Byte
  data : Option (List Byte)
  deriving DecidableEq

/-- The fields of a DHCP message with its options. -/
structure DHCP where
  opCode : Byte
  hardwareType : Byte
  hardwareAddressLength : Byte
  hops : Byte
  transactionId : BitVec 32
  seconds : Short
  flags : Short
  clientIPAddress : BitVec 32
  yourIPAddress : BitVec 32
  serverIPAddress : BitVec 32
  gatewayIPAddress : BitVec 32
  clientHardwareAddress : Option (List Byte)
  serverName : Option (List Char)
  bootFileName : Option (List Char)
  options : List DHCPOption
  deriving DecidableEq

def DHCP.MIN_HEADER_LENGTH : Nat := 240

/-- The values of a new message: it has no options, and null for its arrays. -/
def DHCP.new : DHCP :=
  { opCode := 0, hardwareType := 0, hardwareAddressLength := 0, hops := 0, transactionId := 0, seconds := 0, flags := 0,
    clientIPAddress := 0, yourIPAddress := 0, serverIPAddress := 0, gatewayIPAddress := 0,
    clientHardwareAddress := none, serverName := none, bootFileName := none, options := [] }

/-- A payload of bytes that are not decoded. -/
structure Data where
  data : Option (List Byte)
  deriving DecidableEq

/-- What is before the payload of a packet. -/
inductive Layer where
  | ethernet (this : Ethernet)
  | ipv4 (this : IPv4)
  | tcp (this : TCP)
  | udp (this : UDP)
  | icmp (this : ICMP)
  | arp (this : ARP)
  | lldp (this : LLDP)
  | bsn (this : BSN)
  | bsnprobe (this : BSNPROBE)
  | dhcp (this : DHCP)
  | data (this : Data)
  deriving DecidableEq

/-- A packet and its payloads, from the outermost layer inwards. -/
abbrev IPacket := List Layer

end CodeClips.Packet
