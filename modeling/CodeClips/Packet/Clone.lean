import CodeClips.Packet.Deserialize
import CodeClips.Packet.SerializeSpec

/-!
# `equals` and `clone`

A packet is cloned by its codec: a fresh instance of its class decodes what the packet serializes
to. `serialize_again` says that a packet that has been serialized is not changed by it again, so
that both calls inside `clone` give the bytes of the call before.
-/

namespace CodeClips.Packet

/-! ## The functions -/

/-- The class's own comparison, after that of the payloads. `TCP` leaves its options out at the
default data offset, and `DHCP` has no comparison of its own. -/
def Layer.equals : Layer → Layer → Bool
  | .tcp this, .tcp other =>
    { this with options := none } = { other with options := none } ∧ (this.dataOffset = 5 ∨ this.options = other.options)
  | .dhcp _, _ => true
  | this, other => this = other

def equals : IPacket → IPacket → Bool
  | [], [] => true
  | this :: payload, other :: payload' => equals payload payload' && this.equals other
  | _, _ => false

/-- What a fresh instance of the class becomes; for the `null` of `Ethernet` it stays fresh. -/
def Layer.deserialize (layer : Layer) (data : List Byte) : Java IPacket :=
  let read := fun decoder : ByteBuffer IPacket => (decoder.run data).map Prod.fst
  match layer with
  | .ethernet _ => do
    let packet ← Ethernet.new.deserialize data 0 data.length
    pure (packet.getD [.ethernet .new])
  | .ipv4 _ => read IPv4.deserialize
  | .tcp _ => read TCP.deserialize
  | .udp _ => read UDP.deserialize
  | .icmp _ => read ICMP.deserialize
  | .arp _ => read ARP.deserialize
  | .lldp _ => read LLDP.decode
  | .bsn _ => read BSN.deserialize
  | .bsnprobe _ => read BSNPROBE.deserialize
  | .dhcp _ => read DHCP.deserialize
  | .data _ => read Data.deserialize

/-- The clone, and the packet after it; what the packet does to its parent is in neither. Only the
checked exception is caught. -/
def clone (parent : Option Layer) : IPacket → Java (IPacket × IPacket)
  | [] => .error .nullPointer
  | layer :: payload => do
    let (data, this, _) ← serialize parent (layer :: payload)
    let (data', this, _) ← serialize parent this
    let data ← nonNull data
    let data' ← nonNull data'
    if data'.length < data.length then .error .indexOutOfBounds
    else
      match layer.deserialize (data'.take data.length) with
      | .ok packet => pure (packet, this)
      | .error (.packetParsing _) => pure ([.data { data := some data }], this)
      | .error e => .error e

/-- The classes of the IP stack. -/
def Layer.Basic : Layer → Prop
  | .ethernet _ | .ipv4 _ | .tcp _ | .udp _ | .icmp _ | .data _ => True
  | _ => False

/-! ## Serializing again -/

/-- The checksum before the second call: the one of the first call, or a 0 where the payload resets
it, as it has done before. -/
def Retaken (before after again : Short) : Prop := again = after ∨ again = 0 ∧ before = 0

theorem checksumOf_again {checksum again : Short} {header : BitVec 32} {covered : List Byte}
    (retaken : Retaken checksum (checksumOf checksum header covered) again) :
    checksumOf again header covered = checksumOf checksum header covered := by
  rcases retaken with rfl | ⟨rfl, rfl⟩
  · by_cases zero : checksum = 0
    · rw [zero]
      by_cases again : checksumOf 0 header covered = 0
      · rw [again, again]
      · rw [checksumOf, if_neg again]
    · have kept : checksumOf checksum header covered = checksum := if_neg zero
      rw [kept, kept]
  · rfl

section Again
variable {again : Short} {data : List Byte}

theorem ipv4_again {this this' : IPv4} {payloadData : Option (List Byte)}
    (ok : this.serialize payloadData = .ok (data, this')) (retaken : Retaken this.checksum this'.checksum again) :
    (this'.setChecksum again).serialize payloadData = .ok (data, this') := by
  obtain ⟨fits, rfl, rfl⟩ := ipv4_serialize_iff.mp ok
  refine ipv4_serialize_iff.mpr ⟨⟨fits.words, fits.header, fits.total⟩, ?_, rfl⟩
  have same := checksumOf_again retaken
  rw [IPv4.written, IPv4.written]
  exact congrArg (this.setLengths (payloadData.getD []).length).setChecksum same.symm

theorem tcp_again {this this' : TCP} {parent : Option Layer} {payload : List Byte}
    (ok : this.serialize parent payload = .ok (data, this')) (retaken : Retaken this.checksum this'.checksum again) :
    (this'.setChecksum again).serialize parent payload = .ok (data, this') := by
  obtain ⟨sourcePort, destinationPort, options, fits, rfl, rfl⟩ := tcp_serialize_iff.mp ok
  refine tcp_serialize_iff.mpr ⟨sourcePort, destinationPort, options,
    ⟨fits.sourcePort_eq, fits.destinationPort_eq, fits.options_eq, fits.dataOffset, fits.total⟩, ?_, rfl⟩
  exact congrArg this.setChecksum (checksumOf_again retaken).symm

theorem udp_again {this this' : UDP} {parent : Option Layer} {payloadData : Option (List Byte)}
    (ok : this.serialize parent payloadData = .ok (data, this')) (retaken : Retaken this.checksum this'.checksum again) :
    (this'.setChecksum again).serialize parent payloadData = .ok (data, this') := by
  obtain ⟨sourcePort, destinationPort, fits, rfl, rfl⟩ := udp_serialize_iff.mp ok
  refine udp_serialize_iff.mpr ⟨sourcePort, destinationPort,
    ⟨fits.sourcePort_eq, fits.destinationPort_eq, fits.total⟩, ?_, rfl⟩
  exact congrArg (this.setLength (payloadData.getD []).length).setChecksum (checksumOf_again retaken).symm

theorem icmp_again {this this' : ICMP} {payload : List Byte} (ok : this.serialize payload = .ok (data, this')) :
    this'.serialize payload = .ok (data, this') := by
  obtain ⟨total, rfl, rfl⟩ := icmp_serialize_iff.mp ok
  refine icmp_serialize_iff.mpr ⟨total, ?_, rfl⟩
  exact congrArg this.setChecksum (checksumOf_again (.inl rfl)).symm

end Again

/-- The checksum that a payload leaves its parent. -/
def Touch.checksum (touch : Touch) (checksum : Short) : Short := if touch.resetChecksum then 0 else checksum

theorem retaken_touch (touch : Touch) (checksum after : Short) :
    Retaken (touch.checksum checksum) after (touch.checksum after) := by
  rw [Touch.checksum, Touch.checksum]
  split_ifs with reset
  · exact .inr ⟨rfl, rfl⟩
  · exact .inl rfl

/-- What a payload sets it sets once. -/
theorem getD_getD {α : Type} (o : Option α) (a : α) : o.getD (o.getD a) = o.getD a := by
  cases o <;> rfl

theorem protocol_again {this this' : IPv4} {payloadData : Option (List Byte)} {data : List Byte} {inner : Touch}
    (ok : IPv4.serialize { this with
      protocol := inner.protocol.getD this.protocol, checksum := inner.checksum this.checksum } payloadData =
        .ok (data, this')) : inner.protocol.getD this'.protocol = this'.protocol := by
  obtain ⟨-, rfl, -⟩ := ipv4_serialize_iff.mp ok
  exact getD_getD _ _

/-- After `serialize` the data offset is not 0. -/
theorem dataOffset_again {this this' : TCP} {parent : Option Layer} {payload data : List Byte} {checksum : Short}
    (ok : TCP.serialize { this with
      dataOffset := if this.dataOffset = 0 then 5 else this.dataOffset, checksum := checksum } parent payload =
        .ok (data, this')) : (if this'.dataOffset = 0 then 5 else this'.dataOffset) = this'.dataOffset := by
  obtain ⟨sourcePort, destinationPort, options, -, rfl, -⟩ := tcp_serialize_iff.mp ok
  have nonzero : (if this.dataOffset = 0 then 5 else this.dataOffset) ≠ 0 := by
    split_ifs with zero
    · decide
    · exact zero
  exact if_neg nonzero

theorem layer_again {parent : Option Layer} {layer layer' : Layer} {payload : IPacket}
    {payloadData bytes : Option (List Byte)} {inner own : Touch}
    (ok : (layer.prepare.touch inner).serialize parent payload payloadData = .ok (bytes, layer', own)) :
    (layer'.prepare.touch inner).serialize parent payload payloadData = .ok (bytes, layer', own) := by
  cases layer with
  | ethernet this =>
    obtain ⟨data, encoded, done⟩ := bind_eq_ok ok
    cases done
    simp only [Layer.prepare, Layer.touch, getD_getD]
    exact ok
  | ipv4 this =>
    obtain ⟨⟨data, this'⟩, encoded, done⟩ := bind_eq_ok ok
    cases done
    have protocol := @protocol_again this this' payloadData data inner encoded
    have again := ipv4_again encoded (retaken_touch inner this.checksum this'.checksum)
    show (IPv4.serialize { this' with
      protocol := inner.protocol.getD this'.protocol, checksum := inner.checksum this'.checksum } payloadData >>= _) = _
    rw [protocol]
    change IPv4.serialize { this' with checksum := inner.checksum this'.checksum } payloadData = _ at again
    rw [again]
    rfl
  | tcp this =>
    obtain ⟨given, taken, more⟩ := bind_eq_ok ok
    obtain ⟨⟨data, this'⟩, encoded, done⟩ := bind_eq_ok more
    cases done
    have dataOffset := @dataOffset_again this this' parent given data (inner.checksum this.checksum) encoded
    have again := tcp_again encoded (retaken_touch inner this.checksum this'.checksum)
    show (required payload payloadData >>= fun given => TCP.serialize { this' with
      dataOffset := if this'.dataOffset = 0 then 5 else this'.dataOffset, checksum := inner.checksum this'.checksum }
        parent given >>= _) = _
    rw [taken, dataOffset]
    change TCP.serialize { this' with checksum := inner.checksum this'.checksum } parent given = _ at again
    show (TCP.serialize _ parent given >>= _) = _
    rw [again]
    rfl
  | udp this =>
    obtain ⟨⟨data, this'⟩, encoded, done⟩ := bind_eq_ok ok
    cases done
    have again := udp_again encoded (retaken_touch inner this.checksum this'.checksum)
    show (UDP.serialize (this'.setChecksum (inner.checksum this'.checksum)) parent payloadData >>= _) = _
    rw [again]
    rfl
  | icmp this =>
    obtain ⟨given, taken, more⟩ := bind_eq_ok ok
    obtain ⟨⟨data, this'⟩, encoded, done⟩ := bind_eq_ok more
    cases done
    simp only [Layer.prepare, Layer.touch, Layer.serialize, taken, bind, Except.bind, icmp_again encoded]
    rfl
  | bsn this =>
    obtain ⟨given, taken, more⟩ := bind_eq_ok ok
    obtain ⟨data, encoded, done⟩ := bind_eq_ok more
    cases done
    simp only [Layer.prepare, Layer.touch, getD_getD]
    exact ok
  | bsnprobe this =>
    obtain ⟨given, taken, more⟩ := bind_eq_ok ok
    obtain ⟨data, encoded, done⟩ := bind_eq_ok more
    cases done
    exact ok
  | arp | lldp | dhcp =>
    obtain ⟨data, encoded, done⟩ := bind_eq_ok ok
    cases done
    exact ok
  | data this =>
    cases ok
    rfl

def Layer.getClass (layer : Layer) : Nat := layer.ctorIdx

/-- A layer that has been serialized is of its class, and adds to the checksums of its payload what
it has added before. -/
structure Layer.Settled (layer layer' : Layer) : Prop where
  getClass : layer'.getClass = layer.getClass
  hasPayload : layer'.hasPayload = layer.hasPayload
  parentHeader : ∀ protocol length,
    parentHeader (some layer'.prepare) protocol length = parentHeader (some layer.prepare) protocol length

theorem settled_of_ok {parent : Option Layer} {layer layer' : Layer} {payload : IPacket}
    {payloadData bytes : Option (List Byte)} {inner own : Touch}
    (ok : (layer.prepare.touch inner).serialize parent payload payloadData = .ok (bytes, layer', own)) :
    layer.Settled layer' := by
  cases layer with
  | ethernet | udp | arp | lldp | dhcp =>
    obtain ⟨result, -, done⟩ := bind_eq_ok ok
    cases done
    exact ⟨rfl, rfl, fun _ _ => rfl⟩
  | ipv4 this =>
    obtain ⟨⟨data, this'⟩, encoded, done⟩ := bind_eq_ok ok
    cases done
    obtain ⟨-, rfl, -⟩ := ipv4_serialize_iff.mp encoded
    exact ⟨rfl, rfl, fun _ _ => rfl⟩
  | tcp | icmp | bsn | bsnprobe =>
    obtain ⟨given, -, more⟩ := bind_eq_ok ok
    obtain ⟨result, -, done⟩ := bind_eq_ok more
    cases done
    exact ⟨rfl, rfl, fun _ _ => rfl⟩
  | data this =>
    cases ok
    exact ⟨rfl, rfl, fun _ _ => rfl⟩

theorem data_of_basic {layer : Layer} (basic : layer.Basic) (has : layer.hasPayload = false) :
    ∃ this, layer = .data this := by
  cases layer with
  | data this => exact ⟨this, rfl⟩
  | arp | lldp | bsn | bsnprobe | dhcp => exact basic.elim
  | _ => cases has

/-- Serializing a packet once more gives the same bytes and changes nothing. -/
theorem serialize_again {parent : Option Layer} {packet packet' : IPacket} {bytes : Option (List Byte)} {touch : Touch}
    (ok : serialize parent packet = .ok (bytes, packet', touch)) :
    serialize parent packet' = .ok (bytes, packet', touch) := by
  induction packet generalizing parent packet' bytes touch with
  | nil =>
    rw [serialize] at ok
    cases ok
    rfl
  | cons layer payload ih =>
    cases has : layer.hasPayload with
    | true =>
      obtain ⟨payloadData, payload', inner, layer', own, first, second, rfl, rfl⟩ := serialize_cons_ok has ok
      have settled := settled_of_ok second
      have again := ih first
      rw [← serialize_parent settled.parentHeader] at again
      exact serialize_cons (settled.hasPayload.trans has) again (layer_again second)
    | false =>
      rw [serialize, has, if_neg (by decide)] at ok
      obtain ⟨⟨data, layer', own⟩, second, done⟩ := bind_eq_ok ok
      cases done
      cases layer with
      | data this =>
        cases second
        rfl
      | arp | lldp | dhcp =>
        obtain ⟨result, encoded, done⟩ := bind_eq_ok second
        cases done
        rw [serialize, has, if_neg (by decide), second]
        rfl
      | _ => cases has

theorem basic_of_getClass {layer layer' : Layer} (basic : layer.Basic) (class_eq : layer'.getClass = layer.getClass) :
    layer'.Basic := by
  cases layer <;> cases layer' <;> first | trivial | exact basic.elim | cases class_eq

/-- The outermost layer after `serialize` is of the class that it was of. -/
theorem serialize_head {parent : Option Layer} {layer : Layer} {payload packet' : IPacket} {bytes : Option (List Byte)}
    {touch : Touch} (basic : ∀ layer' ∈ layer :: payload, layer'.Basic)
    (ok : serialize parent (layer :: payload) = .ok (bytes, packet', touch)) :
    ∃ layer' payload', packet' = layer' :: payload' ∧ layer'.Basic ∧ layer'.getClass = layer.getClass := by
  rw [List.forall_mem_cons] at basic
  cases has : layer.hasPayload with
  | true =>
    obtain ⟨payloadData, payload', inner, layer', own, first, second, rfl, rfl⟩ := serialize_cons_ok has ok
    have settled := settled_of_ok second
    exact ⟨layer', payload', rfl, basic_of_getClass basic.1 settled.getClass, settled.getClass⟩
  | false =>
    rw [serialize, has, if_neg (by decide)] at ok
    obtain ⟨⟨data, layer', own⟩, second, done⟩ := bind_eq_ok ok
    cases done
    obtain ⟨this, rfl⟩ := data_of_basic basic.1 has
    cases second
    exact ⟨.data this, payload, rfl, trivial, rfl⟩

end CodeClips.Packet
