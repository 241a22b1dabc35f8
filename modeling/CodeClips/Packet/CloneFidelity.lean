import CodeClips.Packet.ComesBack
import CodeClips.Packet.FrameRoundTrip

/-!
# When a clone equals its packet

A clone is what a fresh instance makes of the packet's bytes. For an `Ethernet` that is the frame
decoded again: its payload is the class of the EtherType, or else the array itself, which equals
no payload. `clone_equals_iff` puts the classes together: the clone equals the packet exactly if
the packet comes back.
-/

namespace CodeClips.Packet
open ByteBuffer

section Payload
variable {parent : Option Layer} {packet packet' : IPacket} {bytes : Option (List Byte)} {touch : Touch}

/-! ## `Ethernet` -/

/-- The array that `serialize` makes, as a frame. -/
def Ethernet.toFrame (this : Ethernet) (destination source : MacAddress) (payload : List Byte) : Frame where
  destination := destination
  source := source
  tag :=
    if this.vlanID = VLAN_UNTAGGED then none
    else some (this.priorityCode.signExtend 16 <<< 13 ||| (this.vlanID &&& 0x0fff))
  etherType := this.etherType
  payload := payload

theorem bytes_toFrame (this : Ethernet) (destination source : MacAddress) (payload : List Byte) :
    (this.toFrame destination source payload).bytes = this.frame destination source payload := by
  rw [Frame.bytes, Frame.header, Frame.tagBytes, Ethernet.toFrame, Ethernet.frame]
  dsimp only
  split_ifs <;> rfl

theorem priority_decoded (priorityCode : Byte) (vlanID : Short) :
    ((priorityCode.signExtend 16 <<< 13 ||| (vlanID &&& 0x0fff)).sshiftRight 13 &&& 0x07).setWidth 8 =
      priorityCode &&& 0x07 := by
  apply BitVec.eq_of_getLsbD_eq
  intro i inside
  interval_cases i <;> simp [BitVec.getElem_signExtend, BitVec.getElem_sshiftRight]

theorem vlan_decoded (priorityCode : Byte) (vlanID : Short) :
    (priorityCode.signExtend 16 <<< 13 ||| (vlanID &&& 0x0fff)) &&& 0x0fff = vlanID &&& 0x0fff := by
  apply BitVec.eq_of_getLsbD_eq
  intro i inside
  interval_cases i <;> simp

theorem received_toFrame_iff {this : Ethernet} {destination source : MacAddress} {payload : List Byte}
    (destination_eq : this.destinationMACAddress = some destination) (source_eq : this.sourceMACAddress = some source) :
    this = (this.toFrame destination source payload).received .new ↔ this.Clonable := by
  obtain ⟨_, _, priorityCode, vlanID, etherType, pad⟩ := this
  cases destination_eq
  cases source_eq
  by_cases untagged : vlanID = VLAN_UNTAGGED
  · rw [Ethernet.toFrame, if_pos untagged, Frame.received]
    dsimp only
    rw [Ethernet.mk.injEq]
    constructor
    · rintro ⟨-, -, priority, vlan, -, noPad⟩
      cases priority
      cases vlan
      exact ⟨noPad, (rfl : VLAN_UNTAGGED &&& 0x0fff = _), (rfl : (0 : Byte) &&& 0x07 = 0), fun _ => rfl⟩
    · rintro ⟨noPad, -, -, priority⟩
      exact ⟨rfl, rfl, priority untagged, untagged, rfl, noPad⟩
  · rw [Ethernet.toFrame, if_neg untagged, Frame.received]
    dsimp only
    rw [priority_decoded, vlan_decoded, Ethernet.mk.injEq]
    constructor
    · rintro ⟨-, -, priority, vlan, -, noPad⟩
      exact ⟨noPad, vlan.symm, priority.symm, fun zero => absurd zero untagged⟩
    · rintro ⟨noPad, vlan, priority, -⟩
      exact ⟨rfl, rfl, priority.symm, vlan.symm, rfl, noPad⟩

theorem ethernet_of_equals {this that : Ethernet} {payload payload' : IPacket}
    (same : equals (.ethernet this :: payload) (.ethernet that :: payload') = true) :
    this = that ∧ equals payload payload' = true := by
  obtain ⟨_, _, other_eq, equal, own⟩ := equals_cons.mp same
  cases other_eq
  exact ⟨Layer.ethernet.inj ((@layer_equals_iff (.ethernet this) _ trivial nofun).mp own), equal⟩

/-- An array that begins like a tag, though the packet has none, gives no equal packet. -/
theorem not_equals_of_tagType {this : Ethernet} {data : List Byte} {payload other : IPacket} (long : 16 < data.length)
    (etherType : this.etherType = 0x8100) (notWhole : ¬ equals payload [.data { data := some data }] = true)
    (decoded : (Layer.ethernet this).deserialize data = .ok other) :
    ¬ equals (.ethernet this :: payload) other = true := by
  intro same
  obtain ⟨result, read, done⟩ := bind_eq_ok decoded
  rcases frame_or_truncated long with ⟨frame, wellFormed, rfl⟩ | ⟨destination, source, rest, data_eq, three⟩
  · rw [deserialize_frame wellFormed long] at read
    cases read
    cases done
    obtain ⟨rfl, equal⟩ := ethernet_of_equals same
    have type : frame.etherType = 0x8100 := by
      rw [← etherType, Frame.received]
      cases frame.tag <;> rfl
    rw [type] at equal
    exact notWhole equal
  · rw [deserialize_truncated .new destination source three data_eq] at read
    cases read

/-- What a fresh `Ethernet` makes of the array, where the payload is not the array itself. -/
theorem ethernet_decoded_iff {this : Ethernet} {destination source : MacAddress} {input data : List Byte}
    {payload : IPacket} (destination_eq : this.destinationMACAddress = some destination)
    (source_eq : this.sourceMACAddress = some source)
    (bytes : data = this.frame destination source input ++
      List.replicate (this.padding (this.frame destination source input).length) 0)
    (notWhole : ¬ equals payload [.data { data := some data }] = true) :
    (∃ other, (Layer.ethernet this).deserialize data = .ok other ∧ equals (.ethernet this :: payload) other = true) ↔
      16 < data.length ∧ this.Clonable ∧ equals payload (Ethernet.readPayload this.etherType data input) = true := by
  generalize zeros_eq : List.replicate (this.padding (this.frame destination source input).length) (0 : Byte) = zeros at bytes
  have framed : data = (this.toFrame destination source (input ++ zeros)).bytes := by
    rw [bytes_toFrame, bytes, Ethernet.frame, Ethernet.frame, List.append_assoc _ input zeros]
  have noPadding (clonable : this.Clonable) : zeros = [] := by
    rw [← zeros_eq, Ethernet.padding, clonable.pad]
    rfl
  by_cases long : 16 < data.length
  · by_cases wellFormed : (this.toFrame destination source (input ++ zeros)).WellFormed
    · have decodes : (Layer.ethernet this).deserialize data =
          .ok (.ethernet ((this.toFrame destination source (input ++ zeros)).received .new) ::
            Ethernet.readPayload this.etherType data (input ++ zeros)) := by
        have read := deserialize_frame wellFormed (framed ▸ long) .new
        rw [← framed] at read
        rw [Layer.deserialize, read]
        rfl
      rw [decodes]
      constructor
      · rintro ⟨other, decoded, same⟩
        cases decoded
        obtain ⟨received, equal⟩ := ethernet_of_equals same
        have clonable := (received_toFrame_iff destination_eq source_eq).mp received
        rw [noPadding clonable, List.append_nil] at equal
        exact ⟨long, clonable, equal⟩
      · rintro ⟨-, clonable, equal⟩
        have received := (@received_toFrame_iff this _ _ (input ++ zeros) destination_eq source_eq).mpr clonable
        rw [← received, noPadding clonable, List.append_nil]
        exact ⟨_, rfl, equals_cons.mpr ⟨_, _, rfl, equal, by simp [Layer.equals]⟩⟩
    · have etherType : this.etherType = 0x8100 := by
        by_contra differs
        exact wellFormed fun _ => differs
      apply iff_of_false
      · rintro ⟨other, decoded, same⟩
        exact not_equals_of_tagType long etherType notWhole decoded same
      · rintro ⟨-, -, equal⟩
        rw [etherType] at equal
        exact notWhole equal
  · apply iff_of_false
    · rintro ⟨other, decoded, same⟩
      rw [Layer.deserialize, Ethernet.deserialize, if_pos (by omega)] at decoded
      cases decoded
      obtain ⟨rfl, -⟩ := ethernet_of_equals same
      cases destination_eq
    · rintro ⟨enough, -⟩
      exact long enough

/-! ### The payload of an `Ethernet` -/

/-- No class of the IP stack names the EtherType of its parent. -/
theorem noEtherType_of_basic (basic : ∀ layer ∈ packet, layer.Basic)
    (ok : serialize parent packet = .ok (bytes, packet', touch)) : touch.etherType = none := by
  cases packet with
  | nil =>
    rw [serialize] at ok
    cases ok
    rfl
  | cons layer payload =>
    rw [(serialize_sets ok).2]
    have own := basic layer List.mem_cons_self
    cases layer <;> first | rfl | exact own.elim

/-- Of the classes that an EtherType has, only `IPv4` is one of the IP stack. -/
theorem readPayload_iff (basic : ∀ layer ∈ packet, layer.Basic)
    (ok : serialize parent packet = .ok (bytes, packet', touch)) {etherType : Short} {data input : List Byte}
    (notWhole : ¬ equals packet' [.data { data := some data }] = true) :
    equals packet' (Ethernet.readPayload etherType data input) = true ↔
      etherType = TYPE_IPv4 ∧ ComesBack IPv4.deserialize input packet' := by
  constructor
  · intro same
    rcases readPayload_cases etherType data input with ⟨decoder, rest, known, decoded⟩ | whole
    · generalize Ethernet.readPayload etherType data input = payload at decoded same
      rw [Ethernet.etherTypeClassMap] at known
      split_ifs at known with arp ipv4 lldp bsn
      · cases known
        obtain ⟨this, rfl⟩ := yields_arp _ _ _ decoded
        exact (basic_of_equals basic ok same).elim
      · cases known
        exact ⟨ipv4, payload, rest, decoded, same⟩
      · cases known
        obtain ⟨this, rfl⟩ := yields_lldp _ _ _ decoded
        exact (basic_of_equals basic ok same).elim
      · cases known
        obtain ⟨this, inside, rfl⟩ := yields_bsn _ _ _ decoded
        exact (basic_of_equals basic ok same).elim
    · rw [whole] at same
      exact absurd same notWhole
  · rintro ⟨rfl, other, rest, decoded, same⟩
    have known : Ethernet.etherTypeClassMap TYPE_IPv4 = some IPv4.deserialize := rfl
    rw [Ethernet.readPayload, known]
    simp only [decoded]
    exact same

theorem ipv4_of_comesBack (basic : ∀ layer ∈ packet, layer.Basic)
    (ok : serialize parent packet = .ok (bytes, packet', touch)) {input : List Byte}
    (comesBack : ComesBack IPv4.deserialize input packet') : ∃ ipv4 rest, packet = .ipv4 ipv4 :: rest := by
  obtain ⟨other, rest, decoded, same⟩ := comesBack
  obtain ⟨that, inside, rfl⟩ := yields_ipv4 _ _ _ decoded
  obtain ⟨layer, payload, rfl, -, class_eq⟩ := head_of_equals basic ok same
  cases layer <;> first | exact ⟨_, _, rfl⟩ | cases class_eq

theorem length_of_ipv4 {this : IPv4} (ok : serialize parent (.ipv4 this :: packet) = .ok (bytes, packet', touch)) :
    20 ≤ (bytes.getD []).length := by
  obtain ⟨payloadData, sent, inner, first, fits, rfl, -⟩ := serialize_ipv4_iff.mp ⟨touch, ok⟩
  rw [Option.getD_some, List.length_append, length_ipv4_header]
  omega

/-- What a fresh `Ethernet` makes of the frame that a packet has been serialized to. -/
theorem ethernet_comesBack_iff {this : Ethernet} (basic : ∀ layer ∈ packet, layer.Basic)
    (ok : serialize parent (.ethernet this :: packet) = .ok (bytes, packet', touch)) :
    (∃ other, (Layer.ethernet this).deserialize (bytes.getD []) = .ok other ∧ equals packet' other = true) ↔
      Clonable (.ethernet this :: packet) := by
  obtain ⟨payloadData, payload', inner, layer', own, first, second, rfl, -⟩ := serialize_cons_ok rfl ok
  have same : (Layer.ethernet this).prepare.touch inner = .ethernet this := by
    simp only [Layer.prepare, Layer.touch, noEtherType_of_basic basic first, Option.getD_none]
  rw [same] at second
  obtain ⟨data, encoded, done⟩ := bind_eq_ok second
  cases done
  obtain ⟨destination, source, destination_eq, source_eq, fits, data_eq⟩ := ethernet_serialize_iff.mp encoded
  have notWhole : ¬ equals payload' [.data { data := some data }] = true := by
    intro whole
    rw [equals_whole_iff basic first] at whole
    subst whole
    cases first
    have lengths := congrArg List.length data_eq
    rw [List.length_append, length_frame, Option.getD_some] at lengths
    omega
  rw [Option.getD_some, ethernet_decoded_iff destination_eq source_eq data_eq notWhole,
    readPayload_iff basic first notWhole]
  constructor
  · rintro ⟨-, clonable, etherType, comesBack⟩
    obtain ⟨ipv4, rest, rfl⟩ := ipv4_of_comesBack basic first comesBack
    exact ⟨clonable, etherType, ⟨ipv4, rest, rfl⟩,
      (ipv4_comesBack_iff (List.forall_mem_cons.mp basic).2 first).mp comesBack⟩
  · rintro ⟨clonable, etherType, ⟨ipv4, rest, rfl⟩, inside⟩
    have least := length_of_ipv4 first
    refine ⟨?_, clonable, etherType, (ipv4_comesBack_iff (List.forall_mem_cons.mp basic).2 first).mpr inside⟩
    rw [data_eq, List.length_append, length_frame]
    omega

/-! ## The clone -/

theorem deserialize_of_getClass {layer layer' : Layer} (same : layer'.getClass = layer.getClass) :
    layer'.deserialize = layer.deserialize := by
  cases layer <;> cases layer' <;> first | rfl | cases same

/-- The decoder of a packet's class makes an equal one of its bytes just for the packets that come back. -/
theorem comesBack_iff {layer : Layer} (basic : ∀ layer' ∈ layer :: packet, layer'.Basic)
    (ok : serialize parent (layer :: packet) = .ok (bytes, packet', touch)) :
    (∃ other, layer.deserialize (bytes.getD []) = .ok other ∧ equals packet' other = true) ↔ Clonable (layer :: packet) := by
  have inside := (List.forall_mem_cons.mp basic).2
  have reads (decoder : ByteBuffer IPacket) (input : List Byte) :
      (∃ other, (decoder.run input).map Prod.fst = .ok other ∧ equals packet' other = true) ↔
        ComesBack decoder input packet' := by
    rw [ComesBack]
    cases decoder.run input with
    | error e => simp [Except.map]
    | ok result => simp [Except.map, Prod.ext_iff]
  cases layer with
  | ethernet this => exact ethernet_comesBack_iff inside ok
  | ipv4 this => exact (reads _ _).trans (ipv4_comesBack_iff inside ok)
  | tcp this => exact (reads _ _).trans (tcp_comesBack_iff inside ok)
  | udp this => exact (reads _ _).trans (udp_comesBack_iff inside ok)
  | icmp this => exact (reads _ _).trans (icmp_comesBack_iff inside ok)
  | data this => exact (reads _ _).trans (data_comesBack_iff basic ok)
  | arp | lldp | bsn | bsnprobe | dhcp => exact (basic _ List.mem_cons_self).elim

/-- Only a `Data` without bytes serializes to `null`. -/
theorem null_of_ok {layer : Layer} (basic : layer.Basic)
    (ok : serialize parent (layer :: packet) = .ok (none, packet', touch)) : layer = .data { data := none } := by
  cases has : layer.hasPayload with
  | true =>
    obtain ⟨payloadData, payload', inner, layer', own, -, second, -, -⟩ := serialize_cons_ok has ok
    cases layer with
    | ethernet | ipv4 | udp =>
      obtain ⟨result, -, done⟩ := bind_eq_ok second
      cases done
    | tcp | icmp =>
      obtain ⟨given, -, more⟩ := bind_eq_ok second
      obtain ⟨result, -, done⟩ := bind_eq_ok more
      cases done
    | data => cases has
    | arp | lldp | bsn | bsnprobe | dhcp => exact basic.elim
  | false =>
    obtain ⟨⟨given⟩, rfl⟩ := data_of_basic basic has
    cases ok
    rfl

end Payload

/-- **A clone is equal to its packet** just for the packets that come back from their codec. -/
theorem clone_equals_iff {parent : Option Layer} {packet packet' : IPacket} {bytes : Option (List Byte)} {touch : Touch}
    (basic : ∀ layer ∈ packet, layer.Basic) (ok : serialize parent packet = .ok (bytes, packet', touch)) :
    (∃ other after, clone parent packet' = .ok (other, after) ∧ equals after other = true) ↔ Clonable packet := by
  cases packet with
  | nil =>
    rw [serialize] at ok
    cases ok
    apply iff_of_false
    · rintro ⟨other, after, cloned, -⟩
      cases cloned
    · exact id
  | cons layer payload =>
    have again := serialize_again ok
    obtain ⟨layer', payload', rfl, -, class_eq⟩ := serialize_head basic ok
    rw [clone, again]
    simp only [bind, Except.bind, again]
    cases bytes with
    | none =>
      cases null_of_ok (basic _ List.mem_cons_self) ok
      apply iff_of_false
      · rintro ⟨other, after, cloned, -⟩
        cases cloned
      · rintro ⟨given, packet_eq⟩
        cases packet_eq
    | some data =>
      simp only [nonNull, pure, Except.pure, lt_irrefl, if_false, List.take_length, deserialize_of_getClass class_eq]
      rw [← comesBack_iff basic ok, Option.getD_some]
      cases read : layer.deserialize data with
      | ok other => simp
      | error e =>
        apply iff_of_false
        · rintro ⟨other, after, cloned, same⟩
          cases e with
          | packetParsing text =>
            cases cloned
            cases (equals_whole_iff basic ok).mp same
            cases read
          | _ => cases cloned
        · rintro ⟨other, decoded, -⟩
          cases decoded

/-- A datagram of three bytes in a frame with a tag, its lengths and checksums not yet set. -/
def taggedDatagram : IPacket :=
  [.ethernet { destinationMACAddress := some ⟨[2, 0, 0, 0, 0, 1], rfl⟩, sourceMACAddress := some ⟨[2, 0, 0, 0, 0, 2], rfl⟩,
               priorityCode := 3, vlanID := 5, etherType := TYPE_IPv4, pad := false },
   .ipv4 { version := 4, headerLength := 0, diffServ := 0, totalLength := 0, identification := 0, flags := 0,
           fragmentOffset := 0, ttl := 64, protocol := 0, checksum := 0, sourceAddress := 0x0a000001,
           destinationAddress := 0x0a000002, options := none },
   .udp { sourcePort := some 5000, destinationPort := some 53, length := 0, checksum := 0 },
   .data { data := some [1, 2, 3] }]

theorem clone_equals_iff_datagram : ∃ bytes packet' touch, serialize none taggedDatagram = .ok (bytes, packet', touch) ∧
    ∃ other after, clone none packet' = .ok (other, after) ∧ equals after other = true := by
  have basic : ∀ layer ∈ taggedDatagram, layer.Basic := by simp [taggedDatagram, Layer.Basic]
  refine ⟨_, _, _, rfl, (clone_equals_iff basic rfl).mpr ?_⟩
  refine ⟨⟨rfl, rfl, rfl, by decide⟩, rfl, ⟨_, _, rfl⟩, ⟨rfl, rfl, rfl, by decide, by decide⟩, rfl, ?_, _, rfl⟩
  rintro port (source | destination)
  · cases source
    rfl
  · cases destination
    rfl

/-- A segment without data. -/
def syn : IPacket :=
  [.tcp { sourcePort := some 5000, destinationPort := some 80, sequence := 0, acknowledge := 0, dataOffset := 0, flags := 2,
          windowSize := 0, checksum := 0, urgentPointer := 0, options := none }]

/-- The clone has an empty `Data` where the segment has no payload. -/
theorem clone_adds_payload : ¬ ∀ (packet packet' : IPacket) (bytes : Option (List Byte)) (touch : Touch),
    (∀ layer ∈ packet, layer.Basic) → serialize none packet = .ok (bytes, packet', touch) →
    ∃ other after, clone none packet' = .ok (other, after) ∧ equals after other = true := by
  intro fidelity
  obtain ⟨other, after, cloned, same⟩ := fidelity syn _ _ _ (by simp [syn, Layer.Basic]) rfl
  cases cloned
  exact absurd same (by decide)

end CodeClips.Packet
