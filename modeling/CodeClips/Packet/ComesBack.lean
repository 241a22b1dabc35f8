import CodeClips.Packet.Clone
import CodeClips.Packet.Decoded

/-!
# Packets that come back

For each class of the IP stack, what must hold of a packet that can be serialized so that its
decoder makes an equal one of the bytes (`Clonable`). The conditions are those of the codec: each
field within its width on the wire, the options as the header's length says, and a payload that
is of the class the decoder chooses.
-/

namespace CodeClips.Packet
open ByteBuffer

/-! ## Equal packets -/

theorem equals_cons {layer : Layer} {payload other : IPacket} :
    equals (layer :: payload) other = true ↔
      ∃ layer' payload', other = layer' :: payload' ∧ equals payload payload' = true ∧ layer.equals layer' = true := by
  cases other with
  | nil => simp [equals]
  | cons layer' payload' => simp [equals]

theorem equals_nil {other : IPacket} : equals [] other = true ↔ other = [] := by
  cases other with
  | nil => simp [equals]
  | cons layer' payload' => simp [equals]

theorem nil_equals {packet : IPacket} : equals packet [] = true ↔ packet = [] := by
  cases packet with
  | nil => simp [equals]
  | cons layer payload => simp [equals]

/-- Apart from `TCP`, layers of the IP stack are equal when all their fields are. -/
theorem layer_equals_iff {layer other : Layer} (basic : layer.Basic) (notTcp : ∀ this, layer ≠ .tcp this) :
    layer.equals other = true ↔ layer = other := by
  cases layer with
  | tcp this => exact absurd rfl (notTcp this)
  | arp | lldp | bsn | bsnprobe | dhcp => exact basic.elim
  | _ => simp [Layer.equals]

theorem getClass_of_equals {layer other : Layer} (basic : layer.Basic) (same : layer.equals other = true) :
    layer.getClass = other.getClass := by
  cases layer with
  | tcp this =>
    cases other with
    | tcp other => rfl
    | _ => simp [Layer.equals] at same
  | arp | lldp | bsn | bsnprobe | dhcp => exact basic.elim
  | _ =>
    rw [(layer_equals_iff basic nofun).mp same]

theorem hasPayload_of_getClass {layer other : Layer} (same : layer.getClass = other.getClass) :
    layer.hasPayload = other.hasPayload := by
  cases layer <;> cases other <;> first | rfl | cases same

/-- The decoder makes an equal packet of the bytes. -/
def ComesBack (decoder : ByteBuffer IPacket) (bytes : List Byte) (packet : IPacket) : Prop :=
  ∃ other rest, decoder.run bytes = .ok (other, rest) ∧ equals packet other = true

/-- Where the decoder gives the layer back, it is up to the payload. -/
theorem comesBack_of_ok {decoder : ByteBuffer IPacket} {input rest : List Byte} {layer : Layer} {payload other : IPacket}
    (ok : decoder.run input = .ok (layer :: other, rest)) (own : layer.equals layer = true) :
    ComesBack decoder input (layer :: payload) ↔ equals payload other = true := by
  rw [ComesBack, ok]
  constructor
  · rintro ⟨packet, left, decoded, same⟩
    cases decoded
    obtain ⟨_, _, other_eq, equal, -⟩ := equals_cons.mp same
    cases other_eq
    exact equal
  · intro equal
    exact ⟨_, _, rfl, equals_cons.mpr ⟨_, _, rfl, equal, own⟩⟩

/-- A payload with bytes of its own and nothing else. -/
def IsData (packet : IPacket) : Prop := ∃ bytes, packet = [.data { data := some bytes }]

/-! ## A payload of `Data` -/

section Payload
variable {parent : Option Layer} {packet packet' : IPacket} {bytes : Option (List Byte)} {touch : Touch}

/-- What equals a packet that has been serialized is of its class. -/
theorem head_of_equals (basic : ∀ layer ∈ packet, layer.Basic)
    (ok : serialize parent packet = .ok (bytes, packet', touch)) {other : Layer} {rest : IPacket}
    (same : equals packet' (other :: rest) = true) :
    ∃ layer payload, packet = layer :: payload ∧ layer.Basic ∧ layer.getClass = other.getClass := by
  cases packet with
  | nil =>
    rw [serialize] at ok
    cases ok
    cases equals_nil.mp same
  | cons layer payload =>
    obtain ⟨layer', payload', rfl, basic', class_eq⟩ := serialize_head basic ok
    obtain ⟨_, _, other_eq, -, equal⟩ := equals_cons.mp same
    cases other_eq
    exact ⟨layer, payload, rfl, basic layer List.mem_cons_self, class_eq.symm.trans (getClass_of_equals basic' equal)⟩

/-- Only a packet of the IP stack equals one of the IP stack. -/
theorem basic_of_equals (basic : ∀ layer ∈ packet, layer.Basic)
    (ok : serialize parent packet = .ok (bytes, packet', touch)) {other : Layer} {rest : IPacket}
    (same : equals packet' (other :: rest) = true) : other.Basic := by
  obtain ⟨layer, payload, -, own, class_eq⟩ := head_of_equals basic ok same
  cases layer <;> cases other <;> first | trivial | exact own.elim | cases class_eq

theorem equals_whole_iff (basic : ∀ layer ∈ packet, layer.Basic)
    (ok : serialize parent packet = .ok (bytes, packet', touch)) {whole : List Byte} :
    equals packet' [.data { data := some whole }] = true ↔ packet = [.data { data := some whole }] := by
  constructor
  · intro same
    obtain ⟨layer, payload, rfl, -, class_eq⟩ := head_of_equals basic ok same
    obtain ⟨this, rfl⟩ := data_of_basic (basic layer List.mem_cons_self) (hasPayload_of_getClass class_eq)
    cases ok
    obtain ⟨_, _, other_eq, empty, equal⟩ := equals_cons.mp same
    cases other_eq
    rw [nil_equals.mp empty, (@layer_equals_iff (.data this) _ trivial nofun).mp equal]
  · rintro rfl
    cases ok
    exact equals_cons.mpr ⟨_, _, rfl, rfl, by simp [Layer.equals]⟩

theorem equals_data_iff (basic : ∀ layer ∈ packet, layer.Basic)
    (ok : serialize parent packet = .ok (bytes, packet', touch)) :
    equals packet' [.data { data := some (bytes.getD []) }] = true ↔ IsData packet := by
  rw [equals_whole_iff basic ok]
  constructor
  · intro packet_eq
    exact ⟨_, packet_eq⟩
  · rintro ⟨given, rfl⟩
    cases ok
    rfl

/-! ## `ICMP` -/

theorem icmp_comesBack_iff {this : ICMP} (basic : ∀ layer ∈ packet, layer.Basic)
    (ok : serialize parent (.icmp this :: packet) = .ok (bytes, packet', touch)) :
    ComesBack ICMP.deserialize (bytes.getD []) packet' ↔ IsData packet := by
  obtain ⟨payloadData, payload', inner, layer', own, first, second, rfl, -⟩ := serialize_cons_ok rfl ok
  obtain ⟨given, taken, more⟩ := bind_eq_ok second
  obtain ⟨⟨data, this'⟩, encoded, done⟩ := bind_eq_ok more
  cases done
  obtain ⟨-, -, rfl⟩ := icmp_serialize_iff.mp encoded
  have given_eq := required_eq_ok (payloadData_of_nil first) taken
  rw [← equals_data_iff basic first, given_eq, Option.getD_some]
  exact comesBack_of_ok (run_icmp this' given) (by simp [Layer.equals])

/-! ## `UDP` -/

/-- A payload that is decoded as `DHCP` is not what has been encoded. -/
def UDP.Clonable (this : UDP) : Prop :=
  ∀ port, this.sourcePort = some port ∨ this.destinationPort = some port → UDP.decodeMap port = none

theorem yields_dhcp : Yields DHCP.deserialize (fun packet => ∃ this, packet = [.dhcp this]) := by
  refine .bind fun length => ?_
  split
  · exact .pure ⟨_, rfl⟩
  · iterate 17 refine .bind fun _ => ?_
    exact .pure ⟨_, rfl⟩

theorem decodeMap_cases (port : TransportPort) :
    UDP.decodeMap port = none ∨ UDP.decodeMap port = some DHCP.deserialize := by
  rw [UDP.decodeMap]
  split_ifs
  · exact Or.inr rfl
  · exact Or.inl rfl

theorem decoder_eq_dhcp {sourcePort destinationPort : TransportPort}
    (known : ¬ (UDP.decodeMap sourcePort = none ∧ UDP.decodeMap destinationPort = none)) :
    UDP.decoder sourcePort destinationPort = DHCP.deserialize := by
  rw [UDP.decoder]
  rcases decodeMap_cases destinationPort with destination | destination
  · rcases decodeMap_cases sourcePort with source | source
    · exact absurd ⟨source, destination⟩ known
    · rw [destination, source]
  · rw [destination]

theorem decoder_eq_data {sourcePort destinationPort : TransportPort} (source : UDP.decodeMap sourcePort = none)
    (destination : UDP.decodeMap destinationPort = none) :
    UDP.decoder sourcePort destinationPort = Data.deserialize := by
  rw [UDP.decoder, source, destination]

theorem udp_comesBack_iff {this : UDP} (basic : ∀ layer ∈ packet, layer.Basic)
    (ok : serialize parent (.udp this :: packet) = .ok (bytes, packet', touch)) :
    ComesBack UDP.deserialize (bytes.getD []) packet' ↔ this.Clonable ∧ IsData packet := by
  obtain ⟨-, payloadData, payload', inner, sourcePort, destinationPort, first, fits, rfl, rfl⟩ :=
    serialize_udp_iff.mp ⟨touch, ok, rfl⟩
  have source : this.sourcePort = some sourcePort := fits.sourcePort_eq
  have destination : this.destinationPort = some destinationPort := fits.destinationPort_eq
  have sent : (this.sent parent inner (payloadData.getD []) sourcePort destinationPort).sourcePort = some sourcePort := source
  rw [← equals_data_iff basic first, Option.getD_some]
  by_cases unknown : UDP.decodeMap sourcePort = none ∧ UDP.decodeMap destinationPort = none
  · have clonable : this.Clonable := by
      rintro port (is_source | is_destination)
      · rw [source] at is_source
        cases is_source
        exact unknown.1
      · rw [destination] at is_destination
        cases is_destination
        exact unknown.2
    rw [and_iff_right clonable]
    have read := run_udp sent destination (payloadData.getD [])
    rw [decoder_eq_data unknown.1 unknown.2, StateT.run_bind, run_data] at read
    exact comesBack_of_ok read (by simp [Layer.equals])
  · apply iff_of_false
    · rintro ⟨other, rest, decoded, same⟩
      rw [run_udp sent destination, decoder_eq_dhcp unknown] at decoded
      obtain ⟨inside, mid, dhcp, done⟩ := run_bind_eq_ok decoded
      cases done
      obtain ⟨that, rfl⟩ := yields_dhcp _ _ _ dhcp
      obtain ⟨layer, payload, other_eq, equal, -⟩ := equals_cons.mp same
      cases other_eq
      exact basic_of_equals basic first equal
    · rintro ⟨clonable, -⟩
      exact unknown ⟨clonable sourcePort (Or.inl source), clonable destinationPort (Or.inr destination)⟩

/-! ## `TCP` -/

/-- The fields are within their widths, and the options fill the header that the data offset gives. -/
structure TCP.Clonable (this : TCP) : Prop where
  dataOffset : this.dataOffset &&& 0xf = this.dataOffset
  flags : this.flags &&& 0x1ff = this.flags
  options : this.dataOffset = 0 ∨ this.dataOffset = 5 ∨
    (this.options.getD []).length + 20 = this.dataOffset.toNat * 4

theorem tcp_equals_iff {this : TCP} {other : Layer} :
    Layer.equals (.tcp this) other = true ↔ ∃ that : TCP, other = .tcp that ∧
      { this with options := none } = { that with options := none } ∧ (this.dataOffset = 5 ∨ this.options = that.options) := by
  cases other with
  | tcp that => simp [Layer.equals]
  | _ => simp [Layer.equals]

theorem more_of_not_default {dataOffset : Byte} (least : 5 ≤ dataOffset.toInt) (notDefault : dataOffset ≠ 5) :
    5 < dataOffset.toInt := by
  have differ : dataOffset.toInt ≠ 5 := fun five => notDefault (BitVec.eq_of_toInt_eq five)
  omega

/-- What is decoded of a header whose flags and data offset are within their widths, its options and its payload. -/
theorem run_segment {this : TCP} {sourcePort destinationPort : TransportPort} {options : List Byte}
    (source : this.sourcePort = some sourcePort) (destination : this.destinationPort = some destinationPort)
    (offset : this.dataOffset.toInt * 4 = 20 + options.length) (four : this.dataOffset &&& 0xf = this.dataOffset)
    (low : this.flags &&& 0x1ff = this.flags) (bytes : List Byte) :
    TCP.deserialize.run (this.header sourcePort destinationPort ++ options ++ bytes) =
      .ok ([.tcp { this with options := if 5 < this.dataOffset.toInt then some options else none },
        .data { data := some bytes }], []) := by
  have least : 5 ≤ this.dataOffset.toInt := by omega
  have flags_eq := (wireFlags_eq_iff this).mpr low
  have offset_eq := (wireOffset_eq_iff flags_eq).mpr four
  rw [List.append_assoc, run_tcp source destination, run_check, offset_eq, flags_eq, if_pos (decide_eq_true least),
    StateT.run_bind, run_tcp_options offset]
  rfl

theorem tcp_decoded_iff {this : TCP} {sourcePort destinationPort : TransportPort} {options bytes : List Byte}
    {payload : IPacket} (source : this.sourcePort = some sourcePort)
    (destination : this.destinationPort = some destinationPort)
    (offset : this.dataOffset.toInt * 4 = 20 + options.length) :
    ComesBack TCP.deserialize (this.header sourcePort destinationPort ++ options ++ bytes) (.tcp this :: payload) ↔
      (this.dataOffset &&& 0xf = this.dataOffset ∧ this.flags &&& 0x1ff = this.flags ∧
        (this.dataOffset = 5 ∨ this.options = some options)) ∧
      equals payload [.data { data := some bytes }] = true := by
  have least : 5 ≤ this.dataOffset.toInt := by omega
  constructor
  · rintro ⟨other, rest, decoded, same⟩
    rw [List.append_assoc, run_tcp source destination, run_check] at decoded
    split_ifs at decoded with long
    obtain ⟨given, mid, read, decoded⟩ := run_bind_eq_ok decoded
    cases decoded
    obtain ⟨_, _, other_eq, equal, own⟩ := equals_cons.mp same
    cases other_eq
    obtain ⟨that, that_eq, fields, either⟩ := tcp_equals_iff.mp own
    cases that_eq
    have offset_eq : this.dataOffset = this.wireOffset := congrArg TCP.dataOffset fields
    have flags_eq : this.flags = this.wireFlags := congrArg TCP.flags fields
    rw [← offset_eq, run_tcp_options offset] at read
    cases read
    refine ⟨⟨(wireOffset_eq_iff flags_eq.symm).mp offset_eq.symm, (wireFlags_eq_iff this).mp flags_eq.symm, ?_⟩, equal⟩
    by_cases default : this.dataOffset = 5
    · exact Or.inl default
    · rw [if_pos (more_of_not_default least default)] at either
      exact either
  · rintro ⟨⟨four, low, either⟩, equal⟩
    refine ⟨_, _, run_segment source destination offset four low bytes, equals_cons.mpr ⟨_, _, rfl, equal, ?_⟩⟩
    refine tcp_equals_iff.mpr ⟨_, rfl, rfl, ?_⟩
    rcases either with default | same
    · exact Or.inl default
    · by_cases default : this.dataOffset = 5
      · exact Or.inl default
      · rw [if_pos (more_of_not_default least default)]
        exact Or.inr same

/-- There is no padding after the options. -/
theorem options_kept_iff {this : TCP} {options : List Byte} (offset : this.dataOffset.toInt * 4 = 20 + options.length)
    (optionBytes : this.optionBytes = .ok options) :
    (this.dataOffset = 5 ∨ this.options = some options) ↔
      (this.dataOffset = 5 ∨ (this.options.getD []).length + 20 = this.dataOffset.toNat * 4) := by
  apply or_congr_right'
  intro notDefault
  have value := BitVec.toInt_eq_toNat_cond this.dataOffset
  have more : 5 < this.dataOffset.toInt := more_of_not_default (by omega) notDefault
  rw [TCP.optionBytes, if_pos more] at optionBytes
  obtain ⟨given, present, done⟩ := bind_eq_ok optionBytes
  cases done
  rw [nonNull_eq_ok present, Option.getD_some]
  rw [List.length_append, List.length_replicate] at offset
  constructor
  · intro same
    have lengths := congrArg List.length (Option.some.inj same)
    rw [List.length_append, List.length_replicate] at lengths
    split_ifs at value <;> omega
  · intro full
    have empty : (this.dataOffset.toInt * 4 - 20 - given.length).toNat = 0 := by
      split_ifs at value <;> omega
    rw [empty, List.replicate_zero, List.append_nil]

theorem tcp_comesBack_iff {this : TCP} (basic : ∀ layer ∈ packet, layer.Basic)
    (ok : serialize parent (.tcp this :: packet) = .ok (bytes, packet', touch)) :
    ComesBack TCP.deserialize (bytes.getD []) packet' ↔ this.Clonable ∧ IsData packet := by
  obtain ⟨payloadData, payload', inner, layer', own, first, second, rfl, -⟩ := serialize_cons_ok rfl ok
  obtain ⟨given, taken, more⟩ := bind_eq_ok second
  obtain ⟨⟨data, this'⟩, encoded, done⟩ := bind_eq_ok more
  cases done
  obtain ⟨sourcePort, destinationPort, options, fits, written, rfl⟩ := tcp_serialize_iff.mp encoded
  have given_eq := required_eq_ok (payloadData_of_nil first) taken
  have ports : this'.sourcePort = some sourcePort ∧ this'.destinationPort = some destinationPort := by
    rw [written]
    exact ⟨fits.sourcePort_eq, fits.destinationPort_eq⟩
  have offset : this'.dataOffset = if this.dataOffset = 0 then 5 else this.dataOffset := by
    rw [written]
    rfl
  have flags : this'.flags = this.flags := by
    rw [written]
    rfl
  have given_options : this'.options = this.options := by
    rw [written]
    rfl
  have exact : this'.dataOffset.toInt * 4 = 20 + options.length := by
    rw [written]
    exact fits.dataOffset
  have optionBytes : this'.optionBytes = .ok options := by
    rw [written]
    exact fits.options_eq
  rw [← equals_data_iff basic first, given_eq, Option.getD_some, tcp_decoded_iff ports.1 ports.2 exact,
    options_kept_iff exact optionBytes]
  apply and_congr_left'
  rw [offset, flags, given_options]
  by_cases zero : this.dataOffset = 0
  · rw [if_pos zero]
    constructor
    · rintro ⟨-, low, -⟩
      exact ⟨by rw [zero]; rfl, low, Or.inl zero⟩
    · rintro ⟨-, low, -⟩
      exact ⟨rfl, low, Or.inl rfl⟩
  · rw [if_neg zero]
    constructor
    · rintro ⟨four, low, either⟩
      exact ⟨four, low, Or.inr either⟩
    · rintro ⟨four, low, either⟩
      exact ⟨four, low, either.resolve_left zero⟩

/-! ## `IPv4` -/

/-- The fields are within their widths, and the options are there or `null` as the header's length says. -/
structure IPv4.Clonable (this : IPv4) : Prop where
  version : this.version = 4
  flags : this.flags &&& IPV4_FLAGS_MASK = this.flags
  fragmentOffset : this.fragmentOffset &&& IPV4_OFFSET_MASK = this.fragmentOffset
  options : this.options ≠ some [] ∧ (this.options.getD []).length ≤ 40

/-- The payload is of the class that the decoder chooses. -/
def IPv4.Carries (this : IPv4) : IPacket → Prop
  | .data _ :: _ => isFragment this.flags this.fragmentOffset = true ∨ protocolClassMap this.protocol = none
  | .tcp _ :: _ | .udp _ :: _ | .icmp _ :: _ => isFragment this.flags this.fragmentOffset = false
  | _ => False

/-- The fields are within their widths, and an untagged frame has no priority. -/
structure Ethernet.Clonable (this : Ethernet) : Prop where
  pad : this.pad = false
  vlanID : this.vlanID &&& 0x0fff = this.vlanID
  priorityCode : this.priorityCode &&& 0x07 = this.priorityCode
  untagged : this.vlanID = VLAN_UNTAGGED → this.priorityCode = 0

/-- The packets that come back, of those that can be serialized. -/
def Clonable : IPacket → Prop
  | .data this :: payload => IsData (.data this :: payload)
  | .icmp _ :: payload => IsData payload
  | .udp this :: payload => this.Clonable ∧ IsData payload
  | .tcp this :: payload => this.Clonable ∧ IsData payload
  | .ipv4 this :: payload => this.Clonable ∧ this.Carries payload ∧ Clonable payload
  | .ethernet this :: payload =>
    this.Clonable ∧ this.etherType = TYPE_IPv4 ∧ (∃ ipv4 rest, payload = .ipv4 ipv4 :: rest) ∧ Clonable payload
  | _ => False

/-- The decoder of the payload. -/
def IPv4.decoder (protocol : IpProtocol) (isFragment : Bool) : ByteBuffer IPacket :=
  if isFragment then Data.deserialize else (protocolClassMap protocol).getD Data.deserialize

theorem yields_icmp : Yields ICMP.deserialize (fun packet => ∃ this rest, packet = .icmp this :: rest) := by
  iterate 5 refine .bind fun _ => ?_
  exact .pure ⟨_, _, rfl⟩

theorem yields_tcp : Yields TCP.deserialize (fun packet => ∃ this rest, packet = .tcp this :: rest) := by
  iterate 11 refine .bind fun _ => ?_
  exact .pure ⟨_, _, rfl⟩

theorem yields_udp : Yields UDP.deserialize (fun packet => ∃ this rest, packet = .udp this :: rest) := by
  iterate 5 refine .bind fun _ => ?_
  exact .pure ⟨_, _, rfl⟩

/-- A fragment and a payload of an unknown protocol are not decoded. -/
theorem ipv4_decoder_eq_data {protocol : IpProtocol} {isFragment : Bool}
    (unknown : isFragment = true ∨ IPv4.protocolClassMap protocol = none) :
    IPv4.decoder protocol isFragment = Data.deserialize := by
  rcases unknown with fragment | unknown
  · rw [IPv4.decoder, if_pos fragment]
  · rw [IPv4.decoder, unknown, Option.getD_none, ite_self]

theorem yields_decoder {protocol : IpProtocol} (known : IPv4.protocolClassMap protocol ≠ none) :
    Yields (IPv4.decoder protocol false) (fun packet => ∃ layer rest, packet = layer :: rest ∧
      ((∃ this, layer = .icmp this) ∨ (∃ this, layer = .tcp this) ∨ ∃ this, layer = .udp this)) := by
  intro input packet rest ok
  rw [IPv4.decoder, if_neg (by decide)] at ok
  rw [IPv4.protocolClassMap] at known ok
  split_ifs at known ok
  · obtain ⟨this, payload, rfl⟩ := yields_icmp _ _ _ ok
    exact ⟨_, _, rfl, Or.inl ⟨this, rfl⟩⟩
  · obtain ⟨this, payload, rfl⟩ := yields_tcp _ _ _ ok
    exact ⟨_, _, rfl, Or.inr (Or.inl ⟨this, rfl⟩)⟩
  · obtain ⟨this, payload, rfl⟩ := yields_udp _ _ _ ok
    exact ⟨_, _, rfl, Or.inr (Or.inr ⟨this, rfl⟩)⟩
  · exact absurd rfl known

/-- `Data` gives back a payload of `Data`, and no other. -/
theorem data_comesBack_iff (basic : ∀ layer ∈ packet, layer.Basic)
    (ok : serialize parent packet = .ok (bytes, packet', touch)) :
    ComesBack Data.deserialize (bytes.getD []) packet' ↔ IsData packet := by
  rw [← equals_data_iff basic ok, ComesBack, run_data]
  constructor
  · rintro ⟨other, rest, decoded, same⟩
    cases decoded
    exact same
  · intro same
    exact ⟨_, _, rfl, same⟩

/-- Where a class decodes the payload, what comes back is of that class. -/
theorem head_of_comesBack {protocol : IpProtocol} (known : IPv4.protocolClassMap protocol ≠ none)
    (basic : ∀ layer ∈ packet, layer.Basic) (ok : serialize parent packet = .ok (bytes, packet', touch)) {input : List Byte}
    (comesBack : ComesBack (IPv4.decoder protocol false) input packet') :
    (∃ this rest, packet = .icmp this :: rest) ∨ (∃ this rest, packet = .tcp this :: rest) ∨
      ∃ this rest, packet = .udp this :: rest := by
  obtain ⟨other, rest, decoded, same⟩ := comesBack
  obtain ⟨layer, payload, rfl, decoders⟩ := yields_decoder known _ _ _ decoded
  obtain ⟨layer', payload', rfl, -, class_eq⟩ := head_of_equals basic ok same
  rcases decoders with ⟨this, rfl⟩ | ⟨this, rfl⟩ | ⟨this, rfl⟩
  · cases layer' <;> first | exact Or.inl ⟨_, _, rfl⟩ | cases class_eq
  · cases layer' <;> first | exact Or.inr (Or.inl ⟨_, _, rfl⟩) | cases class_eq
  · cases layer' <;> first | exact Or.inr (Or.inr ⟨_, _, rfl⟩) | cases class_eq

/-- The payload of an `IPv4`, given to the decoder that its header chooses. -/
theorem carried_comesBack_iff {this : IPv4} (basic : ∀ layer ∈ packet, layer.Basic)
    (ok : serialize parent packet = .ok (bytes, packet', touch)) :
    ComesBack (IPv4.decoder (touch.protocol.getD this.protocol) (IPv4.isFragment this.flags this.fragmentOffset))
      (bytes.getD []) packet' ↔ this.Carries packet ∧ Clonable packet := by
  have protocol {layer : Layer} {payload : IPacket} (head : packet = layer :: payload) :
      touch.protocol = layer.sets.protocol := (serialize_sets (head ▸ ok)).1
  by_cases unknown : IPv4.isFragment this.flags this.fragmentOffset = true ∨
      IPv4.protocolClassMap (touch.protocol.getD this.protocol) = none
  · rw [ipv4_decoder_eq_data unknown, data_comesBack_iff basic ok]
    constructor
    · rintro ⟨given, rfl⟩
      rw [protocol rfl] at unknown
      exact ⟨unknown, given, rfl⟩
    · rintro ⟨carries, clonable⟩
      cases packet with
      | nil => exact carries.elim
      | cons layer payload =>
        rw [protocol rfl] at unknown
        cases layer with
        | data that => exact clonable
        | tcp | udp | icmp =>
          rcases unknown with fragment | unknown
          · exact absurd (fragment.symm.trans carries) (by decide)
          · cases unknown
        | _ => exact carries.elim
  · obtain ⟨whole, known⟩ := not_or.mp unknown
    rw [Bool.not_eq_true] at whole
    rw [whole]
    constructor
    · intro comesBack
      rcases head_of_comesBack known basic ok comesBack with ⟨that, rest, rfl⟩ | ⟨that, rest, rfl⟩ | ⟨that, rest, rfl⟩
      · rw [protocol rfl] at comesBack
        exact ⟨whole, (icmp_comesBack_iff (List.forall_mem_cons.mp basic).2 ok).mp comesBack⟩
      · rw [protocol rfl] at comesBack
        exact ⟨whole, (tcp_comesBack_iff (List.forall_mem_cons.mp basic).2 ok).mp comesBack⟩
      · rw [protocol rfl] at comesBack
        exact ⟨whole, (udp_comesBack_iff (List.forall_mem_cons.mp basic).2 ok).mp comesBack⟩
    · rintro ⟨carries, clonable⟩
      cases packet with
      | nil => exact carries.elim
      | cons layer payload =>
        rw [protocol rfl] at known ⊢
        have inside := (List.forall_mem_cons.mp basic).2
        cases layer with
        | data that =>
          rcases carries with fragment | none_known
          · exact absurd (fragment.symm.trans whole) (by decide)
          · exact absurd none_known known
        | tcp that => exact (tcp_comesBack_iff inside ok).mpr clonable
        | udp that => exact (udp_comesBack_iff inside ok).mpr clonable
        | icmp that => exact (icmp_comesBack_iff inside ok).mpr clonable
        | _ => exact carries.elim

theorem run_part {negative : Throwable} (decoder : ByteBuffer IPacket) (input : List Byte) :
    (part input.length negative decoder).run input =
      (decoder.run input).map fun (payload, _) => (payload, ([] : List Byte)) := by
  show part _ _ _ input = _
  rw [part, if_neg (by omega), Int.toNat_natCast, List.take_length, List.drop_length]

theorem run_readPayload (protocol : IpProtocol) (isFragment : Bool) (input : List Byte) :
    (IPv4.readPayload protocol isFragment input.length).run input =
      ((IPv4.decoder protocol isFragment).run input).map fun (payload, _) => (payload, ([] : List Byte)) := by
  rw [IPv4.readPayload, IPv4.decoder]
  cases IPv4.protocolClassMap protocol with
  | none =>
    rw [Option.getD_none, ite_self]
    exact run_part _ _
  | some decoder =>
    cases isFragment with
    | true => exact run_part _ _
    | false => exact run_part _ _

/-- Nothing of the fields is lost on the wire. -/
theorem IPv4.Clonable.wire_eq {this : IPv4} (clonable : this.Clonable)
    (header : this.headerLength.toNat * 4 = 20 + (this.options.getD []).length) : this.wire = this := by
  have short := clonable.options.2
  have four : this.headerLength &&& 0xf = this.headerLength := by
    apply BitVec.eq_of_toNat_eq
    rw [toNat_and_mask this.headerLength 4 rfl]
    omega
  have nibble : this.version &&& 0xf = this.version := by
    rw [clonable.version]
    rfl
  rw [IPv4.wire, four, nibble, clonable.flags, clonable.fragmentOffset]

/-- A header without options is decoded to `null`. -/
theorem IPv4.Clonable.options_eq {this : IPv4} (clonable : this.Clonable) :
    (if this.options.getD [] = [] then none else some (this.options.getD [])) = this.options := by
  cases options : this.options with
  | none => rfl
  | some bytes =>
    have present := clonable.options.1
    rw [options] at present
    exact if_neg fun empty => present (congrArg some empty)

/-- The decoder that the header's fields choose for a payload. -/
def IPv4.payloadDecoder (this : IPv4) (protocol : Option IpProtocol) : ByteBuffer IPacket :=
  IPv4.decoder (protocol.getD this.protocol)
    (IPv4.isFragment (this.flags &&& IPV4_FLAGS_MASK) (this.fragmentOffset &&& IPV4_OFFSET_MASK))

/-- The packet as it is decoded. -/
def IPv4.received (this : IPv4) : IPv4 :=
  { this.wire with options := if this.options.getD [] = [] then none else some (this.options.getD []) }

/-- The header and what its decoder does with the bytes after it. -/
theorem run_ipv4_iff {this that : IPv4} {input : List Byte} {other : IPacket}
    (header : this.headerLength.toNat * 4 = 20 + (this.options.getD []).length) (small : this.headerLength.toNat < 128)
    (total : this.totalLength.toInt = 20 + (this.options.getD []).length + input.length) :
    (∃ rest, IPv4.deserialize.run (this.header ++ input) = .ok (.ipv4 that :: other, rest)) ∧
        that.headerLength.toNat * 4 = 20 + (this.options.getD []).length ↔
      this.version &&& 0xf = 4 ∧ (this.options.getD []).length ≤ 40 ∧
        that = this.received ∧ ∃ left, (this.payloadDecoder none).run input = .ok (other, left) := by
  have length : min (this.totalLength.toInt - this.headerLength.toInt * 4) (input.length : Int) = input.length := by
    rw [BitVec.toInt_eq_toNat_cond this.headerLength, if_pos (by omega)]
    omega
  have wireLength : this.wire.headerLength.toNat = this.headerLength.toNat % 16 := toNat_and_mask this.headerLength 4 rfl
  have same (short : (this.options.getD []).length ≤ 40) : this.wire.headerLength = this.headerLength := by
    apply BitVec.eq_of_toNat_eq
    omega
  rw [ipv4_header_eq, List.append_assoc, run_ipv4, run_check]
  constructor
  · rintro ⟨⟨rest, decoded⟩, back⟩
    split_ifs at decoded with four
    obtain ⟨given, mid, read, decoded⟩ := run_bind_eq_ok decoded
    rw [run_remaining] at decoded
    obtain ⟨inside, left, carried, decoded⟩ := run_bind_eq_ok decoded
    cases decoded
    have short : (this.options.getD []).length ≤ 40 := by
      change this.wire.headerLength.toNat * 4 = _ at back
      omega
    rw [same short, run_ipv4_options header small] at read
    cases read
    rw [same short, length, run_readPayload] at carried
    refine ⟨of_decide_eq_true four, short, rfl, ?_⟩
    change ((this.payloadDecoder none).run input).map _ = _ at carried
    cases run : (this.payloadDecoder none).run input with
    | error e =>
      rw [run] at carried
      cases carried
    | ok result =>
      rw [run] at carried
      cases carried
      exact ⟨result.2, rfl⟩
  · rintro ⟨four, short, rfl, left, carried⟩
    have read := run_readPayload this.protocol (IPv4.isFragment this.wire.flags this.wire.fragmentOffset) input
    change _ = ((this.payloadDecoder none).run input).map _ at read
    rw [carried] at read
    have version : this.wire.version = 4 := four
    refine ⟨⟨[], ?_⟩, ?_⟩
    · rw [if_pos (decide_eq_true version), same short, run_bind_of_ok (run_ipv4_options header small), run_remaining, length,
        run_bind_of_ok read]
      rfl
    · change this.wire.headerLength.toNat * 4 = _
      rw [same short, header]

theorem ipv4_decoded_iff {this : IPv4} {input : List Byte} {payload : IPacket}
    (header : this.headerLength.toNat * 4 = 20 + (this.options.getD []).length) (small : this.headerLength.toNat < 128)
    (total : this.totalLength.toInt = 20 + (this.options.getD []).length + input.length) :
    ComesBack IPv4.deserialize (this.header ++ input) (.ipv4 this :: payload) ↔
      this.Clonable ∧ ComesBack (IPv4.decoder this.protocol (IPv4.isFragment this.flags this.fragmentOffset)) input payload := by
  constructor
  · rintro ⟨other, rest, decoded, same⟩
    obtain ⟨layer, inside, rfl, equal, own⟩ := equals_cons.mp same
    obtain rfl : .ipv4 this = layer := (@layer_equals_iff (.ipv4 this) _ trivial nofun).mp own
    obtain ⟨four, short, received, left, carried⟩ := (run_ipv4_iff header small total).mp ⟨⟨rest, decoded⟩, header⟩
    have version : this.version = this.version &&& 0xf := congrArg IPv4.version received
    have flags : this.flags = this.flags &&& IPV4_FLAGS_MASK := congrArg IPv4.flags received
    have fragmentOffset : this.fragmentOffset = this.fragmentOffset &&& IPV4_OFFSET_MASK := congrArg IPv4.fragmentOffset received
    have options : this.options = if this.options.getD [] = [] then none else some (this.options.getD []) :=
      congrArg IPv4.options received
    refine ⟨⟨version.trans four, flags.symm, fragmentOffset.symm, ?_, short⟩, inside, left, ?_, equal⟩
    · intro empty
      rw [empty] at options
      cases options
    · rw [IPv4.payloadDecoder, ← flags, ← fragmentOffset] at carried
      exact carried
  · rintro ⟨clonable, inside, left, carried, equal⟩
    have received : this = this.received := by
      rw [IPv4.received, clonable.wire_eq header, clonable.options_eq]
    have decoder : this.payloadDecoder none = IPv4.decoder this.protocol (IPv4.isFragment this.flags this.fragmentOffset) := by
      rw [IPv4.payloadDecoder, clonable.flags, clonable.fragmentOffset]
      rfl
    have four : this.version &&& 0xf = 4 := by
      rw [clonable.version]
      rfl
    obtain ⟨⟨rest, decoded⟩, -⟩ := (run_ipv4_iff header small total).mpr
      ⟨four, clonable.options.2, received, left, decoder ▸ carried⟩
    exact ⟨.ipv4 this :: inside, rest, decoded, equals_cons.mpr ⟨_, _, rfl, equal, by simp [Layer.equals]⟩⟩

theorem ipv4_comesBack_iff {this : IPv4} (basic : ∀ layer ∈ packet, layer.Basic)
    (ok : serialize parent (.ipv4 this :: packet) = .ok (bytes, packet', touch)) :
    ComesBack IPv4.deserialize (bytes.getD []) packet' ↔ this.Clonable ∧ this.Carries packet ∧ Clonable packet := by
  obtain ⟨payloadData, sent, inner, first, fits, rfl, rfl⟩ := serialize_ipv4_iff.mp ⟨touch, ok⟩
  obtain ⟨header, small, total⟩ := sent_lengths fits inner
  have clonable : (this.sent inner (payloadData.getD [])).Clonable ↔ this.Clonable := by
    constructor
    · rintro ⟨version, flags, fragmentOffset, options⟩
      exact ⟨version, flags, fragmentOffset, options⟩
    · rintro ⟨version, flags, fragmentOffset, options⟩
      exact ⟨version, flags, fragmentOffset, options⟩
  rw [Option.getD_some, ipv4_decoded_iff header small total, clonable, ← carried_comesBack_iff basic first]
  rfl

end Payload

end CodeClips.Packet
