import CodeClips.Packet.ComesBack

/-!
# Datagrams and their lengths

What `IPv4.deserialize` makes of the bytes of `IPv4.serialize`, with any payload. The total length
is a signed short, and it is also the size of the array: from 32768 on it is negative, and so is
the length of a `UDP` packet. The header's length has four bits, which are enough for options of 40
bytes, while `setOptions` takes more. Below both limits the packet and its options come back with
what the payload's own class makes of its bytes.
-/

namespace CodeClips.Packet
open ByteBuffer

def IPv4.setOptions (this : IPv4) (options : Option (List Byte)) : Java IPv4 :=
  if options ≠ none ∧ (options.getD []).length % 4 > 0 then .error .illegalArgument
  else .ok { this with options := options }

/-- Serialized and deserialized again, the packet is `that`, and its payload is equal to the one
that was sent; the lengths are those of the bytes. -/
def Delivered (parent : Option Layer) (this : IPv4) (payload : IPacket) (that : IPv4) (other : IPacket) : Prop :=
  ∃ bytes sent touch rest, serialize parent (.ipv4 this :: payload) = .ok (some bytes, sent, touch) ∧
    IPv4.deserialize.run bytes = .ok (.ipv4 that :: other, rest) ∧ equals sent.tail other = true ∧
    that.headerLength.toNat * 4 = 20 + (this.options.getD []).length ∧ that.totalLength.toNat = bytes.length

/-- What the decoder needs of the fields. -/
structure IPv4.Header (this : IPv4) : Prop where
  version : this.version &&& 0xf = 4
  words : (this.options.getD []).length % 4 = 0
  short : (this.options.getD []).length ≤ 40

/-- The payload is serialized to bytes that the array has place for and that give it back. -/
def Transports (this : IPv4) (payload : IPacket) : Prop :=
  ∃ payloadData sent touch, serialize (some (.ipv4 this)) payload = .ok (payloadData, sent, touch) ∧
    20 + (this.options.getD []).length + (payloadData.getD []).length < 2 ^ 15 ∧
    ComesBack (this.payloadDecoder touch.protocol) (payloadData.getD []) sent

section IPv4
variable {parent : Option Layer} {this that : IPv4} {payload other : IPacket}

theorem delivered_iff : Delivered parent this payload that other ↔ this.Header ∧ ∃ payloadData sent touch,
    serialize (some (.ipv4 this)) payload = .ok (payloadData, sent, touch) ∧
    20 + (this.options.getD []).length + (payloadData.getD []).length < 2 ^ 15 ∧ equals sent other = true ∧
    that = (this.sent touch (payloadData.getD [])).received ∧
    ∃ left, (this.payloadDecoder touch.protocol).run (payloadData.getD []) = .ok (other, left) := by
  constructor
  · rintro ⟨bytes, packet, touch', rest, ok, decoded, same, back, count⟩
    obtain ⟨payloadData, sent, touch, first, fits, bytes_eq, rfl⟩ := serialize_ipv4_iff.mp ⟨touch', ok⟩
    obtain rfl := Option.some.inj bytes_eq
    obtain ⟨header, small, total⟩ := sent_lengths fits touch
    obtain ⟨four, short, that_eq, carried⟩ := (run_ipv4_iff header small total).mp ⟨⟨rest, decoded⟩, back⟩
    exact ⟨⟨four, fits.words, short⟩, payloadData, sent, touch, first, fits.total, same, that_eq, carried⟩
  · rintro ⟨⟨four, words, short⟩, payloadData, sent, touch, first, total, same, rfl, carried⟩
    have fits : this.Fits (payloadData.getD []) := ⟨words, by omega, total⟩
    obtain ⟨touch', ok⟩ : ∃ touch', serialize parent (.ipv4 this :: payload) = .ok (_, _, touch') :=
      serialize_ipv4_iff.mpr ⟨payloadData, sent, touch, first, fits, rfl, rfl⟩
    obtain ⟨header, small, exact⟩ := sent_lengths fits touch
    obtain ⟨⟨rest, decoded⟩, back⟩ := (run_ipv4_iff header small exact).mpr ⟨four, short, rfl, carried⟩
    refine ⟨_, _, touch', rest, ok, decoded, same, back, ?_⟩
    have options : (this.sent touch (payloadData.getD [])).options = this.options := rfl
    have value := BitVec.toInt_eq_toNat_cond (this.sent touch (payloadData.getD [])).totalLength
    change (this.sent touch (payloadData.getD [])).totalLength.toNat = _
    rw [List.length_append, length_ipv4_header, options]
    split_ifs at value <;> omega

theorem exists_delivered_iff : (∃ that other, Delivered parent this payload that other) ↔ this.Header ∧ Transports this payload := by
  constructor
  · rintro ⟨that, other, delivered⟩
    obtain ⟨header, payloadData, sent, touch, ok, total, same, -, left, carried⟩ := delivered_iff.mp delivered
    exact ⟨header, payloadData, sent, touch, ok, total, other, left, carried, same⟩
  · rintro ⟨header, payloadData, sent, touch, ok, total, other, left, carried, same⟩
    exact ⟨_, other, delivered_iff.mpr ⟨header, payloadData, sent, touch, ok, total, same, rfl, left, carried⟩⟩

end IPv4

/-! ## A payload of `UDP` -/

/-- The datagram comes back with its payload, and with the true lengths. -/
def RoundTrips (parent : Option Layer) (this : IPv4) (payload : IPacket) : Prop :=
  ∃ that other, Delivered parent this payload that other ∧
    ∀ udp inner, payload = .udp udp :: inner → ∃ udp' inner', other = .udp udp' :: inner' ∧
      udp'.length.toNat + that.headerLength.toNat * 4 = that.totalLength.toNat

/-- What is in the `UDP` packet is serialized to bytes that its array has place for and that give it
back, and the datagram is not a fragment. -/
def TransportsUdp (this : IPv4) (udp : UDP) (inner : IPacket) : Prop :=
  IPv4.isFragment (this.flags &&& IPV4_FLAGS_MASK) (this.fragmentOffset &&& IPV4_OFFSET_MASK) = false ∧
  ∃ sourcePort destinationPort payloadData sent touch, udp.sourcePort = some sourcePort ∧
    udp.destinationPort = some destinationPort ∧ serialize (some (.udp udp)) inner = .ok (payloadData, sent, touch) ∧
    28 + (this.options.getD []).length + (payloadData.getD []).length < 2 ^ 15 ∧
    ComesBack (UDP.decoder sourcePort destinationPort) (payloadData.getD []) sent

def TransportsAny (this : IPv4) : IPacket → Prop
  | .udp udp :: inner => TransportsUdp this udp inner
  | payload => Transports this payload

section UDP
variable {parent : Option Layer} {this that : IPv4} {udp : UDP} {inner other : IPacket}

/-- The header of a `UDP` packet comes back with whatever is decoded behind it. -/
theorem udp_decoded_iff {sourcePort destinationPort : TransportPort} (source : udp.sourcePort = some sourcePort)
    (destination : udp.destinationPort = some destinationPort) (input : List Byte) :
    ComesBack UDP.deserialize (udp.header sourcePort destinationPort ++ input) (.udp udp :: inner) ↔
      ComesBack (UDP.decoder sourcePort destinationPort) input inner := by
  rw [ComesBack, run_udp source destination]
  constructor
  · rintro ⟨packet, rest, decoded, same⟩
    obtain ⟨inside, mid, carried, done⟩ := run_bind_eq_ok decoded
    cases done
    obtain ⟨_, _, packet_eq, equal, -⟩ := equals_cons.mp same
    cases packet_eq
    exact ⟨_, _, carried, equal⟩
  · rintro ⟨inside, rest, carried, equal⟩
    refine ⟨.udp udp :: inside, rest, ?_, equals_cons.mpr ⟨_, _, rfl, equal, by simp [Layer.equals]⟩⟩
    rw [run_bind_of_ok carried]
    rfl

theorem payloadDecoder_udp (this : IPv4) : this.payloadDecoder (some IpProtocol.UDP) =
    if IPv4.isFragment (this.flags &&& IPV4_FLAGS_MASK) (this.fragmentOffset &&& IPV4_OFFSET_MASK) then Data.deserialize
    else UDP.deserialize := by
  have known : IPv4.protocolClassMap IpProtocol.UDP = some UDP.deserialize := by
    rw [IPv4.protocolClassMap, if_neg (by decide), if_neg (by decide), if_pos rfl]
  rw [IPv4.payloadDecoder, IPv4.decoder, Option.getD_some, known, Option.getD_some]

/-- What is decoded as `Data` is not equal to a `UDP` packet. -/
theorem not_comesBack_data (input : List Byte) : ¬ ComesBack Data.deserialize input (.udp udp :: inner) := by
  rintro ⟨packet, rest, decoded, same⟩
  rw [run_data] at decoded
  cases decoded
  obtain ⟨_, _, packet_eq, -, equal⟩ := equals_cons.mp same
  cases packet_eq
  simp [Layer.equals] at equal

theorem transports_udp_iff : Transports this (.udp udp :: inner) ↔ TransportsUdp this udp inner := by
  constructor
  · rintro ⟨bytes, packet, touch', ok, total, carried⟩
    obtain ⟨protocol, payloadData, sent, touch, sourcePort, destinationPort, first, fits, rfl, rfl⟩ :=
      serialize_udp_iff.mp ⟨touch', ok, rfl⟩
    rw [protocol, payloadDecoder_udp] at carried
    split_ifs at carried with fragment
    · exact absurd carried (not_comesBack_data _)
    · rw [Option.getD_some, List.length_append, length_udp_header] at total
      have source : (udp.sent (some (.ipv4 this)) touch (payloadData.getD []) sourcePort destinationPort).sourcePort =
        some sourcePort := fits.sourcePort_eq
      rw [Option.getD_some, udp_decoded_iff source fits.destinationPort_eq] at carried
      exact ⟨Bool.eq_false_iff.mpr fragment, sourcePort, destinationPort, payloadData, sent, touch, fits.sourcePort_eq,
        fits.destinationPort_eq, first, by omega, carried⟩
  · rintro ⟨whole, sourcePort, destinationPort, payloadData, sent, touch, source, destination, first, total, carried⟩
    have fits : udp.Fits (payloadData.getD []) sourcePort destinationPort := ⟨source, destination, by omega⟩
    obtain ⟨touch', ok, protocol⟩ : ∃ touch', serialize (some (.ipv4 this)) (.udp udp :: inner) = .ok (_, _, touch') ∧
        touch'.protocol = some IpProtocol.UDP := serialize_udp_iff.mpr
      ⟨rfl, payloadData, sent, touch, sourcePort, destinationPort, first, fits, rfl, rfl⟩
    refine ⟨_, _, touch', ok, ?_, ?_⟩
    · rw [Option.getD_some, List.length_append, length_udp_header]
      omega
    · have back := (@udp_decoded_iff (udp.sent (some (.ipv4 this)) touch (payloadData.getD []) sourcePort destinationPort) sent
        sourcePort destinationPort source destination (payloadData.getD [])).mpr carried
      rw [protocol, payloadDecoder_udp, whole, if_neg Bool.false_ne_true]
      exact back

/-- A `UDP` packet that comes back counts its bytes. -/
theorem delivered_udp_length (delivered : Delivered parent this (.udp udp :: inner) that other) : ∃ udp' inner',
    other = .udp udp' :: inner' ∧ udp'.length.toNat + that.headerLength.toNat * 4 = that.totalLength.toNat := by
  obtain ⟨bytes, packet, touch', rest, ok, -, same, header, total⟩ := delivered
  obtain ⟨payloadData, sent, inside, first, fits, bytes_eq, rfl⟩ := serialize_ipv4_iff.mp ⟨touch', ok⟩
  obtain ⟨-, innerData, innerSent, touch, sourcePort, destinationPort, -, fitsUdp, rfl, rfl⟩ :=
    serialize_udp_iff.mp ⟨inside, first, rfl⟩
  obtain ⟨layer, inner', rfl, -, equal⟩ := equals_cons.mp same
  have counted := @udp_sent_length (some (.ipv4 this)) udp (innerData.getD []) sourcePort destinationPort fitsUdp touch
  cases layer with
  | udp udp' =>
    refine ⟨udp', inner', rfl, ?_⟩
    have received : udp.sent (some (.ipv4 this)) touch (innerData.getD []) sourcePort destinationPort = udp' := by
      simpa [Layer.equals] using equal
    obtain rfl := Option.some.inj bytes_eq
    have options : (this.sent inside ((some ((udp.sent (some (.ipv4 this)) touch (innerData.getD []) sourcePort
      destinationPort).header sourcePort destinationPort ++ innerData.getD [])).getD [])).options = this.options := rfl
    rw [List.length_append, length_ipv4_header, options, Option.getD_some, List.length_append, length_udp_header] at total
    rw [← received]
    omega
  | _ => simp [Layer.equals] at equal

end UDP

/-- **Which datagrams come back**: those whose version is 4, whose options fill words of the header, and
that have at most 32767 bytes in all, with payloads that come back from their own bytes. -/
theorem roundTrips_iff (parent : Option Layer) (this : IPv4) (payload : IPacket) :
    RoundTrips parent this payload ↔ this.Header ∧ TransportsAny this payload := by
  by_cases datagram : ∃ udp inner, payload = .udp udp :: inner
  · obtain ⟨udp, inner, rfl⟩ := datagram
    rw [TransportsAny, ← transports_udp_iff, ← exists_delivered_iff]
    constructor
    · rintro ⟨that, other, delivered, -⟩
      exact ⟨that, other, delivered⟩
    · rintro ⟨that, other, delivered⟩
      exact ⟨that, other, delivered, fun _ _ _ => delivered_udp_length delivered⟩
  · have other : TransportsAny this payload ↔ Transports this payload := by
      unfold TransportsAny
      split
      · next udp inner => exact absurd ⟨udp, inner, rfl⟩ datagram
      · exact Iff.rfl
    rw [other, ← exists_delivered_iff]
    constructor
    · rintro ⟨that, other, delivered, -⟩
      exact ⟨that, other, delivered⟩
    · rintro ⟨that, other, delivered⟩
      exact ⟨that, other, delivered, fun udp inner same => absurd ⟨udp, inner, same⟩ datagram⟩

/-! ## Large datagrams -/

/-- A total length from 32768 on is the negative size of an array. -/
theorem serialize_negative {this : IPv4} {bytes : List Byte} (absent : this.options = none) (least : 2 ^ 15 ≤ 20 + bytes.length)
    (most : 20 + bytes.length < 2 ^ 16) : this.serialize (some bytes) = .error .negativeArraySize := by
  have total : ((this.setLengths bytes.length).totalLength.signExtend 32).toInt < 0 := by
    rw [BitVec.toInt_signExtend_of_le (by decide), IPv4.setLengths, absent, BitVec.toInt_ofInt, Int.bmod_def]
    have five : (BitVec.ofNat 8 (5 + ((none : Option (List Byte)).getD []).length / 4)).toInt = 5 := rfl
    rw [five]
    split_ifs <;> omega
  rw [IPv4.serialize, Option.getD_some, allocate, if_pos total]
  rfl

def datagram : IPv4 :=
  { version := 4, headerLength := 0, diffServ := 0, totalLength := 0, identification := 0, flags := 0, fragmentOffset := 0,
    ttl := 64, protocol := 0, checksum := 0, sourceAddress := 0x0a000001, destinationAddress := 0x0a000002, options := none }

theorem serialize_datagram {this : IPv4} {bytes : List Byte} (absent : this.options = none) (least : 2 ^ 15 ≤ 20 + bytes.length)
    (most : 20 + bytes.length < 2 ^ 16) (parent : Option Layer) :
    serialize parent [.ipv4 this, .data { data := some bytes }] = .error .negativeArraySize := by
  change (this.serialize (some bytes) >>= fun result => pure (some result.1, Layer.ipv4 result.2, Touch.none)) >>= _ = _
  rw [serialize_negative absent least most]
  rfl

/-- With 32748 bytes of payload the datagram is 32768 bytes long. -/
theorem large_datagram : ¬ ∀ (parent : Option Layer) (this : IPv4) (payload : List Byte), this.Header →
    this.options = none → payload.length ≤ 65515 → RoundTrips parent this [.data { data := some payload }] := by
  intro roundTrip
  have header : datagram.Header := ⟨by decide, by decide, by decide⟩
  have length : (List.replicate 32748 (0 : Byte)).length = 32748 := List.length_replicate
  obtain ⟨that, other, ⟨bytes, sent, touch, rest, ok, -⟩, -⟩ :=
    roundTrip none datagram (List.replicate 32748 0) header rfl (by omega)
  rw [serialize_datagram rfl (by omega) (by omega)] at ok
  cases ok

/-! ## Options -/

theorem received_options (this : IPv4) : this.received.options = this.options ↔ this.options ≠ some [] := by
  rw [IPv4.received]
  cases this.options with
  | none => simp
  | some options => cases options <;> simp

theorem setOptions_ok_iff {this this' : IPv4} {options : Option (List Byte)} : this.setOptions options = .ok this' ↔
    (∀ bytes, options = some bytes → bytes.length % 4 = 0) ∧ this' = { this with options := options } := by
  rw [IPv4.setOptions]
  cases options with
  | none => simp [eq_comm]
  | some bytes =>
    rw [Option.getD_some]
    split_ifs with rest
    · refine iff_of_false (by rintro ⟨⟩) ?_
      rintro ⟨words, -⟩
      have word := words bytes rfl
      omega
    · have word : bytes.length % 4 = 0 := by
        by_contra left
        exact rest ⟨Option.some_ne_none bytes, Nat.pos_of_ne_zero left⟩
      constructor
      · rintro ⟨⟩
        exact ⟨fun _ same => Option.some.inj same ▸ word, rfl⟩
      · rintro ⟨-, rfl⟩
        rfl

/-- A packet that comes back does so with its options, but for those of no bytes. -/
theorem exists_delivered_options_iff {parent : Option Layer} {this : IPv4} {payload : IPacket} :
    (∃ that other, Delivered parent this payload that other ∧ that.options = this.options) ↔
      this.options ≠ some [] ∧ this.Header ∧ Transports this payload := by
  rw [← exists_delivered_iff]
  have same {that : IPv4} {other : IPacket} (delivered : Delivered parent this payload that other) :
      that.options = this.options ↔ this.options ≠ some [] := by
    obtain ⟨-, payloadData, sent, touch, -, -, -, rfl, -⟩ := delivered_iff.mp delivered
    exact received_options (this.sent touch (payloadData.getD []))
  constructor
  · rintro ⟨that, other, delivered, kept⟩
    exact ⟨(same delivered).mp kept, that, other, delivered⟩
  · rintro ⟨present, that, other, delivered⟩
    exact ⟨that, other, delivered, (same delivered).mpr present⟩

/-- **Which options come back**: of those that `setOptions` takes, none at all or between 4 and 40 bytes of them, in a
packet that comes back. -/
theorem options_iff {this this' : IPv4} {options : Option (List Byte)} (accepted : this.setOptions options = .ok this')
    (parent : Option Layer) (payload : IPacket) :
    (∃ that other, Delivered parent this' payload that other ∧ that.options = options) ↔
      this.version &&& 0xf = 4 ∧ (∀ bytes, options = some bytes → 4 ≤ bytes.length ∧ bytes.length ≤ 40) ∧
      Transports this' payload := by
  obtain ⟨words, rfl⟩ := setOptions_ok_iff.mp accepted
  apply exists_delivered_options_iff.trans
  constructor
  · rintro ⟨present, ⟨version, -, short⟩, transports⟩
    refine ⟨version, ?_, transports⟩
    rintro bytes rfl
    have word := words bytes rfl
    have some_bytes : bytes.length ≠ 0 := fun empty => present (congrArg some (List.length_eq_zero_iff.mp empty))
    exact ⟨by omega, short⟩
  · rintro ⟨version, fill, transports⟩
    refine ⟨?_, ?_, transports⟩
    · intro empty
      exact absurd (fill [] empty).1 (by decide)
    · cases options with
      | none => exact ⟨version, rfl, Nat.zero_le 40⟩
      | some bytes => exact ⟨version, words bytes rfl, (fill bytes rfl).2⟩

theorem options_iff_routerAlert : ∃ that other,
    Delivered none { datagram with options := some [0x94, 4, 0, 0] } [.data { data := some [1, 2, 3] }] that other ∧
      that.options = some [0x94, 4, 0, 0] := by
  apply (@options_iff datagram _ _ rfl none [.data { data := some [1, 2, 3] }]).mpr
  refine ⟨by decide, ?_, some [1, 2, 3], [.data { data := some [1, 2, 3] }], Touch.none, rfl, by decide, ?_⟩
  · intro bytes same
    cases same
    decide
  · exact ⟨[.data { data := some [1, 2, 3] }], [], rfl, rfl⟩

/-- `setOptions` takes 44 bytes, for which the header would have 16 words. -/
theorem options_too_long : ¬ ∀ (this this' : IPv4) (options : Option (List Byte)) (parent : Option Layer) (payload : List Byte),
    this.version = 4 → this.setOptions options = .ok this' → 20 + (options.getD []).length + payload.length ≤ 65535 →
    ∃ that other, Delivered parent this' [.data { data := some payload }] that other ∧ that.options = options := by
  intro roundTrip
  obtain ⟨that, other, delivered, -⟩ :=
    roundTrip datagram _ (some (List.replicate 44 0)) none [] rfl rfl (by decide)
  have short := (delivered_iff.mp delivered).1.short
  exact absurd short (by decide)

end CodeClips.Packet
