import CodeClips.Packet.Frames
import Mathlib.Tactic.IntervalCases

/-!
# Frames decoded and encoded

`Ethernet.serialize` after `Ethernet.deserialize`. A payload that no class has decoded is the
array itself, so that the header is there twice (`undecoded_frame_lost`). With a tag the frame comes
back just when the tag has a VLAN and no drop eligible bit and the payload's class gives its
bytes back (`tag_kept_iff`).
-/

namespace CodeClips.Packet
open ByteBuffer

/-! ## The classes of the payload -/

theorem yields_arp : Yields ARP.deserialize (fun payload => ∃ this, payload = [.arp this]) := by
  iterate 11 refine .bind fun _ => ?_
  exact .pure ⟨_, rfl⟩

theorem yields_ipv4 : Yields IPv4.deserialize (fun payload => ∃ this rest, payload = .ipv4 this :: rest) := by
  iterate 14 refine .bind fun _ => ?_
  exact .pure ⟨_, _, rfl⟩

theorem yields_lldp : Yields LLDP.decode (fun payload => ∃ this, payload = [.lldp this]) := by
  refine .bind fun _ => ?_
  exact .pure ⟨_, rfl⟩

theorem yields_bsn : Yields BSN.deserialize (fun payload => ∃ this rest, payload = .bsn this :: rest) := by
  iterate 6 refine .bind fun _ => ?_
  exact .pure ⟨_, _, rfl⟩

/-- The EtherType that a decoded payload sets is the one it has been decoded by. -/
theorem etherType_of_decoded {etherType : Short} {decoder : ByteBuffer IPacket} {input rest : List Byte}
    {payload payload' : IPacket} {bytes : Option (List Byte)} {parent : Option Layer} {touch : Touch}
    (known : Ethernet.etherTypeClassMap etherType = some decoder) (decoded : decoder.run input = .ok (payload, rest))
    (ok : serialize parent payload = .ok (bytes, payload', touch)) : touch.etherType.getD etherType = etherType := by
  rw [Ethernet.etherTypeClassMap] at known
  split_ifs at known with arp ipv4 lldp bsn
  · cases known
    obtain ⟨this, rfl⟩ := yields_arp _ _ _ decoded
    rw [(serialize_sets ok).2]
    rfl
  · cases known
    obtain ⟨this, payload, rfl⟩ := yields_ipv4 _ _ _ decoded
    rw [(serialize_sets ok).2]
    rfl
  · cases known
    obtain ⟨this, rfl⟩ := yields_lldp _ _ _ decoded
    rw [(serialize_sets ok).2, lldp]
    rfl
  · cases known
    obtain ⟨this, payload, rfl⟩ := yields_bsn _ _ _ decoded
    rw [(serialize_sets ok).2, bsn]
    rfl

/-! ## Encoding a frame -/

theorem parentHeader_ethernet (this : Ethernet) (protocol : IpProtocol) (length : BitVec 32) :
    parentHeader none protocol length = parentHeader (some (.ethernet this)) protocol length := rfl

/-- The frame that a packet with an `Ethernet` is serialized to. -/
theorem serialize_ethernet_iff {this : Ethernet} {payload : IPacket} {data : Option (List Byte)} :
    (∃ packet touch, serialize none (.ethernet this :: payload) = .ok (data, packet, touch)) ↔
      ∃ bytes payload' touch frame, serialize none payload = .ok (bytes, payload', touch) ∧
        { this with etherType := touch.etherType.getD this.etherType }.serialize bytes = .ok frame ∧ data = some frame := by
  constructor
  · rintro ⟨packet, touch, ok⟩
    obtain ⟨bytes, payload', inner, layer', own, first, second, -, -⟩ := serialize_cons_ok rfl ok
    obtain ⟨frame, encoded, done⟩ := bind_eq_ok second
    cases done
    change serialize (some (.ethernet this)) payload = _ at first
    rw [← serialize_parent (parentHeader_ethernet this)] at first
    exact ⟨bytes, payload', inner, frame, first, encoded, rfl⟩
  · rintro ⟨bytes, payload', inner, frame, first, encoded, rfl⟩
    rw [serialize_parent (parentHeader_ethernet this)] at first
    have second : (Layer.touch inner (.ethernet this)).serialize none payload' bytes =
        .ok (some frame, .ethernet { this with etherType := inner.etherType.getD this.etherType }, .none) := by
      show (do
        let bytes ← { this with etherType := inner.etherType.getD this.etherType }.serialize bytes
        pure (some bytes, _, Touch.none) : Java _) = _
      rw [encoded]
      rfl
    exact ⟨_, _, serialize_cons rfl first second⟩

/-! ## Payloads that no class has decoded -/

/-- A whole frame, without a tag or with one that has a VLAN and no drop eligible bit, whose
EtherType has no class or one that throws. -/
structure Frame.Undecoded (frame : Frame) : Prop where
  long : 16 < frame.bytes.length
  wellFormed : frame.WellFormed
  tag : ∀ tci, frame.tag = some tci → tci &&& 0x0fff ≠ 0 ∧ tci &&& 0x1000 = 0
  payload : ∀ decoder, Ethernet.etherTypeClassMap frame.etherType = some decoder →
    ∃ e, decoder.run frame.payload = .error e

theorem readPayload_of_undecoded {frame : Frame} (undecoded : frame.Undecoded) :
    Ethernet.readPayload frame.etherType frame.bytes frame.payload = [.data { data := some frame.bytes }] := by
  rw [Ethernet.readPayload]
  cases known : Ethernet.etherTypeClassMap frame.etherType with
  | none => rfl
  | some decoder =>
    obtain ⟨e, throws⟩ := undecoded.payload decoder known
    simp only [throws]

/-- The encoded frame has a header before all the data. -/
theorem length_of_data {this : Ethernet} {bytes data : List Byte} {packet : IPacket} {touch : Touch}
    (ok : serialize none [.ethernet this, .data { data := some bytes }] = .ok (some data, packet, touch)) :
    14 + bytes.length ≤ data.length := by
  obtain ⟨given, payload', inner, frame, first, encoded, same⟩ := serialize_ethernet_iff.mp ⟨packet, touch, ok⟩
  cases first
  cases same
  obtain ⟨destination, source, -, -, -, rfl⟩ := ethernet_serialize_iff.mp encoded
  rw [List.length_append, length_frame]
  simp only [Option.getD_some]
  omega

/-- What the decoder gives for a frame, and its payload, are the frame's; encoding gives the frame
back. -/
def Frame.Identity (frame : Frame) (this : Ethernet) : Prop :=
  ∃ ethernet payload, this.deserialize frame.bytes 0 frame.bytes.length = .ok (some (ethernet :: payload)) ∧
    payload = [.data { data := some frame.payload }] ∧
    ∃ packet touch, serialize none (ethernet :: payload) = .ok (some frame.bytes, packet, touch)

/-- **No undecoded frame comes back**: its payload is decoded as the frame, which is not the bytes
after the header, and encoding that does not give the frame. -/
theorem undecoded_frame_lost (frame : Frame) (undecoded : frame.Undecoded) (this : Ethernet) :
    ∃ ethernet payload, this.deserialize frame.bytes 0 frame.bytes.length = .ok (some (ethernet :: payload)) ∧
      payload = [.data { data := some frame.bytes }] ∧ payload ≠ [.data { data := some frame.payload }] ∧
      ∀ packet touch, serialize none (ethernet :: payload) ≠ .ok (some frame.bytes, packet, touch) := by
  refine ⟨.ethernet (frame.received this), _, ?_, rfl, ?_, ?_⟩
  · rw [deserialize_frame undecoded.wellFormed undecoded.long, readPayload_of_undecoded undecoded]
  · intro same
    injection same with same
    injection same with same
    injection same with same
    injection same with same
    have length := congrArg List.length same
    rw [Frame.bytes, List.length_append, length_frame_header] at length
    omega
  · intro packet touch ok
    have length := length_of_data ok
    omega

/-- Three bytes of an EtherType without a class. -/
def unknownFrame : Frame :=
  { destination := ⟨[0, 0, 0, 0, 0, 1], rfl⟩, source := ⟨[0, 0, 0, 0, 0, 2], rfl⟩, tag := none, etherType := 0x1234,
    payload := [1, 2, 3] }

theorem undecoded_unknownFrame : unknownFrame.Undecoded where
  long := by decide
  wellFormed := fun _ => by decide
  tag := nofun
  payload := nofun

theorem undecoded_frame_lost_unknown :
    ∃ ethernet payload,
      Ethernet.new.deserialize unknownFrame.bytes 0 unknownFrame.bytes.length = .ok (some (ethernet :: payload)) ∧
      payload = [.data { data := some unknownFrame.bytes }] ∧
      payload ≠ [.data { data := some unknownFrame.payload }] ∧
      ∀ packet touch, serialize none (ethernet :: payload) ≠ .ok (some unknownFrame.bytes, packet, touch) :=
  undecoded_frame_lost unknownFrame undecoded_unknownFrame .new

theorem payload_has_header : ¬ ∀ (frame : Frame) (this : Ethernet), frame.Undecoded → frame.Identity this := by
  intro identity
  obtain ⟨ethernet, payload, ok, payload_eq, -⟩ := identity unknownFrame .new undecoded_unknownFrame
  rw [deserialize_frame undecoded_unknownFrame.wellFormed undecoded_unknownFrame.long,
    readPayload_of_undecoded undecoded_unknownFrame, payload_eq] at ok
  cases ok

/-! ## Tags -/

/-- The control field that is encoded has lost one bit of the one that was decoded. -/
theorem control_field (tci : Short) :
    ((tci.sshiftRight 13 &&& 0x07).setWidth 8 : Byte).signExtend 16 <<< 13 ||| (tci &&& 0x0fff &&& 0x0fff) =
      tci &&& 0xefff := by
  apply BitVec.eq_of_getLsbD_eq
  intro i inside
  interval_cases i <;> simp [BitVec.getElem_signExtend, BitVec.getElem_sshiftRight]

theorem and_eq_self_iff (tci : Short) : tci &&& 0xefff = tci ↔ tci &&& 0x1000 = 0 := by
  constructor
  · intro same
    rw [← same, BitVec.and_assoc]
    exact BitVec.and_zero
  · intro clear
    have all : tci = tci &&& (0xefff ||| 0x1000) := BitVec.and_allOnes.symm
    rw [BitVec.and_or_distrib_left, clear] at all
    exact (all.trans BitVec.or_zero).symm

/-- What follows the addresses in the frame that is encoded again. -/
theorem drop_frame {frame : Frame} {tci : Short} (tagged : frame.tag = some tci) (this : Ethernet)
    (destination source : MacAddress) (bytes : List Byte) :
    ((frame.received this).frame destination source bytes).drop 12 =
      (if tci &&& 0x0fff = 0 then [] else putShort 0x8100 ++ putShort (tci &&& 0xefff)) ++
        (putShort frame.etherType ++ bytes) := by
  have addresses : (destination.bytes ++ source.bytes).length = 12 := by
    simp [destination.length_eq, source.length_eq]
  rw [Ethernet.frame, List.append_assoc, List.append_assoc, List.drop_left' addresses, Frame.received, tagged]
  dsimp only
  rw [control_field]
  rfl

theorem drop_bytes {frame : Frame} {tci : Short} (tagged : frame.tag = some tci) :
    frame.bytes.drop 12 = putShort 0x8100 ++ putShort tci ++ (putShort frame.etherType ++ frame.payload) := by
  have addresses : (frame.destination.bytes ++ frame.source.bytes).length = 12 := by
    simp [frame.destination.length_eq, frame.source.length_eq]
  rw [Frame.bytes, Frame.header, Frame.tagBytes, tagged, List.append_assoc, List.append_assoc,
    List.drop_left' addresses]

/-- Decoded and encoded again, the frame has the same tag and the same bytes after it. -/
def Frame.Kept (frame : Frame) (this : Ethernet) : Prop :=
  ∃ packet data packet' touch, this.deserialize frame.bytes 0 frame.bytes.length = .ok (some packet) ∧
    serialize none packet = .ok (some data, packet', touch) ∧ data.drop 12 = frame.bytes.drop 12

/-- The class of the EtherType decodes the payload, and encodes what it has decoded to the same
bytes, up to the zeros that the receiver adds to a frame of less than 60. -/
def Frame.PayloadKept (frame : Frame) (this : Ethernet) : Prop :=
  ∃ decoder payload rest bytes payload' touch, Ethernet.etherTypeClassMap frame.etherType = some decoder ∧
    decoder.run frame.payload = .ok (payload, rest) ∧ serialize none payload = .ok (bytes, payload', touch) ∧
    bytes.getD [] ++ List.replicate (this.padding (18 + (bytes.getD []).length)) 0 = frame.payload

/-- Encoding the packet that a tagged frame is decoded to, where a class has decoded the payload. -/
theorem encoded_iff {frame : Frame} {tci : Short} (tagged : frame.tag = some tci) (this : Ethernet)
    {decoder : ByteBuffer IPacket} {payload : IPacket} {rest data : List Byte}
    (known : Ethernet.etherTypeClassMap frame.etherType = some decoder)
    (decoded : decoder.run frame.payload = .ok (payload, rest)) :
    (∃ packet touch, serialize none (.ethernet (frame.received this) :: payload) = .ok (some data, packet, touch)) ↔
      ∃ bytes payload' touch, serialize none payload = .ok (bytes, payload', touch) ∧
        ((frame.received this).frame frame.destination frame.source (bytes.getD [])).length < 2 ^ 31 ∧
        data = (frame.received this).frame frame.destination frame.source (bytes.getD []) ++
          List.replicate (this.padding ((frame.received this).frame frame.destination frame.source
            (bytes.getD [])).length) 0 := by
  have etherType : (frame.received this).etherType = frame.etherType := by rw [Frame.received, tagged]
  have addresses : (frame.received this).destinationMACAddress = some frame.destination ∧
      (frame.received this).sourceMACAddress = some frame.source := by
    rw [Frame.received, tagged]
    exact ⟨rfl, rfl⟩
  have padding : (frame.received this).padding = this.padding := by
    funext length
    rw [Frame.received, tagged]
    rfl
  have same {touch : Touch} (kept : touch.etherType.getD frame.etherType = frame.etherType) :
      { frame.received this with etherType := touch.etherType.getD (frame.received this).etherType } =
        frame.received this := by
    rw [etherType, kept, ← etherType]
  rw [serialize_ethernet_iff]
  constructor
  · rintro ⟨bytes, payload', touch, out, first, encoded, data_eq⟩
    cases data_eq
    rw [same (etherType_of_decoded known decoded first)] at encoded
    obtain ⟨destination, source, destination_eq, source_eq, fits, rfl⟩ := ethernet_serialize_iff.mp encoded
    cases addresses.1.symm.trans destination_eq
    cases addresses.2.symm.trans source_eq
    rw [padding]
    exact ⟨bytes, payload', touch, first, fits, rfl⟩
  · rintro ⟨bytes, payload', touch, first, fits, rfl⟩
    refine ⟨bytes, payload', touch, _, first, ?_, rfl⟩
    rw [same (etherType_of_decoded known decoded first), ethernet_serialize_iff]
    exact ⟨_, _, addresses.1, addresses.2, fits, by rw [padding]⟩

theorem readPayload_cases (etherType : Short) (data input : List Byte) :
    (∃ decoder rest, Ethernet.etherTypeClassMap etherType = some decoder ∧
      decoder.run input = .ok (Ethernet.readPayload etherType data input, rest)) ∨
      Ethernet.readPayload etherType data input = [.data { data := some data }] := by
  rw [Ethernet.readPayload]
  cases known : Ethernet.etherTypeClassMap etherType with
  | none => exact Or.inr rfl
  | some decoder =>
    dsimp only
    cases decoded : decoder.run input with
    | error e => exact Or.inr rfl
    | ok result => exact Or.inl ⟨decoder, result.2, rfl, decoded⟩

/-- The encoded frame with its padding, from the tag on. -/
theorem drop_encoded {frame : Frame} {tci : Short} (tagged : frame.tag = some tci) (this : Ethernet)
    (destination source : MacAddress) (bytes zeros : List Byte) :
    ((frame.received this).frame destination source bytes ++ zeros).drop 12 =
      (if tci &&& 0x0fff = 0 then [] else putShort 0x8100 ++ putShort (tci &&& 0xefff)) ++
        (putShort frame.etherType ++ (bytes ++ zeros)) := by
  have length := length_frame (frame.received this) destination source bytes
  rw [List.drop_append_of_le_length (by omega), drop_frame tagged]
  simp only [List.append_assoc]

theorem length_received {frame : Frame} {tci : Short} (tagged : frame.tag = some tci) (vlan : tci &&& 0x0fff ≠ 0)
    (this : Ethernet) (destination source : MacAddress) (bytes : List Byte) :
    ((frame.received this).frame destination source bytes).length = 18 + bytes.length := by
  have vlanID : (frame.received this).vlanID = tci &&& 0x0fff := by rw [Frame.received, tagged]
  rw [length_frame, vlanID, if_neg (show ¬ tci &&& 0x0fff = VLAN_UNTAGGED from vlan)]

theorem append_inj_short {s t : Short} {xs ys : List Byte} (same : putShort s ++ xs = putShort t ++ ys) :
    s = t ∧ xs = ys := by
  obtain ⟨first, second⟩ := List.append_inj same (by rw [length_putShort, length_putShort])
  exact ⟨putShort_inj first, second⟩

/-- **A tag comes back** just when it has a VLAN and no drop eligible bit, and the payload comes back
from its own class. -/
theorem tag_kept_iff (frame : Frame) (tci : Short) (tagged : frame.tag = some tci) (array : frame.bytes.length < 2 ^ 31)
    (this : Ethernet) :
    frame.Kept this ↔ tci &&& 0x1000 = 0 ∧ tci &&& 0x0fff ≠ 0 ∧ frame.PayloadKept this := by
  have wellFormed : frame.WellFormed := by
    intro untagged
    rw [tagged] at untagged
    cases untagged
  have long : frame.bytes.length = 18 + frame.payload.length := by
    rw [Frame.bytes, List.length_append, length_frame_header, length_tagBytes, if_neg (by simp [tagged])]
  have decodes := deserialize_frame wellFormed (by omega : 16 < frame.bytes.length) this
  constructor
  · rintro ⟨packet, data, packet', touch, ok, encoded, same⟩
    cases decodes.symm.trans ok
    rcases readPayload_cases frame.etherType frame.bytes frame.payload with ⟨decoder, rest, known, decoded⟩ | whole
    · obtain ⟨bytes, payload', touch', first, fits, rfl⟩ :=
        (encoded_iff tagged this known decoded).mp ⟨packet', touch, encoded⟩
      rw [drop_encoded tagged, drop_bytes tagged] at same
      by_cases vlan : tci &&& 0x0fff = 0
      · rw [if_pos vlan, List.nil_append, List.append_assoc] at same
        rw [(append_inj_short same).1] at known
        cases known
      · rw [length_received tagged vlan, if_neg vlan, List.append_assoc, List.append_assoc] at same
        obtain ⟨field, after⟩ := append_inj_short (append_inj_short same).2
        exact ⟨(and_eq_self_iff tci).mp field, vlan, decoder, _, rest, bytes, payload', touch', known, decoded, first,
          (append_inj_short after).2⟩
    · rw [whole] at encoded
      have longer := length_of_data encoded
      have lengths := congrArg List.length same
      rw [List.length_drop, List.length_drop] at lengths
      omega
  · rintro ⟨clear, vlan, decoder, payload, rest, bytes, payload', touch, known, decoded, first, whole⟩
    have payload_eq : Ethernet.readPayload frame.etherType frame.bytes frame.payload = payload := by
      rw [Ethernet.readPayload, known]
      simp only [decoded]
    have length := length_received tagged vlan this frame.destination frame.source (bytes.getD [])
    have total := congrArg List.length whole
    rw [List.length_append] at total
    obtain ⟨packet', touch', encoded⟩ := (encoded_iff tagged this known decoded).mpr
      ⟨bytes, payload', touch, first, by omega, rfl⟩
    rw [payload_eq] at decodes
    refine ⟨_, _, packet', touch', decodes, encoded, ?_⟩
    rw [drop_encoded tagged, drop_bytes tagged, if_neg vlan, (and_eq_self_iff tci).mpr clear, length, whole]

/-- An ARP request with a tag. -/
def arpFrame (tci : Short) : Frame :=
  { destination := ⟨[255, 255, 255, 255, 255, 255], rfl⟩, source := ⟨[0, 0, 0, 0, 0, 2], rfl⟩, tag := some tci,
    etherType := TYPE_ARP,
    payload := [0, 1, 8, 0, 6, 4, 0, 1] ++ [0, 0, 0, 0, 0, 2] ++ [10, 0, 0, 2] ++ [0, 0, 0, 0, 0, 0] ++ [10, 0, 0, 1] }

/-- Priority 3 and VLAN 5. -/
theorem tag_kept_iff_arp : (arpFrame 0x6005).Kept .new :=
  (tag_kept_iff (arpFrame 0x6005) 0x6005 rfl (by decide) .new).mpr
    ⟨by decide, by decide, ARP.deserialize, _, _, _, _, _, rfl, rfl, rfl, rfl⟩

/-- The same with the drop eligible bit. -/
theorem drop_eligible_lost : ¬ ∀ (frame : Frame) (tci : Short), frame.tag = some tci → frame.bytes.length < 2 ^ 31 →
    frame.Kept .new := by
  intro kept
  obtain ⟨packet, data, packet', touch, ok, encoded, same⟩ := kept (arpFrame 0x7005) 0x7005 rfl (by decide)
  cases ok
  cases encoded
  exact absurd same (by decide)

end CodeClips.Packet
