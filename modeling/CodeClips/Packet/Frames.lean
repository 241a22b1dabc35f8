import CodeClips.Packet.Deserialize
import CodeClips.Packet.SerializeSpec

/-!
# Ethernet frames

What `Ethernet.deserialize` makes of a frame: its header is read whole, unless the array ends in
the tag, and no exception of the payload's class leaves it (`deserialize_returns_iff`).
-/

namespace CodeClips.Packet
open ByteBuffer

/-- A frame on the wire; `tag` is the control field of its 802.1Q tag. -/
structure Frame where
  destination : MacAddress
  source : MacAddress
  tag : Option Short
  etherType : Short
  payload : List Byte

/-- The two bytes of the tag's type are no EtherType of an untagged frame. -/
def Frame.WellFormed (frame : Frame) : Prop := frame.tag = none → frame.etherType ≠ 0x8100

/-- The bytes of the VLAN tag, if there is one. -/
def Frame.tagBytes (frame : Frame) : List Byte :=
  match frame.tag with
  | some tci => putShort 0x8100 ++ putShort tci
  | none => []

/-- What is before the payload. -/
def Frame.header (frame : Frame) : List Byte :=
  frame.destination.bytes ++ frame.source.bytes ++ frame.tagBytes ++ putShort frame.etherType

/-- The frame as it is sent. -/
def Frame.bytes (frame : Frame) : List Byte := frame.header ++ frame.payload

/-- The receiver after the header has been read. -/
def Frame.received (frame : Frame) (this : Ethernet) : Ethernet :=
  let this := { this with
    destinationMACAddress := some frame.destination, sourceMACAddress := some frame.source, etherType := frame.etherType }
  match frame.tag with
  | some tci => { this with priorityCode := (tci.sshiftRight 13 &&& 0x07).setWidth 8, vlanID := tci &&& 0x0fff }
  | none => { this with vlanID := VLAN_UNTAGGED }

/-! ## The header -/

/-- The header has 14 bytes and those of the tag. -/
theorem length_frame_header (frame : Frame) : frame.header.length = 14 + frame.tagBytes.length := by
  simp [Frame.header, frame.destination.length_eq, frame.source.length_eq]
  omega

theorem length_tagBytes (frame : Frame) : frame.tagBytes.length = if frame.tag = none then 0 else 4 := by
  rw [Frame.tagBytes]
  cases frame.tag <;> simp

/-- A hardware address is read as it was written. -/
theorem reads_getMacAddress (mac : MacAddress) : Reads getMacAddress mac.bytes mac := by
  intro rest
  have enough : 6 ≤ (mac.bytes ++ rest).length := by
    rw [List.length_append, mac.length_eq]
    omega
  show getMacAddress (mac.bytes ++ rest) = _
  rw [getMacAddress, dif_pos enough]
  simp only [List.take_left' mac.length_eq, List.drop_left' mac.length_eq]

/-- The header is read back, tag or none. -/
theorem reads_readHeader {frame : Frame} (wellFormed : frame.WellFormed) (this : Ethernet) :
    Reads this.readHeader frame.header (frame.received this) := by
  rw [Frame.header, List.append_assoc, List.append_assoc, Ethernet.readHeader]
  apply (reads_getMacAddress frame.destination).bind
  apply (reads_getMacAddress frame.source).bind
  rw [Frame.received, Frame.tagBytes]
  cases tagged : frame.tag with
  | none =>
    rw [List.nil_append, ← List.append_nil (putShort _)]
    apply (reads_getShort _).bind
    rw [if_neg (wellFormed tagged)]
    exact .pure _
  | some tci =>
    rw [List.append_assoc]
    apply (reads_getShort _).bind
    rw [if_pos rfl]
    apply (reads_getShort _).bind
    exact (reads_getShort _).map _

/-- The frame comes back, with what is decoded of its payload. -/
theorem deserialize_frame {frame : Frame} (wellFormed : frame.WellFormed) (long : 16 < frame.bytes.length)
    (this : Ethernet) :
    this.deserialize frame.bytes 0 frame.bytes.length =
      .ok (some (.ethernet (frame.received this) ::
        Ethernet.readPayload frame.etherType frame.bytes frame.payload)) := by
  have etherType : (frame.received this).etherType = frame.etherType := by
    rw [Frame.received]
    cases frame.tag <;> rfl
  have whole : (frame.bytes.drop (0 : Int).toNat).take ((frame.bytes.length : Int).toNat) = frame.header ++ frame.payload := by
    rw [Int.toNat_natCast, Int.toNat_zero, List.drop_zero, List.take_length, Frame.bytes]
  rw [Ethernet.deserialize, if_neg (by omega), if_neg (by omega), whole, reads_readHeader wellFormed]
  simp only [bind, Except.bind, etherType]
  rfl

/-! ## Every array -/

theorem exists_putShort_append {bytes : List Byte} (long : 2 ≤ bytes.length) :
    ∃ (s : Short) (rest : List Byte), bytes = putShort s ++ rest ∧ rest.length + 2 = bytes.length := by
  match bytes with
  | b₁ :: b₂ :: rest =>
    obtain ⟨s, s_eq⟩ := exists_putShort b₁ b₂
    exact ⟨s, rest, by rw [← s_eq]; rfl, rfl⟩

theorem exists_mac_append {bytes : List Byte} (long : 6 ≤ bytes.length) :
    ∃ (mac : MacAddress) (rest : List Byte), bytes = mac.bytes ++ rest ∧ rest.length + 6 = bytes.length := by
  refine ⟨⟨bytes.take 6, by simp [long]⟩, bytes.drop 6, (List.take_append_drop 6 bytes).symm, ?_⟩
  rw [List.length_drop]
  omega

/-- An array of more than 16 bytes is a frame, or has two addresses, the type of a tag and not
the four bytes after it. -/
theorem frame_or_truncated {data : List Byte} (long : 16 < data.length) :
    (∃ frame : Frame, frame.WellFormed ∧ data = frame.bytes) ∨
      ∃ (destination source : MacAddress) (rest : List Byte),
        data = destination.bytes ++ (source.bytes ++ (putShort 0x8100 ++ rest)) ∧ rest.length = 3 := by
  have six : 6 ≤ data.length := by omega
  obtain ⟨destination, data₁, data_eq, length₁⟩ := exists_mac_append six
  have twelve : 6 ≤ data₁.length := by omega
  obtain ⟨source, data₂, data₁_eq, length₂⟩ := exists_mac_append twelve
  have fourteen : 2 ≤ data₂.length := by omega
  obtain ⟨type, data₃, data₂_eq, length₃⟩ := exists_putShort_append fourteen
  rw [data_eq, data₁_eq, data₂_eq]
  by_cases tagged : type = 0x8100
  · subst tagged
    by_cases short : data₃.length = 3
    · exact Or.inr ⟨destination, source, data₃, rfl, short⟩
    · have sixteen : 2 ≤ data₃.length := by omega
      obtain ⟨tci, data₄, data₃_eq, length₄⟩ := exists_putShort_append sixteen
      have eighteen : 2 ≤ data₄.length := by omega
      obtain ⟨etherType, payload, data₄_eq, -⟩ := exists_putShort_append eighteen
      refine Or.inl ⟨⟨destination, source, some tci, etherType, payload⟩, nofun, ?_⟩
      rw [data₃_eq, data₄_eq]
      simp [Frame.bytes, Frame.header, Frame.tagBytes]
  · refine Or.inl ⟨⟨destination, source, none, type, data₃⟩, fun _ => tagged, ?_⟩
    simp [Frame.bytes, Frame.header, Frame.tagBytes]

/-- Of the tag's four bytes only three are there. -/
theorem deserialize_truncated (this : Ethernet) (destination source : MacAddress) {rest : List Byte}
    (three : rest.length = 3) {data : List Byte}
    (data_eq : data = destination.bytes ++ (source.bytes ++ (putShort 0x8100 ++ rest))) :
    this.deserialize data 0 data.length = .error .bufferUnderflow := by
  have length : data.length = 17 := by
    rw [data_eq]
    simp [destination.length_eq, source.length_eq, three]
  have whole : (data.drop (0 : Int).toNat).take ((data.length : Int).toNat) = data := by
    rw [Int.toNat_natCast, Int.toNat_zero, List.drop_zero, List.take_length]
  have two : 2 ≤ rest.length := by omega
  obtain ⟨tci, last, rest_eq, one⟩ := exists_putShort_append two
  obtain ⟨b, rfl⟩ : ∃ b, last = [b] := List.length_eq_one_iff.mp (by omega)
  have throws : this.readHeader.run data = .error .bufferUnderflow := by
    rw [data_eq, rest_eq, Ethernet.readHeader, (reads_getMacAddress destination).run_bind,
      (reads_getMacAddress source).run_bind, (reads_getShort 0x8100).run_bind, if_pos rfl,
      (reads_getShort tci).run_bind]
    rfl
  rw [Ethernet.deserialize, if_neg (by omega), if_neg (by omega), whole, throws]
  rfl

/-- Two shorts are put as different bytes. -/
theorem putShort_inj {s t : Short} (same : putShort s = putShort t) : s = t := by
  have both := (reads_getShort s).run
  rw [same, (reads_getShort t).run] at both
  cases both
  rfl

/-- The bytes where an untagged frame has its EtherType. -/
theorem slice_type (destination source : MacAddress) (type : Short) (rest : List Byte) :
    slice (destination.bytes ++ (source.bytes ++ (putShort type ++ rest))) 12 2 = putShort type := by
  have addresses : (destination.bytes ++ source.bytes).length = 12 := by
    simp [destination.length_eq, source.length_eq]
  rw [slice, ← List.append_assoc, List.drop_left' addresses, List.take_left' (length_putShort type)]

/-- **No exception leaves the decoder**, whatever it is given and whoever receives it, unless the
array ends in a tag. -/
theorem deserialize_returns_iff (this : Ethernet) (data : List Byte) (long : 16 < data.length) :
    (∃ packet, this.deserialize data 0 data.length = .ok packet) ↔
      ¬ (data.length = 17 ∧ slice data 12 2 = [0x81, 0x00]) := by
  rcases frame_or_truncated long with ⟨frame, wellFormed, rfl⟩ | ⟨destination, source, rest, data_eq, three⟩
  · apply iff_of_true
    · exact ⟨_, deserialize_frame wellFormed long this⟩
    · rintro ⟨length, type⟩
      rw [Frame.bytes, List.length_append, length_frame_header, length_tagBytes] at length
      split_ifs at length with untagged
      · refine wellFormed untagged (putShort_inj (Eq.trans ?_ type))
        rw [← slice_type frame.destination frame.source frame.etherType frame.payload]
        simp [Frame.bytes, Frame.header, Frame.tagBytes, untagged]
      · omega
  · apply iff_of_false
    · rintro ⟨packet, ok⟩
      rw [deserialize_truncated this destination source three data_eq] at ok
      cases ok
    · rw [not_not]
      constructor
      · rw [data_eq]
        simp [destination.length_eq, source.length_eq, three]
      · rw [data_eq]
        exact slice_type destination source 0x8100 rest

/-- The decoder's result for a frame of an unknown EtherType. -/
theorem deserialize_returns_iff_untagged :
    ∃ packet, Ethernet.new.deserialize (List.replicate 17 0) 0 17 = .ok packet :=
  (deserialize_returns_iff .new (List.replicate 17 0) (by decide)).mpr (by decide)

/-- Two addresses, the type of a tag, and three bytes of it. -/
def truncatedTag : List Byte := List.replicate 12 0 ++ [0x81, 0x00, 0, 0, 8]

theorem deserialize_throws : ¬ ∀ (this : Ethernet) (data : List Byte), 16 < data.length →
    ∃ packet, this.deserialize data 0 data.length = .ok packet := by
  intro returns
  obtain ⟨packet, ok⟩ := returns .new truncatedTag (by decide)
  cases ok

end CodeClips.Packet
