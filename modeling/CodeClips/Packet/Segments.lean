import CodeClips.Packet.ComesBack

/-!
# `TCP` segments and their options

`setOptions` takes any number of bytes and counts the words of the header with them; `serialize`
fills the last word with zeros, which stay with the options when they are deserialized. The length
of a segment is an `int`, and with it the segment comes back.
-/

namespace CodeClips.Packet
open ByteBuffer

/-- The words are counted in an `int`, of which a byte is kept. -/
def TCP.setOptions (this : TCP) (options : Option (List Byte)) : Java TCP := do
  let bytes ← nonNull options
  pure { this with
    options := options
    dataOffset := ((20 + BitVec.ofNat 32 bytes.length + 3).sshiftRight 2).setWidth 8 }

/-- The options of a segment: none, with the data offset at its default or not set, or those that
`setOptions` was given, which fit the header. -/
def TCP.Given (this : TCP) (options : List Byte) : Prop :=
  (this.options = none ∧ options = [] ∧ (this.dataOffset = 0 ∨ this.dataOffset = 5)) ∨
    options.length ≤ 40 ∧ ∃ before : TCP, before.setOptions (some options) = .ok this

/-- Zeros up to a multiple of 4. -/
def padded (options : List Byte) : List Byte := options ++ List.replicate ((4 - options.length % 4) % 4) 0

theorem length_padded (options : List Byte) : (padded options).length = (options.length + 3) / 4 * 4 := by
  rw [padded, List.length_append, List.length_replicate]
  omega

/-- The fields that come back, with what becomes of the options. -/
structure TCP.Kept (this that : TCP) (options : List Byte) : Prop where
  sourcePort : that.sourcePort = this.sourcePort
  destinationPort : that.destinationPort = this.destinationPort
  sequence : that.sequence = this.sequence
  acknowledge : that.acknowledge = this.acknowledge
  flags : that.flags = this.flags
  windowSize : that.windowSize = this.windowSize
  urgentPointer : that.urgentPointer = this.urgentPointer
  dataOffset : that.dataOffset.toNat = 5 + (options.length + 3) / 4
  options_eq : that.options = if options = [] then none else some (padded options)

/-- The packet before its payload is serialized. -/
def TCP.prepared (this : TCP) : TCP := { this with dataOffset := if this.dataOffset = 0 then 5 else this.dataOffset }

/-- The payload is serialized to these bytes, and a payload of `null` has none. -/
def Carries (parent : Layer) (payload : IPacket) (bytes : List Byte) : Prop :=
  ∃ payloadData sent touch, serialize (some parent) payload = .ok (payloadData, sent, touch) ∧ required sent payloadData = .ok bytes

/-- Serialized and deserialized again, the segment has its fields, its options with their padding, and the bytes of its
payload. -/
def SegmentComesBack (parent : Option Layer) (this : TCP) (payload : IPacket) (options bytes : List Byte) : Prop :=
  ∃ data packet touch that rest, serialize parent (.tcp this :: payload) = .ok (some data, packet, touch) ∧
    TCP.deserialize.run data = .ok ([.tcp that, .data { data := some bytes }], rest) ∧ this.Kept that options

section Segment
variable {parent : Option Layer} {this : TCP} {payload : IPacket} {options bytes : List Byte}

/-- The data offset that a segment is sent with. -/
theorem prepared_dataOffset (given : this.Given options) : options.length ≤ 40 ∧
    this.prepared.dataOffset = BitVec.ofNat 8 (5 + (options.length + 3) / 4) ∧ (options ≠ [] → this.options = some options) := by
  have words : ∀ n < 41, ((20 + BitVec.ofNat 32 n + 3).sshiftRight 2).setWidth 8 = BitVec.ofNat 8 (5 + (n + 3) / 4) ∧
      BitVec.ofNat 8 (5 + (n + 3) / 4) ≠ 0 := by decide
  rcases given with ⟨absent, rfl, zero | five⟩ | ⟨short, before, set⟩
  · refine ⟨Nat.zero_le 40, ?_, fun present => absurd rfl present⟩
    rw [TCP.prepared, if_pos zero]
    rfl
  · refine ⟨Nat.zero_le 40, ?_, fun present => absurd rfl present⟩
    rw [TCP.prepared, five]
    rfl
  · cases set
    obtain ⟨word, notZero⟩ := words options.length (Nat.lt_succ_of_le short)
    refine ⟨short, ?_, fun _ => rfl⟩
    simp only [TCP.prepared, word, if_neg notZero]

/-- The words of the header are those of the padded options. -/
theorem toInt_dataOffset (given : this.Given options) : this.prepared.dataOffset.toInt * 4 = 20 + (padded options).length ∧
    this.prepared.dataOffset.toNat = 5 + (options.length + 3) / 4 ∧ this.prepared.dataOffset &&& 0xf = this.prepared.dataOffset := by
  have small : ∀ n < 11, (BitVec.ofNat 8 (5 + n)).toInt = 5 + n ∧ (BitVec.ofNat 8 (5 + n)).toNat = 5 + n ∧
      BitVec.ofNat 8 (5 + n) &&& 0xf = BitVec.ofNat 8 (5 + n) := by decide
  obtain ⟨short, offset, -⟩ := prepared_dataOffset given
  obtain ⟨value, count, four⟩ := small ((options.length + 3) / 4) (by omega)
  rw [offset, length_padded]
  refine ⟨?_, count, four⟩
  rw [value]
  push_cast
  ring

theorem default_iff (given : this.Given options) : 5 < this.prepared.dataOffset.toInt ↔ options ≠ [] := by
  have words := (toInt_dataOffset given).1
  rw [length_padded] at words
  rw [← List.length_pos_iff]
  omega

theorem optionBytes_given (given : this.Given options) : this.prepared.optionBytes = .ok (padded options) := by
  have words := (toInt_dataOffset given).1
  rw [length_padded] at words
  rw [TCP.optionBytes]
  by_cases empty : options = []
  · rw [if_neg (fun more => (default_iff given).mp more empty), empty]
    rfl
  · have set : this.prepared.options = some options := (prepared_dataOffset given).2.2 empty
    rw [if_pos ((default_iff given).mpr empty), set]
    have padding : (this.prepared.dataOffset.toInt * 4 - 20 - options.length).toNat = (4 - options.length % 4) % 4 := by omega
    change Except.ok (options ++ List.replicate (this.prepared.dataOffset.toInt * 4 - 20 - options.length).toNat 0) = _
    rw [padding]
    rfl

/-- The packet as its own part is serialized. -/
def TCP.touched (this : TCP) (touch : Touch) : TCP :=
  { this.prepared with checksum := if touch.resetChecksum then 0 else this.checksum }

theorem total_of_serialize {data : Option (List Byte)} {packet : IPacket} {touch : Touch} (given : this.Given options)
    (carried : Carries (.tcp this.prepared) payload bytes) (ok : serialize parent (.tcp this :: payload) = .ok (data, packet, touch)) :
    20 + (padded options).length + bytes.length < 2 ^ 31 := by
  obtain ⟨payloadData, sent, inner, first, required_eq⟩ := carried
  obtain ⟨payloadData', sent', inner', layer', own, first', second, -⟩ := serialize_cons_ok rfl ok
  cases first.symm.trans first'
  obtain ⟨bytes', required_eq', more⟩ := bind_eq_ok second
  cases required_eq.symm.trans required_eq'
  obtain ⟨⟨data', this'⟩, encoded, -⟩ := bind_eq_ok more
  obtain ⟨sourcePort, destinationPort, options', fits, -⟩ := tcp_serialize_iff.mp encoded
  have same : Except.ok options' = .ok (padded options) := fits.options_eq.symm.trans (optionBytes_given given)
  cases same
  exact fits.total

/-- `serialize` returns where the array has place. -/
theorem serialize_segment {sourcePort destinationPort : TransportPort} {sent : IPacket} {payloadData : Option (List Byte)}
    {touch : Touch} (fits : (this.touched touch).Fits bytes sourcePort destinationPort options)
    (first : serialize (some (.tcp this.prepared)) payload = .ok (payloadData, sent, touch))
    (required_eq : required sent payloadData = .ok bytes) (parent : Option Layer) :
    ∃ packet touch', serialize parent (.tcp this :: payload) =
      .ok (some (((this.touched touch).written parent bytes sourcePort destinationPort options).header sourcePort destinationPort ++
        options ++ bytes), packet, touch') := by
  have own : ((Layer.tcp this).prepare.touch touch).serialize parent sent payloadData =
      .ok (some (((this.touched touch).written parent bytes sourcePort destinationPort options).header sourcePort destinationPort ++
          options ++ bytes),
        .tcp ((this.touched touch).written parent bytes sourcePort destinationPort options),
        { Touch.none with protocol := some IpProtocol.TCP }) := by
    change (required sent payloadData >>= fun bytes => (this.touched touch).serialize parent bytes >>= fun result =>
      pure (some result.1, Layer.tcp result.2, { Touch.none with protocol := some IpProtocol.TCP })) = _
    rw [required_eq]
    change (this.touched touch).serialize parent bytes >>= _ = _
    rw [tcp_serialize_ok fits parent]
    rfl
  exact ⟨_, _, serialize_cons rfl first own⟩

theorem flags_low (flags : this.flags.toNat ≤ 511) : this.flags &&& 0x1ff = this.flags := by
  apply BitVec.eq_of_toNat_eq
  rw [toNat_and_mask this.flags 9 rfl]
  omega

/-- **Which segments come back**: with both ports, flags within their width and at most 40 bytes of options, those
whose bytes an array has place for. -/
theorem segment_comesBack_iff {sourcePort destinationPort : TransportPort} (source : this.sourcePort = some sourcePort)
    (destination : this.destinationPort = some destinationPort) (flags : this.flags.toNat ≤ 511)
    (given : this.Given options) (carried : Carries (.tcp this.prepared) payload bytes) (parent : Option Layer) :
    SegmentComesBack parent this payload options bytes ↔ 20 + (padded options).length + bytes.length < 2 ^ 31 := by
  constructor
  · rintro ⟨data, packet, touch, -, -, ok, -⟩
    exact total_of_serialize given carried ok
  · intro total
    obtain ⟨payloadData, sent, inner, first, required_eq⟩ := carried
    obtain ⟨words, count, four⟩ := toInt_dataOffset given
    have fits : (this.touched inner).Fits bytes sourcePort destinationPort (padded options) :=
      ⟨source, destination, optionBytes_given given, words, total⟩
    obtain ⟨packet, touch, ok⟩ := serialize_segment fits first required_eq parent
    have decoded := @run_segment ((this.touched inner).written parent bytes sourcePort destinationPort (padded options)) sourcePort
      destinationPort (padded options) source destination words four (flags_low flags) bytes
    refine ⟨_, packet, touch, _, _, ok, decoded, rfl, rfl, rfl, rfl, rfl, rfl, rfl, count, ?_⟩
    change (if 5 < this.prepared.dataOffset.toInt then some (padded options) else none) = _
    rw [if_congr (default_iff given) rfl rfl, ite_not]

end Segment

def segment (options : List Byte) : TCP :=
  { sourcePort := some 0x1f90, destinationPort := some 0xc000, sequence := 0xfffffff0, acknowledge := 7,
    dataOffset := ((20 + BitVec.ofNat 32 options.length + 3).sshiftRight 2).setWidth 8, flags := 0x1ff, windowSize := 0xffff,
    checksum := 0, urgentPointer := 0, options := some options }

theorem given_segment {options : List Byte} (short : options.length ≤ 40) : (segment options).Given options :=
  Or.inr ⟨short, segment [], rfl⟩

theorem carries_data (parent : Layer) (bytes : List Byte) : Carries parent [.data { data := some bytes }] bytes :=
  ⟨_, _, _, rfl, rfl⟩

/-- Three bytes of options are padded to a word. -/
theorem segment_comesBack_padded : SegmentComesBack none (segment [2, 4, 5]) [.data { data := some [1, 2, 3] }] [2, 4, 5] [1, 2, 3] :=
  (segment_comesBack_iff rfl rfl (by decide) (given_segment (by decide)) (carries_data _ _) none).mpr (by decide)

/-- With a payload of 2147483628 bytes the length of the segment is negative as an `int`. -/
theorem segment_too_long : ¬ ∀ (parent : Option Layer) (this : TCP) (payload : IPacket) (options bytes : List Byte),
    this.sourcePort ≠ none → this.destinationPort ≠ none → this.flags.toNat ≤ 511 → this.Given options →
    Carries (.tcp this.prepared) payload bytes → bytes.length < 2 ^ 31 → SegmentComesBack parent this payload options bytes := by
  intro comesBack
  have length : (List.replicate 2147483628 (0 : Byte)).length = 2147483628 := List.length_replicate
  have given : (segment []).Given [] := given_segment (Nat.zero_le 40)
  have carried := carries_data (.tcp (segment []).prepared) (List.replicate 2147483628 0)
  obtain ⟨data, packet, touch, -, -, ok, -⟩ := comesBack none (segment []) _ [] _ (by decide) (by decide) (by decide) given carried
    (by omega)
  have total := total_of_serialize given carried ok
  omega

end CodeClips.Packet
