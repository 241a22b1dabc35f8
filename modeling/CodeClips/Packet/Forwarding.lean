import CodeClips.Packet.Clone

/-!
# `ICMP` messages that are forwarded

What a class makes of bytes that it has decoded itself. `ICMP` takes the bytes after its checksum
for padding where the type has any, and neither keeps nor puts what they hold.
-/

namespace CodeClips.Packet

/-- `new …().deserialize(bytes, 0, bytes.length).serialize()`. -/
def forward (parent : Option Layer) (layer : Layer) (bytes : List Byte) : Java (Option (List Byte)) := do
  let packet ← layer.deserialize bytes
  let (data, _, _) ← serialize parent packet
  pure data

/-! ## `ICMP` -/

/-- The parts of a message, whose padding is of any content. -/
structure ICMP.Parts (this : ICMP) (padding payload : List Byte) (bytes : List Byte) : Prop where
  bytes_eq : bytes = [this.icmpType, this.icmpCode] ++ putShort this.checksum ++ padding ++ payload
  length_eq : padding.length = this.padding

theorem padding_le_four (this : ICMP) : this.padding ≤ 4 := by
  rw [ICMP.padding, ICMP.paddingMap]
  split_ifs <;> decide

theorem exists_parts {bytes : List Byte} (enough : 8 ≤ bytes.length) :
    ∃ this padding payload, ICMP.Parts this padding payload bytes := by
  obtain ⟨icmpType, icmpCode, b₁, b₂, rest, rfl⟩ :
      ∃ icmpType icmpCode b₁ b₂ rest, bytes = icmpType :: icmpCode :: b₁ :: b₂ :: rest := by
    rcases bytes with _ | ⟨icmpType, _ | ⟨icmpCode, _ | ⟨b₁, _ | ⟨b₂, rest⟩⟩⟩⟩ <;>
      first | exact ⟨_, _, _, _, _, rfl⟩ | simp at enough
  obtain ⟨checksum, checksum_eq⟩ := exists_putShort b₁ b₂
  let this : ICMP := { icmpType := icmpType, icmpCode := icmpCode, checksum := checksum }
  have most := padding_le_four this
  simp only [List.length_cons] at enough
  refine ⟨this, rest.take this.padding, rest.drop this.padding, ?_, List.length_take_of_le (by omega)⟩
  rw [List.append_assoc, List.take_append_drop, ← checksum_eq]
  rfl

theorem run_icmp_parts {this : ICMP} {padding payload bytes : List Byte} (parts : this.Parts padding payload bytes) :
    ICMP.deserialize.run bytes = .ok ([.icmp this, .data { data := some payload }], []) := by
  have sequence : bytes = [this.icmpType] ++ ([this.icmpCode] ++ (putShort this.checksum ++ (padding ++ payload))) := by
    rw [parts.bytes_eq]
    simp
  have skipped : Reads (Reader.take Throwable.illegalArgument ((ICMP.paddingMap this.icmpType).getD 0)) padding padding :=
    .take Throwable.illegalArgument parts.length_eq
  rw [sequence, ICMP.deserialize, (reads_get this.icmpType).run_bind, (reads_get this.icmpCode).run_bind,
    (reads_getShort this.checksum).run_bind, skipped.run_bind]
  rfl

/-- A checksum that is not 0 is kept. -/
theorem icmp_written_of_ne_zero {this : ICMP} (nonzero : this.checksum ≠ 0) (payload : List Byte) :
    this.written payload = this := by
  rw [ICMP.written, checksumOf, if_neg nonzero]
  rfl

/-- What is forwarded has zeros for the padding. -/
theorem forward_icmp (parent : Option Layer) (receiver : ICMP) {this : ICMP} {padding payload bytes : List Byte}
    (parts : this.Parts padding payload bytes) (nonzero : this.checksum ≠ 0) (array : bytes.length < 2 ^ 31) :
    forward parent (.icmp receiver) bytes = .ok (some (this.header ++ payload)) := by
  have decoded : Layer.deserialize (.icmp receiver) bytes = .ok [.icmp this, .data { data := some payload }] := by
    rw [Layer.deserialize]
    simp only [run_icmp_parts parts]
    rfl
  have total : 4 + this.padding + payload.length < 2 ^ 31 := by
    rw [parts.bytes_eq, List.length_append, List.length_append, List.length_append, length_putShort, parts.length_eq]
      at array
    exact array
  have encoded : this.serialize payload = .ok (this.header ++ payload, this) := by
    apply icmp_serialize_iff.mpr
    exact ⟨total, (icmp_written_of_ne_zero nonzero payload).symm, rfl⟩
  have first : serialize (some (Layer.prepare (.icmp this))) [.data { data := some payload }] =
      .ok (some payload, [.data { data := some payload }], .none) := rfl
  have second : ((Layer.icmp this).prepare.touch .none).serialize parent [.data { data := some payload }] (some payload) =
      .ok (some (this.header ++ payload), .icmp this, { Touch.none with protocol := some IpProtocol.ICMP }) := by
    simp only [Layer.prepare, Layer.touch, Layer.serialize, required, List.cons_ne_nil, if_false, nonNull, bind,
      Except.bind, encoded]
    rfl
  have written := serialize_cons rfl first second
  rw [forward, decoded]
  simp only [bind, Except.bind, written]
  rfl

/-- The message comes back where its padding is zeros. -/
theorem header_append_eq_iff {this : ICMP} {padding payload bytes : List Byte} (parts : this.Parts padding payload bytes) :
    this.header ++ payload = bytes ↔ padding = List.replicate this.padding 0 := by
  rw [parts.bytes_eq, ICMP.header]
  constructor
  · intro same
    exact (List.append_cancel_left (List.append_cancel_right same)).symm
  · rintro zeros
    rw [← zeros]

theorem padding_eq_of_parts {this : ICMP} {padding payload bytes : List Byte} (parts : this.Parts padding payload bytes) :
    padding = (bytes.drop 4).take this.padding := by
  rw [parts.bytes_eq, List.append_assoc, List.drop_left' (by simp), List.take_left' parts.length_eq]

theorem zeros_iff {this : ICMP} {padding payload bytes : List Byte} (parts : this.Parts padding payload bytes) :
    padding = List.replicate this.padding 0 ↔
      (this.icmpType = ICMP.DESTINATION_UNREACHABLE ∨ this.icmpType = ICMP.TIME_EXCEEDED →
        (bytes.drop 4).take 4 = [0, 0, 0, 0]) := by
  rw [padding_eq_of_parts parts]
  by_cases padded : this.icmpType = ICMP.DESTINATION_UNREACHABLE ∨ this.icmpType = ICMP.TIME_EXCEEDED
  · have four : this.padding = 4 := by
      rcases padded with type | type <;> rw [ICMP.padding, type] <;> rfl
    rw [four]
    exact ⟨fun zeros _ => zeros, fun zeros => zeros padded⟩
  · have none : this.padding = 0 := by
      rw [not_or] at padded
      rw [ICMP.padding, ICMP.paddingMap]
      split_ifs <;> first | rfl | exact absurd ‹_› padded.1 | exact absurd ‹_› padded.2
    rw [none]
    exact ⟨fun _ type => absurd type padded, fun _ => rfl⟩

theorem icmpType_of_parts {this : ICMP} {padding payload bytes : List Byte} (parts : this.Parts padding payload bytes) :
    bytes[0]? = some this.icmpType := by
  rw [parts.bytes_eq]
  rfl

theorem checksum_of_parts {this : ICMP} {padding payload bytes : List Byte} (parts : this.Parts padding payload bytes) :
    (bytes.drop 2).take 2 = putShort this.checksum := by
  rw [parts.bytes_eq, List.append_assoc, List.append_assoc, List.drop_left' (by rfl),
    List.take_left' (length_putShort _)]

/-- A message of 8 bytes or more whose checksum is not 0 is forwarded byte for byte, but for what
the types with padding have in theirs. -/
theorem icmp_forwarded_iff (parent : Option Layer) (receiver : ICMP) (bytes : List Byte) (enough : 8 ≤ bytes.length)
    (array : bytes.length < 2 ^ 31) (nonzero : (bytes.drop 2).take 2 ≠ [0, 0]) :
    forward parent (.icmp receiver) bytes = .ok (some bytes) ↔
      (bytes[0]? = some ICMP.DESTINATION_UNREACHABLE ∨ bytes[0]? = some ICMP.TIME_EXCEEDED →
        (bytes.drop 4).take 4 = [0, 0, 0, 0]) := by
  obtain ⟨this, padding, payload, parts⟩ := exists_parts enough
  have checksum : this.checksum ≠ 0 := by
    intro zero
    apply nonzero
    rw [checksum_of_parts parts, zero]
    rfl
  rw [forward_icmp parent receiver parts checksum array, Except.ok.injEq, Option.some.injEq,
    header_append_eq_iff parts, zeros_iff parts, icmpType_of_parts parts, Option.some.injEq, Option.some.injEq]

/-- An echo request of 8 bytes, and a message that a destination is unreachable. -/
theorem icmp_forwarded_echo :
    forward none (.icmp { icmpType := 0, icmpCode := 0, checksum := 0 }) [8, 0, 0xab, 0xcd, 0, 1, 0, 2] =
      .ok (some [8, 0, 0xab, 0xcd, 0, 1, 0, 2]) := by
  apply (icmp_forwarded_iff none _ _ (by decide) (by decide) (by decide)).mpr
  decide

/-- Where a fragment was needed the message has the size of the next link, which is not forwarded. -/
theorem icmp_unreachable_differs :
    ¬ ∀ bytes : List Byte, 8 ≤ bytes.length → bytes.length < 2 ^ 31 → (bytes.drop 2).take 2 ≠ [0, 0] →
      forward none (.icmp { icmpType := 0, icmpCode := 0, checksum := 0 }) bytes = .ok (some bytes) := by
  intro all
  have kept := all [3, 4, 0xab, 0xcd, 0, 0, 5, 0xdc] (by decide) (by decide) (by decide)
  have zeroed : forward none (.icmp { icmpType := 0, icmpCode := 0, checksum := 0 }) [3, 4, 0xab, 0xcd, 0, 0, 5, 0xdc] =
      .ok (some [3, 4, 0xab, 0xcd, 0, 0, 0, 0]) := by decide
  rw [zeroed] at kept
  revert kept
  decide

end CodeClips.Packet
