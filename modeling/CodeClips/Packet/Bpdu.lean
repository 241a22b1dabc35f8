import CodeClips.Packet.SerializeSpec

/-!
# `BPDU`

The decoder gives the start of the frame to `LLC` and then reads its own fields from the start as
well, so that they hold what is three bytes before them; of the identifiers it reads six bytes of
eight. `serialize_deserialize_configuration` is what is put for a configuration that has been read.
-/

namespace CodeClips.Packet
open ByteBuffer

/-- `ByteBuffer.wrap(data, offset, length)`. -/
def wrap (data : List Byte) (offset length : Nat) : Java (List Byte) :=
  if data.length < offset + length then .error .indexOutOfBounds else .ok (slice data offset length)

/-! ## `LLC` -/

structure LLC where
  dsap : Byte
  ssap : Byte
  ctrl : Byte
  deriving DecidableEq

def LLC.serialize (this : LLC) : Java (List Byte) := allocate 3 [this.dsap, this.ssap, this.ctrl]

def LLC.read : ByteBuffer LLC := do
  let dsap ← ByteBuffer.get
  let ssap ← ByteBuffer.get
  let ctrl ← ByteBuffer.get
  pure { dsap := dsap, ssap := ssap, ctrl := ctrl }

def LLC.deserialize (data : List Byte) (offset length : Nat) : Java LLC := do
  let bytes ← wrap data offset length
  let (llc, _) ← LLC.read.run bytes
  pure llc

/-! ## `BPDU` -/

inductive BPDUType where
  | config
  | topologyChange

/-- The array of an identifier is never replaced. -/
structure BridgeId where
  bytes : List Byte
  length_eq : bytes.length = 8
  deriving DecidableEq

/-- `new byte[8]`. -/
def BridgeId.new : BridgeId := { bytes := List.replicate 8 0, length_eq := rfl }

/-- `bb.get(id, 0, 6)`. -/
def BridgeId.get (id : BridgeId) : ByteBuffer BridgeId := fun input =>
  if enough : 6 ≤ input.length then
    .ok ({ bytes := blit id.bytes 0 (input.take 6)
           length_eq := by
             rw [length_blit (by rw [List.length_take_of_le enough, id.length_eq]; decide), id.length_eq] }, input.drop 6)
  else .error .bufferUnderflow

structure BPDU where
  llcHeader : LLC
  protocolId : Short
  version : Byte
  type : Byte
  flags : Byte
  rootBridgeId : BridgeId
  rootPathCost : BitVec 32
  senderBridgeId : BridgeId
  portId : Short
  messageAge : Short
  maxAge : Short
  helloTime : Short
  forwardDelay : Short
  deriving DecidableEq

def BPDU.new (type : BPDUType) : BPDU :=
  { llcHeader := { dsap := 0x42, ssap := 0x42, ctrl := 0x03 }
    protocolId := 0
    version := 0
    type := match type with
      | .config => 0x0
      | .topologyChange => 0x80
    flags := 0
    rootBridgeId := .new
    rootPathCost := 0
    senderBridgeId := .new
    portId := 0
    messageAge := 0
    maxAge := 0
    helloTime := 0
    forwardDelay := 0 }

/-- What only a configuration has. -/
def BPDU.configBytes (this : BPDU) : List Byte :=
  [this.flags] ++ this.rootBridgeId.bytes ++ putInt this.rootPathCost ++ this.senderBridgeId.bytes ++
    putShort this.portId ++ putShort this.messageAge ++ putShort this.maxAge ++ putShort this.helloTime ++
    putShort this.forwardDelay

def BPDU.serialize (this : BPDU) : Java (List Byte) := do
  let llc ← this.llcHeader.serialize
  let head := llc ++ putShort this.protocolId ++ [this.version, this.type]
  if this.type = 0x0 then allocate 38 (head ++ this.configBytes) else allocate 7 head

/-- The fields that only a configuration has keep their values for the other type. -/
def BPDU.read (this : BPDU) : ByteBuffer BPDU := do
  let protocolId ← getShort
  let version ← ByteBuffer.get
  let type ← ByteBuffer.get
  let this := { this with protocolId := protocolId, version := version, type := type }
  if type = 0x0 then
    let flags ← ByteBuffer.get
    let rootBridgeId ← this.rootBridgeId.get
    let rootPathCost ← getInt
    let senderBridgeId ← this.senderBridgeId.get
    let portId ← getShort
    let messageAge ← getShort
    let maxAge ← getShort
    let helloTime ← getShort
    let forwardDelay ← getShort
    pure { this with
      flags := flags, rootBridgeId := rootBridgeId, rootPathCost := rootPathCost, senderBridgeId := senderBridgeId,
      portId := portId, messageAge := messageAge, maxAge := maxAge, helloTime := helloTime,
      forwardDelay := forwardDelay }
  else pure this

/-- The buffer of `LLC` is another one, and does not advance this one. -/
def BPDU.deserialize (this : BPDU) (data : List Byte) (offset length : Nat) : Java BPDU := do
  let bytes ← wrap data offset length
  let llcHeader ← LLC.deserialize data offset 3
  let (this, _) ← ({ this with llcHeader := llcHeader } : BPDU).read.run bytes
  pure this

/-! ## Configurations -/

/-- The frame body of a configuration: the `LLC` header, a protocol, version and type of 0, and
31 bytes with the flags, the identifiers, the cost and the timers. -/
structure BPDU.Configuration (bytes : List Byte) : Prop where
  length_eq : bytes.length = 38
  head : bytes.take 7 = [0x42, 0x42, 0x03, 0, 0, 0, 0]

/-- The packet that is read comes back, with its identifiers. -/
def BPDU.RoundTrip (this : BPDU) (bytes : List Byte) : Prop :=
  ∃ read : BPDU, this.deserialize bytes 0 bytes.length = .ok read ∧ read.serialize = .ok bytes ∧
    read.rootBridgeId.bytes = slice bytes 8 8 ∧ read.senderBridgeId.bytes = slice bytes 20 8

theorem exists_readsAt_bridgeId (id : BridgeId) {bytes : List Byte} {off : Nat} (inside : off + 6 ≤ bytes.length) :
    ∃ id' : BridgeId, ReadsAt id.get bytes off 6 id' ∧ id'.bytes = slice bytes off 6 ++ id.bytes.drop 6 := by
  have enough : 6 ≤ (bytes.drop off).length := by
    rw [List.length_drop]
    omega
  have six : ((bytes.drop off).take 6).length = 6 := List.length_take_of_le enough
  refine ⟨⟨blit id.bytes 0 ((bytes.drop off).take 6), ?_⟩, ?_, ?_⟩
  · rw [length_blit (by rw [six, id.length_eq]; decide), id.length_eq]
  · show BridgeId.get id (bytes.drop off) = _
    rw [BridgeId.get, dif_pos enough, List.drop_drop]
  · show blit id.bytes 0 ((bytes.drop off).take 6) = _
    rw [blit_zero, six, slice]

theorem llc_of_configuration {bytes : List Byte} (configuration : BPDU.Configuration bytes) :
    LLC.deserialize bytes 0 3 = .ok { dsap := 0x42, ssap := 0x42, ctrl := 0x03 } := by
  have start : slice bytes 0 3 = [0x42, 0x42, 0x03] := by
    have head := congrArg (List.take 3) configuration.head
    rwa [List.take_take] at head
  rw [LLC.deserialize, wrap, if_neg (by rw [configuration.length_eq]; decide), start]
  rfl

/-- What is read of a configuration, from the start of the frame. -/
def BPDU.readFrom (bytes : List Byte) (rootBridgeId senderBridgeId : BridgeId) : BPDU :=
  { llcHeader := { dsap := 0x42, ssap := 0x42, ctrl := 0x03 }
    protocolId := shortAt bytes 0
    version := byteAt bytes 2
    type := byteAt bytes 3
    flags := byteAt bytes 4
    rootBridgeId := rootBridgeId
    rootPathCost := intAt bytes 11
    senderBridgeId := senderBridgeId
    portId := shortAt bytes 21
    messageAge := shortAt bytes 23
    maxAge := shortAt bytes 25
    helloTime := shortAt bytes 27
    forwardDelay := shortAt bytes 29 }

section Body
variable {bytes : List Byte} {root sender : BridgeId}

/-- The type that is read is the first byte of the protocol. -/
theorem type_of_configuration (configuration : BPDU.Configuration bytes) : byteAt bytes 3 = 0x0 := by
  have head := congrArg (fun head => head.getD 3 0) configuration.head
  rwa [List.getD_eq_getElem?_getD, List.getElem?_take_of_lt (by decide)] at head

theorem run_read (configuration : BPDU.Configuration bytes) (this : BPDU)
    (readRoot : ReadsAt this.rootBridgeId.get bytes 5 6 root)
    (readSender : ReadsAt this.senderBridgeId.get bytes 15 6 sender) :
    (BPDU.read { this with llcHeader := { dsap := 0x42, ssap := 0x42, ctrl := 0x03 } }).run bytes =
      .ok (.readFrom bytes root sender, bytes.drop 31) := by
  have length := configuration.length_eq
  show StateT.run _ (bytes.drop 0) = _
  rw [BPDU.read, (readsAt_getShort (by omega)).run_bind, (readsAt_get (by omega)).run_bind,
    (readsAt_get (by omega)).run_bind]
  dsimp only
  rw [if_pos (type_of_configuration configuration), (readsAt_get (by omega)).run_bind, readRoot.run_bind,
    (readsAt_getInt (by omega)).run_bind, readSender.run_bind, (readsAt_getShort (by omega)).run_bind,
    (readsAt_getShort (by omega)).run_bind, (readsAt_getShort (by omega)).run_bind,
    (readsAt_getShort (by omega)).run_bind, (readsAt_getShort (by omega)).run_bind]
  rfl

theorem deserialize_configuration (configuration : BPDU.Configuration bytes) (this : BPDU) :
    ∃ root sender : BridgeId, root.bytes = slice bytes 5 6 ++ this.rootBridgeId.bytes.drop 6 ∧
      sender.bytes = slice bytes 15 6 ++ this.senderBridgeId.bytes.drop 6 ∧
      this.deserialize bytes 0 bytes.length = .ok (.readFrom bytes root sender) := by
  have length := configuration.length_eq
  have whole : wrap bytes 0 bytes.length = .ok bytes := by
    rw [wrap, if_neg (by omega), slice, List.drop_zero, List.take_length]
  obtain ⟨root, readRoot, root_eq⟩ := @exists_readsAt_bridgeId this.rootBridgeId bytes 5 (by omega)
  obtain ⟨sender, readSender, sender_eq⟩ :=
    @exists_readsAt_bridgeId this.senderBridgeId bytes 15 (by omega)
  refine ⟨root, sender, root_eq, sender_eq, ?_⟩
  rw [BPDU.deserialize, whole, llc_of_configuration configuration]
  simp only [bind, Except.bind, run_read configuration this readRoot readSender]
  rfl

/-- The fields are put one after the other as they have been read. -/
theorem serialize_readFrom (configuration : BPDU.Configuration bytes) (root sender : BridgeId) :
    (BPDU.readFrom bytes root sender).serialize =
      .ok ([0x42, 0x42, 0x03] ++ slice bytes 0 5 ++ root.bytes ++ slice bytes 11 4 ++ sender.bytes ++
        slice bytes 21 10) := by
  have length := configuration.length_eq
  have head : putShort (shortAt bytes 0) ++ [byteAt bytes 2, byteAt bytes 3] ++ [byteAt bytes 4] = slice bytes 0 5 := by
    rw [putShort_shortAt (by omega), slice_add bytes 0 2 3, slice_add bytes 2 1 2, slice_add bytes 3 1 1,
      ← byteAt_eq_slice (by omega), ← byteAt_eq_slice (by omega), ← byteAt_eq_slice (by omega)]
    simp
  have timers : putShort (shortAt bytes 21) ++ putShort (shortAt bytes 23) ++ putShort (shortAt bytes 25) ++
      putShort (shortAt bytes 27) ++ putShort (shortAt bytes 29) = slice bytes 21 10 := by
    rw [putShort_shortAt (by omega), putShort_shortAt (by omega), putShort_shortAt (by omega),
      putShort_shortAt (by omega), putShort_shortAt (by omega), ← slice_add, ← slice_add, ← slice_add, ← slice_add]
  have put : [0x42, 0x42, 0x03] ++ putShort (shortAt bytes 0) ++ [byteAt bytes 2, byteAt bytes 3] ++
      (BPDU.readFrom bytes root sender).configBytes =
        [0x42, 0x42, 0x03] ++ slice bytes 0 5 ++ root.bytes ++ slice bytes 11 4 ++ sender.bytes ++ slice bytes 21 10 := by
    rw [← head, ← timers, ← putInt_intAt (by omega)]
    simp [BPDU.configBytes, BPDU.readFrom]
  have exact : ([0x42, 0x42, 0x03] ++ slice bytes 0 5 ++ root.bytes ++ slice bytes 11 4 ++ sender.bytes ++
      slice bytes 21 10).length = 38 := by
    simp [root.length_eq, sender.length_eq, length]
  have config : (BPDU.readFrom bytes root sender).type = 0x0 := type_of_configuration configuration
  have llc : (BPDU.readFrom bytes root sender).llcHeader.serialize = .ok [0x42, 0x42, 0x03] := allocate_exact rfl
  rw [BPDU.serialize, llc]
  show (if (BPDU.readFrom bytes root sender).type = 0x0 then
    allocate 38 ([0x42, 0x42, 0x03] ++ putShort (shortAt bytes 0) ++ [byteAt bytes 2, byteAt bytes 3] ++
      (BPDU.readFrom bytes root sender).configBytes) else _) = _
  rw [if_pos config, put]
  apply allocate_exact
  rw [exact]
  rfl

/-- What is put for a configuration that has been read: the header twice, and after the six bytes
of an identifier the last two that the receiver had. -/
theorem serialize_deserialize_configuration (configuration : BPDU.Configuration bytes) (this : BPDU) :
    (this.deserialize bytes 0 bytes.length >>= BPDU.serialize) =
      .ok ([0x42, 0x42, 0x03] ++ slice bytes 0 11 ++ this.rootBridgeId.bytes.drop 6 ++ slice bytes 11 10 ++
        this.senderBridgeId.bytes.drop 6 ++ slice bytes 21 10) := by
  obtain ⟨root, sender, root_eq, sender_eq, read⟩ := deserialize_configuration configuration this
  rw [read]
  show BPDU.serialize _ = _
  rw [serialize_readFrom configuration, root_eq, sender_eq, slice_add bytes 0 5 6, slice_add bytes 11 4 6]
  simp

/-- The protocol that is put is the service access points: no configuration comes back. -/
theorem bpdu_not_roundTrip (this : BPDU) (configuration : BPDU.Configuration bytes) : ¬ this.RoundTrip bytes := by
  rintro ⟨read, decoded, encoded, -⟩
  have put := serialize_deserialize_configuration configuration this
  rw [decoded] at put
  have same := Except.ok.inj (encoded.symm.trans put)
  have length := configuration.length_eq
  have head : slice bytes 0 3 = [0x42, 0x42, 0x03] := by
    have head := congrArg (List.take 3) configuration.head
    rwa [List.take_take] at head
  have protocol : byteAt bytes 3 = 0x42 := by
    rw [same, slice_add bytes 0 3 8, head]
    rfl
  rw [type_of_configuration configuration] at protocol
  revert protocol
  decide

end Body

/-- A root that says of itself that it is one. -/
def rootConfiguration : List Byte :=
  [0x42, 0x42, 0x03, 0, 0, 0, 0, 0, 0x80, 1, 0, 0x1c, 0xe, 0x87, 0x78, 0, 0, 0, 0, 0, 0x80, 1, 0, 0x1c, 0xe, 0x87, 0x78, 0,
    0x80, 4, 0, 0, 0x14, 0, 2, 0, 0xf, 0]

theorem bpdu_not_roundTrip_root : ¬ (BPDU.new .config).RoundTrip rootConfiguration :=
  bpdu_not_roundTrip (BPDU.new .config) ⟨rfl, rfl⟩

/-- Even of zeros after the header the bytes that are put are others. -/
theorem bpdu_not_roundTrip_zeros : ¬ (BPDU.new .config).RoundTrip ([0x42, 0x42, 0x03] ++ List.replicate 35 0) := by
  have put : ((BPDU.new .config).deserialize ([0x42, 0x42, 0x03] ++ List.replicate 35 0) 0 38 >>= BPDU.serialize) =
      .ok ([0x42, 0x42, 0x03, 0x42, 0x42, 0x03] ++ List.replicate 32 0) := by decide +kernel
  rintro ⟨read, decoded, encoded, -⟩
  change (BPDU.new .config).deserialize _ 0 38 = .ok read at decoded
  rw [decoded] at put
  have same := Except.ok.inj (encoded.symm.trans put)
  revert same
  decide

end CodeClips.Packet
