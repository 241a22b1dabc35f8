import CodeClips.Lib.Outcome
import CodeClips.Packet.Serialize

/-!
# What `serialize` returns

One lemma for each class of the IP stack. Where it returns, the array is the header with its
length fields and its checksum, the options and the payload, without a byte between or after
them; no length has wrapped.
-/

namespace CodeClips.Packet

theorem nonNull_eq_ok {α : Type} {o : Option α} {a : α} (ok : nonNull o = .ok a) : o = some a := by
  cases o with
  | none => cases ok
  | some b =>
    cases ok
    rfl

theorem nonNull_of_eq_some {α : Type} {o : Option α} {a : α} (given : o = some a) : nonNull o = .ok a := by
  rw [given]
  rfl

theorem eq_ofNat_of_toInt {length : BitVec 32} {n : Nat} (exact : length.toInt = n) : length = BitVec.ofNat 32 n := by
  rw [← BitVec.ofInt_natCast, ← exact, BitVec.ofInt_toInt]

theorem toInt_ofNat_of_lt {n : Nat} (fits : n < 2 ^ 31) : (BitVec.ofNat 32 n).toInt = n := by
  rw [← BitVec.ofInt_natCast, BitVec.toInt_ofInt, Int.bmod_def]
  split_ifs <;> omega

/-! ## The checksum -/

/-- The two bytes at the offset are the checksum, whatever its value. -/
def Places (image : Short → List Byte) (offset : Nat) : Prop :=
  ∃ before after : List Byte, before.length = offset ∧ ∀ checksum, image checksum = before ++ putShort checksum ++ after

/-- The checksum after `serialize`: a 0 is replaced, by that of the bytes with the 0. -/
def checksumOf (checksum : Short) (header : BitVec 32) (covered : List Byte) : Short :=
  if checksum = 0 then fold (header + accumulate covered) else checksum

theorem blit_of_places {image : Short → List Byte} {offset : Nat} (places : Places image offset)
    (checksum checksum' : Short) : blit (image checksum) offset (putShort checksum') = image checksum' := by
  obtain ⟨before, after, rfl, image_eq⟩ := places
  rw [image_eq, image_eq, List.append_assoc, blit_append, List.drop_append_of_le_length (by simp)]
  simp

theorem withChecksum_of_places {image : Short → List Byte} {offset : Nat} (places : Places image offset)
    (checksum : Short) (header : BitVec 32) (covered : Nat) :
    withChecksum checksum header covered offset (image checksum) =
      (image (checksumOf checksum header ((image 0).take covered)),
        checksumOf checksum header ((image 0).take covered)) := by
  rw [withChecksum, checksumOf]
  split_ifs with zero
  · subst zero
    dsimp only
    rw [blit_of_places places]
  · rfl

/-! ## `IPv4` -/

def IPv4.setChecksum (this : IPv4) (checksum : Short) : IPv4 := { this with checksum := checksum }

theorem length_ipv4_header (this : IPv4) : this.header.length = 20 + (this.options.getD []).length := by
  simp [IPv4.header]
  omega

theorem places_ipv4 (this : IPv4) (payload : List Byte) :
    Places (fun checksum => (this.setChecksum checksum).header ++ payload) 10 := by
  refine ⟨[((this.version &&& 0xf) <<< 4) ||| (this.headerLength &&& 0xf), this.diffServ] ++ putShort this.totalLength ++
    putShort this.identification ++
    putShort ((this.flags &&& IPV4_FLAGS_MASK).setWidth 16 <<< IPV4_FLAGS_SHIFT |||
      (this.fragmentOffset &&& IPV4_OFFSET_MASK)) ++
    [this.ttl, this.protocol], putInt this.sourceAddress ++ putInt this.destinationAddress ++
    this.options.getD [] ++ payload, by simp, ?_⟩
  intro checksum
  simp [IPv4.header, IPv4.setChecksum]

/-- The array has place for the header with its options and for the payload. -/
structure IPv4.Fits (this : IPv4) (payload : List Byte) : Prop where
  words : (this.options.getD []).length % 4 = 0
  header : 20 + (this.options.getD []).length < 512
  total : 20 + (this.options.getD []).length + payload.length < 2 ^ 15

/-- The packet after `serialize`. -/
def IPv4.written (this : IPv4) (payload : List Byte) : IPv4 :=
  (this.setLengths payload.length).setChecksum
    (checksumOf this.checksum 0 ((this.setLengths payload.length).setChecksum 0).header)

theorem setLengths_exact {this : IPv4} {payload : List Byte} (fits : this.Fits payload) :
    (this.setLengths payload.length).headerLength.toInt.toNat * 4 = 20 + (this.options.getD []).length ∧
      (this.setLengths payload.length).totalLength.toInt = 20 + (this.options.getD []).length + payload.length := by
  obtain ⟨words, header, total⟩ := fits
  rw [IPv4.setLengths]
  dsimp only
  generalize (this.options.getD []).length = options at *
  have value : (BitVec.ofNat 8 (5 + options / 4)).toInt = 5 + options / 4 := by
    rw [← BitVec.ofInt_natCast, BitVec.toInt_ofInt, Int.bmod_def]
    split_ifs <;> omega
  rw [BitVec.toInt_ofInt, value, Int.bmod_def]
  split_ifs <;> omega

/-- What is put fits only where neither length has wrapped. -/
theorem fits_of_setLengths {this : IPv4} {payload : List Byte}
    (room : 20 + (this.options.getD []).length + payload.length ≤
      (this.setLengths payload.length).totalLength.toInt) : this.Fits payload := by
  have most := BitVec.toInt_lt (x := (this.setLengths payload.length).totalLength)
  rw [IPv4.setLengths] at *
  dsimp only at *
  have bound : (this.options.getD []).length % 4 = 0 ∧ 20 + (this.options.getD []).length < 512 := by
    generalize (this.options.getD []).length = options at *
    have value : (BitVec.ofNat 8 (5 + options / 4)).toInt ≤ 5 + options / 4 ∧
        -128 ≤ (BitVec.ofNat 8 (5 + options / 4)).toInt ∧ (BitVec.ofNat 8 (5 + options / 4)).toInt < 128 := by
      rw [← BitVec.ofInt_natCast, BitVec.toInt_ofInt, Int.bmod_def]
      split_ifs <;> omega
    rw [BitVec.toInt_ofInt, Int.bmod_def] at *
    split_ifs at * <;> omega
  exact ⟨bound.1, bound.2, by omega⟩

/-- What is written where it fits. -/
theorem ipv4_serialize_ok {this : IPv4} {payloadData : Option (List Byte)} (fits : this.Fits (payloadData.getD [])) :
    this.serialize payloadData = .ok ((this.written (payloadData.getD [])).header ++ payloadData.getD [],
      this.written (payloadData.getD [])) := by
  generalize payload : payloadData.getD [] = bytes at fits ⊢
  obtain ⟨covered, exact⟩ := setLengths_exact fits
  generalize set : this.setLengths bytes.length = that at covered exact
  have options : that.options = this.options := by rw [← set, IPv4.setLengths]
  have sum : that.checksum = this.checksum := by rw [← set, IPv4.setLengths]
  have width : (that.totalLength.signExtend 32).toInt = that.totalLength.toInt :=
    BitVec.toInt_signExtend_of_le (by decide)
  have length := length_ipv4_header that
  rw [options] at length
  have stored : withChecksum that.checksum 0 (20 + (this.options.getD []).length) 10 (that.header ++ bytes) = _ :=
    withChecksum_of_places (places_ipv4 that bytes) that.checksum 0 _
  rw [List.take_left' (by rw [length_ipv4_header, ← options]; rfl)] at stored
  rw [IPv4.serialize, payload, set]
  dsimp only
  rw [allocate_exact (by rw [width, exact, List.length_append, length]; push_cast; rfl), covered, IPv4.written, set,
    ← sum]
  exact congrArg (fun r : List Byte × Short => (.ok (r.1, that.setChecksum r.2) : Java (List Byte × IPv4))) stored

theorem ipv4_serialize_iff {this this' : IPv4} {payloadData : Option (List Byte)} {data : List Byte} :
    this.serialize payloadData = .ok (data, this') ↔ this.Fits (payloadData.getD []) ∧
      this' = this.written (payloadData.getD []) ∧ data = this'.header ++ payloadData.getD [] := by
  constructor
  · intro ok
    have parts := ok
    rw [IPv4.serialize] at parts
    obtain ⟨array, allocated, -⟩ := bind_eq_ok parts
    have room := (allocate_eq_ok allocated).1
    rw [List.length_append, length_ipv4_header, BitVec.toInt_signExtend_of_le (by decide)] at room
    have fits : this.Fits (payloadData.getD []) := by
      apply fits_of_setLengths
      have options : (this.setLengths (payloadData.getD []).length).options = this.options := rfl
      rw [options] at room
      omega
    cases (ipv4_serialize_ok fits).symm.trans ok
    exact ⟨fits, rfl, rfl⟩
  · rintro ⟨fits, rfl, rfl⟩
    exact ipv4_serialize_ok fits

/-! ## `TCP` -/

def TCP.setChecksum (this : TCP) (checksum : Short) : TCP := { this with checksum := checksum }

theorem length_tcp_header (this : TCP) (sourcePort destinationPort : TransportPort) :
    (this.header sourcePort destinationPort).length = 20 := by
  simp [TCP.header]

theorem places_tcp (this : TCP) (sourcePort destinationPort : TransportPort) (rest : List Byte) :
    Places (fun checksum => (this.setChecksum checksum).header sourcePort destinationPort ++ rest) 16 := by
  refine ⟨putShort sourcePort ++ putShort destinationPort ++ putInt this.sequence ++ putInt this.acknowledge ++
    putShort (this.flags ||| (this.dataOffset.signExtend 16 <<< 12)) ++ putShort this.windowSize,
    putShort this.urgentPointer ++ rest, by simp, ?_⟩
  intro checksum
  simp [TCP.header, TCP.setChecksum]

/-- The options have at least the length that the data offset leaves for them. -/
theorem length_optionBytes {this : TCP} {options : List Byte} (ok : this.optionBytes = .ok options) :
    this.dataOffset.toInt * 4 ≤ 20 + options.length := by
  rw [TCP.optionBytes] at ok
  split_ifs at ok with more
  · obtain ⟨bytes, -, ok⟩ := bind_eq_ok ok
    cases ok
    rw [List.length_append, List.length_replicate]
    omega
  · cases ok
    simp
    omega

/-- Where the array has place for the header and the payload, its length has not wrapped. -/
theorem toInt_length {offset : Byte} {n m : Nat} (positive : 0 ≤ ((offset.signExtend 32 <<< 2) + BitVec.ofNat 32 n).toInt)
    (fits : 20 + m + n ≤ ((offset.signExtend 32 <<< 2) + BitVec.ofNat 32 n).toInt.toNat)
    (options : offset.toInt * 4 ≤ 20 + m) :
    ((offset.signExtend 32 <<< 2) + BitVec.ofNat 32 n).toInt = 20 + m + n ∧ offset.toInt * 4 = 20 + m := by
  have shifted : ∀ offset : Byte, offset.signExtend 32 <<< 2 = BitVec.ofInt 32 (offset.toInt * 4) := by decide
  have low : -2 ^ (8 - 1) ≤ offset.toInt := BitVec.le_toInt offset
  have high : offset.toInt < 2 ^ (8 - 1) := BitVec.toInt_lt
  rw [shifted, ← BitVec.ofInt_natCast, ← BitVec.ofInt_add, BitVec.toInt_ofInt, Int.bmod_def] at *
  split_ifs at * <;> omega

/-- The array has place for the header, the options and the payload. -/
structure TCP.Fits (this : TCP) (payload : List Byte) (sourcePort destinationPort : TransportPort) (options : List Byte) :
    Prop where
  sourcePort_eq : this.sourcePort = some sourcePort
  destinationPort_eq : this.destinationPort = some destinationPort
  options_eq : this.optionBytes = .ok options
  dataOffset : this.dataOffset.toInt * 4 = 20 + options.length
  total : 20 + options.length + payload.length < 2 ^ 31

/-- The packet after `serialize`. -/
def TCP.written (this : TCP) (parent : Option Layer) (payload : List Byte) (sourcePort destinationPort : TransportPort)
    (options : List Byte) : TCP :=
  this.setChecksum (checksumOf this.checksum
    (parentHeader parent IpProtocol.TCP (BitVec.ofNat 32 (20 + options.length + payload.length)))
    ((this.setChecksum 0).header sourcePort destinationPort ++ options ++ payload))

theorem tcp_length_eq {offset : Byte} {n m : Nat} (exact : offset.toInt * 4 = 20 + m) :
    (offset.signExtend 32 <<< 2) + BitVec.ofNat 32 n = BitVec.ofNat 32 (20 + m + n) := by
  have shifted : ∀ offset : Byte, offset.signExtend 32 <<< 2 = BitVec.ofInt 32 (offset.toInt * 4) := by decide
  rw [shifted, exact, ← BitVec.ofInt_natCast, ← BitVec.ofInt_natCast, ← BitVec.ofInt_add]
  push_cast
  rfl

/-- What is written where it fits. -/
theorem tcp_serialize_ok {this : TCP} {payload : List Byte} {sourcePort destinationPort : TransportPort}
    {options : List Byte} (fits : this.Fits payload sourcePort destinationPort options) (parent : Option Layer) :
    this.serialize parent payload =
      .ok ((this.written parent payload sourcePort destinationPort options).header sourcePort destinationPort ++
        options ++ payload, this.written parent payload sourcePort destinationPort options) := by
  obtain ⟨source, destination, optionBytes, offset, total⟩ := fits
  have long : (this.header sourcePort destinationPort ++ options ++ payload).length =
      20 + options.length + payload.length := by
    rw [List.length_append, List.length_append, length_tcp_header]
  have places := places_tcp this sourcePort destinationPort (options ++ payload)
  simp only [← List.append_assoc] at places
  have stored : withChecksum this.checksum
      (parentHeader parent IpProtocol.TCP (BitVec.ofNat 32 (20 + options.length + payload.length)))
      (20 + options.length + payload.length) 16 (this.header sourcePort destinationPort ++ options ++ payload) = _ :=
    withChecksum_of_places places this.checksum _ _
  rw [List.take_of_length_le (by rw [List.length_append, List.length_append, length_tcp_header])] at stored
  rw [TCP.serialize, nonNull_of_eq_some source, nonNull_of_eq_some destination, optionBytes, tcp_length_eq offset]
  simp only [bind, Except.bind]
  rw [allocate_exact (by rw [toInt_ofNat_of_lt total, long])]
  dsimp only
  rw [long, stored]
  rfl

theorem tcp_serialize_iff {this this' : TCP} {parent : Option Layer} {payload data : List Byte} :
    this.serialize parent payload = .ok (data, this') ↔ ∃ sourcePort destinationPort options,
      this.Fits payload sourcePort destinationPort options ∧
      this' = this.written parent payload sourcePort destinationPort options ∧
      data = this'.header sourcePort destinationPort ++ options ++ payload := by
  constructor
  · intro ok
    obtain ⟨sourcePort, source, more⟩ := bind_eq_ok ok
    obtain ⟨destinationPort, destination, more⟩ := bind_eq_ok more
    obtain ⟨options, optionBytes, more⟩ := bind_eq_ok more
    obtain ⟨array, allocated, -⟩ := bind_eq_ok more
    obtain ⟨room, positive, -⟩ := allocate_eq_ok allocated
    rw [List.length_append, List.length_append, length_tcp_header] at room
    obtain ⟨exact, offset⟩ := toInt_length positive room (length_optionBytes optionBytes)
    have most := BitVec.toInt_lt (x := (this.dataOffset.signExtend 32 <<< 2) + BitVec.ofNat 32 payload.length)
    have fits : this.Fits payload sourcePort destinationPort options :=
      ⟨nonNull_eq_ok source, nonNull_eq_ok destination, optionBytes, offset, by omega⟩
    cases (tcp_serialize_ok fits parent).symm.trans ok
    exact ⟨sourcePort, destinationPort, options, fits, rfl, rfl⟩
  · rintro ⟨sourcePort, destinationPort, options, fits, rfl, rfl⟩
    exact tcp_serialize_ok fits parent

/-! ## `UDP` -/

def UDP.setChecksum (this : UDP) (checksum : Short) : UDP := { this with checksum := checksum }

theorem length_udp_header (this : UDP) (sourcePort destinationPort : TransportPort) :
    (this.header sourcePort destinationPort).length = 8 := by
  simp [UDP.header]

theorem places_udp (this : UDP) (sourcePort destinationPort : TransportPort) (rest : List Byte) :
    Places (fun checksum => (this.setChecksum checksum).header sourcePort destinationPort ++ rest) 6 := by
  refine ⟨putShort sourcePort ++ putShort destinationPort ++ putShort this.length, rest, by simp, ?_⟩
  intro checksum
  simp [UDP.header, UDP.setChecksum]

/-- The array has place for the header and the payload. -/
structure UDP.Fits (this : UDP) (payload : List Byte) (sourcePort destinationPort : TransportPort) : Prop where
  sourcePort_eq : this.sourcePort = some sourcePort
  destinationPort_eq : this.destinationPort = some destinationPort
  total : 8 + payload.length < 2 ^ 15

/-- The packet after `serialize`. -/
def UDP.written (this : UDP) (parent : Option Layer) (payload : List Byte)
    (sourcePort destinationPort : TransportPort) : UDP :=
  (this.setLength payload.length).setChecksum (checksumOf this.checksum
    (parentHeader parent IpProtocol.UDP (BitVec.ofNat 32 (8 + payload.length)))
    (((this.setLength payload.length).setChecksum 0).header sourcePort destinationPort ++ payload))

theorem toInt_setLength {n : Nat} (total : 8 + n < 2 ^ 15) : (BitVec.ofNat 16 (8 + n)).toInt = 8 + n := by
  rw [← BitVec.ofInt_natCast, BitVec.toInt_ofInt, Int.bmod_def]
  push_cast
  split_ifs <;> omega

theorem total_of_setLength {n : Nat} (room : 8 + n ≤ (BitVec.ofNat 16 (8 + n)).toInt.toNat) : 8 + n < 2 ^ 15 := by
  have most := BitVec.toInt_lt (x := BitVec.ofNat 16 (8 + n))
  omega

/-- What is written where it fits. -/
theorem udp_serialize_ok {this : UDP} {payloadData : Option (List Byte)} {sourcePort destinationPort : TransportPort}
    (fits : this.Fits (payloadData.getD []) sourcePort destinationPort) (parent : Option Layer) :
    this.serialize parent payloadData =
      .ok ((this.written parent (payloadData.getD []) sourcePort destinationPort).header sourcePort destinationPort ++
        payloadData.getD [], this.written parent (payloadData.getD []) sourcePort destinationPort) := by
  generalize payload : payloadData.getD [] = bytes at fits ⊢
  obtain ⟨source, destination, total⟩ := fits
  generalize set : this.setLength bytes.length = that
  have sum : that.checksum = this.checksum := by rw [← set, UDP.setLength]
  have source_eq : that.sourcePort = some sourcePort := by rw [← set, UDP.setLength, source]
  have destination_eq : that.destinationPort = some destinationPort := by rw [← set, UDP.setLength, destination]
  have exact : (that.length.signExtend 32).toInt = ((8 + bytes.length : Nat) : Int) := by
    have width : (that.length.signExtend 32).toInt = (BitVec.ofNat 16 (8 + bytes.length)).toInt := by
      rw [← set]
      exact BitVec.toInt_signExtend_of_le (by decide)
    rw [width, toInt_setLength total]
    push_cast
    rfl
  have long : (that.header sourcePort destinationPort ++ bytes).length = 8 + bytes.length := by
    rw [List.length_append, length_udp_header]
  have stored : withChecksum that.checksum (parentHeader parent IpProtocol.UDP (BitVec.ofNat 32 (8 + bytes.length)))
      (8 + bytes.length) 6 (that.header sourcePort destinationPort ++ bytes) = _ :=
    withChecksum_of_places (places_udp that sourcePort destinationPort bytes) that.checksum _ _
  rw [List.take_of_length_le (by simp [length_udp_header])] at stored
  rw [UDP.serialize, payload, set, UDP.written, set, ← sum]
  simp only [bind, Except.bind, nonNull_of_eq_some source_eq, nonNull_of_eq_some destination_eq]
  rw [allocate_exact (by rw [exact, long]), eq_ofNat_of_toInt exact]
  dsimp only
  rw [long, stored]
  rfl

theorem udp_serialize_iff {this this' : UDP} {parent : Option Layer} {payloadData : Option (List Byte)}
    {data : List Byte} :
    this.serialize parent payloadData = .ok (data, this') ↔ ∃ sourcePort destinationPort,
      this.Fits (payloadData.getD []) sourcePort destinationPort ∧
      this' = this.written parent (payloadData.getD []) sourcePort destinationPort ∧
      data = this'.header sourcePort destinationPort ++ payloadData.getD [] := by
  constructor
  · intro ok
    have parts := ok
    rw [UDP.serialize] at parts
    obtain ⟨sourcePort, source, more⟩ := bind_eq_ok parts
    obtain ⟨destinationPort, destination, more⟩ := bind_eq_ok more
    obtain ⟨array, allocated, -⟩ := bind_eq_ok more
    have room := (allocate_eq_ok allocated).1
    rw [List.length_append, length_udp_header, BitVec.toInt_signExtend_of_le (by decide)] at room
    have fits : this.Fits (payloadData.getD []) sourcePort destinationPort :=
      ⟨nonNull_eq_ok source, nonNull_eq_ok destination, total_of_setLength room⟩
    cases (udp_serialize_ok fits parent).symm.trans ok
    exact ⟨sourcePort, destinationPort, fits, rfl, rfl⟩
  · rintro ⟨sourcePort, destinationPort, fits, rfl, rfl⟩
    exact udp_serialize_ok fits parent

/-! ## `ICMP` -/

def ICMP.setChecksum (this : ICMP) (checksum : Short) : ICMP := { this with checksum := checksum }

theorem length_icmp_header (this : ICMP) : this.header.length = 4 + this.padding := by
  simp [ICMP.header]
  omega

theorem places_icmp (this : ICMP) (rest : List Byte) :
    Places (fun checksum => (this.setChecksum checksum).header ++ rest) 2 := by
  refine ⟨[this.icmpType, this.icmpCode], List.replicate this.padding 0 ++ rest, rfl, ?_⟩
  intro checksum
  simp [ICMP.header, ICMP.setChecksum, ICMP.padding]

/-- The packet after `serialize`. -/
def ICMP.written (this : ICMP) (payload : List Byte) : ICMP :=
  this.setChecksum (checksumOf this.checksum 0 ((this.setChecksum 0).header ++ payload))

theorem icmp_serialize_iff {this this' : ICMP} {payload data : List Byte} :
    this.serialize payload = .ok (data, this') ↔ 4 + this.padding + payload.length < 2 ^ 31 ∧
      this' = this.written payload ∧ data = this'.header ++ payload := by
  have long : (this.header ++ payload).length = 4 + this.padding + payload.length := by
    rw [List.length_append, length_icmp_header]
  have returns (total : 4 + this.padding + payload.length < 2 ^ 31) :
      this.serialize payload = .ok ((this.written payload).header ++ payload, this.written payload) := by
    have stored : withChecksum this.checksum 0 (4 + this.padding + payload.length) 2 (this.header ++ payload) = _ :=
      withChecksum_of_places (places_icmp this payload) this.checksum _ _
    rw [List.take_of_length_le (by simp [length_icmp_header, ICMP.setChecksum, ICMP.padding])] at stored
    rw [ICMP.serialize]
    simp only [bind, Except.bind]
    rw [allocate_exact (by rw [toInt_ofNat_of_lt total, long])]
    dsimp only
    rw [long, stored]
    rfl
  constructor
  · intro ok
    obtain ⟨array, allocated, -⟩ := bind_eq_ok ok
    have room := (allocate_eq_ok allocated).1
    have most := BitVec.toInt_lt (x := BitVec.ofNat 32 (4 + this.padding + payload.length))
    rw [long] at room
    have total : 4 + this.padding + payload.length < 2 ^ 31 := by omega
    cases (returns total).symm.trans ok
    exact ⟨total, rfl, rfl⟩
  · rintro ⟨total, rfl, rfl⟩
    exact returns total

/-! ## `Ethernet` -/

/-- What `Ethernet.serialize` puts into its array. -/
def Ethernet.frame (this : Ethernet) (destination source : MacAddress) (payload : List Byte) : List Byte :=
  destination.bytes ++ source.bytes ++
    (if this.vlanID = VLAN_UNTAGGED then []
    else putShort 0x8100 ++ putShort (this.priorityCode.signExtend 16 <<< 13 ||| (this.vlanID &&& 0x0fff))) ++
    putShort this.etherType ++ payload

/-- The padding up to 60 bytes. -/
def Ethernet.padding (this : Ethernet) (length : Nat) : Nat := if this.pad then 60 - length else 0

theorem length_frame (this : Ethernet) (destination source : MacAddress) (payload : List Byte) :
    (this.frame destination source payload).length =
      14 + (if this.vlanID = VLAN_UNTAGGED then 0 else 4) + payload.length := by
  rw [Ethernet.frame]
  split_ifs <;> simp [destination.length_eq, source.length_eq] <;> omega

theorem frame_length_eq (this : Ethernet) (destination source : MacAddress) (payload : List Byte) :
    14 + (if this.vlanID = VLAN_UNTAGGED then 0 else 4) + BitVec.ofNat 32 payload.length =
      BitVec.ofNat 32 (this.frame destination source payload).length := by
  rw [length_frame, BitVec.ofNat_add, BitVec.ofNat_add]
  split_ifs <;> rfl

/-- With `pad` the array has at least 60 bytes. -/
theorem toInt_padded (pad : Bool) {m : Nat} (fits : m < 2 ^ 31) :
    (if pad ∧ (BitVec.ofNat 32 m).toInt < 60 then 60 else BitVec.ofNat 32 m).toInt =
      m + (if pad then 60 - m else 0 : Nat) := by
  have sixty : (60 : BitVec 32).toInt = 60 := rfl
  rw [toInt_ofNat_of_lt fits]
  cases pad with
  | false => simp [toInt_ofNat_of_lt fits]
  | true =>
    simp only [true_and, if_true]
    split_ifs
    · rw [sixty]
      omega
    · rw [toInt_ofNat_of_lt fits]
      omega

theorem fits_of_padded {pad : Bool} {m : Nat}
    (room : m ≤ (if pad ∧ (BitVec.ofNat 32 m).toInt < 60 then 60 else BitVec.ofNat 32 m).toInt.toNat) : m < 2 ^ 31 := by
  have most := BitVec.toInt_lt (x := if pad ∧ (BitVec.ofNat 32 m).toInt < 60 then 60 else BitVec.ofNat 32 m)
  omega

theorem ethernet_serialize_iff {this : Ethernet} {payloadData : Option (List Byte)} {data : List Byte} :
    this.serialize payloadData = .ok data ↔ ∃ destination source,
      this.destinationMACAddress = some destination ∧ this.sourceMACAddress = some source ∧
      (this.frame destination source (payloadData.getD [])).length < 2 ^ 31 ∧
      data = this.frame destination source (payloadData.getD []) ++
        List.replicate (this.padding (this.frame destination source (payloadData.getD [])).length) 0 := by
  rw [Ethernet.serialize]
  constructor
  · intro ok
    obtain ⟨destination, destination_eq, ok⟩ := bind_eq_ok ok
    obtain ⟨source, source_eq, ok⟩ := bind_eq_ok ok
    rw [frame_length_eq this destination source] at ok
    change allocate _ (this.frame destination source (payloadData.getD [])) = _ at ok
    obtain ⟨room, -, rfl⟩ := allocate_eq_ok ok
    have fits := fits_of_padded room
    have length := toInt_padded this.pad fits
    refine ⟨destination, source, nonNull_eq_ok destination_eq, nonNull_eq_ok source_eq, fits, ?_⟩
    rw [length, Ethernet.padding]
    congr 2
    omega
  · rintro ⟨destination, source, destination_eq, source_eq, fits, rfl⟩
    have length := toInt_padded this.pad fits
    rw [frame_length_eq this destination source, destination_eq, source_eq]
    show allocate _ (this.frame destination source (payloadData.getD [])) = _
    rw [allocate, if_neg (by omega), if_neg (by omega), length, Ethernet.padding]
    congr 3
    omega

/-! ## Payloads -/

/-- A packet that is serialized, and its payload before it. -/
theorem serialize_cons_ok {parent : Option Layer} {layer : Layer} {payload packet : IPacket}
    {bytes : Option (List Byte)} {touch : Touch} (has : layer.hasPayload = true)
    (ok : serialize parent (layer :: payload) = .ok (bytes, packet, touch)) :
    ∃ payloadData payload' inner layer' own,
      serialize (some layer.prepare) payload = .ok (payloadData, payload', inner) ∧
      (layer.prepare.touch inner).serialize parent payload' payloadData = .ok (bytes, layer', own) ∧
      packet = layer' :: payload' ∧
      touch = { own with resetChecksum := own.resetChecksum || inner.resetChecksum } := by
  rw [serialize, has, if_pos rfl] at ok
  obtain ⟨⟨payloadData, payload', inner⟩, first, ok⟩ := bind_eq_ok ok
  obtain ⟨⟨bytes', layer', own⟩, second, ok⟩ := bind_eq_ok ok
  cases ok
  exact ⟨payloadData, payload', inner, layer', own, first, second, rfl, rfl⟩

theorem serialize_cons {parent : Option Layer} {layer layer' : Layer} {payload payload' : IPacket}
    {payloadData bytes : Option (List Byte)} {inner own : Touch} (has : layer.hasPayload = true)
    (first : serialize (some layer.prepare) payload = .ok (payloadData, payload', inner))
    (second : (layer.prepare.touch inner).serialize parent payload' payloadData = .ok (bytes, layer', own)) :
    serialize parent (layer :: payload) = .ok (bytes, layer' :: payload',
      { own with resetChecksum := own.resetChecksum || inner.resetChecksum }) := by
  rw [serialize, has, if_pos rfl]
  simp only [first, bind, Except.bind, second]
  rfl

/-- What a class does to its parent. -/
def Layer.sets : Layer → Touch
  | .tcp _ => { Touch.none with protocol := some IpProtocol.TCP }
  | .udp _ => { Touch.none with protocol := some IpProtocol.UDP }
  | .icmp _ => { Touch.none with protocol := some IpProtocol.ICMP }
  | .lldp _ => { Touch.none with etherType := some TYPE_LLDP }
  | .bsn _ => { Touch.none with etherType := some TYPE_BSN }
  | .bsnprobe _ => { Touch.none with type := some BSN_TYPE_PROBE }
  | .dhcp _ => { Touch.none with resetChecksum := true }
  | _ => .none

theorem layer_sets {parent : Option Layer} {payload : IPacket} {payloadData bytes : Option (List Byte)}
    {layer layer' : Layer} {own : Touch}
    (ok : layer.serialize parent payload payloadData = .ok (bytes, layer', own)) : own = layer.sets := by
  cases layer with
  | ethernet | ipv4 | udp | arp | lldp | dhcp =>
    obtain ⟨_, -, ok⟩ := bind_eq_ok ok
    cases ok
    rfl
  | tcp | icmp | bsn | bsnprobe =>
    obtain ⟨_, -, ok⟩ := bind_eq_ok ok
    obtain ⟨_, -, ok⟩ := bind_eq_ok ok
    cases ok
    rfl
  | data =>
    cases ok
    rfl

/-- Only the reset of the checksums comes from further inside. -/
theorem serialize_sets {parent : Option Layer} {layer : Layer} {payload packet : IPacket}
    {bytes : Option (List Byte)} {touch : Touch}
    (ok : serialize parent (layer :: payload) = .ok (bytes, packet, touch)) :
    touch.protocol = layer.sets.protocol ∧ touch.etherType = layer.sets.etherType := by
  cases has : layer.hasPayload with
  | true =>
    obtain ⟨_, _, inner, _, own, -, second, -, rfl⟩ := serialize_cons_ok has ok
    have same : (layer.prepare.touch inner).sets = layer.sets := by cases layer <;> rfl
    rw [layer_sets second, same]
    exact ⟨rfl, rfl⟩
  | false =>
    rw [serialize, has, if_neg (by decide)] at ok
    obtain ⟨⟨_, _, own⟩, second, ok⟩ := bind_eq_ok ok
    cases ok
    rw [layer_sets second]
    exact ⟨rfl, rfl⟩

/-- Of its parent a packet uses what it adds to the checksum. -/
theorem serialize_parent {parent parent' : Option Layer}
    (same : ∀ protocol length, parentHeader parent protocol length = parentHeader parent' protocol length)
    (packet : IPacket) : serialize parent packet = serialize parent' packet := by
  have own (layer : Layer) (payload : IPacket) (payloadData : Option (List Byte)) :
      layer.serialize parent payload payloadData = layer.serialize parent' payload payloadData := by
    cases layer <;> simp only [Layer.serialize, TCP.serialize, UDP.serialize, same]
  cases packet with
  | nil => rfl
  | cons layer payload => simp only [serialize, own]

/-- Only a packet has bytes. -/
theorem payloadData_of_nil {parent : Option Layer} {payload payload' : IPacket} {payloadData : Option (List Byte)}
    {touch : Touch} (ok : serialize parent payload = .ok (payloadData, payload', touch)) (nil : payload' = []) :
    payloadData = none := by
  cases payload with
  | nil =>
    rw [serialize] at ok
    cases ok
    rfl
  | cons layer payload =>
    rw [serialize] at ok
    split_ifs at ok
    · obtain ⟨inner, -, ok⟩ := bind_eq_ok ok
      obtain ⟨own, -, ok⟩ := bind_eq_ok ok
      cases ok
      cases nil
    · obtain ⟨own, -, ok⟩ := bind_eq_ok ok
      cases ok
      cases nil

theorem required_eq_ok {payload : IPacket} {payloadData : Option (List Byte)} {bytes : List Byte}
    (absent : payload = [] → payloadData = none) (ok : required payload payloadData = .ok bytes) :
    payloadData.getD [] = bytes := by
  rw [required] at ok
  split_ifs at ok with nil
  · cases ok
    rw [absent nil]
    rfl
  · rw [nonNull_eq_ok ok]
    rfl

/-! ## What is sent -/

/-- The packet as it is sent, after its payload. -/
def IPv4.sent (this : IPv4) (touch : Touch) (payload : List Byte) : IPv4 :=
  { this with
    protocol := touch.protocol.getD this.protocol
    checksum := if touch.resetChecksum then 0 else this.checksum }.written payload

/-- The packet as it is sent, after its payload. -/
def UDP.sent (this : UDP) (parent : Option Layer) (touch : Touch) (payload : List Byte)
    (sourcePort destinationPort : TransportPort) : UDP :=
  { this with checksum := if touch.resetChecksum then 0 else this.checksum }.written parent payload sourcePort destinationPort

section Sent
variable {parent : Option Layer} {payload inner : IPacket}

/-- The lengths of what is sent. -/
theorem sent_lengths {this : IPv4} {bytes : List Byte} (fits : this.Fits bytes) (touch : Touch) :
    (this.sent touch bytes).headerLength.toNat * 4 = 20 + (this.options.getD []).length ∧
      (this.sent touch bytes).headerLength.toNat < 128 ∧
      (this.sent touch bytes).totalLength.toInt = 20 + (this.options.getD []).length + bytes.length := by
  obtain ⟨header, total⟩ := setLengths_exact fits
  change (this.sent touch bytes).headerLength.toInt.toNat * 4 = _ at header
  have value := BitVec.toInt_eq_toNat_cond (this.sent touch bytes).headerLength
  refine ⟨?_, ?_, total⟩ <;> split_ifs at value <;> omega

/-- `serialize` returns where the array has place. -/
theorem serialize_ipv4_iff {this : IPv4} {bytes : Option (List Byte)} {packet : IPacket} :
    (∃ touch', serialize parent (.ipv4 this :: payload) = .ok (bytes, packet, touch')) ↔ ∃ payloadData sent touch,
      serialize (some (.ipv4 this)) payload = .ok (payloadData, sent, touch) ∧ this.Fits (payloadData.getD []) ∧
      bytes = some ((this.sent touch (payloadData.getD [])).header ++ payloadData.getD []) ∧
      packet = .ipv4 (this.sent touch (payloadData.getD [])) :: sent := by
  constructor
  · rintro ⟨touch', ok⟩
    obtain ⟨payloadData, sent, inner, layer', own, first, second, rfl, -⟩ := serialize_cons_ok rfl ok
    obtain ⟨⟨data, this'⟩, encoded, done⟩ := bind_eq_ok second
    cases done
    obtain ⟨⟨words, header, total⟩, written, rfl⟩ := ipv4_serialize_iff.mp encoded
    refine ⟨payloadData, sent, inner, first, ⟨words, header, total⟩, ?_, ?_⟩
    · rw [written]
      rfl
    · rw [written]
      rfl
  · rintro ⟨payloadData, sent, touch, ok, ⟨words, header, total⟩, rfl, rfl⟩
    have own : ({ this with
        protocol := touch.protocol.getD this.protocol
        checksum := if touch.resetChecksum then 0 else this.checksum } : IPv4).serialize payloadData =
        .ok ((this.sent touch (payloadData.getD [])).header ++ payloadData.getD [], this.sent touch (payloadData.getD [])) :=
      ipv4_serialize_ok ⟨words, header, total⟩
    have second : (Layer.touch touch (.ipv4 this)).serialize parent sent payloadData =
        .ok (some ((this.sent touch (payloadData.getD [])).header ++ payloadData.getD []),
          .ipv4 (this.sent touch (payloadData.getD [])), Touch.none) := by
      change (IPv4.serialize _ payloadData >>= fun result => pure (some result.1, Layer.ipv4 result.2, Touch.none)) = _
      rw [own]
      rfl
    exact ⟨_, serialize_cons rfl ok second⟩

/-- `serialize` returns where the array of the `UDP` packet has place. -/
theorem serialize_udp_iff {udp : UDP} {bytes : Option (List Byte)} {packet : IPacket} {protocol : Option IpProtocol} :
    (∃ touch, serialize parent (.udp udp :: inner) = .ok (bytes, packet, touch) ∧ touch.protocol = protocol) ↔
      protocol = some IpProtocol.UDP ∧ ∃ payloadData sent touch sourcePort destinationPort,
        serialize (some (.udp udp)) inner = .ok (payloadData, sent, touch) ∧
        udp.Fits (payloadData.getD []) sourcePort destinationPort ∧
        bytes = some ((udp.sent parent touch (payloadData.getD []) sourcePort destinationPort).header sourcePort destinationPort ++
          payloadData.getD []) ∧
        packet = .udp (udp.sent parent touch (payloadData.getD []) sourcePort destinationPort) :: sent := by
  constructor
  · rintro ⟨touch, ok, rfl⟩
    refine ⟨(serialize_sets ok).1, ?_⟩
    obtain ⟨payloadData, sent, inside, layer', own, first, second, rfl, -⟩ := serialize_cons_ok rfl ok
    obtain ⟨⟨data, this'⟩, encoded, done⟩ := bind_eq_ok second
    cases done
    obtain ⟨sourcePort, destinationPort, ⟨source, destination, total⟩, written, rfl⟩ := udp_serialize_iff.mp encoded
    refine ⟨payloadData, sent, inside, sourcePort, destinationPort, first, ⟨source, destination, total⟩, ?_, ?_⟩
    · rw [written]
      rfl
    · rw [written]
      rfl
  · rintro ⟨rfl, payloadData, sent, touch, sourcePort, destinationPort, ok, ⟨source, destination, total⟩, rfl, rfl⟩
    have fits : ({ udp with checksum := if touch.resetChecksum then 0 else udp.checksum } : UDP).Fits (payloadData.getD [])
        sourcePort destinationPort := ⟨source, destination, total⟩
    have second : (Layer.touch touch (.udp udp)).serialize parent sent payloadData =
        .ok (some ((udp.sent parent touch (payloadData.getD []) sourcePort destinationPort).header sourcePort destinationPort ++
            payloadData.getD []),
          .udp (udp.sent parent touch (payloadData.getD []) sourcePort destinationPort),
          { Touch.none with protocol := some IpProtocol.UDP }) := by
      change (UDP.serialize _ parent payloadData >>= fun result =>
        pure (some result.1, Layer.udp result.2, { Touch.none with protocol := some IpProtocol.UDP })) = _
      rw [udp_serialize_ok fits parent]
      rfl
    exact ⟨_, serialize_cons rfl ok second, rfl⟩

theorem udp_sent_length {udp : UDP} {bytes : List Byte} {sourcePort destinationPort : TransportPort}
    (fits : udp.Fits bytes sourcePort destinationPort) (touch : Touch) :
    (udp.sent parent touch bytes sourcePort destinationPort).length.toNat = 8 + bytes.length := by
  have total := fits.total
  change (BitVec.ofNat 16 (8 + bytes.length)).toNat = _
  rw [BitVec.toNat_ofNat]
  omega

end Sent

end CodeClips.Packet
