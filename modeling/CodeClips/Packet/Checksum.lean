import CodeClips.Lib.Bits
import Mathlib.Algebra.Order.BigOperators.Group.List
import CodeClips.Lib.OnesComplement
import CodeClips.Packet.SerializeSpec

/-!
# Internet checksums

A receiver adds the 16-bit words that a checksum covers with an end-around carry and expects
`0xffff`. `serialize` adds them in an `int` and folds that once: `checksum_verifies_iff` says that
the sum is the expected one just when the first fold leaves no carry.
-/

namespace CodeClips.Packet

/-! ## What is covered -/

/-- The shorts of an array, a last byte padded with zero. -/
def words : List Byte → List Nat
  | [] => []
  | [b] => [b.toNat * 256]
  | b₁ :: b₂ :: bytes => (b₁.toNat * 256 + b₂.toNat) :: words bytes

/-- The shorts of the pseudo header. -/
def pseudoWords (parent : Option Layer) (protocol : IpProtocol) (length : Nat) : List Nat :=
  match parent with
  | some (.ipv4 ipv4) =>
    [ipv4.sourceAddress.toNat / 2 ^ 16, ipv4.sourceAddress.toNat % 2 ^ 16, ipv4.destinationAddress.toNat / 2 ^ 16,
      ipv4.destinationAddress.toNat % 2 ^ 16, protocol.toNat, length % 2 ^ 16]
  | _ => []

/-- The layers that have a checksum, and its value. -/
def Layer.checksum : Layer → Option Short
  | .ipv4 this => some this.checksum
  | .tcp this => some this.checksum
  | .udp this => some this.checksum
  | .icmp this => some this.checksum
  | _ => none

/-- The shorts that the checksum of a packet covers, given the packet's bytes. -/
def checkWords (parent : Option Layer) (layer : Layer) (data : List Byte) : List Nat :=
  match layer with
  | .ipv4 this => words (data.take (20 + (this.options.getD []).length))
  | .tcp _ => pseudoWords parent IpProtocol.TCP data.length ++ words data
  | .udp _ => pseudoWords parent IpProtocol.UDP data.length ++ words data
  | .icmp _ => words data
  | _ => []

/-- The bytes of a packet before its checksum is put. -/
def Layer.unchecked (payload : List Byte) : Layer → List Byte
  | .ipv4 this => ((this.setLengths payload.length).setChecksum 0).header ++ payload
  | .tcp this =>
    (this.setChecksum 0).header (this.sourcePort.getD 0) (this.destinationPort.getD 0) ++
      this.optionBytes.toOption.getD [] ++ payload
  | .udp this =>
    ((this.setLength payload.length).setChecksum 0).header (this.sourcePort.getD 0) (this.destinationPort.getD 0) ++
      payload
  | .icmp this => (this.setChecksum 0).header ++ payload
  | _ => []

/-- Folding the sum once leaves no carry. -/
def FoldsOnce (words : List Nat) : Prop := words.sum / 2 ^ 16 + words.sum % 2 ^ 16 < 2 ^ 16

instance (words : List Nat) : Decidable (FoldsOnce words) := inferInstanceAs (Decidable (_ < _))

/-! ## Words -/

@[simp] theorem words_putShort (s : Short) : words (putShort s) = [s.toNat] := by
  have value := fromBigEndian_bigEndian 2 s.toNat
  rw [Nat.mod_eq_of_lt (show s.toNat < 256 ^ 2 from s.isLt)] at value
  simpa [putShort, bigEndian, words, fromBigEndian] using value

/-- An even number of bytes in front leaves the words behind them as they are. -/
theorem words_append {front : List Byte} (even : front.length % 2 = 0) (bytes : List Byte) :
    words (front ++ bytes) = words front ++ words bytes := by
  induction front using words.induct with
  | case1 => rfl
  | case2 b => simp at even
  | case3 b₁ b₂ front ih =>
    simp only [List.length_cons] at even
    rw [List.cons_append, List.cons_append, words, words, ih (by omega), List.cons_append]

/-- A word has 16 bits. -/
theorem words_le (bytes : List Byte) : ∀ word ∈ words bytes, word ≤ 65535 := by
  induction bytes using words.induct with
  | case1 => simp [words]
  | case2 b =>
    have := b.isLt
    simp [words]
    omega
  | case3 b₁ b₂ bytes ih =>
    have := b₁.isLt
    have := b₂.isLt
    rw [words]
    intro word inside
    rcases List.mem_cons.mp inside with rfl | later
    · omega
    · exact ih word later

/-- A bound of the sum by the number of bytes. -/
theorem sum_words_le (bytes : List Byte) : (words bytes).sum ≤ 65535 * (bytes.length + 1) := by
  induction bytes using words.induct with
  | case1 => simp [words]
  | case2 b =>
    have := b.isLt
    simp [words]
    omega
  | case3 b₁ b₂ bytes ih =>
    have := b₁.isLt
    have := b₂.isLt
    rw [words, List.sum_cons, List.length_cons, List.length_cons]
    omega

/-- The upper half of an int, although the shift is arithmetic. -/
theorem toNat_high (n : BitVec 32) : (n.sshiftRight 16 &&& 0xffff).toNat = n.toNat / 2 ^ 16 % 2 ^ 16 :=
  toNat_sshiftRight_and n 16 16 rfl (by decide)

/-- The lower half of an int. -/
theorem toNat_low (n : BitVec 32) : (n &&& 0xffff).toNat = n.toNat % 2 ^ 16 := toNat_and_mask n 16 rfl

/-- A byte without its sign. -/
theorem toNat_byte (b : Byte) : (b.setWidth 32 &&& 0xff).toNat = b.toNat := by
  have byte := b.isLt
  rw [toNat_and_mask _ 8 rfl, BitVec.toNat_setWidth]
  omega

/-- The sum that is accumulated, in the 32 bits of an `int`. -/
theorem accumulate_toNat (bytes : List Byte) : (accumulate bytes).toNat = (words bytes).sum % 2 ^ 32 := by
  induction bytes using words.induct with
  | case1 => rfl
  | case2 b =>
    rw [accumulate, words, BitVec.toNat_shiftLeft, toNat_byte, Nat.shiftLeft_eq]
    simp
  | case3 b₁ b₂ bytes ih =>
    have high := b₁.isLt
    have low := b₂.isLt
    have value : fromBigEndian [b₁, b₂] = b₁.toNat * 256 + b₂.toNat := by simp [fromBigEndian]
    rw [accumulate, words, BitVec.toNat_add, BitVec.and_comm, toNat_low, BitVec.toNat_setWidth,
      BitVec.toNat_ofNat, value, ih, List.sum_cons]
    omega

/-- What is added up of the IP header is the sum of the words of the pseudo header. -/
theorem parentHeader_toNat (parent : Option Layer) (protocol : IpProtocol) (length : BitVec 32) :
    (parentHeader parent protocol length).toNat = (pseudoWords parent protocol length.toNat).sum % 2 ^ 32 := by
  cases parent with
  | none => simp [parentHeader, pseudoWords]
  | some layer =>
    cases layer with
    | ipv4 ipv4 =>
      have source := ipv4.sourceAddress.isLt
      have destination := ipv4.destinationAddress.isLt
      have byte := BitVec.isLt protocol
      rw [parentHeader, pseudoHeader, pseudoWords]
      simp only [BitVec.toNat_add, Nat.mod_add_mod, Nat.add_mod_mod, toNat_byte, List.sum_cons, List.sum_nil]
      rw [toNat_high, toNat_high, toNat_low, toNat_low, toNat_low]
      congr 1
      omega
    | _ => simp [parentHeader, pseudoWords]

/-- The words of the pseudo header have 16 bits. -/
theorem pseudoWords_le (parent : Option Layer) (protocol : IpProtocol) (length : Nat) :
    ∀ word ∈ pseudoWords parent protocol length, word ≤ 65535 := by
  cases parent with
  | none => simp [pseudoWords]
  | some layer =>
    cases layer with
    | ipv4 ipv4 =>
      have source := ipv4.sourceAddress.isLt
      have destination := ipv4.destinationAddress.isLt
      have byte := BitVec.isLt protocol
      simp only [pseudoWords, List.mem_cons, List.not_mem_nil, or_false]
      rintro word (rfl | rfl | rfl | rfl | rfl | rfl) <;> omega
    | _ => simp [pseudoWords]

theorem length_pseudoWords (parent : Option Layer) (protocol : IpProtocol) (length : Nat) :
    (pseudoWords parent protocol length).length ≤ 6 := by
  unfold pseudoWords
  split <;> simp

/-- The checksum is the complement of what the folded sum has in its lower word. -/
theorem fold_toNat (accumulation : BitVec 32) :
    (fold accumulation).toNat = 65535 - foldWords 65535 accumulation.toNat % 65536 := by
  have bound := accumulation.isLt
  rw [fold, foldWords, BitVec.toNat_setWidth, toNat_low, BitVec.toNat_not, BitVec.toNat_add, toNat_high, toNat_low]
  omega

/-! ## The sum that a receiver computes -/

/-- One fold is enough. -/
theorem foldsOnce_iff (words : List Nat) : FoldsOnce words ↔ foldWords 65535 words.sum ≤ 65535 :=
  Nat.lt_succ_iff

/-- The checksum adds its own value to the words. -/
theorem sum_words_of_places {image : Short → List Byte} {offset : Nat} (places : Places image offset)
    (even : offset % 2 = 0) (checksum : Short) :
    (words (image checksum)).sum = (words (image 0)).sum + checksum.toNat := by
  obtain ⟨before, after, rfl, image_eq⟩ := places
  have split : ∀ s : Short, words (image s) = words before ++ ([s.toNat] ++ words after) := by
    intro s
    rw [image_eq, List.append_assoc, words_append even, words_append (by simp), words_putShort]
  simp only [split, List.sum_append, List.sum_singleton, BitVec.ofNat_eq_ofNat, BitVec.toNat_ofNat]
  omega

/-- A checksum at an even place is right if one fold is enough for the words that it is made of. -/
theorem onesSum_iff {image : Short → List Byte} {offset : Nat} (places : Places image offset) (even : offset % 2 = 0)
    (header : List Nat) {accumulation : BitVec 32} (same : accumulation.toNat = header.sum % 2 ^ 32)
    (shorts : ∀ word ∈ header, word ≤ 65535) (few : header.length ≤ 6) (small : (image 0).length < 2 ^ 31) :
    onesSum 65535 (header ++ words (image (checksumOf 0 accumulation (image 0)))) = 65535 ↔
      FoldsOnce (header ++ words (image 0)) := by
  have header_le : header.sum ≤ header.length * 65535 := List.sum_le_card_nsmul _ _ shorts
  have image_le := sum_words_le (image 0)
  have all : ∀ word ∈ header ++ words (image (checksumOf 0 accumulation (image 0))), word ≤ 65535 := by
    intro word inside
    rcases List.mem_append.mp inside with first | second
    · exact shorts word first
    · exact words_le _ word second
  have sum := sum_words_of_places places even (checksumOf 0 accumulation (image 0))
  have value : (accumulation + accumulate (image 0)).toNat = (header ++ words (image 0)).sum % 2 ^ 32 := by
    rw [BitVec.toNat_add, accumulate_toNat, same, ← Nat.add_mod, List.sum_append]
  have carries : (header ++ words (image 0)).sum / ((65535 + 1) * (65535 + 1)) + 1 < 65535 := by
    rw [List.sum_append]
    omega
  rw [foldsOnce_iff]
  apply onesSum_complement_iff all carries
  have square : (65535 + 1) * (65535 + 1) = 2 ^ 32 := by norm_num
  rw [List.sum_append, sum, checksumOf, if_pos rfl, fold_toNat, value, List.sum_append, square, Nat.add_assoc]

theorem zero_toNat : (0 : BitVec 32).toNat = ([] : List Nat).sum % 2 ^ 32 := by simp

/-! ## The classes -/

/-- The checksum of a serialized header; so for the other three layers. -/
theorem ipv4_verifies_iff {this this' : IPv4} {parent : Option Layer} {payloadData : Option (List Byte)}
    {data : List Byte} (zero : this.checksum = 0) (ok : this.serialize payloadData = .ok (data, this')) :
    onesSum 65535 (checkWords parent (.ipv4 this) data) = 65535 ↔
      FoldsOnce (checkWords parent (.ipv4 this) (Layer.unchecked (payloadData.getD []) (.ipv4 this))) := by
  obtain ⟨fits, rfl, rfl⟩ := ipv4_serialize_iff.mp ok
  generalize payloadData.getD [] = payload at *
  have covers : ∀ checksum : Short,
      (((this.setLengths payload.length).setChecksum checksum).header ++ payload).take (20 + (this.options.getD []).length) =
        ((this.setLengths payload.length).setChecksum checksum).header :=
    fun checksum => List.take_left' (length_ipv4_header _)
  have places := places_ipv4 (this.setLengths payload.length) []
  simp only [List.append_nil] at places
  have length : ((this.setLengths payload.length).setChecksum 0).header.length < 2 ^ 31 := by
    have header := fits.header
    rw [length_ipv4_header]
    show 20 + (this.options.getD []).length < _
    omega
  have verifies := onesSum_iff places (by decide) [] zero_toNat (by simp) (by simp) length
  rw [IPv4.written, zero]
  simpa only [checkWords, Layer.unchecked, covers, List.nil_append] using verifies

theorem tcp_verifies_iff {this this' : TCP} {parent : Option Layer} {payload data : List Byte} (zero : this.checksum = 0)
    (ok : this.serialize parent payload = .ok (data, this')) :
    onesSum 65535 (checkWords parent (.tcp this) data) = 65535 ↔
      FoldsOnce (checkWords parent (.tcp this) (Layer.unchecked payload (.tcp this))) := by
  obtain ⟨sourcePort, destinationPort, options, fits, rfl, rfl⟩ := tcp_serialize_iff.mp ok
  have places := places_tcp this sourcePort destinationPort (options ++ payload)
  simp only [← List.append_assoc] at places
  have length : ∀ that : TCP, (that.header sourcePort destinationPort ++ options ++ payload).length =
      20 + options.length + payload.length := by
    intro that
    rw [List.length_append, List.length_append, length_tcp_header]
  have total := fits.total
  have verifies := onesSum_iff places (by decide) _
    (parentHeader_toNat parent IpProtocol.TCP (BitVec.ofNat 32 (20 + options.length + payload.length)))
    (pseudoWords_le _ _ _) (length_pseudoWords _ _ _) (by rw [length]; exact total)
  have unchecked : Layer.unchecked payload (.tcp this) =
      (this.setChecksum 0).header sourcePort destinationPort ++ options ++ payload := by
    rw [Layer.unchecked, fits.sourcePort_eq, fits.destinationPort_eq, fits.options_eq]
    rfl
  rw [BitVec.toNat_ofNat, Nat.mod_eq_of_lt (by omega)] at verifies
  rw [checkWords, checkWords, unchecked, length, length, ← verifies, TCP.written, zero]

theorem udp_verifies_iff {this this' : UDP} {parent : Option Layer} {payloadData : Option (List Byte)} {data : List Byte}
    (zero : this.checksum = 0) (ok : this.serialize parent payloadData = .ok (data, this')) :
    onesSum 65535 (checkWords parent (.udp this) data) = 65535 ↔
      FoldsOnce (checkWords parent (.udp this) (Layer.unchecked (payloadData.getD []) (.udp this))) := by
  obtain ⟨sourcePort, destinationPort, fits, rfl, rfl⟩ := udp_serialize_iff.mp ok
  generalize payloadData.getD [] = payload at *
  have places := places_udp (this.setLength payload.length) sourcePort destinationPort payload
  have length : ∀ that : UDP, (that.header sourcePort destinationPort ++ payload).length = 8 + payload.length := by
    intro that
    rw [List.length_append, length_udp_header]
  have total := fits.total
  have verifies := onesSum_iff places (by decide) _
    (parentHeader_toNat parent IpProtocol.UDP (BitVec.ofNat 32 (8 + payload.length))) (pseudoWords_le _ _ _)
    (length_pseudoWords _ _ _) (by rw [length]; omega)
  have unchecked : Layer.unchecked payload (.udp this) =
      ((this.setLength payload.length).setChecksum 0).header sourcePort destinationPort ++ payload := by
    rw [Layer.unchecked, fits.sourcePort_eq, fits.destinationPort_eq]
    rfl
  rw [BitVec.toNat_ofNat, Nat.mod_eq_of_lt (by omega)] at verifies
  rw [checkWords, checkWords, unchecked, length, length, ← verifies, UDP.written, zero]

theorem icmp_verifies_iff {this this' : ICMP} {parent : Option Layer} {payload data : List Byte}
    (zero : this.checksum = 0) (ok : this.serialize payload = .ok (data, this')) :
    onesSum 65535 (checkWords parent (.icmp this) data) = 65535 ↔
      FoldsOnce (checkWords parent (.icmp this) (Layer.unchecked payload (.icmp this))) := by
  obtain ⟨total, rfl, rfl⟩ := icmp_serialize_iff.mp ok
  have length : ((this.setChecksum 0).header ++ payload).length < 2 ^ 31 := by
    rw [List.length_append, length_icmp_header]
    exact total
  have verifies := onesSum_iff (places_icmp this payload) (by decide) [] zero_toNat (by simp) (by simp) length
  simp only [List.nil_append] at verifies
  rw [checkWords, checkWords, Layer.unchecked, ← verifies, ICMP.written, zero]

/-! ## Every packet -/

/-- The checksum of one class, given the bytes of its payload. -/
theorem layer_verifies_iff {parent : Option Layer} {layer layer' : Layer} {payload : IPacket}
    {payloadData : Option (List Byte)} {data : List Byte} {touch : Touch} (zero : layer.checksum = some 0)
    (absent : payload = [] → payloadData = none)
    (ok : layer.serialize parent payload payloadData = .ok (some data, layer', touch)) :
    onesSum 65535 (checkWords parent layer data) = 65535 ↔
      FoldsOnce (checkWords parent layer (layer.unchecked (payloadData.getD []))) := by
  cases layer with
  | ipv4 this =>
    obtain ⟨⟨bytes, this'⟩, serialized, ok⟩ := bind_eq_ok ok
    cases ok
    exact ipv4_verifies_iff (Option.some.inj zero) serialized
  | tcp this =>
    obtain ⟨given, taken, ok⟩ := bind_eq_ok ok
    obtain ⟨⟨bytes, this'⟩, serialized, ok⟩ := bind_eq_ok ok
    cases ok
    rw [required_eq_ok absent taken]
    exact tcp_verifies_iff (Option.some.inj zero) serialized
  | udp this =>
    obtain ⟨⟨bytes, this'⟩, serialized, ok⟩ := bind_eq_ok ok
    cases ok
    exact udp_verifies_iff (Option.some.inj zero) serialized
  | icmp this =>
    obtain ⟨given, taken, ok⟩ := bind_eq_ok ok
    obtain ⟨⟨bytes, this'⟩, serialized, ok⟩ := bind_eq_ok ok
    cases ok
    rw [required_eq_ok absent taken]
    exact icmp_verifies_iff (Option.some.inj zero) serialized
  | _ => cases zero

/-- The payload of a packet does not change what its checksum covers, or that it is 0. -/
theorem checkWords_touch (parent : Option Layer) (layer : Layer) (touch : Touch) :
    checkWords parent (layer.prepare.touch touch) = checkWords parent layer := by
  cases layer <;> rfl

theorem checksum_touch {layer : Layer} (touch : Touch) (zero : layer.checksum = some 0) :
    (layer.prepare.touch touch).checksum = some 0 := by
  cases layer <;> simp_all [Layer.checksum, Layer.touch, Layer.prepare]

theorem hasPayload_of_checksum {layer : Layer} (zero : layer.checksum = some 0) : layer.hasPayload = true := by
  cases layer with
  | arp | lldp | dhcp | data => cases zero
  | _ => rfl

/-- For every packet with a checksum of 0: where `serialize` returns, its checksum verifies just
when the sum of the words before folds once. -/
theorem checksum_verifies_iff {parent : Option Layer} {layer : Layer} {payload payload' packet : IPacket}
    {payloadData : Option (List Byte)} {data : List Byte} {touch touch' : Touch} (zero : layer.checksum = some 0)
    (inner : serialize (some layer.prepare) payload = .ok (payloadData, payload', touch))
    (ok : serialize parent (layer :: payload) = .ok (some data, packet, touch')) :
    onesSum 65535 (checkWords parent layer data) = 65535 ↔
      FoldsOnce (checkWords parent layer ((layer.prepare.touch touch).unchecked (payloadData.getD []))) := by
  obtain ⟨_, _, _, layer', own, first, second, -, -⟩ := serialize_cons_ok (hasPayload_of_checksum zero) ok
  cases inner.symm.trans first
  rw [← checkWords_touch parent layer touch]
  exact layer_verifies_iff (checksum_touch touch zero) (payloadData_of_nil inner) second

/-- An IPv4 header without options, and its bytes. -/
def plainHeader (identification : Short) (sourceAddress : IPv4Address) : IPv4 :=
  { version := 4, headerLength := 0, diffServ := 0, totalLength := 0, identification := identification, flags := 0,
    fragmentOffset := 0, ttl := 0, protocol := 0, checksum := 0, sourceAddress := sourceAddress,
    destinationAddress := 0, options := none }

def plainBytes (identification checksum : Short) (sourceAddress : IPv4Address) : List Byte :=
  [0x45, 0, 0, 20] ++ putShort identification ++ [0, 0, 0, 0] ++ putShort checksum ++ putInt sourceAddress ++ [0, 0, 0, 0]

theorem checksum_verifies_iff_plain :
    onesSum 65535 (checkWords none (.ipv4 (plainHeader 0xffff 0xbaeb)) (plainBytes 0xffff 0 0xbaeb)) = 65535 :=
  (@checksum_verifies_iff none (.ipv4 (plainHeader 0xffff 0xbaeb)) [] [] _ none _ _ _ rfl rfl rfl).mpr (by decide)

/-- The words of this header add up to `0x1ffff`, which is `0x10000` after one fold: the checksum
is `0xffff`, and the sum with it is 1. -/
theorem checksum_misses_carry :
    ¬ ∀ (parent : Option Layer) (layer : Layer) (payload packet : IPacket) (data : List Byte) (touch : Touch),
      layer.checksum = some 0 → serialize parent (layer :: payload) = .ok (some data, packet, touch) →
      onesSum 65535 (checkWords parent layer data) = 65535 := by
  intro always
  have sum := always none (.ipv4 (plainHeader 0xffff 0xbaec)) [] _ (plainBytes 0xffff 0xffff 0xbaec) _ rfl rfl
  exact absurd sum (by decide)

end CodeClips.Packet
