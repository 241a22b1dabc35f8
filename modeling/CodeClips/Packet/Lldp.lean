import CodeClips.Lib.Bits
import CodeClips.Packet.ByteBuffer

/-!
# `LLDP` and `LLDPTLV`

A type of 7 bits and a length of 9 share a short at the start of each TLV. The decoder reads
TLVs until one of type 0, and fills in the packet by their types. `deserialize_serialize` is the
round trip of the packets whose TLVs have the length of their value.
-/

namespace CodeClips.Packet
open ByteBuffer

/-- A TLV: seven bits of type, nine bits of length and the value. -/
structure LLDPTLV where
  type : Byte
  length : Short
  value : Option (List Byte)
  deriving DecidableEq

/-- `getLength()` as an `int`. -/
def LLDPTLV.getLength (tlv : LLDPTLV) : BitVec 32 := tlv.length.signExtend 32

/-- The type and the length in one short. -/
def LLDPTLV.scratch (type : Byte) (length : Short) : Short :=
  (type &&& 0x7f).setWidth 16 <<< 9 ||| (length &&& 0x1ff)

/-- The short and the value, in an array of the length that is given. -/
def LLDPTLV.serialize (tlv : LLDPTLV) : Java (List Byte) :=
  allocate (2 + tlv.getLength) (putShort (scratch tlv.type tlv.length) ++ tlv.value.getD [])

/-- `none` is the `null` after an underrun. -/
def LLDPTLV.deserialize : ByteBuffer (Option LLDPTLV) := do
  let sscratch ← getShort
  let type : Byte := (sscratch.sshiftRight 9 &&& 0x7f).setWidth 8
  let length := sscratch &&& 0x1ff
  if 0 < length.toInt then
    if (← remaining) < length.toNat then pure none
    else
      let value ← getBytes length.toNat
      pure (some { type := type, length := length, value := some value })
  else pure (some { type := type, length := length, value := none })

/-- The three TLVs that have to be there, and the others. -/
structure LLDP where
  chassisId : Option LLDPTLV
  portId : Option LLDPTLV
  ttl : Option LLDPTLV
  optionalTLVList : List (Option LLDPTLV)
  deriving DecidableEq

def LLDP.new : LLDP := { chassisId := none, portId := none, ttl := none, optionalTLVList := [] }

/-- The length of all TLVs with the last one. -/
def LLDP.length (chassisId portId ttl : LLDPTLV) (optional : List LLDPTLV) : BitVec 32 :=
  optional.foldl (fun length tlv => length + (2 + tlv.getLength))
    (2 + chassisId.getLength + 2 + portId.getLength + 2 + ttl.getLength + 2)

/-- Optional TLVs that are `null` are passed. -/
def LLDP.serialize (lldp : LLDP) : Java (List Byte) := do
  let chassisId ← nonNull lldp.chassisId
  let portId ← nonNull lldp.portId
  let ttl ← nonNull lldp.ttl
  let optional := lldp.optionalTLVList.filterMap id
  let tlvs ← (chassisId :: portId :: ttl :: optional).mapM LLDPTLV.serialize
  allocate (LLDP.length chassisId portId ttl optional) (tlvs.flatten ++ putShort 0)

/-- The `switch` on the type of a TLV. -/
def LLDP.set (lldp : LLDP) (tlv : LLDPTLV) : LLDP :=
  if tlv.type = 0 then lldp
  else if tlv.type = 1 then { lldp with chassisId := some tlv }
  else if tlv.type = 2 then { lldp with portId := some tlv }
  else if tlv.type = 3 then { lldp with ttl := some tlv }
  else { lldp with optionalTLVList := lldp.optionalTLVList ++ [some tlv] }

/-- A TLV takes at least its short. -/
theorem length_of_deserialize {input rest : List Byte} {tlv : Option LLDPTLV}
    (ok : LLDPTLV.deserialize.run input = .ok (tlv, rest)) : rest.length < input.length := by
  rw [LLDPTLV.deserialize] at ok
  obtain ⟨sscratch, mid, short, ok⟩ := run_bind_eq_ok ok
  obtain ⟨bytes, mid', read, value⟩ := run_bind_eq_ok short
  obtain ⟨enough, -, rfl⟩ := take_eq_ok read
  cases value
  have shorter : (input.drop 2).length < input.length := by
    rw [List.length_drop]
    omega
  dsimp only at ok
  split at ok
  · obtain ⟨n, mid, counted, ok⟩ := run_bind_eq_ok ok
    cases counted
    split at ok
    · cases ok
      exact shorter
    · obtain ⟨bytes, mid, read, ok⟩ := run_bind_eq_ok ok
      obtain ⟨-, -, rfl⟩ := take_eq_ok read
      cases ok
      exact lt_of_le_of_lt (List.length_drop ▸ Nat.sub_le _ _) shorter
  · cases ok
    exact shorter

/-- The loop over the TLVs; it returns what it leaves of the buffer as well. -/
def LLDP.deserialize_from (lldp : LLDP) (input : List Byte) : Java (LLDP × List Byte) :=
  match _ : LLDPTLV.deserialize.run input with
  | .error e => .error e
  | .ok (none, rest) => .ok (lldp, rest)
  | .ok (some tlv, rest) =>
    if tlv.type ≠ 0 ∧ rest ≠ [] then LLDP.deserialize_from (lldp.set tlv) rest else .ok (lldp.set tlv, rest)
termination_by input.length
decreasing_by exact length_of_deserialize ‹_›

/-- From an object as the constructor makes it. -/
def LLDP.deserialize : ByteBuffer LLDP := LLDP.deserialize_from .new

/-! ## One TLV -/

/-- The length of a TLV is that of its value, and no value is an empty one. -/
structure LLDPTLV.Sized (tlv : LLDPTLV) : Prop where
  length : tlv.length.toNat = (tlv.value.getD []).length
  value : tlv.value ≠ some []
  most : tlv.length.toNat ≤ 511
  type : tlv.type.toNat ≤ 127

section Scratch
variable {type : Byte} {length : Short} (low : type.toNat ≤ 127) (short : length.toNat ≤ 511)
include low short

/-- The type stands above the nine bits of the length. -/
theorem toNat_scratch : (LLDPTLV.scratch type length).toNat = type.toNat * 2 ^ 9 + length.toNat := by
  have seven : (type &&& 0x7f).toNat = type.toNat := by
    rw [toNat_and_mask type 7 rfl]
    exact Nat.mod_eq_of_lt (by omega)
  have nine : (length &&& 0x1ff).toNat = length.toNat := by
    rw [toNat_and_mask length 9 rfl]
    exact Nat.mod_eq_of_lt (by omega)
  have wide : ((type &&& 0x7f).setWidth 16).toNat = type.toNat := by
    rw [BitVec.toNat_setWidth, seven]
    exact Nat.mod_eq_of_lt (by omega)
  rw [LLDPTLV.scratch, toNat_shiftLeft_or (by rw [wide]; omega) (by rw [nine]; omega), wide, nine]

/-- The type is read back, although the shift is arithmetic. -/
theorem type_of_scratch : ((LLDPTLV.scratch type length).sshiftRight 9 &&& 0x7f).setWidth 8 = type := by
  apply BitVec.eq_of_toNat_eq
  rw [BitVec.toNat_setWidth, toNat_sshiftRight_and _ 9 7 rfl (by decide), toNat_scratch low short]
  omega

/-- And the length. -/
theorem length_of_scratch : LLDPTLV.scratch type length &&& 0x1ff = length := by
  apply BitVec.eq_of_toNat_eq
  rw [toNat_and_mask _ 9 rfl, toNat_scratch low short]
  omega

end Scratch

/-- The bytes of a TLV whose length is that of its value. -/
def LLDPTLV.bytes (tlv : LLDPTLV) : List Byte := putShort (scratch tlv.type tlv.length) ++ tlv.value.getD []

section Tlv
variable {tlv : LLDPTLV} (sized : tlv.Sized)
include sized

theorem length_bytes : tlv.bytes.length = 2 + tlv.length.toNat := by
  rw [LLDPTLV.bytes, List.length_append, length_putShort, sized.length]

theorem toNat_getLength : tlv.getLength.toNat = tlv.length.toNat := by
  have positive : tlv.length.msb = false := by
    rw [BitVec.msb_eq_false_iff_two_mul_lt]
    have most := sized.most
    omega
  rw [LLDPTLV.getLength, BitVec.signExtend_eq_setWidth_of_msb_false positive, BitVec.toNat_setWidth]
  exact Nat.mod_eq_of_lt (by omega)

/-- Such a TLV is written in full. -/
theorem serialize_tlv : tlv.serialize = .ok tlv.bytes := by
  have most := sized.most
  have length : (2 + tlv.getLength).toNat = 2 + tlv.length.toNat := by
    have two : (2 : BitVec 32).toNat = 2 := rfl
    rw [BitVec.toNat_add, toNat_getLength sized, two]
    exact Nat.mod_eq_of_lt (by omega)
  apply allocate_exact
  rw [BitVec.toInt_eq_toNat_of_lt (by omega), length, ← length_bytes sized]
  rfl

/-- And is read as it was written. -/
theorem reads_tlv : Reads LLDPTLV.deserialize tlv.bytes (some tlv) := by
  have most := sized.most
  apply (reads_getShort _).bind
  rw [type_of_scratch sized.type most, length_of_scratch sized.type most]
  have value := sized.length
  have positive : tlv.length.toInt = tlv.length.toNat := BitVec.toInt_eq_toNat_of_lt (by omega)
  obtain ⟨type, length, _ | bytes⟩ := tlv
  · change length.toNat = 0 at value
    change length.toInt = length.toNat at positive
    rw [if_neg (by show ¬ 0 < length.toInt; omega)]
    exact .pure _
  · change length.toNat = bytes.length at value
    change length.toInt = length.toNat at positive
    have full : bytes ≠ [] := fun empty => sized.value (congrArg Option.some empty)
    have long := List.length_pos_of_ne_nil full
    rw [if_pos (by show 0 < length.toInt; omega)]
    intro rest
    have enough : ¬ (bytes ++ rest).length < length.toNat := by
      rw [List.length_append]
      omega
    show (if (bytes ++ rest).length < length.toNat then pure none else
      (do let value ← getBytes length.toNat; pure (some { type := type, length := length, value := some value }) :
        ByteBuffer (Option LLDPTLV))).run (bytes ++ rest) = _
    rw [if_neg enough]
    exact (reads_getBytes value.symm).map (fun value => some (LLDPTLV.mk type length (some value))) rest

end Tlv

/-- What ends the list of TLVs. -/
def LLDPTLV.last : LLDPTLV := { type := 0, length := 0, value := none }

theorem bytes_last : LLDPTLV.last.bytes = putShort 0 := rfl

/-- The last TLV is one of these. -/
theorem sized_last : LLDPTLV.last.Sized := ⟨rfl, fun empty => (nomatch empty), by decide, by decide⟩

/-! ## The list of TLVs -/

/-- A TLV is read and set, and the reading goes on unless it is the last. -/
theorem deserialize_from_tlv {tlv : LLDPTLV} (sized : tlv.Sized) (lldp : LLDP) (rest : List Byte) :
    LLDP.deserialize_from lldp (tlv.bytes ++ rest) =
      if tlv.type ≠ 0 ∧ rest ≠ [] then LLDP.deserialize_from (lldp.set tlv) rest else .ok (lldp.set tlv, rest) := by
  rw [LLDP.deserialize_from]
  split
  · rename_i failed
    rw [reads_tlv sized rest] at failed
    cases failed
  · rename_i underrun
    rw [reads_tlv sized rest] at underrun
    cases underrun
  · rename_i read
    rw [reads_tlv sized rest] at read
    cases read
    rfl

/-- The loop takes each TLV, and stops after the one of type 0. -/
theorem deserialize_from_tlvs (tlvs : List LLDPTLV) (sized : ∀ tlv ∈ tlvs, tlv.Sized ∧ tlv.type ≠ 0) (lldp : LLDP)
    (rest : List Byte) :
    LLDP.deserialize_from lldp (tlvs.flatMap LLDPTLV.bytes ++ (putShort 0 ++ rest)) =
      .ok (tlvs.foldl LLDP.set lldp, rest) := by
  induction tlvs generalizing lldp with
  | nil =>
    rw [List.flatMap_nil, List.nil_append, ← bytes_last, deserialize_from_tlv sized_last]
    rfl
  | cons tlv tlvs ih =>
    rw [List.forall_mem_cons] at sized
    have more : tlvs.flatMap LLDPTLV.bytes ++ (putShort 0 ++ rest) ≠ [] := by
      intro empty
      have length := congrArg List.length empty
      rw [List.length_append, List.length_append, length_putShort, List.length_nil] at length
      omega
    rw [List.flatMap_cons, List.append_assoc, deserialize_from_tlv sized.1.1, if_pos ⟨sized.1.2, more⟩, ih sized.2,
      List.foldl_cons]

/-- TLVs that fit are written one by one. -/
theorem mapM_serialize {tlvs : List LLDPTLV} (sized : ∀ tlv ∈ tlvs, tlv.Sized) :
    tlvs.mapM LLDPTLV.serialize = .ok (tlvs.map LLDPTLV.bytes) := by
  induction tlvs with
  | nil => rfl
  | cons tlv tlvs ih =>
    rw [List.forall_mem_cons] at sized
    rw [List.mapM_cons, serialize_tlv sized.1, ih sized.2]
    rfl

/-- A packet of TLVs of its types, each with the length of its value. -/
structure LLDP.Valid (chassisId portId ttl : LLDPTLV) (optional : List LLDPTLV) : Prop where
  sized : ∀ tlv ∈ chassisId :: portId :: ttl :: optional, tlv.Sized
  chassisId : chassisId.type = 1
  portId : portId.type = 2
  ttl : ttl.type = 3
  optional : ∀ tlv ∈ optional, 4 ≤ tlv.type.toNat

/-- The packet with these TLVs. -/
def LLDP.of (chassisId portId ttl : LLDPTLV) (optional : List LLDPTLV) : LLDP :=
  { chassisId := some chassisId, portId := some portId, ttl := some ttl, optionalTLVList := optional.map some }

/-- What the packet takes: two bytes and the length of each TLV, and the end. -/
def LLDP.size (tlvs : List LLDPTLV) : Nat := (tlvs.map fun tlv => 2 + tlv.length.toNat).sum + 2

/-- The TLVs one behind another, and the last one. -/
def LLDP.bytes (tlvs : List LLDPTLV) : List Byte := tlvs.flatMap LLDPTLV.bytes ++ putShort 0

section Packet
variable {chassisId portId ttl : LLDPTLV} {optional : List LLDPTLV}

theorem length_lldp_bytes {tlvs : List LLDPTLV} (sized : ∀ tlv ∈ tlvs, tlv.Sized) :
    (LLDP.bytes tlvs).length = LLDP.size tlvs := by
  have lengths : tlvs.map (fun tlv => tlv.bytes.length) = tlvs.map fun tlv => 2 + tlv.length.toNat :=
    List.map_congr_left (fun tlv member => length_bytes (sized tlv member))
  rw [LLDP.bytes, LLDP.size, List.length_append, length_putShort, List.length_flatMap, lengths]

/-- The length is counted in an `int`. -/
theorem length_eq_ofNat (valid : LLDP.Valid chassisId portId ttl optional) :
    LLDP.length chassisId portId ttl optional = BitVec.ofNat 32 (LLDP.size (chassisId :: portId :: ttl :: optional)) := by
  have getLength_eq {tlv : LLDPTLV} (sized : tlv.Sized) : tlv.getLength = BitVec.ofNat 32 tlv.length.toNat := by
    rw [← toNat_getLength sized, BitVec.ofNat_toNat, BitVec.setWidth_eq]
  have counted : ∀ (tlvs : List LLDPTLV) (n : Nat), (∀ tlv ∈ tlvs, tlv.Sized) →
      tlvs.foldl (fun length tlv => length + (2 + tlv.getLength)) (BitVec.ofNat 32 n) =
        BitVec.ofNat 32 (n + (tlvs.map fun tlv => 2 + tlv.length.toNat).sum) := by
    intro tlvs
    induction tlvs with
    | nil => intros; rfl
    | cons tlv tlvs ih =>
      intro n sized
      rw [List.forall_mem_cons] at sized
      rw [List.foldl_cons, getLength_eq sized.1]
      have next := ih (n + (2 + tlv.length.toNat)) sized.2
      rw [BitVec.ofNat_add, BitVec.ofNat_add] at next
      rw [List.map_cons, List.sum_cons, ← Nat.add_assoc]
      exact next
  obtain ⟨chassis, port, life, optionals⟩ := by
    have sized := valid.sized
    simpa only [List.forall_mem_cons] using sized
  have start : (2 + chassisId.getLength + 2 + portId.getLength + 2 + ttl.getLength + 2 : BitVec 32) =
      BitVec.ofNat 32 (2 + chassisId.length.toNat + 2 + portId.length.toNat + 2 + ttl.length.toNat + 2) := by
    rw [getLength_eq chassis, getLength_eq port, getLength_eq life]
    simp only [BitVec.ofNat_add]
    rfl
  rw [LLDP.length, start, counted optional _ optionals, LLDP.size]
  simp only [List.map_cons, List.sum_cons]
  congr 1
  omega

/-- The packet is put into an array of the length that its TLVs add up to, in 32 bits. -/
theorem serialize_of (valid : LLDP.Valid chassisId portId ttl optional) :
    (LLDP.of chassisId portId ttl optional).serialize =
      allocate (BitVec.ofNat 32 (LLDP.size (chassisId :: portId :: ttl :: optional)))
        (LLDP.bytes (chassisId :: portId :: ttl :: optional)) := by
  have present : (optional.map some).filterMap id = optional := by
    rw [List.filterMap_map]
    exact List.filterMap_some
  show (do
    let tlvs ← (chassisId :: portId :: ttl :: (optional.map some).filterMap id).mapM LLDPTLV.serialize
    allocate (LLDP.length chassisId portId ttl ((optional.map some).filterMap id)) (tlvs.flatten ++ putShort 0)) = _
  rw [present, mapM_serialize valid.sized, length_eq_ofNat valid, LLDP.bytes, List.flatMap_def]
  rfl

/-- The TLVs of a packet, set one after the other, make the packet. -/
theorem foldl_set (valid : LLDP.Valid chassisId portId ttl optional) :
    (chassisId :: portId :: ttl :: optional).foldl LLDP.set .new = LLDP.of chassisId portId ttl optional := by
  have optionals : ∀ (tlvs : List LLDPTLV) (lldp : LLDP), (∀ tlv ∈ tlvs, 4 ≤ tlv.type.toNat) →
      tlvs.foldl LLDP.set lldp = { lldp with optionalTLVList := lldp.optionalTLVList ++ tlvs.map some } := by
    intro tlvs
    induction tlvs with
    | nil => intro lldp _; simp
    | cons tlv tlvs ih =>
      intro lldp types
      rw [List.forall_mem_cons] at types
      have differ (n : Byte) (small : n.toNat < 4) : ¬ tlv.type = n := by
        rintro rfl
        omega
      rw [List.foldl_cons, ih _ types.2, LLDP.set, if_neg (differ 0 (by decide)), if_neg (differ 1 (by decide)),
        if_neg (differ 2 (by decide)), if_neg (differ 3 (by decide))]
      simp
  rw [List.foldl_cons, List.foldl_cons, List.foldl_cons, optionals _ _ valid.optional]
  simp [LLDP.set, LLDP.of, LLDP.new, valid.chassisId, valid.portId, valid.ttl]

end Packet

/-- **Round trip**: a packet whose encoding fits an array is decoded to itself, and its end is
consumed. -/
theorem deserialize_serialize (chassisId portId ttl : LLDPTLV) (optional : List LLDPTLV)
    (valid : LLDP.Valid chassisId portId ttl optional)
    (fits : LLDP.size (chassisId :: portId :: ttl :: optional) < 2 ^ 31) :
    ∃ data, (LLDP.of chassisId portId ttl optional).serialize = .ok data ∧
      LLDP.deserialize.run data = .ok (LLDP.of chassisId portId ttl optional, []) := by
  refine ⟨LLDP.bytes (chassisId :: portId :: ttl :: optional), ?_, ?_⟩
  · rw [serialize_of valid]
    apply allocate_exact
    have small : (BitVec.ofNat 32 (LLDP.size (chassisId :: portId :: ttl :: optional))).toNat =
        LLDP.size (chassisId :: portId :: ttl :: optional) := by
      rw [BitVec.toNat_ofNat]
      exact Nat.mod_eq_of_lt (by omega)
    rw [length_lldp_bytes valid.sized, BitVec.toInt_eq_toNat_of_lt (by omega), small]
  · have types : ∀ tlv ∈ chassisId :: portId :: ttl :: optional, tlv.Sized ∧ tlv.type ≠ 0 := by
      intro tlv member
      refine ⟨valid.sized tlv member, ?_⟩
      intro zero
      simp only [List.mem_cons] at member
      rcases member with rfl | rfl | rfl | member
      · exact absurd (valid.chassisId.symm.trans zero) (by decide)
      · exact absurd (valid.portId.symm.trans zero) (by decide)
      · exact absurd (valid.ttl.symm.trans zero) (by decide)
      · have least := valid.optional tlv member
        rw [zero] at least
        exact absurd least (by decide)
    have all := deserialize_from_tlvs _ types .new []
    rw [List.append_nil, foldl_set valid] at all
    exact all

/-- A TLV with the length of its value. -/
def tlvOf (type : Byte) (value : List Byte) : LLDPTLV :=
  { type := type, length := BitVec.ofNat 16 value.length, value := some value }

/-- An optional TLV without a value, and one of three bytes. -/
theorem deserialize_serialize_five : ∃ data,
    (LLDP.of (tlvOf 1 [4, 1]) (tlvOf 2 [7]) (tlvOf 3 [0, 120]) [⟨127, 0, none⟩, tlvOf 5 [65, 66, 67]]).serialize =
        .ok data ∧
      LLDP.deserialize.run data =
        .ok (LLDP.of (tlvOf 1 [4, 1]) (tlvOf 2 [7]) (tlvOf 3 [0, 120]) [⟨127, 0, none⟩, tlvOf 5 [65, 66, 67]], []) := by
  have sized : ∀ tlv ∈ [tlvOf 1 [4, 1], tlvOf 2 [7], tlvOf 3 [0, 120], ⟨127, 0, none⟩, tlvOf 5 [65, 66, 67]],
      tlv.Sized := by
    simp only [List.forall_mem_cons]
    refine ⟨?_, ?_, ?_, ?_, ?_, List.forall_mem_nil _⟩
    all_goals
      exact ⟨by decide, by decide, by decide, by decide⟩
  exact deserialize_serialize _ _ _ _ ⟨sized, rfl, rfl, rfl, by decide⟩ (by decide)

/-- A TLV of the greatest length. -/
def longTlv : LLDPTLV := { type := 4, length := 511, value := some (List.replicate 511 0) }

theorem sized_longTlv : longTlv.Sized := by
  refine ⟨List.length_replicate.symm, ?_, by decide, by decide⟩
  intro empty
  have length := congrArg (fun value => (value.getD []).length) empty
  change (List.replicate 511 (0 : Byte)).length = 0 at length
  rw [List.length_replicate] at length
  omega

theorem valid_long (n : Nat) :
    LLDP.Valid (tlvOf 1 [4]) (tlvOf 2 [7]) (tlvOf 3 [0]) (List.replicate n longTlv) := by
  refine ⟨?_, rfl, rfl, rfl, ?_⟩
  · simp only [List.forall_mem_cons]
    refine ⟨?_, ?_, ?_, ?_⟩
    · exact ⟨by decide, by decide, by decide, by decide⟩
    · exact ⟨by decide, by decide, by decide, by decide⟩
    · exact ⟨by decide, by decide, by decide, by decide⟩
    · intro tlv member
      rw [List.eq_of_mem_replicate member]
      exact sized_longTlv
  · intro tlv member
    rw [List.eq_of_mem_replicate member]
    decide

theorem size_long (n : Nat) :
    LLDP.size (tlvOf 1 [4] :: tlvOf 2 [7] :: tlvOf 3 [0] :: List.replicate n longTlv) = 513 * n + 11 := by
  rw [LLDP.size, List.map_cons, List.map_cons, List.map_cons, List.map_replicate, List.sum_cons, List.sum_cons,
    List.sum_cons, List.sum_replicate_nat]
  show 3 + (3 + (3 + n * 513)) + 2 = _
  omega

/-- Four million TLVs of 511 bytes are more than an array holds. -/
theorem serialize_too_long : ¬ ∀ (chassisId portId ttl : LLDPTLV) (optional : List LLDPTLV),
    LLDP.Valid chassisId portId ttl optional →
      ∃ data, (LLDP.of chassisId portId ttl optional).serialize = .ok data ∧
        LLDP.deserialize.run data = .ok (LLDP.of chassisId portId ttl optional, []) := by
  intro roundTrip
  obtain ⟨data, ok, -⟩ := roundTrip _ _ _ _ (valid_long 4194304)
  rw [serialize_of (valid_long 4194304), size_long] at ok
  obtain ⟨-, positive, -⟩ := allocate_eq_ok ok
  exact absurd positive (by decide)

end CodeClips.Packet
