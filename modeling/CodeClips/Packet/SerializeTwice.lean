import CodeClips.Packet.Clone
import CodeClips.Packet.OrganizationalTlv

/-!
# `serialize` twice

A packet after `serialize` gives the same bytes again and is left as it is, with any layers and
whatever its payloads have set or reset. The TLVs of an `LLDP` are of either class here: one of
the subclass sets its value before it is put.
-/

namespace CodeClips.Packet

/-! ## `LLDP` with TLVs of either class -/

def TLV.serialize : TLV → Java (List Byte × TLV)
  | .plain this => do
    let data ← this.serialize
    pure (data, .plain this)
  | .organizational this => do
    let (data, this) ← this.serialize
    pure (data, .organizational this)

/-- The fields of an `LLDP`, as objects. -/
structure LLDPObjects where
  chassisId : Option TLV
  portId : Option TLV
  ttl : Option TLV
  optionalTLVList : List (Option TLV)

/-- What is put for an entry of the list: nothing for `null`. -/
def serializeOptional : Option TLV → Java (List Byte × Option TLV)
  | none => pure ([], none)
  | some tlv => do
    let (data, tlv) ← tlv.serialize
    pure (data, some tlv)

def LLDPObjects.length (chassisId portId ttl : TLV) (optional : List (Option TLV)) : BitVec 32 :=
  LLDP.length chassisId.toLLDPTLV portId.toLLDPTLV ttl.toLLDPTLV ((optional.filterMap id).map TLV.toLLDPTLV)

def LLDPObjects.serialize (this : LLDPObjects) : Java (List Byte × LLDPObjects) := do
  let chassisId ← nonNull this.chassisId
  let portId ← nonNull this.portId
  let ttl ← nonNull this.ttl
  let length := LLDPObjects.length chassisId portId ttl this.optionalTLVList
  let (first, chassisId) ← chassisId.serialize
  let (second, portId) ← portId.serialize
  let (third, ttl) ← ttl.serialize
  let optional ← this.optionalTLVList.mapM serializeOptional
  let data ← allocate length (first ++ second ++ third ++ (optional.map Prod.fst).flatten ++ putShort 0)
  pure (data, { chassisId := some chassisId, portId := some portId, ttl := some ttl,
                optionalTLVList := optional.map Prod.snd })

/-- A step that leaves its object so that it does the same again. -/
def Repeats {α β : Type} (f : α → Java (β × α)) : Prop := ∀ a b a', f a = .ok (b, a') → f a' = .ok (b, a')

/-- A list of such objects serializes alike a second time. -/
theorem mapM_repeats {α β : Type} {f : α → Java (β × α)} (repeats : Repeats f)
    {as : List α} {results : List (β × α)}
    (ok : as.mapM f = .ok results) : (results.map Prod.snd).mapM f = .ok results := by
  induction as generalizing results with
  | nil =>
    cases ok
    rfl
  | cons a as ih =>
    rw [List.mapM_cons] at ok
    obtain ⟨result, here, ok⟩ := bind_eq_ok ok
    obtain ⟨more, later, ok⟩ := bind_eq_ok ok
    cases ok
    rw [List.map_cons, List.mapM_cons, ih later, repeats a result.1 result.2 here]
    rfl

/-- The value is put together again from the same fields. -/
theorem organizational_repeats : Repeats LLDPOrganizationalTLV.serialize := by
  intro this data this' ok
  have whole := ok
  obtain ⟨infoString, -, ok⟩ := bind_eq_ok ok
  obtain ⟨oui, -, ok⟩ := bind_eq_ok ok
  obtain ⟨value, -, ok⟩ := bind_eq_ok ok
  obtain ⟨bytes, -, done⟩ := bind_eq_ok ok
  cases done
  exact whole

/-- A TLV of either class serializes alike a second time. -/
theorem tlv_repeats : Repeats TLV.serialize := by
  intro tlv data tlv' ok
  cases tlv with
  | plain this =>
    obtain ⟨bytes, encoded, done⟩ := bind_eq_ok ok
    cases done
    exact ok
  | organizational this =>
    obtain ⟨⟨bytes, this'⟩, encoded, done⟩ := bind_eq_ok ok
    cases done
    simp only [TLV.serialize, organizational_repeats _ _ _ encoded]
    rfl

theorem serializeOptional_repeats : Repeats serializeOptional := by
  intro entry data entry' ok
  cases entry with
  | none =>
    cases ok
    rfl
  | some tlv =>
    obtain ⟨⟨bytes, tlv'⟩, encoded, done⟩ := bind_eq_ok ok
    cases done
    simp only [serializeOptional, tlv_repeats _ _ _ encoded]
    rfl

/-- No TLV changes its length. -/
theorem getLength_of_serialize {tlv tlv' : TLV} {data : List Byte} (ok : tlv.serialize = .ok (data, tlv')) :
    tlv'.toLLDPTLV.getLength = tlv.toLLDPTLV.getLength := by
  cases tlv with
  | plain this =>
    obtain ⟨bytes, -, done⟩ := bind_eq_ok ok
    cases done
    rfl
  | organizational this =>
    obtain ⟨⟨bytes, this'⟩, encoded, done⟩ := bind_eq_ok ok
    cases done
    obtain ⟨infoString, -, ok⟩ := bind_eq_ok encoded
    obtain ⟨oui, -, ok⟩ := bind_eq_ok ok
    obtain ⟨value, -, ok⟩ := bind_eq_ok ok
    obtain ⟨bytes', -, done⟩ := bind_eq_ok ok
    cases done
    rfl

/-- The lengths of a list, in the order that they are added up. -/
def lengths (optional : List (Option TLV)) : List (BitVec 32) :=
  ((optional.filterMap id).map TLV.toLLDPTLV).map LLDPTLV.getLength

/-- No TLV has another length after it has been serialized. -/
theorem lengths_of_mapM {optional : List (Option TLV)} {results : List (List Byte × Option TLV)}
    (ok : optional.mapM serializeOptional = .ok results) : lengths (results.map Prod.snd) = lengths optional := by
  induction optional generalizing results with
  | nil =>
    cases ok
    rfl
  | cons entry optional ih =>
    rw [List.mapM_cons] at ok
    obtain ⟨result, here, ok⟩ := bind_eq_ok ok
    obtain ⟨more, later, ok⟩ := bind_eq_ok ok
    cases ok
    cases entry with
    | none =>
      cases here
      show lengths (more.map Prod.snd) = lengths optional
      exact ih later
    | some tlv =>
      obtain ⟨⟨bytes, tlv'⟩, encoded, done⟩ := bind_eq_ok here
      cases done
      exact congrArg₂ List.cons (getLength_of_serialize encoded) (ih later)

/-- The length of the packet is a matter of the lengths of its TLVs. -/
theorem length_congr {a a' b b' c c' : TLV} {optional optional' : List (Option TLV)}
    (first : a'.toLLDPTLV.getLength = a.toLLDPTLV.getLength) (second : b'.toLLDPTLV.getLength = b.toLLDPTLV.getLength)
    (third : c'.toLLDPTLV.getLength = c.toLLDPTLV.getLength) (rest : lengths optional' = lengths optional) :
    LLDPObjects.length a' b' c' optional' = LLDPObjects.length a b c optional := by
  have folded : ∀ (optional : List (Option TLV)) (n : BitVec 32),
      ((optional.filterMap id).map TLV.toLLDPTLV).foldl (fun length tlv => length + (2 + tlv.getLength)) n =
        (lengths optional).foldl (fun length tlv => length + (2 + tlv)) n := by
    intro optional n
    rw [lengths, List.foldl_map, List.foldl_map, List.foldl_map]
  rw [LLDPObjects.length, LLDPObjects.length, LLDP.length, LLDP.length, folded, folded, first, second, third, rest]

theorem lldp_repeats : Repeats LLDPObjects.serialize := by
  rintro ⟨chassisId, portId, ttl, optionalTLVList⟩ data lldp' ok
  obtain ⟨a, given₁, ok⟩ := bind_eq_ok ok
  obtain ⟨b, given₂, ok⟩ := bind_eq_ok ok
  obtain ⟨c, given₃, ok⟩ := bind_eq_ok ok
  obtain ⟨⟨bytes₁, a'⟩, first, ok⟩ := bind_eq_ok ok
  obtain ⟨⟨bytes₂, b'⟩, second, ok⟩ := bind_eq_ok ok
  obtain ⟨⟨bytes₃, c'⟩, third, ok⟩ := bind_eq_ok ok
  obtain ⟨optional, rest, ok⟩ := bind_eq_ok ok
  obtain ⟨bytes, allocated, done⟩ := bind_eq_ok ok
  cases done
  have length := length_congr (getLength_of_serialize first) (getLength_of_serialize second)
    (getLength_of_serialize third) (lengths_of_mapM rest)
  rw [← length] at allocated
  simp only [LLDPObjects.serialize, nonNull, bind, Except.bind, tlv_repeats _ _ _ first, tlv_repeats _ _ _ second,
    tlv_repeats _ _ _ third, mapM_repeats serializeOptional_repeats rest, allocated]
  rfl

/-! Of plain TLVs the objects put what the layer does. -/

/-- The TLVs that are not null, as `LLDP.serialize` writes them. -/
theorem plain_optional (optional : List (Option LLDPTLV)) :
    ((optional.map (Option.map TLV.plain)).mapM serializeOptional).map (fun results => (results.map Prod.fst).flatten) =
      ((optional.filterMap id).mapM LLDPTLV.serialize).map List.flatten := by
  induction optional with
  | nil => rfl
  | cons entry optional ih =>
    cases entry with
    | none =>
      rw [List.map_cons, List.mapM_cons, List.filterMap_cons_none rfl, ← ih]
      show Except.map _ (do let rest ← List.mapM serializeOptional _; pure (([], none) :: rest)) = _
      cases List.mapM serializeOptional (optional.map (Option.map TLV.plain)) <;> rfl
    | some tlv =>
      have front : (some tlv :: optional).filterMap id = tlv :: optional.filterMap id := rfl
      rw [List.map_cons, List.mapM_cons, front, List.mapM_cons]
      cases encoded : tlv.serialize with
      | error e =>
        simp only [Option.map_some, serializeOptional, TLV.serialize, encoded]
        rfl
      | ok data =>
        have step : serializeOptional (Option.map TLV.plain (some tlv)) = .ok (data, some (.plain tlv)) := by
          simp only [Option.map_some, serializeOptional, TLV.serialize, encoded]
          rfl
        rw [step]
        rcases map_eq_map_cases ih with ⟨e, optional, plain⟩ | ⟨results, tlvs, optional, plain, joined⟩
        · rw [optional, plain]
          rfl
        · rw [optional, plain]
          exact congrArg (fun bytes => Except.ok (data ++ bytes)) joined

/-- With TLVs of the base class it is `LLDP.serialize`. -/
theorem serialize_plain (lldp : LLDP) :
    (LLDPObjects.serialize ⟨lldp.chassisId.map .plain, lldp.portId.map .plain, lldp.ttl.map .plain,
      lldp.optionalTLVList.map (Option.map .plain)⟩).map Prod.fst = lldp.serialize := by
  obtain ⟨chassisId, portId, ttl, optional⟩ := lldp
  have tlvs : (optional.map (Option.map TLV.plain)).filterMap id = (optional.filterMap id).map TLV.plain := by
    induction optional with
    | nil => rfl
    | cons entry optional ih =>
      cases entry with
      | none => exact ih
      | some tlv => exact congrArg (List.cons (TLV.plain tlv)) ih
  rcases chassisId with _ | a
  · rfl
  rcases portId with _ | b
  · rfl
  rcases ttl with _ | c
  · rfl
  have length : LLDPObjects.length (.plain a) (.plain b) (.plain c) (optional.map (Option.map .plain)) =
      LLDP.length a b c (optional.filterMap id) := by
    rw [LLDPObjects.length, tlvs, List.map_map]
    exact congrArg (LLDP.length a b c) (List.map_id _)
  rw [LLDPObjects.serialize, LLDP.serialize]
  simp only [Option.map_some, nonNull, bind, Except.bind, TLV.serialize, length, List.mapM_cons]
  cases first : a.serialize with
  | error e => rfl
  | ok bytes =>
    cases second : b.serialize with
    | error e => rfl
    | ok bytes' =>
      cases third : c.serialize with
      | error e => rfl
      | ok bytes'' =>
        rcases map_eq_map_cases (plain_optional optional) with ⟨e, these, those⟩ | ⟨results, tlvs, these, those, joined⟩
        · rw [these, those]
          rfl
        · have put : bytes ++ bytes' ++ bytes'' ++ (results.map Prod.fst).flatten ++ putShort 0 =
              (bytes :: bytes' :: bytes'' :: tlvs).flatten ++ putShort 0 := by
            rw [joined]
            simp
          rw [these, those]
          dsimp only [pure, Except.pure]
          rw [put]
          cases allocate (LLDP.length a b c (optional.filterMap id))
            ((bytes :: bytes' :: bytes'' :: tlvs).flatten ++ putShort 0) <;> rfl

/-! ## Stacks -/

/-- What has been computed once stays as it is. -/
theorem touch_touch (touch : Touch) (layer : Layer) : (layer.touch touch).touch touch = layer.touch touch := by
  cases layer <;> simp only [Layer.touch, getD_getD] <;> split_ifs <;> rfl

/-- The pseudo header has no field that serializing sets. -/
theorem parentHeader_touch (touch : Touch) (parent : Option Layer) (protocol : IpProtocol) (length : BitVec 32) :
    parentHeader (parent.map (Layer.touch touch)) protocol length = parentHeader parent protocol length := by
  cases parent with
  | none => rfl
  | some layer => cases layer <;> rfl

/-- **Idempotence**: what the first call leaves, with its parent as that has been touched, gives the
same bytes, is left as it is and touches the parent in the same way. -/
theorem serialize_twice :
    (∀ {parent : Option Layer} {packet packet' : IPacket} {bytes : Option (List Byte)} {touch : Touch},
      serialize parent packet = .ok (bytes, packet', touch) →
        serialize (parent.map (Layer.touch touch)) packet' = .ok (bytes, packet', touch) ∧
        ∀ layer : Layer, (layer.touch touch).touch touch = layer.touch touch) ∧
      ∀ {lldp lldp' : LLDPObjects} {data : List Byte}, lldp.serialize = .ok (data, lldp') →
        lldp'.serialize = .ok (data, lldp') := by
  refine ⟨fun ok => ⟨?_, touch_touch _⟩, fun ok => lldp_repeats _ _ _ ok⟩
  rw [serialize_parent (parentHeader_touch _ _)]
  exact serialize_again ok

/-- An echo request, whose checksums are to be computed. -/
def echoRequest : IPacket :=
  [.ipv4 { version := 4, headerLength := 0, diffServ := 0, totalLength := 0, identification := 1, flags := 0,
           fragmentOffset := 0, ttl := 64, protocol := 0, checksum := 0, sourceAddress := 0x0a000001,
           destinationAddress := 0x0a000002, options := none },
   .icmp { icmpType := ICMP.ECHO_REQUEST, icmpCode := 0, checksum := 0 },
   .data { data := some [0, 1, 0, 2] }]

theorem serialize_twice_echo :
    ∃ result, serialize none echoRequest = .ok result ∧ serialize none result.2.1 = .ok result := by
  have returns : (serialize none echoRequest).isOk = true := by decide +kernel
  cases first : serialize none echoRequest with
  | error e =>
    rw [first] at returns
    cases returns
  | ok result => exact ⟨result, rfl, (serialize_twice.1 first).1⟩

end CodeClips.Packet
