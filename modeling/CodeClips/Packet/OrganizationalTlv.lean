import CodeClips.Packet.SerializeSpec
import CodeClips.Packet.Deserialize

/-!
# `LLDPOrganizationalTLV`

A TLV whose value is an OUI, a sub type and an information string. The class keeps these in step
with the value of its superclass and leaves the length to its caller. Its comparison asks for the
same class, that of the superclass does not: `lawful_iff` says for which pairs the two agree.
-/

namespace CodeClips.Packet
open ByteBuffer

structure LLDPOrganizationalTLV extends LLDPTLV where
  oui : Option (List Byte)
  subType : Byte
  infoString : Option (List Byte)
  deriving DecidableEq

def OUI_LENGTH : Nat := 3
def SUBTYPE_LENGTH : Nat := 1
def ORGANIZATIONAL_TLV_TYPE : Byte := 127
def MAX_INFOSTRING_LENGTH : Nat := 507

/-! ## `LLDPTLV` -/

/-- What `deserialize` leaves in the TLV, also where it returns `null`. -/
def LLDPTLV.fill (this : LLDPTLV) : ByteBuffer LLDPTLV := do
  let sscratch ← getShort
  let type : Byte := (sscratch.sshiftRight 9 &&& 0x7f).setWidth 8
  let length := sscratch &&& 0x1ff
  if 0 < length.toInt then
    if (← remaining) < length.toNat then
      pure { type := type, length := length, value := some (List.replicate length.toNat 0) }
    else
      let value ← getBytes length.toNat
      pure { type := type, length := length, value := some value }
  else pure { this with type := type, length := length }

/-- `Arrays.hashCode`, over signed bytes. -/
def arrayHashCode : Option (List Byte) → BitVec 32
  | none => 0
  | some bytes => bytes.foldl (fun result b => 31 * result + b.signExtend 32) 1

def LLDPTLV.hashCode (this : LLDPTLV) : BitVec 32 :=
  let result := 1423 * 1 + this.length.signExtend 32
  let result := 1423 * result + this.type.signExtend 32
  1423 * result + arrayHashCode this.value

/-- Its three fields, of whichever class the other is. -/
def LLDPTLV.equals (this other : LLDPTLV) : Bool :=
  this.length = other.length ∧ this.type = other.type ∧ this.value = other.value

/-! ## The setters and the codec -/

namespace LLDPOrganizationalTLV

def new : LLDPOrganizationalTLV :=
  { type := ORGANIZATIONAL_TLV_TYPE, length := 0, value := none, oui := none, subType := 0, infoString := none }

def setOUI (this : LLDPOrganizationalTLV) (oui : List Byte) : Java LLDPOrganizationalTLV :=
  if oui.length ≠ OUI_LENGTH then .error .illegalArgument else .ok { this with oui := some oui }

def setSubType (this : LLDPOrganizationalTLV) (subType : Byte) : LLDPOrganizationalTLV := { this with subType := subType }

def setInfoString (this : LLDPOrganizationalTLV) (infoString : List Byte) : Java LLDPOrganizationalTLV :=
  if MAX_INFOSTRING_LENGTH < infoString.length then .error .illegalArgument
  else .ok { this with infoString := some infoString }

/-- The setter of the superclass. -/
def setLength (this : LLDPOrganizationalTLV) (length : Short) : LLDPOrganizationalTLV := { this with length := length }

/-- The value is set first, and stays set. -/
def serialize (this : LLDPOrganizationalTLV) : Java (List Byte × LLDPOrganizationalTLV) := do
  let infoString ← nonNull this.infoString
  let oui ← nonNull this.oui
  let valueLength := OUI_LENGTH + SUBTYPE_LENGTH + infoString.length
  let value ← allocate (BitVec.ofNat 32 valueLength) (oui ++ [this.subType] ++ infoString)
  let this := { this with value := some value }
  let data ← this.toLLDPTLV.serialize
  pure (data, this)

/-- The fields of the class, from the value. -/
def readValue (this : LLDPOrganizationalTLV) : ByteBuffer LLDPOrganizationalTLV := do
  let oui ← getBytes OUI_LENGTH
  let this ← this.setOUI oui
  let subType ← ByteBuffer.get
  let this := this.setSubType subType
  let infoLength := this.length.toInt - OUI_LENGTH - SUBTYPE_LENGTH
  check (0 ≤ infoLength) .negativeArraySize
  let infoString ← getBytes infoLength.toNat
  this.setInfoString infoString

/-- What the superclass returns is not looked at. -/
def deserialize (this : LLDPOrganizationalTLV) : ByteBuffer LLDPOrganizationalTLV := do
  let tlv ← this.toLLDPTLV.fill
  let value ← nonNull tlv.value
  let (this, _) ← ({ this with toLLDPTLV := tlv } : LLDPOrganizationalTLV).readValue.run value
  pure this

def hashCode (this : LLDPOrganizationalTLV) : BitVec 32 :=
  let result := this.toLLDPTLV.hashCode
  let result := 31 * result + arrayHashCode this.infoString
  let result := 31 * result + arrayHashCode this.oui
  31 * result + this.subType.signExtend 32

/-- The fields of the class, where both are of it. -/
def equals (this other : LLDPOrganizationalTLV) : Bool :=
  this.toLLDPTLV.equals other.toLLDPTLV ∧ this.infoString = other.infoString ∧ this.oui = other.oui ∧
    this.subType = other.subType

/-- What a caller sets of the fields of the class. -/
def set (oui : List Byte) (subType : Byte) (infoString : List Byte) : Java LLDPOrganizationalTLV := do
  let this ← new.setOUI oui
  (this.setSubType subType).setInfoString infoString

/-! ## The round trip -/

/-- `serialize` returns the value after a header with its length, and a TLV that is equal reads it. -/
def RoundTrip (this : LLDPOrganizationalTLV) (n : Nat) : Prop :=
  ∃ data this' tlv, this.serialize = .ok (data, this') ∧ data.length = 2 + 4 + n ∧
    (shortAt data 0 &&& 0x1ff).toNat = 4 + n ∧ new.deserialize.run data = .ok (tlv, []) ∧ tlv.equals this' = true

/-- A TLV that is returned with a value has been filled in. -/
theorem fill_of_deserialize {this tlv : LLDPTLV} {input rest : List Byte} (valued : tlv.value ≠ none)
    (ok : LLDPTLV.deserialize.run input = .ok (some tlv, rest)) : this.fill.run input = .ok (tlv, rest) := by
  rw [LLDPTLV.deserialize] at ok
  obtain ⟨sscratch, mid, short, ok⟩ := run_bind_eq_ok ok
  rw [LLDPTLV.fill, run_bind_of_ok short]
  dsimp only at ok ⊢
  split_ifs at ok ⊢ with positive
  · obtain ⟨count, mid', counted, ok⟩ := run_bind_eq_ok ok
    rw [run_bind_of_ok counted]
    split_ifs at ok ⊢ with few
    · cases ok
    · obtain ⟨value, mid'', read, ok⟩ := run_bind_eq_ok ok
      rw [run_bind_of_ok read]
      cases ok
      rfl
  · cases ok
    exact absurd rfl valued

/-- The TLV after `serialize`, whose value is its fields. -/
def valued (this : LLDPOrganizationalTLV) (oui infoString : List Byte) : LLDPOrganizationalTLV :=
  { this with value := some (oui ++ [this.subType] ++ infoString) }

theorem run_bind_lift {α β : Type} (a : α) (f : α → ByteBuffer β) (input : List Byte) :
    ((liftM (Except.ok a : Java α) : ByteBuffer α) >>= f).run input = (f a).run input := rfl

section Built
variable {oui infoString : List Byte} (three : oui.length = 3) (short : infoString.length ≤ 507)
include three short

theorem set_eq (subType : Byte) :
    set oui subType infoString =
      .ok { new with oui := some oui, subType := subType, infoString := some infoString } := by
  have oui_set : new.setOUI oui = .ok { new with oui := some oui } := if_neg fun differs => differs three
  rw [set, oui_set]
  exact if_neg (by rw [MAX_INFOSTRING_LENGTH]; omega)

/-- The superclass serializes the value, with whatever length it has. -/
theorem serialize_eq {this : LLDPOrganizationalTLV} (first : this.oui = some oui)
    (second : this.infoString = some infoString) :
    this.serialize =
      (this.valued oui infoString).toLLDPTLV.serialize.map fun data => (data, this.valued oui infoString) := by
  have room : (BitVec.ofNat 32 (OUI_LENGTH + SUBTYPE_LENGTH + infoString.length)).toInt =
      (oui ++ [this.subType] ++ infoString).length := by
    rw [OUI_LENGTH, SUBTYPE_LENGTH, toInt_ofNat_of_lt (by omega), List.length_append, List.length_append, three]
    rfl
  rw [serialize, nonNull_of_eq_some first, nonNull_of_eq_some second]
  simp only [bind, Except.bind, allocate_exact room]
  rw [valued]
  split <;> rename_i result <;> rw [result] <;> rfl

/-- The array has as many bytes as the length says, and holds the value where these are enough. -/
theorem length_of_serialize {this this' : LLDPOrganizationalTLV} {data : List Byte} (first : this.oui = some oui)
    (second : this.infoString = some infoString) (ok : this.serialize = .ok (data, this')) :
    (data.length : Int) = 2 + this.length.toInt := by
  rw [serialize_eq three short first second] at ok
  cases encoded : (this.valued oui infoString).toLLDPTLV.serialize with
  | error e =>
    rw [encoded] at ok
    cases ok
  | ok bytes =>
    rw [encoded] at ok
    cases ok
    obtain ⟨room, positive, rfl⟩ := allocate_eq_ok encoded
    have wide : (2 + (this.valued oui infoString).getLength).toInt = 2 + this.length.toInt := by
      have low := BitVec.le_toInt this.length
      have high := BitVec.toInt_lt (x := this.length)
      show (2 + this.length.signExtend 32).toInt = _
      rw [BitVec.toInt_add, BitVec.toInt_signExtend_of_le (by decide), Int.bmod_def]
      split_ifs <;> simp only [BitVec.reduceToInt] at * <;> omega
    rw [List.length_append, List.length_replicate]
    omega

/-- A value of 4 bytes and more is within what a TLV can have. -/
theorem sized_valued {this : LLDPOrganizationalTLV} (type : this.type = ORGANIZATIONAL_TLV_TYPE)
    (length : this.length.toInt = 4 + infoString.length) : (this.valued oui infoString).toLLDPTLV.Sized := by
  have count : this.length.toNat = 4 + infoString.length := by
    have cases := BitVec.toInt_eq_toNat_cond this.length
    have bound := this.length.isLt
    split_ifs at cases <;> omega
  have whole : (oui ++ [this.subType] ++ infoString).length = 4 + infoString.length := by
    rw [List.length_append, List.length_append, three]
    rfl
  refine ⟨count.trans whole.symm, ?_, by show this.length.toNat ≤ 511; omega, ?_⟩
  · intro empty
    rw [Option.some.inj empty] at whole
    rw [List.length_nil] at whole
    omega
  · show this.type.toNat ≤ 127
    rw [type]
    decide

/-- The fields are read from the value as they have been put there. -/
theorem run_readValue {this : LLDPOrganizationalTLV} (length : this.length.toInt = 4 + infoString.length) (subType : Byte) :
    this.readValue.run (oui ++ [subType] ++ infoString) =
      .ok ({ this with oui := some oui, subType := subType, infoString := some infoString }, []) := by
  have oui_length : oui.length = OUI_LENGTH := three
  have oui_set : this.setOUI oui = .ok { this with oui := some oui } := if_neg fun differs => differs three
  have info : this.length.toInt - (OUI_LENGTH : Int) - (SUBTYPE_LENGTH : Int) = infoString.length := by
    rw [OUI_LENGTH, SUBTYPE_LENGTH]
    omega
  have info_set : ∀ that : LLDPOrganizationalTLV,
      that.setInfoString infoString = .ok { that with infoString := some infoString } := by
    intro that
    exact if_neg (by rw [MAX_INFOSTRING_LENGTH]; omega)
  have read := (reads_getBytes (rfl : infoString.length = infoString.length)).run
  rw [readValue, List.append_assoc, (reads_getBytes oui_length).run_bind, oui_set, run_bind_lift,
    (reads_get subType).run_bind]
  dsimp only [setSubType]
  rw [info, check, if_pos (decide_eq_true (Int.natCast_nonneg _)), Int.toNat_natCast, pure_bind, run_bind_of_ok read,
    info_set]
  rfl

theorem deserialize_valued {this : LLDPOrganizationalTLV} (type : this.type = ORGANIZATIONAL_TLV_TYPE)
    (first : this.oui = some oui) (second : this.infoString = some infoString)
    (length : this.length.toInt = 4 + infoString.length) :
    new.deserialize.run (this.valued oui infoString).toLLDPTLV.bytes = .ok (this.valued oui infoString, []) := by
  have read := (reads_tlv (sized_valued three short type length)).run
  have filled := @fill_of_deserialize new.toLLDPTLV _ _ _ (by rintro ⟨⟩) read
  let filled' : LLDPOrganizationalTLV := { new with toLLDPTLV := (this.valued oui infoString).toLLDPTLV }
  have fields := @run_readValue _ _ three short filled' length this.subType
  rw [deserialize, run_bind_of_ok filled]
  show StateT.run (liftM (nonNull (some _)) >>= _) _ = _
  rw [nonNull, run_bind_lift, fields, run_bind_lift, ← first, ← second]
  rfl

theorem roundTrip_iff_length {this : LLDPOrganizationalTLV} (type : this.type = ORGANIZATIONAL_TLV_TYPE)
    (first : this.oui = some oui) (second : this.infoString = some infoString) :
    this.RoundTrip infoString.length ↔ this.length.toInt = 4 + infoString.length := by
  constructor
  · rintro ⟨data, this', tlv, encoded, size, -⟩
    have counted := length_of_serialize three short first second encoded
    rw [size] at counted
    omega
  · intro length
    have sized := sized_valued three short type length
    have count : (this.valued oui infoString).length.toNat = 4 + infoString.length := by
      rw [sized.length]
      show (oui ++ [this.subType] ++ infoString).length = _
      rw [List.length_append, List.length_append, three]
      rfl
    have head : shortAt (this.valued oui infoString).toLLDPTLV.bytes 0 =
        LLDPTLV.scratch (this.valued oui infoString).type (this.valued oui infoString).length := ofNat_bigEndian 2 _
    refine ⟨(this.valued oui infoString).toLLDPTLV.bytes, this.valued oui infoString, this.valued oui infoString,
      ?_, ?_, ?_, deserialize_valued three short type first second length, ?_⟩
    · rw [serialize_eq three short first second, serialize_tlv sized]
      rfl
    · rw [length_bytes sized, count]
      omega
    · rw [head, length_of_scratch sized.type sized.most]
      exact count
    · simp [equals, LLDPTLV.equals]

end Built

/-- With the three setters of the class the length is the 0 of a new TLV, which is too short for
any value: a caller has to set it to that of the value. -/
theorem organizational_roundTrip_iff (oui : List Byte) (subType : Byte) (infoString : List Byte) (three : oui.length = 3)
    (short : infoString.length ≤ 507) :
    ∃ this, set oui subType infoString = .ok this ∧ ¬ this.RoundTrip infoString.length ∧
      ∀ length, (this.setLength length).RoundTrip infoString.length ↔ length.toInt = 4 + infoString.length := by
  refine ⟨_, set_eq three short subType, ?_, fun length => ?_⟩
  · rw [roundTrip_iff_length three short rfl rfl rfl]
    show ¬ (0 : Int) = 4 + infoString.length
    omega
  · exact roundTrip_iff_length three short rfl rfl rfl

/-- An info string of two bytes: the length has to be 6. -/
theorem organizational_roundTrip_two :
    ∃ this, set [0, 0x26, 0xe1] 1 [0x41, 0x42] = .ok this ∧ ¬ this.RoundTrip 2 ∧
      ∀ length, (this.setLength length).RoundTrip 2 ↔ length.toInt = 6 := by
  obtain ⟨this, built, never, only⟩ := organizational_roundTrip_iff [0, 0x26, 0xe1] 1 [0x41, 0x42] rfl (by decide)
  exact ⟨this, built, never, only⟩

/-- The array of a TLV without a length has place for the header only. -/
theorem organizational_overflows :
    ¬ ∃ this, set [0, 0x26, 0xe1] 1 [0x41] = .ok this ∧ this.RoundTrip 1 := by
  rintro ⟨this, built, data, this', tlv, encoded, -⟩
  cases built
  cases encoded

/-! ## Comparisons -/

end LLDPOrganizationalTLV

/-- An object of either class. -/
inductive TLV where
  | plain (this : LLDPTLV)
  | organizational (this : LLDPOrganizationalTLV)

namespace TLV

/-- What is there of the superclass. -/
def toLLDPTLV : TLV → LLDPTLV
  | .plain this => this
  | .organizational this => this.toLLDPTLV

/-- The method of the receiver's class. -/
def equals : TLV → TLV → Bool
  | .plain this, other => this.equals other.toLLDPTLV
  | .organizational this, other =>
    if ¬ this.toLLDPTLV.equals other.toLLDPTLV then false
    else match other with
      | .plain _ => false
      | .organizational other => this.equals other

def hashCode : TLV → BitVec 32
  | .plain this => this.hashCode
  | .organizational this => this.hashCode

def isOrganizational : TLV → Bool
  | .plain _ => false
  | .organizational _ => true

/-- What is asked of `equals` and `hashCode`. -/
structure Lawful (a b : TLV) : Prop where
  symmetric : a.equals b = b.equals a
  transitive : ∀ c : TLV, a.equals b = true → b.equals c = true → a.equals c = true
  hashCode : a.equals b = true → a.hashCode = b.hashCode

theorem lldpTlv_equals_iff {this other : LLDPTLV} : this.equals other = true ↔ this = other := by
  rw [LLDPTLV.equals, decide_eq_true_iff]
  cases this
  cases other
  simp only [LLDPTLV.mk.injEq]
  tauto

theorem organizational_equals_iff {this other : LLDPOrganizationalTLV} : this.equals other = true ↔ this = other := by
  rw [LLDPOrganizationalTLV.equals, decide_eq_true_iff, lldpTlv_equals_iff]
  cases this
  cases other
  simp only [LLDPOrganizationalTLV.mk.injEq]
  tauto

theorem equals_iff {a b : TLV} :
    a.equals b = true ↔ a = b ∨ a.isOrganizational = false ∧ a.toLLDPTLV = b.toLLDPTLV := by
  cases a with
  | plain this =>
    rw [equals, lldpTlv_equals_iff]
    constructor
    · intro same
      exact .inr ⟨rfl, same⟩
    · rintro (rfl | ⟨-, same⟩)
      · rfl
      · exact same
  | organizational this =>
    cases b with
    | plain other => simp [equals, isOrganizational]
    | organizational other =>
      rw [equals]
      constructor
      · intro same
        split_ifs at same with super
        exact .inl (congrArg organizational (organizational_equals_iff.mp same))
      · rintro (same | ⟨plain, -⟩)
        · cases same
          have super : this.toLLDPTLV.equals (organizational this).toLLDPTLV = true := lldpTlv_equals_iff.mpr rfl
          rw [if_neg (not_not.mpr super)]
          exact organizational_equals_iff.mpr rfl
        · cases plain

theorem eq_of_plain {a b : TLV} (plain : a.isOrganizational = false) (plain' : b.isOrganizational = false)
    (same : a.toLLDPTLV = b.toLLDPTLV) : a = b := by
  cases a with
  | plain this =>
    cases b with
    | plain other => exact congrArg TLV.plain same
    | organizational other => cases plain'
  | organizational this => cases plain

/-- No plain TLV between two others makes them equal. -/
theorem equals_trans {a b c : TLV} (first : a.equals b = true) (second : b.equals c = true) : a.equals c = true := by
  rw [equals_iff] at *
  rcases first with rfl | ⟨plain, same⟩
  · exact second
  · rcases second with rfl | ⟨-, same'⟩
    · exact .inr ⟨plain, same⟩
    · exact .inr ⟨plain, same.trans same'⟩

/-- Objects of one class, or with other fields of the superclass, are equal only if they are the same. -/
theorem eq_of_equals {a b : TLV} (apart : a.isOrganizational = b.isOrganizational ∨ a.toLLDPTLV ≠ b.toLLDPTLV)
    (equal : a.equals b = true) : a = b := by
  rcases equals_iff.mp equal with same | ⟨plain, same⟩
  · exact same
  · rcases apart with class_eq | differ
    · exact eq_of_plain plain (class_eq ▸ plain) same
    · exact absurd same differ

/-- **Equality**: the two methods agree but for a plain TLV and an organizational one whose fields
of the superclass are the same. -/
theorem lawful_iff (a b : TLV) :
    a.Lawful b ↔ a.isOrganizational = b.isOrganizational ∨ a.toLLDPTLV ≠ b.toLLDPTLV := by
  constructor
  · intro lawful
    by_contra mixed
    rw [not_or, not_ne_iff] at mixed
    obtain ⟨classes, same⟩ := mixed
    have symmetric := lawful.symmetric
    cases a with
    | plain this =>
      cases b with
      | plain other => exact classes rfl
      | organizational other =>
        have equal : (TLV.plain this).equals (.organizational other) = true := equals_iff.mpr (.inr ⟨rfl, same⟩)
        rw [equal, eq_comm, equals_iff] at symmetric
        rcases symmetric with other | ⟨other, -⟩ <;> cases other
    | organizational this =>
      cases b with
      | plain other =>
        have equal : (TLV.plain other).equals (.organizational this) = true := equals_iff.mpr (.inr ⟨rfl, same.symm⟩)
        rw [equal, equals_iff] at symmetric
        rcases symmetric with other | ⟨other, -⟩ <;> cases other
      | organizational other => exact classes rfl
  · intro apart
    have apart' : b.isOrganizational = a.isOrganizational ∨ b.toLLDPTLV ≠ a.toLLDPTLV :=
      apart.imp Eq.symm Ne.symm
    refine ⟨?_, fun c => equals_trans, fun equal => congrArg hashCode (eq_of_equals apart equal)⟩
    rw [Bool.eq_iff_iff]
    constructor
    · intro equal
      cases eq_of_equals apart equal
      exact equal
    · intro equal
      cases eq_of_equals apart' equal
      exact equal

/-- A plain TLV equals an organizational one with its fields, and not the other way. -/
theorem not_lawful_mixed :
    ¬ (TLV.plain { type := 127, length := 0, value := none }).Lawful (.organizational .new) := by
  rintro ⟨symmetric, -, -⟩
  revert symmetric
  decide

end TLV

end CodeClips.Packet
