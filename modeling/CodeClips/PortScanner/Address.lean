import CodeClips.Lib.Decimal
import Mathlib.Algebra.GroupWithZero.Nat
import Mathlib.Algebra.Ring.Int.Defs
import Mathlib.Data.List.DropRight

/-!
# Addresses as `long` values

`decodeIP` adds up shifted octets, and the shift of the highest one is that of an `int`: from
`128.0.0.0` on it is negative, and so is the sum (`decodeIP_quad`). `encodeIP` looks at the low
half of the `long` only, and finds the octets again on both sides (`encodeIP_eq`).
-/

namespace CodeClips.PortScanner

abbrev Str := List Char

def SIZE_OF_BYTE : Nat := 8

/-- The exceptions of the two methods, and `System.exit`. -/
inductive Failure
  | InvalidIPException
  | NumberFormatException (s : Str)
  | exit (status : Int)
  deriving DecidableEq

/-- `addr.split("\\.")`: without the empty fields at the end. -/
def split (addr : Str) : List Str :=
  if '.' ∈ addr then (addr.splitOn '.').rdropWhile (· = []) else [addr]

/-- `Integer.parseInt`: digits, with a sign or without, of a number that fits into an int. -/
def parseInt (s : Str) : Except Failure (BitVec 32) :=
  match Decimal.integer s with
  | some n => if -2 ^ 31 ≤ n ∧ n < 2 ^ 31 then .ok (BitVec.ofInt 32 n) else .error (.NumberFormatException s)
  | none => .error (.NumberFormatException s)

/-- One pass of the loop of `checkIP`. -/
def checkField (field : Str) : Except Failure Unit := do
  let num ← parseInt field
  if num.slt 0 ∨ (255 : BitVec 32).slt num then .error .InvalidIPException

/-- Four fields that are octets, or the exception. -/
def checkIP (addr : Str) : Except Failure Unit :=
  let addrArray := split addr
  if addrArray.length ≠ 4 then .error .InvalidIPException else addrArray.forM checkField

/-- The octets are shifted into one number, which is an int before it is a long. -/
def decodeIP (addr : Str) : Except Failure (BitVec 64) := do
  match checkIP addr with
  | .error .InvalidIPException => .error (.exit (-1))
  | checked => checked
  (split addr).zipIdx.foldlM (fun IP (field, i) =>
    match parseInt field with
    | .error _ => .error (.exit (-1))
    | .ok num => .ok (IP + (num <<< (SIZE_OF_BYTE * (3 - i))).signExtend 64)) 0

/-- A `long` as text. -/
def decimal (n : BitVec 64) : Str :=
  match n.toInt with
  | .ofNat n => Nat.toDigits 10 n
  | .negSucc n => '-' :: Nat.toDigits 10 (n + 1)

/-- The four bytes of the number, with dots in between. -/
def encodeIP (ip : BitVec 64) : Str :=
  (List.range 4).foldl (fun s i =>
    let mask : BitVec 64 := 255
    let shift_bits := SIZE_OF_BYTE * (3 - i)
    let temp1 := mask <<< shift_bits
    let temp2 := temp1 &&& ip
    let temp3 := temp2.sshiftRight shift_bits
    let s := s ++ decimal temp3
    if i < 3 then s ++ ['.'] else s) []

/-! ## Four octets -/

/-- An address by its four octets. -/
@[ext] structure Quad where
  a : Fin 256
  b : Fin 256
  c : Fin 256
  d : Fin 256
  deriving DecidableEq

namespace Quad

/-- The octets from the left. -/
def octets (q : Quad) : List Nat := [q.a, q.b, q.c, q.d]

/-- The address as a number. -/
def value (q : Quad) : Nat := ((q.a * 256 + q.b) * 256 + q.c) * 256 + q.d

/-- The octets of the low half. -/
def ofValue (n : Nat) : Quad where
  a := Fin.ofNat 256 (n / 2 ^ 24)
  b := Fin.ofNat 256 (n / 2 ^ 16)
  c := Fin.ofNat 256 (n / 2 ^ 8)
  d := Fin.ofNat 256 n

/-- The address as it is written. -/
def text (q : Quad) : Str := ['.'].intercalate (q.octets.map (Nat.toDigits 10))

/-- Octet order. -/
instance : LT Quad := ⟨fun p q => List.Lex (· < ·) p.octets q.octets⟩

instance : LE Quad := ⟨fun p q => p = q ∨ p < q⟩

variable {p q : Quad} {n : Nat}

/-- An address has 32 bits. -/
theorem value_lt (q : Quad) : q.value < 2 ^ 32 := by
  have := q.a.isLt
  have := q.b.isLt
  have := q.c.isLt
  have := q.d.isLt
  simp only [value]
  omega

/-- Of a number only the last 32 bits are an address. -/
theorem value_ofValue (n : Nat) : (ofValue n).value = n % 2 ^ 32 := by
  simp only [value, ofValue, Fin.val_ofNat]
  omega

/-- An address is given by its number. -/
theorem ofValue_value (q : Quad) : ofValue q.value = q := by
  have := q.a.isLt
  have := q.b.isLt
  have := q.c.isLt
  have := q.d.isLt
  ext <;> simp only [value, ofValue, Fin.val_ofNat] <;> omega

theorem value_inj : p.value = q.value ↔ p = q := by
  constructor
  · intro same
    rw [← ofValue_value p, same, ofValue_value]
  · exact congrArg value

/-- The octet order is that of the numbers. -/
theorem lt_iff : p < q ↔ p.value < q.value := by
  have := p.b.isLt
  have := p.c.isLt
  have := p.d.isLt
  have := q.b.isLt
  have := q.c.isLt
  have := q.d.isLt
  change List.Lex (· < ·) p.octets q.octets ↔ _
  simp only [octets, List.cons_lex_cons_iff, value]
  simp only [List.not_lex_nil, and_false, or_false]
  constructor <;> omega

/-- The order of the octets is that of the numbers. -/
theorem le_iff : p ≤ q ↔ p.value ≤ q.value := by
  change p = q ∨ p < q ↔ _
  rw [← value_inj, lt_iff]
  omega

end Quad

/-! ## Decoding -/

/-- Four decimal numbers with dots between them, with or without zeros at their beginning. -/
def Writes (s : Str) (q : Quad) : Prop :=
  ∃ fields, s = ['.'].intercalate fields ∧ fields.map Decimal.natural = q.octets.map some

/-- The fields as `encodeIP` would write them. -/
def withoutLeadingZeros (s : Str) : Str := ['.'].intercalate ((s.splitOn '.').map Decimal.unpadded)

section Decoding
variable {s field : Str} {q : Quad} {n : Nat}

/-- An octet is read, leading zeros or not. -/
theorem parseInt_octet {o : Fin 256} (read : Decimal.natural field = some (o : Nat)) :
    parseInt field = .ok (BitVec.ofNat 32 o) := by
  rw [parseInt, Decimal.integer_of_natural read]
  dsimp only
  rw [if_pos (by omega), BitVec.ofInt_natCast]

/-- An octet passes the check of its field. -/
theorem checkField_octet {o : Fin 256} (read : Decimal.natural field = some (o : Nat)) : checkField field = .ok () := by
  have number : (BitVec.ofNat 32 o).toNat = o := by
    rw [BitVec.toNat_ofNat]
    omega
  have octet : (BitVec.ofNat 32 o).toInt = (o : Nat) := by
    rw [BitVec.toInt_eq_toNat_of_lt (by omega), number]
  have limit : (255 : BitVec 32).toInt = 255 := by decide
  have inside : ¬ ((BitVec.ofNat 32 o).slt 0 ∨ (255 : BitVec 32).slt (BitVec.ofNat 32 o)) := by
    rw [BitVec.slt_iff_toInt_lt, BitVec.slt_iff_toInt_lt, octet, limit]
    simp only [BitVec.ofNat_eq_ofNat, BitVec.toInt_zero]
    omega
  rw [checkField, parseInt_octet read]
  exact if_neg inside

/-- What is read as a number is not empty and has no dot. -/
theorem natural_undotted (read : Decimal.natural field = some n) : field ≠ [] ∧ '.' ∉ field := by
  obtain ⟨nonempty, digits, -⟩ := Decimal.natural_iff.mp read
  exact ⟨nonempty, fun dot => absurd (digits '.' dot) (by decide)⟩

/-- A text that writes an address has four fields. -/
theorem Writes.fields (writes : Writes s q) : ∃ a b c d : Str, s = ['.'].intercalate [a, b, c, d] ∧
    Decimal.natural a = some (q.a : Nat) ∧ Decimal.natural b = some (q.b : Nat) ∧ Decimal.natural c = some (q.c : Nat) ∧
    Decimal.natural d = some (q.d : Nat) := by
  obtain ⟨fields, rfl, read⟩ := writes
  have length := congrArg List.length read
  rw [List.length_map, List.length_map] at length
  obtain ⟨a, b, c, d, rfl⟩ := List.length_eq_four.mp length
  simp only [Quad.octets, List.map_cons, List.map_nil, List.cons.injEq, and_true] at read
  exact ⟨a, b, c, d, rfl, read⟩

section Fields
variable {a b c d : Str} {m n k l : Nat} (readA : Decimal.natural a = some m) (readB : Decimal.natural b = some n)
  (readC : Decimal.natural c = some k) (readD : Decimal.natural d = some l)
include readA readB readC readD

/-- The fields come back when the text is split at the dots. -/
theorem splitOn_fields : (['.'].intercalate [a, b, c, d]).splitOn '.' = [a, b, c, d] := by
  apply List.splitOn_intercalate '.' _ (List.cons_ne_nil _ _)
  simp only [List.forall_mem_cons, List.not_mem_nil, false_implies, implies_true, and_true]
  exact ⟨(natural_undotted readA).2, (natural_undotted readB).2, (natural_undotted readC).2, (natural_undotted readD).2⟩

/-- Nothing is lost at the end, since the last field is not empty. -/
theorem split_fields : split (['.'].intercalate [a, b, c, d]) = [a, b, c, d] := by
  have dotted : '.' ∈ ['.'].intercalate [a, b, c, d] := by simp
  rw [split, if_pos dotted, splitOn_fields readA readB readC readD, List.rdropWhile_eq_self_iff]
  intro again
  simpa using (natural_undotted readD).1

end Fields

/-- The `long` is a sum of `int` values: the number, with the sign of its highest bit. -/
theorem sum_shifted (q : Quad) : (0 : BitVec 64) + (BitVec.ofNat 32 q.a <<< 24).signExtend 64 +
    (BitVec.ofNat 32 q.b <<< 16).signExtend 64 + (BitVec.ofNat 32 q.c <<< 8).signExtend 64 +
    (BitVec.ofNat 32 q.d <<< 0).signExtend 64 = (BitVec.ofNat 32 q.value).signExtend 64 := by
  have := q.a.isLt
  have := q.b.isLt
  have := q.c.isLt
  have := q.d.isLt
  apply BitVec.eq_of_toNat_eq
  rw [show (0 : BitVec 64) = 0#64 from rfl, BitVec.zero_add]
  simp only [BitVec.toNat_add, BitVec.toNat_signExtend, BitVec.toNat_setWidth, BitVec.toNat_shiftLeft, BitVec.toNat_ofNat,
    BitVec.msb_eq_decide, decide_eq_true_eq, Nat.shiftLeft_eq, Quad.value]
  split_ifs <;> omega

/-- The text of an address passes the check. -/
theorem checkIP_quad (writes : Writes s q) : checkIP s = .ok () := by
  obtain ⟨a, b, c, d, rfl, readA, readB, readC, readD⟩ := writes.fields
  rw [checkIP, split_fields readA readB readC readD, if_neg (by simp)]
  simp only [List.forM_eq_forM, List.forM_cons, List.forM_nil, checkField_octet readA, checkField_octet readB,
    checkField_octet readC, checkField_octet readD]
  rfl

/-- From 128.0.0.0 on the number is negative. -/
theorem decodeIP_quad (writes : Writes s q) : decodeIP s = .ok ((BitVec.ofNat 32 q.value).signExtend 64) := by
  have checked := checkIP_quad writes
  obtain ⟨a, b, c, d, rfl, readA, readB, readC, readD⟩ := writes.fields
  rw [decodeIP, checked, split_fields readA readB readC readD, ← sum_shifted]
  simp only [List.zipIdx_cons, List.zipIdx_nil, List.foldlM_cons, List.foldlM_nil, parseInt_octet readA,
    parseInt_octet readB, parseInt_octet readC, parseInt_octet readD]
  rfl

end Decoding

/-! ## Encoding -/

theorem decimal_of_small {v : BitVec 64} (small : v.toNat < 256) : decimal v = Nat.toDigits 10 v.toNat := by
  rw [decimal, BitVec.toInt_eq_toNat_of_lt (by omega)]

/-- The mask keeps eight bits, and the sign does not get into the highest octet. -/
theorem octet_of_long (v : BitVec 64) {k : Nat} (low : k ≤ 24) :
    (((255 : BitVec 64) <<< k &&& v).sshiftRight k).toNat = v.toNat / 2 ^ k % 256 := by
  have mask : ((255 : BitVec 64) <<< k).toNat = 255 <<< k := by
    rw [BitVec.toNat_shiftLeft]
    apply Nat.mod_eq_of_lt
    rw [Nat.shiftLeft_eq]
    have : 2 ^ k ≤ 2 ^ 24 := Nat.pow_le_pow_right (by decide) low
    change 255 * 2 ^ k < _
    omega
  have masked : ((255 : BitVec 64) <<< k &&& v).toNat < 2 ^ 63 := by
    rw [BitVec.toNat_and, mask, Nat.shiftLeft_eq]
    have : 2 ^ k ≤ 2 ^ 24 := Nat.pow_le_pow_right (by decide) low
    have := Nat.and_le_left (n := 255 * 2 ^ k) (m := v.toNat)
    omega
  rw [BitVec.sshiftRight_eq_of_msb_false (BitVec.msb_eq_false_iff_two_mul_lt.mpr (by omega)), BitVec.toNat_ushiftRight,
    BitVec.toNat_and, mask, Nat.shiftRight_and_distrib, Nat.shiftLeft_shiftRight, Nat.and_comm, ← Nat.shiftRight_eq_div_pow]
  exact Nat.and_two_pow_sub_one_eq_mod _ 8

/-- Only the low half counts. -/
theorem encodeIP_eq (v : BitVec 64) : encodeIP v = (Quad.ofValue v.toNat).text := by
  have octet (k : Nat) (low : k ≤ 24) : decimal (((255 : BitVec 64) <<< k &&& v).sshiftRight k) =
      Nat.toDigits 10 (Fin.ofNat 256 (v.toNat / 2 ^ k)) := by
    rw [decimal_of_small (by rw [octet_of_long v low]; omega), octet_of_long v low]
    rfl
  change ((((([] ++ decimal (((255 : BitVec 64) <<< 24 &&& v).sshiftRight 24)) ++ ['.']) ++
    decimal (((255 : BitVec 64) <<< 16 &&& v).sshiftRight 16)) ++ ['.']) ++
    decimal (((255 : BitVec 64) <<< 8 &&& v).sshiftRight 8)) ++ ['.'] ++
    decimal (((255 : BitVec 64) <<< 0 &&& v).sshiftRight 0) = _
  rw [octet 24 (by decide), octet 16 (by decide), octet 8 (by decide), octet 0 (by decide)]
  simp [Quad.text, Quad.octets, Quad.ofValue]

/-- The low half of what `decodeIP` returns is the number. -/
theorem ofValue_decoded (q : Quad) : Quad.ofValue ((BitVec.ofNat 32 q.value).signExtend 64).toNat = q := by
  rw [← Quad.value_inj, Quad.value_ofValue, BitVec.toNat_signExtend, BitVec.toNat_setWidth, BitVec.toNat_ofNat]
  have := q.value_lt
  split_ifs <;> omega

/-- Decoded and encoded again, an address is written without zeros at the beginning of its numbers. -/
theorem encodeIP_decoded {s : Str} {q : Quad} (writes : Writes s q) :
    encodeIP ((BitVec.ofNat 32 q.value).signExtend 64) = withoutLeadingZeros s := by
  obtain ⟨a, b, c, d, rfl, readA, readB, readC, readD⟩ := writes.fields
  have written {s : Str} {n : Nat} (read : Decimal.natural s = some n) : Nat.toDigits 10 n = Decimal.unpadded s := by
    obtain ⟨-, digits, rfl⟩ := Decimal.natural_iff.mp read
    exact Decimal.toDigits_ofDigitChars digits
  rw [encodeIP_eq, ofValue_decoded, withoutLeadingZeros, splitOn_fields readA readB readC readD, Quad.text, Quad.octets]
  simp only [List.map_cons, List.map_nil, written readA, written readB, written readC, written readD]

end CodeClips.PortScanner
