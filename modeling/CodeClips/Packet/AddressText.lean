import CodeClips.Lib.Bits
import CodeClips.Lib.Decimal
import CodeClips.Packet.SerializeSpec
import Mathlib.Algebra.GroupWithZero.Nat
import Mathlib.Algebra.Ring.Int.Defs
import Mathlib.Data.List.DropRight

/-!
# Addresses as text

Both parsers of IPv4 addresses split at the dots and read each field as an `int`. The one for an
`int` asks for an octet, the one for bytes takes the low byte of whatever it is: `agree_iff` says
for which texts they agree. `isMACAddress` looks at the first two characters of each group in upper
case: `mac_exact_iff` says for which texts this is the grammar. What the two take of Java's tables
of characters is a parameter.
-/

namespace CodeClips.Packet

abbrev Str := List Char

/-- `s.split(separator)`: without the empty fields at the end. -/
def split (separator : Char) (s : Str) : List Str :=
  if separator ∈ s then (s.splitOn separator).rdropWhile (· = []) else [s]

theorem split_intercalate {separator : Char} {fields : List Str} (free : ∀ field ∈ fields, separator ∉ field)
    (last : ∀ field ∈ fields.getLast?, field ≠ []) (nonempty : fields ≠ []) :
    split separator ([separator].intercalate fields) = fields := by
  have whole := List.splitOn_intercalate separator free nonempty
  rw [split]
  split_ifs with present
  · rw [whole, List.rdropWhile_eq_self_iff]
    intro again
    rw [decide_eq_true_iff]
    exact last _ (List.getLast?_eq_some_getLast again)
  · have single : ([separator].intercalate fields).splitOn separator = [[separator].intercalate fields] := by
      apply List.splitOnP_eq_singleton
      intro c member
      rw [beq_eq_false_iff_ne]
      rintro rfl
      exact present member
    exact single.symm.trans whole

/-! ## Numbers -/

section Number
variable (digit : Char → Option Nat)

/-- One step of the loop of `Integer.parseInt`. -/
def parseDigits (s : Str) : Option Nat :=
  if s = [] then none else s.foldlM (fun result c => (digit c).map (10 * result + ·)) 0

/-- `Integer.valueOf`. A `NumberFormatException` is an `IllegalArgumentException`. -/
def valueOf (s : Str) : Java (BitVec 32) :=
  let number : Option Int :=
    match s with
    | '+' :: s => (parseDigits digit s).map Int.ofNat
    | '-' :: s => (parseDigits digit s).map fun n : Nat => -Int.ofNat n
    | s => (parseDigits digit s).map Int.ofNat
  match number with
  | some n => if -2 ^ 31 ≤ n ∧ n < 2 ^ 31 then .ok (BitVec.ofInt 32 n) else .error .illegalArgument
  | none => .error .illegalArgument

/-! ## `IPv4` -/

def toIPv4Address (ipAddress : Str) : Java (BitVec 32) :=
  let octets := split '.' ipAddress
  if octets.length ≠ 4 then .error .illegalArgument
  else octets.zipIdx.foldlM (fun result (octet, i) => do
    let oct ← valueOf digit octet
    if (255 : BitVec 32).slt oct ∨ oct.slt 0 then .error .illegalArgument
    else pure (result ||| oct <<< ((3 - i) * 8))) 0

def toIPv4AddressBytes (ipAddress : Str) : Java (List Byte) :=
  let octets := split '.' ipAddress
  if octets.length ≠ 4 then .error .illegalArgument
  else octets.mapM fun octet => do
    let oct ← valueOf digit octet
    pure (oct.setWidth 8)

/-- `toIPv4Address(byte[])`: the address that four bytes denote. -/
def ofBytes (ipAddress : List Byte) : BitVec 32 :=
  ipAddress.zipIdx.foldl (fun ip (b, i) => ip ||| (b.signExtend 32 &&& 0xff) <<< ((3 - i) * 8)) 0

/-- Both throw, or both succeed and denote the same address. -/
def Agree (s : Str) : Prop :=
  match toIPv4Address digit s, toIPv4AddressBytes digit s with
  | .ok address, .ok bytes => ofBytes bytes = address
  | .error _, .error _ => True
  | _, _ => False

/-! ## The parsers -/

/-- The four fields of a text, where all are numbers that an `int` has place for. -/
def Numbers (s : Str) (numbers : List (BitVec 32)) : Prop :=
  (split '.' s).length = 4 ∧ (split '.' s).mapM (valueOf digit) = .ok numbers

def Octet (oct : BitVec 32) : Prop := 0 ≤ oct.toInt ∧ oct.toInt ≤ 255

/-- One step of the loop over the octets. -/
def place (result : BitVec 32) (entry : BitVec 32 × Nat) : BitVec 32 := result ||| entry.1 <<< ((3 - entry.2) * 8)

theorem octet_iff {oct : BitVec 32} : ¬ ((255 : BitVec 32).slt oct ∨ oct.slt 0) ↔ Octet oct := by
  have limit : (255 : BitVec 32).toInt = 255 := by decide
  have zero : (0 : BitVec 32).toInt = 0 := by decide
  rw [BitVec.slt_iff_toInt_lt, BitVec.slt_iff_toInt_lt, limit, zero, Octet]
  omega

theorem foldlM_octets_iff (octets : List Str) (i : Nat) (result address : BitVec 32) :
    (octets.zipIdx i).foldlM (fun result (octet, i) => do
      let oct ← valueOf digit octet
      if (255 : BitVec 32).slt oct ∨ oct.slt 0 then (.error .illegalArgument : Java (BitVec 32))
      else pure (result ||| oct <<< ((3 - i) * 8))) result = .ok address ↔
    ∃ numbers, octets.mapM (valueOf digit) = .ok numbers ∧ (∀ oct ∈ numbers, Octet oct) ∧
      (numbers.zipIdx i).foldl place result = address := by
  induction octets generalizing i result with
  | nil =>
    constructor
    · intro ok
      cases ok
      exact ⟨[], rfl, by simp, rfl⟩
    · rintro ⟨numbers, ok, -, rfl⟩
      cases ok
      rfl
  | cons octet octets ih =>
    rw [List.zipIdx_cons, List.foldlM_cons, List.mapM_cons]
    constructor
    · intro ok
      obtain ⟨result', step, more⟩ := bind_eq_ok ok
      obtain ⟨oct, value, step⟩ := bind_eq_ok step
      split_ifs at step with outside
      cases step
      obtain ⟨numbers, read, octets, folded⟩ := (ih _ _).mp more
      refine ⟨oct :: numbers, ?_, ?_, folded⟩
      · rw [value, read]
        rfl
      · exact List.forall_mem_cons.mpr ⟨octet_iff.mp outside, octets⟩
    · rintro ⟨numbers, ok, octets, folded⟩
      obtain ⟨oct, value, ok⟩ := bind_eq_ok ok
      obtain ⟨numbers', read, ok⟩ := bind_eq_ok ok
      cases ok
      rw [List.forall_mem_cons] at octets
      have more := (ih (i + 1) (place result (oct, i))).mpr ⟨numbers', read, octets.2, folded⟩
      have inside := octet_iff.mpr octets.1
      simp only [value, bind, Except.bind, if_neg inside, pure, Except.pure]
      exact more

theorem toIPv4Address_iff {s : Str} {address : BitVec 32} :
    toIPv4Address digit s = .ok address ↔
      ∃ numbers, Numbers digit s numbers ∧ (∀ oct ∈ numbers, Octet oct) ∧ numbers.zipIdx.foldl place 0 = address := by
  rw [toIPv4Address]
  split_ifs with four
  · constructor
    · rintro ⟨⟩
    · rintro ⟨numbers, ⟨length, -⟩, -⟩
      exact absurd length four
  · rw [foldlM_octets_iff]
    constructor
    · rintro ⟨numbers, read, more⟩
      exact ⟨numbers, ⟨not_not.mp four, read⟩, more⟩
    · rintro ⟨numbers, ⟨-, read⟩, more⟩
      exact ⟨numbers, read, more⟩

theorem mapM_byteValue (octets : List Str) :
    octets.mapM (fun octet => do let oct ← valueOf digit octet; pure (oct.setWidth 8)) =
      (octets.mapM (valueOf digit)).map (List.map (BitVec.setWidth 8)) := by
  induction octets with
  | nil => rfl
  | cons octet octets ih =>
    rw [List.mapM_cons, List.mapM_cons, ih]
    cases valueOf digit octet with
    | error e => rfl
    | ok oct => cases octets.mapM (valueOf digit) <;> rfl

theorem toIPv4AddressBytes_iff {s : Str} {bytes : List Byte} :
    toIPv4AddressBytes digit s = .ok bytes ↔
      ∃ numbers, Numbers digit s numbers ∧ numbers.map (BitVec.setWidth 8) = bytes := by
  rw [toIPv4AddressBytes]
  split_ifs with four
  · constructor
    · rintro ⟨⟩
    · rintro ⟨numbers, ⟨length, -⟩, -⟩
      exact absurd length four
  · rw [mapM_byteValue]
    constructor
    · intro ok
      cases read : (split '.' s).mapM (valueOf digit) with
      | error e =>
        rw [read] at ok
        cases ok
      | ok numbers =>
        rw [read] at ok
        exact ⟨numbers, ⟨not_not.mp four, read⟩, Except.ok.inj ok⟩
    · rintro ⟨numbers, ⟨-, read⟩, rfl⟩
      rw [read]
      rfl

theorem signExtend_low {oct : BitVec 32} (octet : Octet oct) : (oct.setWidth 8).signExtend 32 &&& 0xff = oct := by
  have small : oct.toNat < 256 := by
    have bound := oct.isLt
    rw [Octet, BitVec.toInt_eq_toNat_cond] at octet
    split_ifs at octet <;> omega
  apply BitVec.eq_of_toNat_eq
  rw [toNat_and_mask _ 8 rfl, BitVec.toNat_signExtend, BitVec.toNat_setWidth, BitVec.toNat_setWidth]
  split_ifs <;> omega

/-- The low bytes of octets denote what the octets do. -/
theorem ofBytes_octets {numbers : List (BitVec 32)} (octets : ∀ oct ∈ numbers, Octet oct) :
    ofBytes (numbers.map (BitVec.setWidth 8)) = numbers.zipIdx.foldl place 0 := by
  rw [ofBytes, List.zipIdx_map, List.foldl_map]
  apply List.foldl_ext
  intro result entry member
  have octet := octets entry.1 (List.fst_mem_of_mem_zipIdx member)
  show result ||| ((entry.1.setWidth 8).signExtend 32 &&& 0xff) <<< ((3 - entry.2) * 8) = _
  rw [signExtend_low octet, place]

/-- The two parsers agree but where the text has four numbers that are not all octets. -/
theorem agree_iff {s : Str} :
    Agree digit s ↔ ∀ numbers, Numbers digit s numbers → ∀ oct ∈ numbers, Octet oct := by
  rw [Agree]
  cases second : toIPv4AddressBytes digit s with
  | error e =>
    have none : ∀ numbers, ¬ Numbers digit s numbers := by
      intro numbers read
      have ok := (toIPv4AddressBytes_iff digit).mpr ⟨numbers, read, rfl⟩
      rw [second] at ok
      cases ok
    cases first : toIPv4Address digit s with
    | error e' => exact ⟨fun _ numbers read => absurd read (none numbers), fun _ => trivial⟩
    | ok address =>
      obtain ⟨numbers, read, -⟩ := (toIPv4Address_iff digit).mp first
      exact absurd read (none numbers)
  | ok bytes =>
    obtain ⟨numbers, read, rfl⟩ := (toIPv4AddressBytes_iff digit).mp second
    have only : ∀ numbers', Numbers digit s numbers' → numbers' = numbers := by
      intro numbers' read'
      exact Except.ok.inj (read'.2.symm.trans read.2)
    cases first : toIPv4Address digit s with
    | error e =>
      refine ⟨False.elim, fun octets => ?_⟩
      have ok := (toIPv4Address_iff digit).mpr ⟨numbers, read, octets numbers read, rfl⟩
      rw [first] at ok
      cases ok
    | ok address =>
      obtain ⟨numbers', read', octets, rfl⟩ := (toIPv4Address_iff digit).mp first
      cases only numbers' read'
      refine ⟨fun _ numbers' read' => only numbers' read' ▸ octets, fun _ => ofBytes_octets octets⟩

end Number

/-- `Integer.toString`. -/
def decimal (n : BitVec 32) : Str :=
  match n.toInt with
  | .ofNat n => Nat.toDigits 10 n
  | .negSucc n => '-' :: Nat.toDigits 10 (n + 1)

def fromIPv4Address (ipAddress : BitVec 32) : Str :=
  (List.range 4).foldl (fun sb i =>
    let result := ipAddress.sshiftRight ((3 - i) * 8) &&& 0xff
    let sb := sb ++ decimal result
    if i ≠ 3 then sb ++ ['.'] else sb) []

/-! ## Texts that are printed -/

/-- The octets of an address, from the highest. -/
def octet (ipAddress : BitVec 32) (i : Nat) : BitVec 32 := ipAddress.sshiftRight ((3 - i) * 8) &&& 0xff

section Printed
variable {digit : Char → Option Nat} {ipAddress : BitVec 32}

theorem toNat_octet (i : Nat) : (octet ipAddress i).toNat = ipAddress.toNat / 2 ^ ((3 - i) * 8) % 2 ^ 8 :=
  toNat_sshiftRight_and ipAddress _ 8 rfl (by omega)

theorem octet_octet (i : Nat) : Octet (octet ipAddress i) := by
  have small : (octet ipAddress i).toNat < 2 ^ 8 := by
    rw [toNat_octet]
    exact Nat.mod_lt _ (by decide)
  rw [Octet, BitVec.toInt_eq_toNat_of_lt (by omega)]
  omega

theorem decimal_octet (i : Nat) : decimal (octet ipAddress i) = Nat.toDigits 10 (octet ipAddress i).toNat := by
  have small : 2 * (octet ipAddress i).toNat < 2 ^ 32 := by
    rw [toNat_octet]
    omega
  rw [decimal, BitVec.toInt_eq_toNat_of_lt small]

/-- The octets at their places are the address. -/
theorem place_octets (ipAddress : BitVec 32) :
    (((List.range 4).map (octet ipAddress)).zipIdx).foldl place 0 = ipAddress := by
  show ((((0 : BitVec 32) ||| octet ipAddress 0 <<< 24) ||| octet ipAddress 1 <<< 16) ||| octet ipAddress 2 <<< 8) |||
    octet ipAddress 3 <<< 0 = ipAddress
  have first : (octet ipAddress 0).toNat = ipAddress.toNat / 2 ^ 24 % 2 ^ 8 := toNat_octet 0
  have second : (octet ipAddress 1).toNat = ipAddress.toNat / 2 ^ 16 % 2 ^ 8 := toNat_octet 1
  have third : (octet ipAddress 2).toNat = ipAddress.toNat / 2 ^ 8 % 2 ^ 8 := toNat_octet 2
  have fourth : (octet ipAddress 3).toNat = ipAddress.toNat / 2 ^ 0 % 2 ^ 8 := toNat_octet 3
  have bound := ipAddress.isLt
  have low : (octet ipAddress 2 <<< 8 ||| octet ipAddress 3).toNat =
      (octet ipAddress 2).toNat * 2 ^ 8 + (octet ipAddress 3).toNat := by
    apply toNat_shiftLeft_or <;> omega
  have mid : (octet ipAddress 1 <<< 16 ||| (octet ipAddress 2 <<< 8 ||| octet ipAddress 3)).toNat =
      (octet ipAddress 1).toNat * 2 ^ 16 + ((octet ipAddress 2).toNat * 2 ^ 8 + (octet ipAddress 3).toNat) := by
    rw [← low]
    apply toNat_shiftLeft_or
    · omega
    · rw [low]
      omega
  have high : (octet ipAddress 0 <<< 24 |||
      (octet ipAddress 1 <<< 16 ||| (octet ipAddress 2 <<< 8 ||| octet ipAddress 3))).toNat =
      (octet ipAddress 0).toNat * 2 ^ 24 + ((octet ipAddress 1).toNat * 2 ^ 16 +
        ((octet ipAddress 2).toNat * 2 ^ 8 + (octet ipAddress 3).toNat)) := by
    rw [← mid]
    apply toNat_shiftLeft_or
    · omega
    · rw [mid]
      omega
  apply BitVec.eq_of_toNat_eq
  rw [show (0 : BitVec 32) = 0#32 from rfl, BitVec.zero_or, BitVec.shiftLeft_zero, BitVec.or_assoc, BitVec.or_assoc, high]
  omega

/-- The digits of ASCII are what they are. -/
def AsciiDigits (digit : Char → Option Nat) : Prop := ∀ d < 10, digit (Nat.digitChar d) = some d

variable (ascii : AsciiDigits digit)
include ascii

theorem parseDigits_of_digits {s : Str} (nonempty : s ≠ []) (digits : ∀ c ∈ s, c.isDigit) :
    parseDigits digit s = some (Nat.ofDigitChars 10 s 0) := by
  have each : ∀ (s : Str) (n : Nat), (∀ c ∈ s, c.isDigit) →
      s.foldlM (fun result c => (digit c).map (10 * result + ·)) n = some (Nat.ofDigitChars 10 s n) := by
    intro s
    induction s with
    | nil =>
      intro n _
      rw [List.foldlM_nil, Nat.ofDigitChars_nil]
      rfl
    | cons c s ih =>
      intro n digits
      rw [List.forall_mem_cons] at digits
      obtain ⟨d, small, rfl⟩ := Decimal.digitChar_digit digits.1
      rw [List.foldlM_cons, ascii d small, Nat.ofDigitChars_cons_digitChar_of_lt_ten small]
      exact ih (10 * n + d) digits.2
  rw [parseDigits, if_neg nonempty]
  exact each s 0 digits

/-- A printed octet is read again. -/
theorem valueOf_octet (i : Nat) : valueOf digit (decimal (octet ipAddress i)) = .ok (octet ipAddress i) := by
  have small : (octet ipAddress i).toNat < 2 ^ 8 := by
    rw [toNat_octet]
    exact Nat.mod_lt _ (by decide)
  have digits : ∀ c ∈ Nat.toDigits 10 (octet ipAddress i).toNat, c.isDigit := fun c =>
    Nat.isDigit_of_mem_toDigits (by decide) (by decide)
  have read := parseDigits_of_digits ascii Nat.toDigits_ne_nil digits
  rw [Nat.ofDigitChars_ten_toDigits] at read
  have unsigned : ∀ s, (∀ c ∈ s, c.isDigit) → parseDigits digit s = some (octet ipAddress i).toNat →
      valueOf digit s = .ok (octet ipAddress i) := by
    intro s digits read
    have fits : -2 ^ 31 ≤ (Int.ofNat (octet ipAddress i).toNat) ∧ Int.ofNat (octet ipAddress i).toNat < 2 ^ 31 := by
      rw [Int.ofNat_eq_natCast]
      omega
    unfold valueOf
    split
    · exact absurd (digits '+' List.mem_cons_self) (by decide)
    · exact absurd (digits '-' List.mem_cons_self) (by decide)
    · rw [read]
      dsimp only [Option.map_some]
      rw [if_pos fits]
      apply congrArg Except.ok
      apply BitVec.eq_of_toNat_eq
      rw [Int.ofNat_eq_natCast, BitVec.ofInt_natCast, BitVec.toNat_ofNat]
      omega
  rw [decimal_octet]
  exact unsigned _ digits read

omit ascii in
theorem fromIPv4Address_eq (ipAddress : BitVec 32) :
    fromIPv4Address ipAddress = ['.'].intercalate ((List.range 4).map fun i => decimal (octet ipAddress i)) := by
  show ((((([] ++ decimal (octet ipAddress 0)) ++ ['.']) ++ decimal (octet ipAddress 1)) ++ ['.']) ++
    decimal (octet ipAddress 2)) ++ ['.'] ++ decimal (octet ipAddress 3) = _
  simp [List.range_succ]

omit ascii in
theorem split_fromIPv4Address (ipAddress : BitVec 32) :
    split '.' (fromIPv4Address ipAddress) = (List.range 4).map fun i => decimal (octet ipAddress i) := by
  rw [fromIPv4Address_eq]
  apply split_intercalate
  · intro field member
    obtain ⟨i, -, rfl⟩ := List.mem_map.mp member
    intro dot
    rw [decimal_octet] at dot
    exact absurd (Nat.isDigit_of_mem_toDigits (by decide) (by decide) dot) (by decide)
  · intro field last
    cases last
    show decimal (octet ipAddress 3) ≠ []
    rw [decimal_octet]
    exact Nat.toDigits_ne_nil
  · exact List.cons_ne_nil _ _

/-- The text of an address has its octets for numbers. -/
theorem numbers_fromIPv4Address (ipAddress : BitVec 32) :
    Numbers digit (fromIPv4Address ipAddress) ((List.range 4).map (octet ipAddress)) := by
  rw [Numbers, split_fromIPv4Address]
  refine ⟨rfl, ?_⟩
  show List.mapM (valueOf digit) [decimal (octet ipAddress 0), decimal (octet ipAddress 1), decimal (octet ipAddress 2),
    decimal (octet ipAddress 3)] = _
  simp only [List.mapM_cons, List.mapM_nil, valueOf_octet ascii]
  rfl

/-- **Round trip** of a printed address through both parsers. -/
theorem parsed_fromIPv4Address (ipAddress : BitVec 32) :
    toIPv4Address digit (fromIPv4Address ipAddress) = .ok ipAddress ∧
      ∃ bytes, toIPv4AddressBytes digit (fromIPv4Address ipAddress) = .ok bytes ∧ ofBytes bytes = ipAddress := by
  have read := numbers_fromIPv4Address ascii ipAddress
  have octets : ∀ oct ∈ (List.range 4).map (octet ipAddress), Octet oct := by
    intro oct member
    obtain ⟨i, -, rfl⟩ := List.mem_map.mp member
    exact octet_octet i
  refine ⟨(toIPv4Address_iff digit).mpr ⟨_, read, octets, place_octets ipAddress⟩, _,
    (toIPv4AddressBytes_iff digit).mpr ⟨_, read, rfl⟩, ?_⟩
  rw [ofBytes_octets octets, place_octets]

/-- **The parsers**: they agree on every text but one of four numbers that are not all octets, and
both read what is printed. -/
theorem ipv4_parsers_iff :
    (∀ s, Agree digit s ↔ ∀ numbers, Numbers digit s numbers → ∀ oct ∈ numbers, Octet oct) ∧
      ∀ ipAddress, toIPv4Address digit (fromIPv4Address ipAddress) = .ok ipAddress ∧
        ∃ bytes, toIPv4AddressBytes digit (fromIPv4Address ipAddress) = .ok bytes ∧ ofBytes bytes = ipAddress :=
  ⟨fun _ => agree_iff digit, parsed_fromIPv4Address ascii⟩

end Printed

/-- The digits of ASCII, and no others. -/
def asciiDigit (c : Char) : Option Nat := if c.isDigit then some (c.toNat - 48) else none

theorem ascii_asciiDigit : AsciiDigits asciiDigit := by
  rw [AsciiDigits]
  decide

theorem ipv4_parsers_ascii :
    (∀ s, Agree asciiDigit s ↔ ∀ numbers, Numbers asciiDigit s numbers → ∀ oct ∈ numbers, Octet oct) ∧
      ∀ ipAddress, toIPv4Address asciiDigit (fromIPv4Address ipAddress) = .ok ipAddress ∧
        ∃ bytes, toIPv4AddressBytes asciiDigit (fromIPv4Address ipAddress) = .ok bytes ∧ ofBytes bytes = ipAddress :=
  ipv4_parsers_iff ascii_asciiDigit

/-- One parser throws for a first field of 256, the other takes it for a 0. -/
theorem not_agree_256 : ¬ Agree asciiDigit ['2', '5', '6', '.', '0', '.', '0', '.', '0'] := by
  have fields : split '.' ['2', '5', '6', '.', '0', '.', '0', '.', '0'] = [['2', '5', '6'], ['0'], ['0'], ['0']] := by decide
  have first : toIPv4Address asciiDigit ['2', '5', '6', '.', '0', '.', '0', '.', '0'] = .error .illegalArgument := by
    rw [toIPv4Address, fields]
    rfl
  have second : toIPv4AddressBytes asciiDigit ['2', '5', '6', '.', '0', '.', '0', '.', '0'] = .ok [0, 0, 0, 0] := by
    rw [toIPv4AddressBytes, fields]
    rfl
  rw [Agree, first, second]
  exact id

/-! ## `Ethernet.isMACAddress` -/

def HEXES : Str := ['0', '1', '2', '3', '4', '5', '6', '7', '8', '9', 'A', 'B', 'C', 'D', 'E', 'F']

def charAt (s : Str) (i : Nat) : Java Char :=
  match s[i]? with
  | some c => .ok c
  | none => .error .indexOutOfBounds

section Mac
variable (toUpperCase : Str → Str)

/-- The loop over the groups. -/
def checkGroups : List Str → Java Bool
  | [] => pure true
  | macByte :: macBytes => do
    let first ← charAt (toUpperCase macByte) 0
    if first ∉ HEXES then pure false
    else
      let second ← charAt (toUpperCase macByte) 1
      if second ∉ HEXES then pure false else checkGroups macBytes

def isMACAddress (macAddress : Str) : Java Bool :=
  let macBytes := split ':' macAddress
  if macBytes.length ≠ 6 then pure false else checkGroups toUpperCase macBytes

/-- A digit in upper or lower case. -/
def isHexDigit (c : Char) : Bool := c ∈ HEXES ++ ['a', 'b', 'c', 'd', 'e', 'f']

/-- Six groups of two digits, with colons between them. -/
def MacGrammar (s : Str) : Prop :=
  ∃ groups : List Str, s = [':'].intercalate groups ∧ groups.length = 6 ∧
    ∀ group ∈ groups, ∃ a b, group = [a, b] ∧ isHexDigit a ∧ isHexDigit b

/-- Does not throw, and is true of what the grammar has. -/
def MacExact (s : Str) : Prop := ∃ result, isMACAddress toUpperCase s = .ok result ∧ (result = true ↔ MacGrammar s)

/-- Begins with two digits in upper case. -/
def Begins (group : Str) : Prop := ∃ a b rest, toUpperCase group = a :: b :: rest ∧ a ∈ HEXES ∧ b ∈ HEXES

/-- Has a first or second character that is none, and before it no end. -/
def Shows (group : Str) : Prop :=
  ∃ a rest, toUpperCase group = a :: rest ∧ (a ∉ HEXES ∨ ∃ b ∈ rest.head?, b ∉ HEXES)

/-- The first group that does not begin with two digits shows it. -/
def Refused (groups : List Str) : Prop :=
  ∃ before group after, groups = before ++ group :: after ∧ (∀ earlier ∈ before, Begins toUpperCase earlier) ∧
    Shows toUpperCase group

/-- What is used of the upper case: it is that of each digit. -/
def UpperDigits : Prop := ∀ a b, isHexDigit a → isHexDigit b → toUpperCase [a, b] = [a.toUpper, b.toUpper]

variable {toUpperCase}

theorem checkGroups_of_begins {group : Str} (begins : Begins toUpperCase group) (groups : List Str) :
    checkGroups toUpperCase (group :: groups) = checkGroups toUpperCase groups := by
  obtain ⟨a, b, rest, upper, first, second⟩ := begins
  rw [checkGroups, upper]
  show (if a ∉ HEXES then _ else if b ∉ HEXES then _ else checkGroups toUpperCase groups) = _
  rw [if_neg (not_not.mpr first), if_neg (not_not.mpr second)]

theorem checkGroups_of_shows {group : Str} (shows : Shows toUpperCase group) (groups : List Str) :
    checkGroups toUpperCase (group :: groups) = .ok false := by
  obtain ⟨a, rest, upper, bad⟩ := shows
  rw [checkGroups, upper]
  by_cases first : a ∈ HEXES
  · rcases bad with none | ⟨b, head, none⟩
    · exact absurd first none
    · obtain ⟨rest, rfl⟩ : ∃ more, rest = b :: more := by
        cases rest with
        | nil => cases head
        | cons c rest =>
          cases head
          exact ⟨rest, rfl⟩
      show (if a ∉ HEXES then _ else if b ∉ HEXES then pure false else _) = _
      rw [if_neg (not_not.mpr first), if_pos none]
      rfl
  · show (if a ∉ HEXES then pure false else _) = _
    rw [if_pos first]
    rfl

/-- A group that neither begins with two digits nor shows that it does not ends before. -/
theorem checkGroups_of_short {group : Str} (begins : ¬ Begins toUpperCase group) (shows : ¬ Shows toUpperCase group)
    (groups : List Str) : checkGroups toUpperCase (group :: groups) = .error .indexOutOfBounds := by
  rw [checkGroups]
  cases upper : toUpperCase group with
  | nil => rfl
  | cons a rest =>
    have first : a ∈ HEXES := by
      by_contra none
      exact shows ⟨a, rest, upper, .inl none⟩
    cases rest with
    | nil =>
      show (if a ∉ HEXES then _ else _) = _
      rw [if_neg (not_not.mpr first)]
      rfl
    | cons b rest =>
      have second : b ∉ HEXES := fun second => begins ⟨a, b, rest, upper, first, second⟩
      exact absurd ⟨a, b :: rest, upper, .inr ⟨b, rfl, second⟩⟩ shows

theorem not_shows_of_begins {group : Str} (begins : Begins toUpperCase group) : ¬ Shows toUpperCase group := by
  rintro ⟨a', rest', upper', bad⟩
  obtain ⟨a, b, rest, upper, first, second⟩ := begins
  cases upper.symm.trans upper'
  rcases bad with none | ⟨c, head, none⟩
  · exact none first
  · cases head
    exact none second

theorem refused_cons_iff {group : Str} {groups : List Str} :
    Refused toUpperCase (group :: groups) ↔
      Shows toUpperCase group ∨ Begins toUpperCase group ∧ Refused toUpperCase groups := by
  constructor
  · rintro ⟨_ | ⟨first, before⟩, bad, after, split, begin, shows⟩
    · cases split
      exact .inl shows
    · cases split
      rw [List.forall_mem_cons] at begin
      exact .inr ⟨begin.1, before, bad, after, rfl, begin.2, shows⟩
  · rintro (shows | ⟨begins, before, bad, after, rfl, begin, shows⟩)
    · exact ⟨[], group, groups, rfl, by simp, shows⟩
    · exact ⟨group :: before, bad, after, rfl, List.forall_mem_cons.mpr ⟨begins, begin⟩, shows⟩

/-- What the loop returns, if it does. -/
theorem checkGroups_iff {groups : List Str} :
    (checkGroups toUpperCase groups = .ok true ↔ ∀ group ∈ groups, Begins toUpperCase group) ∧
      (checkGroups toUpperCase groups = .ok false ↔ Refused toUpperCase groups) := by
  induction groups with
  | nil =>
    refine ⟨⟨fun _ => by simp, fun _ => rfl⟩, ⟨(by rintro ⟨⟩), ?_⟩⟩
    rintro ⟨before, group, after, split, -⟩
    simp at split
  | cons group groups ih =>
    rw [refused_cons_iff, List.forall_mem_cons]
    by_cases begins : Begins toUpperCase group
    · have shows := not_shows_of_begins begins
      rw [checkGroups_of_begins begins, ih.1, ih.2]
      exact ⟨(and_iff_right begins).symm, by rw [and_iff_right begins, or_iff_right shows]⟩
    · by_cases shows : Shows toUpperCase group
      · rw [checkGroups_of_shows shows]
        exact ⟨⟨(by rintro ⟨⟩), fun all => absurd all.1 begins⟩, ⟨fun _ => .inl shows, fun _ => rfl⟩⟩
      · rw [checkGroups_of_short begins shows]
        refine ⟨⟨(by rintro ⟨⟩), fun all => absurd all.1 begins⟩, ⟨(by rintro ⟨⟩), ?_⟩⟩
        rintro (now | later)
        · exact absurd now shows
        · exact absurd later.1 begins

/-- A text of the grammar is split into its groups. -/
theorem split_of_grammar {groups : List Str} (six : groups.length = 6)
    (digits : ∀ group ∈ groups, ∃ a b, group = [a, b] ∧ isHexDigit a ∧ isHexDigit b) :
    split ':' ([':'].intercalate groups) = groups := by
  apply split_intercalate
  · intro group member colon
    obtain ⟨a, b, rfl, first, second⟩ := digits group member
    rcases List.mem_pair.mp colon with rfl | rfl
    · exact absurd first (by decide)
    · exact absurd second (by decide)
  · intro group last
    obtain ⟨a, b, rfl, -⟩ := digits group (List.mem_of_mem_getLast? last)
    exact List.cons_ne_nil _ _
  · rintro rfl
    cases six

theorem toUpper_mem_HEXES {c : Char} (digit : isHexDigit c) : c.toUpper ∈ HEXES := by
  have each : (HEXES ++ ['a', 'b', 'c', 'd', 'e', 'f']).all (fun c => c.toUpper ∈ HEXES) = true := by decide
  exact of_decide_eq_true (List.all_eq_true.mp each c (of_decide_eq_true digit))

theorem isMACAddress_of_grammar (upper : UpperDigits toUpperCase) {s : Str} (grammar : MacGrammar s) :
    isMACAddress toUpperCase s = .ok true := by
  obtain ⟨groups, rfl, six, digits⟩ := grammar
  rw [isMACAddress, split_of_grammar six digits, if_neg (not_not.mpr six), checkGroups_iff.1]
  intro group member
  obtain ⟨a, b, rfl, first, second⟩ := digits group member
  exact ⟨a.toUpper, b.toUpper, [], upper a b first second, toUpper_mem_HEXES first, toUpper_mem_HEXES second⟩

/-- **The validator** is exact on the grammar, on what has not six groups, and on what has a first
bad group that shows it. -/
theorem mac_exact_iff (upper : UpperDigits toUpperCase) (s : Str) :
    MacExact toUpperCase s ↔ MacGrammar s ∨ (split ':' s).length ≠ 6 ∨ Refused toUpperCase (split ':' s) := by
  have returns_false : isMACAddress toUpperCase s = .ok false ↔
      (split ':' s).length ≠ 6 ∨ Refused toUpperCase (split ':' s) := by
    rw [isMACAddress]
    split_ifs with six
    · exact ⟨fun _ => .inl six, fun _ => rfl⟩
    · rw [checkGroups_iff.2]
      exact ⟨.inr, fun either => either.resolve_left six⟩
  constructor
  · rintro ⟨result, returned, exact⟩
    cases result with
    | true => exact .inl (exact.mp rfl)
    | false => exact .inr (returns_false.mp returned)
  · rintro (grammar | refused)
    · exact ⟨true, isMACAddress_of_grammar upper grammar, ⟨fun _ => grammar, fun _ => rfl⟩⟩
    · refine ⟨false, returns_false.mpr refused, ⟨(by rintro ⟨⟩), fun grammar => ?_⟩⟩
      have returned := isMACAddress_of_grammar upper grammar
      rw [returns_false.mpr refused] at returned
      cases returned

end Mac

theorem upperDigits_toUpper : UpperDigits (List.map Char.toUpper) := fun _ _ _ _ => rfl

theorem mac_exact_zeros :
    MacExact (List.map Char.toUpper) ([':'].intercalate (List.replicate 6 ['0', 'f'])) := by
  apply (mac_exact_iff upperDigits_toUpper _).mpr
  refine .inl ⟨_, rfl, List.length_replicate, fun group member => ?_⟩
  exact ⟨'0', 'f', List.eq_of_mem_replicate member, by decide, by decide⟩

/-- The last group has no second character. -/
def shortMac : Str := ['0', '0', ':', '1', '1', ':', '2', '2', ':', '3', '3', ':', '4', '4', ':', '5']

theorem not_mac_exact_short : ¬ MacExact (List.map Char.toUpper) shortMac := by
  have groups : split ':' shortMac = [['0', '0'], ['1', '1'], ['2', '2'], ['3', '3'], ['4', '4'], ['5']] := by decide
  have throws : isMACAddress (List.map Char.toUpper) shortMac = .error .indexOutOfBounds := by
    rw [isMACAddress, groups]
    rfl
  rintro ⟨result, returned, -⟩
  rw [throws] at returned
  cases returned

end CodeClips.Packet
