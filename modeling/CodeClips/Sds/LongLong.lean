import CodeClips.Lib.Decimal
import CodeClips.Sds.Repr
import Mathlib.Algebra.GroupWithZero.Nat
import Mathlib.Algebra.Ring.Int.Defs

/-!
# `sdsll2str` and `sdsull2str`

The digits are written from the last one on, then the sign, and the text is reversed where it is. The
negation is one of a `long long`: of the smallest one it overflows. `decimal` is the text of a number.
-/

namespace CodeClips.Sds

/-- `SDS_LLSTR_SIZE`, the room for the text of a number and its NUL. -/
def SDS_LLSTR_SIZE : Nat := 21

def LLONG_MIN : BitVec 64 := BitVec.intMin 64

/-- The `do` loop, with the place of `p`. -/
def putDigits (s : List Byte) (p v : Nat) : Option (List Byte × Nat) :=
  (writeAt s p [BitVec.ofNat 8 (48 + v % 10)]).bind fun s =>
    if v / 10 = 0 then some (s, p + 1) else putDigits s (p + 1) (v / 10)
termination_by v

/-- The last loop: `s` and `p` go towards each other. -/
def reverseLoop (buf : List Byte) (s p : Nat) : List Byte :=
  if s < p then
    let aux := buf.getD s 0
    let buf := buf.set s (buf.getD p 0)
    reverseLoop (buf.set p aux) (s + 1) (p - 1)
  else buf
termination_by p - s

/-- The NUL, and the reversal of what is in front of it. -/
def finish (s : List Byte) (p : Nat) : Option (List Byte × Nat) :=
  (writeAt s p [0]).map fun s => (reverseLoop s 0 (p - 1), p)

/-- `v`. -/
def magnitude (value : BitVec 64) : Option (BitVec 64) :=
  if value.toInt < 0 then (if value = LLONG_MIN then none else some (-value)) else some value

def putSign (s : List Byte) (p : Nat) (value : BitVec 64) : Option (List Byte × Nat) :=
  if value.toInt < 0 then (writeAt s p [char '-']).map (·, p + 1) else some (s, p)

/-- The buffer, and the number of characters that is returned; `none` where a write is outside of the
buffer or the negation overflows. -/
def sdsll2str (s : List Byte) (value : BitVec 64) : Option (List Byte × Nat) := do
  let v ← magnitude value
  let (s, p) ← putDigits s 0 v.toNat
  let (s, p) ← putSign s p value
  finish s p

def sdsull2str (s : List Byte) (v : BitVec 64) : Option (List Byte × Nat) := do
  let (s, p) ← putDigits s 0 v.toNat
  finish s p

/-! ## The text of a number -/

/-- The digits as the `do` loop writes them, the last one first. -/
def digits (v : Nat) : List Byte := BitVec.ofNat 8 (48 + v % 10) :: if v / 10 = 0 then [] else digits (v / 10)
termination_by v

/-- A number as it is written. -/
def decimal (n : Int) : List Byte := (if n < 0 then [char '-'] else []) ++ (Nat.toDigits 10 n.natAbs).map char

/-- Its characters. -/
def numeralText (n : Int) : List Char := (if n < 0 then ['-'] else []) ++ Nat.toDigits 10 n.natAbs

variable {n : Int} {s rest front back : List Byte} {p v : Nat} {value : BitVec 64}

theorem map_numeralText (n : Int) : (numeralText n).map char = decimal n := by
  rw [numeralText, decimal, List.map_append]
  split_ifs <;> rfl

theorem numeral_numeralText (n : Int) : Decimal.numeral (numeralText n) = some n := by
  rw [numeralText]
  split_ifs with negative
  · rw [List.singleton_append, Decimal.numeral_negative (by omega)]
    exact congrArg some (by omega)
  · rw [List.nil_append, Decimal.numeral_toDigits]
    exact congrArg some (by omega)

theorem digitChar_byte : ∀ d < 10, char (Nat.digitChar d) = BitVec.ofNat 8 (48 + d) := by decide

theorem reverse_digits (v : Nat) : (digits v).reverse = (Nat.toDigits 10 v).map char := by
  induction v using Nat.strong_induction_on with
  | _ v ih =>
    have last := digitChar_byte (v % 10) (Nat.mod_lt v (by decide))
    rw [digits, List.reverse_cons, ← last]
    split_ifs with small
    · have below : v < 10 := by omega
      rw [Nat.toDigits_of_lt_base below, Nat.mod_eq_of_lt below]
      rfl
    · have above : 10 ≤ v := by omega
      rw [ih (v / 10) (by omega), Nat.toDigits_of_base_le (by decide) above, List.map_append]
      rfl

theorem decimal_fits (low : -2 ^ 63 ≤ n) (high : n < 2 ^ 64) : (decimal n).length < SDS_LLSTR_SIZE := by
  rw [decimal, List.length_append, List.length_map, SDS_LLSTR_SIZE]
  split_ifs with negative
  · have short : (Nat.toDigits 10 n.natAbs).length ≤ 19 := by
      rw [Nat.length_toDigits_le_iff (by decide) (by decide)]
      omega
    rw [List.length_singleton]
    omega
  · have short : (Nat.toDigits 10 n.natAbs).length ≤ 20 := by
      rw [Nat.length_toDigits_le_iff (by decide) (by decide)]
      omega
    rw [List.length_nil]
    omega

/-! ## The loops -/

/-- The digits are written one behind the other. -/
theorem putDigits_append (place : p = front.length) (room : (digits v).length ≤ rest.length) :
    putDigits (front ++ rest) p v = some (front ++ digits v ++ rest.drop (digits v).length, p + (digits v).length) := by
  induction v using Nat.strong_induction_on generalizing p front rest with
  | _ v ih =>
    rw [digits] at room ⊢
    rw [List.length_cons] at room ⊢
    rw [putDigits, writeAt_append place (Nat.le_trans (Nat.le_add_left 1 _) room), Option.bind_some]
    split_ifs at room ⊢ with last
    · rfl
    · have next : p + 1 = (front ++ [BitVec.ofNat 8 (48 + v % 10)]).length := by
        rw [List.length_append, List.length_singleton, place]
      have room' : (digits (v / 10)).length ≤ (rest.drop [BitVec.ofNat 8 (48 + v % 10)].length).length := by
        rw [List.length_drop, List.length_singleton]
        omega
      rw [ih (v / 10) (by omega) next room', List.append_assoc front, List.drop_drop, List.length_singleton, Nat.add_assoc,
        Nat.add_comm 1]
      rfl

theorem getD_append_cons (a : Byte) : (front ++ a :: back).getD front.length 0 = a := by
  rw [List.getD_eq_getElem?_getD, List.getElem?_append_right (Nat.le_refl _), Nat.sub_self]
  rfl

theorem set_append_cons (a b : Byte) : (front ++ a :: back).set front.length b = front ++ b :: back := by
  rw [List.set_append_right _ _ (Nat.le_refl _), Nat.sub_self]
  rfl

/-- The bytes at the two places are exchanged. -/
theorem reverseLoop_swap (front mid back : List Byte) (a b : Byte) :
    reverseLoop (front ++ a :: (mid ++ b :: back)) front.length (front.length + mid.length + 1) =
      reverseLoop (front ++ b :: (mid ++ a :: back)) (front.length + 1) (front.length + mid.length) := by
  have split (x y : Byte) : front ++ x :: (mid ++ y :: back) = (front ++ x :: mid) ++ y :: back := by
    rw [List.append_assoc, List.cons_append]
  have place (x : Byte) : front.length + mid.length + 1 = (front ++ x :: mid).length := by
    rw [List.length_append, List.length_cons, Nat.add_assoc]
  have second (x y : Byte) : (front ++ x :: (mid ++ y :: back)).getD (front.length + mid.length + 1) 0 = y := by
    rw [split, place x, getD_append_cons]
  have written (x y z : Byte) : (front ++ x :: (mid ++ y :: back)).set (front.length + mid.length + 1) z =
      front ++ x :: (mid ++ z :: back) := by
    rw [split, place x, set_append_cons, split]
  rw [reverseLoop, if_pos (by omega)]
  dsimp only
  rw [getD_append_cons, second, set_append_cons, written, Nat.add_sub_cancel]

/-- What is between the two places is turned round. -/
theorem reverseLoop_append (mid front back : List Byte) :
    reverseLoop (front ++ mid ++ back) front.length (front.length + mid.length - 1) = front ++ mid.reverse ++ back := by
  induction mid using List.bidirectionalRec generalizing front back with
  | nil =>
    rw [reverseLoop, if_neg (by rw [List.length_nil]; omega), List.reverse_nil]
  | singleton a =>
    rw [reverseLoop, if_neg (by rw [List.length_singleton]; omega), List.reverse_singleton]
  | cons_append a mid b ih =>
    have inner := ih (front ++ [b]) (a :: back)
    have onward : (front ++ [b]).length = front.length + 1 := by rw [List.length_append, List.length_singleton]
    have last : front.length + (a :: (mid ++ [b])).length - 1 = front.length + mid.length + 1 := by
      rw [List.length_cons, List.length_append, List.length_singleton]
      omega
    have shape (x y : Byte) : front ++ x :: (mid ++ [y]) ++ back = front ++ x :: (mid ++ y :: back) := by
      simp only [List.append_assoc, List.cons_append, List.nil_append]
    rw [onward, Nat.add_right_comm, Nat.add_sub_cancel, List.append_assoc, List.append_assoc] at inner
    rw [last, shape, reverseLoop_swap]
    apply inner.trans
    simp only [List.reverse_cons, List.reverse_append, List.reverse_nil, List.append_assoc, List.cons_append, List.nil_append]

/-! ## The functions -/

/-- What is in front of the NUL is reversed. -/
theorem finish_append (text : List Byte) (place : p = text.length) (room : 0 < rest.length) :
    finish (text ++ rest) p = some (text.reverse ++ 0 :: rest.drop 1, p) := by
  have turned := reverseLoop_append text [] (0 :: rest.drop 1)
  rw [List.length_nil, Nat.zero_add, List.nil_append, List.nil_append] at turned
  rw [finish, @writeAt_append _ text rest [0] p place room, Option.map_some, List.append_assoc, place]
  exact congrArg (fun buf => some (buf, text.length)) turned

theorem reverse_digits_decimal (v : Nat) : (digits v).reverse = decimal v := by
  rw [reverse_digits, decimal, if_neg (by omega)]
  rfl

theorem putDigits_start (room : (digits v).length ≤ s.length) :
    putDigits s 0 v = some (digits v ++ s.drop (digits v).length, (digits v).length) := by
  have written := @putDigits_append s [] 0 v rfl room
  rwa [List.nil_append, List.nil_append, Nat.zero_add] at written

/-- The text that is written, and its NUL. -/
def written (s : List Byte) (n : Int) : List Byte × Nat :=
  (decimal n ++ 0 :: s.drop ((decimal n).length + 1), (decimal n).length)

theorem sdsull2str_eq (room : SDS_LLSTR_SIZE ≤ s.length) (v : BitVec 64) : sdsull2str s v = some (written s v.toNat) := by
  have bound := v.isLt
  have fits := @decimal_fits v.toNat (by omega) (by omega)
  rw [← reverse_digits_decimal, List.length_reverse] at fits
  rw [sdsull2str, putDigits_start (by omega)]
  show finish _ _ = _
  rw [finish_append (digits v.toNat) rfl (by rw [List.length_drop]; omega), List.drop_drop, written, ← reverse_digits_decimal,
    List.length_reverse]

/-- A negative number has the digits of the opposite one, and the sign. -/
theorem decimal_neg (positive : 0 < v) : decimal (-(v : Int)) = (digits v ++ [char '-']).reverse := by
  rw [List.reverse_append, reverse_digits, decimal, if_pos (by omega), Int.natAbs_neg]
  rfl

/-- What is written for the magnitude and the sign of a number. -/
theorem magnitude_spec (other : value ≠ LLONG_MIN) :
    ∃ v, magnitude value = some v ∧
      ((value.toInt < 0 ∧ 0 < v.toNat ∧ value.toInt = -(v.toNat : Int)) ∨ (¬ value.toInt < 0 ∧ value.toInt = v.toNat)) := by
  have sign := BitVec.toInt_eq_toNat_cond value
  have bound := value.isLt
  rw [magnitude]
  by_cases negative : value.toInt < 0
  · refine ⟨-value, by rw [if_pos negative, if_neg other], .inl ⟨negative, ?_⟩⟩
    rw [BitVec.toNat_neg]
    split_ifs at sign <;> omega
  · refine ⟨value, if_neg negative, .inr ⟨negative, ?_⟩⟩
    split_ifs at sign <;> omega

theorem sdsll2str_eq (room : SDS_LLSTR_SIZE ≤ s.length) (other : value ≠ LLONG_MIN) :
    sdsll2str s value = some (written s value.toInt) := by
  have low := BitVec.le_toInt value
  have high := BitVec.toInt_lt (x := value)
  have fits := @decimal_fits value.toInt (by omega) (by omega)
  obtain ⟨v, known, ⟨negative, positive, opposite⟩ | ⟨natural, same⟩⟩ := magnitude_spec other
  · rw [opposite, decimal_neg positive, List.length_reverse, List.length_append, List.length_singleton] at fits
    have signed : writeAt (digits v.toNat ++ s.drop (digits v.toNat).length) (digits v.toNat).length [char '-'] =
        some (digits v.toNat ++ [char '-'] ++ (s.drop (digits v.toNat).length).drop 1) :=
      writeAt_append rfl (by rw [List.length_drop, List.length_singleton]; omega)
    rw [sdsll2str, known]
    show (putDigits s 0 v.toNat).bind _ = _
    rw [putDigits_start (by omega)]
    show (putSign _ _ value).bind _ = _
    rw [putSign, if_pos negative, signed]
    show finish _ _ = _
    rw [finish_append (digits v.toNat ++ [char '-']) (by rw [List.length_append, List.length_singleton])
      (by rw [List.length_drop, List.length_drop]; omega), List.drop_drop, List.drop_drop, written, opposite,
      decimal_neg positive, List.length_reverse, List.length_append, List.length_singleton]
  · rw [same, ← reverse_digits_decimal, List.length_reverse] at fits
    rw [sdsll2str, known]
    show (putDigits s 0 v.toNat).bind _ = _
    rw [putDigits_start (by omega)]
    show (putSign _ _ value).bind _ = _
    rw [putSign, if_neg natural]
    show finish _ _ = _
    rw [finish_append (digits v.toNat) rfl (by rw [List.length_drop]; omega), List.drop_drop, written, same,
      ← reverse_digits_decimal, List.length_reverse]

/-- The negation overflows. -/
theorem sdsll2str_min (s : List Byte) : sdsll2str s LLONG_MIN = none := rfl

/-- At most 20 characters and a NUL are written, their number is returned, and they are a numeral of the value. -/
def Exact (s : List Byte) (value : BitVec 64) : Prop :=
  ∃ text, sdsll2str s value = some (text.map char ++ 0 :: s.drop (text.length + 1), text.length) ∧ text.length ≤ 20 ∧
    Decimal.numeral text = some value.toInt

/-- **The text** is exact for every number but the smallest. -/
theorem sdsll2str_exact_iff (room : SDS_LLSTR_SIZE ≤ s.length) (value : BitVec 64) :
    Exact s value ↔ value ≠ LLONG_MIN := by
  constructor
  · rintro ⟨text, result, -⟩ rfl
    rw [sdsll2str_min] at result
    cases result
  · intro other
    have low := BitVec.le_toInt value
    have high := BitVec.toInt_lt (x := value)
    have fits := @decimal_fits value.toInt (by omega) (by omega)
    rw [← map_numeralText, List.length_map] at fits
    refine ⟨numeralText value.toInt, ?_, Nat.le_of_lt_succ fits, numeral_numeralText _⟩
    rw [sdsll2str_eq room other, written, ← map_numeralText, List.length_map]

theorem sdsll2str_exact_iff_room : Exact (List.replicate 21 0) (-40) ↔ (-40 : BitVec 64) ≠ LLONG_MIN :=
  sdsll2str_exact_iff (by decide) (-40)

theorem sdsll2str_overflows : ¬ Exact (List.replicate 21 0) LLONG_MIN := by
  rintro ⟨text, result, -⟩
  rw [sdsll2str_min] at result
  cases result

example : (decimal LLONG_MIN.toInt).length + 1 = SDS_LLSTR_SIZE := by decide

end CodeClips.Sds
