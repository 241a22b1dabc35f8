import CodeClips.Sds.Invariant

/-!
# `sdsrange`

The string is cut down to what stands between two indices, of which a negative one counts from the end. The indices are `int`
and the length is not: `sdsrange_exact` says for which of them the string is the one that is asked for. A sum that an `int` has no
place for is undefined, which is `none`, and a length that it has no place for is negative.
-/

namespace CodeClips.Sds

def INT_MAX : Int := 2 ^ 31 - 1

/-- `start = len+start`, and the same of `end`: a sum of type `size_t`, cut down to an `int`. -/
def fromEnd (len : Nat) (i : BitVec 32) : Int :=
  if i.toInt < 0 then
    let i := (BitVec.ofInt 32 (len + i.toInt)).toInt
    if i < 0 then 0 else i
  else i.toInt

/-- `(start > end) ? 0 : (end-start)+1`. -/
def inclusive (start stop : Int) : Option Int :=
  if start > stop then some 0 else if stop - start + 1 > INT_MAX then none else some (stop - start + 1)

/-- What is to be kept: from where, and how many bytes. -/
def rangeOf (len : Nat) (start stop : BitVec 32) : Option (Int × Int) := do
  let start := fromEnd len start
  let stop := fromEnd len stop
  let newlen ← inclusive start stop
  if newlen ≠ 0 then
    if start ≥ (BitVec.ofNat 32 len).toInt then some (start, 0)
    else if stop ≥ (BitVec.ofNat 32 len).toInt then
      let stop := (BitVec.ofNat 32 (len - 1)).toInt
      (inclusive start stop).map fun newlen => (start, newlen)
    else some (start, newlen)
  else some (0, newlen)

/-- The `memmove`, which reads and writes inside of what is allocated. -/
def Allocated.moved (s : Allocated) (start newlen : Nat) : Option (List Byte) :=
  if start ≠ 0 ∧ newlen ≠ 0 then
    if start + newlen ≤ s.buf.length then writeAt s.buf 0 (slice s.buf start newlen) else none
  else some s.buf

def sdsrange (s : Allocated) (start stop : BitVec 32) : Option Allocated :=
  let len := sdslen s.tosdshdr
  if len = 0 then some s
  else do
    let (start, newlen) ← rangeOf len start stop
    let newlen := newlen.toNat
    let buf ← s.moved start.toNat newlen
    let buf ← writeAt buf newlen [0]
    some { len := BitVec.ofNat 32 newlen, free := s.free + (s.len - BitVec.ofNat 32 newlen), buf := buf }

/-! ## What is asked for -/

/-- The place of an index. -/
def place (len : Nat) (i : BitVec 32) : Int := if i.toInt < 0 then len + i.toInt else i.toInt

/-- The bytes from one place to another, both included. -/
def substring (bytes : List Byte) (start stop : Int) : List Byte := (bytes.take (stop + 1).toNat).drop start.toNat

variable {s : Allocated} {bytes : List Byte} {cap len : Nat} {start stop : BitVec 32}

theorem toInt_bounds (i : BitVec 32) : -2 ^ 31 ≤ i.toInt ∧ i.toInt ≤ INT_MAX := by
  have low := BitVec.le_toInt i
  have high := BitVec.toInt_lt (x := i)
  unfold INT_MAX
  omega

theorem toInt_len (small : len < 2 ^ 31) : (BitVec.ofNat 32 len).toInt = len := by
  rw [BitVec.toInt_eq_toNat_cond, BitVec.toNat_ofNat, Nat.mod_eq_of_lt (by omega), if_pos (by omega)]

theorem toInt_len_neg (large : 2 ^ 31 ≤ len) (fits : len < 2 ^ 32) : (BitVec.ofNat 32 len).toInt < 0 := by
  rw [BitVec.toInt_eq_toNat_cond, BitVec.toNat_ofNat, Nat.mod_eq_of_lt fits, if_neg (by omega)]
  omega

theorem fromEnd_small (small : len < 2 ^ 31) (i : BitVec 32) : fromEnd len i = max (place len i) 0 := by
  obtain ⟨low, high⟩ := toInt_bounds i
  unfold INT_MAX at high
  unfold fromEnd place
  split
  · have sum : (BitVec.ofInt 32 (len + i.toInt)).toInt = len + i.toInt := by
      rw [BitVec.toInt_ofInt]
      exact Int.bmod_eq_of_le (by omega) (by omega)
    rw [sum]
    dsimp only
    split <;> omega
  · omega

theorem fromEnd_nonneg (len : Nat) (i : BitVec 32) : 0 ≤ fromEnd len i := by
  unfold fromEnd
  dsimp only
  split_ifs <;> omega

theorem length_substring (bytes : List Byte) (start stop : Int) :
    (substring bytes start stop).length = min (stop + 1).toNat bytes.length - start.toNat := by
  rw [substring, List.length_drop, List.length_take]

theorem fromEnd_large (large : 2 ^ 31 ≤ len) (fits : len < 2 ^ 32) (i : BitVec 32) :
    0 ≤ place len i ∧ fromEnd len i = if place len i ≤ INT_MAX then place len i else 0 := by
  obtain ⟨low, high⟩ := toInt_bounds i
  unfold INT_MAX at high ⊢
  unfold fromEnd place
  dsimp only
  by_cases negative : i.toInt < 0
  · have sum : (BitVec.ofInt 32 (len + i.toInt)).toInt =
        if len + i.toInt < 2 ^ 31 then len + i.toInt else len + i.toInt - 2 ^ 32 := by
      rw [BitVec.toInt_eq_toNat_cond, BitVec.toNat_ofInt, Int.emod_eq_of_lt (by omega) (by omega)]
      split_ifs <;> omega
    rw [if_pos negative, if_pos negative, sum]
    refine ⟨by omega, ?_⟩
    split_ifs <;> omega
  · rw [if_neg negative, if_neg negative, if_pos high]
    exact ⟨by omega, rfl⟩

/-! ## What is kept -/

theorem rangeOf_eq {first last : Int} (atFirst : fromEnd len start = first) (atLast : fromEnd len stop = last) :
    rangeOf len start stop = (inclusive first last).bind fun newlen =>
      if newlen ≠ 0 then
        if first ≥ (BitVec.ofNat 32 len).toInt then some (first, 0)
        else if last ≥ (BitVec.ofNat 32 len).toInt then
          (inclusive first (BitVec.ofNat 32 (len - 1)).toInt).map fun newlen => (first, newlen)
        else some (first, newlen)
      else some (0, newlen) := by
  subst atFirst atLast
  rfl

theorem inclusive_cases {first last : Int} (low : 0 ≤ first) (high : last ≤ INT_MAX) :
    first = 0 ∧ last = INT_MAX ∧ inclusive first last = none ∨
      ¬ (first = 0 ∧ last = INT_MAX) ∧ inclusive first last = some (max (last - first + 1) 0) := by
  unfold inclusive
  split_ifs with none wraps
  · exact .inr ⟨by unfold INT_MAX; omega, by congr 1; omega⟩
  · exact .inl ⟨by omega, by omega, rfl⟩
  · exact .inr ⟨by omega, by congr 1; omega⟩

/-- A string whose length is an `int`. -/
theorem rangeOf_small (some' : 0 < len) (small : len < 2 ^ 31) {first last : Int} (atFirst : fromEnd len start = first)
    (atLast : fromEnd len stop = last) (low : 0 ≤ first) (high : last ≤ INT_MAX) :
    first = 0 ∧ last = INT_MAX ∧ rangeOf len start stop = none ∨
      ¬ (first = 0 ∧ last = INT_MAX) ∧ ∃ begin', rangeOf len start stop = some (begin', max (min (last + 1) len - first) 0) ∧
        (0 < min (last + 1) len - first → begin' = first) := by
  have top : ((len - 1 : Nat) : Int) < INT_MAX := by unfold INT_MAX; omega
  rw [rangeOf_eq atFirst atLast, toInt_len small, toInt_len (by omega)]
  rcases inclusive_cases low high with ⟨front, last', none⟩ | ⟨inside, count⟩
  · exact .inl ⟨front, last', by rw [none, Option.bind_none]⟩
  · refine .inr ⟨inside, ?_⟩
    rw [count, Option.bind_some]
    split_ifs with kept beyond cut
    · exact ⟨first, by congr 2; omega, fun _ => rfl⟩
    · rcases inclusive_cases low top.le with ⟨-, top', -⟩ | ⟨-, count'⟩
      · omega
      · exact ⟨first, by rw [count', Option.map_some]; congr 2; omega, fun _ => rfl⟩
    · exact ⟨first, by congr 2; omega, fun _ => rfl⟩
    · exact ⟨0, by congr 2; omega, fun more => by omega⟩

/-- A longer string: nothing is kept. -/
theorem rangeOf_large (large : 2 ^ 31 ≤ len) (fits : len < 2 ^ 32) {first last : Int} (atFirst : fromEnd len start = first)
    (atLast : fromEnd len stop = last) (low : 0 ≤ first) (high : last ≤ INT_MAX) :
    first = 0 ∧ last = INT_MAX ∧ rangeOf len start stop = none ∨
      ¬ (first = 0 ∧ last = INT_MAX) ∧ ∃ begin', rangeOf len start stop = some (begin', 0) := by
  have negative := toInt_len_neg large fits
  rw [rangeOf_eq atFirst atLast]
  rcases inclusive_cases low high with ⟨front, top, none⟩ | ⟨inside, count⟩
  · exact .inl ⟨front, top, by rw [none, Option.bind_none]⟩
  · refine .inr ⟨inside, ?_⟩
    rw [count, Option.bind_some]
    split_ifs with kept beyond
    · exact ⟨first, rfl⟩
    · omega
    · omega
    · exact ⟨0, by congr 2; omega⟩

/-- The bytes that are kept stand at the front then; where they are none, nothing is moved. -/
theorem Kept.moved (kept : Kept s bytes cap) {first count : Nat} (inside : count ≠ 0 → first + count ≤ bytes.length) :
    ∃ behind, s.moved first count = some (slice bytes first count ++ behind) ∧
      (slice bytes first count ++ behind).length = cap + 1 := by
  obtain ⟨rest, whole⟩ := kept.buf
  have room := kept.room
  unfold Allocated.moved
  by_cases none : count = 0
  · rw [if_neg (fun both => both.2 none), none, slice, List.take_zero]
    exact ⟨s.buf, rfl, room⟩
  have inside := inside none
  by_cases front : first = 0
  · rw [if_neg (fun both => both.1 front), front, slice, List.drop_zero]
    refine ⟨bytes.drop count ++ 0 :: rest, ?_, ?_⟩
    · rw [whole, ← List.append_assoc, List.take_append_drop]
    · rw [← List.append_assoc, List.take_append_drop, ← whole, room]
  · have rest' : count ≤ (bytes.drop first).length := by
      rw [List.length_drop]
      omega
    have piece : slice s.buf first count = slice bytes first count := by
      rw [slice, slice, whole, List.drop_append_of_le_length (by omega), List.take_append_of_le_length rest']
    have sum := kept.sum
    have reads : first + count ≤ s.buf.length := by omega
    have writes : (slice bytes first count).length ≤ s.buf.length := by
      rw [slice_length]
      omega
    have copied := @writeAt_append _ [] s.buf (slice bytes first count) 0 rfl writes
    rw [List.nil_append, List.nil_append] at copied
    rw [if_pos ⟨front, none⟩, if_pos reads, piece, copied]
    exact ⟨_, rfl, (length_writeAt copied).trans room⟩

/-- The bytes are cut down, in the same allocation. -/
theorem Kept.range (kept : Kept s bytes cap) (some' : bytes ≠ []) {first count : Int} (low : 0 ≤ first)
    (found : ∃ begin', rangeOf bytes.length start stop = some (begin', max count 0) ∧ (0 < count → begin' = first))
    (inside : 0 < count → first + count ≤ bytes.length) :
    ∃ s', sdsrange s start stop = some s' ∧ Kept s' (slice bytes first.toNat count.toNat) cap := by
  obtain ⟨begin', found, same⟩ := found
  have sum := kept.sum
  have small := kept.fits
  have number : (max count 0).toNat = count.toNat := by omega
  have enough : count.toNat ≤ bytes.length := by omega
  have length : (slice bytes first.toNat count.toNat).length = count.toNat := by
    rw [slice_length]
    omega
  have piece : slice bytes begin'.toNat count.toNat = slice bytes first.toNat count.toNat := by
    by_cases none : count.toNat = 0
    · rw [none, slice, slice, List.take_zero, List.take_zero]
    · rw [same (by omega)]
  have fits : count.toNat ≠ 0 → begin'.toNat + count.toNat ≤ bytes.length := by
    intro more
    rw [same (by omega)]
    omega
  obtain ⟨behind, moved, total⟩ := kept.moved fits
  rw [piece] at moved total
  obtain ⟨rest, closed, total'⟩ := @writeAt_closed _ _ _ [] _ cap 0 length.symm total (by
    rw [List.length_nil]
    omega)
  rw [List.append_nil, List.nil_append] at closed
  rw [List.append_nil] at total'
  unfold sdsrange
  rw [kept.len]
  dsimp only
  rw [if_neg (List.length_pos_iff.mpr some').ne', found, Option.bind_eq_bind, Option.bind_some, number, moved,
    Option.bind_eq_bind, Option.bind_some, closed, Option.bind_some]
  have len : s.len.toNat = bytes.length := kept.len
  refine ⟨_, rfl, kept_of ?_ total' ?_ small⟩
  · rw [BitVec.toNat_ofNat, length]
    omega
  · rw [length, BitVec.toNat_add, BitVec.toNat_sub, BitVec.toNat_ofNat, len]
    omega

/-- The string that is left can be no other. -/
theorem kept_iff {t t' : List Byte} (left : ∃ s', sdsrange s start stop = some s' ∧ Kept s' t cap) :
    (∃ s', sdsrange s start stop = some s' ∧ Kept s' t' cap) ↔ t' = t := by
  obtain ⟨s', ran, kept⟩ := left
  constructor
  · rintro ⟨s'', ran', kept'⟩
    obtain rfl := Option.some.inj (ran.symm.trans ran')
    rw [← bytes_of_holds kept.exact.holds, ← bytes_of_holds kept'.exact.holds]
  · rintro rfl
    exact ⟨s', ran, kept⟩

/-! ## The function -/

theorem place_lt (len : Nat) (i : BitVec 32) : place len i ≤ INT_MAX ∨ place len i < len := by
  obtain ⟨-, high⟩ := toInt_bounds i
  unfold place
  split <;> omega

theorem sdsrange_none (some' : sdslen s.tosdshdr ≠ 0) (none : rangeOf (sdslen s.tosdshdr) start stop = none) :
    sdsrange s start stop = Option.none := by
  unfold sdsrange
  dsimp only
  rw [if_neg some', none]
  rfl

/-- A place in front of the string is taken for its first. -/
theorem substring_eq_slice_iff (some' : bytes ≠ []) (first last : Int) :
    substring bytes first last = slice bytes (max first 0).toNat (min (max last 0 + 1) bytes.length - max first 0).toNat ↔
      0 < first ∨ 0 ≤ last := by
  have pos := List.length_pos_iff.mpr some'
  constructor
  · intro same
    have lengths := congrArg List.length same
    rw [length_substring, slice_length] at lengths
    omega
  · intro inside
    rw [substring, slice, List.drop_take]
    have start : first.toNat = (max first 0).toNat := by omega
    rw [start]
    apply List.take_eq_take_iff.mpr
    rw [List.length_drop]
    omega

theorem Kept.range_small_iff (kept : Kept s bytes cap) (some' : bytes ≠ []) (small : bytes.length < 2 ^ 31) :
    (∃ s', sdsrange s start stop = some s' ∧
      Kept s' (substring bytes (place bytes.length start) (place bytes.length stop)) cap) ↔
      0 < place bytes.length start ∨ 0 ≤ place bytes.length stop ∧ place bytes.length stop ≠ INT_MAX := by
  have len := kept.len
  have pos := List.length_pos_iff.mpr some'
  have high := place_lt bytes.length stop
  have int_max : INT_MAX = 2 ^ 31 - 1 := rfl
  rcases rangeOf_small pos small (fromEnd_small small start) (fromEnd_small small stop) (by omega) (by omega) with
    ⟨front, last, undefined⟩ | ⟨inside, found⟩
  · refine iff_of_false ?_ (by omega)
    rintro ⟨s', ran, -⟩
    rw [sdsrange_none (by omega) (len ▸ undefined)] at ran
    cases ran
  · rw [kept_iff (kept.range some' (by omega) found (by omega)), substring_eq_slice_iff some']
    omega

theorem Kept.range_large_iff (kept : Kept s bytes cap) (large : 2 ^ 31 ≤ bytes.length) :
    (∃ s', sdsrange s start stop = some s' ∧
      Kept s' (substring bytes (place bytes.length start) (place bytes.length stop)) cap) ↔
      place bytes.length stop < place bytes.length start ∧ place bytes.length stop ≠ INT_MAX := by
  have len := kept.len
  have sum := kept.sum
  have fits := kept.fits
  have high := place_lt bytes.length stop
  have int_max : INT_MAX = 2 ^ 31 - 1 := rfl
  have some' : bytes ≠ [] := List.length_pos_iff.mp (by omega)
  obtain ⟨low, first⟩ := fromEnd_large large (by omega) start
  obtain ⟨low', last⟩ := fromEnd_large large (by omega) stop
  rcases rangeOf_large large (by omega) first last (first ▸ fromEnd_nonneg _ _) (by split <;> omega) with
    ⟨front, top, undefined⟩ | ⟨inside, begin', found⟩
  · refine iff_of_false ?_ ?_
    · rintro ⟨s', ran, -⟩
      rw [sdsrange_none (by omega) (len ▸ undefined)] at ran
      cases ran
    · split at top <;> omega
  · have empty : substring bytes (place bytes.length start) (place bytes.length stop) = slice bytes (Int.toNat 0) (Int.toNat 0) ↔
        place bytes.length stop < place bytes.length start := by
      rw [slice, Int.toNat_zero, List.take_zero, ← List.length_eq_zero_iff, length_substring]
      omega
    have left := kept.range some' (Int.le_refl 0) ⟨begin', found, fun more => absurd more (Int.lt_irrefl 0)⟩
      (fun more => absurd more (Int.lt_irrefl 0))
    rw [kept_iff left, empty]
    split_ifs at inside <;> omega

/-- **The range** is what is asked for where the string is not too long for an `int`, the end is not the largest `int`, and does not
stand in front of the string; the last two are allowed where the start stands behind the first byte. A longer string becomes empty. -/
theorem sdsrange_exact (kept : Kept s bytes cap) (start stop : BitVec 32) :
    (∃ s', sdsrange s start stop = some s' ∧
      Kept s' (substring bytes (place bytes.length start) (place bytes.length stop)) cap) ↔
      bytes = [] ∨
      bytes.length < 2 ^ 31 ∧
        (0 < place bytes.length start ∨ 0 ≤ place bytes.length stop ∧ place bytes.length stop ≠ INT_MAX) ∨
      2 ^ 31 ≤ bytes.length ∧ place bytes.length stop < place bytes.length start ∧ place bytes.length stop ≠ INT_MAX := by
  by_cases none : bytes = []
  · subst none
    refine iff_of_true ⟨s, ?_, ?_⟩ (.inl rfl)
    · unfold sdsrange
      exact if_pos kept.len
    · rwa [substring, List.take_nil, List.drop_nil]
  rw [or_iff_right none]
  rcases Nat.lt_or_ge bytes.length (2 ^ 31) with small | large
  · rw [kept.range_small_iff none small]
    omega
  · rw [kept.range_large_iff large]
    omega

/-- The end stands in front of the string, and the first byte is kept. -/
theorem sdsrange_exact_front : ¬ ∃ s', sdsrange { len := 3, free := 0, buf := [1, 2, 3, 0] } 0 (-4) = some s' ∧
    Kept s' (substring [1, 2, 3] (place 3 0) (place 3 (-4))) 3 := by
  have kept : Kept { len := 3, free := 0, buf := [1, 2, 3, 0] } [1, 2, 3] 3 := ⟨rfl, ⟨[], rfl⟩, rfl, rfl, by decide⟩
  refine (sdsrange_exact kept 0 (-4)).not.mpr ?_
  decide

end CodeClips.Sds
