import CodeClips.Lib.Buffer
import CodeClips.Strbuf.PowerOfTwo
import Mathlib.Data.Option.Basic

/-!
# String buffers

A buffer is borrowed or owned. `value` has all the bytes of what is borrowed or allocated; an
operation is `none` where it writes outside of them, and returns `false` where an allocation is
refused. `Settles` says of an operation when it leaves the string that it is to build.
-/

namespace CodeClips.Strbuf

abbrev Byte := BitVec 8

/-- `struct strbuf_t_`: `allocated` and `buffer` are its two lengths, `static` is a flag, and `value` may be `NULL`. -/
structure strbuf_t where
  value : Option (List Byte)
  allocated : BitVec 64
  buffer : BitVec 64
  static : Bool

/-- The characters that are passed with `s2` and `sz`, where `s2` is all that can be read there; it ends
with a NUL if `sz` does not say where. -/
structure Text where
  s2 : List Byte
  sz : BitVec 64
  inside : sz.toNat ≤ s2.length
  ends : sz = 0 → 0 ∈ s2
  small : s2.length < 2 ^ 63

def strlen (s : List Byte) : Nat := (s.takeWhile (· ≠ 0)).length

/-- `sz`, or `strlen(s2)`. -/
def Text.size (text : Text) : BitVec 64 := if text.sz = 0 then BitVec.ofNat 64 (strlen text.s2) else text.sz

def Text.bytes (text : Text) : List Byte := text.s2.take text.size.toNat

def max (one another : BitVec 64) : BitVec 64 := if one > another then one else another

/-- A write to `value.buffer + i`. -/
def strbuf_t.write (s : strbuf_t) (i : BitVec 64) (t : List Byte) : Option strbuf_t :=
  (s.value.bind (writeAt · i.toNat t)).map fun value => { s with value := some value }

/-- Some bytes from a place on, and a NUL behind them. -/
def strbuf_t.store (s : strbuf_t) (i : BitVec 64) (t : List Byte) : Option strbuf_t :=
  (s.write i t).bind fun s =>
    let s := { s with buffer := i + BitVec.ofNat 64 t.length }
    s.write s.buffer [0]

section Allocating
variable (junk : Nat → Byte)

/-- A block of another size; one above `PTRDIFF_MAX` is refused. -/
def realloc (block : List Byte) (n : BitVec 64) : Option (List Byte) :=
  if n.toNat < 2 ^ 63 then some (resized junk block n.toNat) else none

def malloc (n : BitVec 64) : Option (List Byte) := realloc junk [] n

def grow_buffer_if_needed (s : strbuf_t) (size : BitVec 64) : Option (strbuf_t × Bool) :=
  if s.static then
    let next_power := find_next_power_of_two (max (size + 1) s.buffer)
    match malloc junk next_power with
    | none => some (s, false)
    | some buffer => do
      let static_buffer ← s.value
      let buffer ← writeAt buffer 0 (static_buffer.take s.buffer.toNat)
      let buffer ← writeAt buffer (s.buffer + 1).toNat [0]
      some ({ value := some buffer, allocated := next_power, buffer := s.buffer, static := false }, true)
  else if s.allocated < size then
    let next_power := find_next_power_of_two size
    match realloc junk (s.value.getD []) (next_power + 1) with
    | none => some (s, false)
    | some buffer => some ({ s with value := some buffer, allocated := next_power }, true)
  else some (s, true)

/-- What is stored once there is space. -/
def strbuf_t.grown (s : strbuf_t) (size : BitVec 64) (store : strbuf_t → Option strbuf_t) : Option (strbuf_t × Bool) :=
  (grow_buffer_if_needed junk s size).bind fun (s, grown) =>
    if grown then (store s).map (·, true) else some (s, false)

def strbuf_init_with_size (size : BitVec 64) : Option (strbuf_t × Bool) :=
  let s : strbuf_t := { value := none, allocated := 0, buffer := 0, static := false }
  s.grown junk size fun s => { s with buffer := 0 }.write 0 [0]

def strbuf_append_char (s : strbuf_t) (c : Byte) : Option (strbuf_t × Bool) :=
  s.grown junk (s.buffer + 2) fun s => s.store s.buffer [c]

def strbuf_append_str (s1 : strbuf_t) (text : Text) : Option (strbuf_t × Bool) :=
  s1.grown junk (s1.buffer + text.size + 2) fun s1 => s1.store s1.buffer text.bytes

def strbuf_set_static (_s1 : strbuf_t) (text : Text) : Option (strbuf_t × Bool) :=
  some ({ value := some text.s2, allocated := text.size, buffer := text.size, static := true }, true)

def strbuf_set (s1 : strbuf_t) (text : Text) : Option (strbuf_t × Bool) :=
  s1.grown junk (text.size + 1) fun s1 => s1.store 0 text.bytes

def strbuf_shrink_to (s : strbuf_t) (new_size : BitVec 64) : Option (strbuf_t × Bool) :=
  if s.allocated ≤ new_size then some (s, true)
  else if s.static then some (s, true)
  else
    let next_power_of_two := find_next_power_of_two new_size
    match realloc junk (s.value.getD []) (next_power_of_two + 1) with
    | none => some (s, false)
    | some buffer =>
      let s := { s with value := some buffer, allocated := next_power_of_two }
      if s.buffer > next_power_of_two then
        let s := { s with buffer := next_power_of_two - 1 }
        (s.write (s.buffer + 1) [0]).map (·, true)
      else some (s, true)

def DEFAULT_BUF_SIZE : BitVec 64 := 64

def strbuf_shrink_to_default (s : strbuf_t) : Option (strbuf_t × Bool) := strbuf_shrink_to junk s DEFAULT_BUF_SIZE

def strbuf_reset (s : strbuf_t) : Option (strbuf_t × Bool) :=
  (strbuf_shrink_to_default junk s).map fun (s, _) => ({ s with buffer := 0 }, false)

def strbuf_grow_to (s : strbuf_t) (new_size : BitVec 64) : Option (strbuf_t × Bool) :=
  grow_buffer_if_needed junk s (new_size + 1)

def strbuf_reset_length (s : strbuf_t) : Option (strbuf_t × Bool) :=
  let cut := fun s : strbuf_t => ({ s with buffer := 0 }.write 0 [0]).map (·, true)
  if s.static then
    match malloc junk s.allocated with
    | none => some ({ s with value := none, static := false }, false)
    | some buffer => cut { s with value := some buffer, static := false }
  else cut s

end Allocating

/-- The string is the bytes, and a NUL is behind them if they are owned. -/
structure strbuf_t.Holds (s : strbuf_t) (t : List Byte) : Prop where
  length : s.buffer.toNat = t.length
  value : ∃ rest, s.value = some (t ++ rest) ∧ (s.static = false → rest.head? = some 0)

/-- There are as many bytes as are said to be allocated. -/
def strbuf_t.Sized (s : strbuf_t) : Prop := ∀ value ∈ s.value, s.allocated.toNat ≤ value.length ∧ value.length < 2 ^ 63

/-- An operation for which there was memory has built the string exactly if the condition is met. -/
def Settles (result : Option (strbuf_t × Bool)) (built : strbuf_t → List Byte) (ok : Prop) : Prop :=
  (∃ s, result = some (s, false)) ∨ (ok ∧ ∃ s, result = some (s, true) ∧ s.Holds (built s) ∧ s.Sized) ∨
    (¬ ok ∧ (result = none ∨ ∃ s, result = some (s, true) ∧ ¬ s.Holds (built s)))

variable {junk : Nat → Byte} {s : strbuf_t} {t bytes rest : List Byte} {size : BitVec 64} {n : Nat}

theorem Text.length_bytes (text : Text) : text.bytes.length = text.size.toNat ∧ text.size.toNat < 2 ^ 63 ∧
    text.size.toNat ≤ text.s2.length := by
  have small := text.small
  have inside : text.size.toNat ≤ text.s2.length := by
    rw [Text.size]
    split_ifs
    · have less : strlen text.s2 ≤ text.s2.length := (List.takeWhile_sublist _).length_le
      rw [BitVec.toNat_ofNat]
      exact (Nat.mod_le _ _).trans less
    · exact text.inside
  refine ⟨List.length_take_of_le inside, by omega, inside⟩

/-- No number above the highest power has a next one. -/
theorem find_next_power_of_two_cases (number : BitVec 64) :
    (find_next_power_of_two number).toNat = 0 ∨ number.toNat ≤ (find_next_power_of_two number).toNat := by
  by_cases some : number = 0
  · rw [some]
    exact .inr (Nat.zero_le _)
  · obtain ⟨y, smears, next⟩ := exists_smears number
    have low := smears.le (by decide)
    rw [toNat_pred some] at low
    have bound := y.isLt
    rw [next, BitVec.toNat_add]
    show (y.toNat + 1) % 2 ^ 64 = 0 ∨ number.toNat ≤ (y.toNat + 1) % 2 ^ 64
    omega

theorem le_find_next_power_of_two_of_lt (positive : 0 < size.toNat) (small : size.toNat ≤ 2 ^ 63) :
    size.toNat ≤ (find_next_power_of_two size).toNat ∧ (find_next_power_of_two size).toNat ≤ 2 ^ 63 := by
  apply le_find_next_power_of_two _ small
  rintro rfl
  exact absurd positive (by decide)

theorem toNat_max (one another : BitVec 64) : (max one another).toNat = Max.max one.toNat another.toNat := by
  rw [max]
  split_ifs with greater
  · rw [GT.gt, BitVec.lt_def] at greater
    exact (Nat.max_eq_left (Nat.le_of_lt greater)).symm
  · rw [GT.gt, BitVec.lt_def, Nat.not_lt] at greater
    exact (Nat.max_eq_right greater).symm

/-- A block of some size. -/
theorem sized_block {v : List Byte} {allocated buffer : BitVec 64} {static : Bool} (total : v.length = n)
    (least : allocated.toNat ≤ n) (small : n < 2 ^ 63) :
    ({ value := some v, allocated := allocated, buffer := buffer, static := static } : strbuf_t).Sized := by
  rintro _ ⟨⟩
  rw [total]
  exact ⟨least, small⟩

/-! ## Storing -/

theorem strbuf_t.write_eq {v : List Byte} {i : BitVec 64} (value : s.value = some v) :
    s.write i bytes = (writeAt v i.toNat bytes).map fun value => { s with value := some value } := by
  rw [write, value, Option.bind_some]

theorem toNat_behind {i : BitVec 64} (small : i.toNat < 2 ^ 63) (count : n < 2 ^ 63) :
    (i + BitVec.ofNat 64 n).toNat = i.toNat + n := by
  rw [BitVec.toNat_add, BitVec.toNat_ofNat]
  omega

/-- Bytes and a NUL behind a front, if there is room. -/
theorem strbuf_t.store_room {front : List Byte} {i : BitVec 64} (value : s.value = some (front ++ rest))
    (place : i.toNat = front.length) (room : bytes.length + 1 ≤ rest.length) (small : (front ++ rest).length < 2 ^ 63) :
    ∃ rest', s.store i bytes = some { s with
        value := some (front ++ bytes ++ 0 :: rest')
        buffer := i + BitVec.ofNat 64 bytes.length } ∧
      (front ++ bytes ++ 0 :: rest').length = (front ++ rest).length ∧
      (i + BitVec.ofNat 64 bytes.length).toNat = (front ++ bytes).length := by
  rw [List.length_append] at small
  have behind := @toNat_behind bytes.length i (by omega) (by omega)
  have total : (front ++ rest).length = (front ++ rest).length - 1 + 1 := by
    rw [List.length_append]
    omega
  obtain ⟨rest', stored, length⟩ := @writeAt_then_close _ _ _ bytes _ _ (0 : Byte) place total (by
    rw [List.length_append]
    omega)
  obtain ⟨v, copied, closed⟩ := Option.bind_eq_some_iff.mp stored
  refine ⟨rest', ?_, length.trans total.symm, ?_⟩
  · rw [store, write_eq value, copied, Option.map_some, Option.bind_some]
    dsimp only
    rw [write_eq rfl, behind, closed]
    rfl
  · rw [behind, place, List.length_append]

theorem strbuf_t.store_none {v : List Byte} {i : BitVec 64} (value : s.value = some v) (small : i.toNat < 2 ^ 63)
    (count : bytes.length < 2 ^ 63) (short : v.length < i.toNat + bytes.length + 1) : s.store i bytes = none := by
  rw [store, write_eq value]
  cases copied : writeAt v i.toNat bytes with
  | none => rfl
  | some v' =>
    have length := length_writeAt copied
    rw [Option.map_some, Option.bind_some]
    dsimp only
    rw [write_eq rfl, toNat_behind small count, writeAt, if_neg (by rw [length, List.length_singleton]; omega)]
    rfl

/-! ## Growing -/

theorem realloc_cases (block : List Byte) (n : BitVec 64) :
    (2 ^ 63 ≤ n.toNat ∧ realloc junk block n = none) ∨
      (n.toNat < 2 ^ 63 ∧ realloc junk block n = some (resized junk block n.toNat)) := by
  rw [realloc]
  split_ifs with small
  · exact .inr ⟨small, rfl⟩
  · exact .inl ⟨Nat.le_of_not_lt small, rfl⟩

/-- A new block has what the memory had. -/
theorem fresh_block (junk : Nat → Byte) {n size : Nat} (room : n + 2 ≤ size) :
    ∃ front c rest, resized junk [] size = front ++ junk n :: c :: rest ∧ front.length = n := by
  have parts : List.range' 0 size = List.range' 0 n ++ n :: (n + 1) :: List.range' (n + 2) (size - (n + 2)) := by
    have first : List.range' 0 size = List.range' 0 n ++ List.range' n (size - n) := by
      have added := @List.range'_append_1 0 n (size - n)
      rw [Nat.zero_add, Nat.add_sub_cancel' (by omega)] at added
      exact added.symm
    rw [first, show size - n = size - (n + 2) + 1 + 1 by omega, List.range'_succ, List.range'_succ]
  refine ⟨(List.range' 0 n).map junk, junk (n + 1), (List.range' (n + 2) (size - (n + 2))).map junk, ?_, ?_⟩
  · rw [resized, List.take_nil, List.nil_append, List.length_nil, Nat.sub_zero, parts, List.map_append]
    rfl
  · rw [List.length_map, List.length_range']

/-- The copy of a borrowed buffer. -/
theorem copy_static (junk : Nat → Byte) (t : List Byte) (size : Nat) :
    (size < t.length + 2 ∧ (writeAt (resized junk [] size) 0 t).bind (writeAt · (t.length + 1) [0]) = none) ∨
      ∃ rest, (writeAt (resized junk [] size) 0 t).bind (writeAt · (t.length + 1) [0]) =
          some (t ++ junk t.length :: 0 :: rest) ∧ (t ++ junk t.length :: 0 :: rest).length = size := by
  have total := length_resized junk [] size
  rcases Nat.lt_or_ge size (t.length + 2) with short | room
  · refine .inl ⟨short, ?_⟩
    cases copied : writeAt (resized junk [] size) 0 t with
    | none => rfl
    | some v =>
      have length := length_writeAt copied
      rw [Option.bind_some, writeAt, if_neg (by rw [length, total, List.length_singleton]; omega)]
  · obtain ⟨front, c, rest, block, place⟩ := fresh_block junk room
    rw [block] at total ⊢
    have copied := @writeAt_append _ [] (front ++ junk t.length :: c :: rest) t 0 rfl (by rw [total]; omega)
    rw [List.nil_append, List.nil_append, List.drop_left' place] at copied
    have closed := @writeAt_append _ (t ++ [junk t.length]) (c :: rest) [0] (t.length + 1)
      (by rw [List.length_append]; rfl) (Nat.le_add_left _ _)
    rw [List.append_assoc, List.append_assoc, List.append_assoc] at closed
    refine .inr ⟨rest, ?_, ?_⟩
    · rw [copied, Option.bind_some]
      exact closed
    · rw [← total, List.length_append, List.length_append, place]
      rfl

/-- A borrowed buffer is copied. A NUL is written one byte too far behind, so that there have to be two bytes
more than are copied. -/
theorem grow_static (holds : s.Holds t) (sized : s.Sized) (static : s.static = true) (size : BitVec 64) :
    (∃ s', grow_buffer_if_needed junk s size = some (s', false)) ∨
      ((find_next_power_of_two (max (size + 1) s.buffer)).toNat < t.length + 2 ∧ grow_buffer_if_needed junk s size = none) ∨
        ∃ rest, grow_buffer_if_needed junk s size = some (
            { value := some (t ++ junk t.length :: 0 :: rest)
              allocated := find_next_power_of_two (max (size + 1) s.buffer)
              buffer := s.buffer
              static := false }, true) ∧
          (t ++ junk t.length :: 0 :: rest).length = (find_next_power_of_two (max (size + 1) s.buffer)).toNat ∧
          (find_next_power_of_two (max (size + 1) s.buffer)).toNat < 2 ^ 63 := by
  obtain ⟨length, text, value, -⟩ := holds
  obtain ⟨-, small⟩ := sized _ value
  rw [List.length_append] at small
  rw [grow_buffer_if_needed, if_pos static]
  dsimp only
  generalize find_next_power_of_two (max (size + 1) s.buffer) = next_power
  rw [malloc]
  obtain ⟨-, refused⟩ | ⟨granted, block⟩ := @realloc_cases junk [] next_power
  · rw [refused]
    exact .inl ⟨s, rfl⟩
  · have behind := @toNat_behind 1 s.buffer (by omega) (by decide)
    change (s.buffer + 1).toNat = _ at behind
    have whole : (t ++ text).take s.buffer.toNat = t := List.take_left' length.symm
    rw [block, value, behind, ← length]
    dsimp only
    rw [Option.bind_eq_bind, Option.bind_some, whole, length, ← Option.bind_assoc]
    rcases copy_static junk t next_power.toNat with ⟨short, outside⟩ | ⟨rest, copied, total⟩
    · rw [outside]
      exact .inr (.inl ⟨short, rfl⟩)
    · rw [copied]
      exact .inr (.inr ⟨rest, rfl, total, granted⟩)

/-- An owned buffer. -/
theorem grow_dynamic (dynamic : s.static = false) {v : List Byte} (value : s.value.getD [] = v) (size : BitVec 64) :
    (size ≤ s.allocated ∧ grow_buffer_if_needed junk s size = some (s, true)) ∨
      (s.allocated < size ∧ ((∃ s', grow_buffer_if_needed junk s size = some (s', false)) ∨
        ((find_next_power_of_two size + 1).toNat < 2 ^ 63 ∧ grow_buffer_if_needed junk s size = some (
          { s with
            value := some (resized junk v (find_next_power_of_two size + 1).toNat)
            allocated := find_next_power_of_two size }, true)))) := by
  rw [grow_buffer_if_needed, if_neg (by rw [dynamic]; exact Bool.false_ne_true)]
  split_ifs with small
  · refine .inr ⟨small, ?_⟩
    dsimp only
    rw [value]
    obtain ⟨-, refused⟩ | ⟨small, granted⟩ := @realloc_cases junk v (find_next_power_of_two size + 1)
    · rw [refused]
      exact .inl ⟨s, rfl⟩
    · rw [granted]
      exact .inr ⟨small, rfl⟩
  · exact .inl ⟨BitVec.not_lt.mp small, rfl⟩

/-- The buffer is owned, and there is room behind the string. -/
structure strbuf_t.Open (s : strbuf_t) (t : List Byte) (n : Nat) : Prop where
  dynamic : s.static = false
  length : s.buffer.toNat = t.length
  value : ∃ rest, s.value = some (t ++ rest) ∧ n + 1 ≤ rest.length
  sized : s.Sized

/-- More of the string. -/
theorem strbuf_t.Open.store (room : s.Open t bytes.length) :
    ∃ s', s.store s.buffer bytes = some s' ∧ s'.Holds (t ++ bytes) ∧ s'.Sized := by
  obtain ⟨rest, value, enough⟩ := room.value
  obtain ⟨least, small⟩ := room.sized _ value
  obtain ⟨rest', stored, total, length⟩ := strbuf_t.store_room value room.length enough small
  exact ⟨_, stored, ⟨length, ⟨0 :: rest', rfl, fun _ => rfl⟩⟩, sized_block total least small⟩

/-- Another string. -/
theorem strbuf_t.store_set {v : List Byte} (value : s.value = some v) (sized : s.Sized)
    (enough : bytes.length + 1 ≤ v.length) : ∃ s', s.store 0 bytes = some s' ∧ s'.Holds bytes ∧ s'.Sized := by
  obtain ⟨least, small⟩ := sized _ value
  obtain ⟨rest', stored, total, length⟩ := @strbuf_t.store_room s bytes v [] 0 value rfl enough small
  exact ⟨_, stored, ⟨length, ⟨0 :: rest', rfl, fun _ => rfl⟩⟩, sized_block total least small⟩

theorem strbuf_t.Holds.owned (holds : s.Holds t) (dynamic : s.static = false) :
    ∃ rest, s.value = some (t ++ 0 :: rest) := by
  obtain ⟨rest, value, nul⟩ := holds.value
  have first := nul dynamic
  cases rest with
  | nil => cases first
  | cons c rest => exact ⟨rest, by rw [value, Option.some.inj first]⟩

/-- What an owned buffer becomes. -/
theorem strbuf_t.Holds.resized {room : Nat} (holds : s.Holds t) (dynamic : s.static = false) {v : List Byte}
    (value : s.value = some v) (enough : t.length + 1 ≤ room) :
    ∃ rest, resized junk v room = t ++ 0 :: rest ∧ (t ++ 0 :: rest).length = room := by
  obtain ⟨rest, value'⟩ := holds.owned dynamic
  obtain rfl := Option.some.inj (value.symm.trans value')
  have parts : t ++ 0 :: rest = t ++ [0] ++ rest := by
    rw [List.append_assoc]
    rfl
  have inside : (t ++ [0]).length ≤ room := by
    rw [List.length_append]
    exact enough
  obtain ⟨rest', keeps, -⟩ := resized_append junk inside rest
  have total := length_resized junk (t ++ [0] ++ rest) room
  rw [keeps, List.append_assoc] at total
  rw [parts, keeps, List.append_assoc]
  exact ⟨rest', rfl, total⟩

theorem toNat_succ (x : BitVec 64) : (x + 1).toNat = (x.toNat + 1) % 2 ^ 64 := BitVec.toNat_add _ _

/-- A size that is too large is refused, or next to nothing is asked for. -/
theorem room_of_large (large : 2 ^ 63 < size.toNat) (granted : (find_next_power_of_two size + 1).toNat < 2 ^ 63) :
    (find_next_power_of_two size + 1).toNat ≤ 1 := by
  have next := find_next_power_of_two_cases size
  have bound := (find_next_power_of_two size).isLt
  rw [toNat_succ] at granted ⊢
  omega

theorem room_of_small (positive : 0 < size.toNat) (small : size.toNat ≤ 2 ^ 63) :
    (find_next_power_of_two size + 1).toNat = (find_next_power_of_two size).toNat + 1 ∧
      size.toNat ≤ (find_next_power_of_two size).toNat := by
  obtain ⟨low, high⟩ := le_find_next_power_of_two_of_lt positive small
  rw [toNat_succ]
  omega

section Grown
variable {s' : strbuf_t} {store : strbuf_t → Option strbuf_t}

theorem grown_refused (refused : grow_buffer_if_needed junk s size = some (s', false)) :
    s.grown junk size store = some (s', false) := by
  rw [strbuf_t.grown, refused]
  rfl

theorem grown_outside (outside : grow_buffer_if_needed junk s size = none) : s.grown junk size store = none := by
  rw [strbuf_t.grown, outside]
  rfl

theorem grown_done (grown : grow_buffer_if_needed junk s size = some (s', true)) :
    s.grown junk size store = (store s').map (·, true) := by
  rw [strbuf_t.grown, grown]
  rfl

/-- What is stored after growing builds the string, or goes outside. -/
theorem settles_stored {built : List Byte} {ok : Prop} (grown : grow_buffer_if_needed junk s size = some (s', true))
    (stored : (ok ∧ ∃ s₂, store s' = some s₂ ∧ s₂.Holds built ∧ s₂.Sized) ∨ (¬ ok ∧ store s' = none)) :
    Settles (s.grown junk size store) (fun _ => built) ok := by
  rw [grown_done grown]
  obtain ⟨fits, s₂, done, holds, sized⟩ | ⟨misfit, outside⟩ := stored
  · exact .inr (.inl ⟨fits, s₂, by rw [done]; rfl, holds, sized⟩)
  · exact .inr (.inr ⟨misfit, .inl (by rw [outside]; rfl)⟩)

end Grown

section Append
variable {S : Nat} (holds : s.Holds t) (sized : s.Sized) (asked : size.toNat = S % 2 ^ 64)
  (least : t.length + bytes.length + 1 ≤ S) (most : S ≤ t.length + bytes.length + 2) (count : bytes.length < 2 ^ 63)
include holds sized asked least most count

/-- The end of a borrowed string, for which a size is asked that may be too large. -/
theorem settles_append_static (static : s.static = true) :
    Settles (s.grown junk size fun s => s.store s.buffer bytes) (fun _ => t ++ bytes) (S + 1 ≤ 2 ^ 63) := by
  have length := holds.length
  have next := find_next_power_of_two_cases (max (size + 1) s.buffer)
  have above := @le_find_next_power_of_two_of_lt (max (size + 1) s.buffer)
  have asked_more := toNat_succ size
  obtain ⟨text, value, -⟩ := holds.value
  have small := (sized _ value).2
  rw [List.length_append] at small
  rw [toNat_max] at next above
  obtain ⟨s', refused⟩ | ⟨short, outside⟩ | ⟨rest, copied, total, granted⟩ :=
    @grow_static junk s t holds sized static size
  · exact .inl ⟨s', grown_refused refused⟩
  · exact .inr (.inr ⟨by omega, .inl (grown_outside outside)⟩)
  · have room := total
    rw [List.length_append, List.length_cons, List.length_cons] at room
    have fits : S + 1 ≤ 2 ^ 63 := by omega
    refine settles_stored copied (.inl ⟨fits, strbuf_t.Open.store ⟨rfl, length, ⟨_, rfl, ?_⟩, ?_⟩⟩)
    · rw [List.length_cons, List.length_cons]
      omega
    · exact sized_block total le_rfl granted

/-- The end of an owned string. -/
theorem settles_append_dynamic (static : s.static = false) :
    Settles (s.grown junk size fun s => s.store s.buffer bytes) (fun _ => t ++ bytes) (S ≤ 2 ^ 63) := by
  have length := holds.length
  obtain ⟨rest, owned⟩ := holds.owned static
  obtain ⟨least', small⟩ := sized _ owned
  have capacity := small
  rw [List.length_append, List.length_cons] at capacity
  have value := congrArg (Option.getD · []) owned
  obtain ⟨enough, same⟩ | ⟨short, ⟨s', refused⟩ | ⟨granted, moved⟩⟩ := @grow_dynamic junk s static _ value size
  · rw [BitVec.le_def] at enough
    have room := least'
    rw [List.length_append] at room
    refine settles_stored same (.inl ⟨by omega, strbuf_t.Open.store ⟨static, length, ⟨_, owned, ?_⟩, sized⟩⟩)
    omega
  · exact .inl ⟨s', grown_refused refused⟩
  · apply settles_stored moved
    rcases Nat.lt_or_ge (2 ^ 63) S with large | fits
    · have few := @room_of_large size (by omega) granted
      refine .inr ⟨by omega, strbuf_t.store_none rfl (by dsimp only; omega) count ?_⟩
      rw [length_resized]
      dsimp only
      omega
    · obtain ⟨room, next⟩ := @room_of_small size (by omega) (by omega)
      obtain ⟨rest', keeps, total⟩ :=
        @strbuf_t.Holds.resized junk s t (find_next_power_of_two size + 1).toNat holds static _ owned (by omega)
      have behind := total
      rw [List.length_append] at behind
      refine .inl ⟨fits, strbuf_t.Open.store ⟨static, length, ⟨0 :: rest', congrArg some keeps, by omega⟩, ?_⟩⟩
      exact sized_block (length_resized _ _ _) (by omega) granted

theorem settles_append :
    Settles (s.grown junk size fun s => s.store s.buffer bytes) (fun _ => t ++ bytes)
      (S + (if s.static then 1 else 0) ≤ 2 ^ 63) := by
  cases static : s.static with
  | true => exact settles_append_static holds sized asked least most count static
  | false => exact settles_append_dynamic holds sized asked least most count static

end Append

/-! ## The operations -/

theorem settles_append_char (holds : s.Holds t) (sized : s.Sized) (c : Byte) :
    Settles (strbuf_append_char junk s c) (fun _ => t ++ [c]) (t.length + 2 + (if s.static then 1 else 0) ≤ 2 ^ 63) := by
  apply settles_append holds sized
  · rw [BitVec.toNat_add, holds.length]
    rfl
  · exact Nat.le_refl _
  · exact Nat.le_succ _
  · show 1 < 2 ^ 63
    decide

theorem settles_append_str (holds : s.Holds t) (sized : s.Sized) (text : Text) :
    Settles (strbuf_append_str junk s text) (fun _ => t ++ text.bytes)
      (t.length + text.bytes.length + 2 + (if s.static then 1 else 0) ≤ 2 ^ 63) := by
  obtain ⟨length, small, -⟩ := text.length_bytes
  apply settles_append holds sized
  · rw [BitVec.toNat_add, BitVec.toNat_add, holds.length, length]
    exact Nat.mod_add_mod _ _ _
  · exact Nat.le_succ _
  · exact Nat.le_refl _
  · rw [length]
    exact small

theorem settles_set_static (s : strbuf_t) (text : Text) :
    Settles (strbuf_set_static s text) (fun _ => text.bytes) True := by
  obtain ⟨length, small, inside⟩ := text.length_bytes
  refine .inr (.inl ⟨trivial, _, rfl, ⟨length.symm, ⟨text.s2.drop text.size.toNat, ?_, ?_⟩⟩, ?_⟩)
  · exact congrArg some (List.take_append_drop _ _).symm
  · rintro ⟨⟩
  · exact sized_block rfl inside text.small

/-- The string in a borrowed buffer is copied before it is replaced. -/
theorem settles_set (holds : s.Holds t) (sized : s.Sized) (text : Text) :
    Settles (strbuf_set junk s text) (fun _ => text.bytes)
      (s.static = true → t.length + 2 ≤ (find_next_power_of_two (max (text.size + 1 + 1) s.buffer)).toNat) := by
  obtain ⟨length, small, -⟩ := text.length_bytes
  have asked : (text.size + 1).toNat = text.size.toNat + 1 := by
    rw [toNat_succ]
    omega
  cases static : s.static with
  | true =>
    have next := find_next_power_of_two_cases (max (text.size + 1 + 1) s.buffer)
    rw [toNat_max, toNat_succ, asked] at next
    obtain ⟨s', refused⟩ | ⟨short, outside⟩ | ⟨rest, copied, total, granted⟩ :=
      @grow_static junk s t holds sized static (text.size + 1)
    · exact .inl ⟨s', grown_refused refused⟩
    · exact .inr (.inr ⟨fun fits => by have room := fits rfl; omega, .inl (grown_outside outside)⟩)
    · have room := total
      rw [List.length_append, List.length_cons, List.length_cons] at room
      refine settles_stored copied (.inl ⟨fun _ => by omega, strbuf_t.store_set rfl ?_ (by omega)⟩)
      exact sized_block total le_rfl granted
  | false =>
    obtain ⟨rest, owned⟩ := holds.owned static
    obtain ⟨least, capacity⟩ := sized _ owned
    have value := congrArg (Option.getD · []) owned
    obtain ⟨enough, same⟩ | ⟨short, ⟨s', refused⟩ | ⟨granted, moved⟩⟩ := @grow_dynamic junk s static _ value (text.size + 1)
    · rw [BitVec.le_def] at enough
      exact settles_stored same (.inl ⟨by rintro ⟨⟩, strbuf_t.store_set owned sized (by omega)⟩)
    · exact .inl ⟨s', grown_refused refused⟩
    · obtain ⟨room, next⟩ := @room_of_small (text.size + 1) (by omega) (by omega)
      refine settles_stored moved (.inl ⟨by rintro ⟨⟩, strbuf_t.store_set rfl ?_ ?_⟩)
      · exact sized_block (length_resized _ _ _) (by omega) granted
      · rw [length_resized]
        omega

/-- When `strbuf_grow_to` keeps the string: the byte behind a borrowed one is what the memory had. -/
def strbuf_t.GrowsTo (s : strbuf_t) (junk : Nat → Byte) (t : List Byte) (new_size : BitVec 64) : Prop :=
  if s.static then
    t.length + 2 ≤ (find_next_power_of_two (max (new_size + 1 + 1) s.buffer)).toNat ∧ junk t.length = 0
  else new_size + 1 ≤ s.allocated ∨ t.length + 1 ≤ (find_next_power_of_two (new_size + 1) + 1).toNat

theorem settles_grow_to (holds : s.Holds t) (sized : s.Sized) (new_size : BitVec 64) :
    Settles (strbuf_grow_to junk s new_size) (fun _ => t) (s.GrowsTo junk t new_size) := by
  have length := holds.length
  rw [strbuf_t.GrowsTo, strbuf_grow_to]
  cases static : s.static with
  | true =>
    rw [if_pos rfl]
    obtain ⟨s', refused⟩ | ⟨short, outside⟩ | ⟨rest, copied, total, granted⟩ :=
      @grow_static junk s t holds sized static (new_size + 1)
    · exact .inl ⟨s', refused⟩
    · exact .inr (.inr ⟨fun fits => Nat.not_le.mpr short fits.1, .inl outside⟩)
    · have room := total
      rw [List.length_append, List.length_cons, List.length_cons] at room
      by_cases nul : junk t.length = 0
      · refine .inr (.inl ⟨⟨by omega, nul⟩, _, copied, ⟨length, _, rfl, fun _ => congrArg some nul⟩, ?_⟩)
        exact sized_block total le_rfl granted
      · refine .inr (.inr ⟨fun fits => nul fits.2, .inr ⟨_, copied, fun holds' => nul ?_⟩⟩)
        obtain ⟨rest', owned⟩ := holds'.owned rfl
        exact (List.cons.inj (List.append_cancel_left (Option.some.inj owned))).1
  | false =>
    rw [if_neg Bool.false_ne_true]
    obtain ⟨rest, owned⟩ := holds.owned static
    obtain ⟨least, capacity⟩ := sized _ owned
    have value := congrArg (Option.getD · []) owned
    obtain ⟨enough, same⟩ | ⟨short, ⟨s', refused⟩ | ⟨granted, moved⟩⟩ := @grow_dynamic junk s static _ value (new_size + 1)
    · exact .inr (.inl ⟨.inl enough, s, same, holds, sized⟩)
    · exact .inl ⟨s', refused⟩
    · rcases Nat.lt_or_ge (find_next_power_of_two (new_size + 1) + 1).toNat (t.length + 1) with cut | fits
      · refine .inr (.inr ⟨?_, .inr ⟨_, moved, fun holds' => ?_⟩⟩)
        · rintro (enough | fits)
          · exact BitVec.not_lt.mpr enough short
          · exact Nat.not_le.mpr cut fits
        · obtain ⟨rest', owned'⟩ := @strbuf_t.Holds.owned _ t holds' static
          have total := congrArg List.length (Option.some.inj owned')
          rw [length_resized, List.length_append, List.length_cons] at total
          omega
      · obtain ⟨rest', keeps, total⟩ := @strbuf_t.Holds.resized junk s t _ holds static _ owned fits
        refine .inr (.inl ⟨.inr fits, _, moved, ⟨length, _, congrArg some keeps, fun _ => rfl⟩, ?_⟩)
        have next := toNat_succ (find_next_power_of_two (new_size + 1))
        exact sized_block (length_resized _ _ _) (by omega) granted

/-- A string that is cut off at its first byte. -/
theorem cut_cases {v : List Byte} (value : s.value = some v) :
    (v.length = 0 ∧ { s with buffer := 0 }.write 0 [0] = none) ∨
      ∃ rest, v.length = (0 :: rest).length ∧
        { s with buffer := 0 }.write 0 [0] = some { s with value := some (0 :: rest), buffer := 0 } := by
  rw [@strbuf_t.write_eq { s with buffer := 0 } [0] v 0 value]
  cases v with
  | nil => exact .inl ⟨rfl, rfl⟩
  | cons c v =>
    have written := @writeAt_append _ [] (c :: v) [(0 : Byte)] 0 rfl (Nat.le_add_left _ _)
    refine .inr ⟨v, rfl, ?_⟩
    exact congrArg (Option.map _) written

/-- A borrowed buffer gets a block as large as it is. -/
theorem settles_reset_length (holds : s.Holds t) (sized : s.Sized) :
    Settles (strbuf_reset_length junk s) (fun _ => []) (s.static = true → s.allocated ≠ 0) := by
  have cut : ∀ (s' : strbuf_t) {v : List Byte}, s'.value = some v → s'.allocated.toNat ≤ v.length → v.length < 2 ^ 63 →
      0 < v.length →
        ∃ s₂, ({ s' with buffer := 0 }.write 0 [0]).map (·, true) = some (s₂, true) ∧ s₂.Holds [] ∧ s₂.Sized := by
    intro s' v value least small some_bytes
    obtain ⟨none, -⟩ | ⟨rest, length, written⟩ := cut_cases value
    · omega
    · refine ⟨_, by rw [written]; rfl, ⟨rfl, _, rfl, fun _ => rfl⟩, ?_⟩
      exact sized_block length.symm least small
  rw [strbuf_reset_length]
  cases static : s.static with
  | true =>
    dsimp only
    rw [if_pos rfl, malloc]
    obtain ⟨-, refused⟩ | ⟨granted, block⟩ := @realloc_cases junk [] s.allocated
    · rw [refused]
      exact .inl ⟨_, rfl⟩
    · have total := length_resized junk [] s.allocated.toNat
      rw [block]
      dsimp only
      by_cases none : s.allocated = 0
      · refine .inr (.inr ⟨fun some_bytes => some_bytes rfl none, .inl ?_⟩)
        rw [none]
        rfl
      · have positive : 0 < s.allocated.toNat := Nat.pos_of_ne_zero fun zero => none (BitVec.eq_of_toNat_eq zero)
        refine .inr (.inl ⟨fun _ => none, ?_⟩)
        exact cut { s with value := some (resized junk [] s.allocated.toNat), static := false } rfl
          (Nat.le_of_eq total.symm) (by omega) (by omega)
  | false =>
    obtain ⟨rest, owned⟩ := holds.owned static
    obtain ⟨least, capacity⟩ := sized _ owned
    refine .inr (.inl ⟨by rintro ⟨⟩, ?_⟩)
    dsimp only
    rw [if_neg Bool.false_ne_true]
    refine cut s owned least capacity ?_
    rw [List.length_append, List.length_cons]
    omega

theorem settles_init_with_size (size : BitVec 64) :
    Settles (strbuf_init_with_size junk size) (fun _ => []) (size ≠ 0 ∧ find_next_power_of_two size + 1 ≠ 0) := by
  rw [strbuf_init_with_size]
  obtain ⟨none, same⟩ | ⟨some_bytes, ⟨s', refused⟩ | ⟨granted, moved⟩⟩ :=
    @grow_dynamic junk { value := none, allocated := 0, buffer := 0, static := false } rfl [] rfl size
  · refine .inr (.inr ⟨fun both => both.1 ?_, .inl (by rw [grown_done same]; rfl)⟩)
    exact BitVec.le_zero_iff.mp none
  · exact .inl ⟨s', grown_refused refused⟩
  · apply settles_stored moved
    have total := length_resized junk [] (find_next_power_of_two size + 1).toNat
    have next := toNat_succ (find_next_power_of_two size)
    obtain ⟨empty, outside⟩ | ⟨rest, length, written⟩ := @cut_cases
      { value := some (resized junk [] (find_next_power_of_two size + 1).toNat)
        allocated := find_next_power_of_two size, buffer := 0, static := false } _ rfl
    · exact .inr ⟨fun both => both.2 (BitVec.eq_of_toNat_eq (total.symm.trans empty)), outside⟩
    · rw [total, List.length_cons] at length
      have no_wrap : find_next_power_of_two size + 1 ≠ 0 := by
        intro zero
        rw [zero] at length
        cases length
      refine .inl ⟨⟨?_, no_wrap⟩, _, written, ⟨rfl, _, rfl, fun _ => rfl⟩, ?_⟩
      · rintro rfl
        exact absurd some_bytes (by decide)
      · have least : (find_next_power_of_two size).toNat ≤ (find_next_power_of_two size + 1).toNat := by omega
        exact sized_block length.symm least granted

/-! ## Shrinking -/

theorem room_of_shrunk (small : size.toNat ≤ 2 ^ 63) :
    (find_next_power_of_two size + 1).toNat = (find_next_power_of_two size).toNat + 1 := by
  rcases Nat.eq_zero_or_pos size.toNat with none | positive
  · obtain rfl : size = 0 := BitVec.eq_of_toNat_eq none
    rfl
  · exact (room_of_small positive small).1

/-- A block that is smaller than the string. -/
theorem resized_cut (junk : Nat → Byte) {n : Nat} (cut : n < t.length) (rest : List Byte) :
    writeAt (resized junk (t ++ rest) (n + 1)) n [0] = some (t.take n ++ [0]) := by
  have last : (t ++ rest).take (n + 1) = t.take n ++ [t.get ⟨n, cut⟩] := by
    rw [List.take_append_of_le_length cut, List.take_succ_eq_append_getElem cut]
    rfl
  have none_new : n + 1 - (t ++ rest).length = 0 := by
    rw [List.length_append]
    omega
  have written := @writeAt_append _ (t.take n) [t.get ⟨n, cut⟩] [0] n (by rw [List.length_take]; omega) (Nat.le_refl 1)
  rw [resized, none_new, last, List.range'_zero, List.map_nil, List.append_nil, written,
    List.drop_of_length_le (Nat.le_refl 1), List.append_nil]

/-- A smaller block keeps the string, or what is kept of it ends one byte in front of the NUL. -/
theorem shrink_cases (holds : s.Holds t) (sized : s.Sized) (new_size : BitVec 64) :
    ((s.static = true ∨ s.allocated ≤ new_size) ∧ strbuf_shrink_to junk s new_size = some (s, true)) ∨
      (s.static = false ∧ new_size < s.allocated ∧ ((2 ^ 63 ≤ (find_next_power_of_two new_size + 1).toNat ∧
          ∃ s', strbuf_shrink_to junk s new_size = some (s', false)) ∨
        (t.length ≤ (find_next_power_of_two new_size).toNat ∧ ∃ rest, strbuf_shrink_to junk s new_size =
            some ({ s with value := some (t ++ 0 :: rest), allocated := find_next_power_of_two new_size }, true) ∧
          (t ++ 0 :: rest).length = (find_next_power_of_two new_size).toNat + 1 ∧
          (t ++ 0 :: rest).length < 2 ^ 63) ∨
        ((find_next_power_of_two new_size).toNat < t.length ∧ strbuf_shrink_to junk s new_size =
            some ({ s with
              value := some (t.take (find_next_power_of_two new_size).toNat ++ [0])
              allocated := find_next_power_of_two new_size
              buffer := find_next_power_of_two new_size - 1 }, true)))) := by
  rw [strbuf_shrink_to]
  split_ifs with enough static
  · exact .inl ⟨.inr enough, rfl⟩
  · exact .inl ⟨.inl static, rfl⟩
  · have dynamic : s.static = false := Bool.eq_false_of_not_eq_true static
    obtain ⟨rest, owned⟩ := holds.owned dynamic
    obtain ⟨least, capacity⟩ := sized _ owned
    rw [BitVec.not_le] at enough
    have smaller := BitVec.lt_def.mp enough
    have room := room_of_shrunk (by omega : new_size.toNat ≤ 2 ^ 63)
    refine .inr ⟨dynamic, enough, ?_⟩
    dsimp only
    rw [owned, Option.getD_some]
    generalize find_next_power_of_two new_size = power at room
    obtain ⟨large, refused⟩ | ⟨granted, block⟩ := @realloc_cases junk (t ++ 0 :: rest) (power + 1)
    · rw [refused]
      exact .inl ⟨large, s, rfl⟩
    · rw [block, room]
      dsimp only
      rw [room] at granted
      split_ifs with cut
      · rw [GT.gt, BitVec.lt_def, holds.length] at cut
        refine .inr (.inr ⟨cut, ?_⟩)
        have back : power - 1 + 1 = power := BitVec.sub_add_cancel power 1
        have written := resized_cut junk cut (0 :: rest)
        rw [strbuf_t.write_eq rfl, back, written]
        rfl
      · rw [GT.gt, BitVec.lt_def, Nat.not_lt, holds.length] at cut
        obtain ⟨rest', keeps, total⟩ := @strbuf_t.Holds.resized junk s t (power.toNat + 1) holds dynamic _ owned (by omega)
        refine .inr (.inl ⟨cut, rest', by rw [keeps], total, ?_⟩)
        rw [total]
        exact granted

/-- When `strbuf_shrink_to` keeps the string, or a front of it with a NUL behind. -/
def strbuf_t.ShrinksTo (s : strbuf_t) (t : List Byte) (new_size : BitVec 64) : Prop :=
  s.static = true ∨ s.allocated ≤ new_size ∨ t.length ≤ (find_next_power_of_two new_size).toNat ∨
    (0 < (find_next_power_of_two new_size).toNat ∧ t[(find_next_power_of_two new_size).toNat - 1]? = some 0)

theorem toNat_before (x : BitVec 64) : (x - 1).toNat = if x.toNat = 0 then 2 ^ 64 - 1 else x.toNat - 1 := by
  have bound := x.isLt
  rw [BitVec.toNat_sub]
  show (2 ^ 64 - 1 + x.toNat) % 2 ^ 64 = _
  split_ifs <;> omega

/-- A front of the string is in a block that is cut off, with a NUL one byte too far behind, exactly if the
byte between is a NUL. -/
theorem holds_cut_iff {power : BitVec 64} (dynamic : s.static = false) (cut : power.toNat < t.length)
    (small : t.length < 2 ^ 63) :
    ({ s with value := some (t.take power.toNat ++ [0]), allocated := power, buffer := power - 1 } : strbuf_t).Holds
      (t.take (power - 1).toNat) ↔ 0 < power.toNat ∧ t[power.toNat - 1]? = some 0 := by
  have ends := toNat_before power
  constructor
  · intro holds
    have length := holds.length
    rw [List.length_take, ends] at length
    have positive : 0 < power.toNat := by
      by_contra none
      rw [if_pos (Nat.eq_zero_of_not_pos none)] at length
      omega
    obtain ⟨rest, owned⟩ := holds.owned dynamic
    have at_last := congrArg (·[power.toNat - 1]?) (Option.some.inj owned)
    have front : (t.take (power.toNat - 1)).length = power.toNat - 1 := List.length_take_of_le (by omega)
    rw [ends, if_neg (Nat.ne_of_gt positive), List.getElem?_append_left (by rw [List.length_take]; omega),
      List.getElem?_take_of_lt (by omega), List.getElem?_append_right (Nat.le_of_eq front), front,
      Nat.sub_self] at at_last
    exact ⟨positive, at_last⟩
  · rintro ⟨positive, nul⟩
    have front := @List.take_add_one _ t (power.toNat - 1)
    rw [nul, Nat.sub_add_cancel positive] at front
    rw [if_neg (Nat.ne_of_gt positive)] at ends
    refine ⟨?_, [0] ++ [0], ?_, fun _ => rfl⟩
    · rw [List.length_take, ends]
      omega
    · rw [front, ends, List.append_assoc]
      rfl

theorem settles_shrink_to (holds : s.Holds t) (sized : s.Sized) (new_size : BitVec 64) :
    Settles (strbuf_shrink_to junk s new_size) (fun s' => t.take s'.buffer.toNat) (s.ShrinksTo t new_size) := by
  have length := holds.length
  have whole : t.take s.buffer.toNat = t := List.take_of_length_le (Nat.le_of_eq length.symm)
  obtain ⟨stays, same⟩ | ⟨dynamic, less, ⟨-, s', refused⟩ | ⟨fits, rest, kept, total, small⟩ | ⟨cut, shrunk⟩⟩ :=
    @shrink_cases junk s t holds sized new_size
  · refine .inr (.inl ⟨?_, s, same, by dsimp only; rw [whole]; exact holds, sized⟩)
    rcases stays with static | enough
    · exact .inl static
    · exact .inr (.inl enough)
  · exact .inl ⟨s', refused⟩
  · refine .inr (.inl ⟨.inr (.inr (.inl fits)), _, kept, ?_, ?_⟩)
    · dsimp only
      rw [whole]
      exact ⟨length, _, rfl, fun _ => rfl⟩
    · exact sized_block total (Nat.le_succ _) (total ▸ small)
  · obtain ⟨rest, owned⟩ := holds.owned dynamic
    have small := (sized _ owned).2
    rw [List.length_append] at small
    have exact := @holds_cut_iff s t (find_next_power_of_two new_size) dynamic cut (by omega)
    by_cases nul : 0 < (find_next_power_of_two new_size).toNat ∧ t[(find_next_power_of_two new_size).toNat - 1]? = some 0
    · refine .inr (.inl ⟨.inr (.inr (.inr nul)), _, shrunk, exact.mpr nul, ?_⟩)
      refine sized_block rfl ?_ ?_
      · rw [List.length_append, List.length_take, List.length_singleton]
        omega
      · rw [List.length_append, List.length_take, List.length_singleton]
        omega
    · refine .inr (.inr ⟨?_, .inr ⟨_, shrunk, fun holds' => nul (exact.mp holds')⟩⟩)
      rintro (static | enough | fits | nul')
      · cases static.symm.trans dynamic
      · exact BitVec.not_lt.mpr enough less
      · exact Nat.not_le.mpr cut fits
      · exact nul nul'

/-- A string that has no bytes left in the buffer that it had. -/
theorem settles_left {s' : strbuf_t} {v : List Byte} {ok : Prop}
    (shrunk : strbuf_shrink_to_default junk s = some (s', true)) (value : s'.value = some v) (sized : s'.Sized)
    (first : (s'.static = false → v.head? = some 0) ↔ ok) :
    Settles ((strbuf_reset junk s).map fun (s, _) => (s, true)) (fun _ => []) ok := by
  rw [strbuf_reset, shrunk]
  by_cases fits : ok
  · exact .inr (.inl ⟨fits, _, rfl, ⟨rfl, v, value, first.mpr fits⟩, sized⟩)
  · refine .inr (.inr ⟨fits, .inr ⟨_, rfl, fun holds => fits (first.mp ?_)⟩⟩)
    obtain ⟨rest, value', nul⟩ := holds.value
    obtain rfl := Option.some.inj (value.symm.trans value')
    exact nul

/-- The string is not cut off at its first byte. -/
theorem settles_reset (holds : s.Holds t) (sized : s.Sized) :
    Settles ((strbuf_reset junk s).map fun (s, _) => (s, true)) (fun _ => [])
      (s.static = true ∨ ∀ c ∈ t.head?, c = 0) := by
  obtain ⟨-, same⟩ | ⟨dynamic, -, ⟨large, -⟩ | ⟨fits, rest, kept, total, small⟩ | ⟨cut, shrunk⟩⟩ :=
    @shrink_cases junk s t holds sized DEFAULT_BUF_SIZE
  · cases static : s.static with
    | true =>
      obtain ⟨rest, value, -⟩ := holds.value
      exact settles_left same value sized (by simp [static])
    | false =>
      obtain ⟨rest, owned⟩ := holds.owned static
      apply settles_left same owned sized
      cases t <;> simp [static]
  · exact absurd large (by decide)
  · refine settles_left kept rfl ?_ ?_
    · exact sized_block total (Nat.le_succ _) (total ▸ small)
    · cases t <;> simp [dynamic]
  · refine settles_left shrunk rfl ?_ ?_
    · have power : (find_next_power_of_two DEFAULT_BUF_SIZE).toNat = 64 := by decide
      rintro _ ⟨⟩
      rw [power] at cut ⊢
      rw [List.length_append, List.length_take, List.length_singleton]
      omega
    · cases t with
      | nil => cases cut
      | cons c t =>
        rw [show find_next_power_of_two DEFAULT_BUF_SIZE = 64 by decide]
        simp [dynamic]

end CodeClips.Strbuf
