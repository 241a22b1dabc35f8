import CodeClips.Lib.Buffer
import Mathlib.Data.Option.Basic

/-!
# Dynamic strings

A `struct ds` counts the bytes that are used and those that are allocated, one of which less than
there are. An operation is `none` where it writes outside of them, through the `NULL` of an empty
string, or fails an `assert`. `Holds` says what a string contains; it need not end with a NUL.
-/

namespace CodeClips.DynamicString

abbrev Byte := BitVec 8

/-- A character constant. -/
abbrev char (c : Char) : Byte := BitVec.ofNat 8 c.toNat

/-- `struct ds`; `string` is all that is allocated, or `NULL`. -/
structure Ds where
  string : Option (List Byte)
  length : Nat
  allocated : Nat

def ds_init : Ds := { string := none, length := 0, allocated := 0 }

def ds_clear (ds : Ds) : Ds := { ds with length := 0 }

/-- A write to `ds->string + i`. -/
def Ds.write (ds : Ds) (i : Nat) (t : List Byte) : Option Ds :=
  (ds.string.bind (writeAt · i t)).map fun string => { ds with string := some string }

def ds_chomp (ds : Ds) (c : Byte) : Option Ds :=
  if ds.length > 0 ∧ (ds.string.bind (·[ds.length - 1]?)) = some c then
    let ds := { ds with length := ds.length - 1 }
    ds.write ds.length [0]
  else some ds

section Growing
variable (junk : Nat → Byte)

/-- What is allocated anew is not set. -/
def ds_reserve (ds : Ds) (min_length : Nat) : Ds :=
  if min_length > ds.allocated ∨ ds.string = none then
    let allocated := max 8 (ds.allocated + max min_length ds.allocated)
    { ds with allocated := allocated, string := some (resized junk (ds.string.getD []) (allocated + 1)) }
  else ds

def ds_put_uninit (ds : Ds) (n : Nat) : Option Ds :=
  let ds := ds_reserve junk ds (ds.length + n)
  let ds := { ds with length := ds.length + n }
  ds.write ds.length [0]

def ds_put_char__ (ds : Ds) (c : Byte) : Option Ds :=
  (ds_put_uninit junk ds 1).bind fun ds => ds.write (ds.length - 1) [c]

def ds_put_char (ds : Ds) (c : Byte) : Option Ds :=
  if ds.length < ds.allocated then
    (ds.write ds.length [c]).bind fun ds =>
      let ds := { ds with length := ds.length + 1 }
      ds.write ds.length [0]
  else ds_put_char__ junk ds c

/-- `vsnprintf` to the end of the string, where the format makes `text`. -/
def Ds.vsnprintf (ds : Ds) (available : Nat) (text : List Byte) : Option Ds :=
  if available = 0 then some ds else ds.write ds.length (text.take (available - 1) ++ [0])

/-- `ds_put_format(ds, ..)`, where the format makes `text`. -/
def ds_put_format (ds : Ds) (text : List Byte) : Option Ds :=
  let available := if ds.string.isSome then ds.allocated - ds.length + 1 else 0
  let needed := text.length
  (ds.vsnprintf available text).bind fun ds =>
    if needed < available then some { ds with length := ds.length + needed }
    else
      let ds := ds_reserve junk ds (ds.length + needed)
      let available := ds.allocated - ds.length + 1
      (ds.vsnprintf available text).bind fun ds =>
        if needed < available then some { ds with length := ds.length + needed } else none

def ds_cstr (ds : Ds) : Option Ds :=
  let ds := if ds.string = none then ds_reserve junk ds 0 else ds
  ds.write ds.length [0]

end Growing

/-- A number as it is formatted with a base and, with zeros in front, at least so many digits. -/
def padded (width base n : Nat) : List Byte :=
  List.replicate (width - (Nat.toDigits base n).length) (char '0') ++ (Nat.toDigits base n).map char

/-! ## What a string contains -/

/-- The bytes are at the front of what is allocated, with place for a NUL behind them. -/
structure Ds.Room (ds : Ds) (bytes : List Byte) : Prop where
  length : ds.length = bytes.length
  string : ∃ rest, ds.string = some (bytes ++ rest) ∧ (bytes ++ rest).length = ds.allocated + 1
  fits : bytes.length ≤ ds.allocated

/-- The string contains the bytes; an empty one may be `NULL`. -/
def Ds.Holds (ds : Ds) (bytes : List Byte) : Prop :=
  (ds.string = none ∧ ds.length = 0 ∧ ds.allocated = 0 ∧ bytes = []) ∨ ds.Room bytes

variable {junk : Nat → Byte} {ds : Ds} {bytes text rest : List Byte} {n : Nat} {c : Byte}

theorem holds_ds_init : ds_init.Holds [] := .inl ⟨rfl, rfl, rfl, rfl⟩

theorem Ds.Holds.length (holds : ds.Holds bytes) : ds.length = bytes.length := by
  rcases holds with ⟨-, length, -, rfl⟩ | room
  · exact length
  · exact room.length

/-! ## The operations -/

/-- A write behind some bytes, to which the length is set. -/
theorem Ds.Room.append (room : ds.Room bytes) (fits : bytes.length + text.length ≤ ds.allocated) :
    ∃ ds', ds.write ds.length text = some ds' ∧ { ds' with length := ds'.length + text.length }.Room (bytes ++ text) := by
  obtain ⟨rest, string, total⟩ := room.string
  have written := @writeAt_append _ bytes rest text ds.length room.length (by
    rw [List.length_append] at total
    omega)
  refine ⟨{ ds with string := some (bytes ++ text ++ rest.drop text.length) }, ?_, ?_, ⟨_, rfl, ?_⟩, ?_⟩
  · rw [Ds.write, string, Option.bind_some, written]
    rfl
  · rw [List.length_append, room.length]
  · exact (length_writeAt written).trans total
  · rw [List.length_append]
    exact fits

/-- A write behind the bytes. -/
theorem Ds.Room.write (room : ds.Room bytes) (fits : bytes.length + text.length ≤ ds.allocated + 1) :
    ∃ ds', ds.write ds.length text = some ds' ∧ ds'.Room bytes ∧ ds'.allocated = ds.allocated := by
  obtain ⟨rest, string, total⟩ := room.string
  have written := @writeAt_append _ bytes rest text ds.length room.length (by
    rw [List.length_append] at total
    omega)
  have after := (length_writeAt written).trans total
  rw [List.append_assoc] at written after
  refine ⟨{ ds with string := some (bytes ++ (text ++ rest.drop text.length)) }, ?_,
    ⟨room.length, ⟨_, rfl, after⟩, room.fits⟩, rfl⟩
  rw [Ds.write, string, Option.bind_some, written]
  rfl

theorem Ds.Holds.reserve (holds : ds.Holds bytes) (le : bytes.length ≤ n) :
    (ds_reserve junk ds n).Room bytes ∧ n ≤ (ds_reserve junk ds n).allocated := by
  rw [ds_reserve]
  rcases holds with ⟨null, length, allocated, rfl⟩ | room
  · rw [if_pos (.inr null), null]
    have total := length_resized junk [] (max 8 (ds.allocated + max n ds.allocated) + 1)
    rw [← List.nil_append (resized junk [] _)] at total
    refine ⟨⟨length, ⟨_, rfl, total⟩, Nat.zero_le _⟩, ?_⟩
    dsimp only
    omega
  · obtain ⟨rest, string, total⟩ := room.string
    have fits := room.fits
    split_ifs with grows
    · have more : bytes.length ≤ max 8 (ds.allocated + max n ds.allocated) + 1 := by omega
      obtain ⟨rest', keeps, -⟩ := resized_append junk more rest
      have length := length_resized junk (bytes ++ rest) (max 8 (ds.allocated + max n ds.allocated) + 1)
      rw [keeps] at length
      simp only [string, Option.getD_some, keeps]
      refine ⟨⟨room.length, ⟨rest', rfl, length⟩, ?_⟩, by omega⟩
      dsimp only
      omega
    · rw [not_or] at grows
      exact ⟨room, Nat.le_of_not_lt grows.1⟩

/-- The last byte written again. -/
theorem Ds.Room.last (room : ds.Room (bytes ++ [c])) (c' : Byte) :
    ∃ ds', ds.write (ds.length - 1) [c'] = some ds' ∧ ds'.Room (bytes ++ [c']) := by
  obtain ⟨rest, string, total⟩ := room.string
  have place : ds.length - 1 = bytes.length := by
    rw [room.length, List.length_append]
    rfl
  rw [List.append_assoc] at string total
  have written := @writeAt_append _ bytes ([c] ++ rest) [c'] (ds.length - 1) place (by
    rw [List.length_append]
    exact Nat.le_add_right _ _)
  refine ⟨{ ds with string := some (bytes ++ [c'] ++ ([c] ++ rest).drop [c'].length) }, ?_, ⟨?_, ⟨_, rfl, ?_⟩, ?_⟩⟩
  · rw [Ds.write, string, Option.bind_some, written]
    rfl
  · rw [room.length, List.length_append, List.length_append]
    rfl
  · exact (length_writeAt written).trans total
  · have fits := room.fits
    rw [List.length_append] at fits ⊢
    exact fits

/-- Space for one byte. -/
theorem Ds.Holds.put_uninit (holds : ds.Holds bytes) :
    ∃ ds' c, ds_put_uninit junk ds 1 = some ds' ∧ ds'.Room (bytes ++ [c]) := by
  obtain ⟨room, more⟩ := @Ds.Holds.reserve junk _ _ (ds.length + 1) holds (by rw [holds.length]; omega)
  have length := holds.length
  obtain ⟨rest, string, total⟩ := room.string
  cases rest with
  | nil =>
    rw [List.append_nil] at total
    omega
  | cons c rest =>
    have grown : { ds_reserve junk ds (ds.length + 1) with length := ds.length + 1 }.Room (bytes ++ [c]) := by
      refine ⟨by rw [List.length_append, length]; rfl, ⟨rest, ?_, ?_⟩, ?_⟩
      · rw [string, List.append_assoc]
        rfl
      · rw [← total, List.append_assoc]
        rfl
      · rw [List.length_append, ← length]
        exact more
    obtain ⟨ds', close, room', -⟩ := @Ds.Room.write _ _ [0] grown (Nat.add_le_add_right grown.fits 1)
    have reserved : (ds_reserve junk ds (ds.length + 1)).length = ds.length := room.length.trans length.symm
    refine ⟨ds', c, ?_, room'⟩
    rw [ds_put_uninit]
    dsimp only
    rw [reserved]
    exact close

/-- A character. -/
theorem Ds.Holds.put_char (holds : ds.Holds bytes) (c : Byte) :
    ∃ ds', ds_put_char junk ds c = some ds' ∧ ds'.Holds (bytes ++ [c]) := by
  rw [ds_put_char]
  split_ifs with inside
  · have room : ds.Room bytes := by
      rcases holds with ⟨-, -, allocated, -⟩ | room
      · omega
      · exact room
    obtain ⟨ds₁, put, room₁⟩ := @Ds.Room.append ds bytes [c] room (by rw [← room.length]; exact inside)
    obtain ⟨ds₂, close, room₂, -⟩ := @Ds.Room.write _ _ [0] room₁ (Nat.add_le_add_right room₁.fits 1)
    rw [put, Option.bind_some]
    exact ⟨ds₂, close, .inr room₂⟩
  · obtain ⟨ds₁, c', space, room⟩ := @Ds.Holds.put_uninit junk _ _ holds
    obtain ⟨ds₂, put, room₂⟩ := room.last c
    rw [ds_put_char__, space, Option.bind_some]
    exact ⟨ds₂, put, .inr room₂⟩

/-- A text that there is space for, and its NUL. -/
theorem Ds.Room.print (room : ds.Room bytes) (fits : bytes.length + text.length ≤ ds.allocated) :
    text.length < ds.allocated - ds.length + 1 ∧ ∃ ds', ds.vsnprintf (ds.allocated - ds.length + 1) text = some ds' ∧
      { ds' with length := ds'.length + text.length }.Holds (bytes ++ text) := by
  have length := room.length
  have whole : text.take (ds.allocated - ds.length + 1 - 1) = text := List.take_of_length_le (by omega)
  obtain ⟨rest, string, total⟩ := room.string
  have written := @writeAt_append _ bytes rest (text ++ [0]) ds.length length (by
    rw [List.length_append] at total
    rw [List.length_append, List.length_singleton]
    omega)
  have after := (length_writeAt written).trans total
  rw [← List.append_assoc, List.append_assoc (bytes ++ text)] at written after
  refine ⟨by omega, { ds with string := some (bytes ++ text ++ ([0] ++ rest.drop (text ++ [0]).length)) }, ?_,
    .inr ⟨?_, ⟨_, rfl, after⟩, ?_⟩⟩
  · rw [Ds.vsnprintf, if_neg (by omega), whole, Ds.write, string, Option.bind_some, written]
    rfl
  · exact (congrArg (· + text.length) length).trans (List.length_append ..).symm
  · rw [List.length_append]
    exact fits

/-- A formatted text. -/
theorem Ds.Holds.put_format (holds : ds.Holds bytes) (text : List Byte) :
    ∃ ds', ds_put_format junk ds text = some ds' ∧ ds'.Holds (bytes ++ text) := by
  have twice : ∀ ds₁ : Ds, ds₁.Holds bytes → ∃ ds',
      (let ds := ds_reserve junk ds₁ (ds₁.length + text.length)
       let available := ds.allocated - ds.length + 1
       (ds.vsnprintf available text).bind fun ds =>
        if text.length < available then some { ds with length := ds.length + text.length } else none) = some ds' ∧
      ds'.Holds (bytes ++ text) := by
    intro ds₁ holds₁
    have length := holds₁.length
    obtain ⟨room, more⟩ := @Ds.Holds.reserve junk _ _ (ds₁.length + text.length) holds₁ (by omega)
    obtain ⟨enough, ds', printed, holds'⟩ := @Ds.Room.print _ bytes text room (by rw [← length]; exact more)
    dsimp only
    rw [printed, Option.bind_some, if_pos enough]
    exact ⟨_, rfl, holds'⟩
  rw [ds_put_format]
  rcases holds with ⟨null, length, allocated, rfl⟩ | room
  · rw [null, if_neg (by decide), Ds.vsnprintf, if_pos rfl, Option.bind_some, if_neg (Nat.not_lt_zero _)]
    exact twice ds (.inl ⟨null, length, allocated, rfl⟩)
  · obtain ⟨rest, string, total⟩ := room.string
    have not_null : ds.string.isSome = true := by
      rw [string]
      rfl
    have length := room.length
    have fits := room.fits
    rw [if_pos not_null]
    by_cases short : text.length < ds.allocated - ds.length + 1
    · obtain ⟨-, ds', printed, holds'⟩ := @Ds.Room.print _ _ text room (by omega)
      dsimp only
      rw [printed, Option.bind_some, if_pos short]
      exact ⟨_, rfl, holds'⟩
    · -- what is written first is cut off, and written again
      obtain ⟨ds₁, printed, room₁, -⟩ := @Ds.Room.write _ _ (text.take (ds.allocated - ds.length + 1 - 1) ++ [0]) room (by
        rw [List.length_append, List.length_take, List.length_singleton]
        omega)
      dsimp only
      rw [Ds.vsnprintf, if_neg (by omega), printed, Option.bind_some, if_neg short]
      exact twice ds₁ (.inr room₁)

/-- The last character goes, if it is the one. -/
theorem Ds.Holds.chomp (holds : ds.Holds bytes) (c : Byte) :
    ∃ ds', ds_chomp ds c = some ds' ∧ ds'.Holds (if bytes.getLast? = some c then bytes.dropLast else bytes) := by
  rw [ds_chomp]
  rcases holds with ⟨null, length, allocated, rfl⟩ | room
  · rw [if_neg (by omega)]
    exact ⟨ds, rfl, .inl ⟨null, length, allocated, rfl⟩⟩
  · obtain ⟨rest, string, total⟩ := room.string
    have length := room.length
    have fits := room.fits
    rcases List.eq_nil_or_concat' bytes with rfl | ⟨front, last, rfl⟩
    · rw [if_neg (by rw [length]; simp)]
      exact ⟨ds, rfl, .inr room⟩
    · rw [List.length_append, List.length_singleton] at length fits
      have read : ds.string.bind (·[ds.length - 1]?) = some last := by
        rw [string, Option.bind_some, length, Nat.add_sub_cancel, List.append_assoc, List.getElem?_append_right le_rfl,
          Nat.sub_self]
        rfl
      rw [read, List.getLast?_concat, List.dropLast_concat]
      by_cases same : last = c
      · have shorter : { ds with length := ds.length - 1 }.Room front := by
          refine ⟨?_, ⟨[last] ++ rest, ?_, ?_⟩, ?_⟩
          · rw [length]
            rfl
          · rw [string, List.append_assoc]
          · rw [← total, List.append_assoc]
          · exact Nat.le_of_succ_le fits
        obtain ⟨ds', close, room', -⟩ := @Ds.Room.write _ _ [0] shorter (Nat.add_le_add_right shorter.fits 1)
        rw [if_pos ⟨by omega, by rw [same]⟩, if_pos (by rw [same])]
        exact ⟨ds', close, .inr room'⟩
      · rw [if_neg (fun both => same (Option.some.inj both.2)), if_neg (fun eq => same (Option.some.inj eq))]
        exact ⟨ds, rfl, .inr room⟩

theorem Ds.Holds.clear (holds : ds.Holds bytes) : (ds_clear ds).Holds [] := by
  rcases holds with ⟨null, -, allocated, -⟩ | room
  · exact .inl ⟨null, rfl, allocated, rfl⟩
  · obtain ⟨rest, string, total⟩ := room.string
    exact .inr ⟨rfl, ⟨bytes ++ rest, string, total⟩, Nat.zero_le _⟩

theorem Ds.Room.close (room : ds.Room bytes) :
    ∃ ds' rest, ds.write ds.length [0] = some ds' ∧ ds'.Room bytes ∧ ds'.string = some (bytes ++ 0 :: rest) := by
  obtain ⟨rest, string, total⟩ := room.string
  have fits := room.fits
  have written := @writeAt_append _ bytes rest [0] ds.length room.length (by
    rw [List.length_append] at total
    rw [List.length_singleton]
    omega)
  have after := (length_writeAt written).trans total
  rw [List.append_assoc, List.singleton_append] at written after
  refine ⟨{ ds with string := some (bytes ++ 0 :: rest.drop [(0 : Byte)].length) }, _, ?_,
    ⟨room.length, ⟨_, rfl, after⟩, fits⟩, rfl⟩
  rw [Ds.write, string, Option.bind_some, written]
  rfl

/-- The C string: the bytes with their NUL. -/
theorem Ds.Holds.cstr (holds : ds.Holds bytes) :
    ∃ ds' rest, ds_cstr junk ds = some ds' ∧ ds'.Room bytes ∧ ds'.string = some (bytes ++ 0 :: rest) := by
  rw [ds_cstr]
  rcases holds with ⟨null, length, allocated, rfl⟩ | room
  · rw [if_pos null]
    have reserved := @Ds.Holds.reserve junk ds [] 0 (.inl ⟨null, length, allocated, rfl⟩) le_rfl
    exact reserved.1.close
  · obtain ⟨rest, string, -⟩ := room.string
    rw [if_neg (by simp [string])]
    exact room.close

/-! ## What some operations put -/

/-- The operations put a text behind whatever the string contains. -/
def Puts (f : Ds → Option Ds) (text : List Byte) : Prop :=
  ∀ ds bytes, ds.Holds bytes → ∃ ds', f ds = some ds' ∧ ds'.Holds (bytes ++ text)

variable {f g : Ds → Option Ds} {text' : List Byte}

theorem puts_format (text : List Byte) : Puts (ds_put_format junk · text) text := fun _ _ holds => holds.put_format text

theorem puts_char (c : Byte) : Puts (ds_put_char junk · c) [c] := fun _ _ holds => holds.put_char c

theorem Puts.bind (first : Puts f text) (second : Puts g text') : Puts (fun ds => f ds >>= g) (text ++ text') := by
  intro ds bytes holds
  obtain ⟨ds₁, put, holds₁⟩ := first ds bytes holds
  obtain ⟨ds₂, put', holds₂⟩ := second ds₁ _ holds₁
  rw [List.append_assoc] at holds₂
  exact ⟨ds₂, Option.bind_eq_some_iff.mpr ⟨ds₁, put, put'⟩, holds₂⟩

/-- A loop. -/
theorem Puts.loop {ι : Type} {body : Ds → ι → Option Ds} {piece : ι → List Byte} {l : List ι}
    (each : ∀ i ∈ l, Puts (body · i) (piece i)) : Puts (l.foldlM body ·) (l.flatMap piece) := by
  induction l with
  | nil =>
    intro ds bytes holds
    exact ⟨ds, rfl, by rw [List.flatMap_nil, List.append_nil]; exact holds⟩
  | cons i l ih =>
    rw [List.forall_mem_cons] at each
    exact each.1.bind (ih each.2)

/-- A last character that is taken away again if it is the one. -/
theorem Puts.chomp (first : Puts f (text ++ [c])) (c' : Byte) (second : Puts g text') :
    Puts (fun ds => f ds >>= fun ds => ds_chomp ds c' >>= g) ((if c = c' then text else text ++ [c]) ++ text') := by
  have chomped : Puts (fun ds => f ds >>= (ds_chomp · c')) (if c = c' then text else text ++ [c]) := by
    intro ds bytes holds
    obtain ⟨ds₁, put, holds₁⟩ := first ds bytes holds
    obtain ⟨ds₂, chomp, holds₂⟩ := holds₁.chomp c'
    refine ⟨ds₂, Option.bind_eq_some_iff.mpr ⟨ds₁, put, chomp⟩, ?_⟩
    rw [← List.append_assoc, List.getLast?_concat, List.dropLast_concat] at holds₂
    by_cases same : c = c'
    · rw [if_pos (by rw [same])] at holds₂
      rw [if_pos same]
      exact holds₂
    · rw [if_neg (fun eq => same (Option.some.inj eq)), List.append_assoc] at holds₂
      rw [if_neg same]
      exact holds₂
  intro ds bytes holds
  obtain ⟨ds', put, holds'⟩ := chomped.bind second ds bytes holds
  exact ⟨ds', (bind_assoc _ _ _).symm.trans put, holds'⟩

end CodeClips.DynamicString
