import CodeClips.DynamicString.Ds

/-!
# `ds_put_printable`

A byte that is not printable, and a backslash or a quotation mark, goes into the text as a backslash
and three octal digits. `decode` reads such texts.
-/

namespace CodeClips.DynamicString

/-- What is put for a byte is formatted. -/
def escaped (c : Byte) : Bool := c < 0x20 || c > 0x7e || c = char '\\' || c = char '"'

def ds_put_printable (junk : Nat → Byte) (ds : Ds) (s : List Byte) : Option Ds :=
  s.foldlM
    (fun ds c => if escaped c then ds_put_format junk ds (char '\\' :: padded 3 8 c.toNat) else ds_put_char junk ds c)
    (ds_reserve junk ds (ds.length + s.length))

/-! ## Reading the text -/

def octalDigit (c : Byte) : Option Nat := if char '0' ≤ c ∧ c ≤ char '7' then some (c.toNat - 48) else none

/-- The byte of three octal digits. -/
def octal : List Byte → Option Byte
  | [c₁, c₂, c₃] => do
    let n := 64 * (← octalDigit c₁) + 8 * (← octalDigit c₂) + (← octalDigit c₃)
    if n < 256 then some (BitVec.ofNat 8 n) else none
  | _ => none

/-- A backslash begins the three digits of a byte; other characters are bytes of their own. -/
def decode : List Byte → Option (List Byte)
  | [] => some []
  | c :: s =>
    if c = char '\\' then
      match s with
      | c₁ :: c₂ :: c₃ :: s => do
        let byte ← octal [c₁, c₂, c₃]
        let bytes ← decode s
        some (byte :: bytes)
      | _ => none
    else (c :: ·) <$> decode s

variable {junk : Nat → Byte} {ds : Ds} {old : List Byte}

/-- What is put for a byte. -/
def escape (c : Byte) : List Byte := if escaped c then char '\\' :: padded 3 8 c.toNat else [c]

theorem octal_padded : ∀ c : Byte, octal (padded 3 8 c.toNat) = some c := by decide

/-- Three digits. -/
theorem octal_some {digits : List Byte} {c : Byte} (read : octal digits = some c) :
    ∃ c₁ c₂ c₃, digits = [c₁, c₂, c₃] ∧ ∀ d ∈ digits, char '0' ≤ d ∧ d ≤ char '7' := by
  have digit {d : Byte} {n : Nat} (value : octalDigit d = some n) : char '0' ≤ d ∧ d ≤ char '7' := by
    rw [octalDigit, Option.ite_none_right_eq_some] at value
    exact value.1
  match digits, read with
  | [c₁, c₂, c₃], read =>
    obtain ⟨n₁, first, read⟩ := Option.bind_eq_some_iff.mp read
    obtain ⟨n₂, second, read⟩ := Option.bind_eq_some_iff.mp read
    obtain ⟨n₃, third, -⟩ := Option.bind_eq_some_iff.mp read
    refine ⟨c₁, c₂, c₃, rfl, ?_⟩
    rintro d member
    simp only [List.mem_cons, List.not_mem_nil, or_false] at member
    rcases member with rfl | rfl | rfl
    · exact digit first
    · exact digit second
    · exact digit third

theorem escape_printable (c : Byte) : ∀ c' ∈ escape c, 0x20 ≤ c' ∧ c' ≤ 0x7e := by
  rw [escape]
  split_ifs with formatted
  · obtain ⟨-, -, -, -, digits⟩ := octal_some (octal_padded c)
    rw [List.forall_mem_cons]
    refine ⟨by decide, fun d member => ?_⟩
    obtain ⟨low, high⟩ := digits d member
    have zero : (0x20 : Byte) ≤ char '0' := by decide
    have seven : char '7' ≤ (0x7e : Byte) := by decide
    exact ⟨BitVec.le_trans zero low, BitVec.le_trans high seven⟩
  · simp only [escaped, Bool.or_eq_true, decide_eq_true_eq, not_or] at formatted
    rw [List.forall_mem_singleton]
    exact ⟨BitVec.not_lt.mp formatted.1.1.1, BitVec.not_lt.mp formatted.1.1.2⟩

theorem decode_escape (c : Byte) (s : List Byte) : decode (escape c ++ s) = (c :: ·) <$> decode s := by
  rw [escape]
  split_ifs with formatted
  · have read := octal_padded c
    obtain ⟨c₁, c₂, c₃, digits, -⟩ := octal_some read
    rw [digits] at read
    have whole : char '\\' :: [c₁, c₂, c₃] ++ s = char '\\' :: c₁ :: c₂ :: c₃ :: s := rfl
    rw [digits, whole, decode, if_pos rfl, read]
    cases decode s <;> rfl
  · have plain : c ≠ char '\\' := by
      rintro rfl
      exact formatted (by decide)
    rw [List.singleton_append, decode.eq_def]
    dsimp only
    rw [if_neg plain]

theorem decode_escapes (buf : List Byte) : decode (buf.flatMap escape) = some buf := by
  induction buf with
  | nil => rfl
  | cons c buf ih =>
    rw [List.flatMap_cons, decode_escape, ih]
    rfl

/-- The loop puts what it puts for each byte. -/
theorem puts_escapes (s : List Byte) :
    Puts (s.foldlM (fun ds c => if escaped c then ds_put_format junk ds (char '\\' :: padded 3 8 c.toNat)
      else ds_put_char junk ds c) ·) (s.flatMap escape) := by
  apply Puts.loop
  intro c _
  rw [escape]
  split_ifs with formatted
  · exact puts_format _
  · exact puts_char c

/-- **The text** for some bytes is printable, and `decode` gives them back. -/
theorem ds_put_printable_invertible (junk : Nat → Byte) (holds : ds.Holds old) (buf : List Byte) :
    ∃ ds' text, ds_put_printable junk ds buf = some ds' ∧ ds'.Holds (old ++ text) ∧ decode text = some buf ∧
      ∀ c ∈ text, 0x20 ≤ c ∧ c ≤ 0x7e := by
  have reserved : (ds_reserve junk ds (ds.length + buf.length)).Holds old :=
    .inr (holds.reserve (by rw [holds.length]; omega)).1
  obtain ⟨ds', put, holds'⟩ := @puts_escapes junk buf _ _ reserved
  refine ⟨ds', buf.flatMap escape, put, holds', decode_escapes buf, ?_⟩
  intro c member
  obtain ⟨b, -, inside⟩ := List.mem_flatMap.mp member
  exact escape_printable b c inside

/-- A letter, a backslash, a NUL and a digit. -/
theorem ds_put_printable_invertible_four :
    ∃ ds' text, ds_put_printable (fun _ => 7) ds_init [char 'A', char '\\', 0, char '1'] = some ds' ∧
      ds'.Holds ([] ++ text) ∧ decode text = some [char 'A', char '\\', 0, char '1'] ∧
      ∀ c ∈ text, 0x20 ≤ c ∧ c ≤ 0x7e :=
  ds_put_printable_invertible (fun _ => 7) holds_ds_init _

end CodeClips.DynamicString
