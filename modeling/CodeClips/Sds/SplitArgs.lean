import CodeClips.Sds.Repr

/-!
# `sdssplitargs`

The reader of quoted arguments, a machine of three modes over a C string. Past the end of the
string there is its NUL (`charAt`). It is the inverse of `sdscatrepr` on one argument: in double
quotes it takes the escape of a byte, whatever comes next, and appends that byte
(`token_escape`); so the text of any bytes is one argument that holds them
(`sdssplitargs_sdscatrepr`), as long as the length of the text fits an `unsigned int`.
-/

namespace CodeClips.Sds

/-- `*(p + i)`. -/
def charAt (p : List Byte) (i : Nat) : Byte := p.getD i 0

def is_hex_digit (c : Byte) : Bool :=
  (char '0' ≤ c && c ≤ char '9') || (char 'a' ≤ c && c ≤ char 'f') || (char 'A' ≤ c && c ≤ char 'F')

/-- The digits by their ranges; anything else is 0. -/
def hex_digit_to_int (c : Byte) : Nat :=
  if char '0' ≤ c ∧ c ≤ char '9' then c.toNat - (char '0').toNat
  else if char 'a' ≤ c ∧ c ≤ char 'f' then c.toNat - (char 'a').toNat + 10
  else if char 'A' ≤ c ∧ c ≤ char 'F' then c.toNat - (char 'A').toNat + 10
  else 0

/-- The character that a backslash and `c` stand for. -/
def unescape (c : Byte) : Byte :=
  if c = char 'n' then char '\n'
  else if c = char 'r' then char '\r'
  else if c = char 't' then char '\t'
  else if c = char 'b' then 8
  else if c = char 'a' then 7
  else c

/-- `inq` and `insq`, of which at most one is set. -/
inductive Mode where
  | plain
  | inq
  | insq
deriving DecidableEq, Repr

/-- The loop that gets a token: the token, and what is left of the line behind it. `none` is
the jump to `err`. -/
def token : Mode → sdshdr → List Byte → Option (sdshdr × List Byte)
  | .inq, _, [] => none
  | .inq, current, c :: p =>
    if c = char '\\' ∧ charAt p 0 = char 'x' ∧ is_hex_digit (charAt p 1) ∧ is_hex_digit (charAt p 2) then
      let byte := BitVec.ofNat 8 (hex_digit_to_int (charAt p 1) * 16 + hex_digit_to_int (charAt p 2))
      token .inq (sdscatlen current [byte]) (p.drop 3)
    else if c = char '\\' ∧ charAt p 0 ≠ 0 then
      token .inq (sdscatlen current [unescape (charAt p 0)]) (p.drop 1)
    else if c = char '"' then
      if charAt p 0 ≠ 0 ∧ ¬ isspace (charAt p 0) then none else some (current, p)
    else token .inq (sdscatlen current [c]) p
  | .insq, _, [] => none
  | .insq, current, c :: p =>
    if c = char '\\' ∧ charAt p 0 = char '\'' then token .insq (sdscatlen current [char '\'']) (p.drop 1)
    else if c = char '\'' then
      if charAt p 0 ≠ 0 ∧ ¬ isspace (charAt p 0) then none else some (current, p)
    else token .insq (sdscatlen current [c]) p
  | .plain, current, [] => some (current, [])
  | .plain, current, c :: p =>
    if c = char ' ' ∨ c = char '\n' ∨ c = char '\r' ∨ c = char '\t' then some (current, p)
    else if c = char '"' then token .inq current p
    else if c = char '\'' then token .insq current p
    else token .plain (sdscatlen current [c]) p
termination_by _ _ p => p.length
decreasing_by all_goals simp; try omega

/-- A token takes something of a line that is not at its end. -/
theorem token_rest {mode : Mode} {current token' : sdshdr} {p rest : List Byte}
    (found : token mode current p = some (token', rest)) : rest.length ≤ p.length - 1 := by
  fun_induction token mode current p
  case case1 | case4 | case7 | case9 => cases found
  case case5 | case10 | case12 | case13 =>
    cases found
    simp
  case case2 ih | case3 ih | case6 ih | case8 ih | case11 ih | case14 ih | case15 ih | case16 ih =>
    have shorter := ih found
    simp at shorter ⊢
    omega

/-- The loop of `sdssplitargs` on what is left of the line. -/
def sdssplitargs (line : List Byte) : Option (List sdshdr) :=
  match _h : line.dropWhile isspace with
  | [] => some []
  | c :: p =>
    match _found : token .plain sdsempty (c :: p) with
    | none => none
    | some (current, rest) => (sdssplitargs rest).map (current :: ·)
termination_by line.length
decreasing_by
  have shorter := token_rest _found
  have skipped := (List.dropWhile_sublist isspace (l := line)).length_le
  rw [_h] at skipped
  simp only [List.length_cons] at shorter skipped
  omega

theorem sdssplitargs_end {line : List Byte} (blank : line.dropWhile isspace = []) : sdssplitargs line = some [] := by
  rw [sdssplitargs]
  split
  · rfl
  · rename_i more
    rw [blank] at more
    cases more

theorem sdssplitargs_token {line rest : List Byte} {c : Byte} {p : List Byte} {current : sdshdr}
    (skipped : line.dropWhile isspace = c :: p) (found : token .plain sdsempty (c :: p) = some (current, rest)) :
    sdssplitargs line = (sdssplitargs rest).map (current :: ·) := by
  rw [sdssplitargs]
  split
  · rename_i blank
    rw [skipped] at blank
    cases blank
  · rename_i more
    rw [skipped] at more
    cases more
    split
    · rename_i failed
      rw [found] at failed
      cases failed
    · rename_i same
      rw [found] at same
      cases same
      rfl

/-! ## The escapes -/

section Quotes
variable (current : sdshdr) (p : List Byte)

theorem token_literal {c : Byte} (plain : c ≠ char '\\' ∧ c ≠ char '"') :
    token .inq current (c :: p) = token .inq (sdscatlen current [c]) p := by
  rw [token, if_neg (fun slash => plain.1 slash.1), if_neg (fun slash => plain.1 slash.1), if_neg plain.2]

/-- A backslash before anything but an `x`. -/
theorem token_named {c : Byte} (named : c ≠ char 'x' ∧ c ≠ 0) :
    token .inq current (char '\\' :: c :: p) = token .inq (sdscatlen current [unescape c]) p := by
  rw [token, if_neg (fun hex => named.1 hex.2.1), if_pos ⟨rfl, named.2⟩]
  rfl

theorem token_hex {c d : Byte} (digits : is_hex_digit c ∧ is_hex_digit d) :
    token .inq current (char '\\' :: char 'x' :: c :: d :: p) =
      token .inq (sdscatlen current [BitVec.ofNat 8 (hex_digit_to_int c * 16 + hex_digit_to_int d)]) p := by
  rw [token, if_pos ⟨rfl, rfl, digits⟩]
  rfl

/-- The two digits of a byte are read as the byte. -/
theorem hexDigits : ∀ b : Byte, is_hex_digit (hexDigit (b.toNat / 16)) ∧ is_hex_digit (hexDigit (b.toNat % 16)) ∧
    BitVec.ofNat 8 (hex_digit_to_int (hexDigit (b.toNat / 16)) * 16 + hex_digit_to_int (hexDigit (b.toNat % 16))) = b := by
  decide

/-- **One byte**: its escape is read as the byte, whatever follows. -/
theorem token_escape (b : Byte) :
    token .inq current (escape b ++ p) = token .inq (sdscatlen current [b]) p := by
  unfold escape
  split_ifs with special newline carriage tab bell backspace printable
  · rcases special with rfl | rfl
    · exact token_named current p (by decide)
    · exact token_named current p (by decide)
  · exact newline ▸ token_named current p (by decide)
  · exact carriage ▸ token_named current p (by decide)
  · exact tab ▸ token_named current p (by decide)
  · exact bell ▸ token_named current p (by decide)
  · exact backspace ▸ token_named current p (by decide)
  · exact token_literal current p (not_or.mp special)
  · obtain ⟨high, low, value⟩ := hexDigits b
    have read := token_hex current p ⟨high, low⟩
    rw [value] at read
    exact read

end Quotes

/-! ## The round trip -/

/-- In quotes the escapes of some bytes are read as these bytes, up to the closing quote. -/
theorem token_escapes {current : sdshdr} {bytes : List Byte} (holds : current.Holds bytes) (p : List Byte)
    (fits : bytes.length + p.length < 2 ^ 32) :
    ∃ token', token .inq current (p.flatMap escape ++ [char '"']) = some (token', []) ∧ token'.Holds (bytes ++ p) := by
  induction p generalizing current bytes with
  | nil =>
    refine ⟨current, ?_, by rwa [List.append_nil]⟩
    rw [List.flatMap_nil, List.nil_append, token]
    rfl
  | cons b p ih =>
    rw [List.length_cons] at fits
    have next := holds_sdscatlen holds [b] (by rw [List.length_singleton]; omega)
    obtain ⟨token', read, all⟩ := ih next (by rw [List.length_append, List.length_singleton]; omega)
    rw [List.append_assoc, List.singleton_append] at all
    refine ⟨token', ?_, all⟩
    rw [List.flatMap_cons, List.append_assoc, token_escape, read]

/-- A byte takes at least one byte in the text. -/
theorem length_le_quoted (p : List Byte) : p.length ≤ (quoted p).length := by
  have some : ∀ b : Byte, 1 ≤ (escape b).length := by decide
  have bytes : p.length ≤ (p.flatMap escape).length := by
    induction p with
    | nil => exact Nat.le_refl 0
    | cons b p ih =>
      have one := some b
      rw [List.flatMap_cons, List.length_append, List.length_cons]
      omega
  rw [quoted, List.length_append, List.length_cons]
  omega

/-- The text of some bytes is one argument. -/
theorem sdssplitargs_quoted (p : List Byte) (fits : p.length < 2 ^ 32) :
    ∃ s, sdssplitargs (quoted p) = some [s] ∧ s.Holds p := by
  obtain ⟨s, read, holds⟩ := token_escapes holds_sdsempty p (by rwa [List.length_nil, Nat.zero_add])
  have skipped : (quoted p).dropWhile isspace = char '"' :: (p.flatMap escape ++ [char '"']) := by
    rw [quoted, List.cons_append, List.dropWhile_cons_of_neg (by decide)]
  have opened : token .plain sdsempty (char '"' :: (p.flatMap escape ++ [char '"'])) = some (s, []) := by
    rw [token, if_neg (by decide), if_pos rfl]
    exact read
  refine ⟨s, ?_, holds⟩
  rw [sdssplitargs_token skipped opened, sdssplitargs_end rfl]
  rfl

/-- **Round trip**: the quoted text of any bytes is read as one argument, these bytes. -/
theorem sdssplitargs_sdscatrepr (p : List Byte) (fits : (quoted p).length < 2 ^ 32) :
    ∃ s, sdssplitargs (sdscatrepr sdsempty p).cString = some [s] ∧ s.bytes = p ∧ sdslen s = p.length := by
  have length := length_le_quoted p
  obtain ⟨s, read, holds⟩ := sdssplitargs_quoted p (by omega)
  rw [cString_sdscatrepr p fits]
  exact ⟨s, read, bytes_of_holds holds, holds.len⟩

/-- A NUL, a quote, a backslash before an `x`, a newline and a high byte. -/
theorem sdssplitargs_sdscatrepr_seven :
    ∃ s, sdssplitargs (sdscatrepr sdsempty [0, 0x22, 0x5c, 0x78, 0x30, 0x0a, 0xff]).cString = some [s] ∧
      s.bytes = [0, 0x22, 0x5c, 0x78, 0x30, 0x0a, 0xff] ∧ sdslen s = 7 :=
  sdssplitargs_sdscatrepr [0, 0x22, 0x5c, 0x78, 0x30, 0x0a, 0xff] (by decide)

/-- Of `2^30` zeros nothing is left: their text has wrapped to a pair of quotes. -/
theorem sdssplitargs_wrapped :
    ¬ ∀ p : List Byte, ∃ s, sdssplitargs (sdscatrepr sdsempty p).cString = some [s] ∧ s.bytes = p ∧
      sdslen s = p.length := by
  intro roundTrip
  obtain ⟨s, read, -, length⟩ := roundTrip (List.replicate (1073741823 + 1) 0)
  obtain ⟨empty, pair, holds⟩ := sdssplitargs_quoted [] (by decide)
  have text : quoted [] = [char '"', char '"'] := rfl
  rw [cString_wrapped (by decide), ← text, pair] at read
  cases read
  rw [holds.len, List.length_nil, List.length_replicate] at length
  cases length

end CodeClips.Sds
