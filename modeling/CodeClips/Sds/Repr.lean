import CodeClips.Lib.Buffer
import Mathlib.Data.List.Basic
import Mathlib.Tactic.Common

/-!
# `sds` strings and `sdscatrepr`

An `sds` is a length, an `unsigned int`, in front of a buffer that is kept terminated with a
NUL. `sdscatlen` writes behind the length and adds to it; the length wraps at `2^32`, and what
is appended then lands at the front. `Holds` says that a string holds some bytes and that its
length counts them. `sdscatrepr` appends a quoted text, byte by byte.
-/

namespace CodeClips.Sds

abbrev Byte := BitVec 8

/-- A character constant. -/
abbrev char (c : Char) : Byte := BitVec.ofNat 8 c.toNat

/-- `struct sdshdr`, without the count of the bytes left over behind the string. -/
structure sdshdr where
  len : BitVec 32
  buf : List Byte
deriving DecidableEq, Repr

def sdsempty : sdshdr := { len := 0, buf := [0] }

def sdslen (s : sdshdr) : Nat := s.len.toNat

/-- `sdscatlen(s, t, len)`; there is room, since `sdsMakeRoomFor` has made it. -/
def sdscatlen (s : sdshdr) (t : List Byte) : sdshdr :=
  { len := BitVec.ofNat 32 (sdslen s + t.length)
    buf := blit s.buf (sdslen s) (t ++ [0]) }

/-- The bytes of a string by its length. -/
def sdshdr.bytes (s : sdshdr) : List Byte := s.buf.take (sdslen s)

/-- What a reader of the `char *` sees: the bytes up to a NUL. -/
def sdshdr.cString (s : sdshdr) : List Byte := s.buf.takeWhile (· ≠ 0)

/-- `isprint` in the C locale. -/
def isprint (b : Byte) : Bool := 0x20 ≤ b && b ≤ 0x7e

/-- `isspace` in the C locale. -/
def isspace (b : Byte) : Bool := b = 0x20 || (9 ≤ b && b ≤ 13)

/-- A digit of `%02x`. -/
def hexDigit (n : Nat) : Byte := if n < 10 then BitVec.ofNat 8 (48 + n) else BitVec.ofNat 8 (87 + n)

/-- What `sdscatrepr` appends for a byte. -/
def escape (b : Byte) : List Byte :=
  if b = char '\\' ∨ b = char '"' then [char '\\', b]
  else if b = char '\n' then [char '\\', char 'n']
  else if b = char '\r' then [char '\\', char 'r']
  else if b = char '\t' then [char '\\', char 't']
  else if b = 7 then [char '\\', char 'a']
  else if b = 8 then [char '\\', char 'b']
  else if isprint b then [b]
  else [char '\\', char 'x', hexDigit (b.toNat / 16), hexDigit (b.toNat % 16)]

/-- `sdscatrepr(s, p, len)`. -/
def sdscatrepr (s : sdshdr) (p : List Byte) : sdshdr :=
  sdscatlen (p.foldl (fun s b => sdscatlen s (escape b)) (sdscatlen s [char '"'])) [char '"']

/-! ## What a string holds -/

/-- The string holds these bytes, a NUL behind them, and its length counts them. -/
structure sdshdr.Holds (s : sdshdr) (bytes : List Byte) : Prop where
  len : sdslen s = bytes.length
  buf : ∃ rest, s.buf = bytes ++ 0 :: rest

theorem holds_sdsempty : sdsempty.Holds [] := ⟨rfl, [], rfl⟩

/-- What is appended goes behind the bytes held, whatever the new length is. -/
theorem sdscatlen_buf {s : sdshdr} {bytes : List Byte} (holds : s.Holds bytes) (t : List Byte) :
    ∃ rest, (sdscatlen s t).buf = bytes ++ t ++ 0 :: rest := by
  obtain ⟨rest, buf⟩ := holds.buf
  refine ⟨(0 :: rest).drop (t ++ [0]).length, ?_⟩
  rw [sdscatlen, holds.len, buf, blit_append]
  simp

theorem holds_sdscatlen {s : sdshdr} {bytes : List Byte} (holds : s.Holds bytes) (t : List Byte)
    (fits : bytes.length + t.length < 2 ^ 32) : (sdscatlen s t).Holds (bytes ++ t) := by
  refine ⟨?_, sdscatlen_buf holds t⟩
  rw [sdslen, sdscatlen, holds.len, List.length_append, BitVec.toNat_ofNat]
  exact Nat.mod_eq_of_lt fits

theorem bytes_of_holds {s : sdshdr} {bytes : List Byte} (holds : s.Holds bytes) : s.bytes = bytes := by
  obtain ⟨rest, buf⟩ := holds.buf
  rw [sdshdr.bytes, holds.len, buf, List.take_left]

/-- Bytes without a NUL are what a reader sees. -/
theorem cString_of_buf {s : sdshdr} {bytes rest : List Byte} (buf : s.buf = bytes ++ 0 :: rest) (noNul : 0 ∉ bytes) :
    s.cString = bytes := by
  have all : ∀ b ∈ bytes, decide (b ≠ 0) = true := by
    intro b member
    apply decide_eq_true
    rintro rfl
    exact noNul member
  rw [sdshdr.cString, buf, List.takeWhile_append_of_pos all]
  simp

/-! ## The quoted text -/

/-- The text that `sdscatrepr` makes of some bytes, if its length fits. -/
def quoted (p : List Byte) : List Byte := char '"' :: p.flatMap escape ++ [char '"']

theorem holds_escapes {s : sdshdr} {bytes : List Byte} (holds : s.Holds bytes) (p : List Byte)
    (fits : bytes.length + (p.flatMap escape).length < 2 ^ 32) :
    (p.foldl (fun s b => sdscatlen s (escape b)) s).Holds (bytes ++ p.flatMap escape) := by
  induction p generalizing s bytes with
  | nil => simpa using holds
  | cons b p ih =>
    rw [List.flatMap_cons, List.length_append] at fits
    rw [List.foldl_cons, List.flatMap_cons, ← List.append_assoc]
    apply ih (holds_sdscatlen holds (escape b) (by omega))
    rw [List.length_append]
    omega

theorem holds_sdscatrepr (p : List Byte) (fits : (quoted p).length < 2 ^ 32) :
    (sdscatrepr sdsempty p).Holds (quoted p) := by
  simp only [quoted, List.length_append, List.length_cons, List.length_nil] at fits
  have first := holds_sdscatlen holds_sdsempty [char '"'] (by decide)
  have escapes := holds_escapes first p (by rw [List.nil_append, List.length_singleton]; omega)
  exact holds_sdscatlen escapes [char '"'] (by rw [List.nil_append, List.length_append, List.length_singleton]; omega)

theorem escape_noNul : ∀ b : Byte, 0 ∉ escape b := by decide

theorem quoted_noNul (p : List Byte) : 0 ∉ quoted p := by
  intro member
  simp only [quoted, List.mem_append, List.mem_cons, List.mem_flatMap, List.not_mem_nil, or_false] at member
  rcases member with (quote | ⟨b, _, zero⟩) | quote
  · exact absurd quote (by decide)
  · exact escape_noNul b zero
  · exact absurd quote (by decide)

theorem cString_sdscatrepr (p : List Byte) (fits : (quoted p).length < 2 ^ 32) :
    (sdscatrepr sdsempty p).cString = quoted p := by
  obtain ⟨rest, buf⟩ := (holds_sdscatrepr p fits).buf
  exact cString_of_buf buf (quoted_noNul p)

/-- **The wrap.** The last escape takes the length to one past `2^32`, so that the closing
quote is written behind the opening one. -/
theorem cString_wrapped {n : Nat} (size : 4 * (n + 1) = 2 ^ 32) :
    (sdscatrepr sdsempty (List.replicate (n + 1) 0)).cString = [char '"', char '"'] := by
  have first := holds_sdscatlen holds_sdsempty [char '"'] (by decide)
  have length : ((List.replicate n (0 : Byte)).flatMap escape).length = 4 * n := by
    rw [List.length_flatMap, List.map_replicate, List.sum_replicate_nat]
    show n * 4 = _
    omega
  have before := holds_escapes first (List.replicate n 0) (by
    rw [List.nil_append, List.length_singleton, length]
    omega)
  rw [sdscatrepr, List.replicate_succ', List.foldl_append, List.foldl_cons, List.foldl_nil]
  generalize (List.replicate n (0 : Byte)).foldl _ _ = s at before ⊢
  obtain ⟨rest, buf⟩ := sdscatlen_buf before (escape 0)
  have wrapped : sdslen (sdscatlen s (escape 0)) = 1 := by
    have four : (escape 0).length = 4 := by decide
    rw [sdslen, sdscatlen, before.len, List.length_append, length, four, BitVec.toNat_ofNat, List.nil_append,
      List.length_singleton]
    omega
  have front : ∃ rest, (sdscatlen (sdscatlen s (escape 0)) [char '"']).buf = [char '"', char '"'] ++ 0 :: rest := by
    rw [sdscatlen, wrapped, buf]
    exact ⟨_, rfl⟩
  obtain ⟨rest, front⟩ := front
  exact cString_of_buf front (by decide)

end CodeClips.Sds
