import CodeClips.DynamicString.Ds
import CodeClips.Lib.Lines
import Mathlib.Algebra.GroupWithZero.Nat
import Mathlib.Algebra.Ring.Int.Defs

/-!
# `ds_put_hex_dump`

A line has the address of its first column, a multiple of 16, and for each of its bytes two digits;
the columns in front of the first byte are blank. `readDump` reads the columns of a dump, and with
them where each byte stands.
-/

namespace CodeClips.DynamicString

section Dump
variable (junk : Nat → Byte)

/-- A column without a byte. -/
def blank : List Byte := [char ' ', char ' ', char ' ']

/-- The format `%02x%c` in the column `i`. -/
def cellText (i : Nat) (b : Byte) : List Byte := padded 2 16 b.toNat ++ [if i = 7 then char '-' else char ' ']

/-- The character for a byte. -/
def rendered (b : Byte) : Byte := if 32 ≤ b ∧ b < 127 then b else char '.'

/-- The lines that are printed for the columns from `start` to `stop`. -/
def ds_put_hex_line (ascii : Bool) (ofs : BitVec 64) (start stop : Nat) (buf : List Byte) (ds : Ds) : Option Ds := do
  let ds ← ds_put_format junk ds (padded 8 16 (ofs / 16 * 16).toNat ++ [char ' ', char ' '])
  let ds ← (List.range start).foldlM (fun ds _ => ds_put_format junk ds blank) ds
  let ds ← (List.range' start (stop - start)).foldlM
    (fun ds i => buf[i - start]?.bind fun b => ds_put_format junk ds (cellText i b)) ds
  if ascii then do
    let ds ← (List.range' stop (16 - stop)).foldlM (fun ds _ => ds_put_format junk ds blank) ds
    let ds ← ds_put_format junk ds [char '|']
    let ds ← (List.range start).foldlM (fun ds _ => ds_put_format junk ds [char ' ']) ds
    let ds ← (List.range' start (stop - start)).foldlM
      (fun ds i => buf[i - start]?.bind fun b => ds_put_char junk ds (rendered b)) ds
    let ds ← (List.range' stop (16 - stop)).foldlM (fun ds _ => ds_put_format junk ds [char ' ']) ds
    let ds ← ds_put_format junk ds [char '|']
    ds_put_format junk ds [char '\n']
  else do
    let ds ← ds_chomp ds (char ' ')
    ds_put_format junk ds [char '\n']

/-- The first column of a line and the one behind its last. -/
def startOf (ofs : BitVec 64) : Nat := (ofs % 16).toNat
def stopOf (ofs : BitVec 64) (size : Nat) : Nat := if 16 - startOf ofs > size then startOf ofs + size else 16

theorem startOf_lt (ofs : BitVec 64) : startOf ofs < 16 := by
  rw [startOf, BitVec.toNat_umod]
  exact Nat.mod_lt _ (by decide)

/-- The lines one after the other; `ofs` wraps. -/
def ds_put_hex_dump (ascii : Bool) (ds : Ds) (buf : List Byte) (ofs : BitVec 64) : Option Ds :=
  if buf.length > 0 then
    let n := stopOf ofs buf.length - startOf ofs
    (ds_put_hex_line junk ascii ofs (startOf ofs) (stopOf ofs buf.length) buf ds).bind fun ds =>
      ds_put_hex_dump ascii ds (buf.drop n) (ofs + BitVec.ofNat 64 n)
  else some ds
termination_by buf.length
decreasing_by
  have bound := startOf_lt ofs
  rw [List.length_drop, stopOf]
  split_ifs <;> omega

end Dump

/-! ## Reading a dump -/

/-- The value of a hexadecimal digit. -/
def hexValue (c : Byte) : Option Nat :=
  if char '0' ≤ c ∧ c ≤ char '9' then some (c.toNat - 48)
  else if char 'a' ≤ c ∧ c ≤ char 'f' then some (c.toNat - 87) else none

/-- A number in hexadecimal digits. -/
def hexNumber (s : List Byte) : Option Nat := s.foldlM (fun n c => (16 * n + ·) <$> hexValue c) 0

/-- A column, which is blank or has two digits. -/
def readCell (s : List Byte) : Option (Option Byte) :=
  if s = [char ' ', char ' '] then some none
  else if s.length = 2 then (fun n => some (BitVec.ofNat 8 n)) <$> hexNumber s else none

/-- At most so many columns, with a character between two. -/
def readCells : Nat → List Byte → Option (List (Option Byte))
  | 0, _ => some []
  | k + 1, s =>
    if s = [] then some []
    else do
      let cell ← readCell (s.take 2)
      let cells ← readCells k (s.drop 3)
      some (cell :: cells)

/-- A line as it is read back: its address and its columns. -/
structure Line where
  address : Nat
  cells : List (Option Byte)

/-- The address and the columns of a line; what stands behind them is not read. -/
def readLine (s : List Byte) : Option Line := do
  let digits := s.takeWhile (· ≠ char ' ')
  let address ← hexNumber digits
  let cells ← readCells 16 (s.drop (digits.length + 2))
  some { address := address, cells := cells }

/-- The lines of a dump, one by one. -/
def readDump (text : List Byte) : Option (List Line) := (lines (char '\n') text).mapM readLine

/-- The bytes of a line, each with its place. -/
def Line.bytes (line : Line) : List (BitVec 64 × Byte) :=
  line.cells.zipIdx.filterMap fun (cell, i) => cell.map fun b => (BitVec.ofNat 64 (line.address + i), b)

/-- Where each byte is to stand. -/
def placed (ofs : BitVec 64) (buf : List Byte) : List (BitVec 64 × Byte) :=
  buf.zipIdx.map fun (b, i) => (ofs + BitVec.ofNat 64 i, b)

variable {junk : Nat → Byte} {ds : Ds} {old buf bytes s : List Byte} {ofs : BitVec 64} {start stop n k : Nat} {b : Byte}

/-! ## Numbers -/

theorem hexValue_digitChar : ∀ d < 16, hexValue (char (Nat.digitChar d)) = some d := by decide

/-- A number is read back from its digits. -/
theorem hexNumber_toDigits (n : Nat) : hexNumber ((Nat.toDigits 16 n).map char) = some n := by
  induction n using Nat.strong_induction_on with
  | _ n ih =>
    rcases Nat.lt_or_ge n 16 with small | large
    · rw [Nat.toDigits_of_lt_base small, hexNumber, List.map_singleton, List.foldlM_cons, hexValue_digitChar n small]
      simp
    · have front := ih (n / 16) (by omega)
      rw [hexNumber] at front
      rw [Nat.toDigits_of_base_le (by decide) large, hexNumber, List.map_append, List.foldlM_append, front,
        List.map_singleton, Option.bind_eq_bind, Option.bind_some, List.foldlM_cons,
        hexValue_digitChar _ (Nat.mod_lt n (by decide))]
      have whole : 16 * (n / 16) + n % 16 = n := Nat.div_add_mod n 16
      simp [whole]

/-- And with zeros in front. -/
theorem hexNumber_padded (width n : Nat) : hexNumber (padded width 16 n) = some n := by
  have zeros : ∀ k, (List.replicate k (char '0')).foldlM (fun n c => (16 * n + ·) <$> hexValue c) 0 = some 0 := by
    intro k
    induction k with
    | zero => rfl
    | succ k ih =>
      rw [List.replicate_succ, List.foldlM_cons]
      exact ih
  rw [padded, hexNumber, List.foldlM_append, zeros]
  exact hexNumber_toDigits n

/-- A number has hexadecimal digits only. -/
theorem hexValue_of_mem {m : Nat} (read : s.foldlM (fun n c => (16 * n + ·) <$> hexValue c) m = some n) :
    ∀ c ∈ s, hexValue c ≠ none := by
  induction s generalizing m with
  | nil => simp
  | cons c s ih =>
    rw [List.foldlM_cons] at read
    obtain ⟨m', first, rest⟩ := Option.bind_eq_some_iff.mp read
    obtain ⟨d, value, -⟩ := Option.map_eq_some_iff.mp first
    rw [List.forall_mem_cons]
    refine ⟨?_, ih rest⟩
    rw [value]
    exact Option.some_ne_none d

/-- And so has what is printed of one. -/
theorem not_mem_padded {c : Byte} (other : hexValue c = none) (width n : Nat) : c ∉ padded width 16 n :=
  fun member => hexValue_of_mem (hexNumber_padded width n) c member other

theorem length_padded : ∀ b : Byte, (padded 2 16 b.toNat).length = 2 := by decide

/-- A byte is read back from its two digits. -/
theorem readCell_padded (b : Byte) : readCell (padded 2 16 b.toNat) = some (some b) := by
  have digits : padded 2 16 b.toNat ≠ [char ' ', char ' '] := by
    intro same
    have inside : char ' ' ∈ padded 2 16 b.toNat := by
      rw [same]
      exact List.mem_cons_self
    exact not_mem_padded (by decide) 2 b.toNat inside
  rw [readCell, if_neg digits, if_pos (length_padded b), hexNumber_padded]
  simp

/-! ## The columns -/

/-- The columns as they are put. -/
def cellsText (start : Nat) (bytes : List Byte) : List Byte := (bytes.zipIdx start).flatMap fun (b, i) => cellText i b

/-- So many copies of a text. -/
def copies (n : Nat) (t : List Byte) : List Byte := (List.replicate n t).flatten

theorem flatMap_const {ι : Type} (l : List ι) (t : List Byte) : (l.flatMap fun _ => t) = copies l.length t := by
  rw [List.flatMap_def, List.map_const', copies]

/-- One column is read, and then the others. -/
theorem readCells_cons (cell : Option Byte) {c₁ c₂ : Byte} (read : readCell [c₁, c₂] = some cell) (k : Nat)
    (s : List Byte) : readCells (k + 1) (c₁ :: c₂ :: s) = (cell :: ·) <$> readCells k (s.drop 1) := by
  rw [readCells, if_neg (List.cons_ne_nil _ _)]
  show (readCell [c₁, c₂] >>= fun cell => readCells k (s.drop 1) >>= fun cells => some (cell :: cells)) = _
  rw [read]
  cases readCells k (s.drop 1) <;> rfl

/-- Blank columns are read as such. -/
theorem readCells_blanks (start k : Nat) (s : List Byte) :
    readCells (start + k) (copies start blank ++ s) = (List.replicate start none ++ ·) <$> readCells k s := by
  induction start with
  | zero =>
    rw [Nat.zero_add, show copies 0 blank ++ s = s from rfl]
    cases readCells k s <;> rfl
  | succ start ih =>
    have first := readCells_cons none (show readCell [char ' ', char ' '] = some none by decide) (start + k)
      (char ' ' :: (copies start blank ++ s))
    rw [List.drop_one, List.tail_cons, ih] at first
    have count : start + 1 + k = start + k + 1 := by omega
    have text : copies (start + 1) blank ++ s = char ' ' :: char ' ' :: char ' ' :: (copies start blank ++ s) := rfl
    rw [count, text, first]
    cases readCells k s <;> rfl

/-- The two digits of a byte. -/
theorem padded_eq (b : Byte) : ∃ c₁ c₂, padded 2 16 b.toNat = [c₁, c₂] ∧ readCell [c₁, c₂] = some (some b) := by
  obtain ⟨c₁, c₂, digits⟩ := List.length_eq_two.mp (length_padded b)
  refine ⟨c₁, c₂, digits, ?_⟩
  rw [← digits]
  exact readCell_padded b

/-- The column of a byte is read as that byte. -/
theorem readCells_cell (b : Byte) (k : Nat) (s : List Byte) :
    readCells (k + 1) (padded 2 16 b.toNat ++ s) = (some b :: ·) <$> readCells k (s.drop 1) := by
  obtain ⟨c₁, c₂, digits, read⟩ := padded_eq b
  rw [digits]
  exact readCells_cons (some b) read k s

theorem cellsText_cons (start : Nat) (b : Byte) (bytes : List Byte) :
    cellsText start (b :: bytes) = cellText start b ++ cellsText (start + 1) bytes := rfl

/-- The columns of some bytes and of those behind them. -/
theorem cellsText_append (start : Nat) (bytes bytes' : List Byte) :
    cellsText start (bytes ++ bytes') = cellsText start bytes ++ cellsText (start + bytes.length) bytes' := by
  rw [cellsText, List.zipIdx_append, List.flatMap_append]
  rfl

/-- The bytes of a line are read back one by one. -/
theorem readCells_cells (start : Nat) (bytes : List Byte) (k : Nat) (s : List Byte) :
    readCells (bytes.length + k) (cellsText start bytes ++ s) = (bytes.map some ++ ·) <$> readCells k s := by
  induction bytes generalizing start with
  | nil =>
    rw [List.length_nil, Nat.zero_add, show cellsText start [] ++ s = s from rfl]
    cases readCells k s <;> rfl
  | cons b bytes ih =>
    have count : (b :: bytes).length + k = bytes.length + k + 1 := by
      rw [List.length_cons]
      omega
    rw [cellsText_cons, cellText, List.append_assoc, List.append_assoc, count, readCells_cell, List.singleton_append,
      List.drop_one, List.tail_cons, ih]
    cases readCells k s <;> rfl

/-- The columns at the end of a line without the rendering, whose last one is left of what `ds_chomp` takes. -/
theorem readCells_last (start : Nat) (bytes : List Byte) (last sep : Byte) (k : Nat) :
    readCells (bytes.length + (k + 1)) (if sep = char ' ' then cellsText start bytes ++ padded 2 16 last.toNat
      else cellsText start bytes ++ padded 2 16 last.toNat ++ [sep]) = some ((bytes ++ [last]).map some) := by
  have ends : ∀ s : List Byte, s.length ≤ 1 → readCells (k + 1) (padded 2 16 last.toNat ++ s) = some [some last] := by
    intro s short
    rw [readCells_cell, List.drop_of_length_le short]
    cases k <;> rfl
  split_ifs
  · have here := ends [] (Nat.zero_le _)
    rw [List.append_nil] at here
    rw [readCells_cells, here, List.map_append]
    rfl
  · rw [List.append_assoc, readCells_cells, ends [sep] le_rfl, List.map_append]
    rfl

/-! ## A line -/

/-- The address is read back, and the columns follow. -/
theorem readLine_address (n : Nat) (s : List Byte) :
    readLine (padded 8 16 n ++ ([char ' ', char ' '] ++ s)) =
      (fun cells => { address := n, cells := cells }) <$> readCells 16 s := by
  have digits : (padded 8 16 n ++ ([char ' ', char ' '] ++ s)).takeWhile (· ≠ char ' ') = padded 8 16 n := by
    rw [List.takeWhile_append_of_pos]
    · simp
    · intro c member
      apply decide_eq_true
      rintro rfl
      exact not_mem_padded (by decide) 8 n member
  have behind : (padded 8 16 n ++ ([char ' ', char ' '] ++ s)).drop ((padded 8 16 n).length + 2) = s := by
    rw [List.drop_length_add_append]
    rfl
  rw [readLine, digits, hexNumber_padded, behind]
  cases readCells 16 s <;> rfl

/-- The bytes of a line with their columns. -/
theorem zipIdx_take (le : n ≤ buf.length) (start : Nat) :
    (buf.take n).zipIdx start = (List.range' start n).map fun i => (buf.getD (i - start) 0, i) := by
  apply List.ext_getElem
  · simp [le]
  · intro i inside _
    rw [List.length_zipIdx, List.length_take] at inside
    have within : i < buf.length := by omega
    simp [List.getD_eq_getElem?_getD, within]

/-- The bytes of a line are read inside of `buf`. -/
theorem getElem?_column (le : n ≤ buf.length) {i : Nat} (member : i ∈ List.range' start n) :
    buf[i - start]? = some (buf.getD (i - start) 0) := by
  rw [List.mem_range'_1] at member
  have within : i - start < buf.length := by omega
  simp [List.getD_eq_getElem?_getD, within]

/-- The loop over the columns prints the bytes. -/
theorem puts_cells (le : n ≤ buf.length) (start : Nat) :
    Puts ((List.range' start n).foldlM (fun ds i => buf[i - start]?.bind fun b => ds_put_format junk ds (cellText i b)) ·)
      (cellsText start (buf.take n)) := by
  rw [cellsText, zipIdx_take le, List.flatMap_map]
  apply Puts.loop
  intro i member
  rw [getElem?_column le member]
  exact puts_format _

/-- The loop of the right side prints them as characters. -/
theorem puts_rendered (le : n ≤ buf.length) (start : Nat) :
    Puts ((List.range' start n).foldlM (fun ds i => buf[i - start]?.bind fun b => ds_put_char junk ds (rendered b)) ·)
      ((buf.take n).map rendered) := by
  have bytes : buf.take n = (List.range' start n).map fun i => buf.getD (i - start) 0 := by
    have pairs := congrArg (List.map Prod.fst) (zipIdx_take le start)
    rw [List.zipIdx_map_fst, List.map_map] at pairs
    exact pairs
  rw [bytes, List.map_map, List.map_eq_flatMap]
  apply Puts.loop
  intro i member
  rw [getElem?_column le member]
  exact puts_char _

/-- The loops of the blank columns print them. -/
theorem puts_copies {ι : Type} (l : List ι) (t : List Byte) :
    Puts (l.foldlM (fun ds _ => ds_put_format junk ds t) ·) (copies l.length t) := by
  rw [← flatMap_const]
  exact Puts.loop fun _ _ => puts_format t

/-- What a line for some bytes is, however it is put. -/
structure IsLine (ofs : BitVec 64) (bytes : List Byte) (line : List Byte) : Prop where
  clean : char '\n' ∉ line
  reads : ∃ m, readLine line = some
    { address := (ofs / 16 * 16).toNat
      cells := List.replicate (startOf ofs) none ++ (bytes.map some ++ List.replicate m none) }

/-- Nothing in the address ends the line. -/
theorem clean_address (n : Nat) : char '\n' ∉ padded 8 16 n ++ [char ' ', char ' '] := by
  rw [List.mem_append, not_or]
  exact ⟨not_mem_padded (by decide) 8 n, by decide⟩

theorem clean_copies {c : Byte} {t : List Byte} (clean : c ∉ t) (n : Nat) : c ∉ copies n t := by
  intro member
  obtain ⟨t', listed, inside⟩ := List.mem_flatten.mp member
  rw [List.eq_of_mem_replicate listed] at inside
  exact clean inside

/-- Nor in the columns. -/
theorem clean_cells (start : Nat) (bytes : List Byte) : char '\n' ∉ cellsText start bytes := by
  intro member
  obtain ⟨⟨b, i⟩, -, inside⟩ := List.mem_flatMap.mp member
  dsimp only at inside
  rw [cellText, List.mem_append] at inside
  rcases inside with digit | sep
  · exact not_mem_padded (by decide) 2 b.toNat digit
  · split_ifs at sep
    · exact absurd sep (by decide)
    · exact absurd sep (by decide)

/-- Nor among the characters, although the bytes may be newlines. -/
theorem clean_rendered (bytes : List Byte) : char '\n' ∉ bytes.map rendered := by
  intro member
  obtain ⟨b, -, same⟩ := List.mem_map.mp member
  rw [rendered] at same
  split_ifs at same with shown
  · rw [same] at shown
    exact absurd shown.1 (by decide)
  · exact absurd same (by decide)

/-- A line with the blank columns in front. -/
def lineText (ofs : BitVec 64) (rest : List Byte) : List Byte :=
  padded 8 16 (ofs / 16 * 16).toNat ++ [char ' ', char ' '] ++ (copies (startOf ofs) blank ++ rest)

/-- A line is read back if its columns are. -/
theorem isLine_lineText {rest : List Byte} {m : Nat} (clean : char '\n' ∉ rest)
    (reads : readCells (16 - startOf ofs) rest = some (bytes.map some ++ List.replicate m none)) :
    IsLine ofs bytes (lineText ofs rest) := by
  refine ⟨?_, m, ?_⟩
  · intro member
    rw [lineText, List.mem_append, List.mem_append] at member
    rcases member with address | blanks_or_rest
    · exact clean_address _ (List.mem_append.mpr address)
    rcases List.mem_append.mp blanks_or_rest with blanks | inside
    · exact clean_copies (by decide) _ blanks
    · exact clean inside
  · have room : 16 = startOf ofs + (16 - startOf ofs) := (Nat.add_sub_cancel' (Nat.le_of_lt (startOf_lt ofs))).symm
    have cells := readCells_blanks (startOf ofs) (16 - startOf ofs) rest
    rw [← room, reads] at cells
    rw [lineText, List.append_assoc, readLine_address, cells]
    rfl

/-- The rendering. -/
def shownText (start stop : Nat) (bytes : List Byte) : List Byte :=
  [char '|'] ++ (copies start [char ' '] ++ (bytes.map rendered ++ (copies (16 - stop) [char ' '] ++ [char '|'])))

/-- Nor on the right side as a whole. -/
theorem clean_shownText (start stop : Nat) (bytes : List Byte) : char '\n' ∉ shownText start stop bytes := by
  rw [shownText]
  simp only [List.mem_append, not_or]
  exact ⟨by decide, clean_copies (by decide) _, clean_rendered _, clean_copies (by decide) _, by decide⟩

/-- A line with the rendering. -/
theorem puts_line_ascii (le : n ≤ buf.length) (within : startOf ofs + n ≤ 16) :
    ∃ line, Puts (ds_put_hex_line junk true ofs (startOf ofs) (startOf ofs + n) buf ·) (line ++ [char '\n']) ∧
      IsLine ofs (buf.take n) line := by
  have count : startOf ofs + n - startOf ofs = n := Nat.add_sub_cancel_left _ _
  have length : (buf.take n).length = n := List.length_take_of_le le
  have front := @puts_copies junk _ (List.range (startOf ofs))
  have back := @puts_copies junk _ (List.range' (startOf ofs + n) (16 - (startOf ofs + n)))
  rw [List.length_range] at front
  rw [List.length_range'] at back
  have puts : Puts (ds_put_hex_line junk true ofs (startOf ofs) (startOf ofs + n) buf ·)
      ((padded 8 16 (ofs / 16 * 16).toNat ++ [char ' ', char ' ']) ++ (copies (startOf ofs) blank ++
        (cellsText (startOf ofs) (buf.take n) ++ (copies (16 - (startOf ofs + n)) blank ++ ([char '|'] ++
          (copies (startOf ofs) [char ' '] ++ ((buf.take n).map rendered ++ (copies (16 - (startOf ofs + n)) [char ' '] ++
            ([char '|'] ++ [char '\n']))))))))) := by
    unfold ds_put_hex_line
    rw [count]
    exact .bind (puts_format _) <| .bind (front blank) <| .bind (puts_cells le _) <| .bind (back blank) <|
      .bind (puts_format _) <| .bind (front [char ' ']) <| .bind (puts_rendered le _) <| .bind (back [char ' ']) <|
      .bind (puts_format _) (puts_format _)
  refine ⟨lineText ofs (cellsText (startOf ofs) (buf.take n) ++ (copies (16 - (startOf ofs + n)) blank ++
    shownText (startOf ofs) (startOf ofs + n) (buf.take n))), ?_, ?_⟩
  · simp only [lineText, shownText, List.append_assoc] at puts ⊢
    exact puts
  · apply @isLine_lineText _ _ _ (16 - (startOf ofs + n))
    · rw [List.mem_append, List.mem_append, not_or, not_or]
      exact ⟨clean_cells _ _, clean_copies (by decide) _, clean_shownText _ _ _⟩
    · have room : 16 - startOf ofs = (buf.take n).length + (16 - (startOf ofs + n) + 0) := by omega
      rw [room, readCells_cells, readCells_blanks, readCells]
      simp

/-- A line without it. -/
theorem puts_line_plain (le : n ≤ buf.length) (within : startOf ofs + n ≤ 16) (some_bytes : 0 < n) :
    ∃ line, Puts (ds_put_hex_line junk false ofs (startOf ofs) (startOf ofs + n) buf ·) (line ++ [char '\n']) ∧
      IsLine ofs (buf.take n) line := by
  have count : startOf ofs + n - startOf ofs = n := Nat.add_sub_cancel_left _ _
  have length : (buf.take n).length = n := List.length_take_of_le le
  have front := @puts_copies junk _ (List.range (startOf ofs))
  have cells := @puts_cells junk _ _ le (startOf ofs)
  rw [List.length_range] at front
  obtain ⟨bytes, last, taken⟩ : ∃ bytes last, buf.take n = bytes ++ [last] := by
    rcases List.eq_nil_or_concat' (buf.take n) with none | some
    · rw [none] at length
      exact absurd length (Nat.ne_of_lt some_bytes)
    · exact some
  rw [taken, List.length_append, List.length_singleton] at length
  -- the character behind the last byte is the one that may go
  obtain ⟨sep, ends⟩ : ∃ sep, cellsText (startOf ofs) (buf.take n) =
      cellsText (startOf ofs) bytes ++ padded 2 16 last.toNat ++ [sep] := by
    refine ⟨if startOf ofs + bytes.length = 7 then char '-' else char ' ', ?_⟩
    rw [taken, cellsText_append, cellsText_cons, cellText, List.append_assoc, List.append_assoc]
    rfl
  have clean := clean_cells (startOf ofs) (buf.take n)
  rw [ends] at cells
  have puts : Puts (ds_put_hex_line junk false ofs (startOf ofs) (startOf ofs + n) buf ·)
      ((padded 8 16 (ofs / 16 * 16).toNat ++ [char ' ', char ' ']) ++ (copies (startOf ofs) blank ++
        ((if sep = char ' ' then cellsText (startOf ofs) bytes ++ padded 2 16 last.toNat
          else cellsText (startOf ofs) bytes ++ padded 2 16 last.toNat ++ [sep]) ++ [char '\n']))) := by
    unfold ds_put_hex_line
    rw [count]
    exact .bind (puts_format _) <| .bind (front blank) <| .chomp cells _ (puts_format _)
  refine ⟨lineText ofs (if sep = char ' ' then cellsText (startOf ofs) bytes ++ padded 2 16 last.toNat
    else cellsText (startOf ofs) bytes ++ padded 2 16 last.toNat ++ [sep]), ?_, ?_⟩
  · simp only [lineText, List.append_assoc] at puts ⊢
    exact puts
  · have room : 16 - startOf ofs = bytes.length + (16 - (startOf ofs + n) + 1) := by omega
    apply @isLine_lineText _ _ _ 0
    · rw [ends, List.mem_append, not_or] at clean
      split_ifs
      · exact clean.1
      · rw [List.mem_append, not_or]
        exact clean
    · rw [room, readCells_last, taken, List.replicate_zero, List.append_nil]

/-- A line, with the bytes of `buf` that it has place for. -/
theorem puts_line (ascii : Bool) (le : n ≤ buf.length) (within : startOf ofs + n ≤ 16) (some_bytes : 0 < n) :
    ∃ line, Puts (ds_put_hex_line junk ascii ofs (startOf ofs) (startOf ofs + n) buf ·) (line ++ [char '\n']) ∧
      IsLine ofs (buf.take n) line := by
  cases ascii with
  | true => exact puts_line_ascii le within
  | false => exact puts_line_plain le within some_bytes

/-! ## The dump -/

/-- The address is the multiple of 16 at the offset or before it. -/
theorem toNat_address (ofs : BitVec 64) : (ofs / 16 * 16).toNat = 16 * (ofs.toNat / 16) := by
  have bound := ofs.isLt
  rw [BitVec.toNat_mul, BitVec.toNat_udiv]
  show ofs.toNat / 16 * 16 % 2 ^ 64 = _
  rw [Nat.mod_eq_of_lt (by omega), Nat.mul_comm]

/-- The first byte lies as far behind it as there are columns in front. -/
theorem address_add_startOf (ofs : BitVec 64) : (ofs / 16 * 16).toNat + startOf ofs = ofs.toNat := by
  rw [toNat_address, startOf, BitVec.toNat_umod]
  exact Nat.div_add_mod _ _

/-- The bytes at an offset, and those behind them. -/
theorem placed_append (ofs : BitVec 64) (bytes rest : List Byte) :
    placed ofs (bytes ++ rest) = placed ofs bytes ++ placed (ofs + BitVec.ofNat 64 bytes.length) rest := by
  rw [placed, List.zipIdx_append, List.map_append, placed, placed, Nat.zero_add, @List.zipIdx_eq_map_add _ rest,
    List.map_map]
  apply congrArg
  apply List.map_congr_left
  rintro ⟨b, i⟩ -
  dsimp only [Function.comp_apply]
  rw [BitVec.ofNat_add, BitVec.add_assoc]

section Cells
variable (place : Nat → BitVec 64)

/-- The bytes in some columns from the `i`th on. -/
def cellBytes (i : Nat) (cells : List (Option Byte)) : List (BitVec 64 × Byte) :=
  (cells.zipIdx i).filterMap fun (cell, i) => cell.map fun b => (place i, b)

/-- The bytes of a line, from left to right. -/
theorem cellBytes_append (i : Nat) (cells cells' : List (Option Byte)) :
    cellBytes place i (cells ++ cells') = cellBytes place i cells ++ cellBytes place (i + cells.length) cells' := by
  rw [cellBytes, List.zipIdx_append, List.filterMap_append]
  rfl

/-- A blank column has no byte. -/
theorem cellBytes_blank (i m : Nat) : cellBytes place i (List.replicate m none) = [] := by
  induction m generalizing i with
  | zero => rfl
  | succ m ih => exact ih (i + 1)

/-- The bytes from a column on, with the places they have. -/
theorem cellBytes_bytes (i : Nat) (bytes : List Byte) :
    cellBytes place i (bytes.map some) = (bytes.zipIdx i).map fun (b, i) => (place i, b) := by
  induction bytes generalizing i with
  | nil => rfl
  | cons b bytes ih => exact congrArg ((place i, b) :: ·) (ih (i + 1))

end Cells

/-- The bytes that a line is for. -/
theorem bytes_line (ofs : BitVec 64) (bytes : List Byte) (m : Nat) :
    Line.bytes { address := (ofs / 16 * 16).toNat
                 cells := List.replicate (startOf ofs) none ++ (bytes.map some ++ List.replicate m none) } =
      placed ofs bytes := by
  show cellBytes (fun i => BitVec.ofNat 64 ((ofs / 16 * 16).toNat + i)) 0 _ = _
  rw [cellBytes_append, cellBytes_append, cellBytes_blank, cellBytes_blank, cellBytes_bytes, List.nil_append,
    List.append_nil, List.length_replicate, Nat.zero_add, List.zipIdx_eq_map_add, List.map_map, placed]
  apply List.map_congr_left
  rintro ⟨b, i⟩ -
  dsimp only [Function.comp_apply]
  rw [← Nat.add_assoc, address_add_startOf, BitVec.ofNat_add, BitVec.ofNat_toNat, BitVec.setWidth_eq]

/-- The first line is put, and the rest is a dump of its own. -/
theorem ds_put_hex_dump_line {ascii : Bool} (some_bytes : 0 < buf.length) (ds : Ds) :
    ds_put_hex_dump junk ascii ds buf ofs =
      (ds_put_hex_line junk ascii ofs (startOf ofs) (stopOf ofs buf.length) buf ds).bind fun ds =>
        ds_put_hex_dump junk ascii ds (buf.drop (stopOf ofs buf.length - startOf ofs))
          (ofs + BitVec.ofNat 64 (stopOf ofs buf.length - startOf ofs)) := by
  rw [ds_put_hex_dump, if_pos some_bytes]

/-- The first line of a dump. -/
theorem puts_first (ascii : Bool) (some_bytes : 0 < buf.length) :
    ∃ line, Puts (ds_put_hex_line junk ascii ofs (startOf ofs) (stopOf ofs buf.length) buf ·) (line ++ [char '\n']) ∧
      IsLine ofs (buf.take (stopOf ofs buf.length - startOf ofs)) line ∧ 0 < stopOf ofs buf.length - startOf ofs ∧
      stopOf ofs buf.length - startOf ofs ≤ buf.length := by
  have bound := startOf_lt ofs
  obtain ⟨n, stop, within, positive, le⟩ : ∃ n, stopOf ofs buf.length = startOf ofs + n ∧ startOf ofs + n ≤ 16 ∧ 0 < n ∧
      n ≤ buf.length := by
    refine ⟨stopOf ofs buf.length - startOf ofs, ?_⟩
    rw [stopOf]
    split_ifs <;> omega
  rw [stop, Nat.add_sub_cancel_left]
  obtain ⟨line, puts, is_line⟩ := @puts_line junk _ _ _ ascii le within positive
  exact ⟨line, puts, is_line, positive, le⟩

/-- The dump is one of the bytes from an offset on. -/
structure Faithful (ofs : BitVec 64) (buf : List Byte) (dump : List Line) : Prop where
  bytes : dump.flatMap Line.bytes = placed ofs buf
  aligned : ∀ line ∈ dump, 16 ∣ line.address
  blank : ∀ line ∈ dump.head?, line.cells.take (startOf ofs) = List.replicate (startOf ofs) none

/-- A line in front of those for the bytes behind. -/
theorem Faithful.cons {dump : List Line} {m : Nat}
    (faithful : Faithful (ofs + BitVec.ofNat 64 bytes.length) s dump) :
    Faithful ofs (bytes ++ s)
      ({ address := (ofs / 16 * 16).toNat
         cells := List.replicate (startOf ofs) none ++ (bytes.map some ++ List.replicate m none) } :: dump) where
  bytes := by
    rw [List.flatMap_cons, bytes_line, faithful.bytes, placed_append]
  aligned := by
    rw [List.forall_mem_cons]
    refine ⟨?_, faithful.aligned⟩
    rw [toNat_address]
    exact Nat.dvd_mul_right 16 _
  blank := by
    rintro _ ⟨⟩
    rw [List.take_left' List.length_replicate]

/-- The lines for the bytes, read one by one. -/
theorem puts_dump (ascii : Bool) (buf : List Byte) (ofs : BitVec 64) :
    ∃ (ls : List (List Byte)) (dump : List Line),
      Puts (ds_put_hex_dump junk ascii · buf ofs) (ls.flatMap (· ++ [char '\n'])) ∧ (∀ l ∈ ls, char '\n' ∉ l) ∧
        ls.mapM readLine = some dump ∧ Faithful ofs buf dump := by
  induction length : buf.length using Nat.strong_induction_on generalizing buf ofs with
  | _ size ih =>
    rcases Nat.eq_zero_or_pos buf.length with none | some_bytes
    · obtain rfl : buf = [] := List.length_eq_zero_iff.mp none
      refine ⟨[], [], ?_, by simp, rfl, rfl, by simp, by simp⟩
      intro ds bytes holds
      refine ⟨ds, ?_, by rw [List.flatMap_nil, List.append_nil]; exact holds⟩
      show ds_put_hex_dump junk ascii ds [] ofs = some ds
      rw [ds_put_hex_dump]
      rfl
    · obtain ⟨line, puts, is_line, positive, le⟩ := @puts_first junk _ ofs ascii some_bytes
      have step := @ds_put_hex_dump_line junk buf ofs ascii some_bytes
      generalize stopOf ofs buf.length - startOf ofs = n at is_line positive le step
      have fewer : (buf.drop n).length < buf.length := by
        rw [List.length_drop]
        omega
      obtain ⟨ls, dump, puts', clean, reads, faithful⟩ := ih _ (length ▸ fewer) (buf.drop n) (ofs + BitVec.ofNat 64 n) rfl
      obtain ⟨m, read⟩ := is_line.reads
      have whole := @Faithful.cons (buf.take n) (buf.drop n) ofs dump m (by
        rw [List.length_take_of_le le]
        exact faithful)
      rw [List.take_append_drop] at whole
      refine ⟨line :: ls, _, ?_, ?_, ?_, whole⟩
      · rw [List.flatMap_cons]
        intro ds bytes holds
        obtain ⟨ds', done, holds'⟩ := puts.bind puts' ds bytes holds
        exact ⟨ds', (step ds).trans done, holds'⟩
      · rw [List.forall_mem_cons]
        exact ⟨is_line.clean, clean⟩
      · rw [List.mapM_cons, read, reads]
        rfl

/-- For every buffer and offset the dump ends. What it puts is read back as lines with the bytes of
the buffer, each in its place, from addresses that are multiples of 16 on. -/
theorem ds_put_hex_dump_faithful (ascii : Bool) (buf : List Byte) (ofs : BitVec 64) (holds : ds.Holds old) :
    ∃ ds' text dump, ds_put_hex_dump junk ascii ds buf ofs = some ds' ∧ ds'.Holds (old ++ text) ∧
      readDump text = some dump ∧ dump.flatMap Line.bytes = placed ofs buf ∧ (∀ line ∈ dump, 16 ∣ line.address) ∧
        ∀ line ∈ dump.head?, line.cells.take (startOf ofs) = List.replicate (startOf ofs) none := by
  obtain ⟨ls, dump, puts, clean, reads, faithful⟩ := @puts_dump junk ascii buf ofs
  obtain ⟨ds', done, holds'⟩ := puts ds old holds
  refine ⟨ds', _, dump, done, holds', ?_, faithful.bytes, faithful.aligned, faithful.blank⟩
  rw [readDump, lines_flatMap clean]
  exact reads

theorem ds_put_hex_dump_faithful_three : ∃ ds' text dump,
    ds_put_hex_dump (fun _ => 170) true ds_init [1, 2, 3] 7 = some ds' ∧ ds'.Holds text ∧
      readDump text = some dump ∧ dump.flatMap Line.bytes = [(7, 1), (8, 2), (9, 3)] ∧ (∀ line ∈ dump, 16 ∣ line.address) ∧
        ∀ line ∈ dump.head?, line.cells.take 7 = List.replicate 7 none :=
  ds_put_hex_dump_faithful true [1, 2, 3] 7 holds_ds_init

end CodeClips.DynamicString
