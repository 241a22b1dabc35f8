import CodeClips.CherryPy.SizeCheck
import Mathlib.Data.List.TakeWhile

/-!
# The headers of a message

`read_headers` of `cherrPy-wsgi.py`. Names are compared as `title` writes them; a line that begins with
white space goes on with the header before it. What the dictionary has of a name is the last of its
values or, of the headers that may be repeated, all of them with commas in between.
-/

namespace CodeClips.CherryPy

def ascii (s : String) : Bytes := s.toList.map fun c => UInt8.ofNat c.toNat

/-- Every word with a capital letter in front. -/
def titleFrom : Bool → Bytes → Bytes
  | _, [] => []
  | cased, b :: s =>
    if 97 ≤ b ∧ b ≤ 122 then (if cased then b else b - 32) :: titleFrom true s
    else if 65 ≤ b ∧ b ≤ 90 then (if cased then b + 32 else b) :: titleFrom true s
    else b :: titleFrom false s

def title (s : Bytes) : Bytes := titleFrom false s

def comma_separated_headers : List Bytes :=
  ["Accept", "Accept-Charset", "Accept-Encoding", "Accept-Language", "Accept-Ranges", "Allow", "Cache-Control", "Connection",
    "Content-Encoding", "Content-Language", "Expect", "If-Match", "If-None-Match", "Pragma", "Proxy-Authenticate", "TE",
    "Trailer", "Transfer-Encoding", "Upgrade", "Vary", "Via", "Warning", "WWW-Authenticate"].map ascii

abbrev HDict := Bytes → Option Bytes

/-- The name and the value of a line, `k` the name of the line before. -/
def headerLine (k : Option Bytes) (line : Bytes) : Except Raised (Bytes × Bytes) :=
  if line.head? = some 32 ∨ line.head? = some 9 then
    match k with
    | none => .error (.unboundLocalError "k")
    | some k => .ok (k, strip line)
  else match line.idxOf? 58 with
    | none => .error (.valueError "Illegal header line." none)
    | some i => .ok (title (strip (line.take i)), strip (line.drop (i + 1)))

/-- The value with what there is already of a header that may be repeated. -/
def folded (k : Bytes) (existing : Option Bytes) (v : Bytes) : Bytes :=
  if k ∈ comma_separated_headers then
    match existing with
    | none => v
    | some e => if e = [] then v else e ++ ascii ", " ++ v
  else v

def store (hdict : HDict) (k v : Bytes) : HDict := fun name => if name = k then some (folded k (hdict k) v) else hdict name

section Read
variable {τ : Type} (readline : EStateM Raised τ Bytes)

def headerLoop : Nat → Option Bytes → HDict → EStateM Raised τ HDict
  | 0, _, _ => throw .running
  | fuel + 1, k, hdict => do
    let line ← readline
    if line = [] then throw (.valueError "Illegal end of headers." none)
    else if line = CRLF then pure hdict
    else if ¬ CRLF <:+ line then throw (.valueError "HTTP requires CRLF terminators" none)
    else match headerLine k line with
      | .error e => throw e
      | .ok (k, v) => headerLoop fuel (some k) (store hdict k v)

def readHeaders (fuel : Nat) (hdict : HDict) : EStateM Raised τ HDict := headerLoop readline fuel none hdict

end Read

/-- A header, or a line that goes on with it. -/
inductive HeaderLine where
  | field (k v : Bytes)
  | continuation (tab : Bool) (v : Bytes)

namespace HeaderLine

def render : HeaderLine → Bytes
  | field k v => k ++ 58 :: v ++ CRLF
  | continuation tab v => (if tab then 9 else 32) :: v ++ CRLF

def WellFormed : HeaderLine → Prop
  | field k v => newline ∉ k ∧ 58 ∉ k ∧ k.head? ≠ some 32 ∧ k.head? ≠ some 9 ∧ newline ∉ v
  | continuation _ v => newline ∉ v

instance : DecidablePred WellFormed
  | field k v => inferInstanceAs (Decidable (newline ∉ k ∧ 58 ∉ k ∧ k.head? ≠ some 32 ∧ k.head? ≠ some 9 ∧ newline ∉ v))
  | continuation _ v => inferInstanceAs (Decidable (newline ∉ v))

/-- The name and the value of each line. -/
def named : Bytes → List HeaderLine → List (Bytes × Bytes)
  | _, [] => []
  | _, field k v :: lines => (title (strip k), strip v) :: named (title (strip k)) lines
  | k, continuation _ v :: lines => (k, strip v) :: named k lines

end HeaderLine

/-- The values with commas in between, without the empty ones in front. -/
def joined (values : List Bytes) : Bytes := [44, 32].intercalate (values.dropWhile fun v => v = [])

/-- What a name comes to have by its values. -/
def gathered (k : Bytes) (values : List Bytes) : Option Bytes :=
  if values = [] then none else if k ∈ comma_separated_headers then some (joined values) else values.getLast?

def valuesOf (k : Bytes) (fields : List (Bytes × Bytes)) : List Bytes :=
  (fields.filter fun field => field.1 = k).map Prod.snd

/-- The dictionary has what the fields give. -/
def Holds (hdict : HDict) (fields : List (Bytes × Bytes)) : Prop := ∀ name, hdict name = gathered name (valuesOf name fields)

section Values
variable {k v : Bytes} {values : List Bytes} {hdict : HDict} {fields : List (Bytes × Bytes)}

theorem intercalate_concat (sep v : Bytes) (some_ : values ≠ []) :
    sep.intercalate (values ++ [v]) = sep.intercalate values ++ sep ++ v := by
  induction values with
  | nil => exact absurd rfl some_
  | cons first rest ih =>
    cases rest with
    | nil => simp
    | cons second rest =>
      have more := ih (List.cons_ne_nil second rest)
      rw [List.cons_append, List.cons_append, List.intercalate_cons_cons, ← List.cons_append, more, List.intercalate_cons_cons]
      simp only [List.append_assoc]

theorem joined_eq_nil : joined values = [] ↔ values.dropWhile (fun v => v = []) = [] := by
  constructor
  · intro none
    rw [joined] at none
    by_contra some_
    obtain ⟨first, rest, front⟩ := List.exists_cons_of_ne_nil some_
    have filled := List.head_dropWhile_not (fun v : Bytes => decide (v = [])) some_
    simp only [front, List.head_cons, decide_eq_false_iff_not] at filled
    rw [front] at none
    cases rest with
    | nil => exact filled (by simpa using none)
    | cons second rest =>
      rw [List.intercalate_cons_cons, List.append_assoc] at none
      exact filled (List.append_eq_nil_iff.mp none).1
  · intro none
    rw [joined, none]
    rfl

theorem joined_single (v : Bytes) : joined [v] = v := by
  by_cases empty : v = []
  · rw [empty]
    rfl
  · rw [joined, List.dropWhile_cons_of_neg (by simpa using empty)]
    simp

/-- One value more. -/
theorem joined_concat (values : List Bytes) (v : Bytes) :
    joined (values ++ [v]) = if joined values = [] then v else joined values ++ [44, 32] ++ v := by
  have front : (values ++ [v]).dropWhile (fun v => v = []) =
      if values.dropWhile (fun v => v = []) = [] then [v].dropWhile (fun v => v = [])
      else values.dropWhile (fun v => v = []) ++ [v] := by
    rw [List.dropWhile_append]
    simp only [List.isEmpty_iff]
  by_cases none : values.dropWhile (fun v => v = []) = []
  · rw [if_pos none] at front
    rw [if_pos (joined_eq_nil.mpr none), joined, front]
    exact joined_single v
  · rw [if_neg none] at front
    rw [if_neg (joined_eq_nil.not.mpr none), joined, front, intercalate_concat _ v none, joined]

theorem folded_gathered (k v : Bytes) (values : List Bytes) :
    some (folded k (gathered k values) v) = gathered k (values ++ [v]) := by
  have some_ : values ++ [v] ≠ [] := by simp
  unfold folded gathered
  rw [if_neg some_]
  by_cases repeated : k ∈ comma_separated_headers
  · simp only [if_pos repeated]
    by_cases first : values = []
    · simp [first, joined_single]
    · rw [if_neg first, joined_concat]
      rfl
  · rw [if_neg repeated, if_neg repeated, List.getLast?_concat]

theorem Holds.store (holds : Holds hdict fields) (k v : Bytes) : Holds (CherryPy.store hdict k v) (fields ++ [(k, v)]) := by
  intro name
  rw [CherryPy.store, valuesOf, List.filter_append, List.map_append]
  by_cases same : name = k
  · subst same
    rw [if_pos rfl, holds name, folded_gathered]
    simp [valuesOf]
  · have other : ([(k, v)].filter fun field => field.1 = name) = [] := by simpa using Ne.symm same
    rw [if_neg same, holds name, other, List.map_nil, List.append_nil, valuesOf]

end Values

section Strip
variable {s t : Bytes}

/-- White space behind the text. -/
theorem strip_append (s : Bytes) (space : ∀ b ∈ t, isSpace b) : strip (s ++ t) = strip s := by
  have behind : t.dropWhile isSpace = [] := List.dropWhile_eq_nil_iff.mpr space
  rw [strip, strip, List.dropWhile_append]
  by_cases none : s.dropWhile isSpace = []
  · rw [if_pos (List.isEmpty_iff.mpr none), none, behind]
  · rw [if_neg (by simpa [List.isEmpty_iff] using none), List.reverse_append,
      List.dropWhile_append_of_pos fun b inside => space b (List.mem_reverse.mp inside)]

/-- White space in front of it. -/
theorem strip_cons {b : UInt8} (space : isSpace b) (s : Bytes) : strip (b :: s) = strip s := by
  rw [strip, List.dropWhile_cons_of_pos space, strip]

theorem strip_CRLF (v : Bytes) : strip (v ++ CRLF) = strip v := strip_append v isSpace_CRLF

end Strip

/-- The lines of a text are read one after another. -/
def ReadsLines {τ : Type} (readline : EStateM Raised τ Bytes) (At : Bytes → τ → Prop) : Prop :=
  ∀ {line rest : Bytes} {s : τ}, newline ∉ line → At (line ++ newline :: rest) s →
    ∃ s', readline s = .ok (line ++ [newline]) s' ∧ At rest s'

section Lines
variable {τ : Type} {readline : EStateM Raised τ Bytes} {At : Bytes → τ → Prop} {s : τ} {lines : List HeaderLine}
  {k : Option Bytes} {hdict : HDict} {fields : List (Bytes × Bytes)} {rest : Bytes} {fuel : Nat}

/-- The line is not the end of the headers, and it ends as it must. -/
theorem HeaderLine.render_line (line : HeaderLine) (formed : line.WellFormed) :
    ∃ front, line.render = front ++ [newline] ∧ newline ∉ front ∧ line.render ≠ [] ∧ line.render ≠ CRLF ∧
      CRLF <:+ line.render := by
  cases line with
  | field k v =>
    obtain ⟨inName, -, -, -, inValue⟩ := formed
    refine ⟨k ++ 58 :: v ++ [13], by simp [render, CRLF, newline], ?_, by simp [render], ?_, ⟨k ++ 58 :: v, by simp [render]⟩⟩
    · simp only [List.append_assoc, List.cons_append, List.mem_append, List.mem_cons, not_or]
      exact ⟨inName, by decide, inValue, by decide, List.not_mem_nil⟩
    · intro same
      have mem : (58 : UInt8) ∈ CRLF := same ▸ (by simp [render])
      exact absurd mem (by decide)
  | continuation tab v =>
    refine ⟨(if tab then 9 else 32) :: v ++ [13], by simp [render, CRLF, newline], ?_, by simp [render], ?_,
      ⟨(if tab then 9 else 32) :: v, by simp [render]⟩⟩
    · simp only [List.cons_append, List.mem_cons, List.mem_append, not_or]
      exact ⟨by cases tab <;> decide, formed, by decide, by simp⟩
    · cases tab <;> simp [render, CRLF]

theorem headerLine_field {name v : Bytes} (formed : (HeaderLine.field name v).WellFormed) (k : Option Bytes) :
    headerLine k (HeaderLine.field name v).render = .ok (title (strip name), strip v) := by
  obtain ⟨-, colon, space, tab, -⟩ := formed
  have first : (HeaderLine.field name v).render = name ++ 58 :: (v ++ CRLF) := by simp [HeaderLine.render]
  have start : ¬ ((name ++ 58 :: (v ++ CRLF)).head? = some 32 ∨ (name ++ 58 :: (v ++ CRLF)).head? = some 9) := by
    cases name with
    | nil => simp
    | cons b name => simpa using ⟨by simpa using space, by simpa using tab⟩
  have found : (name ++ 58 :: (v ++ CRLF)).idxOf? 58 = some name.length := by
    rw [List.idxOf?_eq_some_iff]
    refine ⟨by simp, by simp, fun j before => ?_⟩
    rw [List.getElem_append_left before]
    intro same
    exact colon (same ▸ List.getElem_mem before)
  rw [first]
  unfold headerLine
  rw [if_neg start, found]
  simp only [List.take_left]
  rw [show name ++ 58 :: (v ++ CRLF) = (name ++ [58]) ++ (v ++ CRLF) by simp, List.drop_left' (by simp), strip_CRLF]

theorem headerLine_continuation (tab : Bool) (v name : Bytes) :
    headerLine (some name) (HeaderLine.continuation tab v).render = .ok (name, strip v) := by
  have space : isSpace (if tab then 9 else 32) := by cases tab <;> decide
  have start : (HeaderLine.continuation tab v).render.head? = some 32 ∨ (HeaderLine.continuation tab v).render.head? = some 9 := by
    cases tab <;> simp [HeaderLine.render]
  rw [headerLine, if_pos start, HeaderLine.render, List.cons_append, strip_cons space, strip_CRLF]

theorem headerLoop_step {line : HeaderLine} (reads : ReadsLines readline At) (formed : line.WellFormed)
    (at_ : At (line.render ++ rest) s) {name v : Bytes} (pair : headerLine k line.render = .ok (name, v)) (fuel : Nat) :
    ∃ s', headerLoop readline (fuel + 1) k hdict s = headerLoop readline fuel (some name) (store hdict name v) s' ∧ At rest s' := by
  obtain ⟨front, ends, before, some_, goesOn, terminated⟩ := line.render_line formed
  rw [ends, List.append_assoc] at at_
  obtain ⟨s', run, at_'⟩ := reads before at_
  rw [← ends] at run
  refine ⟨s', ?_, at_'⟩
  rw [headerLoop, bind_of_ok run, if_neg some_, if_neg goesOn, if_neg (not_not.mpr terminated), pair]

/-- The lines, and the empty line behind them. -/
theorem headerLoop_reads (reads : ReadsLines readline At) (name : Bytes) (formed : ∀ line ∈ lines, line.WellFormed)
    (at_ : At (lines.flatMap HeaderLine.render ++ CRLF) s) (holds : Holds hdict fields) (enough : lines.length < fuel) :
    ∃ hdict' s', headerLoop readline fuel (some name) hdict s = .ok hdict' s' ∧
      Holds hdict' (fields ++ HeaderLine.named name lines) ∧ At [] s' := by
  induction lines generalizing name hdict fields s fuel with
  | nil =>
    obtain ⟨fuel, rfl⟩ := Nat.exists_eq_add_of_lt enough
    have at_₀ : At ([13] ++ newline :: []) s := at_
    obtain ⟨s', run, at_'⟩ := reads (by decide) at_₀
    have end_ : ([13] ++ [newline] : Bytes) = CRLF := rfl
    rw [end_] at run
    refine ⟨hdict, s', ?_, by simpa [HeaderLine.named] using holds, at_'⟩
    rw [headerLoop, bind_of_ok run, if_neg (by decide), if_pos rfl]
    rfl
  | cons line lines ih =>
    obtain ⟨fuel, rfl⟩ := Nat.exists_eq_succ_of_ne_zero (Nat.ne_of_gt (Nat.zero_lt_of_lt enough))
    have formed' : ∀ line ∈ lines, line.WellFormed := fun l inside => formed l (List.mem_cons_of_mem line inside)
    have own := formed line List.mem_cons_self
    have enough' : lines.length < fuel := Nat.lt_of_succ_lt_succ enough
    rw [List.flatMap_cons, List.append_assoc] at at_
    cases line with
    | field k v =>
      obtain ⟨s₁, step, at_₁⟩ := headerLoop_step reads own at_ (headerLine_field own (some name)) fuel
      obtain ⟨hdict', s', run, holds', at_'⟩ := ih (title (strip k)) formed' at_₁ (holds.store _ _) enough'
      refine ⟨hdict', s', step.trans run, ?_, at_'⟩
      rwa [List.append_assoc] at holds'
    | continuation tab v =>
      obtain ⟨s₁, step, at_₁⟩ := headerLoop_step reads own at_ (headerLine_continuation tab v name) fuel
      obtain ⟨hdict', s', run, holds', at_'⟩ := ih name formed' at_₁ (holds.store _ _) enough'
      refine ⟨hdict', s', step.trans run, ?_, at_'⟩
      rwa [List.append_assoc] at holds'

/-- What the lines give: every name has all its values. -/
def headersOf (lines : List HeaderLine) : HDict := fun name => gathered name (valuesOf name (HeaderLine.named [] lines))

/-- The first line does not go on with another one. -/
def Starts (lines : List HeaderLine) : Prop := ∀ tab v, lines.head? ≠ some (.continuation tab v)

theorem readHeaders_reads (reads : ReadsLines readline At) (formed : ∀ line ∈ lines, line.WellFormed) (starts : Starts lines)
    (at_ : At (lines.flatMap HeaderLine.render ++ CRLF) s) (enough : lines.length < fuel) :
    ∃ s', readHeaders readline fuel (fun _ => none) s = .ok (headersOf lines) s' ∧ At [] s' := by
  have holds : Holds (fun _ => none) [] := fun _ => rfl
  obtain ⟨fuel, rfl⟩ := Nat.exists_eq_succ_of_ne_zero (Nat.ne_of_gt (Nat.zero_lt_of_lt enough))
  cases lines with
  | nil =>
    have at_₀ : At ([13] ++ newline :: []) s := at_
    obtain ⟨s', run, at_'⟩ := reads (by decide) at_₀
    have end_ : ([13] ++ [newline] : Bytes) = CRLF := rfl
    rw [end_] at run
    refine ⟨s', ?_, at_'⟩
    rw [readHeaders, headerLoop, bind_of_ok run, if_neg (by decide), if_pos rfl]
    rfl
  | cons line lines =>
    cases line with
    | continuation tab v => exact absurd rfl (starts tab v)
    | field k v =>
      have own := formed (.field k v) List.mem_cons_self
      have formed' : ∀ line ∈ lines, line.WellFormed := fun l inside => formed l (List.mem_cons_of_mem _ inside)
      rw [List.flatMap_cons, List.append_assoc] at at_
      obtain ⟨s₁, step, at_₁⟩ := headerLoop_step reads own at_ (headerLine_field own none) fuel
      obtain ⟨hdict', s', run, holds', at_'⟩ :=
        headerLoop_reads reads (title (strip k)) formed' at_₁ (holds.store _ _) (Nat.lt_of_succ_lt_succ enough)
      have same : hdict' = headersOf (.field k v :: lines) := funext fun name => holds' name
      exact ⟨s', same ▸ step.trans run, at_'⟩

end Lines

section Connection
variable {σ : Type} {rfile : FileReader Raised σ UInt8} {left : σ → Bytes} {Good : σ → Prop} {fuel : Nat} {rest : Bytes}

/-- The text `H` is still to come within the limit, and `rest` behind it. -/
structure LinesAt (left : σ → Bytes) (Good : σ → Prop) (rest : Bytes) (fuel : Nat) (H : Bytes) (w : Wrapped σ SizeCheck) : Prop where
  good : Good w.rfile
  stream : left w.rfile = H ++ rest
  within : w.own.maxlen = 0 ∨ w.own.bytes_read + H.length ≤ w.own.maxlen
  enough : H.length < fuel

theorem sizeCheckReadline_readsLines (reads : rfile.Reads newline left Good) :
    ReadsLines (sizeCheckReadline rfile fuel none) (LinesAt left Good rest fuel) := by
  intro line H w before at_
  have first : firstLine newline (left w.rfile) = line ++ [newline] := by
    rw [at_.stream, List.append_assoc, List.cons_append, firstLine_line before]
  have long : (line ++ newline :: H).length = (line ++ [newline]).length + H.length := by simp; omega
  have within := at_.within
  have enough := at_.enough
  rw [long] at within enough
  have read : LineRead left Good w [] (firstLine newline (left w.rfile)) (pieceLoop rfile fuel [] w) :=
    pieceLoop_reads reads at_.good (by omega) [] (by rw [first]; omega)
  rw [first] at read
  rcases read with ⟨w', run, -, stream, good, counted⟩ | ⟨w', r, run, limited, exceeded, -⟩
  · refine ⟨w', run, good, ?_, ?_, by omega⟩
    · have both : (line ++ [newline]) ++ (H ++ rest) = (line ++ [newline]) ++ left w'.rfile := by
        rw [← stream, at_.stream]
        simp
      exact (List.append_cancel_left both).symm
    · rw [counted]
      show w.own.maxlen = 0 ∨ w.own.bytes_read + (line ++ [newline]).length + H.length ≤ w.own.maxlen
      omega
  · omega

/-- There are no more lines than bytes. -/
theorem length_le_render (lines : List HeaderLine) : lines.length ≤ (lines.flatMap HeaderLine.render ++ CRLF).length := by
  induction lines with
  | nil => exact Nat.zero_le _
  | cons line lines ih =>
    have some_ : 1 ≤ line.render.length := by
      cases line
      · simp only [HeaderLine.render, List.length_append, List.length_cons]
        omega
      · simp only [HeaderLine.render, List.length_append, List.length_cons]
        omega
    simp only [List.flatMap_cons, List.length_append, List.length_cons] at ih ⊢
    omega

/-- Nothing is read at the end of the connection. -/
theorem sizeCheckReadline_end (reads : rfile.Reads newline left Good) {w : Wrapped σ SizeCheck} (at_ : LinesAt left Good [] fuel [] w) :
    ∃ w', sizeCheckReadline rfile fuel none w = .ok [] w' ∧ LinesAt left Good [] fuel [] w' := by
  have empty : firstLine newline (left w.rfile) = [] := by rw [at_.stream]; rfl
  have read : LineRead left Good w [] (firstLine newline (left w.rfile)) (pieceLoop rfile fuel [] w) :=
    pieceLoop_reads reads at_.good at_.within [] (by rw [empty]; exact at_.enough)
  rw [empty] at read
  have within := at_.within
  rcases read with ⟨w', run, -, stream, good, counted⟩ | ⟨w', r, run, limited, exceeded, -⟩
  · refine ⟨w', run, good, stream.symm.trans at_.stream, ?_, at_.enough⟩
    rw [counted]
    exact within
  · simp only [List.length_nil] at within exceeded
    omega

variable {S : Settings} {f : FileObject} {lines : List HeaderLine}

/-- The headers of a message are read as they were written, in whatever pieces they arrive: every name with the
last of its values, or with all of them if it may be repeated, and the connection stands behind the empty line. -/
theorem read_headers_render (received : 1 ≤ S.rbufsize) (received' : 1 ≤ S.default_bufsize) {calls : Nat}
    (ready : Ready S calls f) (formed : ∀ line ∈ lines, line.WellFormed) (starts : Starts lines)
    (stream : f.stream = lines.flatMap HeaderLine.render ++ CRLF ++ rest) (own : SizeCheck)
    (within : own.maxlen = 0 ∨ own.bytes_read + (lines.flatMap HeaderLine.render ++ CRLF).length ≤ own.maxlen)
    (enough : (lines.flatMap HeaderLine.render ++ CRLF).length < fuel) :
    ∃ w', readHeaders (sizeCheckReadline (fileObject S calls) fuel none) fuel (fun _ => none) ⟨f, own⟩ =
      .ok (headersOf lines) w' ∧ w'.rfile.stream = rest := by
  have reads : (fileObject S calls).Reads newline FileObject.stream (Ready S calls) := fileObject_reads received received'
  have few : lines.length < fuel := Nat.lt_of_le_of_lt (length_le_render lines) enough
  obtain ⟨w', run, at_'⟩ := readHeaders_reads (sizeCheckReadline_readsLines reads) formed starts
    (s := ⟨f, own⟩) ⟨ready, stream, within, enough⟩ few
  exact ⟨w', run, at_'.stream⟩

/-- Four headers, one of them on two lines, in two pieces. -/
def twoLines : FileObject where
  rbuf := []
  sock := [.data 86 (ascii "ia:b\r\n c\r"), .data 10 (ascii "via: d\r\nA:x\r\na:y\r\n\r\nd")]
  bytes_read := 0

/-- `Via` may be repeated, and has all its values; `A` has the last. -/
theorem read_headers_render_two : ∃ hdict w',
    readHeaders (sizeCheckReadline (fileObject (threeBytes true) 40) 40 none) 40 (fun _ => none) ⟨twoLines, ⟨33, 0⟩⟩ =
      .ok hdict w' ∧
    hdict (ascii "Via") = some (ascii "b, c, d") ∧ hdict (ascii "A") = some (ascii "y") ∧ w'.rfile.stream = ascii "d" := by
  have ready : Ready (threeBytes true) 40 twoLines :=
    ⟨fun e inside => by simp [twoLines] at inside, fun _ => rfl, by decide⟩
  let lines : List HeaderLine := [.field (ascii "Via") (ascii "b"), .continuation false (ascii "c"),
    .field (ascii "via") (ascii " d"), .field (ascii "A") (ascii "x"), .field (ascii "a") (ascii "y")]
  have stream : twoLines.stream = lines.flatMap HeaderLine.render ++ CRLF ++ ascii "d" := by decide
  have enough : (lines.flatMap HeaderLine.render ++ CRLF).length < 40 := by decide
  obtain ⟨w', run, behind⟩ := read_headers_render (by decide) (by decide) ready (by decide) (by simp [lines, Starts]) stream
    ⟨33, 0⟩ (by decide) enough
  exact ⟨_, w', run, by decide, by decide, behind⟩

end Connection

end CodeClips.CherryPy
