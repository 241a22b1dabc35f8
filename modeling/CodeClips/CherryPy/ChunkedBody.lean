import CodeClips.CherryPy.KnownLength
import Mathlib.Data.List.TakeWhile

/-!
# A body in chunks

The chunks that the server's own `write` sends are read back by `ChunkedRFile`, through any file, with
any sizes. Only a read with a size takes the bytes out of the buffer: without one `read` and
`readline` put the same bytes to the result again and again, and a `readline` stops at a newline
that it never takes.
-/

namespace CodeClips.CherryPy
open Wrapped

section Numbers

def hexByte (d : Nat) : UInt8 := UInt8.ofNat (Nat.digitChar d).toNat

theorem hexByte_spec : ∀ d < 16, hexValue (hexByte d) = some d ∧ isSpace (hexByte d) = false ∧
    hexByte d ∉ [10, 13, 43, 45, 59, 88, 120] := by decide

theorem hex_small {n : Nat} (small : n < 16) : hex n = [hexByte n] := by
  rw [hex, Nat.toDigits_of_lt_base small]
  rfl

theorem hex_large {n : Nat} (large : 16 ≤ n) : hex n = hex (n / 16) ++ [hexByte (n % 16)] := by
  rw [hex, Nat.toDigits_of_base_le (by decide) large, List.map_append]
  rfl

theorem mem_hex {n : Nat} {b : UInt8} (inside : b ∈ hex n) : ∃ d < 16, b = hexByte d := by
  induction n using Nat.strong_induction_on with
  | _ n ih =>
    rcases Nat.lt_or_ge n 16 with small | large
    · rw [hex_small small] at inside
      exact ⟨n, small, List.mem_singleton.mp inside⟩
    · rw [hex_large large] at inside
      rcases List.mem_append.mp inside with front | last
      · exact ih (n / 16) (by omega) front
      · exact ⟨n % 16, Nat.mod_lt n (by decide), List.mem_singleton.mp last⟩

theorem hex_ne_nil (n : Nat) : hex n ≠ [] := by
  rw [hex]
  simp [Nat.toDigits_ne_nil]

theorem hexNumber_hex (n : Nat) : hexNumber (hex n) = some n := by
  rw [hexNumber, if_neg (hex_ne_nil n)]
  induction n using Nat.strong_induction_on with
  | _ n ih =>
    rcases Nat.lt_or_ge n 16 with small | large
    · rw [hex_small small, List.foldlM_cons, (hexByte_spec n small).1]
      simp
    · have front := ih (n / 16) (by omega)
      have whole : 16 * (n / 16) + n % 16 = n := Nat.div_add_mod n 16
      rw [hex_large large, List.foldlM_append, front, Option.bind_eq_bind, Option.bind_some, List.foldlM_cons,
        (hexByte_spec _ (Nat.mod_lt n (by decide))).1]
      simp [whole]

/-- What has no white space at its ends stays. -/
theorem strip_of_not_space {s t : Bytes} (bare : ∀ b ∈ s, isSpace b = false) (some_ : s ≠ []) (space : ∀ b ∈ t, isSpace b) :
    strip (s ++ t) = s := by
  have first : (s ++ t).dropWhile isSpace = s ++ t := by
    cases s with
    | nil => exact absurd rfl some_
    | cons b s =>
      have head := bare b List.mem_cons_self
      rw [List.cons_append, List.dropWhile_cons_of_neg (by simp [head])]
  have last : (t.reverse ++ s.reverse).dropWhile isSpace = s.reverse := by
    rw [List.dropWhile_append_of_pos fun b inside => space b (List.mem_reverse.mp inside)]
    cases turned : s.reverse with
    | nil => rfl
    | cons b s' =>
      have head : isSpace b = false := bare b (List.mem_reverse.mp (turned ▸ List.mem_cons_self))
      rw [List.dropWhile_cons_of_neg (by simp [head])]
  rw [strip, first, List.reverse_append, last, List.reverse_reverse]

theorem intBase16_hex (n : Nat) : intBase16 (hex n) = some (n : Int) := by
  have bare : ∀ b ∈ hex n, isSpace b = false := by
    intro b inside
    obtain ⟨d, small, rfl⟩ := mem_hex inside
    exact (hexByte_spec d small).2.1
  have whole : strip (hex n) = hex n := by
    have trimmed := strip_of_not_space bare (hex_ne_nil n) (t := []) (by simp)
    rwa [List.append_nil] at trimmed
  have digit : ∀ b ∈ hex n, b ∉ [10, 13, 43, 45, 59, 88, 120] := by
    intro b inside
    obtain ⟨d, small, rfl⟩ := mem_hex inside
    exact (hexByte_spec d small).2.2
  have plain : withoutPrefix (hex n) = hex n := by
    rw [withoutPrefix, if_neg]
    rintro ⟨-, second | second⟩
    · exact digit 120 (List.mem_of_getElem? second) (by decide)
    · exact digit 88 (List.mem_of_getElem? second) (by decide)
  rw [intBase16, whole]
  split
  · next t same => exact absurd (digit 45 (same ▸ List.mem_cons_self)) (by decide)
  · next t same => exact absurd (digit 43 (same ▸ List.mem_cons_self)) (by decide)
  · rw [plain, hexNumber_hex]
    rfl

/-- The line of a size, as it is sent. -/
theorem sizeLine_hex (n : Nat) (rest : Bytes) :
    firstLine newline (hex n ++ CRLF ++ rest) = hex n ++ CRLF ∧
      (strip (hex n ++ CRLF)).takeWhile (· ≠ 59) = hex n := by
  have digit : ∀ b ∈ hex n, isSpace b = false ∧ b ∉ [10, 13, 43, 45, 59, 88, 120] := by
    intro b inside
    obtain ⟨d, small, rfl⟩ := mem_hex inside
    exact (hexByte_spec d small).2
  constructor
  · have outside : newline ∉ hex n ++ [13] := by
      intro inside
      rcases List.mem_append.mp inside with front | last
      · exact (digit newline front).2 (by decide)
      · exact absurd last (by decide)
    have line := firstLine_line outside rest
    rw [newline] at line
    simpa [CRLF, newline] using line
  · rw [strip_of_not_space (fun b inside => (digit b inside).1) (hex_ne_nil n) isSpace_CRLF]
    refine List.takeWhile_eq_self_iff.mpr fun b inside => ?_
    have other : b ≠ 59 := by
      rintro rfl
      exact (digit 59 inside).2 (by decide)
    simpa using other

end Numbers

section Fetch
variable {σ : Type} {rfile : FileReader Raised σ UInt8} {left : σ → Bytes} {Good : σ → Prop} {w : Wrapped σ Chunked}
  {chunks : List Bytes} {body rest : Bytes}

/-- The length that is left under the limit, if there is one. -/
def Fits (own : Chunked) (n : Nat) : Prop := own.maxlen = 0 ∨ own.bytes_read + n ≤ own.maxlen

/-- `body` is still to come: in the buffer and in the chunks, or there is none and the last chunk has been read. -/
structure Ahead (left : σ → Bytes) (Good : σ → Prop) (rest : Bytes) (w : Wrapped σ Chunked) (body : Bytes) : Prop where
  good : Good w.rfile
  chunks : w.own.closed = false → ∃ chunks, (∀ c ∈ chunks, c ≠ []) ∧ left w.rfile = writeChunks chunks ++ rest ∧
    body = w.own.buffer ++ chunks.flatten ∧ Fits w.own (writeChunks chunks).length
  closed : w.own.closed = true → w.own.buffer = [] ∧ body = [] ∧ left w.rfile = CRLF ++ rest ∧ Fits w.own 2

theorem Ahead.split (ahead : Ahead left Good rest w body) : ∃ more, body = w.own.buffer ++ more := by
  cases closed : w.own.closed with
  | false =>
    obtain ⟨chunks, -, -, whole, -⟩ := ahead.chunks closed
    exact ⟨chunks.flatten, whole⟩
  | true =>
    obtain ⟨empty, none, -⟩ := ahead.closed closed
    exact ⟨[], by rw [empty, none]; rfl⟩

theorem Ahead.empty (ahead : Ahead left Good rest w body) (none : body = []) : w.own.buffer = [] := by
  obtain ⟨more, whole⟩ := ahead.split
  exact (List.append_eq_nil_iff.mp (whole.symm.trans none)).1

/-- Bytes are taken out of the buffer. -/
theorem Ahead.taken (ahead : Ahead left Good rest w body) (n : Nat) :
    Ahead left Good rest { w with own := { w.own with buffer := w.own.buffer.drop n } } (body.drop (w.own.buffer.take n).length) where
  good := ahead.good
  chunks opened := by
    obtain ⟨chunks, nonempty, stream, whole, fits⟩ := ahead.chunks opened
    refine ⟨chunks, nonempty, stream, ?_, fits⟩
    have pieces : w.own.buffer ++ chunks.flatten = w.own.buffer.take n ++ (w.own.buffer.drop n ++ chunks.flatten) := by
      rw [← List.append_assoc, List.take_append_drop]
    rw [whole, pieces, List.drop_left]
  closed closed' := by
    obtain ⟨empty, none, stream, fits⟩ := ahead.closed closed'
    refine ⟨?_, ?_, stream, fits⟩
    · show w.own.buffer.drop n = []
      rw [empty, List.drop_nil]
    · rw [none, List.drop_nil]

theorem takeBuffer_bind {α : Type} (n : Nat) (k : Bytes → EStateM Raised (Wrapped σ Chunked) α) :
    (takeBuffer n >>= k) w =
      k (w.own.buffer.take n) { w with own := { w.own with buffer := w.own.buffer.drop n } } := rfl

theorem writeChunks_cons {c : Bytes} (some_ : c ≠ []) (chunks : List Bytes) :
    writeChunks (c :: chunks) = hex c.length ++ CRLF ++ (c ++ (CRLF ++ writeChunks chunks)) := by
  simp [writeChunks, writeChunk, some_]

/-- No chunk is sent for the empty one. -/
theorem exists_nonempty (chunks : List Bytes) : ∃ some_ : List Bytes, (∀ c ∈ some_, c ≠ []) ∧
    writeChunks some_ = writeChunks chunks ∧ some_.flatten = chunks.flatten := by
  induction chunks with
  | nil => exact ⟨[], fun _ inside => absurd inside List.not_mem_nil, rfl, rfl⟩
  | cons c chunks ih =>
    obtain ⟨some_, nonempty, written, text⟩ := ih
    by_cases empty : c = []
    · subst empty
      exact ⟨some_, nonempty, written, text⟩
    · refine ⟨c :: some_, List.forall_mem_cons.mpr ⟨empty, nonempty⟩, ?_, ?_⟩
      · rw [writeChunks_cons empty, writeChunks_cons empty, written]
      · rw [List.flatten_cons, List.flatten_cons, text]

theorem writeChunks_nil : writeChunks [] = hex 0 ++ CRLF ++ CRLF := by decide

/-- What is taken, and what the loop gives after it. -/
theorem Ahead.pieces (ahead : Ahead left Good rest w body) {k n : Nat} (within : k ≤ n) :
    w.own.buffer.take k ++ (body.drop (w.own.buffer.take k).length).take (n - (w.own.buffer.take k).length) = body.take n ∧
      (body.drop (w.own.buffer.take k).length).drop (n - (w.own.buffer.take k).length) = body.drop n := by
  obtain ⟨more, whole⟩ := ahead.split
  have pieces : body = w.own.buffer.take k ++ (w.own.buffer.drop k ++ more) := by
    rw [whole, ← List.append_assoc, List.take_append_drop]
  have short : (w.own.buffer.take k).length ≤ n := (List.length_take_le _ _).trans within
  constructor
  · conv_rhs => rw [pieces, List.take_append, List.take_of_length_le short]
    rw [pieces, List.drop_left]
  · rw [List.drop_drop, Nat.add_sub_of_le short]

variable (reads : rfile.Reads newline left Good)
include reads

/-- The line of a size is read. -/
theorem readline_size {s : σ} (good : Good s) {n : Nat} {t : Bytes} (stream : left s = hex n ++ CRLF ++ t) :
    ∃ s', rfile.readline (-1) s = .ok (hex n ++ CRLF) s' ∧ left s' = t ∧ Good s' := by
  obtain ⟨s', line, behind, good'⟩ := reads.readline good (-1)
  have read : lineUpTo newline (-1) (left s) = hex n ++ CRLF := by
    rw [stream]
    exact (sizeLine_hex n t).1
  rw [read] at line behind
  exact ⟨s', line, (List.append_cancel_left (stream.symm.trans behind)).symm, good'⟩

/-- So many bytes are read. -/
theorem read_bytes {s : σ} (good : Good s) {c t : Bytes} (stream : left s = c ++ t) :
    ∃ s', rfile.read c.length s = .ok c s' ∧ left s' = t ∧ Good s' := by
  obtain ⟨s', data, behind, good'⟩ := reads.read good c.length
  have read : upTo (c.length : Int) (left s) = c := by rw [upTo_nat, stream, List.take_left]
  rw [read] at data behind
  exact ⟨s', data, (List.append_cancel_left (stream.symm.trans behind)).symm, good'⟩

/-- The next chunk is put into the empty buffer, or there is none. -/
theorem fetch_ahead (ahead : Ahead left Good rest w body) (empty : w.own.buffer = []) :
    ∃ w', fetch rfile w = .ok () w' ∧ Ahead left Good rest w' body ∧ (w'.own.buffer = [] → w'.own.closed = true) := by
  rw [fetch, getOwn_bind]
  by_cases closed : w.own.closed
  · rw [if_pos closed]
    exact ⟨w, rfl, ahead, fun _ => closed⟩
  rw [if_neg closed]
  obtain ⟨chunks, nonempty, stream, whole, fits⟩ := ahead.chunks (by simpa using closed)
  cases chunks with
  | nil =>
    rw [writeChunks_nil, List.append_assoc] at stream
    obtain ⟨s₁, line, behind, good₁⟩ := readline_size reads ahead.good stream
    have within : ¬ (w.own.maxlen ≠ 0 ∧ w.own.maxlen < w.own.bytes_read + (hex 0 ++ CRLF).length) := by
      have length : (writeChunks []).length = 5 := by decide
      have short : (hex 0 ++ CRLF).length = 3 := by decide
      rw [Fits, length] at fits
      omega
    rw [bind_of_ok (inner_ok line), setOwn_bind, counted, if_neg within, (sizeLine_hex 0 []).2, intBase16_hex]
    refine ⟨_, rfl, ⟨good₁, fun opened => ?_, fun _ => ⟨empty, ?_, behind, ?_⟩⟩, fun _ => ?_⟩
    · cases opened
    · rw [whole, empty]
      rfl
    · have length : (writeChunks []).length = 5 := by decide
      have short : (hex 0 ++ CRLF).length = 3 := by decide
      rw [Fits, length] at fits
      rw [Fits]
      show w.own.maxlen = 0 ∨ w.own.bytes_read + (hex 0 ++ CRLF).length + 2 ≤ w.own.maxlen
      omega
    · rfl
  | cons c chunks =>
    have some_ : c ≠ [] := nonempty c List.mem_cons_self
    have stream' : left w.rfile = hex c.length ++ CRLF ++ (c ++ (CRLF ++ (writeChunks chunks ++ rest))) := by
      rw [stream, writeChunks_cons some_]
      simp only [List.append_assoc]
    have length : (writeChunks (c :: chunks)).length =
        (hex c.length ++ CRLF).length + (c.length + 2 + (writeChunks chunks).length) := by
      rw [writeChunks_cons some_]
      simp only [List.length_append, CRLF, List.length_cons, List.length_nil]
      omega
    have long : 0 < c.length := List.length_pos_of_ne_nil some_
    obtain ⟨s₁, line, behind, good₁⟩ := readline_size reads ahead.good stream'
    obtain ⟨s₂, chunk, behind₂, good₂⟩ := read_bytes reads good₁ behind
    obtain ⟨s₃, crlf, behind₃, good₃⟩ := read_bytes reads good₂ behind₂
    rw [Fits, length] at fits
    have within : ¬ (w.own.maxlen ≠ 0 ∧ w.own.maxlen < w.own.bytes_read + (hex c.length ++ CRLF).length) := by omega
    have positive : ¬ ((c.length : Int) ≤ 0) := by omega
    have within' : ¬ (w.own.maxlen ≠ 0 ∧
        (w.own.maxlen : Int) < (w.own.bytes_read + (hex c.length ++ CRLF).length : Nat) + (c.length : Int)) := by omega
    have crlf' : rfile.read 2 s₂ = .ok CRLF s₃ := crlf
    rw [bind_of_ok (inner_ok line), setOwn_bind, counted, if_neg within, (sizeLine_hex c.length []).2, intBase16_hex]
    simp only [if_neg positive, if_neg within']
    rw [bind_of_ok (inner_ok chunk), setOwn_bind, bind_of_ok (inner_ok crlf'), if_neg (not_not_intro rfl)]
    refine ⟨_, rfl, ⟨good₃, fun _ => ⟨chunks, fun c inside => nonempty c (List.mem_cons_of_mem _ inside), behind₃, ?_, ?_⟩,
      fun closed' => absurd closed' closed⟩, fun none => ?_⟩
    · rw [whole, List.flatten_cons, List.append_assoc]
    · rw [Fits]
      show w.own.maxlen = 0 ∨ w.own.bytes_read + (hex c.length ++ CRLF).length + c.length + (writeChunks chunks).length ≤
        w.own.maxlen
      omega
    · exact absurd (List.append_eq_nil_iff.mp none).2 some_

/-- Before the bytes are taken the buffer is filled. -/
theorem fill_ahead (ahead : Ahead left Good rest w body) :
    ∃ w', fill rfile w = .ok () w' ∧ Ahead left Good rest w' body ∧ (w'.own.buffer = [] → w'.own.closed = true) := by
  rw [fill, getOwn_bind]
  by_cases empty : w.own.buffer = []
  · rw [if_pos empty]
    exact fetch_ahead reads ahead empty
  · rw [if_neg empty]
    exact ⟨w, rfl, ahead, fun none => absurd none empty⟩

/-- The loop of `read` with a size. -/
theorem chunkedReadLoop_ahead {size fuel : Nat} (data : Bytes) (some_ : 1 ≤ size) (less : data.length ≤ size)
    (more : size - data.length < fuel) (ahead : Ahead left Good rest w body) :
    ∃ w', chunkedReadLoop rfile (some (size : Int)) fuel data w = .ok (data ++ body.take (size - data.length)) w' ∧
      Ahead left Good rest w' (body.drop (size - data.length)) := by
  induction fuel generalizing data w body with
  | zero => omega
  | succ fuel ih =>
    have size' : wanted (some (size : Int)) = some (size : Int) := by
      rw [wanted, if_neg (by omega)]
    rw [chunkedReadLoop, enough, size']
    by_cases full : size ≤ data.length
    · have none : size - data.length = 0 := by omega
      rw [if_pos (by simpa using full), none, List.take_zero, List.append_nil, List.drop_zero]
      exact ⟨w, rfl, ahead⟩
    · obtain ⟨w₁, filled, ahead₁, ended⟩ := fill_ahead reads ahead
      rw [if_neg (by simpa using full), bind_of_ok filled, getOwn_bind]
      by_cases empty : w₁.own.buffer = []
      · obtain ⟨-, none, -⟩ := ahead₁.closed (ended empty)
        subst none
        rw [if_pos empty, List.take_nil, List.append_nil, List.drop_nil]
        exact ⟨w₁, rfl, ahead₁⟩
      · have wish : ((size : Int) - data.length).toNat = size - data.length := by omega
        have long := List.length_pos_of_ne_nil empty
        have length : (w₁.own.buffer.take (size - data.length)).length = min (size - data.length) w₁.own.buffer.length :=
          List.length_take
        obtain ⟨all, behind⟩ := ahead₁.pieces (Nat.le_refl (size - data.length))
        have both : size - (data ++ w₁.own.buffer.take (size - data.length)).length =
            size - data.length - (w₁.own.buffer.take (size - data.length)).length := by
          rw [List.length_append, Nat.sub_add_eq]
        obtain ⟨w', run, ahead'⟩ := ih (data ++ w₁.own.buffer.take (size - data.length))
          (by rw [List.length_append]; omega) (by rw [List.length_append]; omega) (ahead₁.taken (size - data.length))
        rw [both] at run ahead'
        rw [List.append_assoc, all] at run
        rw [behind] at ahead'
        simp only [if_neg empty, takeBuffer_bind, wish]
        exact ⟨w', run, ahead'⟩

theorem chunkedRead_ahead {size fuel : Nat} (some_ : 1 ≤ size) (more : size < fuel) (ahead : Ahead left Good rest w body) :
    ∃ w', chunkedRead rfile fuel (some (size : Int)) w = .ok (body.take size) w' ∧
      Ahead left Good rest w' (body.drop size) :=
  chunkedReadLoop_ahead reads [] some_ (Nat.zero_le _) more ahead

/-- Once the body has been read, the next read finds the last chunk. -/
theorem chunkedRead_end {fuel : Nat} (more : 1 < fuel) (ahead : Ahead left Good rest w []) :
    ∃ w', chunkedRead rfile fuel (some 1) w = .ok [] w' ∧ Ahead left Good rest w' [] ∧ w'.own.closed = true := by
  obtain ⟨fuel, rfl⟩ := Nat.exists_eq_add_of_lt more
  obtain ⟨w', filled, ahead', ended⟩ := fill_ahead reads ahead
  have empty := ahead'.empty rfl
  refine ⟨w', ?_, ahead', ended empty⟩
  rw [chunkedRead, chunkedReadLoop, if_neg (by decide), bind_of_ok filled, getOwn_bind, if_pos empty]
  rfl

/-- There are no trailers behind the last chunk. -/
theorem readTrailerLines_end {fuel : Nat} (more : 0 < fuel) (ahead : Ahead left Good rest w body) (closed : w.own.closed = true) :
    ∃ w', readTrailerLines rfile fuel w = .ok [] w' ∧ left w'.rfile = rest := by
  obtain ⟨fuel, rfl⟩ := Nat.exists_eq_add_one_of_ne_zero (Nat.ne_of_gt more)
  obtain ⟨-, -, stream, fits⟩ := ahead.closed closed
  obtain ⟨s', line, behind, -⟩ := reads.readline ahead.good (-1)
  have read : lineUpTo newline (-1) (left w.rfile) = CRLF := by
    rw [stream]
    exact firstLine_line (s := [13]) (by decide) rest
  rw [read] at line behind
  have within : ¬ (w.own.maxlen ≠ 0 ∧ w.own.maxlen < w.own.bytes_read + CRLF.length) := by
    have length : CRLF.length = 2 := rfl
    rw [Fits] at fits
    omega
  refine ⟨{ rfile := s', own := counted w.own CRLF.length }, ?_, (List.append_cancel_left (stream.symm.trans behind)).symm⟩
  rw [readTrailerLines, getOwn_bind, if_pos closed, trailerLoop, bind_of_ok (inner_ok line), if_neg (by decide), getOwn_bind,
    setOwn_bind, counted, if_neg within, if_pos rfl]
  rfl

end Fetch

section Sizes
variable {σ : Type} (rfile : FileReader Raised σ UInt8)

def readSizes (fuel : Nat) : List Nat → EStateM Raised (Wrapped σ Chunked) (List Bytes)
  | [] => pure []
  | size :: sizes => do
    let r ← chunkedRead rfile fuel (some (size : Int))
    let rs ← readSizes fuel sizes
    pure (r :: rs)

variable {rfile} {left : σ → Bytes} {Good : σ → Prop} {w : Wrapped σ Chunked} {body rest : Bytes}

theorem readSizes_ahead (reads : rfile.Reads newline left Good) {fuel : Nat} {sizes : List Nat}
    (some_ : ∀ size ∈ sizes, 1 ≤ size ∧ size < fuel) (ahead : Ahead left Good rest w body) :
    ∃ w', readSizes rfile fuel sizes w = .ok (servings (sizes.map fun size : Nat => .read size) body).1 w' ∧
      Ahead left Good rest w' (servings (sizes.map fun size : Nat => .read size) body).2 := by
  induction sizes generalizing w body with
  | nil => exact ⟨w, rfl, ahead⟩
  | cons size sizes ih =>
    obtain ⟨here, later⟩ := List.forall_mem_cons.mp some_
    obtain ⟨w₁, run, ahead₁⟩ := chunkedRead_ahead reads here.1 here.2 ahead
    obtain ⟨w', runs, ahead'⟩ := ih later ahead₁
    have drop : body.drop (upTo (size : Int) body).length = body.drop size := by
      rw [upTo_nat, List.length_take]
      rcases Nat.le_total size body.length with long | short
      · rw [Nat.min_eq_left long]
      · rw [Nat.min_eq_right short, List.drop_length, List.drop_of_length_le short]
    rw [List.map_cons, servings, drop, upTo_nat]
    refine ⟨w', ?_, ahead'⟩
    rw [readSizes, bind_of_ok run, bind_of_ok runs]
    rfl

end Sizes

variable {S : Settings} {f : FileObject} {fuel : Nat}

/-- The body of a request, before it has been read. -/
theorem chunked_start (ready : Ready S fuel f) {chunks : List Bytes} {rest : Bytes}
    (stream : f.stream = writeChunks chunks ++ rest) {maxlen : Nat} (fits : maxlen = 0 ∨ (writeChunks chunks).length ≤ maxlen) :
    Ahead FileObject.stream (Ready S fuel) rest ⟨f, ⟨maxlen, 0, [], false⟩⟩ chunks.flatten := by
  obtain ⟨some_chunks, nonempty, written, text⟩ := exists_nonempty chunks
  refine ⟨ready, fun _ => ⟨some_chunks, nonempty, ?_, text.symm, ?_⟩, fun closed => by cases closed⟩
  · rw [written]
    exact stream
  · rw [written, Fits, Nat.zero_add]
    exact fits

/-- The body that the server's `write` sends in chunks is read back from the connection, with any sizes; when it
has been read, there are no trailers, and the connection stands behind the last chunk. -/
theorem chunked_round_trip (received : 1 ≤ S.rbufsize) (received' : 1 ≤ S.default_bufsize) (ready : Ready S fuel f)
    {chunks : List Bytes} {rest : Bytes} (stream : f.stream = writeChunks chunks ++ rest) {maxlen : Nat}
    (fits : maxlen = 0 ∨ (writeChunks chunks).length ≤ maxlen) {turns : Nat} {sizes : List Nat}
    (some_ : ∀ size ∈ sizes, 1 ≤ size ∧ size < turns) (more : 1 < turns) :
    ∃ w, readSizes (fileObject S fuel) turns sizes ⟨f, ⟨maxlen, 0, [], false⟩⟩ =
        .ok (servings (sizes.map fun size : Nat => .read size) chunks.flatten).1 w ∧
      ((servings (sizes.map fun size : Nat => .read size) chunks.flatten).2 = [] → ∃ w' w'',
        chunkedRead (fileObject S fuel) turns (some 1) w = .ok [] w' ∧
        readTrailerLines (fileObject S fuel) turns w' = .ok [] w'' ∧ w''.rfile.stream = rest) := by
  have reads : (fileObject S fuel).Reads newline FileObject.stream (Ready S fuel) := fileObject_reads received received'
  obtain ⟨w, run, ahead⟩ := readSizes_ahead reads some_ (chunked_start ready stream fits)
  refine ⟨w, run, fun ended => ?_⟩
  rw [ended] at ahead
  obtain ⟨w', last, ahead', closed⟩ := chunkedRead_end reads more ahead
  obtain ⟨w'', trailers, behind⟩ := readTrailerLines_end reads (Nat.lt_of_succ_lt more) ahead' closed
  exact ⟨w', w'', last, trailers, behind⟩

/-- `"ab\n"` in a chunk of two bytes and one of one, read from pieces of its encoding. -/
def chunkedPieces : FileObject where
  rbuf := []
  sock := [.data 50 [13, 10, 97], .error (.number 11), .data 98 [13, 10, 49, 13, 10, 10, 13], .data 10 [48, 13, 10, 13, 10, 71]]
  bytes_read := 0

theorem chunkedPieces_ready (strType : Bool) : Ready (threeBytes strType) 20 chunkedPieces where
  calm e inside := by
    simp only [chunkedPieces, List.mem_cons, Arrival.error.injEq, reduceCtorEq, List.not_mem_nil, false_or, or_false] at inside
    subst inside
    exact .inl List.mem_cons_self
  unbuffered _ := rfl
  enough := by decide

theorem chunked_round_trip_two : ∃ w w' w'',
    readSizes (fileObject (threeBytes false) 20) 5 [1, 4] ⟨chunkedPieces, ⟨0, 0, [], false⟩⟩ = .ok [[97], [98, 10]] w ∧
      chunkedRead (fileObject (threeBytes false) 20) 5 (some 1) w = .ok [] w' ∧
      readTrailerLines (fileObject (threeBytes false) 20) 5 w' = .ok [] w'' ∧ w''.rfile.stream = [71] := by
  have stream : chunkedPieces.stream = writeChunks [[97, 98], [10]] ++ [71] := by decide
  have some_ : ∀ size ∈ [1, 4], 1 ≤ size ∧ size < 5 := by decide
  obtain ⟨w, run, behind⟩ :=
    chunked_round_trip (by decide) (by decide) (chunkedPieces_ready false) stream (.inl rfl) some_ (by decide)
  obtain ⟨w', w'', last, trailers, rest⟩ := behind (by decide)
  exact ⟨w, w', w'', run, last, trailers, rest⟩

end CodeClips.CherryPy
