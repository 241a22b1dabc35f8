import CodeClips.CherryPy.KnownLength

/-!
# The limit on the length of the headers

`SizeCheckWrapper` reads a line in pieces of 256 bytes and checks the length after each. It gives
the line if that is within the limit, and otherwise it stops within 256 bytes behind the limit.
-/

namespace CodeClips.CherryPy
open Wrapped
variable {σ : Type} {rfile : FileReader Raised σ UInt8} {left : σ → Bytes} {Good : σ → Prop} {w : Wrapped σ SizeCheck}
  {s t data : Bytes} {fuel : Nat}

/-- A piece of a line is the end of it, or 256 bytes without. -/
theorem piece_cases (stream : s = lineUpTo newline 256 s ++ t) :
    (firstLine newline s = lineUpTo newline 256 s ∧
      ((lineUpTo newline 256 s).length < 256 ∨ (lineUpTo newline 256 s).getLast? = some newline)) ∨
    ((lineUpTo newline 256 s).length = 256 ∧ (lineUpTo newline 256 s).getLast? ≠ some newline ∧
      firstLine newline s = lineUpTo newline 256 s ++ firstLine newline t) := by
  have piece : lineUpTo newline 256 s = firstLine newline (s.take 256) := (upTo_nat 256 _).trans (firstLine_take newline 256 s).symm
  rw [piece] at stream ⊢
  by_cases inside : newline ∈ s.take 256
  · refine .inl ⟨?_, .inr (getLast?_firstLine.mpr inside)⟩
    conv_lhs => rw [← List.take_append_drop 256 s]
    exact firstLine_of_mem inside _
  rw [firstLine_whole inside] at stream ⊢
  rcases Nat.lt_or_ge s.length 256 with short | long
  · have whole : s.take 256 = s := List.take_of_length_le (Nat.le_of_lt short)
    rw [whole] at inside ⊢
    exact .inl ⟨firstLine_whole inside, .inl short⟩
  · refine .inr ⟨by rw [List.length_take, Nat.min_eq_left long], ?_, ?_⟩
    · intro last
      exact inside (List.mem_of_getLast? last)
    · conv_lhs => rw [stream]
      exact firstLine_of_not_mem inside t

/-- The length is checked after `data` has been counted. -/
theorem checkLength_cases (data : Bytes) (w : Wrapped σ SizeCheck) :
    ((w.own.maxlen = 0 ∨ w.own.bytes_read + data.length ≤ w.own.maxlen) ∧
      checkLength data w = .ok () { w with own := { w.own with bytes_read := w.own.bytes_read + data.length } }) ∨
    ((w.own.maxlen ≠ 0 ∧ w.own.maxlen < w.own.bytes_read + data.length) ∧
      checkLength data w = .error (.maxSizeExceeded none)
        { w with own := { w.own with bytes_read := w.own.bytes_read + data.length } }) := by
  by_cases exceeded : w.own.maxlen ≠ 0 ∧ w.own.maxlen < w.own.bytes_read + data.length
  · refine .inr ⟨exceeded, ?_⟩
    rw [checkLength, getOwn_bind, setOwn_bind, if_pos exceeded]
    rfl
  · refine .inl ⟨by omega, ?_⟩
    rw [checkLength, getOwn_bind, setOwn_bind, if_neg exceeded]
    rfl

/-- What the reading of a line comes to. -/
def LineRead (left : σ → Bytes) (Good : σ → Prop) (w : Wrapped σ SizeCheck) (res line : Bytes)
    (result : EStateM.Result Raised (Wrapped σ SizeCheck) Bytes) : Prop :=
  (∃ w', result = .ok (res ++ line) w' ∧ (w.own.maxlen = 0 ∨ w.own.bytes_read + line.length ≤ w.own.maxlen) ∧
    left w.rfile = line ++ left w'.rfile ∧ Good w'.rfile ∧
    w'.own = { w.own with bytes_read := w.own.bytes_read + line.length }) ∨
  (∃ w' r, result = .error (.maxSizeExceeded none) w' ∧
    w.own.maxlen ≠ 0 ∧ w.own.maxlen < w.own.bytes_read + line.length ∧
    left w.rfile = r ++ left w'.rfile ∧ w.own.bytes_read + r.length ≤ w.own.maxlen + 256)

/-- The line goes on behind `data`. -/
theorem LineRead.after {s' : σ} {res line : Bytes} {result : EStateM.Result Raised (Wrapped σ SizeCheck) Bytes}
    (read : LineRead left Good ⟨s', { w.own with bytes_read := w.own.bytes_read + data.length }⟩ (res ++ data) line result)
    (stream : left w.rfile = data ++ left s') : LineRead left Good w res (data ++ line) result := by
  rcases read with ⟨w', run, fits, behind, good, counted⟩ | ⟨w', r, run, limited, exceeded, behind, near⟩
  · refine .inl ⟨w', ?_, ?_, ?_, good, ?_⟩
    · rw [run, List.append_assoc]
    · rw [List.length_append, ← Nat.add_assoc]
      exact fits
    · rw [stream, behind, List.append_assoc]
    · rw [counted, List.length_append, Nat.add_assoc]
  · refine .inr ⟨w', data ++ r, run, limited, ?_, ?_, ?_⟩
    · rw [List.length_append, ← Nat.add_assoc]
      exact exceeded
    · rw [stream, behind, List.append_assoc]
    · rw [List.length_append, ← Nat.add_assoc]
      exact near

theorem pieceLoop_reads (reads : rfile.Reads newline left Good) (good : Good w.rfile)
    (within : w.own.maxlen = 0 ∨ w.own.bytes_read ≤ w.own.maxlen) (res : Bytes)
    (enough : (firstLine newline (left w.rfile)).length < fuel) :
    LineRead left Good w res (firstLine newline (left w.rfile)) (pieceLoop rfile fuel res w) := by
  induction fuel generalizing w res with
  | zero => omega
  | succ fuel ih =>
    obtain ⟨s', run, stream, good'⟩ := reads.readline good 256
    have short : (lineUpTo newline 256 (left w.rfile)).length ≤ 256 := by
      have piece : lineUpTo newline 256 (left w.rfile) = (firstLine newline (left w.rfile)).take 256 := upTo_nat 256 _
      rw [piece]
      exact List.length_take_le _ _
    have pieces := piece_cases stream
    generalize lineUpTo newline 256 (left w.rfile) = data at *
    rw [pieceLoop, bind_of_ok (inner_ok run)]
    rcases checkLength_cases data { w with rfile := s' } with ⟨fits, checked⟩ | ⟨exceeded, checked⟩
    · rw [bind_of_ok checked]
      rcases pieces with ⟨whole, stop⟩ | ⟨full, goOn, line⟩
      · rw [if_pos stop, whole]
        exact .inl ⟨_, rfl, fits, stream, good', rfl⟩
      · have stop : ¬ (data.length < 256 ∨ data.getLast? = some newline) := not_or.mpr ⟨by omega, goOn⟩
        have rest : (firstLine newline (left s')).length < fuel := by
          rw [line, List.length_append] at enough
          omega
        rw [if_neg stop, line]
        exact (ih good' fits (res ++ data) rest).after stream
    · have longer : data.length ≤ (firstLine newline (left w.rfile)).length := by
        rcases pieces with ⟨whole, -⟩ | ⟨-, -, line⟩
        · rw [whole]
        · rw [line, List.length_append]
          omega
      have limited : w.own.maxlen ≠ 0 := exceeded.1
      have behind : w.own.maxlen < w.own.bytes_read + data.length := exceeded.2
      rw [bind_of_error checked]
      exact .inr ⟨_, data, rfl, limited, by omega, stream, by omega⟩

variable {S : Settings} {f : FileObject}

/-- A line of the connection is given if it is within the limit; otherwise the request is too large, and
no more than 256 bytes have been read behind the limit. -/
theorem size_check_readline_limit (received : 1 ≤ S.rbufsize) (received' : 1 ≤ S.default_bufsize) {calls : Nat}
    (ready : Ready S calls f) (own : SizeCheck) (within : own.maxlen = 0 ∨ own.bytes_read ≤ own.maxlen)
    (enough : (firstLine newline f.stream).length < fuel) :
    ((own.maxlen = 0 ∨ own.bytes_read + (firstLine newline f.stream).length ≤ own.maxlen) → ∃ w',
      sizeCheckReadline (fileObject S calls) fuel none ⟨f, own⟩ = .ok (firstLine newline f.stream) w' ∧
      f.stream = firstLine newline f.stream ++ w'.rfile.stream ∧
      w'.own.bytes_read = own.bytes_read + (firstLine newline f.stream).length) ∧
    (own.maxlen ≠ 0 ∧ own.maxlen < own.bytes_read + (firstLine newline f.stream).length → ∃ w' r,
      sizeCheckReadline (fileObject S calls) fuel none ⟨f, own⟩ = .error (.maxSizeExceeded none) w' ∧
      f.stream = r ++ w'.rfile.stream ∧ own.bytes_read + r.length ≤ own.maxlen + 256) := by
  have reads : (fileObject S calls).Reads newline FileObject.stream (Ready S calls) := fileObject_reads received received'
  have read := pieceLoop_reads (w := ⟨f, own⟩) reads ready within [] enough
  rcases read with ⟨w', run, fits, stream, -, counted⟩ | ⟨w', r, run, limited, exceeded, stream, near⟩
  · refine ⟨fun _ => ⟨w', run, stream, by rw [counted]⟩, fun ⟨limited, exceeded⟩ => ?_⟩
    rcases fits with none | fits
    · exact absurd none limited
    · exact absurd fits (Nat.not_le_of_lt exceeded)
  · refine ⟨fun fits => ?_, fun _ => ⟨w', r, run, stream, near⟩⟩
    rcases fits with none | fits
    · exact absurd none limited
    · exact absurd fits (Nat.not_le_of_lt exceeded)

/-- A line in two pieces, and a byte behind it. -/
def longLine (n m : Nat) : FileObject where
  rbuf := []
  sock := [.data 97 (List.replicate n 97), .data 97 (List.replicate m 97 ++ [10, 98])]
  bytes_read := 0

theorem longLine_stream (n m : Nat) : (longLine n m).stream = List.replicate (n + 1 + (m + 1)) 97 ++ newline :: [98] := by
  have pieces : (longLine n m).stream = List.replicate (n + 1) 97 ++ (List.replicate (m + 1) 97 ++ [10, 98]) := by
    simp [FileObject.stream, longLine, pending, List.replicate_succ]
  rw [pieces, ← List.append_assoc, List.replicate_append_replicate]
  rfl

theorem longLine_line (n m : Nat) :
    firstLine newline (longLine n m).stream = List.replicate (n + 1 + (m + 1)) 97 ++ [newline] := by
  rw [longLine_stream]
  exact firstLine_line (fun inside => absurd (List.eq_of_mem_replicate inside) (by decide)) [98]

theorem longLine_ready (strType : Bool) (n m : Nat) : Ready (threeBytes strType) (n + m + 5) (longLine n m) where
  calm e inside := by simp [longLine] at inside
  unbuffered _ := rfl
  enough := by
    simp [longLine, pending]
    omega

/-- With a limit of 300 bytes the line of 300 bytes is given, and with one of 299 it is too large. -/
theorem size_check_readline_limit_two :
    (∃ w', sizeCheckReadline (fileObject (threeBytes true) 302) 301 none ⟨longLine 199 98, ⟨300, 0⟩⟩ =
      .ok (List.replicate 299 97 ++ [newline]) w' ∧ w'.own.bytes_read = 300) ∧
    ∃ w' r, sizeCheckReadline (fileObject (threeBytes true) 302) 301 none ⟨longLine 199 98, ⟨299, 0⟩⟩ =
        .error (.maxSizeExceeded none) w' ∧
      (longLine 199 98).stream = r ++ w'.rfile.stream ∧ 0 + r.length ≤ 299 + 256 := by
  have line := longLine_line 199 98
  have length : (firstLine newline (longLine 199 98).stream).length = 300 := by
    rw [line, List.length_append, List.length_replicate]
    rfl
  have enough : (firstLine newline (longLine 199 98).stream).length < 301 := by omega
  have ready := longLine_ready true 199 98
  obtain ⟨fits, -⟩ := size_check_readline_limit (by decide) (by decide) ready ⟨300, 0⟩ (by decide) enough
  obtain ⟨-, exceeds⟩ := size_check_readline_limit (by decide) (by decide) ready ⟨299, 0⟩ (by decide) enough
  obtain ⟨w', run, -, counted⟩ := fits (.inr (by rw [length]))
  rw [length] at counted
  rw [line] at run
  exact ⟨⟨w', run, counted⟩, exceeds ⟨by decide, by rw [length]; decide⟩⟩

end CodeClips.CherryPy
