import CodeClips.CherryPy.ChunkedBody

/-!
# Reads of a chunked body that do not return

Without a size the bytes stay in the buffer, and with a newline in it `readline` comes to one
that it does not take. Such a call never returns, however many turns its loop makes.
-/

namespace CodeClips.CherryPy
open Wrapped
variable {σ : Type} {rfile : FileReader Raised σ UInt8} {left : σ → Bytes} {Good : σ → Prop} {w : Wrapped σ Chunked}
  {body rest : Bytes} {fuel : Nat}

/-- The loop has not ended when its fuel is spent. -/
def Runs {α : Type} (x : EStateM Raised (Wrapped σ Chunked) α) (w : Wrapped σ Chunked) : Prop :=
  ∃ w', x w = .error .running w'

theorem Runs.bind {α β : Type} {x : EStateM Raised (Wrapped σ Chunked) α} {a : α} {w' : Wrapped σ Chunked}
    (returned : x w = .ok a w') {f : α → EStateM Raised (Wrapped σ Chunked) β} (runs : Runs (f a) w') : Runs (x >>= f) w := by
  obtain ⟨w'', running⟩ := runs
  exact ⟨w'', (bind_of_ok returned f).trans running⟩

section Unsized
variable {size : Option Int} (unsized : wanted size = none)
include unsized

theorem enough_unsized (data : Bytes) : enough size data = false := by rw [enough, unsized]

omit unsized in
theorem fill_buffer (some_ : w.own.buffer ≠ []) : fill rfile w = .ok () w := by
  rw [fill, getOwn_bind, if_neg some_]
  rfl

/-- The same bytes again, turn after turn. -/
theorem chunkedReadLoop_runs (some_ : w.own.buffer ≠ []) (data : Bytes) : Runs (chunkedReadLoop rfile size fuel data) w := by
  induction fuel generalizing size data with
  | zero => exact ⟨w, rfl⟩
  | succ fuel ih =>
    rw [chunkedReadLoop, enough_unsized unsized, if_neg Bool.false_ne_true]
    refine Runs.bind (fill_buffer some_) (Runs.bind rfl ?_)
    rw [if_neg some_, unsized]
    exact ih rfl _

theorem chunkedLineLoop_runs (some_ : w.own.buffer ≠ []) (data : Bytes) : Runs (chunkedLineLoop rfile size fuel data) w := by
  induction fuel generalizing size data w with
  | zero => exact ⟨w, rfl⟩
  | succ fuel ih =>
    rw [chunkedLineLoop, enough_unsized unsized, if_neg Bool.false_ne_true]
    refine Runs.bind (fill_buffer some_) (Runs.bind rfl ?_)
    rw [if_neg some_, unsized]
    cases found : w.own.buffer.idxOf? newline with
    | none => exact ih rfl some_ _
    | some pos =>
      refine Runs.bind rfl (ih rfl ?_ _)
      have inside := (idxOf_of_find found).2
      exact List.ne_nil_of_length_pos (by rw [List.length_drop]; omega)

end Unsized

variable (reads : rfile.Reads newline left Good)
include reads

/-- The first turn fills the buffer. -/
theorem fill_some (ahead : Ahead left Good rest w body) (some_ : body ≠ []) :
    ∃ w', fill rfile w = .ok () w' ∧ Ahead left Good rest w' body ∧ w'.own.buffer ≠ [] := by
  obtain ⟨w', filled, ahead', ended⟩ := fill_ahead reads ahead
  exact ⟨w', filled, ahead', fun empty => some_ (ahead'.closed (ended empty)).2.1⟩

theorem unsized_runs {size : Option Int} (unsized : wanted size = none) (ahead : Ahead left Good rest w body)
    (some_ : body ≠ []) : Runs (chunkedRead rfile fuel size) w ∧ Runs (chunkedReadline rfile fuel size) w := by
  cases fuel with
  | zero => exact ⟨⟨w, rfl⟩, ⟨w, rfl⟩⟩
  | succ fuel =>
    obtain ⟨w', filled, -, buffered⟩ := fill_some reads ahead some_
    -- The turn goes on as it would from the filled buffer.
    have first : chunkedReadLoop rfile size (fuel + 1) [] w = chunkedReadLoop rfile size (fuel + 1) [] w' := by
      rw [chunkedReadLoop, enough_unsized unsized, if_neg Bool.false_ne_true, bind_of_ok filled,
        bind_of_ok (fill_buffer buffered)]
    have first' : chunkedLineLoop rfile size (fuel + 1) [] w = chunkedLineLoop rfile size (fuel + 1) [] w' := by
      rw [chunkedLineLoop, enough_unsized unsized, if_neg Bool.false_ne_true, bind_of_ok filled,
        bind_of_ok (fill_buffer buffered)]
    constructor
    · have turns : Runs (chunkedReadLoop rfile size (fuel + 1) []) w' := chunkedReadLoop_runs unsized buffered []
      obtain ⟨w'', running⟩ := turns
      exact ⟨w'', first.trans running⟩
    · have turns : Runs (chunkedLineLoop rfile size (fuel + 1) []) w' := chunkedLineLoop_runs unsized buffered []
      obtain ⟨w'', running⟩ := turns
      exact ⟨w'', first'.trans running⟩

omit reads in
/-- What is taken has no newline, and the rest has it still. -/
theorem newline_behind (ahead : Ahead left Good rest w body) {m n : Nat} (within : m ≤ n)
    (outside : newline ∉ w.own.buffer.take m) (inside : newline ∈ body.take n) :
    (w.own.buffer.take m).length < n ∧
      newline ∈ (body.drop (w.own.buffer.take m).length).take (n - (w.own.buffer.take m).length) := by
  rw [← (ahead.pieces within).1] at inside
  rcases List.mem_append.mp inside with front | behind
  · exact absurd front outside
  · refine ⟨?_, behind⟩
    by_contra full
    rw [Nat.sub_eq_zero_of_le (Nat.le_of_not_lt full), List.take_zero] at behind
    exact List.not_mem_nil behind

omit reads in
theorem wanted_size {size : Nat} (some_ : 1 ≤ size) : wanted (some (size : Int)) = some (size : Int) := by
  rw [wanted, if_neg (by omega)]

/-- A newline within the size is never taken. -/
theorem chunkedLineLoop_newline {size : Nat} (data : Bytes) (less : data.length < size) (ahead : Ahead left Good rest w body)
    (inside : newline ∈ body.take (size - data.length)) : Runs (chunkedLineLoop rfile (some (size : Int)) fuel data) w := by
  induction fuel generalizing data w body with
  | zero => exact ⟨w, rfl⟩
  | succ fuel ih =>
    have some_ : body ≠ [] := by
      rintro rfl
      rw [List.take_nil] at inside
      exact List.not_mem_nil inside
    obtain ⟨w₁, filled, ahead₁, buffered⟩ := fill_some reads ahead some_
    have further {m : Nat} (within : m ≤ size - data.length) (outside : newline ∉ w₁.own.buffer.take m) :
        Runs (takeBuffer m >>= fun taken => chunkedLineLoop rfile (some (size : Int)) fuel (data ++ taken)) w₁ := by
      obtain ⟨short, behind⟩ := newline_behind ahead₁ within outside inside
      refine Runs.bind rfl (ih _ ?_ (ahead₁.taken m) ?_)
      · rw [List.length_append]
        omega
      · rwa [List.length_append, Nat.sub_add_eq]
    rw [chunkedLineLoop, enough, wanted_size (by omega), if_neg (by simpa using less)]
    refine Runs.bind filled (Runs.bind rfl ?_)
    rw [if_neg buffered]
    cases found : w₁.own.buffer.idxOf? newline with
    | none =>
      have wish : ((size : Int) - data.length).toNat = size - data.length := by omega
      simp only [wish]
      exact further (Nat.le_refl _) fun front => List.idxOf?_eq_none_iff.mp found (List.mem_of_mem_take front)
    | some pos =>
      have wish : (min ((size : Int) - data.length) pos).toNat = min (size - data.length) pos := by omega
      simp only [wish]
      refine further (Nat.min_le_left _ _) fun front => not_mem_take_of_find found ?_
      rw [← List.take_take] at front
      exact List.mem_of_mem_take front

/-- Without one the size is read, or what there is. -/
theorem chunkedLineLoop_ahead {size : Nat} (data : Bytes) (some_ : 1 ≤ size) (less : data.length ≤ size)
    (more : size - data.length < fuel) (ahead : Ahead left Good rest w body)
    (outside : newline ∉ body.take (size - data.length)) :
    ∃ w', chunkedLineLoop rfile (some (size : Int)) fuel data w = .ok (data ++ body.take (size - data.length)) w' ∧
      Ahead left Good rest w' (body.drop (size - data.length)) := by
  induction fuel generalizing data w body with
  | zero => omega
  | succ fuel ih =>
    rw [chunkedLineLoop, enough, wanted_size some_]
    by_cases full : size ≤ data.length
    · have none : size - data.length = 0 := by omega
      rw [if_pos (by simpa using full), none, List.take_zero, List.append_nil, List.drop_zero]
      exact ⟨w, rfl, ahead⟩
    obtain ⟨w₁, filled, ahead₁, ended⟩ := fill_ahead reads ahead
    rw [if_neg (by simpa using full), bind_of_ok filled, getOwn_bind]
    by_cases empty : w₁.own.buffer = []
    · obtain ⟨-, none, -⟩ := ahead₁.closed (ended empty)
      subst none
      rw [if_pos empty, List.take_nil, List.append_nil, List.drop_nil]
      exact ⟨w₁, rfl, ahead₁⟩
    rw [if_neg empty]
    have step : ∃ w', (takeBuffer (size - data.length) >>= fun taken =>
          chunkedLineLoop rfile (some (size : Int)) fuel (data ++ taken)) w₁ =
        .ok (data ++ body.take (size - data.length)) w' ∧ Ahead left Good rest w' (body.drop (size - data.length)) := by
      have long := List.length_pos_of_ne_nil empty
      have length : (w₁.own.buffer.take (size - data.length)).length = min (size - data.length) w₁.own.buffer.length :=
        List.length_take
      obtain ⟨all, behind⟩ := ahead₁.pieces (Nat.le_refl (size - data.length))
      have both : size - (data ++ w₁.own.buffer.take (size - data.length)).length =
          size - data.length - (w₁.own.buffer.take (size - data.length)).length := by
        rw [List.length_append, Nat.sub_add_eq]
      obtain ⟨w', run, ahead'⟩ := ih (data ++ w₁.own.buffer.take (size - data.length)) (by rw [List.length_append]; omega)
        (by rw [List.length_append]; omega) (ahead₁.taken (size - data.length)) (by
          rw [both]
          intro inside
          rw [← all] at outside
          exact outside (List.mem_append_right _ inside))
      rw [both] at run ahead'
      rw [List.append_assoc, all] at run
      rw [behind] at ahead'
      rw [takeBuffer_bind]
      exact ⟨w', run, ahead'⟩
    cases found : w₁.own.buffer.idxOf? newline with
    | none =>
      have wish : ((size : Int) - data.length).toNat = size - data.length := by omega
      simp only [wish]
      exact step
    | some pos =>
      have late : size - data.length ≤ pos := by
        by_contra early
        obtain ⟨moreBody, whole⟩ := ahead₁.split
        have within := (idxOf_of_find found).2
        refine outside ?_
        rw [whole, List.take_append]
        exact List.mem_append_left _ (mem_take_of_find found (Nat.lt_of_not_le early))
      have wish : (min ((size : Int) - data.length) pos).toNat = size - data.length := by omega
      simp only [wish]
      exact step

/-- `read` and `readline` of a chunked body, at any point of it: with no size, or the size 0, neither returns while
there is a byte to come; `readline` with a size returns exactly if there is no newline within it, and gives then
what `read` gives, and the rest is to come. -/
theorem chunked_readline_returns (ahead : Ahead left Good rest w body) :
    (body ≠ [] → ∀ size, size = none ∨ size = some 0 → ∀ fuel,
      Runs (chunkedRead rfile fuel size) w ∧ Runs (chunkedReadline rfile fuel size) w) ∧
    ∀ size : Nat, 1 ≤ size →
      (newline ∈ body.take size → ∀ fuel, Runs (chunkedReadline rfile fuel (some (size : Int))) w) ∧
      (newline ∉ body.take size → ∀ fuel, size < fuel → ∃ w',
        chunkedReadline rfile fuel (some (size : Int)) w = .ok (body.take size) w' ∧
          Ahead left Good rest w' (body.drop size)) := by
  refine ⟨fun some_ size unsized fuel => ?_, fun size some_ => ⟨fun inside fuel => ?_, fun outside fuel more => ?_⟩⟩
  · have none : wanted size = none := by
      rcases unsized with rfl | rfl <;> rfl
    exact unsized_runs reads none ahead some_
  · exact chunkedLineLoop_newline reads [] some_ ahead inside
  · exact chunkedLineLoop_ahead reads [] some_ (Nat.zero_le _) more ahead outside

omit reads in
/-- On the connection: the lines of `"ab\n"` before the first read, and once `readline(2)` has taken `"ab"`. -/
theorem chunked_readline_returns_two :
    Runs (chunkedReadline (fileObject (threeBytes true) 20) 10 (some 3)) ⟨chunkedPieces, ⟨0, 0, [], false⟩⟩ ∧
    ∃ w, chunkedReadline (fileObject (threeBytes true) 20) 10 (some 2) ⟨chunkedPieces, ⟨0, 0, [], false⟩⟩ = .ok [97, 98] w ∧
      Runs (chunkedReadline (fileObject (threeBytes true) 20) 10 (some 1)) w ∧
      Runs (chunkedRead (fileObject (threeBytes true) 20) 10 none) w := by
  have stream : chunkedPieces.stream = writeChunks [[97, 98], [10]] ++ [71] := by decide
  have file : (fileObject (threeBytes true) 20).Reads newline FileObject.stream (Ready (threeBytes true) 20) :=
    fileObject_reads (by decide) (by decide)
  obtain ⟨-, first⟩ := chunked_readline_returns file (chunked_start (chunkedPieces_ready true) stream (.inl rfl))
  obtain ⟨w, line, ahead⟩ := (first 2 (by decide)).2 (by decide) 10 (by decide)
  obtain ⟨unsized, sized⟩ := chunked_readline_returns file ahead
  exact ⟨(first 3 (by decide)).1 (by decide) 10, w, line, (sized 1 (by decide)).1 (by decide) 10,
    (unsized (by decide) none (.inl rfl) 10).1⟩

end CodeClips.CherryPy
