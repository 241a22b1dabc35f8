import CodeClips.CherryPy.FileObject
import Mathlib.Data.List.Infix

/-!
# The file reads the stream

What `read` and `readline` give, and what is left, depends on the bytes alone: those in the buffer and
those the socket has still to give. It does not matter in which pieces they arrive, where the
calls are interrupted, how large the receive buffer is, or which form the buffer has.
-/

namespace CodeClips.CherryPy
variable (S : Settings)

/-- Every failure is one after which the call is made again. -/
def Calm (sock : List (Arrival UInt8 ErrNum)) : Prop := ∀ e, Arrival.error e ∈ sock → Retried S e

/-- The bytes to read. -/
def FileObject.stream (f : FileObject) : Bytes := f.rbuf ++ pending f.sock

/-- From `f` the bytes `data` of the socket have been read; those received behind them are in the buffer. -/
structure Left (f : FileObject) (data : Bytes) (f' : FileObject) : Prop where
  taken : pending f.sock = data ++ f'.stream
  calm : Calm S f'.sock
  counted : f'.bytes_read + (pending f'.sock).length = f.bytes_read + (pending f.sock).length
  unbuffered : S.rbufsize ≤ 1 → f'.rbuf = []

section Steps

theorem get_bind {α : Type} (k : FileObject → FileM α) (f : FileObject) : (get >>= k) f = k f f := rfl

theorem setRbuf_bind {α : Type} (rbuf : Bytes) (k : Unit → FileM α) (f : FileObject) :
    (setRbuf rbuf >>= k) f = k () { f with rbuf := rbuf } := rfl

theorem pure_run {α : Type} (a : α) (f : FileObject) : (pure a : FileM α) f = .ok a f := rfl

end Steps

variable {S} {f : FileObject} {size n fuel : Nat}

theorem calm_putBack {left : Bytes} {sock : List (Arrival UInt8 ErrNum)} (calm : Calm S sock) : Calm S (putBack left sock) := by
  intro e inside
  cases left with
  | nil => exact calm e inside
  | cons first rest =>
    rcases List.mem_cons.mp inside with same | inside
    · cases same
    · exact calm e inside

theorem recvFrom_calm (some_ : 1 ≤ size) {sock : List (Arrival UInt8 ErrNum)} (calm : Calm S sock) :
    ∃ data sock', recvFrom S size sock = (.ok data, sock') ∧ pending sock = data ++ pending sock' ∧ Calm S sock' ∧
      data.length ≤ size ∧ (data = [] → pending sock = []) := by
  induction sock with
  | nil => exact ⟨[], [], rfl, rfl, calm, Nat.zero_le _, fun _ => rfl⟩
  | cons a sock ih =>
    have calm' : Calm S sock := fun e inside => calm e (List.mem_cons_of_mem a inside)
    cases a with
    | error e =>
      obtain ⟨data, sock', run, rest⟩ := ih calm'
      refine ⟨data, sock', ?_, rest⟩
      rw [recvFrom, if_pos (calm e List.mem_cons_self), run]
    | data first rest =>
      refine ⟨(first :: rest).take size, putBack ((first :: rest).drop size) sock, rfl, ?_, calm_putBack calm',
        List.length_take_le _ _, fun none => ?_⟩
      · rw [pending_putBack, ← List.append_assoc, List.take_append_drop, pending]
      · have long := congrArg List.length none
        rw [List.length_take, List.length_cons, List.length_nil] at long
        omega

/-- `data` has been received. -/
structure Received (S : Settings) (f : FileObject) (data : Bytes) (f' : FileObject) : Prop where
  rbuf : f'.rbuf = f.rbuf
  taken : pending f.sock = data ++ pending f'.sock
  calm : Calm S f'.sock
  counted : f'.bytes_read = f.bytes_read + data.length

/-- What one call receives: nothing only at the end. -/
theorem recv_calm (some_ : 1 ≤ size) (calm : Calm S f.sock) :
    ∃ data f', recv S size f = .ok data f' ∧ Received S f data f' ∧ data.length ≤ size ∧
      (data.isEmpty → pending f.sock = []) := by
  obtain ⟨data, sock', run, taken, calm', short, empty⟩ := recvFrom_calm some_ calm
  refine ⟨data, { f with sock := sock', bytes_read := f.bytes_read + data.length }, ?_, ⟨rfl, taken, calm', rfl⟩, short, ?_⟩
  · rw [recv, run]
  · intro none
    exact empty (List.isEmpty_iff.mp none)

section Received
variable {data r : Bytes} {f' f'' : FileObject}

/-- The end of the stream. -/
theorem Received.ended (received : Received S f data f') (empty : f.rbuf = []) (ended : pending f.sock = []) :
    Left S f [] f' ∧ data = [] := by
  have both := received.taken
  rw [ended] at both
  obtain ⟨none, left⟩ := List.append_eq_nil_iff.mp both.symm
  refine ⟨⟨?_, received.calm, ?_, fun _ => received.rbuf.trans empty⟩, none⟩
  · simp [FileObject.stream, ended, left, received.rbuf, empty]
  · simp [received.counted, none, left, ended]

/-- Of what has been received the bytes behind `r` are put into the buffer. -/
theorem Received.keep (received : Received S f data f') (front : r <+: data)
    (unbuffered : S.rbufsize ≤ 1 → data.drop r.length = []) :
    Left S f r { f' with rbuf := data.drop r.length } := by
  refine ⟨?_, received.calm, ?_, unbuffered⟩
  · simp only [FileObject.stream]
    rw [← List.append_assoc, append_drop_of_front front, received.taken]
  · simp only [received.counted, received.taken, List.length_append]
    omega

/-- All that has been received is given. -/
theorem Received.all (received : Received S f data f') (empty : f.rbuf = []) : Left S f data f' := by
  refine ⟨?_, received.calm, ?_, fun _ => received.rbuf.trans empty⟩
  · rw [received.taken, FileObject.stream, received.rbuf, empty, List.nil_append]
  · rw [received.counted, received.taken, List.length_append]
    omega

/-- More is read after it. -/
theorem Received.more (received : Received S f data f') (left : Left S f' r f'') : Left S f (data ++ r) f'' := by
  refine ⟨?_, left.calm, ?_, left.unbuffered⟩
  · rw [received.taken, List.append_assoc, ← left.taken]
  · rw [left.counted, received.counted, received.taken, List.length_append]
    omega

theorem Received.shorter (received : Received S f data f') (some_ : ¬ data.isEmpty)
    (enough : (pending f.sock).length < fuel + 1) : (pending f'.sock).length < fuel := by
  have long := List.length_pos_of_ne_nil fun nil => some_ (List.isEmpty_iff.mpr nil)
  rw [received.taken, List.length_append] at enough
  omega

end Received

theorem readAll_calm (some_ : 1 ≤ size) (calm : Calm S f.sock) (buffers : Bytes) (empty : f.rbuf = [])
    (enough : (pending f.sock).length < fuel) :
    ∃ f', readAll S size fuel buffers f = .ok (buffers ++ pending f.sock) f' ∧ Left S f (pending f.sock) f' := by
  induction fuel generalizing f buffers with
  | zero => omega
  | succ fuel ih =>
    obtain ⟨data, f₁, run, received, -, stop⟩ := recv_calm some_ calm
    rw [readAll, bind_of_ok run]
    by_cases none : data.isEmpty
    · have ended := stop none
      rw [if_pos none, pure_run, ended, List.append_nil]
      exact ⟨f₁, rfl, (received.ended empty ended).1⟩
    · obtain ⟨f', run', left⟩ :=
        ih received.calm (buffers ++ data) (received.rbuf.trans empty) (received.shorter none enough)
      rw [if_neg none, run']
      refine ⟨f', by rw [received.taken, List.append_assoc], ?_⟩
      rw [received.taken]
      exact received.more left

theorem drop_unbuffered {data : Bytes} (short : data.length ≤ S.rbufsize) (unbuffered : S.rbufsize ≤ 1) {i : Nat} (some_ : 1 ≤ i) :
    data.drop i = [] := by
  rw [List.drop_eq_nil_iff]
  omega

theorem lineLoop_calm (some_ : 1 ≤ S.rbufsize) (calm : Calm S f.sock) (buffers : Bytes) (empty : f.rbuf = [])
    (enough : (pending f.sock).length < fuel) :
    ∃ f', lineLoop S fuel buffers f = .ok (buffers ++ firstLine newline (pending f.sock)) f' ∧
      Left S f (firstLine newline (pending f.sock)) f' := by
  induction fuel generalizing f buffers with
  | zero => omega
  | succ fuel ih =>
    obtain ⟨data, f₁, run, received, short, stop⟩ := recv_calm some_ calm
    rw [lineLoop, bind_of_ok run]
    by_cases none : data.isEmpty
    · have ended := stop none
      rw [if_pos none, pure_run, ended, firstLine, List.take_nil, List.append_nil]
      exact ⟨f₁, rfl, (received.ended empty ended).1⟩
    rw [if_neg none]
    cases found : data.idxOf? newline with
    | some nl =>
      have long := (idxOf_of_find found).2
      have line : firstLine newline (pending f.sock) = data.take (nl + 1) := by
        rw [received.taken, firstLine_of_find found]
      have length : (data.take (nl + 1)).length = nl + 1 := by
        rw [List.length_take]
        omega
      have left := received.keep (List.take_prefix (nl + 1) data) fun unbuffered => by
        rw [length]
        exact drop_unbuffered short unbuffered (Nat.succ_pos nl)
      rw [length] at left
      simp only [setRbuf_bind, pure_run, line]
      exact ⟨_, rfl, left⟩
    | none =>
      have line : firstLine newline (pending f.sock) = data ++ firstLine newline (pending f₁.sock) := by
        rw [received.taken, firstLine_of_not_mem (List.idxOf?_eq_none_iff.mp found)]
      obtain ⟨f', run', left⟩ :=
        ih received.calm (buffers ++ data) (received.rbuf.trans empty) (received.shorter none enough)
      refine ⟨f', ?_, ?_⟩
      · simp only [run', line, List.append_assoc]
      · rw [line]
        exact received.more left

theorem unbufferedLoop_calm (calm : Calm S f.sock) (buffers : Bytes) (empty : f.rbuf = [])
    (enough : (pending f.sock).length < fuel) :
    ∃ f', unbufferedLoop S fuel buffers f = .ok (buffers ++ firstLine newline (pending f.sock)) f' ∧
      Left S f (firstLine newline (pending f.sock)) f' := by
  induction fuel generalizing f buffers with
  | zero => omega
  | succ fuel ih =>
    obtain ⟨data, f₁, run, received, short, stop⟩ := recv_calm (Nat.le_refl 1) calm
    rw [unbufferedLoop, bind_of_ok run]
    by_cases none : data.isEmpty
    · have ended := stop none
      rw [if_pos none, pure_run, ended, firstLine, List.take_nil, List.append_nil]
      exact ⟨f₁, rfl, (received.ended empty ended).1⟩
    rw [if_neg none]
    by_cases last : data = [newline]
    · have line : firstLine newline (pending f.sock) = data := by
        rw [received.taken, last, List.singleton_append, firstLine, List.idxOf_cons_self]
        rfl
      rw [if_pos last, pure_run, line]
      exact ⟨f₁, rfl, received.all empty⟩
    · have outside : newline ∉ data := by
        obtain ⟨b, rfl⟩ : ∃ b, data = [b] := by
          apply List.length_eq_one_iff.mp
          have long := List.length_pos_of_ne_nil fun nil => none (List.isEmpty_iff.mpr nil)
          omega
        simpa [eq_comm] using last
      have line : firstLine newline (pending f.sock) = data ++ firstLine newline (pending f₁.sock) := by
        rw [received.taken, firstLine_of_not_mem outside]
      obtain ⟨f', run', left⟩ :=
        ih received.calm (buffers ++ data) (received.rbuf.trans empty) (received.shorter none enough)
      refine ⟨f', ?_, ?_⟩
      · rw [if_neg last, run', line, List.append_assoc]
      · rw [line]
        exact received.more left

theorem strReadLoop_calm (calm : Calm S f.sock) (buffers : Bytes) (empty : f.rbuf = [])
    (less : buffers.length < size) (enough : (pending f.sock).length < fuel) :
    ∃ f', strReadLoop S size fuel buffers buffers.length f =
        .ok (buffers ++ (pending f.sock).take (size - buffers.length)) f' ∧
      Left S f ((pending f.sock).take (size - buffers.length)) f' := by
  induction fuel generalizing f buffers with
  | zero => omega
  | succ fuel ih =>
    have some_ : 1 ≤ max S.rbufsize (size - buffers.length) := by omega
    obtain ⟨data, f₁, run, received, short, stop⟩ := recv_calm some_ calm
    rw [strReadLoop, bind_of_ok run]
    by_cases none : data.isEmpty
    · have ended := stop none
      rw [if_pos none, pure_run, ended, List.take_nil, List.append_nil]
      exact ⟨f₁, rfl, (received.ended empty ended).1⟩
    rw [if_neg none]
    by_cases long : size - buffers.length ≤ data.length
    · have got : (pending f.sock).take (size - buffers.length) = data.take (size - buffers.length) := by
        rw [received.taken, List.take_append_of_le_length long]
      have length : (data.take (size - buffers.length)).length = size - buffers.length := by
        rw [List.length_take]
        omega
      have left := received.keep (List.take_prefix (size - buffers.length) data) fun unbuffered => by
        rw [length, List.drop_eq_nil_iff]
        omega
      rw [length] at left
      rw [if_pos long, setRbuf_bind, pure_run, got]
      exact ⟨_, rfl, left⟩
    · have got : (pending f.sock).take (size - buffers.length) =
          data ++ (pending f₁.sock).take (size - (buffers ++ data).length) := by
        rw [received.taken, List.take_append, List.take_of_length_le (by omega), List.length_append, Nat.sub_add_eq]
      obtain ⟨f', run', left⟩ := ih received.calm (buffers ++ data) (received.rbuf.trans empty)
        (by rw [List.length_append]; omega) (received.shorter none enough)
      rw [if_neg long, ← List.length_append, run', got]
      exact ⟨f', by rw [List.append_assoc], received.more left⟩

theorem ioReadLoop_calm (calm : Calm S f.sock) (buf : Bytes) (empty : f.rbuf = [])
    (less : buf.length < size) (enough : (pending f.sock).length < fuel) :
    ∃ f', ioReadLoop S size fuel buf buf.length f = .ok (buf ++ (pending f.sock).take (size - buf.length)) f' ∧
      Left S f ((pending f.sock).take (size - buf.length)) f' := by
  induction fuel generalizing f buf with
  | zero => omega
  | succ fuel ih =>
    have some_ : 1 ≤ size - buf.length := by omega
    obtain ⟨data, f₁, run, received, short, stop⟩ := recv_calm some_ calm
    have got : (pending f.sock).take (size - buf.length) =
        data ++ (pending f₁.sock).take (size - (buf ++ data).length) := by
      rw [received.taken, List.take_append, List.take_of_length_le short, List.length_append, Nat.sub_add_eq]
    rw [ioReadLoop, bind_of_ok run]
    by_cases none : data.isEmpty
    · have ended := stop none
      rw [if_pos none, pure_run, ended, List.take_nil, List.append_nil]
      exact ⟨f₁, rfl, (received.ended empty ended).1⟩
    rw [if_neg none]
    by_cases whole : data.length = size - buf.length
    · have last : (pending f.sock).take (size - buf.length) = data := by
        rw [got, List.length_append, whole]
        simp [Nat.add_sub_of_le (Nat.le_of_lt less)]
      rw [last]
      refine ⟨f₁, ?_, received.all empty⟩
      split_ifs with shortcut
      · rw [List.length_eq_zero_iff.mp shortcut.2]
        rfl
      · rfl
    · have further : ¬ (data.length = size ∧ buf.length = 0) := by omega
      obtain ⟨f', run', left⟩ := ih received.calm (buf ++ data) (received.rbuf.trans empty)
        (by rw [List.length_append]; omega) (received.shorter none enough)
      rw [if_neg further, if_neg whole, if_pos short, ← List.length_append, run', got]
      exact ⟨f', by rw [List.append_assoc], received.more left⟩

/-- What one call gives of a line of at most `left` bytes. -/
theorem strLineLoop_calm (some_ : 1 ≤ S.rbufsize) (calm : Calm S f.sock) (buffers : Bytes) (empty : f.rbuf = [])
    (less : buffers.length < size) (enough : (pending f.sock).length < fuel) :
    ∃ f', strLineLoop S size fuel buffers buffers.length f =
        .ok (buffers ++ (firstLine newline (pending f.sock)).take (size - buffers.length)) f' ∧
      Left S f ((firstLine newline (pending f.sock)).take (size - buffers.length)) f' := by
  induction fuel generalizing f buffers with
  | zero => omega
  | succ fuel ih =>
    obtain ⟨data, f₁, run, received, short, stop⟩ := recv_calm some_ calm
    rw [strLineLoop, bind_of_ok run]
    by_cases none : data.isEmpty
    · have ended := stop none
      rw [if_pos none, pure_run, ended, firstLine, List.take_nil, List.take_nil, List.append_nil]
      exact ⟨f₁, rfl, (received.ended empty ended).1⟩
    rw [if_neg none]
    cases found : (data.take (size - buffers.length)).idxOf? newline with
    | some nl =>
      have line : (firstLine newline (pending f.sock)).take (size - buffers.length) = data.take (nl + 1) := by
        rw [received.taken, take_firstLine_of_find found]
      have long := (idxOf_of_find found).2
      rw [List.length_take] at long
      have length : (data.take (nl + 1)).length = nl + 1 := by
        rw [List.length_take]
        omega
      have left := received.keep (List.take_prefix (nl + 1) data) fun unbuffered => by
        rw [length]
        exact drop_unbuffered short unbuffered (Nat.succ_pos nl)
      rw [length] at left
      simp only [setRbuf_bind, pure_run, line]
      exact ⟨_, rfl, left⟩
    | none =>
      have outside := List.idxOf?_eq_none_iff.mp found
      by_cases long : size - buffers.length ≤ data.length
      · have line : (firstLine newline (pending f.sock)).take (size - buffers.length) = data.take (size - buffers.length) := by
          rw [received.taken, take_firstLine_of_le outside long]
        have length : (data.take (size - buffers.length)).length = size - buffers.length := by
          rw [List.length_take]
          omega
        have left := received.keep (List.take_prefix (size - buffers.length) data) fun unbuffered => by
          rw [length]
          exact drop_unbuffered short unbuffered (by omega)
        rw [length] at left
        simp only [if_pos long, setRbuf_bind, pure_run, line]
        exact ⟨_, rfl, left⟩
      · have line : (firstLine newline (pending f.sock)).take (size - buffers.length) =
            data ++ (firstLine newline (pending f₁.sock)).take (size - (buffers ++ data).length) := by
          rw [received.taken, take_firstLine_of_lt outside (by omega), List.length_append, Nat.sub_add_eq]
        obtain ⟨f', run', left⟩ := ih received.calm (buffers ++ data) (received.rbuf.trans empty)
          (by rw [List.length_append]; omega) (received.shorter none enough)
        simp only [if_neg long, ← List.length_append, run', line]
        exact ⟨f', by rw [List.append_assoc], received.more left⟩

theorem recv_rbuf {data : Bytes} {f₁ : FileObject} (run : recv S size f = .ok data f₁) : f₁.rbuf = f.rbuf := by
  rw [recv] at run
  split at run <;> cases run
  rfl

/-- The shortcuts of the `StringIO` form give what the other form gives. -/
theorem ioLineLoop_eq (S : Settings) (size fuel : Nat) (buf : Bytes) (empty : f.rbuf = []) :
    ioLineLoop S size fuel buf buf.length f = strLineLoop S size fuel buf buf.length f := by
  induction fuel generalizing f buf with
  | zero => rfl
  | succ fuel ih =>
    cases run : recv S S.rbufsize f with
    | error e f₁ => rw [ioLineLoop, strLineLoop, bind_of_error run, bind_of_error run]
    | ok data f₁ =>
      have same : f₁.rbuf = [] := (recv_rbuf run).trans empty
      rw [ioLineLoop, strLineLoop, bind_of_ok run, bind_of_ok run]
      by_cases none : data.isEmpty
      · rw [if_pos none, if_pos none]
      rw [if_neg none, if_neg none]
      cases (data.take (size - buf.length)).idxOf? newline with
      | some nl =>
        simp only [setRbuf_bind]
        split_ifs with first
        · rw [List.length_eq_zero_iff.mp first, List.nil_append]
        · rfl
      | none =>
        by_cases whole : data.length = size ∧ buf.length = 0
        · obtain rfl : buf = [] := List.length_eq_zero_iff.mp whole.2
          obtain ⟨rbuf, sock, count⟩ := f₁
          obtain rfl : rbuf = [] := same
          have left : size - ([] : Bytes).length ≤ data.length := by omega
          have rest : data.drop (size - ([] : Bytes).length) = [] := by
            rw [List.drop_eq_nil_iff]
            omega
          have all : data.take (size - ([] : Bytes).length) = data := List.take_of_length_le (by omega)
          simp only [if_pos whole, if_pos left, setRbuf_bind, rest, all, List.nil_append]
        · simp only [if_neg whole, ← List.length_append]
          split_ifs
          · rfl
          · exact ih (buf ++ data) same

/-- A file that is ready: no call will fail for good, and without a buffer the string is empty. -/
structure Ready (S : Settings) (fuel : Nat) (f : FileObject) : Prop where
  calm : Calm S f.sock
  unbuffered : S.rbufsize ≤ 1 → f.rbuf = []
  enough : (pending f.sock).length < fuel

/-- What a call gives, `r` of the stream, and what it leaves. -/
structure Served (S : Settings) (fuel : Nat) (f : FileObject) (r : Bytes) (f' : FileObject) : Prop where
  stream : f.stream = r ++ f'.stream
  ready : Ready S fuel f'
  counted : f'.bytes_read + (pending f'.sock).length = f.bytes_read + (pending f.sock).length

section Calls
variable {r : Bytes} {f' : FileObject} (ready : Ready S fuel f)
include ready

/-- The buffer has enough. -/
theorem served_buffer (front : r <+: f.rbuf) : Served S fuel f r { f with rbuf := f.rbuf.drop r.length } := by
  refine ⟨?_, ⟨ready.calm, fun unbuffered => ?_, ready.enough⟩, rfl⟩
  · simp only [FileObject.stream]
    rw [← List.append_assoc, append_drop_of_front front]
  · rw [ready.unbuffered unbuffered, List.drop_nil]

/-- The buffer is read first, and the rest from the socket. -/
theorem served_socket (left : Left S { f with rbuf := [] } r f') : Served S fuel f (f.rbuf ++ r) f' := by
  refine ⟨?_, ⟨left.calm, left.unbuffered, ?_⟩, left.counted⟩
  · rw [FileObject.stream, left.taken, List.append_assoc]
  · have enough : (pending f.sock).length < fuel := ready.enough
    have taken : pending f.sock = r ++ f'.stream := left.taken
    rw [taken, FileObject.stream, List.length_append, List.length_append] at enough
    omega

theorem served_take (enough : n ≤ f.rbuf.length) :
    Served S fuel f (f.rbuf.take n) { f with rbuf := f.rbuf.drop n } := by
  have served := served_buffer ready (List.take_prefix n f.rbuf)
  rwa [List.length_take, Nat.min_eq_left enough] at served

/-- The buffer has no byte after the loop has begun. -/
def FileObject.drained (f : FileObject) : FileObject := { f with rbuf := [] }

theorem strRead_served (some_ : 1 ≤ S.default_bufsize) (size : Int) :
    ∃ f', strRead S fuel size f = .ok (upTo size f.stream) f' ∧ Served S fuel f (upTo size f.stream) f' := by
  rw [strRead, get_bind, upTo]
  by_cases all : size < 0
  · have recvSize : 1 ≤ if S.rbufsize ≤ 1 then S.default_bufsize else S.rbufsize := by
      split <;> omega
    obtain ⟨f', run, left⟩ := readAll_calm (f := f.drained) recvSize ready.calm f.rbuf rfl ready.enough
    rw [if_pos all, if_pos all, setRbuf_bind]
    exact ⟨f', run, served_socket ready left⟩
  rw [if_neg all, if_neg all]
  by_cases inBuffer : size.toNat ≤ f.rbuf.length
  · rw [if_pos inBuffer, setRbuf_bind, FileObject.stream, List.take_append_of_le_length inBuffer]
    exact ⟨_, rfl, served_take ready inBuffer⟩
  · obtain ⟨f', run, left⟩ := strReadLoop_calm (f := f.drained) ready.calm f.rbuf rfl (Nat.lt_of_not_le inBuffer) ready.enough
    rw [if_neg inBuffer, setRbuf_bind, FileObject.stream, List.take_append,
      List.take_of_length_le (Nat.le_of_not_le inBuffer)]
    exact ⟨f', run, served_socket ready left⟩

theorem ioRead_served (some_ : 1 ≤ S.default_bufsize) (size : Int) :
    ∃ f', ioRead S fuel size f = .ok (upTo size f.stream) f' ∧ Served S fuel f (upTo size f.stream) f' := by
  rw [ioRead, get_bind, upTo]
  by_cases all : size < 0
  · have recvSize : 1 ≤ max S.rbufsize S.default_bufsize := by omega
    obtain ⟨f', run, left⟩ := readAll_calm (f := f.drained) recvSize ready.calm f.rbuf rfl ready.enough
    rw [if_pos all, if_pos all, setRbuf_bind]
    exact ⟨f', run, served_socket ready left⟩
  rw [if_neg all, if_neg all]
  by_cases inBuffer : size.toNat ≤ f.rbuf.length
  · rw [if_pos inBuffer, setRbuf_bind, FileObject.stream, List.take_append_of_le_length inBuffer]
    exact ⟨_, rfl, served_take ready inBuffer⟩
  · obtain ⟨f', run, left⟩ := ioReadLoop_calm (f := f.drained) ready.calm f.rbuf rfl (Nat.lt_of_not_le inBuffer) ready.enough
    rw [if_neg inBuffer, setRbuf_bind, FileObject.stream, List.take_append,
      List.take_of_length_le (Nat.le_of_not_le inBuffer)]
    exact ⟨f', run, served_socket ready left⟩

/-- A line that does not end in the buffer. -/
theorem served_line (outside : newline ∉ f.rbuf) (left : Left S f.drained (firstLine newline (pending f.sock)) f') :
    Served S fuel f (firstLine newline f.stream) f' := by
  rw [FileObject.stream, firstLine_of_not_mem outside]
  exact served_socket ready left

/-- At most `n` bytes of a line that does not end in the buffer, which has not enough. -/
theorem served_part (outside : newline ∉ f.rbuf.take n) (short : f.rbuf.length ≤ n)
    (left : Left S f.drained ((firstLine newline (pending f.sock)).take (n - f.rbuf.length)) f') :
    Served S fuel f ((firstLine newline f.stream).take n) f' := by
  rw [FileObject.stream, take_firstLine_of_lt outside short]
  exact served_socket ready left

theorem strReadline_served (some_ : 1 ≤ S.rbufsize) (size : Int) :
    ∃ f', strReadline S fuel size f = .ok (lineUpTo newline size f.stream) f' ∧
      Served S fuel f (lineUpTo newline size f.stream) f' := by
  rw [strReadline, get_bind, lineUpTo, upTo]
  by_cases all : size < 0
  · rw [if_pos all, if_pos all]
    by_cases bytewise : S.rbufsize ≤ 1
    · have empty := ready.unbuffered bytewise
      obtain ⟨f', run, left⟩ := unbufferedLoop_calm (f := f.drained) ready.calm [] rfl ready.enough
      rw [if_pos bytewise, if_pos empty]
      have same : f.drained = f := by rw [FileObject.drained, ← empty]
      refine ⟨f', ?_, served_line ready (by simp [empty]) left⟩
      rw [← same, run, same, FileObject.stream, empty]
      rfl
    · rw [if_neg bytewise]
      cases found : f.rbuf.idxOf? newline with
      | some nl =>
        have line := firstLine_of_find found (pending f.sock)
        have served := served_take ready (idxOf_of_find found).2
        rw [FileObject.stream, line]
        exact ⟨_, by simp only [setRbuf_bind, pure_run], served⟩
      | none =>
        have outside := List.idxOf?_eq_none_iff.mp found
        obtain ⟨f', run, left⟩ := lineLoop_calm (f := f.drained) some_ ready.calm f.rbuf rfl ready.enough
        refine ⟨f', ?_, served_line ready outside left⟩
        simp only [setRbuf_bind, FileObject.stream, firstLine_of_not_mem outside]
        exact run
  rw [if_neg all, if_neg all]
  cases found : (f.rbuf.take size.toNat).idxOf? newline with
  | some nl =>
    have line := take_firstLine_of_find found (pending f.sock)
    have inside := (idxOf_of_find found).2
    rw [List.length_take] at inside
    have served : Served S fuel f (f.rbuf.take (nl + 1)) { f with rbuf := f.rbuf.drop (nl + 1) } :=
      served_take ready (by omega)
    rw [FileObject.stream, line]
    exact ⟨_, by simp only [setRbuf_bind, pure_run], served⟩
  | none =>
    have outside := List.idxOf?_eq_none_iff.mp found
    by_cases inBuffer : size.toNat ≤ f.rbuf.length
    · have line := take_firstLine_of_le outside inBuffer (pending f.sock)
      have served := served_take ready inBuffer
      rw [FileObject.stream, line]
      exact ⟨_, by simp only [if_pos inBuffer, setRbuf_bind, pure_run], served⟩
    · obtain ⟨f', run, left⟩ := strLineLoop_calm (f := f.drained) some_ ready.calm f.rbuf rfl
        (Nat.lt_of_not_le inBuffer) ready.enough
      refine ⟨f', ?_, served_part ready outside (Nat.le_of_not_le inBuffer) left⟩
      simp only [if_neg inBuffer, setRbuf_bind, FileObject.stream,
        take_firstLine_of_lt outside (Nat.le_of_not_le inBuffer)]
      exact run

omit ready in
/-- The line in the buffer is the line of the stream, if it ends or has the size. -/
theorem lineInBuffer_some {bline rest : Bytes} {size : Int} (found : lineInBuffer f.rbuf size = some (bline, rest)) :
    lineUpTo newline size f.stream = bline ∧ bline <+: f.rbuf ∧ rest = f.rbuf.drop bline.length := by
  rw [lineInBuffer, Option.ite_none_right_eq_some] at found
  obtain ⟨⟨-, ends⟩, same⟩ := found
  cases same
  refine ⟨?_, lineUpTo_front newline size f.rbuf, rfl⟩
  by_cases inside : newline ∈ f.rbuf
  · rw [FileObject.stream, lineUpTo, firstLine_of_mem inside, lineUpTo]
  have whole := firstLine_whole inside
  rcases ends with last | full
  · exact absurd ((lineUpTo_front newline size f.rbuf).subset (List.mem_of_getLast? last)) inside
  · obtain ⟨n, rfl⟩ := Int.eq_ofNat_of_zero_le (full ▸ Int.natCast_nonneg _)
    rw [lineUpTo, whole, upTo_nat, List.length_take, Int.natCast_inj] at full
    rw [lineUpTo, lineUpTo, whole, upTo_nat, upTo_nat, FileObject.stream, firstLine_of_not_mem inside,
      List.take_append_of_le_length (by omega)]

omit ready in
theorem lineInBuffer_none {size : Int} (found : lineInBuffer f.rbuf size = none) :
    newline ∉ f.rbuf ∧ (0 ≤ size → f.rbuf.length ≤ size.toNat) := by
  rw [lineInBuffer, ite_eq_right_iff] at found
  by_cases empty : f.rbuf = []
  · rw [empty]
    exact ⟨List.not_mem_nil, fun _ => Nat.zero_le _⟩
  have neither : ¬ ((lineUpTo newline size f.rbuf).getLast? = some newline ∨
      ((lineUpTo newline size f.rbuf).length : Int) = size) := by
    intro ends
    cases found ⟨List.length_pos_of_ne_nil empty, ends⟩
  obtain ⟨notLast, notFull⟩ := not_or.mp neither
  have short : 0 ≤ size → (firstLine newline f.rbuf).length ≤ size.toNat := by
    intro some_
    obtain ⟨n, rfl⟩ := Int.eq_ofNat_of_zero_le some_
    rw [lineUpTo, upTo_nat, List.length_take] at notFull
    rw [Int.toNat_natCast]
    omega
  have whole : lineUpTo newline size f.rbuf = firstLine newline f.rbuf := by
    rw [lineUpTo, upTo]
    split_ifs with all
    · rfl
    · exact List.take_of_length_le (short (by omega))
  rw [whole, getLast?_firstLine] at notLast
  rw [firstLine_whole notLast] at short
  exact ⟨notLast, short⟩

theorem ioReadline_served (some_ : 1 ≤ S.rbufsize) (size : Int) :
    ∃ f', ioReadline S fuel size f = .ok (lineUpTo newline size f.stream) f' ∧
      Served S fuel f (lineUpTo newline size f.stream) f' := by
  rw [ioReadline, get_bind]
  cases found : lineInBuffer f.rbuf size with
  | some taken =>
    obtain ⟨bline, rest⟩ := taken
    obtain ⟨line, front, rfl⟩ := lineInBuffer_some found
    rw [line]
    exact ⟨_, by simp only [setRbuf_bind, pure_run], served_buffer ready front⟩
  | none =>
    obtain ⟨outside, short⟩ := lineInBuffer_none found
    simp only [lineUpTo, upTo]
    by_cases all : size < 0
    · rw [if_pos all, if_pos all, setRbuf_bind]
      by_cases bytewise : S.rbufsize ≤ 1
      · obtain ⟨f', run, left⟩ := unbufferedLoop_calm (f := f.drained) ready.calm f.rbuf rfl ready.enough
        rw [if_pos bytewise, FileObject.stream, firstLine_of_not_mem outside]
        exact ⟨f', run, served_socket ready left⟩
      · obtain ⟨f', run, left⟩ := lineLoop_calm (f := f.drained) some_ ready.calm f.rbuf rfl ready.enough
        rw [if_neg bytewise, FileObject.stream, firstLine_of_not_mem outside]
        exact ⟨f', run, served_socket ready left⟩
    rw [if_neg all, if_neg all]
    have part : newline ∉ f.rbuf.take size.toNat := fun inside => outside (List.mem_of_mem_take inside)
    by_cases inBuffer : size.toNat ≤ f.rbuf.length
    · rw [if_pos inBuffer, setRbuf_bind, FileObject.stream, take_firstLine_of_le part inBuffer]
      exact ⟨_, rfl, served_take ready inBuffer⟩
    · obtain ⟨f', run, left⟩ := strLineLoop_calm (f := f.drained) some_ ready.calm f.rbuf rfl
        (Nat.lt_of_not_le inBuffer) ready.enough
      rw [if_neg inBuffer, setRbuf_bind, FileObject.stream, take_firstLine_of_lt part (short (by omega))]
      exact ⟨f', (ioLineLoop_eq S size.toNat fuel f.rbuf rfl).trans run, served_socket ready left⟩

end Calls

/-- Every call of the file reads the stream. -/
theorem fileObject_served (received : 1 ≤ S.rbufsize) (received' : 1 ≤ S.default_bufsize) (ready : Ready S fuel f) (size : Int) :
    (∃ f', (fileObject S fuel).read size f = .ok (upTo size f.stream) f' ∧ Served S fuel f (upTo size f.stream) f') ∧
    ∃ f', (fileObject S fuel).readline size f = .ok (lineUpTo newline size f.stream) f' ∧
      Served S fuel f (lineUpTo newline size f.stream) f' := by
  simp only [fileObject]
  by_cases form : S.strType
  · rw [if_pos form, if_pos form]
    exact ⟨strRead_served ready received' size, strReadline_served ready received size⟩
  · rw [if_neg form, if_neg form]
    exact ⟨ioRead_served ready received' size, ioReadline_served ready received size⟩

theorem fileObject_reads (received : 1 ≤ S.rbufsize) (received' : 1 ≤ S.default_bufsize) :
    (fileObject S fuel).Reads newline FileObject.stream (Ready S fuel) where
  read ready size := by
    obtain ⟨f', run, served⟩ := (fileObject_served received received' ready size).1
    exact ⟨f', run, served.stream, served.ready⟩
  readline ready size := by
    obtain ⟨f', run, served⟩ := (fileObject_served received received' ready size).2
    exact ⟨f', run, served.stream, served.ready⟩

/-- A call of the application. -/
inductive Call where
  | read (size : Int)
  | readline (size : Int)

/-- What the calls give of a text, and the text behind it. -/
def servings : List Call → Bytes → List Bytes × Bytes
  | [], s => ([], s)
  | .read size :: calls, s =>
    let (rs, rest) := servings calls (s.drop (upTo size s).length)
    (upTo size s :: rs, rest)
  | .readline size :: calls, s =>
    let (rs, rest) := servings calls (s.drop (lineUpTo newline size s).length)
    (lineUpTo newline size s :: rs, rest)

def runCalls (S : Settings) (fuel : Nat) : List Call → FileM (List Bytes)
  | [] => pure []
  | .read size :: calls => do
    let r ← (fileObject S fuel).read size
    let rs ← runCalls S fuel calls
    pure (r :: rs)
  | .readline size :: calls => do
    let r ← (fileObject S fuel).readline size
    let rs ← runCalls S fuel calls
    pure (r :: rs)

theorem drop_served {r : Bytes} {f' : FileObject} (served : Served S fuel f r f') : f.stream.drop r.length = f'.stream := by
  rw [served.stream, List.drop_left]

/-- Any calls of `read` and `readline` return what they should of the bytes that were there to read, in
whatever pieces these arrive, and leave the rest of them; `bytes_read` grows by those received. -/
theorem file_object_reads_stream (received : 1 ≤ S.rbufsize) (received' : 1 ≤ S.default_bufsize)
    (ready : Ready S fuel f) (calls : List Call) :
    ∃ f', runCalls S fuel calls f = .ok (servings calls f.stream).1 f' ∧ f'.stream = (servings calls f.stream).2 ∧
      f'.bytes_read + (pending f'.sock).length = f.bytes_read + (pending f.sock).length := by
  induction calls generalizing f with
  | nil => exact ⟨f, rfl, rfl, rfl⟩
  | cons call calls ih =>
    cases call with
    | read size =>
      obtain ⟨f₁, run, served⟩ := (fileObject_served received received' ready size).1
      obtain ⟨f', runs, rest, counted⟩ := ih served.ready
      simp only [servings, drop_served served]
      refine ⟨f', ?_, rest, counted.trans served.counted⟩
      rw [runCalls, bind_of_ok run, bind_of_ok runs]
      rfl
    | readline size =>
      obtain ⟨f₁, run, served⟩ := (fileObject_served received received' ready size).2
      obtain ⟨f', runs, rest, counted⟩ := ih served.ready
      simp only [servings, drop_served served]
      refine ⟨f', ?_, rest, counted.trans served.counted⟩
      rw [runCalls, bind_of_ok run, bind_of_ok runs]
      rfl

/-- A buffer of three bytes, and errors after which the call is made again. -/
def threeBytes (strType : Bool) : Settings where
  socket_errors_nonblocking := [.number 11]
  socket_error_eintr := [.number 4]
  strType := strType
  rbufsize := 3
  default_bufsize := 8192

/-- `"ab\ncd"`, in two pieces with an interrupt. -/
def twoPieces : FileObject where
  rbuf := []
  sock := [.data 97 [98], .error (.number 4), .data 10 [99, 100]]
  bytes_read := 0

theorem twoPieces_ready (strType : Bool) : Ready (threeBytes strType) 6 twoPieces where
  calm e inside := by
    simp only [twoPieces, List.mem_cons, Arrival.error.injEq, reduceCtorEq, List.not_mem_nil, false_or, or_false] at inside
    subst inside
    exact .inr List.mem_cons_self
  unbuffered _ := rfl
  enough := by decide

theorem file_object_reads_stream_two : ∃ f', runCalls (threeBytes false) 6 [.readline (-1), .read 1] twoPieces =
    .ok [[97, 98, 10], [99]] f' ∧ f'.stream = [100] := by
  obtain ⟨f', run, rest, -⟩ :=
    file_object_reads_stream (by decide) (by decide) (twoPieces_ready false) [.readline (-1), .read 1]
  exact ⟨f', run, rest⟩

end CodeClips.CherryPy
