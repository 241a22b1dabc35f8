import CodeClips.Aio.EchoServer

/-!
# What the echo server keeps

Three laws of a connection, and the runs in which each holds: what is sent is a prefix of what
has been received (`echo_prefix`), the position and the size stay in the buffer
(`bounds_iff`), and a healthy connection is not closed (`healthy_iff`). All three hold as long
as the server reads only what it has room for, with nothing left to send; the buffer is used
up once, as `pos` never goes back.
-/

namespace CodeClips.Aio

/-! ## The stream -/

/-- While the connection is open, what has been received and not sent is in the buffer. -/
structure Connection.Queued (c : Connection) : Prop where
  buffer : c.client.buf.length = BUF_SIZE
  pos : 0 ≤ c.client.pos
  size : 0 ≤ c.client.size
  fits : c.client.pos + c.client.size ≤ BUF_SIZE
  books : c.received = c.sent ++ slice c.client.buf c.client.pos.toNat c.client.size.toNat

/-- An open connection has its queue in the buffer, or has lost some of it to a read, and then
less is stored than is left to send. -/
structure Connection.Known (c : Connection) : Prop where
  size : 0 ≤ c.client.size
  begins : c.client.pos ≤ c.stored
  ends : c.stored ≤ c.client.pos + c.client.size
  queued : c.client.pos + c.client.size ≤ c.stored → c.Queued

structure Connection.InOrder (c : Connection) : Prop where
  known : c.opened = true → c.Known
  pfx : c.sent <+: c.received

/-- A write that sends something finds all that is left to send stored in the buffer: since the
bytes left to send began to queue, no read has been made. -/
def Connection.SendsStored (c : Connection) : Event → Prop
  | .readable _ _ => True
  | .writable nwrite _ => 0 < nwrite → c.client.pos + c.client.size ≤ c.stored

section Step
variable {c c' : Connection} {e : Event}

theorem Connection.Queued.pfx (queued : c.Queued) : c.sent <+: c.received :=
  ⟨_, queued.books.symm⟩

theorem Connection.Queued.read (queued : c.Queued) {nread : Int} {data : List Byte} (some : 0 < nread)
    (returns : ReadReturns (BUF_SIZE - c.client.pos) nread data) (drained : c.client.size = 0) :
    (onReadPrepared c nread data).Queued := by
  have room := returns.most
  have fits := queued.fits
  have pos := queued.pos
  have length := returns.length
  have buffer := queued.buffer
  rw [onReadPrepared_reads some]
  refine ⟨?_, pos, ?_, ?_, ?_⟩
  · rw [length_blit, buffer]
    omega
  · dsimp only
    omega
  · dsimp only
    omega
  · have before := queued.books
    rw [drained] at before
    have here : slice (blit c.client.buf c.client.pos.toNat data) c.client.pos.toNat (c.client.size + nread).toNat =
        data := by
      rw [drained, Int.zero_add, ← length]
      exact slice_blit (by omega)
    dsimp only
    rw [here, before]
    simp [slice]

theorem Connection.Queued.write (queued : c.Queued) {nwrite : Int} {behind : List Byte} (some : 0 < nwrite)
    (returns : WriteReturns c.client nwrite behind) : (onWritePrepared c nwrite behind).Queued := by
  have most := returns.most
  have fits := queued.fits
  have pos := queued.pos
  have buffer := queued.buffer
  rw [onWritePrepared_writes some]
  refine ⟨buffer, ?_, ?_, ?_, ?_⟩
  · dsimp only
    omega
  · dsimp only
    omega
  · dsimp only
    omega
  · have bytes : (c.client.buf.drop c.client.pos.toNat ++ behind).take nwrite.toNat =
        slice c.client.buf c.client.pos.toNat nwrite.toNat := by
      rw [slice, List.take_append_of_le_length]
      rw [List.length_drop]
      omega
    have sizes : c.client.size.toNat = nwrite.toNat + (c.client.size - nwrite).toNat := by omega
    have next : (c.client.pos + nwrite).toNat = c.client.pos.toNat + nwrite.toNat := by omega
    have before := queued.books
    rw [sizes, slice_add] at before
    dsimp only
    rw [bytes, next, before, List.append_assoc]

theorem Connection.Known.read (known : c.Known) {nread : Int} {data : List Byte} (some : 0 < nread)
    (returns : ReadReturns (BUF_SIZE - c.client.pos) nread data) : (onReadPrepared c nread data).Known := by
  have size := known.size
  have begins := known.begins
  have ends := known.ends
  refine ⟨?_, ?_, ?_, fun stored => ?_⟩
  · rw [onReadPrepared_reads some]
    dsimp only
    omega
  · rw [onReadPrepared_reads some]
    dsimp only
    omega
  · rw [onReadPrepared_reads some]
    dsimp only
    omega
  · -- all is stored only if nothing had been left to send
    rw [onReadPrepared_reads some] at stored
    dsimp only at stored
    have drained : c.client.size = 0 := by omega
    exact (known.queued (by omega)).read some returns drained

theorem Connection.Known.write (known : c.Known) {nwrite : Int} {behind : List Byte} (some : 0 < nwrite)
    (returns : WriteReturns c.client nwrite behind) (stored : c.client.pos + c.client.size ≤ c.stored) :
    (onWritePrepared c nwrite behind).Known := by
  have most := returns.most
  have ends := known.ends
  refine ⟨?_, ?_, ?_, fun _ => (known.queued stored).write some returns⟩
  · rw [onWritePrepared_writes some]
    dsimp only
    omega
  · rw [onWritePrepared_writes some]
    dsimp only
    omega
  · rw [onWritePrepared_writes some]
    dsimp only
    omega

/-- **One step** keeps the stream in order, if a write sends what is stored. -/
theorem Connection.step_inOrder (order : c.InOrder) (step : c.Step e c') (ok : c.SendsStored e) : c'.InOrder := by
  cases step with
  | readable opened returns =>
    obtain some | none := Int.lt_or_le 0 _
    · refine ⟨fun _ => (order.known opened).read some returns, ?_⟩
      rw [onReadPrepared_reads some]
      exact order.pfx.trans (List.prefix_append ..)
    · rw [onReadPrepared_closes none]
      exact ⟨nofun, order.pfx⟩
  | writable opened registered returns =>
    obtain some | none := Int.lt_or_le 0 _
    · have queued := (order.known opened).queued (ok some)
      exact ⟨fun _ => (order.known opened).write some returns (ok some), (queued.write some returns).pfx⟩
    · rw [onWritePrepared_closes none]
      exact ⟨nofun, order.pfx⟩

end Step

/-- **The stream**: if no write sends anything after a read that has found bytes left to send,
what has been sent is at every moment a prefix of what has been received. -/
theorem echo_prefix {buf : List Byte} (size : buf.length = BUF_SIZE) {events : List Event}
    (stored : StepsMeet Connection.Step Connection.SendsStored (.start buf) events) :
    Always Connection.Step (fun c => c.sent <+: c.received) (.start buf) events := by
  apply always_of_stepsMeet (J := Connection.InOrder) ?_ ?_ ?_ stored
  · exact fun c e c' order step ok => Connection.step_inOrder order step ok
  · exact fun c order => order.pfx
  · have queued : (Connection.start buf).Queued := by
      refine ⟨size, Int.le_refl 0, Int.le_refl 0, ?_, ?_⟩
      · show (0 : Int) + 0 ≤ BUF_SIZE
        decide
      · simp [Connection.start, init_client, slice]
    exact ⟨fun _ => ⟨Int.le_refl 0, Int.le_refl 0, Int.le_refl 0, fun _ => queued⟩, queued.pfx⟩

/-- Two bytes are read and sent one by one. -/
theorem echo_prefix_two :
    Always Connection.Step (fun c => c.sent <+: c.received) (.start (List.replicate BUF_SIZE 0))
      [.readable 2 [1, 2], .writable 1 [], .writable 1 []] := by
  apply echo_prefix List.length_replicate
  intro c first
  refine ⟨trivial, ?_⟩
  cases first
  intro c' second
  refine ⟨fun _ => by decide, ?_⟩
  cases second
  intro c'' third
  exact ⟨fun _ => by decide, trivial⟩

/-- Two reads before a write: the third byte overwrites the first. -/
theorem echo_overwritten :
    ¬ Always Connection.Step (fun c => c.sent <+: c.received) (.start (List.replicate BUF_SIZE 0))
      [.readable 2 [1, 2], .readable 1 [3], .writable 3 []] := by
  intro always
  let c₀ := Connection.start (List.replicate BUF_SIZE 0)
  let c₁ := onReadPrepared c₀ 2 [1, 2]
  let c₂ := onReadPrepared c₁ 1 [3]
  have first : c₀.Step (.readable 2 [1, 2]) c₁ := .readable rfl ⟨by decide, by decide, by decide, rfl⟩
  have second : c₁.Step (.readable 1 [3]) c₂ := .readable rfl ⟨by decide, by decide, by decide, rfl⟩
  have third : c₂.Step (.writable 3 []) (onWritePrepared c₂ 3 []) := by
    refine .writable rfl rfl ⟨by decide, by decide, ?_⟩
    have whole : c₂.client.buf = [3, 2] ++ (List.replicate BUF_SIZE 0).drop 2 := rfl
    rw [whole]
    simp only [List.length_append, List.length_drop, List.length_replicate, List.length_cons, List.length_nil]
    decide
  have pfx := always.path (.cons first (.cons second (.cons third (.nil _))))
  have sent : (onWritePrepared c₂ 3 []).sent = [3, 2, 0] := rfl
  have received : (onWritePrepared c₂ 3 []).received = [1, 2, 3] := rfl
  rw [sent, received] at pfx
  exact absurd pfx (by decide)

/-! ## The bounds of the buffer -/

/-- The position and the size are in the buffer. -/
structure Connection.Bounded (c : Connection) : Prop where
  pos : 0 ≤ c.client.pos
  size : 0 ≤ c.client.size
  fits : c.client.pos + c.client.size ≤ BUF_SIZE

/-- As well, what is left to send has been read into the buffer. -/
structure Connection.Stored (c : Connection) : Prop where
  bounded : c.Bounded
  stored : c.client.pos + c.client.size ≤ c.stored

/-- A read has room behind what is left to send; a write that fails has had one before it that
did not. -/
def Connection.Fits (c : Connection) : Event → Prop
  | .readable nread _ => 0 < nread → c.client.pos + c.client.size + nread ≤ BUF_SIZE
  | .writable nwrite _ => nwrite = -1 → 1 ≤ c.client.pos

/-- A read finds nothing left to send; a write as above. -/
def Connection.FitsDrained (c : Connection) : Event → Prop
  | .readable nread _ => 0 < nread → c.client.size = 0
  | .writable nwrite _ => nwrite = -1 → 1 ≤ c.client.pos

section Bounds
variable {c c' : Connection} {e : Event}

theorem Connection.bounded_def :
    c.Bounded ↔ 0 ≤ c.client.pos ∧ 0 ≤ c.client.size ∧ c.client.pos + c.client.size ≤ BUF_SIZE :=
  ⟨fun b => ⟨b.pos, b.size, b.fits⟩, fun ⟨pos, size, fits⟩ => ⟨pos, size, fits⟩⟩

/-- Both handlers keep the sum of the position and the size, but for what is read. -/
theorem Connection.step_bounded_iff (bounded : c.Bounded) (step : c.Step e c') : c'.Bounded ↔ c.Fits e := by
  have pos := bounded.pos
  have size := bounded.size
  have fits := bounded.fits
  cases step with
  | readable opened returns =>
    unfold Fits
    obtain some | none := Int.lt_or_le 0 _
    · rw [onReadPrepared_reads some, bounded_def]
      dsimp only
      omega
    · rw [onReadPrepared_closes none]
      exact iff_of_true ⟨pos, size, fits⟩ fun some => by omega
  | writable opened registered returns =>
    have least := returns.least
    have most := returns.most
    unfold Fits
    obtain some | none := Int.lt_or_le 0 _
    · rw [onWritePrepared_writes some, bounded_def]
      dsimp only
      omega
    · rw [onWritePrepared_closes none, bounded_def]
      dsimp only
      omega

/-- What has been read into the buffer ends where the bytes left to send end. -/
theorem Connection.step_stored (stored : c.Stored) (ends : c.stored ≤ c.client.pos + c.client.size)
    (step : c.Step e c') :
    c'.stored ≤ c'.client.pos + c'.client.size ∧ (c'.Stored ↔ c.FitsDrained e) := by
  have pos := stored.bounded.pos
  have size := stored.bounded.size
  have fits := stored.bounded.fits
  have whole : c'.Stored ↔ c'.Bounded ∧ c'.client.pos + c'.client.size ≤ c'.stored :=
    ⟨fun s => ⟨s.bounded, s.stored⟩, fun ⟨b, s⟩ => ⟨b, s⟩⟩
  rw [whole, step_bounded_iff stored.bounded step]
  have before := stored.stored
  cases step with
  | readable opened returns =>
    have most := returns.most
    unfold Fits FitsDrained
    obtain some | none := Int.lt_or_le 0 _
    · rw [onReadPrepared_reads some]
      dsimp only
      omega
    · rw [onReadPrepared_closes none]
      dsimp only [close_client]
      omega
  | writable opened registered returns =>
    unfold Fits FitsDrained
    obtain some | none := Int.lt_or_le 0 _
    · rw [onWritePrepared_writes some]
      dsimp only
      omega
    · rw [onWritePrepared_closes none]
      dsimp only
      omega

/-- In such a state a read stores inside the buffer, and a write sends what is stored there. -/
theorem Connection.Stored.inside (stored : c.Stored) (step : c.Step e c') :
    match e with
    | .readable nread _ => 0 < nread → c.client.pos + nread ≤ BUF_SIZE
    | .writable nwrite _ => c.client.pos + nwrite ≤ c.stored := by
  have pos := stored.bounded.pos
  have fits := stored.bounded.fits
  have before := stored.stored
  cases step with
  | readable opened returns =>
    have most := returns.most
    have size := stored.bounded.size
    dsimp only
    omega
  | writable opened registered returns =>
    have most := returns.most
    dsimp only
    omega

end Bounds

/-- **The bounds**: which runs keep the position and the size in the buffer; which of them also
send only what has been stored; and that in these every read stores inside the buffer. -/
theorem bounds_iff (buf : List Byte) (events : List Event) :
    (Always Connection.Step Connection.Bounded (.start buf) events ↔
      StepsMeet Connection.Step Connection.Fits (.start buf) events) ∧
    (Always Connection.Step Connection.Stored (.start buf) events ↔
      StepsMeet Connection.Step Connection.FitsDrained (.start buf) events) ∧
    (∀ (c c' : Connection) nread data, c.Stored → c.Step (.readable nread data) c' → 0 < nread →
      0 ≤ c.client.pos ∧ c.client.pos + nread ≤ BUF_SIZE) ∧
    ∀ (c c' : Connection) nwrite behind, c.Stored → c.Step (.writable nwrite behind) c' →
      0 ≤ c.client.pos ∧ c.client.pos + nwrite ≤ c.stored := by
  have begin : (Connection.start buf).Bounded := by
    refine ⟨Int.le_refl 0, Int.le_refl 0, ?_⟩
    show (0 : Int) + 0 ≤ BUF_SIZE
    decide
  refine ⟨?_, ?_, ?_, ?_⟩
  · apply always_iff_stepsMeet (J := fun _ => True) ?_ ?_ trivial begin
    · exact fun _ _ _ _ _ _ => trivial
    · exact fun c e c' _ bounded step => Connection.step_bounded_iff bounded step
  · apply always_iff_stepsMeet (J := fun c => c.stored ≤ c.client.pos + c.client.size) ?_ ?_ ?_ ?_
    · exact fun c e c' ends stored step => (Connection.step_stored stored ends step).1
    · exact fun c e c' ends stored step => (Connection.step_stored stored ends step).2
    · exact Int.le_refl 0
    · exact ⟨begin, Int.le_refl 0⟩
  · exact fun c c' nread data stored step some => ⟨stored.bounded.pos, stored.inside step some⟩
  · exact fun c c' nwrite behind stored step => ⟨stored.bounded.pos, stored.inside step⟩

/-- Two reads of 1000 bytes before a write, and a write that fails before any has succeeded. -/
theorem bounds_left :
    ¬ Always Connection.Step Connection.Bounded (.start (List.replicate BUF_SIZE 0))
      [.readable 1000 (List.replicate 1000 0), .readable 1000 (List.replicate 1000 0)] ∧
    ¬ Always Connection.Step Connection.Bounded (.start (List.replicate BUF_SIZE 0))
      [.readable 1 [0], .writable (-1) []] := by
  let c₀ := Connection.start (List.replicate BUF_SIZE 0)
  constructor
  · intro always
    let c₁ := onReadPrepared c₀ 1000 (List.replicate 1000 0)
    have returns : ReadReturns (BUF_SIZE - 0) 1000 (List.replicate 1000 0) :=
      ⟨by decide, by decide, by decide, List.length_replicate⟩
    have first : c₀.Step (.readable 1000 (List.replicate 1000 0)) c₁ := .readable rfl returns
    have second : c₁.Step (.readable 1000 (List.replicate 1000 0)) _ := .readable rfl returns
    have fits := (always.path (.cons first (.cons second (.nil _)))).fits
    exact absurd fits (by decide)
  · intro always
    let c₁ := onReadPrepared c₀ 1 [0]
    have first : c₀.Step (.readable 1 [0]) c₁ := .readable rfl ⟨by decide, by decide, by decide, rfl⟩
    have second : c₁.Step (.writable (-1) []) _ := .writable rfl rfl ⟨by decide, by decide, Nat.zero_le _⟩
    have pos := (always.path (.cons first (.cons second (.nil _)))).pos
    exact absurd pos (by decide)

/-! ## Healthy connections -/

/-- The client neither closes nor fails: a read with a count brings something, and so does a
write of something that is in the buffer. -/
def Connection.Healthy (c : Connection) : Event → Prop
  | .readable nread _ => (c.client.pos < BUF_SIZE → 0 < nread) ∧ (c.client.pos = BUF_SIZE → nread = 0)
  | .writable nwrite _ => 0 < c.client.size → c.client.pos + c.client.size ≤ BUF_SIZE → 0 < nwrite

def Connection.HealthyStep (c : Connection) (e : Event) (c' : Connection) : Prop := c.Step e c' ∧ c.Healthy e

/-- There is room to read into, and what is written is in the buffer, or sent all the same. -/
def Connection.Room (c : Connection) : Event → Prop
  | .readable _ _ => c.client.pos < BUF_SIZE
  | .writable nwrite _ => c.client.pos + c.client.size ≤ BUF_SIZE ∨ 0 < nwrite

/-- A write is registered for only where there is something to send. -/
structure Connection.Waiting (c : Connection) : Prop where
  size : 0 ≤ c.client.size
  writable : c.writable = true → 0 < c.client.size

section Healthy
variable {c c' : Connection} {e : Event}

theorem Connection.step_waiting (waiting : c.Waiting) (step : c.Step e c') : c'.Waiting := by
  have size := waiting.size
  cases step with
  | readable opened returns =>
    obtain some | none := Int.lt_or_le 0 _
    · rw [onReadPrepared_reads some]
      refine ⟨?_, fun _ => ?_⟩
      · dsimp only
        omega
      · dsimp only
        omega
    · rw [onReadPrepared_closes none]
      exact ⟨size, nofun⟩
  | writable opened registered returns =>
    have most := returns.most
    obtain some | none := Int.lt_or_le 0 _
    · rw [onWritePrepared_writes some]
      refine ⟨?_, ?_⟩
      · dsimp only
        omega
      · dsimp only
        split_ifs with drained
        · nofun
        · intro _
          omega
    · rw [onWritePrepared_closes none]
      refine ⟨?_, nofun⟩
      dsimp only
      omega

/-- A handler closes the connection where it reads or writes nothing. -/
theorem Connection.step_opened_iff (step : c.Step e c') :
    c'.opened = true ↔ match e with
      | .readable nread _ => 0 < nread
      | .writable nwrite _ => 0 < nwrite := by
  cases step with
  | readable opened returns =>
    dsimp only
    obtain some | none := Int.lt_or_le 0 _
    · rw [onReadPrepared_reads some]
      exact iff_of_true opened some
    · rw [onReadPrepared_closes none]
      exact iff_of_false nofun (Int.not_lt.mpr none)
  | writable opened registered returns =>
    dsimp only
    obtain some | none := Int.lt_or_le 0 _
    · rw [onWritePrepared_writes some]
      exact iff_of_true opened some
    · rw [onWritePrepared_closes none]
      exact iff_of_false nofun (Int.not_lt.mpr none)

theorem Connection.step_room_iff (waiting : c.Waiting) (step : c.HealthyStep e c') :
    c'.opened = true ↔ c.Room e := by
  obtain ⟨step, healthy⟩ := step
  rw [step_opened_iff step]
  cases step with
  | readable opened returns =>
    obtain ⟨brings, full⟩ := healthy
    have refused := returns.refused
    unfold Room
    dsimp only
    omega
  | writable opened registered returns =>
    have something := waiting.writable registered
    have sends := healthy something
    unfold Room
    dsimp only
    omega

end Healthy

/-- **Healthy connections**: the server keeps one open exactly as long as it has not sent a
whole buffer before a readable event, and writes what is in the buffer. -/
theorem healthy_iff (buf : List Byte) (events : List Event) :
    Always Connection.HealthyStep (fun c => c.opened = true) (.start buf) events ↔
      StepsMeet Connection.HealthyStep Connection.Room (.start buf) events := by
  have begin : (Connection.start buf).opened = true := rfl
  have waiting : (Connection.start buf).Waiting := ⟨Int.le_refl 0, nofun⟩
  apply always_iff_stepsMeet (J := Connection.Waiting) ?_ ?_ waiting begin events
  · exact fun c e c' waiting _ step => Connection.step_waiting waiting step.1
  · exact fun c e c' waiting _ step => Connection.step_room_iff waiting step

/-- A client sends 1024 bytes, reads them back and sends one more. -/
theorem healthy_closed :
    ¬ Always Connection.HealthyStep (fun c => c.opened = true) (.start (List.replicate BUF_SIZE 0))
      [.readable 1024 (List.replicate 1024 1), .writable 1024 [], .readable 0 []] := by
  intro always
  let c₀ := Connection.start (List.replicate BUF_SIZE 0)
  let c₁ := onReadPrepared c₀ 1024 (List.replicate 1024 1)
  let c₂ := onWritePrepared c₁ 1024 []
  have first : c₀.HealthyStep (.readable 1024 (List.replicate 1024 1)) c₁ :=
    ⟨.readable rfl ⟨by decide, by decide, by decide, List.length_replicate⟩, by decide, by decide⟩
  have second : c₁.HealthyStep (.writable 1024 []) c₂ := by
    have room : c₀.client.pos.toNat + (List.replicate 1024 (1 : Byte)).length ≤ c₀.client.buf.length := by
      rw [List.length_replicate, show c₀.client.buf.length = BUF_SIZE from List.length_replicate]
      decide
    have whole : c₁.client.buf.length = BUF_SIZE := (length_blit room).trans List.length_replicate
    refine ⟨.writable rfl rfl ⟨by decide, by decide, ?_⟩, fun _ _ => by decide⟩
    rw [List.append_nil, List.length_drop, whole]
    decide
  have third : c₂.HealthyStep (.readable 0 []) (onReadPrepared c₂ 0 []) :=
    ⟨.readable rfl ⟨by decide, by decide, by decide, rfl⟩, by decide, by decide⟩
  have opened := always.path (.cons first (.cons second (.cons third (.nil _))))
  cases opened

end CodeClips.Aio
