import CodeClips.Aio.Sendfile
import Mathlib.Algebra.GroupWithZero.Nat

/-!
# The read and send server

The server that copies a file through a buffer of its own. Each round allocates a buffer,
reads the file into it and sends the whole buffer, however much has been read, and nothing is
kept of what one `send` leaves over. A transfer is a request and the rounds in which the
client is writable after it; the results of `read` and `send` and the memory that `malloc`
returns are the environment's. `received_iff` says for which results the client has the file
when the transfer is closed.
-/

namespace CodeClips.Aio.Send
open Sendfile (int int_of_lt)

abbrev Byte := BitVec 8

def BUFFSIZE : Nat := 10240

/-- What `read` and `send` return in a round. -/
structure Returns where
  ret : Int
  sent : Int

/-- A round, with the buffer as `malloc` returns it. -/
structure Round extends Returns where
  filebuf : List Byte

/-- How the server goes on with the client: it awaits its request, has failed to read for it,
awaits that the socket is writable, or has closed the file. -/
inductive Phase where
  | connected
  | failed
  | writing
  | closed
  deriving DecidableEq

/-- The variables of the server, the position of the open file, and what the client has got. -/
structure Transfer where
  phase : Phase
  offset : Int
  total : Int
  pos : Nat
  received : List Byte

def Transfer.start : Transfer :=
  { phase := .connected, offset := 0, total := 0, pos := 0, received := [] }

/-- `read(fd, filebuf, BUFFSIZE)` and `send(sockfd, filebuf, BUFFSIZE, 0)`. -/
def Transfer.copy (t : Transfer) (content : List Byte) (round : Round) : Transfer :=
  let filebuf := blit round.filebuf 0 (slice content t.pos round.ret.toNat)
  { t with pos := t.pos + round.ret.toNat, received := t.received ++ filebuf.take round.sent.toNat }

/-- `EPOLLIN`: the request for a file of this content, which `open` and `stat` find. -/
def onRequest (content : List Byte) (t : Transfer) (round : Round) : Transfer :=
  let st_size : Int := content.length
  let t := { t.copy content round with total := int st_size }
  if round.ret = -1 then { t with phase := .failed }
  else if round.ret ≠ st_size then { t with phase := .writing, offset := int (t.offset + round.ret) }
  else { t with phase := .closed, offset := 0 }

/-- `EPOLLOUT`. -/
def onWritable (content : List Byte) (t : Transfer) (round : Round) : Transfer :=
  if round.ret = -1 then t.copy content round
  else if t.offset < t.total then { t.copy content round with offset := int (t.offset + round.ret) }
  else { t.copy content round with phase := .closed, offset := 0 }

/-- What the calls of a round can return, where the file has `left` bytes from its position on. -/
structure Round.Possible (round : Round) (left : Nat) : Prop where
  buffer : round.filebuf.length = BUFFSIZE
  read_least : -1 ≤ round.ret
  read_most : round.ret ≤ BUFFSIZE
  read_left : round.ret ≤ left
  send_least : -1 ≤ round.sent
  send_most : round.sent ≤ BUFFSIZE

inductive Step (content : List Byte) : Transfer → Round → Transfer → Prop where
  | request {t : Transfer} {round : Round} (phase : t.phase = .connected)
      (possible : round.Possible (content.length - t.pos)) : Step content t round (onRequest content t round)
  | writable {t : Transfer} {round : Round} (phase : t.phase = .writing)
      (possible : round.Possible (content.length - t.pos)) : Step content t round (onWritable content t round)

/-- The transfer of a file of this size ends, where the calls return these results. -/
def Closes (size : Nat) (returns : List Returns) : Prop :=
  ∃ (content : List Byte) (rounds : List Round) (t : Transfer),
    content.length = size ∧ rounds.map Round.toReturns = returns ∧ Path (Step content) .start rounds t ∧ t.phase = .closed

/-! ## One round -/

section Round
variable {content : List Byte} {t t' : Transfer} {round : Round}

/-- Every round copies, and moves the position inside the file. -/
structure Copied (content : List Byte) (t : Transfer) (round : Round) (t' : Transfer) : Prop where
  possible : round.Possible (content.length - t.pos)
  pos : t'.pos = t.pos + round.ret.toNat
  received : t'.received =
    t.received ++ (blit round.filebuf 0 (slice content t.pos round.ret.toNat)).take round.sent.toNat

theorem copied_of_step (step : Step content t round t') : Copied content t round t' := by
  cases step with
  | request phase possible =>
    refine ⟨possible, ?_, ?_⟩
    · simp only [onRequest, Transfer.copy, apply_ite Transfer.pos, ite_self]
    · simp only [onRequest, Transfer.copy, apply_ite Transfer.received, ite_self]
  | writable phase possible =>
    refine ⟨possible, ?_, ?_⟩
    · simp only [onWritable, Transfer.copy, apply_ite Transfer.pos, ite_self]
    · simp only [onWritable, Transfer.copy, apply_ite Transfer.received, ite_self]

theorem Copied.pos_le (copied : Copied content t round t') (inside : t.pos ≤ content.length) :
    t'.pos ≤ content.length := by
  have left := copied.possible.read_left
  rw [copied.pos]
  omega

/-- As many bytes as `read` returns are of the file, the rest of the buffer is not. -/
theorem Copied.slice_length (copied : Copied content t round t') :
    (slice content t.pos round.ret.toNat).length = round.ret.toNat := by
  have left := copied.possible.read_left
  rw [CodeClips.slice_length]
  omega

/-- A round that sends what it reads extends a prefix of the file. -/
theorem Copied.take (copied : Copied content t round t') (exact : round.sent.toNat = round.ret.toNat)
    (before : t.received = content.take t.pos) : t'.received = content.take t'.pos := by
  have length := copied.slice_length
  have sent : (blit round.filebuf 0 (slice content t.pos round.ret.toNat)).take round.ret.toNat =
      slice content t.pos round.ret.toNat := by
    rw [blit_zero, length]
    exact List.take_left' length
  rw [copied.received, copied.pos, exact, sent, before, List.take_add]
  rfl

end Round

/-! ## A transfer to its end -/

theorem pos_of_path {content : List Byte} {t t' : Transfer} {rounds : List Round} (path : Path (Step content) t rounds t')
    (inside : t.pos ≤ content.length) :
    t'.pos ≤ content.length ∧ t'.pos = t.pos + (rounds.map fun round => round.ret.toNat).sum := by
  induction path with
  | nil t => exact ⟨inside, by simp⟩
  | cons next _ ih =>
    have copied := copied_of_step next
    obtain ⟨least, sum⟩ := ih (copied.pos_le inside)
    refine ⟨least, ?_⟩
    rw [sum, copied.pos, List.map_cons, List.sum_cons]
    omega

/-- Rounds that send what they read leave the client with the file up to the position. -/
theorem received_of_exact {content : List Byte} {t : Transfer} {rounds : List Round}
    (path : Path (Step content) .start rounds t) (exact : ∀ round ∈ rounds, round.sent.toNat = round.ret.toNat) :
    t.received = content.take t.pos := by
  apply path.invariant (I := fun t => t.received = content.take t.pos)
  · intro t round t' member before step
    exact (copied_of_step step).take (exact round member) before
  · rfl

/-- Where a round leads. -/
inductive Goes (content : List Byte) (t : Transfer) (round : Round) (t' : Transfer) : Prop where
  | failed (phase : t.phase = .connected) (next : t'.phase = .failed)
  | rest (phase : t.phase = .connected) (reads : round.ret ≠ -1) (next : t'.phase = .writing)
      (offset : t'.offset = int (t.offset + round.ret)) (total : t'.total = int content.length)
  | whole (phase : t.phase = .connected) (all : round.ret = content.length) (next : t'.phase = .closed)
  | again (phase : t.phase = .writing) (fails : round.ret = -1) (next : t'.phase = .writing)
      (offset : t'.offset = t.offset) (total : t'.total = t.total)
  | more (phase : t.phase = .writing) (reads : round.ret ≠ -1) (next : t'.phase = .writing)
      (offset : t'.offset = int (t.offset + round.ret)) (total : t'.total = t.total)
  | done (phase : t.phase = .writing) (all : t.total ≤ t.offset) (next : t'.phase = .closed)

theorem goes_of_step {content : List Byte} {t t' : Transfer} {round : Round} (step : Step content t round t') :
    Goes content t round t' := by
  cases step with
  | request phase possible =>
    simp only [onRequest]
    split
    · exact .failed phase rfl
    · rename_i reads
      split
      · exact .rest phase reads rfl rfl rfl
      · rename_i all
        exact .whole phase (not_not.mp all) rfl
  | writable phase possible =>
    simp only [onWritable]
    split
    · rename_i fails
      exact .again phase fails phase rfl rfl
    · rename_i reads
      split
      · exact .more phase reads phase rfl rfl
      · rename_i all
        exact .done phase (not_lt.mp all) rfl

/-- Below 2^31 bytes the server stops only when it has read the whole file. -/
structure Reading (content : List Byte) (t : Transfer) : Prop where
  inside : t.pos ≤ content.length
  connected : t.phase = .connected → t.offset = 0 ∧ t.pos = 0
  writing : t.phase = .writing → t.offset = t.pos ∧ t.total = content.length
  closed : t.phase = .closed → t.pos = content.length

theorem Reading.of_writing {content : List Byte} {t : Transfer} (inside : t.pos ≤ content.length)
    (phase : t.phase = .writing) (offset : t.offset = t.pos) (total : t.total = content.length) : Reading content t := by
  refine ⟨inside, ?_, fun _ => ⟨offset, total⟩, ?_⟩
  all_goals
    intro other
    rw [phase] at other
    cases other

theorem Reading.of_closed {content : List Byte} {t : Transfer} (phase : t.phase = .closed)
    (whole : t.pos = content.length) : Reading content t := by
  refine ⟨whole.le, ?_, ?_, fun _ => whole⟩
  all_goals
    intro other
    rw [phase] at other
    cases other

theorem Reading.step {content : List Byte} {t t' : Transfer} {round : Round} (small : (content.length : Int) < 2 ^ 31)
    (reading : Reading content t) (step : Step content t round t') : Reading content t' := by
  have copied := copied_of_step step
  have inside := copied.pos_le reading.inside
  have least := copied.possible.read_least
  have before := reading.inside
  have pos := copied.pos
  have size : int content.length = content.length := int_of_lt (Int.natCast_nonneg _) small
  have fits : int t'.pos = t'.pos := int_of_lt (Int.natCast_nonneg _) (by omega)
  cases goes_of_step step with
  | failed phase next =>
    refine ⟨inside, ?_, ?_, ?_⟩
    all_goals
      intro other
      rw [next] at other
      cases other
  | rest phase reads next offset total =>
    obtain ⟨none, start⟩ := reading.connected phase
    have sum : t.offset + round.ret = t'.pos := by omega
    apply Reading.of_writing inside next
    · rw [offset, sum, fits]
    · rw [total, size]
  | whole phase all next =>
    obtain ⟨none, start⟩ := reading.connected phase
    exact .of_closed next (by omega)
  | again phase fails next offset total =>
    obtain ⟨offset', total'⟩ := reading.writing phase
    apply Reading.of_writing inside next
    · omega
    · rw [total, total']
  | more phase reads next offset total =>
    obtain ⟨offset', total'⟩ := reading.writing phase
    have sum : t.offset + round.ret = t'.pos := by omega
    apply Reading.of_writing inside next
    · rw [offset, sum, fits]
    · rw [total, total']
  | done phase all next =>
    obtain ⟨offset', total'⟩ := reading.writing phase
    exact .of_closed next (by omega)

/-- A file below 2^31 bytes has been read to its end when the server closes it. -/
theorem read_whole {content : List Byte} {rounds : List Round} {t : Transfer} (small : (content.length : Int) < 2 ^ 31)
    (path : Path (Step content) .start rounds t) (closed : t.phase = .closed) : t.pos = content.length := by
  have reading : Reading content t := by
    apply path.invariant (I := Reading content)
    · exact fun t round t' _ reading step => reading.step small step
    · exact ⟨Nat.zero_le _, fun _ => ⟨rfl, rfl⟩, fun phase => (nomatch phase), fun phase => (nomatch phase)⟩
  exact reading.closed closed

/-! ## A file of zeros, a memory of ones -/

/-- The server does not look at what it copies. -/
structure Alike (s t : Transfer) : Prop where
  phase : s.phase = t.phase
  offset : s.offset = t.offset
  total : s.total = t.total
  pos : s.pos = t.pos

theorem Alike.step {content content' : List Byte} {s t t' : Transfer} {round round' : Round} (alike : Alike s t)
    (length : content'.length = content.length) (returns : round'.toReturns = round.toReturns)
    (buffer : round'.filebuf.length = BUFFSIZE) (step : Step content t round t') :
    ∃ s', Step content' s round' s' ∧ Alike s' t' := by
  have ret : round'.ret = round.ret := congrArg Returns.ret returns
  have sent : round'.sent = round.sent := congrArg Returns.sent returns
  have possible' (possible : round.Possible (content.length - t.pos)) : round'.Possible (content'.length - s.pos) := by
    rw [length, alike.pos]
    exact ⟨buffer, ret ▸ possible.read_least, ret ▸ possible.read_most, ret ▸ possible.read_left,
      sent ▸ possible.send_least, sent ▸ possible.send_most⟩
  cases step with
  | request phase possible =>
    refine ⟨_, .request (alike.phase.trans phase) (possible' possible), ?_⟩
    simp only [onRequest, Transfer.copy, length, ret, alike.offset, alike.pos]
    split_ifs
    all_goals
      constructor <;> rfl
  | writable phase possible =>
    refine ⟨_, .writable (alike.phase.trans phase) (possible' possible), ?_⟩
    simp only [onWritable, Transfer.copy, ret, alike.phase, alike.offset, alike.total, alike.pos]
    split_ifs
    all_goals
      constructor <;> rfl

theorem Alike.path {content content' : List Byte} {s t t' : Transfer} {rounds rounds' : List Round} (alike : Alike s t)
    (length : content'.length = content.length) (returns : rounds'.map Round.toReturns = rounds.map Round.toReturns)
    (buffers : ∀ round ∈ rounds', round.filebuf.length = BUFFSIZE) (path : Path (Step content) t rounds t') :
    ∃ s', Path (Step content') s rounds' s' ∧ Alike s' t' := by
  induction path generalizing s rounds' with
  | nil t =>
    rw [List.map_nil, List.map_eq_nil_iff] at returns
    subst returns
    exact ⟨s, .nil s, alike⟩
  | @cons t u t' round rounds next _ ih =>
    cases rounds' with
    | nil => cases returns
    | cons round' rounds' =>
      rw [List.map_cons, List.map_cons, List.cons.injEq] at returns
      rw [List.forall_mem_cons] at buffers
      obtain ⟨u', next', alike'⟩ := alike.step length returns.1 buffers.1 next
      obtain ⟨s', rest', last⟩ := ih alike' returns.2 buffers.2
      exact ⟨s', .cons next' rest', last⟩

def zeros (size : Nat) : List Byte := List.replicate size 0

/-- The round of these results in which `malloc` returns ones. -/
def marked (returns : Returns) : Round := { returns with filebuf := List.replicate BUFFSIZE 1 }

/-- What a round sends of zeros and ones: the zeros that it has read, and ones after them. -/
theorem marked_copied {size : Nat} {t t' : Transfer} {returns : Returns}
    (copied : Copied (zeros size) t (marked returns) t') :
    t'.received.length = t.received.length + returns.sent.toNat ∧
      t'.received.count 1 = t.received.count 1 + (returns.sent.toNat - returns.ret.toNat) := by
  have read := copied.slice_length
  have most := copied.possible.read_most
  have sends := copied.possible.send_most
  have zero : slice (zeros size) t.pos returns.ret.toNat = List.replicate returns.ret.toNat 0 := by
    rw [List.eq_replicate_iff]
    refine ⟨read, ?_⟩
    intro byte member
    exact List.eq_of_mem_replicate (List.mem_of_mem_drop (List.mem_of_mem_take member))
  have difference : ((0 : Byte) == 1) = false := rfl
  change returns.ret ≤ BUFFSIZE at most
  change returns.sent ≤ BUFFSIZE at sends
  rw [copied.received, marked, zero, blit_zero]
  simp only [List.length_replicate, List.drop_replicate, List.take_append, List.take_replicate, List.length_append,
    List.count_append, List.count_replicate, difference, beq_self_eq_true, if_true, Bool.false_eq_true, if_false]
  omega

theorem marked_path {size : Nat} {t t' : Transfer} {returns : List Returns}
    (path : Path (Step (zeros size)) t (returns.map marked) t') :
    t'.received.length = t.received.length + (returns.map fun r => r.sent.toNat).sum ∧
      t'.received.count 1 = t.received.count 1 + (returns.map fun r => r.sent.toNat - r.ret.toNat).sum := by
  induction returns generalizing t with
  | nil =>
    cases path
    exact ⟨rfl, rfl⟩
  | cons r returns ih =>
    cases path with
    | cons next rest =>
      obtain ⟨length, count⟩ := marked_copied (copied_of_step next)
      obtain ⟨length', count'⟩ := ih rest
      simp only [List.map_cons, List.sum_cons]
      omega

theorem sent_le_read {returns : List Returns} (excess : (returns.map fun r => r.sent.toNat - r.ret.toNat).sum = 0) :
    (returns.map fun r => r.sent.toNat).sum ≤ (returns.map fun r => r.ret.toNat).sum := by
  induction returns with
  | nil => exact le_refl _
  | cons r returns ih =>
    simp only [List.map_cons, List.sum_cons] at excess ⊢
    have later := ih (by omega)
    omega

/-- No round sends more than it reads, and together they send as much. -/
theorem exact_of_sums {returns : List Returns} (excess : (returns.map fun r => r.sent.toNat - r.ret.toNat).sum = 0)
    (least : (returns.map fun r => r.ret.toNat).sum ≤ (returns.map fun r => r.sent.toNat).sum) :
    ∀ r ∈ returns, r.sent.toNat = r.ret.toNat := by
  induction returns with
  | nil => exact fun r member => nomatch member
  | cons r returns ih =>
    simp only [List.map_cons, List.sum_cons] at excess least
    have later := @sent_le_read returns (by omega)
    rw [List.forall_mem_cons]
    exact ⟨by omega, ih (by omega) (by omega)⟩

/-- The client has the file when the transfer is closed, whatever the file and the memory
hold, exactly if every round sends as many bytes as it reads and all of the file is read. -/
theorem received_iff {size : Nat} {returns : List Returns} (closes : Closes size returns) :
    (∀ (content : List Byte) (rounds : List Round) (t : Transfer), content.length = size →
        rounds.map Round.toReturns = returns → Path (Step content) .start rounds t → t.phase = .closed →
        t.received = content) ↔
      (∀ r ∈ returns, r.sent.toNat = r.ret.toNat) ∧ (returns.map fun r => r.ret.toNat).sum = size := by
  constructor
  · intro delivers
    obtain ⟨content, rounds, t, length, results, path, closed⟩ := closes
    have alike : Alike .start .start := ⟨rfl, rfl, rfl, rfl⟩
    have size_eq : (zeros size).length = content.length := by rw [zeros, List.length_replicate, length]
    have results' : (returns.map marked).map Round.toReturns = rounds.map Round.toReturns := by
      rw [List.map_map, results]
      exact List.map_id' returns
    have buffers : ∀ round ∈ returns.map marked, round.filebuf.length = BUFFSIZE := by
      intro round member
      obtain ⟨r, -, rfl⟩ := List.mem_map.mp member
      exact List.length_replicate
    obtain ⟨t', path', alike⟩ := alike.path size_eq results' buffers path
    have same : t'.received = zeros size := by
      apply delivers (zeros size) (returns.map marked) t' List.length_replicate _ path' (alike.phase.trans closed)
      rw [List.map_map]
      exact List.map_id' returns
    obtain ⟨sent, ones⟩ := marked_path path'
    obtain ⟨inside, read⟩ := pos_of_path path' (Nat.zero_le _)
    have reads : (returns.map marked).map (fun round => round.ret.toNat) = returns.map fun r => r.ret.toNat :=
      List.map_map
    have none : (zeros size).count 1 = 0 := List.count_replicate
    have start : Transfer.start.received = [] := rfl
    have front : Transfer.start.pos = 0 := rfl
    rw [same, start, zeros, List.length_replicate, List.length_nil, Nat.zero_add] at sent
    rw [same, start, none, List.count_nil, Nat.zero_add] at ones
    rw [zeros, List.length_replicate] at inside
    rw [reads, front, Nat.zero_add] at read
    have most := sent_le_read ones.symm
    exact ⟨exact_of_sums ones.symm (by omega), by omega⟩
  · rintro ⟨exact, whole⟩ content rounds t length results path closed
    subst results
    rw [List.forall_mem_map] at exact
    obtain ⟨-, read⟩ := pos_of_path path (Nat.zero_le _)
    rw [List.map_map] at whole
    have all : t.pos = content.length := by
      rw [read, length, ← whole]
      exact Nat.zero_add _
    rw [received_of_exact path exact, all, List.take_length]

/-- A file of three bytes, sent in two short parts: the last round reads and sends nothing. -/
theorem received_iff_three : Closes 3 [⟨2, 2⟩, ⟨1, 1⟩, ⟨0, -1⟩] ∧
    ((∀ (content : List Byte) (rounds : List Round) (t : Transfer), content.length = 3 →
        rounds.map Round.toReturns = [⟨2, 2⟩, ⟨1, 1⟩, ⟨0, -1⟩] → Path (Step content) .start rounds t →
        t.phase = .closed → t.received = content) ↔
      (∀ r ∈ [(⟨2, 2⟩ : Returns), ⟨1, 1⟩, ⟨0, -1⟩], r.sent.toNat = r.ret.toNat) ∧
        ([(⟨2, 2⟩ : Returns), ⟨1, 1⟩, ⟨0, -1⟩].map fun r => r.ret.toNat).sum = 3) := by
  have closes : Closes 3 [⟨2, 2⟩, ⟨1, 1⟩, ⟨0, -1⟩] := by
    have buffer (r : Returns) : (marked r).filebuf.length = BUFFSIZE := List.length_replicate
    let t₁ := onRequest (zeros 3) .start (marked ⟨2, 2⟩)
    let t₂ := onWritable (zeros 3) t₁ (marked ⟨1, 1⟩)
    have first : Step (zeros 3) .start (marked ⟨2, 2⟩) t₁ :=
      .request rfl ⟨buffer _, by decide, by decide, by decide, by decide, by decide⟩
    have second : Step (zeros 3) t₁ (marked ⟨1, 1⟩) t₂ :=
      .writable rfl ⟨buffer _, by decide, by decide, by decide, by decide, by decide⟩
    have third : Step (zeros 3) t₂ (marked ⟨0, -1⟩) (onWritable (zeros 3) t₂ (marked ⟨0, -1⟩)) :=
      .writable rfl ⟨buffer _, by decide, by decide, by decide, by decide, by decide⟩
    exact ⟨zeros 3, [marked ⟨2, 2⟩, marked ⟨1, 1⟩, marked ⟨0, -1⟩], _, rfl, rfl,
      .cons first (.cons second (.cons third (.nil _))), rfl⟩
  exact ⟨closes, received_iff closes⟩

/-- A file of three bytes goes out with the rest of the buffer after it. -/
theorem received_with_rest : ¬ ∀ (content : List Byte) (rounds : List Round) (t : Transfer),
    Path (Step content) .start rounds t → t.phase = .closed → t.received = content := by
  intro delivers
  have step : Step (zeros 3) .start (marked ⟨3, 10240⟩) (onRequest (zeros 3) .start (marked ⟨3, 10240⟩)) :=
    .request rfl ⟨List.length_replicate, by decide, by decide, by decide, by decide, by decide⟩
  have same := delivers (zeros 3) [marked ⟨3, 10240⟩] _ (.cons step (.nil _)) rfl
  obtain ⟨length, -⟩ := marked_copied (copied_of_step step)
  rw [same] at length
  have differ : ¬ (zeros 3).length = Transfer.start.received.length + (10240 : Int).toNat := by decide
  exact differ length

end CodeClips.Aio.Send
