import Mathlib.Logic.Function.Basic
import Mathlib.Tactic.SplitIfs
import Mathlib.Tactic.Tauto

/-!
# Streams to children

`popen` keeps the child of each stream in a table that is indexed by the stream's descriptor, and
`pclose` takes it from there. Between the call of `pipe` and the entry in the table `popen` can
fail in two ways, and in both it leaves descriptors open that nobody has: after a `fork` both ends
of the pipe, after an `fdopen` one. And `pclose` does not get to the wait if `fclose` fails. Runs
without these failures keep the account (`descriptors_iff`).

The answers of the system are part of the calls. What the child does on its own side is not here.
-/

namespace CodeClips.Popen

def maxfd : Nat := 10

abbrev Pid := Nat

/-- The parent: `pipes` are the descriptors of pipes that are open, `waits` the children that
`waitpid` has been called for, one by one. -/
structure State where
  childpid : Option (Nat → Pid)
  pipes : Nat → Bool
  waits : List Pid

def start : State := { childpid := none, pipes := fun _ => false, waits := [] }

namespace State

/-- The entry of a descriptor, 0 where there is no table yet. -/
def entry (s : State) (fd : Nat) : Pid :=
  match s.childpid with
  | some table => table fd
  | none => 0

def opened (s : State) (fd : Nat) : State := { s with pipes := Function.update s.pipes fd true }

def close (s : State) (fd : Nat) : State := { s with pipes := Function.update s.pipes fd false }

end State

/-- What happens in `popen`: whether `calloc` and `fdopen` succeed, the two ends of the pipe and the
child, if there are any. -/
structure Opening where
  calloc : Bool
  pipe : Option (Nat × Nat)
  fork : Option Pid
  fdopen : Bool

/-- What happens in `pclose`: whether `fclose` succeeds, how often `waitpid` is interrupted and what it
returns then. -/
structure Closing where
  fclose : Bool
  interrupted : Nat
  status : Option Int

/-- Behind the table. -/
def open_pipe (s : State) (table : Nat → Pid) (type : List Char) (o : Opening) : State × Option Nat :=
  match o.pipe with
  | none => (s, none)
  | some (pfd0, pfd1) =>
    let s := (s.opened pfd0).opened pfd1
    if pfd0 ≥ maxfd ∨ pfd1 ≥ maxfd then ((s.close pfd0).close pfd1, none)
    else
      match o.fork with
      | none => (s, none)
      | some pid =>
        let (mine, other) := if type.head? = some 'r' then (pfd0, pfd1) else (pfd1, pfd0)
        let s := s.close other
        if o.fdopen then ({ s with childpid := some (Function.update table mine pid) }, some mine) else (s, none)

/-- The stream is named by its descriptor. -/
def popen (s : State) (type : List Char) (o : Opening) : State × Option Nat :=
  if (type.head? ≠ some 'r' ∧ type.head? ≠ some 'w') ∨ type.tail ≠ [] then (s, none)
  else
    match s.childpid with
    | some table => open_pipe s table type o
    | none => if o.calloc then open_pipe { s with childpid := some fun _ => 0 } (fun _ => 0) type o else (s, none)

/-- `waitpid`, again while it is interrupted. -/
def wait (s : State) (pid : Pid) (status : Option Int) : Nat → State × Option Int
  | 0 => ({ s with waits := s.waits ++ [pid] }, status)
  | n + 1 => wait { s with waits := s.waits ++ [pid] } pid status n

def pclose (s : State) (fd : Nat) (c : Closing) : State × Option Int :=
  match s.childpid with
  | none => (s, none)
  | some table =>
    if fd ≥ maxfd then (s, none)
    else if table fd = 0 then (s, none)
    else
      -- The descriptor is closed even where the last write fails.
      let s := { s with childpid := some (Function.update table fd 0) }.close fd
      if c.fclose then wait s (table fd) c.status c.interrupted else (s, none)

/-! ## Runs -/

inductive Call
  | popen (type : List Char) (o : Opening)
  | pclose (fd : Nat) (c : Closing)

def next (s : State) : Call → State
  | .popen type o => (popen s type o).1
  | .pclose fd c => (pclose s fd c).1

/-- The children of the streams that callers have got from `popen` and not closed. -/
def owners (s : State) (owner : Nat → Option Pid) : Call → Nat → Option Pid
  | .popen type o =>
    match (popen s type o).2 with
    | some fd => Function.update owner fd o.fork
    | none => owner
  | .pclose fd _ => Function.update owner fd none

/-- The system returns descriptors that are not in use, and children with a number. -/
def Valid (s : State) : Call → Prop
  | .popen _ o =>
    (∀ pfd0 pfd1, o.pipe = some (pfd0, pfd1) → pfd0 ≠ pfd1 ∧ s.pipes pfd0 = false ∧ s.pipes pfd1 = false) ∧
    ∀ pid, o.fork = some pid → pid ≠ 0
  | .pclose _ _ => True

/-- A `popen` that fails leaves descriptors and entries as they were, and a `pclose` of a stream waits for
the stream's own child. -/
def Good (s : State) (owner : Nat → Option Pid) : Call → Prop
  | .popen type o => (popen s type o).2 = none → (popen s type o).1.pipes = s.pipes ∧ (popen s type o).1.entry = s.entry
  | .pclose fd c => ∀ pid, owner fd = some pid → ∃ n, (pclose s fd c).1.waits = s.waits ++ List.replicate (n + 1) pid

/-- The descriptors of pipes are those with an entry. -/
def Balanced (s : State) : Prop := ∀ fd, s.pipes fd = true ↔ s.entry fd ≠ 0

def Right : State → (Nat → Option Pid) → List Call → Prop
  | s, _, [] => Balanced s
  | s, owner, call :: calls => Balanced s ∧ (Valid s call → Good s owner call ∧ Right (next s call) (owners s owner call) calls)

/-- `popen` has got a pipe that it does not close at once. -/
def Piped (s : State) (type : List Char) (o : Opening) : Prop :=
  (type = ['r'] ∨ type = ['w']) ∧ (s.childpid ≠ none ∨ o.calloc) ∧
  ∃ pfd0 pfd1, o.pipe = some (pfd0, pfd1) ∧ pfd0 < maxfd ∧ pfd1 < maxfd

/-- Behind its pipe `popen` does not fail, and `fclose` does not fail for a stream of `popen`. -/
def Ok (s : State) (owner : Nat → Option Pid) : Call → Prop
  | .popen type o => Piped s type o → o.fork ≠ none ∧ o.fdopen
  | .pclose fd c => owner fd ≠ none → c.fclose

def Meets : State → (Nat → Option Pid) → List Call → Prop
  | _, _, [] => True
  | s, owner, call :: calls => Valid s call → Ok s owner call ∧ Meets (next s call) (owners s owner call) calls

/-! ## What a call can do -/

section Calls
variable {s : State} {type : List Char} {o : Opening} {fd pfd0 pfd1 : Nat} {table : Nat → Pid}

/-- Both ends are closed again. -/
theorem pipes_closed (free0 : s.pipes pfd0 = false) (free1 : s.pipes pfd1 = false) :
    ((((s.opened pfd0).opened pfd1).close pfd0).close pfd1).pipes = s.pipes := by
  funext fd
  simp only [State.close, State.opened, Function.update_apply]
  split_ifs with second first
  · rw [second, free1]
  · rw [first, free0]
  · rfl

/-- The end that the parent keeps, and the other one. -/
def ends (type : List Char) (pfd0 pfd1 : Nat) : Nat × Nat := if type.head? = some 'r' then (pfd0, pfd1) else (pfd1, pfd0)

/-- The end that is kept was free, and the other one is closed. -/
theorem kept_end (type : List Char) (low : pfd0 < maxfd ∧ pfd1 < maxfd) (apart : pfd0 ≠ pfd1) (free0 : s.pipes pfd0 = false)
    (free1 : s.pipes pfd1 = false) : (ends type pfd0 pfd1).1 < maxfd ∧ s.pipes (ends type pfd0 pfd1).1 = false ∧
      (((s.opened pfd0).opened pfd1).close (ends type pfd0 pfd1).2).pipes = Function.update s.pipes (ends type pfd0 pfd1).1 true := by
  rw [ends]
  split_ifs
  · refine ⟨low.1, free0, funext fun fd => ?_⟩
    simp only [State.close, State.opened, Function.update_apply]
    grind -ring -linarith
  · refine ⟨low.2, free1, funext fun fd => ?_⟩
    simp only [State.close, State.opened, Function.update_apply]
    grind -ring -linarith

theorem open_pipe_behind (pipe : o.pipe = some (pfd0, pfd1)) (low : pfd0 < maxfd ∧ pfd1 < maxfd) : open_pipe s table type o =
    match o.fork with
    | none => ((s.opened pfd0).opened pfd1, none)
    | some pid =>
      if o.fdopen then ({ ((s.opened pfd0).opened pfd1).close (ends type pfd0 pfd1).2 with
        childpid := some (Function.update table (ends type pfd0 pfd1).1 pid) }, some (ends type pfd0 pfd1).1)
      else (((s.opened pfd0).opened pfd1).close (ends type pfd0 pfd1).2, none) := by
  rw [open_pipe, pipe]
  exact if_neg (by omega)

theorem refused_iff : (type.head? ≠ some 'r' ∧ type.head? ≠ some 'w') ∨ type.tail ≠ [] ↔ ¬ (type = ['r'] ∨ type = ['w']) := by
  cases type with
  | nil => simp
  | cons c rest =>
    simp only [List.head?_cons, List.tail_cons, ne_eq, Option.some.injEq, List.cons.injEq]
    tauto

theorem popen_refused (refused : ¬ ((type = ['r'] ∨ type = ['w']) ∧ (s.childpid ≠ none ∨ o.calloc))) : popen s type o = (s, none) := by
  by_cases known : type = ['r'] ∨ type = ['w']
  · obtain ⟨untabled, uncalled⟩ := not_or.mp fun tabled => refused ⟨known, tabled⟩
    rw [popen, if_neg (mt refused_iff.mp (not_not_intro known)), not_not.mp untabled]
    exact if_neg uncalled
  · rw [popen, if_pos (refused_iff.mpr known)]

/-- The table, old or new, is what the entries are. -/
theorem popen_eq (known : type = ['r'] ∨ type = ['w']) (tabled : s.childpid ≠ none ∨ o.calloc) :
    popen s type o = open_pipe { s with childpid := some s.entry } s.entry type o := by
  rw [popen, if_neg (mt refused_iff.mp (not_not_intro known))]
  obtain ⟨childpid, pipes, waits⟩ := s
  cases childpid with
  | some table => rfl
  | none => exact if_pos (tabled.resolve_left fun some => some rfl)

/-- Up to its pipe `popen` leaves all as it was, but for a table without entries. -/
theorem popen_unpiped (valid : Valid s (.popen type o)) (unpiped : ¬ Piped s type o) : (popen s type o).2 = none ∧
    (popen s type o).1.pipes = s.pipes ∧ (popen s type o).1.entry = s.entry := by
  by_cases passed : (type = ['r'] ∨ type = ['w']) ∧ (s.childpid ≠ none ∨ o.calloc)
  · rw [popen_eq passed.1 passed.2, open_pipe]
    cases pipe : o.pipe with
    | none => exact ⟨rfl, rfl, rfl⟩
    | some both =>
      obtain ⟨pfd0, pfd1⟩ := both
      have high : pfd0 ≥ maxfd ∨ pfd1 ≥ maxfd := by
        by_contra low
        exact unpiped ⟨passed.1, passed.2, pfd0, pfd1, pipe, by omega, by omega⟩
      obtain ⟨-, free0, free1⟩ := valid.1 pfd0 pfd1 pipe
      dsimp only
      rw [if_pos high]
      exact ⟨rfl, pipes_closed free0 free1, rfl⟩
  · rw [popen_refused passed]
    exact ⟨rfl, rfl, rfl⟩

/-- Behind it a failure leaves a descriptor. -/
theorem popen_leak (valid : Valid s (.popen type o)) (piped : Piped s type o) (fails : ¬ (o.fork ≠ none ∧ o.fdopen)) :
    (popen s type o).2 = none ∧ (popen s type o).1.pipes ≠ s.pipes := by
  obtain ⟨known, tabled, pfd0, pfd1, pipe, low⟩ := piped
  obtain ⟨apart, free0, free1⟩ := valid.1 pfd0 pfd1 pipe
  rw [popen_eq known tabled, open_pipe_behind pipe low]
  cases fork : o.fork with
  | none =>
    refine ⟨rfl, fun same => ?_⟩
    have left := congrFun same pfd1
    rw [free1] at left
    simp [State.opened] at left
  | some pid =>
    have unopened : ¬ o.fdopen := fun opened => fails ⟨by rw [fork]; exact Option.some_ne_none pid, opened⟩
    dsimp only
    rw [if_neg unopened]
    obtain ⟨-, free, pipes⟩ := kept_end type low apart free0 free1
    refine ⟨rfl, fun same => ?_⟩
    have left := congrFun (pipes.symm.trans same) (ends type pfd0 pfd1).1
    rw [Function.update_self, free] at left
    cases left

/-- A stream has a descriptor that was free, and its child is entered there. -/
theorem popen_stream (valid : Valid s (.popen type o)) (piped : Piped s type o) (succeeds : o.fork ≠ none ∧ o.fdopen) :
    ∃ fd pid, fd < maxfd ∧ pid ≠ 0 ∧ o.fork = some pid ∧ s.pipes fd = false ∧ (popen s type o).2 = some fd ∧
      (popen s type o).1.pipes = Function.update s.pipes fd true ∧ (popen s type o).1.entry = Function.update s.entry fd pid := by
  obtain ⟨known, tabled, pfd0, pfd1, pipe, low⟩ := piped
  obtain ⟨apart, free0, free1⟩ := valid.1 pfd0 pfd1 pipe
  obtain ⟨pid, fork⟩ := Option.ne_none_iff_exists'.mp succeeds.1
  rw [popen_eq known tabled, open_pipe_behind pipe low, fork]
  dsimp only
  rw [if_pos succeeds.2]
  obtain ⟨bound, free, pipes⟩ := kept_end type low apart free0 free1
  exact ⟨(ends type pfd0 pfd1).1, pid, bound, valid.2 pid fork, rfl, free, rfl, pipes, rfl⟩

theorem wait_spec (s : State) (pid : Pid) (status : Option Int) (n : Nat) : (wait s pid status n).1.pipes = s.pipes ∧
    (wait s pid status n).1.entry = s.entry ∧ (wait s pid status n).1.waits = s.waits ++ List.replicate (n + 1) pid := by
  induction n generalizing s with
  | zero => exact ⟨rfl, rfl, rfl⟩
  | succ n ih =>
    rw [wait]
    obtain ⟨pipes, entry, waits⟩ := ih { s with waits := s.waits ++ [pid] }
    refine ⟨pipes, entry, ?_⟩
    rw [waits, List.append_assoc]
    rfl

/-- Where there is no entry, `pclose` does nothing. -/
theorem pclose_other (c : Closing) (other : s.entry fd = 0) : (pclose s fd c).1 = s := by
  rw [State.entry] at other
  rw [pclose]
  cases table : s.childpid with
  | none => rfl
  | some table =>
    rw [table] at other
    dsimp only
    rw [if_pos other, ite_self]

/-- Else the descriptor is closed, the entry is empty and, if `fclose` has not failed, the child is waited for. -/
theorem pclose_stream (c : Closing) (stream : s.entry fd ≠ 0) (bound : fd < maxfd) :
    (pclose s fd c).1.pipes = Function.update s.pipes fd false ∧ (pclose s fd c).1.entry = Function.update s.entry fd 0 ∧
      (pclose s fd c).1.waits = s.waits ++ if c.fclose then List.replicate (c.interrupted + 1) (s.entry fd) else [] := by
  obtain ⟨childpid, pipes, waits⟩ := s
  cases childpid with
  | none => exact absurd rfl stream
  | some table =>
    change table fd ≠ 0 at stream
    rw [pclose]
    dsimp only
    rw [if_neg (Nat.not_le.mpr bound), if_neg stream]
    split_ifs with closed
    · exact wait_spec _ _ _ _
    · exact ⟨rfl, rfl, (List.append_nil waits).symm⟩

end Calls

/-! ## The account -/

/-- The entries are those of the open descriptors, with the streams' own children. -/
structure Account (s : State) (owner : Nat → Option Pid) : Prop where
  balanced : Balanced s
  owner : ∀ fd, owner fd = if s.entry fd = 0 then none else some (s.entry fd)
  bound : ∀ fd, s.entry fd ≠ 0 → fd < maxfd

theorem account_start : Account start fun _ => none where
  balanced _ := iff_of_false Bool.false_ne_true fun some => some rfl
  owner _ := rfl
  bound _ some := absurd rfl some

section Step
variable {s s' : State} {owner : Nat → Option Pid} {fd : Nat} {pid : Pid}

theorem Account.same (account : Account s owner) (pipes : s'.pipes = s.pipes) (entry : s'.entry = s.entry) : Account s' owner where
  balanced fd := by rw [pipes, entry]; exact account.balanced fd
  owner fd := by rw [entry]; exact account.owner fd
  bound fd := by rw [entry]; exact account.bound fd

theorem Account.opened (account : Account s owner) (bound : fd < maxfd) (number : pid ≠ 0)
    (pipes : s'.pipes = Function.update s.pipes fd true) (entry : s'.entry = Function.update s.entry fd pid) :
    Account s' (Function.update owner fd (some pid)) := by
  constructor
  · intro fd'
    rw [pipes, entry]
    rcases eq_or_ne fd' fd with rfl | other
    · rw [Function.update_self, Function.update_self]
      exact iff_of_true rfl number
    · rw [Function.update_of_ne other, Function.update_of_ne other]
      exact account.balanced fd'
  · intro fd'
    rw [entry]
    rcases eq_or_ne fd' fd with rfl | other
    · rw [Function.update_self, Function.update_self, if_neg number]
    · rw [Function.update_of_ne other, Function.update_of_ne other]
      exact account.owner fd'
  · intro fd' some
    rcases eq_or_ne fd' fd with rfl | other
    · exact bound
    · rw [entry, Function.update_of_ne other] at some
      exact account.bound fd' some

theorem Account.closed (account : Account s owner) (pipes : s'.pipes = Function.update s.pipes fd false)
    (entry : s'.entry = Function.update s.entry fd 0) : Account s' (Function.update owner fd none) := by
  constructor
  · intro fd'
    rw [pipes, entry]
    rcases eq_or_ne fd' fd with rfl | other
    · rw [Function.update_self, Function.update_self]
      exact iff_of_false Bool.false_ne_true fun some => some rfl
    · rw [Function.update_of_ne other, Function.update_of_ne other]
      exact account.balanced fd'
  · intro fd'
    rw [entry]
    rcases eq_or_ne fd' fd with rfl | other
    · rw [Function.update_self, Function.update_self, if_pos rfl]
    · rw [Function.update_of_ne other, Function.update_of_ne other]
      exact account.owner fd'
  · intro fd' some
    rcases eq_or_ne fd' fd with rfl | other
    · rw [entry, Function.update_self] at some
      exact absurd rfl some
    · rw [entry, Function.update_of_ne other] at some
      exact account.bound fd' some

theorem Account.popen {type : List Char} {o : Opening} (account : Account s owner) (valid : Valid s (.popen type o)) :
    (Good s owner (.popen type o) ↔ Ok s owner (.popen type o)) ∧
      (Ok s owner (.popen type o) → Account (next s (.popen type o)) (owners s owner (.popen type o))) := by
  by_cases piped : Piped s type o
  · by_cases succeeds : o.fork ≠ none ∧ o.fdopen
    · obtain ⟨fd, pid, bound, number, child, -, reply, pipes, entry⟩ := popen_stream valid piped succeeds
      refine ⟨iff_of_true (fun failed => ?_) fun _ => succeeds, fun _ => ?_⟩
      · rw [reply] at failed
        cases failed
      · rw [owners, reply, child]
        exact account.opened bound number pipes entry
    · obtain ⟨reply, left⟩ := popen_leak valid piped succeeds
      exact ⟨iff_of_false (fun good => left (good reply).1) fun ok => succeeds (ok piped), fun ok => absurd (ok piped) succeeds⟩
  · obtain ⟨reply, pipes, entry⟩ := popen_unpiped valid piped
    refine ⟨iff_of_true (fun _ => ⟨pipes, entry⟩) fun some => absurd some piped, fun _ => ?_⟩
    rw [owners, reply]
    exact account.same pipes entry

theorem Account.pclose {c : Closing} (account : Account s owner) : (Good s owner (.pclose fd c) ↔ Ok s owner (.pclose fd c)) ∧
    (Ok s owner (.pclose fd c) → Account (next s (.pclose fd c)) (owners s owner (.pclose fd c))) := by
  have own := account.owner fd
  by_cases stream : s.entry fd = 0
  · rw [if_pos stream] at own
    refine ⟨iff_of_true (fun pid owned => ?_) fun some => absurd own some, fun _ => ?_⟩
    · rw [own] at owned
      cases owned
    · rw [next, pclose_other c stream, owners, ← own, Function.update_eq_self]
      exact account
  · rw [if_neg stream] at own
    obtain ⟨pipes, entry, waits⟩ := pclose_stream c stream (account.bound fd stream)
    refine ⟨⟨fun good _ => ?_, fun ok pid owned => ?_⟩, fun _ => account.closed pipes entry⟩
    · obtain ⟨n, waited⟩ := good _ own
      by_contra failed
      rw [waits, if_neg failed, List.append_right_inj] at waited
      cases waited
    · rw [own, Option.some.injEq] at owned
      rw [waits, if_pos (ok (by rw [own]; exact Option.some_ne_none _)), owned]
      exact ⟨c.interrupted, rfl⟩

/-- **One call**: it is good exactly if what must not fail has not failed, and then the account goes on. -/
theorem Account.step {call : Call} (account : Account s owner) (valid : Valid s call) :
    (Good s owner call ↔ Ok s owner call) ∧ (Ok s owner call → Account (next s call) (owners s owner call)) := by
  cases call with
  | popen type o => exact account.popen valid
  | pclose fd c => exact account.pclose

end Step

theorem Account.runs {s : State} {owner : Nat → Option Pid} (account : Account s owner) (calls : List Call) :
    Right s owner calls ↔ Meets s owner calls := by
  induction calls generalizing s owner with
  | nil => exact iff_of_true account.balanced trivial
  | cons call calls ih =>
    rw [Right, and_iff_right account.balanced, Meets]
    apply forall_congr'
    intro valid
    obtain ⟨good, goes⟩ := account.step valid
    rw [good]
    exact and_congr_right fun ok => ih (goes ok)

/-- **Which runs keep the account**: those in which neither `fork` nor `fdopen` fails behind a pipe, and
`fclose` does not fail for a stream of `popen`. -/
theorem descriptors_iff (calls : List Call) : Right start (fun _ => none) calls ↔ Meets start (fun _ => none) calls :=
  account_start.runs calls

/-- A `fork` that fails leaves the two ends of the pipe. -/
theorem fork_leaks : ¬ ∀ calls, Right start (fun _ => none) calls := by
  intro right
  have failing : Valid start (.popen ['r'] { calloc := true, pipe := some (3, 4), fork := none, fdopen := true }) := by
    constructor
    · rintro pfd0 pfd1 ⟨⟩
      exact ⟨by decide, rfl, rfl⟩
    · rintro pid ⟨⟩
  have good := ((right [.popen ['r'] { calloc := true, pipe := some (3, 4), fork := none, fdopen := true }]).2 failing).1
  have left := congrFun (good rfl).1 3
  cases left

end CodeClips.Popen
