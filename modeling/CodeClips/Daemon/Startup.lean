import CodeClips.Lib.Transition

/-!
# The start of a daemon

`daemonize_start` of `daemon-unix.c` with `detach` and `monitor`: the foreground process forks the monitor, the monitor
forks the daemon, and each waits in `fork_and_wait_for_startup` for its child to write a byte into a pipe or to end. What is
fatal is only printed there, so the code after it runs. The processes take their steps in any order, and may be killed at
any time. `foreground_status` says what the status of the foreground process means, `foreground_returns` when it comes.
-/

namespace CodeClips.Daemon

/-- What a process ends with: `WIFEXITED` with its `WEXITSTATUS`, or `WIFSIGNALED`. -/
inductive Status
  | exited (code : Nat)
  | killed (signal : Nat)
deriving DecidableEq

def EINTR : Int := 4
def EPROTO : Int := 71
def EOF : Int := -1

/-- What a system call on a pipe returns: a number of bytes, none at the end of the file, or an error. -/
inductive Answer
  | bytes (n : Nat)
  | error (errno : Int)

/-- The body of the loop of `read_fully`: the size that is left, or what is returned. -/
def read_fully (size : Nat) : Answer → Nat ⊕ Int
  | .bytes 0 => .inr EOF
  | .bytes n => if size - n = 0 then .inr 0 else .inl (size - n)
  | .error errno => if errno = EINTR then .inl size else .inr errno

def write_fully (size : Nat) : Answer → Nat ⊕ Int
  | .bytes 0 => .inr EPROTO
  | .bytes n => if size - n = 0 then .inr 0 else .inl (size - n)
  | .error errno => if errno = EINTR then .inl size else .inr errno

/-- Where the parent is in `fork_and_wait_for_startup`. -/
inductive Wait
  | reading
  | reaping
  | returned (ret : Int)
  | exited (code : Nat)
deriving DecidableEq

/-- `read_fully` of the byte. -/
def Wait.read (answer : Answer) : Wait :=
  match read_fully 1 answer with
  | .inl _ => .reading
  | .inr error => if error ≠ 0 then .reaping else .returned 0

/-- `waitpid` has returned the pid of the child, or -1 with this error. -/
def Wait.reap : Except Int Status → Wait
  | .ok (.exited code) => if code ≠ 0 then .exited code else .returned (-1)
  | .ok (.killed _) => .returned (-1)
  | .error errno => if errno = EINTR then .reaping else .returned 0

/-- The write of the byte in `fork_notify_startup`: whether the call is made again; the pipe is closed behind it. -/
def again (answer : Answer) : Bool := (write_fully 1 answer).isLeft

/-! ## The processes -/

/-- The foreground process; it exits with 0 when `fork_and_wait_for_startup` returns, whatever it returns. -/
inductive Foreground
  | reading
  | reaping
  | ended (status : Status)
deriving DecidableEq

/-- The process that is to be the monitor. It is the daemon itself where the second fork has failed (`alone`). -/
inductive Monitor
  | forking
  | alone
  | reading
  | reaping
  | notifying
  | running
  | ended (status : Status) (notified : Bool)
deriving DecidableEq

inductive Child
  | unborn
  | starting
  | running
  | ended (status : Status) (notified : Bool)
deriving DecidableEq

/-- The bytes in the two pipes have not been read. `unreaped₁` and `unreaped₂`: a `waitpid` has failed. -/
structure System where
  foreground : Foreground
  monitor : Monitor
  daemon : Child
  pipe₁ : Nat
  pipe₂ : Nat
  unreaped₁ : Bool
  unreaped₂ : Bool
deriving DecidableEq

def System.start : System :=
  { foreground := .reading, monitor := .forking, daemon := .unborn, pipe₁ := 0, pipe₂ := 0, unreaped₁ := false, unreaped₂ := false }

/-- The monitor has the write end of the first pipe until it has notified. -/
def Monitor.holds : Monitor → Bool
  | .running | .ended _ _ => false
  | _ => true

/-- So has the daemon, which has inherited it, until it ends. -/
def Child.holds : Child → Bool
  | .starting | .running => true
  | _ => false

/-- The daemon has the write end of the second pipe until it has notified. -/
def Child.starts : Child → Bool
  | .starting => true
  | _ => false

inductive Action
  | foregroundReads (interrupted : Bool)
  | foregroundReaps (error : Option Int)
  | monitorForks (succeeds : Bool)
  | monitorReads (interrupted : Bool)
  | monitorReaps (error : Option Int)
  | monitorCompletes
  | monitorWrites (interrupted : Bool)
  | monitorExits (code : Nat)
  | daemonWrites (interrupted : Bool)
  | daemonExits (code : Nat)
  | foregroundKilled (signal : Nat)
  | monitorKilled (signal : Nat)
  | daemonKilled (signal : Nat)
deriving DecidableEq

/-- What a `read` of one byte gives, if it does not wait: a byte, or the end where nobody has the write end. -/
def readAnswer (pipe : Nat) (held interrupted : Bool) : Option Answer :=
  if interrupted then some (.error EINTR)
  else if 0 < pipe then some (.bytes 1)
  else if held then none
  else some (.bytes 0)

/-- `waitpid` of a child that has ended with this status, or of one that runs, where it waits. -/
def reapAnswer (status : Option Status) : Option Int → Option (Except Int Status)
  | some errno => some (.error errno)
  | none => status.map .ok

def Monitor.status : Monitor → Option Status
  | .ended status _ => some status
  | _ => none

def Child.status : Child → Option Status
  | .ended status _ => some status
  | _ => none

/-- The foreground process goes on by its `Wait`; `exit(0)` follows the return. -/
def Foreground.wait : Wait → Foreground
  | .reading => .reading
  | .reaping => .reaping
  | .returned _ => .ended (.exited 0)
  | .exited code => .ended (.exited code)

/-- The monitor notifies the foreground process whatever is returned. -/
def Monitor.wait : Wait → Monitor
  | .reading => .reading
  | .reaping => .reaping
  | .returned _ => .notifying
  | .exited code => .ended (.exited code) false

/-- The byte that a read takes. -/
def taken (pipe : Nat) (interrupted : Bool) : Nat := if interrupted then pipe else pipe - 1

/-- `waitpid` has failed and is not called again. -/
def gaveUp (error : Option Int) : Bool := error.any (· ≠ EINTR)

/-- `SIGPIPE` is taken as ignored: a write that nobody can read any more does not end the process. -/
def System.step (s : System) : Action → Option System
  | .foregroundReads interrupted =>
    if s.foreground = .reading then
      (readAnswer s.pipe₁ (s.monitor.holds || s.daemon.holds) interrupted).map fun answer =>
        { s with foreground := .wait (.read answer), pipe₁ := taken s.pipe₁ interrupted }
    else none
  | .foregroundReaps error =>
    if s.foreground = .reaping then
      (reapAnswer s.monitor.status error).map fun answer =>
        { s with foreground := .wait (.reap answer), unreaped₁ := s.unreaped₁ || gaveUp error }
    else none
  | .monitorForks succeeds =>
    if s.monitor = .forking then
      if succeeds then some { s with monitor := .reading, daemon := .starting, pipe₂ := 0 } else some { s with monitor := .alone }
    else none
  | .monitorReads interrupted =>
    if s.monitor = .reading then
      (readAnswer s.pipe₂ s.daemon.starts interrupted).map fun answer =>
        { s with monitor := .wait (.read answer), pipe₂ := taken s.pipe₂ interrupted }
    else none
  | .monitorReaps error =>
    if s.monitor = .reaping then
      (reapAnswer s.daemon.status error).map fun answer =>
        { s with monitor := .wait (.reap answer), unreaped₂ := s.unreaped₂ || gaveUp error }
    else none
  | .monitorCompletes => if s.monitor = .alone then some { s with monitor := .notifying } else none
  | .monitorWrites interrupted =>
    -- the read end is closed when the foreground process ends
    if s.monitor = .notifying then
      if again (if interrupted then .error EINTR else .bytes 1) then some s
      else match s.foreground with
        | .ended _ => some { s with monitor := .running }
        | _ => some { s with monitor := .running, pipe₁ := s.pipe₁ + 1 }
    else none
  | .monitorExits code =>
    match s.monitor with
    | .alone => some { s with monitor := .ended (.exited code) false }
    | .running => some { s with monitor := .ended (.exited code) true }
    | _ => none
  | .daemonWrites interrupted =>
    -- the read end is closed when the monitor is through with its wait
    if s.daemon = .starting then
      if again (if interrupted then .error EINTR else .bytes 1) then some s
      else if s.monitor = .reading ∨ s.monitor = .reaping then some { s with daemon := .running, pipe₂ := s.pipe₂ + 1 }
      else some { s with daemon := .running }
    else none
  | .daemonExits code =>
    match s.daemon with
    | .starting => some { s with daemon := .ended (.exited code) false }
    | .running => some { s with daemon := .ended (.exited code) true }
    | _ => none
  | .foregroundKilled signal =>
    match s.foreground with
    | .ended _ => none
    | _ => some { s with foreground := .ended (.killed signal) }
  | .monitorKilled signal =>
    match s.monitor with
    | .ended _ _ => none
    | .running => some { s with monitor := .ended (.killed signal) true }
    | _ => some { s with monitor := .ended (.killed signal) false }
  | .daemonKilled signal =>
    match s.daemon with
    | .unborn | .ended _ _ => none
    | .starting => some { s with daemon := .ended (.killed signal) false }
    | .running => some { s with daemon := .ended (.killed signal) true }

/-! ## What holds in every state -/

/-- The process ends without an error that it could tell of. -/
def Status.silent : Status → Bool
  | .exited code => code = 0
  | .killed _ => true

/-- The monitor has written its byte. -/
def Monitor.notified : Monitor → Bool
  | .running => true
  | .ended _ notified => notified
  | _ => false

def Child.notified : Child → Bool
  | .running => true
  | .ended _ notified => notified
  | _ => false

/-- A process that has ended before it has notified, with this status. -/
def Monitor.failed : Monitor → Option Status
  | .ended status notified => if notified then none else some status
  | _ => none

def Child.failed : Child → Option Status
  | .ended status notified => if notified then none else some status
  | _ => none

structure Invariant (s : System) : Prop where
  /-- The byte of the monitor is not lost while the foreground process is reading. -/
  reading₁ : s.foreground = .reading → s.pipe₁ = if s.monitor.notified then 1 else 0
  reaping₁ : s.foreground = .reaping → s.monitor.failed.isSome ∧ ¬ s.daemon.holds
  reading₂ : s.monitor = .reading → s.daemon ≠ .unborn ∧ s.pipe₂ = if s.daemon.notified then 1 else 0
  reaping₂ : s.monitor = .reaping → s.daemon.failed.isSome
  unborn : s.monitor = .forking ∨ s.monitor = .alone → s.daemon = .unborn
  error₁ : ∀ code ≠ 0, s.foreground = .ended (.exited code) → s.monitor.failed = some (.exited code)
  error₂ : ∀ code, s.monitor.failed = some (.exited code) → s.daemon = .unborn ∨ code ≠ 0 ∧ s.daemon.failed = some (.exited code)
  success₁ : s.foreground = .ended (.exited 0) → s.monitor.notified ∨ s.unreaped₁ ∨ s.monitor.failed.any Status.silent
  success₂ : s.monitor = .notifying ∨ s.monitor.notified → s.daemon = .unborn ∨ s.daemon.notified ∨ s.unreaped₂ ∨ s.daemon.failed.any Status.silent

theorem start_invariant : Invariant .start := by
  constructor <;> simp [System.start, Monitor.notified, Child.notified, Monitor.failed]

theorem read_cases {pipe : Nat} {held interrupted : Bool} {answer : Answer} (found : readAnswer pipe held interrupted = some answer) :
    interrupted = true ∧ Wait.read answer = .reading ∨
      interrupted = false ∧ 0 < pipe ∧ Wait.read answer = .returned 0 ∨
      interrupted = false ∧ pipe = 0 ∧ held = false ∧ Wait.read answer = .reaping := by
  unfold readAnswer at found
  split at found
  · next here =>
    cases found
    exact .inl ⟨here, rfl⟩
  · next here =>
    split at found
    · next some' =>
      cases found
      exact .inr (.inl ⟨by simpa using here, some', rfl⟩)
    · next none =>
      split at found
      · cases found
      · next open' =>
        cases found
        exact .inr (.inr ⟨by simpa using here, by omega, by simpa using open', rfl⟩)

theorem reap_cases {status : Option Status} {error : Option Int} {answer : Except Int Status} (found : reapAnswer status error = some answer) :
    error = some EINTR ∧ Wait.reap answer = .reaping ∨
      gaveUp error = true ∧ Wait.reap answer = .returned 0 ∨
      error = none ∧ ∃ st, status = some st ∧
        (st.silent = true ∧ Wait.reap answer = .returned (-1) ∨ ∃ code ≠ 0, st = .exited code ∧ Wait.reap answer = .exited code) := by
  cases error with
  | some errno =>
    cases found
    by_cases interrupted : errno = EINTR
    · exact .inl ⟨by rw [interrupted], if_pos interrupted⟩
    · exact .inr (.inl ⟨by simpa [gaveUp] using interrupted, if_neg interrupted⟩)
  | none =>
    obtain ⟨st, ended, rfl⟩ := Option.map_eq_some_iff.mp found
    refine .inr (.inr ⟨rfl, st, ended, ?_⟩)
    cases st with
    | exited code =>
      by_cases zero : code = 0
      · exact .inl ⟨by simpa [Status.silent] using zero, if_neg (not_not.mpr zero)⟩
      · exact .inr ⟨code, zero, rfl, if_pos zero⟩
    | killed signal => exact .inl ⟨rfl, rfl⟩

/-! ## What a call on a pipe or a `waitpid` does to the processes -/

theorem foregroundReads_cases {s s' : System} {interrupted : Bool} (next : s.step (.foregroundReads interrupted) = some s') :
    s.foreground = .reading ∧ (interrupted = true ∧ s' = s ∨
      interrupted = false ∧ 0 < s.pipe₁ ∧ s' = { s with foreground := .ended (.exited 0), pipe₁ := s.pipe₁ - 1 } ∨
      interrupted = false ∧ s.pipe₁ = 0 ∧ (s.monitor.holds || s.daemon.holds) = false ∧
        s' = { s with foreground := .reaping, pipe₁ := s.pipe₁ - 1 }) := by
  rw [System.step] at next
  split_ifs at next with here
  obtain ⟨answer, found, rfl⟩ := Option.map_eq_some_iff.mp next
  refine ⟨here, ?_⟩
  rcases read_cases found with ⟨rfl, wait⟩ | ⟨rfl, some', wait⟩ | ⟨rfl, none, closed, wait⟩ <;> rw [wait]
  · exact .inl ⟨rfl, by rw [Foreground.wait, ← here]; rfl⟩
  · exact .inr (.inl ⟨rfl, some', rfl⟩)
  · exact .inr (.inr ⟨rfl, none, closed, rfl⟩)

theorem monitorReads_cases {s s' : System} {interrupted : Bool} (next : s.step (.monitorReads interrupted) = some s') :
    s.monitor = .reading ∧ (interrupted = true ∧ s' = s ∨
      interrupted = false ∧ 0 < s.pipe₂ ∧ s' = { s with monitor := .notifying, pipe₂ := s.pipe₂ - 1 } ∨
      interrupted = false ∧ s.pipe₂ = 0 ∧ s.daemon.starts = false ∧ s' = { s with monitor := .reaping, pipe₂ := s.pipe₂ - 1 }) := by
  rw [System.step] at next
  split_ifs at next with here
  obtain ⟨answer, found, rfl⟩ := Option.map_eq_some_iff.mp next
  refine ⟨here, ?_⟩
  rcases read_cases found with ⟨rfl, wait⟩ | ⟨rfl, some', wait⟩ | ⟨rfl, none, closed, wait⟩ <;> rw [wait]
  · exact .inl ⟨rfl, by rw [Monitor.wait, ← here]; rfl⟩
  · exact .inr (.inl ⟨rfl, some', rfl⟩)
  · exact .inr (.inr ⟨rfl, none, closed, rfl⟩)

theorem foregroundReaps_cases {s s' : System} {error : Option Int} (next : s.step (.foregroundReaps error) = some s') :
    s.foreground = .reaping ∧ (error = some EINTR ∧ s' = s ∨
      gaveUp error = true ∧ s' = { s with foreground := .ended (.exited 0), unreaped₁ := true } ∨
      error = none ∧ ∃ st, s.monitor.status = some st ∧ (st.silent = true ∧ s' = { s with foreground := .ended (.exited 0) } ∨
        ∃ code ≠ 0, st = .exited code ∧ s' = { s with foreground := .ended (.exited code) })) := by
  rw [System.step] at next
  split_ifs at next with here
  obtain ⟨answer, found, rfl⟩ := Option.map_eq_some_iff.mp next
  have kept : (s.unreaped₁ || false) = s.unreaped₁ := Bool.or_false _
  refine ⟨here, ?_⟩
  rcases reap_cases found with ⟨rfl, wait⟩ | ⟨gave, wait⟩ | ⟨rfl, st, ended, ⟨silent, wait⟩ | ⟨code, nonzero, told, wait⟩⟩ <;> rw [wait]
  · exact .inl ⟨rfl, by rw [show gaveUp (some EINTR) = false from rfl, kept, Foreground.wait, ← here]⟩
  · exact .inr (.inl ⟨gave, by rw [gave, Bool.or_true]; rfl⟩)
  · exact .inr (.inr ⟨rfl, st, ended, .inl ⟨silent, by rw [show gaveUp Option.none = false from rfl, kept]; rfl⟩⟩)
  · exact .inr (.inr ⟨rfl, st, ended, .inr ⟨code, nonzero, told, by rw [show gaveUp Option.none = false from rfl, kept]; rfl⟩⟩)

theorem monitorReaps_cases {s s' : System} {error : Option Int} (next : s.step (.monitorReaps error) = some s') :
    s.monitor = .reaping ∧ (error = some EINTR ∧ s' = s ∨
      gaveUp error = true ∧ s' = { s with monitor := .notifying, unreaped₂ := true } ∨
      error = none ∧ ∃ st, s.daemon.status = some st ∧ (st.silent = true ∧ s' = { s with monitor := .notifying } ∨
        ∃ code ≠ 0, st = .exited code ∧ s' = { s with monitor := .ended (.exited code) false })) := by
  rw [System.step] at next
  split_ifs at next with here
  obtain ⟨answer, found, rfl⟩ := Option.map_eq_some_iff.mp next
  have kept : (s.unreaped₂ || false) = s.unreaped₂ := Bool.or_false _
  refine ⟨here, ?_⟩
  rcases reap_cases found with ⟨rfl, wait⟩ | ⟨gave, wait⟩ | ⟨rfl, st, ended, ⟨silent, wait⟩ | ⟨code, nonzero, told, wait⟩⟩ <;> rw [wait]
  · exact .inl ⟨rfl, by rw [show gaveUp (some EINTR) = false from rfl, kept, Monitor.wait, ← here]⟩
  · exact .inr (.inl ⟨gave, by rw [gave, Bool.or_true]; rfl⟩)
  · exact .inr (.inr ⟨rfl, st, ended, .inl ⟨silent, by rw [show gaveUp Option.none = false from rfl, kept]; rfl⟩⟩)
  · exact .inr (.inr ⟨rfl, st, ended, .inr ⟨code, nonzero, told, by rw [show gaveUp Option.none = false from rfl, kept]; rfl⟩⟩)

/-! ## The invariant -/

/-- A process that has no write end has notified or has failed. -/
theorem Monitor.failed_of_quiet {m : Monitor} (closed : m.holds = false) (quiet : m.notified = false) : m.failed.isSome := by
  cases m with
  | ended status notified =>
    obtain rfl : notified = false := quiet
    rfl
  | running => cases quiet
  | _ => cases closed

theorem Child.failed_of_quiet {d : Child} (born : d ≠ .unborn) (closed : d.starts = false) (quiet : d.notified = false) :
    d.failed.isSome := by
  cases d with
  | ended status notified =>
    obtain rfl : notified = false := quiet
    rfl
  | unborn => exact absurd rfl born
  | starting => cases closed
  | running => cases quiet

theorem Monitor.status_of_failed {m : Monitor} {status status' : Status} (failed : m.failed = some status) (ended : m.status = some status') :
    status = status' := by
  cases m with
  | ended st notified =>
    cases ended
    cases notified with
    | false => exact (Option.some.inj failed).symm
    | true => cases failed
  | _ => cases failed

theorem Child.status_of_failed {d : Child} {status status' : Status} (failed : d.failed = some status) (ended : d.status = some status') :
    status = status' := by
  cases d with
  | ended st notified =>
    cases ended
    cases notified with
    | false => exact (Option.some.inj failed).symm
    | true => cases failed
  | _ => cases failed

theorem foregroundReads_invariant {s s' : System} (inv : Invariant s) {interrupted : Bool}
    (next : s.step (.foregroundReads interrupted) = some s') : Invariant s' := by
  obtain ⟨here, ⟨-, rfl⟩ | ⟨-, some', rfl⟩ | ⟨-, none, closed, rfl⟩⟩ := foregroundReads_cases next
  · exact inv
  · have byte := inv.reading₁ here
    obtain ⟨reading₁, reaping₁, reading₂, reaping₂, unborn, error₁, error₂, success₁, success₂⟩ := inv
    constructor <;> grind -ring -linarith
  · have byte := inv.reading₁ here
    obtain ⟨closed, closed'⟩ := Bool.or_eq_false_iff.mp closed
    have quiet : s.monitor.notified = false := by grind -ring -linarith
    have failed := Monitor.failed_of_quiet closed quiet
    obtain ⟨reading₁, reaping₁, reading₂, reaping₂, unborn, error₁, error₂, success₁, success₂⟩ := inv
    constructor <;> grind -ring -linarith

theorem foregroundReaps_invariant {s s' : System} (inv : Invariant s) {error : Option Int}
    (next : s.step (.foregroundReaps error) = some s') : Invariant s' := by
  obtain ⟨here, reaped⟩ := foregroundReaps_cases next
  obtain ⟨status, failed⟩ := Option.isSome_iff_exists.mp (inv.reaping₁ here).1
  obtain ⟨-, rfl⟩ | ⟨gave, rfl⟩ | ⟨-, st, ended, ⟨silent, rfl⟩ | ⟨code, nonzero, rfl, rfl⟩⟩ := reaped
  · exact inv
  · obtain ⟨reading₁, reaping₁, reading₂, reaping₂, unborn, error₁, error₂, success₁, success₂⟩ := inv
    constructor <;> grind -ring -linarith
  · obtain rfl := Monitor.status_of_failed failed ended
    obtain ⟨reading₁, reaping₁, reading₂, reaping₂, unborn, error₁, error₂, success₁, success₂⟩ := inv
    constructor <;> grind -ring -linarith
  · obtain rfl := Monitor.status_of_failed failed ended
    obtain ⟨reading₁, reaping₁, reading₂, reaping₂, unborn, error₁, error₂, success₁, success₂⟩ := inv
    constructor <;> grind -ring -linarith

theorem monitorReads_invariant {s s' : System} (inv : Invariant s) {interrupted : Bool}
    (next : s.step (.monitorReads interrupted) = some s') : Invariant s' := by
  obtain ⟨here, ⟨-, rfl⟩ | ⟨-, some', rfl⟩ | ⟨-, none, closed, rfl⟩⟩ := monitorReads_cases next
  · exact inv
  · obtain ⟨born, byte⟩ := inv.reading₂ here
    obtain ⟨reading₁, reaping₁, reading₂, reaping₂, unborn, error₁, error₂, success₁, success₂⟩ := inv
    constructor <;> grind -ring -linarith [Monitor.notified, Monitor.failed]
  · obtain ⟨born, byte⟩ := inv.reading₂ here
    have quiet : s.daemon.notified = false := by grind -ring -linarith
    have failed := Child.failed_of_quiet born closed quiet
    obtain ⟨reading₁, reaping₁, reading₂, reaping₂, unborn, error₁, error₂, success₁, success₂⟩ := inv
    constructor <;> grind -ring -linarith [Monitor.notified, Monitor.failed]

theorem monitorReaps_invariant {s s' : System} (inv : Invariant s) {error : Option Int}
    (next : s.step (.monitorReaps error) = some s') : Invariant s' := by
  obtain ⟨here, reaped⟩ := monitorReaps_cases next
  obtain ⟨status, failed⟩ := Option.isSome_iff_exists.mp (inv.reaping₂ here)
  obtain ⟨-, rfl⟩ | ⟨gave, rfl⟩ | ⟨-, st, ended, ⟨silent, rfl⟩ | ⟨code, nonzero, rfl, rfl⟩⟩ := reaped
  · exact inv
  · obtain ⟨reading₁, reaping₁, reading₂, reaping₂, unborn, error₁, error₂, success₁, success₂⟩ := inv
    constructor <;> grind -ring -linarith [Monitor.notified, Monitor.failed]
  · obtain rfl := Child.status_of_failed failed ended
    obtain ⟨reading₁, reaping₁, reading₂, reaping₂, unborn, error₁, error₂, success₁, success₂⟩ := inv
    constructor <;> grind -ring -linarith [Monitor.notified, Monitor.failed]
  · obtain rfl := Child.status_of_failed failed ended
    obtain ⟨reading₁, reaping₁, reading₂, reaping₂, unborn, error₁, error₂, success₁, success₂⟩ := inv
    constructor <;> grind -ring -linarith [Monitor.notified, Monitor.failed]

theorem again_eq (interrupted : Bool) : again (if interrupted then .error EINTR else .bytes 1) = interrupted := by
  cases interrupted <;> rfl

theorem monitorForks_invariant {s s' : System} (inv : Invariant s) {succeeds : Bool}
    (next : s.step (.monitorForks succeeds) = some s') : Invariant s' := by
  obtain ⟨reading₁, reaping₁, reading₂, reaping₂, unborn, error₁, error₂, success₁, success₂⟩ := inv
  simp only [System.step] at next
  split at next
  · next here =>
    have none := unborn (.inl here)
    split at next <;> obtain rfl := Option.some.inj next <;> constructor <;>
      grind -ring -linarith [Monitor.notified, Monitor.failed, Child.notified, Child.failed, Child.holds]
  · cases next

theorem monitorCompletes_invariant {s s' : System} (inv : Invariant s) (next : s.step .monitorCompletes = some s') : Invariant s' := by
  obtain ⟨reading₁, reaping₁, reading₂, reaping₂, unborn, error₁, error₂, success₁, success₂⟩ := inv
  simp only [System.step] at next
  split at next
  · obtain rfl := Option.some.inj next
    constructor <;> grind -ring -linarith [Monitor.notified, Monitor.failed]
  · cases next

theorem monitorWrites_invariant {s s' : System} (inv : Invariant s) {interrupted : Bool}
    (next : s.step (.monitorWrites interrupted) = some s') : Invariant s' := by
  obtain ⟨reading₁, reaping₁, reading₂, reaping₂, unborn, error₁, error₂, success₁, success₂⟩ := inv
  simp only [System.step, again_eq] at next
  split at next
  · next here =>
    split at next
    · cases next
      exact ⟨reading₁, reaping₁, reading₂, reaping₂, unborn, error₁, error₂, success₁, success₂⟩
    · split at next <;> obtain rfl := Option.some.inj next <;> constructor <;> grind -ring -linarith [Monitor.notified, Monitor.failed]
  · cases next

theorem monitorExits_invariant {s s' : System} (inv : Invariant s) {code : Nat}
    (next : s.step (.monitorExits code) = some s') : Invariant s' := by
  obtain ⟨reading₁, reaping₁, reading₂, reaping₂, unborn, error₁, error₂, success₁, success₂⟩ := inv
  simp only [System.step] at next
  split at next
  · cases next
    constructor <;> grind -ring -linarith [Monitor.notified, Monitor.failed]
  · cases next
    constructor <;> grind -ring -linarith [Monitor.notified, Monitor.failed]
  · cases next

theorem monitorKilled_invariant {s s' : System} (inv : Invariant s) {signal : Nat}
    (next : s.step (.monitorKilled signal) = some s') : Invariant s' := by
  obtain ⟨reading₁, reaping₁, reading₂, reaping₂, unborn, error₁, error₂, success₁, success₂⟩ := inv
  simp only [System.step] at next
  split at next
  · cases next
  · cases next
    constructor <;> grind -ring -linarith [Monitor.notified, Monitor.failed]
  · cases next
    constructor <;> grind -ring -linarith [Monitor.notified, Monitor.failed]

theorem daemonWrites_invariant {s s' : System} (inv : Invariant s) {interrupted : Bool}
    (next : s.step (.daemonWrites interrupted) = some s') : Invariant s' := by
  obtain ⟨reading₁, reaping₁, reading₂, reaping₂, unborn, error₁, error₂, success₁, success₂⟩ := inv
  simp only [System.step, again_eq] at next
  split at next
  · next here =>
    split at next
    · cases next
      exact ⟨reading₁, reaping₁, reading₂, reaping₂, unborn, error₁, error₂, success₁, success₂⟩
    · split at next <;> obtain rfl := Option.some.inj next <;> constructor <;> grind -ring -linarith [Child.notified, Child.failed, Child.holds]
  · cases next

theorem daemonExits_invariant {s s' : System} (inv : Invariant s) {code : Nat}
    (next : s.step (.daemonExits code) = some s') : Invariant s' := by
  obtain ⟨reading₁, reaping₁, reading₂, reaping₂, unborn, error₁, error₂, success₁, success₂⟩ := inv
  simp only [System.step] at next
  split at next
  · cases next
    constructor <;> grind -ring -linarith [Child.notified, Child.failed, Child.holds]
  · cases next
    constructor <;> grind -ring -linarith [Child.notified, Child.failed, Child.holds]
  · cases next

theorem foregroundKilled_invariant {s s' : System} (inv : Invariant s) {signal : Nat}
    (next : s.step (.foregroundKilled signal) = some s') : Invariant s' := by
  obtain ⟨reading₁, reaping₁, reading₂, reaping₂, unborn, error₁, error₂, success₁, success₂⟩ := inv
  simp only [System.step] at next
  split at next
  · cases next
  · obtain rfl := Option.some.inj next
    constructor <;> grind -ring -linarith

theorem daemonKilled_invariant {s s' : System} (inv : Invariant s) {signal : Nat}
    (next : s.step (.daemonKilled signal) = some s') : Invariant s' := by
  obtain ⟨reading₁, reaping₁, reading₂, reaping₂, unborn, error₁, error₂, success₁, success₂⟩ := inv
  simp only [System.step] at next
  split at next
  · cases next
  · cases next
  · obtain rfl := Option.some.inj next
    constructor <;> grind -ring -linarith [Child.notified, Child.failed, Child.holds, Status.silent]
  · obtain rfl := Option.some.inj next
    constructor <;> grind -ring -linarith [Child.notified, Child.failed, Child.holds]

theorem step_invariant {s s' : System} (inv : Invariant s) {action : Action} (next : s.step action = some s') : Invariant s' := by
  cases action with
  | foregroundReads interrupted => exact foregroundReads_invariant inv next
  | foregroundReaps error => exact foregroundReaps_invariant inv next
  | monitorForks succeeds => exact monitorForks_invariant inv next
  | monitorReads interrupted => exact monitorReads_invariant inv next
  | monitorReaps error => exact monitorReaps_invariant inv next
  | monitorCompletes => exact monitorCompletes_invariant inv next
  | monitorWrites interrupted => exact monitorWrites_invariant inv next
  | monitorExits code => exact monitorExits_invariant inv next
  | daemonWrites interrupted => exact daemonWrites_invariant inv next
  | daemonExits code => exact daemonExits_invariant inv next
  | foregroundKilled signal => exact foregroundKilled_invariant inv next
  | monitorKilled signal => exact monitorKilled_invariant inv next
  | daemonKilled signal => exact daemonKilled_invariant inv next

/-! ## What the foreground process tells, and when -/

/-- The runs of the three processes. -/
abbrev Runs := Path fun (s : System) action s' => s.step action = some s'

theorem runs_invariant {actions : List Action} {s : System} (run : Runs .start actions s) : Invariant s :=
  run.invariant (fun _ _ _ _ inv next => step_invariant inv next) start_invariant

/-- The daemon has notified the monitor and this the foreground process, which the daemon itself has done where there is no
monitor. -/
def System.started (s : System) : Prop := s.monitor.notified ∧ (s.daemon = .unborn ∨ s.daemon.notified)

/-- **The status of the foreground process.** An error is the one with which the daemon has exited before it was started, handed
on by the monitor. Success is told when the daemon has been started; but it is told too where a process has been killed or has
exited without an error before it notified, or where a `waitpid` has failed. -/
theorem foreground_status (actions : List Action) (s : System) (run : Runs .start actions s) :
    (∀ code ≠ 0, s.foreground = .ended (.exited code) → s.monitor.failed = some (.exited code) ∧
      (s.daemon = .unborn ∨ s.daemon.failed = some (.exited code))) ∧
    (s.foreground = .ended (.exited 0) → s.started ∨ s.monitor.failed.any Status.silent ∨ s.daemon.failed.any Status.silent ∨
      s.unreaped₁ ∨ s.unreaped₂) := by
  have inv := runs_invariant run
  refine ⟨fun code nonzero told => ?_, fun told => ?_⟩
  · have failed := inv.error₁ code nonzero told
    exact ⟨failed, (inv.error₂ code failed).imp_right And.right⟩
  · rcases inv.success₁ told with notified | unreaped | silent
    · rcases inv.success₂ (.inr notified) with unborn | started | unreaped | silent
      · exact .inl ⟨notified, .inl unborn⟩
      · exact .inl ⟨notified, .inr started⟩
      · exact .inr (.inr (.inr (.inr unreaped)))
      · exact .inr (.inr (.inl silent))
    · exact .inr (.inr (.inr (.inl unreaped)))
    · exact .inr (.inl silent)

/-- The daemon is killed before it is started, and the foreground process tells success. -/
theorem foreground_status_killed :
    let s : System :=
      { System.start with foreground := .ended (.exited 0), monitor := .running, daemon := .ended (.killed 11) false }
    (∀ code ≠ 0, s.foreground = .ended (.exited code) → s.monitor.failed = some (.exited code) ∧
      (s.daemon = .unborn ∨ s.daemon.failed = some (.exited code))) ∧
    (s.foreground = .ended (.exited 0) → s.started ∨ s.monitor.failed.any Status.silent ∨ s.daemon.failed.any Status.silent ∨
      s.unreaped₁ ∨ s.unreaped₂) := by
  apply foreground_status [.monitorForks true, .daemonKilled 11, .monitorReads false, .monitorReaps none, .monitorWrites false,
    .foregroundReads false]
  exact path_of_foldlM (by decide)

/-- The system calls of the foreground process and of the monitor. -/
def Action.calls : Action → Bool
  | .foregroundReads _ | .foregroundReaps _ | .monitorReads _ | .monitorReaps _ | .monitorWrites _ => true
  | _ => false

def Foreground.finished : Foreground → Bool
  | .ended _ => true
  | _ => false

/-- There is something to be read or reaped. -/
def System.ready (s : System) : Prop :=
  s.monitor.notified ∨ s.monitor = .notifying ∨
    (s.monitor = .reading ∨ s.monitor = .reaping) ∧ (s.daemon.notified ∨ s.daemon.failed.isSome) ∨
    s.monitor.failed.isSome ∧ ¬ s.daemon.holds

/-- How many calls are left at most. -/
def System.weight (s : System) : Nat :=
  (match s.foreground with
    | .reading => 2
    | .reaping => 1
    | .ended _ => 0) +
  match s.monitor with
    | .reading => 3
    | .reaping => 2
    | .notifying => 1
    | _ => 0

/-- A call that is neither interrupted nor fails. -/
def Action.goes : Action → Bool
  | .foregroundReads false | .foregroundReaps none | .monitorReads false | .monitorReaps none | .monitorWrites false => true
  | _ => false

theorem readAnswer_goes {pipe : Nat} {held : Bool} (goes : held = false ∨ 0 < pipe) : ∃ answer, readAnswer pipe held false = some answer := by
  unfold readAnswer
  rw [if_neg Bool.false_ne_true]
  split
  · exact ⟨_, rfl⟩
  · next none =>
    obtain rfl := goes.resolve_right none
    exact ⟨_, rfl⟩

theorem Monitor.gone_of_failed {m : Monitor} (failed : m.failed.isSome) : m.holds = false ∧ m.notified = false ∧ ∃ st, m.status = some st := by
  cases m with
  | ended status notified =>
    cases notified with
    | false => exact ⟨rfl, rfl, _, rfl⟩
    | true => cases failed
  | _ => cases failed

theorem Child.gone_of_failed {d : Child} (failed : d.failed.isSome) : d.holds = false ∧ d.starts = false ∧ ∃ st, d.status = some st := by
  cases d with
  | ended status notified => exact ⟨rfl, rfl, _, rfl⟩
  | _ => cases failed

theorem foregroundReads_goes {s : System} (here : s.foreground = .reading) (goes : (s.monitor.holds || s.daemon.holds) = false ∨ 0 < s.pipe₁) :
    ∃ action s', action.goes ∧ s.step action = some s' := by
  obtain ⟨answer, found⟩ := readAnswer_goes goes
  exact ⟨.foregroundReads false, _, rfl, by rw [System.step, if_pos here, found]; rfl⟩

theorem ready_goes {s : System} (inv : Invariant s) (ready : s.ready) (waits : ¬ s.foreground.finished) :
    ∃ action s', action.goes ∧ s.step action = some s' := by
  rcases ready with notified | notifying | ⟨waiting, told⟩ | ⟨failed, closed⟩
  · cases here : s.foreground with
    | reading => exact foregroundReads_goes here (.inr (by rw [inv.reading₁ here, if_pos notified]; exact Nat.one_pos))
    | reaping =>
      have quiet := (Monitor.gone_of_failed (inv.reaping₁ here).1).2.1
      rw [notified] at quiet
      cases quiet
    | ended status => exact absurd (by rw [here]; rfl) waits
  · cases here : s.foreground with
    | ended status => exact absurd (by rw [here]; rfl) waits
    | _ => exact ⟨.monitorWrites false, _, rfl, by rw [System.step, if_pos notifying, again_eq, if_neg Bool.false_ne_true, here]⟩
  · rcases waiting with here | here
    · have goes : s.daemon.starts = false ∨ 0 < s.pipe₂ := by
        rcases told with notified | failed
        · exact .inr (by rw [(inv.reading₂ here).2, if_pos notified]; exact Nat.one_pos)
        · exact .inl (Child.gone_of_failed failed).2.1
      obtain ⟨answer, found⟩ := readAnswer_goes goes
      exact ⟨.monitorReads false, _, rfl, by rw [System.step, if_pos here, found]; rfl⟩
    · obtain ⟨st, ended⟩ := (Child.gone_of_failed (inv.reaping₂ here)).2.2
      exact ⟨.monitorReaps none, _, rfl, by rw [System.step, if_pos here, ended]; rfl⟩
  · obtain ⟨gone, -, st, ended⟩ := Monitor.gone_of_failed failed
    cases here : s.foreground with
    | reading => exact foregroundReads_goes here (.inl (by rw [gone, (Bool.not_eq_true _).mp closed]; rfl))
    | reaping => exact ⟨.foregroundReaps none, _, rfl, by rw [System.step, if_pos here, ended]; rfl⟩
    | ended status => exact absurd (by rw [here]; rfl) waits

theorem goes_lowers {s s' : System} {action : Action} (inv : Invariant s) (ready : s.ready) (goes : action.goes)
    (next : s.step action = some s') : s'.ready ∧ s'.weight < s.weight := by
  cases action with
  | foregroundReads interrupted =>
    obtain ⟨here, ⟨rfl, -⟩ | ⟨-, -, rfl⟩ | ⟨-, -, -, rfl⟩⟩ := foregroundReads_cases next
    · cases goes
    · exact ⟨ready, by simp [System.weight, here]⟩
    · exact ⟨ready, by simp [System.weight, here]⟩
  | foregroundReaps error =>
    obtain ⟨here, ⟨rfl, -⟩ | ⟨gave, -⟩ | ⟨-, st, -, ⟨-, rfl⟩ | ⟨code, -, -, rfl⟩⟩⟩ := foregroundReaps_cases next
    · cases goes
    · cases error with
      | none => cases gave
      | some errno => cases goes
    · exact ⟨ready, by simp [System.weight, here]⟩
    · exact ⟨ready, by simp [System.weight, here]⟩
  | monitorReads interrupted =>
    obtain ⟨here, ⟨rfl, -⟩ | ⟨-, -, rfl⟩ | ⟨-, none, closed, rfl⟩⟩ := monitorReads_cases next
    · cases goes
    · exact ⟨.inr (.inl rfl), by simp [System.weight, here]⟩
    · obtain ⟨born, byte⟩ := inv.reading₂ here
      have quiet : s.daemon.notified = false := by grind -ring -linarith
      have failed := Child.failed_of_quiet born closed quiet
      exact ⟨.inr (.inr (.inl ⟨.inr rfl, .inr failed⟩)), by simp [System.weight, here]⟩
  | monitorReaps error =>
    obtain ⟨here, ⟨rfl, -⟩ | ⟨gave, -⟩ | ⟨-, st, -, ⟨-, rfl⟩ | ⟨code, -, -, rfl⟩⟩⟩ := monitorReaps_cases next
    · cases goes
    · cases error with
      | none => cases gave
      | some errno => cases goes
    · exact ⟨.inr (.inl rfl), by simp [System.weight, here]⟩
    · have gone := (Child.gone_of_failed (inv.reaping₂ here)).1
      exact ⟨.inr (.inr (.inr ⟨rfl, by simp [gone]⟩)), by simp [System.weight, here]⟩
  | monitorWrites interrupted =>
    obtain rfl : interrupted = false := by cases interrupted <;> first | rfl | cases goes
    simp only [System.step, again_eq] at next
    split at next
    · next here =>
      split at next
      · next isTrue => cases isTrue
      · split at next <;> obtain rfl := Option.some.inj next <;>
          exact ⟨.inl rfl, by simp [System.weight, here]⟩
    · cases next
  | _ => cases goes

/-- While there is nothing to be read or reaped no call changes that. -/
theorem not_ready_keeps {s s' : System} {action : Action} (inv : Invariant s) (quiet : ¬ s.ready) (calls : action.calls)
    (next : s.step action = some s') : s' = s := by
  unfold System.ready at quiet
  cases action with
  | foregroundReads interrupted =>
    obtain ⟨here, ⟨-, same⟩ | ⟨-, some', -⟩ | ⟨-, none, closed, -⟩⟩ := foregroundReads_cases next
    · exact same
    · have byte := inv.reading₁ here
      grind -ring -linarith
    · obtain ⟨closed, closed'⟩ := Bool.or_eq_false_iff.mp closed
      have failed := Monitor.failed_of_quiet closed
      grind -ring -linarith
  | foregroundReaps error =>
    have failed := inv.reaping₁ (foregroundReaps_cases next).1
    grind -ring -linarith
  | monitorReads interrupted =>
    obtain ⟨here, ⟨-, same⟩ | ⟨-, some', -⟩ | ⟨-, none, closed, -⟩⟩ := monitorReads_cases next
    · exact same
    · have byte := (inv.reading₂ here).2
      grind -ring -linarith
    · have failed := Child.failed_of_quiet (inv.reading₂ here).1 closed
      grind -ring -linarith
  | monitorReaps error =>
    have here := (monitorReaps_cases next).1
    have failed := inv.reaping₂ here
    grind -ring -linarith
  | monitorWrites interrupted =>
    simp only [System.step] at next
    split at next
    · next here => grind -ring -linarith
    · cases next
  | _ => cases calls

/-- **When the foreground process returns.** The calls of the foreground process and the monitor lead to its end exactly where there
is something for them: the monitor has notified or is about to, it waits for a daemon that has notified or ended, or it has ended
itself before it notified and the daemon has ended too. In particular it waits on where the monitor has been killed, as long as the
daemon lives. -/
theorem foreground_returns (actions : List Action) (s : System) (run : Runs .start actions s) (waits : ¬ s.foreground.finished) :
    (∃ calls s', (∀ action ∈ calls, action.calls) ∧ Runs s calls s' ∧ s'.foreground.finished) ↔ s.ready := by
  have inv := runs_invariant run
  constructor
  · rintro ⟨calls, s', mine, more, finished⟩
    by_contra quiet
    have same : s' = s := more.invariant (I := fun t => t = s)
      (fun t action t' mem here next => (not_ready_keeps (here ▸ inv) (here ▸ quiet) (mine action mem) next).trans here) rfl
    exact waits (same ▸ finished)
  · intro ready
    have path : ∃ calls s', (∀ action ∈ calls, action.goes) ∧ Runs s calls s' ∧ s'.foreground.finished :=
      exists_path_of_weight (I := fun t => Invariant t ∧ t.ready) (fun t => t.foreground.finished) (fun action : Action => action.goes) System.weight
        (fun t here waits => ready_goes here.1 here.2 waits)
        (fun t action t' here goes next => by
          obtain ⟨ready', less⟩ := goes_lowers here.1 here.2 goes next
          exact ⟨⟨step_invariant here.1 next, ready'⟩, less⟩) ⟨inv, ready⟩
    obtain ⟨calls, s', mine, more, finished⟩ := path
    refine ⟨calls, s', fun action mem => ?_, more, finished⟩
    have goes := mine action mem
    cases action <;> first | rfl | cases goes

/-- The monitor is killed, and the daemon has notified it in vain. -/
theorem foreground_returns_killed :
    let s : System := { System.start with monitor := .ended (.killed 9) false, daemon := .running }
    (∃ calls s', (∀ action ∈ calls, action.calls) ∧ Runs s calls s' ∧ s'.foreground.finished) ↔ s.ready := by
  apply foreground_returns [.monitorForks true, .monitorKilled 9, .daemonWrites false]
  · exact path_of_foldlM (by decide)
  · decide

end CodeClips.Daemon
