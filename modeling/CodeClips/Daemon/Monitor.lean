import CodeClips.Daemon.Startup

/-!
# The monitor of a daemon

`monitor_daemon` of `daemon-unix.c`, from when the daemon has been started. A pass of its loop takes from outside what `waitpid`
and `time` return and what comes of `fork_and_wait_for_startup`, which is that of the daemon's start. A daemon that was killed by
one of the error signals is started again, but not sooner than ten seconds after the last time. `status` is a new variable in each
pass, and where there is no daemon to wait for it is read although nothing has been stored in it: then it is left to chance
whether the daemon is started again or the monitor exits. `monitor_daemon_restarts` is about all runs.
-/

namespace CodeClips.Daemon

/-- `SIGABRT`, `SIGALRM`, `SIGBUS`, `SIGFPE`, `SIGILL`, `SIGPIPE`, `SIGSEGV`, `SIGXCPU` and `SIGXFSZ`. -/
def error_signals : List Nat := [6, 14, 7, 8, 4, 13, 11, 24, 25]

def should_restart : Status → Bool
  | .killed signal => error_signals.contains signal
  | .exited _ => false

def TIME_MIN : Int := -9223372036854775808

/-- `fork_and_wait_for_startup` returns and has stored a pid, or ends the process. -/
inductive Startup
  | returned (ret pid : Int)
  | exited (code : Nat)

/-- What a pass takes from outside. -/
structure Pass where
  /-- The pid and the status, or the error. -/
  waits : List (Except Int (Int × Status))
  /-- What stands in the variable `status` where nothing has been stored in it. -/
  leftover : Status
  /-- The clock before the loop that sleeps, in it, and behind it. -/
  check : Int
  clock : List Int
  now : Int
  startup : Startup

/-- The variables that are kept from pass to pass. `restarts` is a record of the values of `last_restart`. -/
structure Monitoring where
  daemon_pid : Int
  child_ready : Bool
  last_restart : Int
  restarts : List Int

def Monitoring.start (daemon_pid : Int) : Monitoring :=
  { daemon_pid := daemon_pid, child_ready := true, last_restart := TIME_MIN, restarts := [] }

/-- The loop goes on, the new daemon leaves it, the monitor exits, or does so with the error of a new daemon. -/
inductive Loop
  | goesOn (s : Monitoring)
  | child
  | exits
  | failed (code : Nat)

/-- How a pass reads `status`: not at all, as `waitpid` has stored it, or without a value of its own. -/
inductive Reading
  | unread
  | stored (status : Status)
  | unset
deriving DecidableEq

/-- The loop around `waitpid`. -/
def waitpid : List (Except Int (Int × Status)) → Option (Except Int (Int × Status))
  | [] => none
  | .error errno :: later => if errno = EINTR then waitpid later else some (.error errno)
  | .ok child :: _ => some (.ok child)

/-- The loop around `xsleep`. -/
def sleeps (wakeup : Int) : List Int → Bool
  | [] => false
  | now :: later => if now ≥ wakeup then true else sleeps wakeup later

/-- Whether it is time to restart the daemon, at once or after some sleep. -/
def Monitoring.awake (s : Monitoring) (pass : Pass) : Bool :=
  if pass.check < s.last_restart + 10 then sleeps (s.last_restart + 10) pass.clock else true

def Monitoring.restart (s : Monitoring) (pass : Pass) : Option Loop :=
  if s.awake pass then
    some (match pass.startup with
      | .exited code => .failed code
      | .returned ret pid =>
        if ret = 0 ∧ pid = 0 then .child
        else .goesOn { daemon_pid := pid, child_ready := ret = 0, last_restart := pass.now, restarts := pass.now :: s.restarts })
  else none

def Monitoring.died (s : Monitoring) (pass : Pass) (status : Status) : Option Loop :=
  if should_restart status then s.restart pass else some .exits

/-- A pass of the loop, which is none where it waits or sleeps for ever. -/
def Monitoring.pass (s : Monitoring) (pass : Pass) : Option (Loop × Reading) :=
  if s.child_ready then
    match waitpid pass.waits with
    | none => none
    | some (.error _) =>
      if -1 = s.daemon_pid then (s.died pass pass.leftover).map fun loop => (loop, .unset) else some (.goesOn s, .unread)
    | some (.ok (retval, status)) =>
      if retval = s.daemon_pid then (s.died pass status).map fun loop => (loop, .stored status) else some (.goesOn s, .unread)
  else (s.died pass pass.leftover).map fun loop => (loop, .unset)

/-! ## What it is for -/

/-- The clock does not go back. -/
def Pass.Steady (pass : Pass) : Prop := (pass.check :: (pass.clock ++ [pass.now])).Pairwise (· ≤ ·)

instance (pass : Pass) : Decidable pass.Steady :=
  inferInstanceAs (Decidable ((pass.check :: (pass.clock ++ [pass.now])).Pairwise (· ≤ ·)))

/-- The daemon is started another time. -/
def Loop.Restarted (s : Monitoring) : Loop → Prop
  | .goesOn s' => s'.restarts ≠ s.restarts
  | .child => True
  | .failed _ => True
  | .exits => False

/-- Ten seconds apart, the latest first. -/
def Throttled (restarts : List Int) : Prop := restarts.Pairwise fun later earlier => earlier + 10 ≤ later

/-- There is no daemon: its startup has failed, or its `fork`, which leaves a pid that `waitpid` fails with. -/
def Monitoring.Lacks (s : Monitoring) (pass : Pass) : Prop :=
  s.child_ready = false ∨ s.daemon_pid = -1 ∧ ∃ errno, waitpid pass.waits = some (.error errno)

/-- The daemon has ended with this. -/
def Monitoring.Reaps (s : Monitoring) (pass : Pass) (status : Status) : Prop :=
  s.child_ready = true ∧ waitpid pass.waits = some (.ok (s.daemon_pid, status))

/-- By this the pass decides: how the daemon has ended, or what stands in `status` where there is none. -/
def Monitoring.Finds (s : Monitoring) (pass : Pass) (status : Status) : Prop :=
  s.Reaps pass status ∨ s.Lacks pass ∧ pass.leftover = status

/-- Whoever lacks a daemon has tried to restart it. -/
structure Monitoring.Invariant (s : Monitoring) : Prop where
  tried : s.child_ready = false ∨ s.daemon_pid = -1 → s.restarts ≠ []
  last : ∀ time ∈ s.restarts.head?, s.last_restart = time
  throttled : Throttled s.restarts

variable {s s' : Monitoring} {pass : Pass} {loop : Loop} {reading : Reading} {status : Status}

theorem start_monitoring {daemon_pid : Int} (running : daemon_pid ≠ -1) : (Monitoring.start daemon_pid).Invariant :=
  ⟨fun lacks => absurd lacks (not_or.mpr ⟨nofun, running⟩), nofun, List.Pairwise.nil⟩

theorem sleeps_late {wakeup : Int} {clock : List Int} (woken : sleeps wakeup clock = true) : ∃ time ∈ clock, wakeup ≤ time := by
  induction clock with
  | nil => cases woken
  | cons now later ih =>
    rw [sleeps] at woken
    split_ifs at woken with late
    · exact ⟨now, List.mem_cons_self, late⟩
    · obtain ⟨time, mem, late⟩ := ih woken
      exact ⟨time, List.mem_cons_of_mem _ mem, late⟩

/-! ## A pass -/

theorem restart_cases (ran : s.restart pass = some loop) :
    (s.last_restart + 10 ≤ pass.check ∨ ∃ time ∈ pass.clock, s.last_restart + 10 ≤ time) ∧
      ((∃ code, loop = .failed code) ∨ loop = .child ∨ ∃ pid ready, loop = .goesOn {
        daemon_pid := pid, child_ready := ready, last_restart := pass.now, restarts := pass.now :: s.restarts }) := by
  unfold Monitoring.restart at ran
  split at ran
  · next awake =>
    obtain rfl := Option.some.inj ran
    constructor
    · unfold Monitoring.awake at awake
      split at awake
      · exact .inr (sleeps_late awake)
      · next late => exact .inl (Int.not_lt.mp late)
    · cases pass.startup with
      | exited code => exact .inl ⟨code, rfl⟩
      | returned ret pid =>
        dsimp only
        split
        · exact .inr (.inl rfl)
        · exact .inr (.inr ⟨pid, _, rfl⟩)
  · cases ran

theorem restarted (ran : s.restart pass = some loop) : loop.Restarted s := by
  obtain ⟨-, ⟨code, rfl⟩ | rfl | ⟨pid, ready, rfl⟩⟩ := restart_cases ran
  · trivial
  · trivial
  · exact List.cons_ne_self _ _

/-- A daemon that has died is started again, or the monitor exits. -/
theorem died_cases (ran : s.died pass status = some loop) :
    should_restart status = true ∧ s.restart pass = some loop ∨ should_restart status = false ∧ loop = .exits := by
  unfold Monitoring.died at ran
  split at ran
  · next crash => exact .inl ⟨crash, ran⟩
  · next fine => exact .inr ⟨(Bool.not_eq_true _).mp fine, (Option.some.inj ran).symm⟩

theorem Monitoring.Reaps.unique {status' : Status} (reaps : s.Reaps pass status) (reaps' : s.Reaps pass status') : status = status' :=
  (Prod.mk.inj (Except.ok.inj (Option.some.inj (reaps.2.symm.trans reaps'.2)))).2

theorem Monitoring.Reaps.not_lacks (reaps : s.Reaps pass status) : ¬ s.Lacks pass := by
  rintro (down | ⟨-, errno, failed⟩)
  · cases reaps.1.symm.trans down
  · cases reaps.2.symm.trans failed

theorem Monitoring.Finds.unique {status' : Status} (finds : s.Finds pass status) (finds' : s.Finds pass status') : status = status' := by
  rcases finds with reaps | ⟨lacks, rfl⟩ <;> rcases finds' with reaps' | ⟨lacks', rfl⟩
  · exact reaps.unique reaps'
  · exact absurd lacks' reaps.not_lacks
  · exact absurd lacks reaps'.not_lacks
  · rfl

/-- What comes of a pass: it reads nothing and goes on, it reads what `waitpid` has stored, or `status` has no value. -/
theorem pass_cases (ran : s.pass pass = some (loop, reading)) :
    (reading = .unread ∧ loop = .goesOn s ∧ ¬ s.Lacks pass ∧ ∀ status, ¬ s.Reaps pass status) ∨
      (∃ status, reading = .stored status ∧ s.Reaps pass status ∧ s.died pass status = some loop) ∨
      (reading = .unset ∧ s.Lacks pass ∧ s.died pass pass.leftover = some loop) := by
  unfold Monitoring.pass at ran
  split at ran
  · next ready =>
    cases waited : waitpid pass.waits with
    | none =>
      rw [waited] at ran
      cases ran
    | some answer =>
      rw [waited] at ran
      rcases answer with errno | ⟨retval, status⟩
      · dsimp only at ran
        split at ran
        · next unforked =>
          obtain ⟨_, died, same⟩ := Option.map_eq_some_iff.mp ran
          cases same
          exact .inr (.inr ⟨rfl, .inr ⟨unforked.symm, errno, waited⟩, died⟩)
        · next forked =>
          cases ran
          refine .inl ⟨rfl, rfl, ?_, fun status reaps => ?_⟩
          · rintro (down | ⟨unforked, -⟩)
            · cases ready.symm.trans down
            · exact forked unforked.symm
          · cases waited.symm.trans reaps.2
      · dsimp only at ran
        split at ran
        · next same =>
          subst same
          obtain ⟨_, died, same⟩ := Option.map_eq_some_iff.mp ran
          cases same
          exact .inr (.inl ⟨status, rfl, ⟨ready, waited⟩, died⟩)
        · next other =>
          cases ran
          refine .inl ⟨rfl, rfl, ?_, fun status reaps => ?_⟩
          · rintro (down | ⟨-, errno, failed⟩)
            · cases ready.symm.trans down
            · cases waited.symm.trans failed
          · cases waited.symm.trans reaps.2
            exact other rfl
  · next down =>
    obtain ⟨_, died, same⟩ := Option.map_eq_some_iff.mp ran
    cases same
    exact .inr (.inr ⟨rfl, .inl ((Bool.not_eq_true _).mp down), died⟩)

/-- Either nothing is found and nothing done, or the pass decides by what it finds. -/
theorem pass_finds (ran : s.pass pass = some (loop, reading)) :
    (loop = .goesOn s ∧ ∀ status, ¬ s.Finds pass status) ∨ ∃ status, s.Finds pass status ∧ s.died pass status = some loop := by
  rcases pass_cases ran with ⟨-, same, alive, unreaped⟩ | ⟨status, -, reaps, died⟩ | ⟨-, lacks, died⟩
  · exact .inl ⟨same, fun status finds => finds.elim (unreaped status) fun both => alive both.1⟩
  · exact .inr ⟨status, .inl reaps, died⟩
  · exact .inr ⟨pass.leftover, .inr ⟨lacks, rfl⟩, died⟩

/-- The daemon is started another time just where a crash is found. -/
theorem restarted_iff (ran : s.pass pass = some (loop, reading)) :
    loop.Restarted s ↔ ∃ status, s.Finds pass status ∧ should_restart status = true := by
  rcases pass_finds ran with ⟨rfl, nothing⟩ | ⟨status, finds, died⟩
  · exact iff_of_false (fun again => again rfl) fun ⟨status, finds, _⟩ => nothing status finds
  · rcases died_cases died with ⟨crash, again⟩ | ⟨fine, rfl⟩
    · exact iff_of_true (restarted again) ⟨status, finds, crash⟩
    · refine iff_of_false id ?_
      rintro ⟨status', finds', crash⟩
      obtain rfl := finds.unique finds'
      cases fine.symm.trans crash

/-- The monitor exits just where another end is found. -/
theorem exits_iff (ran : s.pass pass = some (loop, reading)) :
    loop = .exits ↔ ∃ status, s.Finds pass status ∧ should_restart status = false := by
  rcases pass_finds ran with ⟨rfl, nothing⟩ | ⟨status, finds, died⟩
  · exact iff_of_false nofun fun ⟨status, finds, _⟩ => nothing status finds
  · rcases died_cases died with ⟨crash, again⟩ | ⟨fine, rfl⟩
    · refine iff_of_false ?_ ?_
      · rintro rfl
        exact restarted again
      · rintro ⟨status', finds', fine⟩
        obtain rfl := finds.unique finds'
        cases fine.symm.trans crash
    · exact iff_of_true rfl ⟨status, finds, fine⟩

/-- It goes on as it is just where nothing is found. -/
theorem goesOn_iff (ran : s.pass pass = some (loop, reading)) :
    loop = .goesOn s ↔ ¬ s.Lacks pass ∧ ∀ status, ¬ s.Reaps pass status := by
  constructor
  · rintro rfl
    rcases pass_finds ran with ⟨-, nothing⟩ | ⟨status, -, died⟩
    · exact ⟨fun lacks => nothing _ (.inr ⟨lacks, rfl⟩), fun status reaps => nothing status (.inl reaps)⟩
    · rcases died_cases died with ⟨-, again⟩ | ⟨-, ends⟩
      · exact absurd rfl (restarted again)
      · cases ends
  · rintro ⟨alive, unreaped⟩
    rcases pass_cases ran with ⟨-, same, -⟩ | ⟨status, -, reaps, -⟩ | ⟨-, lacks, -⟩
    · exact same
    · exact absurd reaps (unreaped status)
    · exact absurd lacks alive

/-- `status` is read unset just where there is no daemon. -/
theorem unset_iff (ran : s.pass pass = some (loop, reading)) : reading = .unset ↔ s.Lacks pass := by
  rcases pass_cases ran with ⟨rfl, -, alive, -⟩ | ⟨status, rfl, reaps, -⟩ | ⟨rfl, lacks, -⟩
  · exact iff_of_false nofun alive
  · exact iff_of_false nofun reaps.not_lacks
  · exact iff_of_true rfl lacks

/-- A restart is ten seconds later at least. -/
theorem restart_keeps (inv : s.Invariant) (steady : pass.Steady) (ran : s.restart pass = some (.goesOn s')) : s'.Invariant := by
  obtain ⟨late, ⟨_, again⟩ | again | ⟨pid, ready, again⟩⟩ := restart_cases ran
  · cases again
  · cases again
  cases again
  obtain ⟨first, rest⟩ := List.pairwise_cons.mp steady
  have late : s.last_restart + 10 ≤ pass.now := by
    rcases late with late | ⟨time, mem, late⟩
    · exact Int.le_trans late (first _ (List.mem_append_right _ List.mem_cons_self))
    · exact Int.le_trans late ((List.pairwise_append.mp rest).2.2 time mem _ List.mem_cons_self)
  refine ⟨fun _ => List.cons_ne_nil _ _, fun time mem => Option.some.inj mem, List.pairwise_cons.mpr ⟨?_, inv.throttled⟩⟩
  obtain ⟨-, last, throttled⟩ := inv
  cases before : s.restarts with
  | nil => nofun
  | cons latest earlier =>
    rw [before] at last throttled
    have here := last latest rfl
    rintro time (_ | ⟨_, mem⟩)
    · omega
    · have apart := List.rel_of_pairwise_cons throttled mem
      omega

theorem pass_keeps (inv : s.Invariant) (steady : pass.Steady) (ran : s.pass pass = some (.goesOn s', reading)) : s'.Invariant := by
  rcases pass_finds ran with ⟨same, -⟩ | ⟨status, -, died⟩
  · cases same
    exact inv
  · rcases died_cases died with ⟨-, again⟩ | ⟨-, ends⟩
    · exact restart_keeps inv steady again
    · cases ends

/-! ## All runs -/

/-- The passes after which the loop goes on. -/
abbrev Monitors := Path fun (s : Monitoring) pass s' => ∃ reading, s.pass pass = some (.goesOn s', reading)

/-- **The monitor.** With a clock that does not go back, restarts are ten seconds apart. A pass starts the daemon another time where
it finds a crash, exits where it finds another end, and goes on as it is where it finds nothing. It finds how the daemon has ended,
except where there is none, which only a restart can lead to: then, and only then, `status` is read unset. -/
theorem monitor_daemon_restarts (passes : List Pass) (daemon_pid : Int) (s : Monitoring) (running : daemon_pid ≠ -1)
    (run : Monitors (.start daemon_pid) passes s) (steady : ∀ pass ∈ passes, pass.Steady) :
    Throttled s.restarts ∧ ∀ pass loop reading, s.pass pass = some (loop, reading) →
      (loop.Restarted s ↔ ∃ status, s.Finds pass status ∧ should_restart status = true) ∧
      (loop = .exits ↔ ∃ status, s.Finds pass status ∧ should_restart status = false) ∧
      (loop = .goesOn s ↔ ¬ s.Lacks pass ∧ ∀ status, ¬ s.Reaps pass status) ∧
      (reading = .unset ↔ s.Lacks pass) ∧ (reading = .unset → s.restarts ≠ []) := by
  have inv : s.Invariant := by
    refine run.invariant (fun t pass t' mem inv ran => ?_) (start_monitoring running)
    obtain ⟨reading, ran⟩ := ran
    exact pass_keeps inv (steady pass mem) ran
  refine ⟨inv.throttled, fun pass loop reading ran => ?_⟩
  refine ⟨restarted_iff ran, exits_iff ran, goesOn_iff ran, unset_iff ran, fun unset => ?_⟩
  exact inv.tried (((unset_iff ran).mp unset).imp_right And.left)

/-- The daemon crashes, its restart fails, and the next pass, which finds a signal in the new `status` by chance, comes too soon.
Had it found a zero there, the monitor would have exited. -/
theorem monitor_daemon_restarts_twice :
    let failed : Pass :=
      { waits := [.error EINTR, .ok (7, .killed 11)], leftover := .exited 0, check := 100, clock := [], now := 100,
        startup := .returned (-1) 8 }
    let lucky : Pass :=
      { waits := [], leftover := .killed 11, check := 103, clock := [103, 110], now := 110, startup := .returned 0 9 }
    ∃ s t, Monitors (.start 7) [failed] s ∧ Monitors (.start 7) [failed, lucky] t ∧ Throttled t.restarts ∧ t.restarts = [110, 100] ∧
      ∀ loop reading, s.pass { lucky with leftover := .exited 0 } = some (loop, reading) → loop = .exits ∧ reading = .unset := by
  intro failed lucky
  let s : Monitoring := { daemon_pid := 8, child_ready := false, last_restart := 100, restarts := [100] }
  let t : Monitoring := { daemon_pid := 9, child_ready := true, last_restart := 110, restarts := [110, 100] }
  have first : Monitors (.start 7) [failed] s := .cons ⟨_, rfl⟩ (.nil _)
  have both : Monitors (.start 7) [failed, lucky] t := .cons ⟨_, rfl⟩ (.cons ⟨_, rfl⟩ (.nil _))
  have steady : ∀ pass ∈ [failed, lucky], pass.Steady := by decide
  have atFirst := monitor_daemon_restarts [failed] 7 s (by decide) first fun pass mem => steady pass (List.mem_cons.mpr (.inl (List.mem_singleton.mp mem)))
  have atLast := monitor_daemon_restarts [failed, lucky] 7 t (by decide) both steady
  refine ⟨s, t, first, both, atLast.1, rfl, fun loop reading ran => ?_⟩
  obtain ⟨-, exits, -, unset, -⟩ := atFirst.2 _ loop reading ran
  exact ⟨exits.mpr ⟨.exited 0, .inr ⟨.inl rfl, rfl⟩, rfl⟩, unset.mpr (.inl rfl)⟩

end CodeClips.Daemon
