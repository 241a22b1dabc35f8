import CodeClips.Python.ManagerServer
import Mathlib.Data.List.Nodup
import Mathlib.Data.List.TakeWhile

/-!
# What `launch` returns

The handler in the loop of `launch` leaves it only for a missing executable. After any other error
the file is put down for the pid of the spawn before, or there is no such pid. `record` is the
dictionary that the loop makes of the attempts, and `own` the one that is right.
-/

namespace CodeClips.Manager

/-- A configuration file and how the spawn for it ended. -/
abbrev Attempt := Str × Outcome

/-- All attempts that the loop could make. -/
def attempts (self : Server) (kwargs : Kwargs) (popen : Nat → List Str → Outcome) : Nat → List Str → List Attempt
  | _, [] => []
  | i, conf_file :: conf_files =>
    (conf_file, popen i (spawn_args self kwargs conf_file)) :: attempts self kwargs popen (i + 1) conf_files

def missing (a : Attempt) : Bool :=
  match a.2 with
  | .ok _ => false
  | .error e => e = ENOENT

/-- Those before an executable is missing. -/
def attempted (as : List Attempt) : List Attempt := as.takeWhile fun a => !missing a

def failed (a : Attempt) : Bool :=
  match a.2 with
  | .ok _ => false
  | .error _ => true

/-- The pids of the servers that were spawned. -/
def spawned (as : List Attempt) : List Nat := as.filterMap fun a => a.2.toOption

/-- The file of the server with a pid. -/
def own (as : List Attempt) (pid : Nat) : Option Str := (as.find? fun a => a.2.toOption = some pid).map Prod.fst

/-- No failure is before all spawns, and the last of those that directly follow a spawn, if there
are any, has the file of the spawn. -/
structure Harmless (as : List Attempt) : Prop where
  first : ∀ a ∈ as.head?, ¬ failed a
  after : ∀ before file pid after, as = before ++ (file, .ok pid) :: after →
    ∀ a ∈ (after.takeWhile failed).getLast?, a.1 = file

/-- The dictionary and the variable `pid` after some attempts. -/
def record (pids : Nat → Option Str) : Option Nat → List Attempt → Except String (Nat → Option Str)
  | _, [] => .ok pids
  | _, (file, .ok pid) :: as => record (setPid pids pid file) (some pid) as
  | none, (_, .error _) :: _ => .error "local variable 'pid' referenced before assignment"
  | some pid, (file, .error _) :: as => record (setPid pids pid file) (some pid) as

section Attempted
variable {as : List Attempt} {file : Str} {pid e : Nat}

theorem attempted_ok : attempted ((file, .ok pid) :: as) = (file, .ok pid) :: attempted as :=
  List.takeWhile_cons_of_pos rfl

theorem attempted_missing : attempted ((file, .error ENOENT) :: as) = [] :=
  List.takeWhile_cons_of_neg (by simp [missing])

theorem attempted_failed (other : e ≠ ENOENT) : attempted ((file, .error e) :: as) = (file, .error e) :: attempted as :=
  List.takeWhile_cons_of_pos (by simp [missing, other])

end Attempted

section Spawn
variable {self : Server} {kwargs : Kwargs} {popen : List Str → Outcome} {conf_file : Str} {started : Started}

theorem spawn_ok {pid : Nat} (outcome : popen (spawn_args self kwargs conf_file) = .ok pid) :
    spawn self kwargs popen conf_file started = .ok (pid, {
      procs := started.procs ++ [pid]
      written := started.written ++ [(get_pid_file_name self conf_file, pid)] }) := by
  rw [spawn, outcome]
  rfl

theorem spawn_error {e : Nat} (outcome : popen (spawn_args self kwargs conf_file) = .error e) :
    spawn self kwargs popen conf_file started = .error e := by
  rw [spawn, outcome]
  rfl

end Spawn

/-- The loop records the attempts that it makes. -/
theorem launch_loop_pids (self : Server) (kwargs : Kwargs) (popen : Nat → List Str → Outcome) (i : Nat) (s : Launching)
    (conf_files : List Str) :
    (launch_loop self kwargs popen i s conf_files).map Launching.pids =
      record s.pids s.pid (attempted (attempts self kwargs popen i conf_files)) := by
  induction conf_files generalizing i s with
  | nil => rfl
  | cons conf_file conf_files ih =>
    rw [launch_loop, attempts]
    cases outcome : popen i (spawn_args self kwargs conf_file) with
    | ok pid =>
      rw [spawn_ok outcome, attempted_ok, record]
      exact ih (i + 1) _
    | error e =>
      rw [spawn_error outcome]
      dsimp only
      split_ifs with noent
      · rw [noent, attempted_missing]
        rfl
      · rw [attempted_failed noent]
        cases s.pid with
        | none => rfl
        | some pid =>
          rw [record]
          exact ih (i + 1) _

section Record
variable {as before after : List Attempt} {pids : Nat → Option Str} {pid p : Nat} {file : Str}

theorem setPid_same : setPid pids pid file pid = some file := if_pos rfl

theorem setPid_other (other : p ≠ pid) : setPid pids pid file p = pids p := if_neg other

/-- What holds of a spawn at the beginning and of those behind it holds of every one. -/
theorem forall_spawn_cons {holds : Str → Nat → List Attempt → Prop} (here : holds file pid as)
    (each : ∀ before file p after, as = before ++ (file, .ok p) :: after → holds file p after) :
    ∀ before file' p after, (file, .ok pid) :: as = before ++ (file', .ok p) :: after → holds file' p after := by
  intro before file' p after split
  cases before with
  | nil =>
    obtain ⟨⟨⟩, rfl⟩ := List.cons.inj split
    exact here
  | cons b before => exact each before file' p after (List.cons.inj split).2

/-- The file that the pid before the attempts is left with: that of the last of the failures at
their beginning, or the one it has. -/
def leftWith (as : List Attempt) (file : Option Str) : Option Str := ((as.takeWhile failed).getLast?.map Prod.fst).or file

theorem leftWith_ok (other : Option Str) : leftWith ((file, .ok pid) :: as) other = other := by
  rw [leftWith, List.takeWhile_cons_of_neg (by simp [failed])]
  rfl

theorem leftWith_error {e : Nat} (other : Option Str) : leftWith ((file, .error e) :: as) other = leftWith as (some file) := by
  rw [leftWith, leftWith, List.takeWhile_cons_of_pos rfl, List.getLast?_cons]
  cases (as.takeWhile failed).getLast? with
  | none => rfl
  | some a => rfl

/-- **What is recorded**: each spawn is left with its own file or that of a failure, and so is the
pid before, to which the failures at the beginning go. -/
theorem record_spec (pids : Nat → Option Str) (fresh : (pid :: spawned as).Nodup) :
    ∃ result, record pids (some pid) as = .ok result ∧ result pid = leftWith as (pids pid) ∧
    (∀ before file p after, as = before ++ (file, .ok p) :: after → result p = leftWith after (some file)) ∧
    ∀ p, p ≠ pid → p ∉ spawned as → result p = pids p := by
  induction as generalizing pids pid with
  | nil =>
    refine ⟨pids, rfl, rfl, ?_, fun _ _ _ => rfl⟩
    intro before file p after split
    exact absurd split (by simp)
  | cons a as ih =>
    obtain ⟨file, outcome⟩ := a
    cases outcome with
    | ok p =>
      have both : (pid :: p :: spawned as).Nodup := fresh
      obtain ⟨outside, rest⟩ := List.nodup_cons.mp both
      rw [List.mem_cons, not_or] at outside
      obtain ⟨result, done, here, each, others⟩ := ih (setPid pids p file) rest
      rw [setPid_same] at here
      refine ⟨result, done, ?_, forall_spawn_cons here each, ?_⟩
      · rw [others pid outside.1 outside.2, setPid_other outside.1, leftWith_ok]
      · intro q differ none
        have none' : q ∉ p :: spawned as := none
        rw [List.mem_cons, not_or] at none'
        rw [others q none'.1 none'.2, setPid_other none'.1]
    | error e =>
      obtain ⟨result, done, here, each, others⟩ := ih (setPid pids pid file) fresh
      refine ⟨result, done, ?_, ?_, ?_⟩
      · rw [here, setPid_same, leftWith_error]
      · intro before file' p' after split
        cases before with
        | nil => cases (List.cons.inj split).1
        | cons b before => exact each before file' p' after (List.cons.inj split).2
      · intro q differ none
        rw [others q differ none, setPid_other differ]

/-- With pids that are all different, the file of a spawn is found by its pid. -/
theorem own_spawn (fresh : (spawned as).Nodup) (split : as = before ++ (file, .ok p) :: after) : own as p = some file := by
  subst split
  have different : (spawned before ++ p :: spawned after).Nodup := by
    rw [spawned, List.filterMap_append] at fresh
    exact fresh
  have earlier : before.find? (fun a => a.2.toOption = some p) = none := by
    rw [List.find?_eq_none]
    intro a member same
    have inside : p ∈ spawned before := List.mem_filterMap.mpr ⟨a, member, of_decide_eq_true same⟩
    exact (List.nodup_append.mp different).2.2 p inside p List.mem_cons_self rfl
  rw [own, List.find?_append, earlier, Option.none_or, List.find?_cons_of_pos (by simp [Except.toOption])]
  rfl

theorem own_none (outside : p ∉ spawned as) : own as p = none := by
  rw [own, Option.map_eq_none_iff, List.find?_eq_none]
  intro a member same
  exact outside (List.mem_filterMap.mpr ⟨a, member, of_decide_eq_true same⟩)

theorem exists_spawn (inside : p ∈ spawned as) : ∃ before file after, as = before ++ (file, .ok p) :: after := by
  obtain ⟨⟨file, outcome⟩, member, eq⟩ := List.mem_filterMap.mp inside
  cases outcome with
  | error e => cases eq
  | ok q =>
    cases eq
    obtain ⟨before, after, split⟩ := List.append_of_mem member
    exact ⟨before, file, after, split⟩

theorem harmless_cons (after : ∀ before file' p after, (file, .ok pid) :: as = before ++ (file', .ok p) :: after →
    leftWith after (some file') = some file') : Harmless ((file, .ok pid) :: as) := by
  refine ⟨fun a first => by cases first; simp [failed], ?_⟩
  intro before file' p rest split a last
  have right := after before file' p rest split
  rw [leftWith, Option.mem_def.mp last] at right
  exact Option.some.inj right

theorem Harmless.leftWith_eq (harmless : Harmless as) (split : as = before ++ (file, .ok p) :: after) :
    leftWith after (some file) = some file := by
  rw [leftWith]
  cases last : (after.takeWhile failed).getLast? with
  | none => rfl
  | some a => rw [Option.map_some, Option.some_or, harmless.after before file p after split a last]

/-- The dictionary is right exactly if the failures are harmless. -/
theorem record_iff (fresh : (spawned as).Nodup) : record (fun _ => none) none as = .ok (own as) ↔ Harmless as := by
  cases as with
  | nil =>
    refine iff_of_true rfl ⟨?_, ?_⟩
    · intro a first
      cases first
    · intro before file pid after split
      exact absurd split (by simp)
  | cons a as =>
    obtain ⟨file, outcome⟩ := a
    cases outcome with
    | error e => exact iff_of_false (fun done => by cases done) fun harmless => harmless.first _ rfl rfl
    | ok pid =>
      obtain ⟨result, done, here, each, others⟩ := record_spec (setPid (fun _ => none) pid file) fresh
      rw [setPid_same] at here
      have spawn := forall_spawn_cons here each
      rw [record, done, Except.ok.injEq]
      constructor
      · intro same
        apply harmless_cons
        intro before file' p after split
        rw [← spawn before file' p after split, same, own_spawn fresh split]
      · intro harmless
        funext p
        by_cases inside : p ∈ spawned ((file, .ok pid) :: as)
        · obtain ⟨before, file', after, split⟩ := exists_spawn inside
          rw [spawn before file' p after split, own_spawn fresh split, harmless.leftWith_eq split]
        · rw [own_none inside]
          have outside : p ∉ pid :: spawned as := inside
          rw [List.mem_cons, not_or] at outside
          rw [others p outside.1 outside.2, setPid_other outside.1]

/-- With files that are all different, only no failure at all is harmless. -/
theorem harmless_iff_of_nodup (different : (as.map Prod.fst).Nodup) : Harmless as ↔ ∀ a ∈ as, ¬ failed a := by
  constructor
  · intro harmless a member bad
    have found : (as.find? failed).isSome := List.find?_isSome.mpr ⟨a, member, bad⟩
    obtain ⟨b, found⟩ := Option.isSome_iff_exists.mp found
    obtain ⟨bad, good, rest, rfl, goods⟩ := List.find?_eq_some_iff_append.mp found
    -- The first failure follows a spawn; the last of those after it has another file.
    rcases List.eq_nil_or_concat good with rfl | ⟨before, ⟨file, outcome⟩, rfl⟩
    · exact harmless.first b rfl bad
    · cases outcome with
      | error e => exact absurd (goods (file, .error e) (by simp)) (by simp [failed])
      | ok pid =>
        obtain ⟨last, is⟩ := Option.isSome_iff_exists.mp
          (List.getLast?_isSome.mpr (by simp [bad] : ((b :: rest).takeWhile failed) ≠ []))
        have same := harmless.after before file pid (b :: rest) (by simp) last is
        have inside : last ∈ b :: rest := (List.takeWhile_sublist failed).subset (List.mem_of_getLast? is)
        have again := List.mem_map_of_mem (f := Prod.fst) inside
        rw [same] at again
        rw [List.concat_eq_append, List.append_assoc, List.map_append] at different
        exact (List.nodup_cons.mp (List.nodup_append.mp different).2.1).1 again
  · intro none
    refine ⟨fun a first => none a (List.mem_of_mem_head? first), ?_⟩
    rintro before file pid after rfl a last
    have member := List.mem_of_getLast? last
    have inside : a ∈ after := (List.takeWhile_sublist failed).subset member
    exact absurd (List.mem_takeWhile_imp member) (none a (by simp [inside]))

end Record

section Launch
variable (self : Server) (kwargs : Kwargs) (conf_files : List Str) (popen : Nat → List Str → Outcome)

/-- The attempts of `launch` before an executable is missing. -/
def tried : List Attempt := attempted (attempts self (launch_kwargs self kwargs) popen 0 conf_files)

theorem attempts_files (i : Nat) : (attempts self kwargs popen i conf_files).map Prod.fst = conf_files := by
  induction conf_files generalizing i with
  | nil => rfl
  | cons conf_file conf_files ih => rw [attempts, List.map_cons, ih]

/-- **What `launch` returns** where no server runs: with fresh pids, the dictionary from the pid of
each spawned server to its own file exactly if the other failures before a missing executable are
harmless, and with different files only if there are none. -/
theorem launch_iff (some : conf_files ≠ []) (fresh : (spawned (tried self kwargs conf_files popen)).Nodup) :
    ((∃ started, launch self kwargs conf_files [] popen = .ok (.pids (own (tried self kwargs conf_files popen)) started)) ↔
      Harmless (tried self kwargs conf_files popen)) ∧
    (conf_files.Nodup → (Harmless (tried self kwargs conf_files popen) ↔
      ∀ a ∈ tried self kwargs conf_files popen, ¬ failed a)) := by
  constructor
  · have loop := launch_loop_pids self (launch_kwargs self kwargs) popen 0 (.start []) conf_files
    rw [← record_iff fresh, launch, if_neg some, if_neg (by simp)]
    change _ = record (fun _ => none) none (tried self kwargs conf_files popen) at loop
    rw [← loop]
    cases launch_loop self (launch_kwargs self kwargs) popen 0 (.start []) conf_files with
    | error e =>
      refine iff_of_false ?_ (fun done => by cases done)
      rintro ⟨started, done⟩
      cases done
    | ok s =>
      constructor
      · rintro ⟨started, done⟩
        have same := (Launched.pids.inj (Except.ok.inj done)).1
        exact congrArg Except.ok same
      · intro done
        have same : s.pids = own _ := Except.ok.inj done
        exact ⟨s.started, congrArg (fun pids => Except.ok (Launched.pids pids s.started)) same⟩
  · intro different
    refine harmless_iff_of_nodup ?_
    refine List.Nodup.sublist ?_ different
    conv_rhs => rw [← attempts_files self (launch_kwargs self kwargs) conf_files popen 0]
    exact (List.takeWhile_sublist _).map Prod.fst

end Launch

/-- Two servers are spawned. -/
theorem launch_iff_two : ∃ started, launch (.init "server1".toList RUN_DIR) { number := 0, once := false, daemon := true }
    ["a.conf".toList, "b.conf".toList] [] (fun i _ => .ok (7 + i)) =
      .ok (.pids (own [("a.conf".toList, .ok 7), ("b.conf".toList, .ok 8)]) started) := by
  have right := launch_iff (.init "server1".toList RUN_DIR) { number := 0, once := false, daemon := true }
    ["a.conf".toList, "b.conf".toList] (fun i _ => .ok (7 + i)) (List.cons_ne_nil _ _) (by decide)
  exact right.1.mpr ((right.2 (by decide)).mpr (by decide))

/-- The second spawn is not permitted: its file is put down for the pid of the first. -/
theorem launch_second_fails : ¬ ∀ self kwargs conf_files popen, conf_files ≠ [] →
    (spawned (tried self kwargs conf_files popen)).Nodup →
      ∃ started, launch self kwargs conf_files [] popen = .ok (.pids (own (tried self kwargs conf_files popen)) started) := by
  intro right
  obtain ⟨started, done⟩ := right (.init "server1".toList RUN_DIR) { number := 0, once := false, daemon := true }
    ["a.conf".toList, "b.conf".toList] (fun i _ => if i = 0 then .ok 7 else .error 13) (List.cons_ne_nil _ _) (by decide)
  have pids := (Launched.pids.inj (Except.ok.inj done)).1
  have seven : some "b.conf".toList = some "a.conf".toList := congrFun pids 7
  exact absurd seven (by decide)

end CodeClips.Manager
