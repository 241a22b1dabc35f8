import CodeClips.Epoll.Timer

/-!
# When a timer is due

`RegisterTimer` splits `msec` into seconds and a rest that is stored as microseconds. The end
time is normalised, but it is `msec` milliseconds away only where there is no rest
(`deadline_iff`).
-/

namespace CodeClips.Epoll

namespace timeval

def Normalised (t : timeval) : Prop := 0 ≤ t.tv_usec ∧ t.tv_usec < 1000000

/-- In microseconds. -/
def usecs (t : timeval) : Int := t.tv_sec * 1000000 + t.tv_usec

/-- `t` is normalised, and `msec` milliseconds after `now`. -/
def After (msec : BitVec 32) (now t : timeval) : Prop := t.Normalised ∧ t.usecs = now.usecs + msec.toNat * 1000

instance (t : timeval) : Decidable t.Normalised := inferInstanceAs (Decidable (_ ∧ _))

instance (msec : BitVec 32) (now t : timeval) : Decidable (After msec now t) := inferInstanceAs (Decidable (_ ∧ _))

theorem usecs_timeradd (a b : timeval) : (timeradd a b).usecs = a.usecs + b.usecs := by
  unfold timeradd usecs
  dsimp only
  split <;> dsimp only <;> omega

/-- Adding carries at most once. -/
theorem Normalised.timeradd {a b : timeval} (ha : a.Normalised) (hb : b.Normalised) :
    (timeradd a b).Normalised := by
  unfold Normalised at *
  unfold Epoll.timeradd
  dsimp only
  split <;> dsimp only <;> omega

/-- A normalised time of which nothing is set is the start of the epoch. -/
theorem timerisset_iff {t : timeval} (normalised : t.Normalised) : timerisset t ↔ t.usecs ≠ 0 := by
  unfold Normalised at normalised
  simp only [timerisset, usecs, decide_eq_true_eq]
  omega

end timeval

/-- `m_interval` after `RegisterTimer`. -/
def interval (msec : BitVec 32) : timeval := { tv_sec := (msec.toNat / 1000 : Nat), tv_usec := (msec.toNat % 1000 : Nat) }

theorem interval_normalised (msec : BitVec 32) : (interval msec).Normalised := by
  unfold timeval.Normalised interval
  dsimp only
  omega

/-- The rest of `msec` counts as microseconds. -/
theorem usecs_interval (msec : BitVec 32) :
    (interval msec).usecs = (msec.toNat / 1000 : Nat) * 1000000 + (msec.toNat % 1000 : Nat) := rfl

theorem timerisset_interval (msec : BitVec 32) : timerisset (interval msec) ↔ msec.toNat ≠ 0 := by
  rw [timeval.timerisset_iff (interval_normalised msec), usecs_interval]
  omega

namespace Timers

/-- What `RegisterTimer` stores in the handler. -/
theorem handlers_RegisterTimer (s : Timers) (p : Ptr) (msec : BitVec 32) (restart : Bool) (now : timeval) :
    (s.RegisterTimer p msec restart now).handlers p =
      { m_interval := interval msec, m_endtime := timeradd now (interval msec), m_bRestart := restart } :=
  Function.update_self _ _ _

theorem handlers_RegisterTimerAgain (s : Timers) (p : Ptr) (now : timeval) :
    ((s.RegisterTimerAgain p now).handlers p).m_endtime =
      if timerisset (s.handlers p).m_endtime ∧ timerisset (s.handlers p).m_interval then
        timeradd now (s.handlers p).m_interval
      else (s.handlers p).m_endtime := by
  unfold RegisterTimerAgain
  dsimp only
  split_ifs with armed
  · exact congrArg TimerEventHanderBase.m_endtime (Function.update_self p _ s.handlers)
  · rfl

/-- After `RegisterTimer` the timer is due as it should be, and also after a later
`RegisterTimerAgain` that finds the handler as it was left. -/
def Due (s : Timers) (p : Ptr) (msec : BitVec 32) (restart : Bool) (now : timeval) : Prop :=
  let registered := s.RegisterTimer p msec restart now
  timeval.After msec now (registered.handlers p).m_endtime ∧
    ∀ (later : Timers) (now' : timeval), later.handlers p = registered.handlers p → now'.Normalised →
      timeval.After msec now' ((later.RegisterTimerAgain p now').handlers p).m_endtime

end Timers

open Timers

/-- A time and an interval later: exact where the interval is. -/
theorem after_timeradd_iff {now : timeval} (normalised : now.Normalised) (msec : BitVec 32) :
    timeval.After msec now (timeradd now (interval msec)) ↔ msec.toNat % 1000 = 0 := by
  rw [timeval.After, and_iff_right (normalised.timeradd (interval_normalised msec)), timeval.usecs_timeradd,
    usecs_interval]
  omega

theorem timerisset_endtime {now : timeval} (normalised : now.Normalised) {msec : BitVec 32}
    (exact : msec.toNat % 1000 = 0) :
    timerisset (timeradd now (interval msec)) ↔ now.usecs + msec.toNat * 1000 ≠ 0 := by
  rw [timeval.timerisset_iff (normalised.timeradd (interval_normalised msec)),
    ((after_timeradd_iff normalised msec).mpr exact).2]

/-- `RegisterTimerAgain` needs an interval and an end time that are set. -/
theorem due_iff (s : Timers) (p : Ptr) (msec : BitVec 32) (restart : Bool) {now : timeval} (normalised : now.Normalised) :
    s.Due p msec restart now ↔
      msec.toNat % 1000 = 0 ∧ msec.toNat ≠ 0 ∧ now.usecs + msec.toNat * 1000 ≠ 0 := by
  unfold Due
  dsimp only
  rw [handlers_RegisterTimer, after_timeradd_iff normalised]
  apply and_congr_right
  intro exact
  rw [← timerisset_endtime normalised exact, ← timerisset_interval]
  constructor
  · -- An unset interval or end time leaves the end time of before, at whatever time it is.
    intro again
    by_contra unset
    have kept := again (s.RegisterTimer p msec restart now) { now with tv_sec := now.tv_sec + 1 }
      (handlers_RegisterTimer s p msec restart now) normalised
    rw [handlers_RegisterTimerAgain, handlers_RegisterTimer, if_neg (fun both => unset both.symm)] at kept
    have same := kept.2.symm.trans ((after_timeradd_iff normalised msec).mpr exact).2
    simp only [timeval.usecs] at same
    omega
  · rintro ⟨set, endtime⟩ later now' left normalised'
    rw [handlers_RegisterTimerAgain, left, if_pos ⟨endtime, set⟩]
    exact (after_timeradd_iff normalised' msec).mpr exact

/-- **The end time** is normalised, and exact only for whole seconds; it is exact again after
`RegisterTimerAgain` only where that finds an interval and an end time that are not zero. -/
theorem deadline_iff (s : Timers) (p : Ptr) (msec : BitVec 32) (restart : Bool) (now : timeval)
    (normalised : now.Normalised) :
    ((s.RegisterTimer p msec restart now).handlers p).m_endtime.Normalised ∧
    (timeval.After msec now ((s.RegisterTimer p msec restart now).handlers p).m_endtime ↔ msec.toNat % 1000 = 0) ∧
    (s.Due p msec restart now ↔
      msec.toNat % 1000 = 0 ∧ msec.toNat ≠ 0 ∧ now.usecs + msec.toNat * 1000 ≠ 0) := by
  rw [handlers_RegisterTimer]
  refine ⟨?_, ?_, due_iff s p msec restart normalised⟩
  · exact normalised.timeradd (interval_normalised msec)
  · exact after_timeradd_iff normalised msec

/-- Three seconds from a time close to the next one. -/
theorem deadline_iff_seconds :
    Timers.init.Due 7 3000 true { tv_sec := 5, tv_usec := 999999 } ↔
      (3000 : BitVec 32).toNat % 1000 = 0 ∧ (3000 : BitVec 32).toNat ≠ 0 ∧
        timeval.usecs { tv_sec := 5, tv_usec := 999999 } + (3000 : BitVec 32).toNat * 1000 ≠ 0 :=
  (deadline_iff Timers.init 7 3000 true { tv_sec := 5, tv_usec := 999999 } (by decide)).2.2

/-- A timer of 1500 milliseconds is due after 1.0005 seconds. -/
theorem deadline_too_early : ¬ ∀ (s : Timers) (p : Ptr) (msec : BitVec 32) (restart : Bool) (now : timeval),
    now.Normalised → s.Due p msec restart now := by
  intro always
  have due := (always Timers.init 0 1500 false { tv_sec := 0, tv_usec := 0 } (by decide)).1
  have early : ¬ timeval.After 1500 { tv_sec := 0, tv_usec := 0 }
      ((Timers.init.RegisterTimer 0 1500 false { tv_sec := 0, tv_usec := 0 }).handlers 0).m_endtime := by
    rw [handlers_RegisterTimer]
    decide
  exact early due

end CodeClips.Epoll
