import Mathlib.Tactic.Common

/-!
# Loops in an environment

The body of a loop takes the state and what its environment does in that turn, and may fail. `turns`
is the state after a number of turns; when the loop has `Ended` the state stays. `returns_iff` says that
a loop returns with a result that is fine just when the environment meets a condition in every turn
that is reached: each turn that meets it lowers a weight, and what another turn breaks stays broken.
-/

namespace CodeClips

section Turns
variable {F S E W : Type*} (body : E → S → Except F S) (env : Nat → E)

/-- So many turns one after another, each in its own environment; the first that fails is the last. -/
def turns (s : S) : Nat → Except F S
  | 0 => .ok s
  | n + 1 => (turns s n).bind (body (env n))

variable {body env} {s s' s'' : S} {n k : Nat}

theorem turns_succ (ran : turns body env s n = .ok s') : turns body env s (n + 1) = body (env n) s' := by
  rw [turns, ran]
  rfl

/-- Before the last turn there was another state. -/
theorem turns_before (ran : turns body env s (n + 1) = .ok s'') : ∃ s', turns body env s n = .ok s' ∧ body (env n) s' = .ok s'' := by
  rw [turns] at ran
  cases before : turns body env s n with
  | error e =>
    rw [before] at ran
    cases ran
  | ok s' =>
    rw [before] at ran
    exact ⟨s', rfl, ran⟩

/-- Where a run succeeds, so does each run that it begins with. -/
theorem turns_prefix (ran : turns body env s (n + k) = .ok s'') : ∃ s', turns body env s n = .ok s' := by
  induction k generalizing s'' with
  | zero => exact ⟨s'', ran⟩
  | succ k ih =>
    obtain ⟨s', before, -⟩ := turns_before ran
    exact ih before

/-- A run that has failed stays failed. -/
theorem turns_error {e : F} (failed : turns body env s n = .error e) (k : Nat) : turns body env s (n + k) = .error e := by
  induction k with
  | zero => exact failed
  | succ k ih =>
    rw [← Nat.add_assoc, turns, ih]
    rfl

/-- What every turn keeps. -/
theorem turns_keep {P : S → Prop} (keeps : ∀ e s s', P s → body e s = .ok s' → P s') (ran : turns body env s n = .ok s')
    (start : P s') (later : turns body env s (n + k) = .ok s'') : P s'' := by
  induction k generalizing s'' with
  | zero =>
    obtain rfl := Except.ok.inj (ran.symm.trans later)
    exact start
  | succ k ih =>
    obtain ⟨t, before, last⟩ := turns_before later
    exact keeps _ _ _ (ih before) last

section Returns
variable {Ended Fine Broken : S → Prop} {Meets : S → E → Prop} {Inv : W → S → Prop} {r : W → W → Prop}
  (stops : ∀ e s, Ended s → body e s = .ok s)
  (keeps : ∀ w e s, Inv w s → ¬ Ended s → Meets s e → ∃ w' s', body e s = .ok s' ∧ Inv w' s' ∧ r w' w)

include stops in
/-- A run that has ended stays where it is. -/
theorem turns_ended (ran : turns body env s n = .ok s') (isEnd : Ended s') (k : Nat) :
    turns body env s (n + k) = .ok s' := by
  induction k with
  | zero => exact ran
  | succ k ih => exact (turns_succ ih).trans (stops _ s' isEnd)

include stops keeps in
/-- The invariant, as far as the turns have met the condition. -/
theorem turns_inv {w : W} (start : Inv w s)
    (meet : ∀ m < n, ∀ t, turns body env s m = .ok t → ¬ Ended t → Meets t (env m)) (ran : turns body env s n = .ok s') :
    ∃ w', Inv w' s' := by
  induction n generalizing s' with
  | zero =>
    obtain rfl := Except.ok.inj ran
    exact ⟨w, start⟩
  | succ n ih =>
    obtain ⟨t, before, last⟩ := turns_before ran
    obtain ⟨w', inv⟩ := ih (fun m below => meet m (Nat.lt_succ_of_lt below)) before
    by_cases isEnd : Ended t
    · obtain rfl := Except.ok.inj ((stops _ t isEnd).symm.trans last)
      exact ⟨w', inv⟩
    · obtain ⟨w'', s'', ran', inv', -⟩ := keeps w' (env n) t inv isEnd (meet n (Nat.lt_succ_self n) t before isEnd)
      obtain rfl := Except.ok.inj (ran'.symm.trans last)
      exact ⟨w'', inv'⟩

include keeps in
/-- The weight is lowered until the loop has ended. -/
theorem turns_return (wf : WellFounded r) (meet : ∀ m t, turns body env s m = .ok t → ¬ Ended t → Meets t (env m))
    {w : W} (inv : Inv w s') (ran : turns body env s n = .ok s') :
    ∃ m t w', turns body env s m = .ok t ∧ Ended t ∧ Inv w' t := by
  induction w using wf.induction generalizing n s' with
  | _ w ih =>
    by_cases isEnd : Ended s'
    · exact ⟨n, s', w, ran, isEnd, inv⟩
    · obtain ⟨w', s'', next, inv', lower⟩ := keeps w (env n) s' inv isEnd (meet n s' ran isEnd)
      exact ih w' lower inv' ((turns_succ ran).trans next)

include stops keeps in
/-- **The loop** returns with a result that is fine just when every turn it comes to meets the condition. -/
theorem returns_iff (wf : WellFounded r) {w : W} (start : Inv w s) (fine : ∀ w s, Inv w s → Ended s → Fine s)
    (breaks : ∀ w e s s', Inv w s → ¬ Ended s → ¬ Meets s e → body e s = .ok s' → Broken s')
    (stays : ∀ e s s', Broken s → body e s = .ok s' → Broken s') (lost : ∀ s, Broken s → ¬ Fine s) :
    (∃ n f, turns body env s n = .ok f ∧ Ended f ∧ Fine f) ↔
      ∀ n t, turns body env s n = .ok t → ¬ Ended t → Meets t (env n) := by
  constructor
  · rintro ⟨m, f, returned, isEnd, isFine⟩ n
    induction n using Nat.strongRecOn with
    | ind n ih =>
      intro t ran going
      by_contra fails
      obtain ⟨w', inv⟩ := turns_inv stops keeps start ih ran
      have later : n < m := by
        by_contra early
        obtain ⟨k, rfl⟩ := Nat.exists_eq_add_of_le (Nat.le_of_not_lt early)
        obtain rfl := Except.ok.inj ((turns_ended stops returned isEnd k).symm.trans ran)
        exact going isEnd
      obtain ⟨k, rfl⟩ := Nat.exists_eq_add_of_le later
      obtain ⟨u, next⟩ := turns_prefix returned
      have broken := breaks w' (env n) t u inv going fails ((turns_succ ran).symm.trans next)
      exact lost f (turns_keep stays next broken returned) isFine
  · intro meet
    obtain ⟨m, f, w', ran, isEnd, inv⟩ := turns_return (n := 0) keeps wf meet start rfl
    exact ⟨m, f, ran, isEnd, fine w' f inv isEnd⟩

end Returns

end Turns

end CodeClips
