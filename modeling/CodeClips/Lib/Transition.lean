import Mathlib.Tactic.Common

/-!
# Runs of a transition system

A step relation labelled by actions; a run is a list of actions taken from a state. `Always`
says that a property holds in every state of a run, `StepsMeet` that every step of it meets a
condition on the action and the state before. `always_iff_stepsMeet` turns an exact statement
about one step into one about runs: if a step out of a good state leads to a good state
exactly when it meets the condition, a run stays good exactly when all its steps do.
-/

namespace CodeClips

section Transition
variable {S A : Type*} (step : S → A → S → Prop)

/-- `Q` holds in every state of the run. -/
def Always (Q : S → Prop) : S → List A → Prop
  | s, [] => Q s
  | s, a :: as => Q s ∧ ∀ s', step s a s' → Always Q s' as

/-- Every step of the run meets `ok`. -/
def StepsMeet (ok : S → A → Prop) : S → List A → Prop
  | _, [] => True
  | s, a :: as => ∀ s', step s a s' → ok s a ∧ StepsMeet ok s' as

/-- No `bad` action is taken before a `stop` step. -/
def Until (stop : S → A → Prop) (bad : A → Prop) : S → List A → Prop
  | _, [] => True
  | s, a :: as => ∀ s', step s a s' → ¬ bad a ∧ (stop s a ∨ Until stop bad s' as)

/-- After every step of the run, `Q` holds of its action, the state it leads to and the rest. -/
def After (Q : A → S → List A → Prop) : S → List A → Prop
  | _, [] => True
  | s, a :: as => ∀ s', step s a s' → Q a s' as ∧ After Q s' as

/-- The run leads from `s` to `s'`. -/
inductive Path : S → List A → S → Prop where
  | nil (s : S) : Path s [] s
  | cons {s s' s'' : S} {a : A} {as : List A} (next : step s a s') (rest : Path s' as s'') : Path s (a :: as) s''

/-- The states some run leads to. -/
inductive Reachable (s₀ : S) : S → Prop where
  | start : Reachable s₀ s₀
  | step {s s' : S} {a : A} (reached : Reachable s₀ s) (next : step s a s') : Reachable s₀ s'

variable {step}

theorem Always.head {Q : S → Prop} {s : S} {as : List A} (always : Always step Q s as) : Q s := by
  cases as with
  | nil => exact always
  | cons a as => exact always.1

theorem Path.append {s s' s'' : S} {as bs : List A} (first : Path step s as s') (second : Path step s' bs s'') :
    Path step s (as ++ bs) s'' := by
  induction first with
  | nil => exact second
  | cons next _ ih => exact .cons next (ih second)

/-- A run in two parts. -/
theorem Path.split {s s'' : S} {as bs : List A} (path : Path step s (as ++ bs) s'') :
    ∃ s', Path step s as s' ∧ Path step s' bs s'' := by
  induction as generalizing s with
  | nil => exact ⟨s, .nil s, path⟩
  | cons a as ih =>
    cases path with
    | cons next rest =>
      obtain ⟨s', first, second⟩ := ih rest
      exact ⟨s', .cons next first, second⟩

theorem Always.path {Q : S → Prop} {s s' : S} {as : List A} (always : Always step Q s as)
    (path : Path step s as s') : Q s' := by
  induction path with
  | nil => exact always
  | cons next _ ih => exact ih (always.2 _ next)

/-- The run of a step function. -/
theorem path_of_foldlM {f : S → A → Option S} {s s' : S} {as : List A} (run : as.foldlM f s = some s') :
    Path (fun s a s' => f s a = some s') s as s' := by
  induction as generalizing s with
  | nil =>
    obtain rfl := Option.some.inj run
    exact .nil s
  | cons a as ih =>
    obtain ⟨t, next, rest⟩ := Option.bind_eq_some_iff.mp run
    exact .cons next (ih rest)

/-- An invariant of the steps of a run holds at its end. -/
theorem Path.invariant {I : S → Prop} {s s' : S} {as : List A} (path : Path step s as s')
    (keeps : ∀ s a s', a ∈ as → I s → step s a s' → I s') (start : I s) : I s' := by
  induction path with
  | nil => exact start
  | cons next _ ih =>
    apply ih (fun s a s' mem => keeps s a s' (List.mem_cons_of_mem _ mem))
    exact keeps _ _ _ List.mem_cons_self start next

/-- **Termination**: where steps lower `weight` and only `stop` states have none, some run of
them ends. -/
theorem exists_path_of_weight {I : S → Prop} (stop : S → Prop) (ok : A → Prop) (weight : S → Nat)
    (goes : ∀ s, I s → ¬ stop s → ∃ a s', ok a ∧ step s a s')
    (lowers : ∀ s a s', I s → ok a → step s a s' → I s' ∧ weight s' < weight s) {s : S} (start : I s) :
    ∃ as s', (∀ a ∈ as, ok a) ∧ Path step s as s' ∧ stop s' := by
  induction size : weight s using Nat.strongRecOn generalizing s with
  | _ n ih =>
    by_cases ended : stop s
    · exact ⟨[], s, by simp, .nil s, ended⟩
    · obtain ⟨a, t, mine, next⟩ := goes s start ended
      obtain ⟨inv, less⟩ := lowers s a t start mine next
      obtain ⟨as, s', all, rest, finish⟩ := ih (weight t) (size ▸ less) inv rfl
      exact ⟨a :: as, s', List.forall_mem_cons.mpr ⟨mine, all⟩, .cons next rest, finish⟩

/-- States of `I` take no `bad` step, and only a `stop` step leaves them. -/
theorem until_of_invariant {I : S → Prop} {stop : S → A → Prop} {bad : A → Prop}
    (clean : ∀ s a s', I s → step s a s' → ¬ bad a) (keeps : ∀ s a s', I s → step s a s' → ¬ stop s a → I s')
    {s : S} (start : I s) (as : List A) : Until step stop bad s as := by
  induction as generalizing s with
  | nil => trivial
  | cons a as ih =>
    intro s' next
    refine ⟨clean s a s' start next, ?_⟩
    by_cases stops : stop s a
    · exact .inl stops
    · exact .inr (ih (keeps s a s' start next stops))

/-- If a step that meets `ok` leads to what `Q` asks, the steps of a run all do. -/
theorem after_of_stepsMeet {J : S → Prop} {ok : S → A → Prop} {Q : A → S → List A → Prop}
    (keeps : ∀ s a s', J s → step s a s' → J s')
    (leads : ∀ s a s' as, J s → step s a s' → ok s a → Q a s' as) {s : S} (inv : J s) {as : List A}
    (meet : StepsMeet step ok s as) : After step Q s as := by
  induction as generalizing s with
  | nil => trivial
  | cons a as ih =>
    intro s' next
    obtain ⟨good, rest⟩ := meet s' next
    exact ⟨leads s a s' as inv next good, ih (keeps s a s' inv next) rest⟩

theorem StepsMeet.after_path {ok : S → A → Prop} {s s' s'' : S} {as bs : List A} {a : A}
    (meet : StepsMeet step ok s (as ++ a :: bs)) (path : Path step s as s') (next : step s' a s'') : ok s' a := by
  induction path with
  | nil => exact (meet _ next).1
  | cons first _ ih => exact ih (meet _ first).2 next

/-- In a run whose steps meet `ok`, an invariant that such steps keep makes them meet `ok'`. -/
theorem stepsMeet_imp {J : S → Prop} {ok ok' : S → A → Prop}
    (keeps : ∀ s a s', J s → step s a s' → ok s a → J s')
    (leads : ∀ s a s', J s → step s a s' → ok s a → ok' s a) {s : S} (inv : J s) {as : List A}
    (meet : StepsMeet step ok s as) : StepsMeet step ok' s as := by
  induction as generalizing s with
  | nil => trivial
  | cons a as ih =>
    intro s' next
    obtain ⟨good, rest⟩ := meet s' next
    exact ⟨leads s a s' inv next good, ih (keeps s a s' inv next good) rest⟩

/-- An invariant that the steps meeting `ok` keep holds in every state of a run of such steps. -/
theorem always_of_stepsMeet {J Q : S → Prop} {ok : S → A → Prop}
    (keeps : ∀ s a s', J s → step s a s' → ok s a → J s') (holds : ∀ s, J s → Q s) {s : S} (inv : J s)
    {as : List A} (meet : StepsMeet step ok s as) : Always step Q s as := by
  induction as generalizing s with
  | nil => exact holds s inv
  | cons a as ih =>
    refine ⟨holds s inv, ?_⟩
    intro s' next
    obtain ⟨good, rest⟩ := meet s' next
    exact ih (keeps s a s' inv next good) rest

/-- **From one step to runs**: in the states where `I` and `J` hold a step keeps `J`, and it
keeps `I` exactly if it meets `ok`. -/
theorem always_iff_stepsMeet {I J : S → Prop} {ok : S → A → Prop}
    (keeps : ∀ s a s', J s → I s → step s a s' → J s')
    (exact : ∀ s a s', J s → I s → step s a s' → (I s' ↔ ok s a)) {s : S} (inv : J s) (start : I s)
    (as : List A) : Always step I s as ↔ StepsMeet step ok s as := by
  induction as generalizing s with
  | nil => exact iff_of_true start trivial
  | cons a as ih =>
    constructor
    · rintro ⟨_, later⟩ s' next
      have good := (later s' next).head
      exact ⟨(exact s a s' inv start next).mp good, (ih (keeps s a s' inv start next) good).mp (later s' next)⟩
    · intro meet
      refine ⟨start, fun s' next => ?_⟩
      have good := (exact s a s' inv start next).mpr (meet s' next).1
      exact (ih (keeps s a s' inv start next) good).mpr (meet s' next).2

end Transition

end CodeClips
