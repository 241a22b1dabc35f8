import Mathlib.Tactic.Common

/-!
# Runs that may stop

An `Except` is a run that returns, or that stops with an error. `Ends` is what holds where it ends,
either way, and `Ends.bind` composes it. `bind_eq_ok` takes a run that has returned apart.
-/

namespace CodeClips

universe u v
variable {ε : Type u} {α β : Type v} {allowed : ε → Prop}

/-- Where the run returns, its result has the property; where it does not, the error is one that is allowed. -/
def Ends (allowed : ε → Prop) (run : Except ε α) (P : α → Prop) : Prop :=
  match run with
  | .ok a => P a
  | .error e => allowed e

theorem Ends.bind {run : Except ε α} {f : α → Except ε β} {P : α → Prop} {Q : β → Prop} (first : Ends allowed run P)
    (second : ∀ a, P a → Ends allowed (f a) Q) : Ends allowed (run >>= f) Q := by
  cases run with
  | ok a => exact second a first
  | error e => exact first

/-- A step that returns, and what comes after it. -/
theorem bind_eq_ok {run : Except ε α} {f : α → Except ε β} {b : β} (ok : (run >>= f) = .ok b) :
    ∃ a, run = .ok a ∧ f a = .ok b := by
  cases run with
  | error e => cases ok
  | ok a => exact ⟨a, rfl, ok⟩

/-- Runs that yield the same stop together or return together. -/
theorem map_eq_map_cases {γ : Type v} {run : Except ε α} {run' : Except ε β} {f : α → γ} {g : β → γ}
    (same : run.map f = run'.map g) :
    (∃ e, run = .error e ∧ run' = .error e) ∨ ∃ a b, run = .ok a ∧ run' = .ok b ∧ f a = g b := by
  cases run with
  | error e =>
    cases run' with
    | error e' =>
      cases same
      exact .inl ⟨e, rfl, rfl⟩
    | ok b => cases same
  | ok a =>
    cases run' with
    | error e => cases same
    | ok b => exact .inr ⟨a, b, rfl, rfl, Except.ok.inj same⟩

end CodeClips
