import CodeClips.Lib.Reader

/-!
# Two programs that agree

Relational rules for programs with states and failures: from related states both programs give the same
value or the same failure, and their states are related again. A program over a wrapped file that leaves
the file alone has a rule of its own.
-/

namespace CodeClips

/-- The same value in states related by `Q`, or the same failure in states related by `F`. -/
inductive Agreed {ε α σ₁ σ₂ : Type} (Q : α → σ₁ → σ₂ → Prop) (F : ε → σ₁ → σ₂ → Prop) :
    EStateM.Result ε σ₁ α → EStateM.Result ε σ₂ α → Prop
  | ok {a : α} {s₁ : σ₁} {s₂ : σ₂} (related : Q a s₁ s₂) : Agreed Q F (.ok a s₁) (.ok a s₂)
  | error {e : ε} {s₁ : σ₁} {s₂ : σ₂} (related : F e s₁ s₂) : Agreed Q F (.error e s₁) (.error e s₂)

def Agree {ε α σ₁ σ₂ : Type} (P : σ₁ → σ₂ → Prop) (x₁ : EStateM ε σ₁ α) (x₂ : EStateM ε σ₂ α) (Q : α → σ₁ → σ₂ → Prop)
    (F : ε → σ₁ → σ₂ → Prop) : Prop :=
  ∀ ⦃s₁ s₂⦄, P s₁ s₂ → Agreed Q F (x₁ s₁) (x₂ s₂)

namespace Agree
variable {ε α β σ₁ σ₂ τ : Type} {P P' : σ₁ → σ₂ → Prop} {Q R : α → σ₁ → σ₂ → Prop} {F F' : ε → σ₁ → σ₂ → Prop}
  {x₁ : EStateM ε σ₁ α} {x₂ : EStateM ε σ₂ α}

theorem pure {a : α} (related : ∀ s₁ s₂, P s₁ s₂ → Q a s₁ s₂) :
    Agree P (Pure.pure a : EStateM ε σ₁ α) (Pure.pure a : EStateM ε σ₂ α) Q F := by
  intro s₁ s₂ before
  exact .ok (related s₁ s₂ before)

theorem throw {e : ε} (related : ∀ s₁ s₂, P s₁ s₂ → F e s₁ s₂) :
    Agree P (MonadExcept.throw e : EStateM ε σ₁ α) (MonadExcept.throw e : EStateM ε σ₂ α) Q F := by
  intro s₁ s₂ before
  exact .error (related s₁ s₂ before)

theorem bind {k₁ : α → EStateM ε σ₁ β} {k₂ : α → EStateM ε σ₂ β} {Q' : β → σ₁ → σ₂ → Prop} (first : Agree P x₁ x₂ R F)
    (rest : ∀ a, Agree (R a) (k₁ a) (k₂ a) Q' F) : Agree P (x₁ >>= k₁) (x₂ >>= k₂) Q' F := by
  intro s₁ s₂ before
  have both := first before
  generalize run₁ : x₁ s₁ = r₁ at both
  generalize run₂ : x₂ s₂ = r₂ at both
  cases both with
  | ok related =>
    rw [bind_of_ok run₁, bind_of_ok run₂]
    exact rest _ related
  | error related =>
    rw [bind_of_error run₁, bind_of_error run₂]
    exact .error related

theorem weaken (agree : Agree P x₁ x₂ R F) (pre : ∀ s₁ s₂, P' s₁ s₂ → P s₁ s₂) (post : ∀ a s₁ s₂, R a s₁ s₂ → Q a s₁ s₂)
    (failed : ∀ e s₁ s₂, F e s₁ s₂ → F' e s₁ s₂) : Agree P' x₁ x₂ Q F' := by
  intro s₁ s₂ before
  have both := agree (pre s₁ s₂ before)
  generalize x₁ s₁ = r₁ at both
  generalize x₂ s₂ = r₂ at both
  cases both with
  | ok related => exact .ok (post _ _ _ related)
  | error related => exact .error (failed _ _ _ related)

/-- What both states have in common is given. -/
theorem of_exists {ι : Sort*} {P : ι → σ₁ → σ₂ → Prop} (agree : ∀ i, Agree (P i) x₁ x₂ Q F) :
    Agree (fun s₁ s₂ => ∃ i, P i s₁ s₂) x₁ x₂ Q F := by
  rintro s₁ s₂ ⟨i, before⟩
  exact agree i before

/-- A fact about the values that the states do not change. -/
theorem of_and {C : Prop} (agree : C → Agree P x₁ x₂ Q F) : Agree (fun s₁ s₂ => P s₁ s₂ ∧ C) x₁ x₂ Q F := by
  rintro s₁ s₂ ⟨before, fact⟩
  exact agree fact before

/-- A failure that is a value. -/
theorem attempt (agree : Agree P x₁ x₂ Q F) :
    Agree P (CodeClips.attempt x₁) (CodeClips.attempt x₂)
      (fun r s₁ s₂ => match r with
        | .ok a => Q a s₁ s₂
        | .error e => F e s₁ s₂) F' := by
  intro s₁ s₂ before
  have both := agree before
  simp only [CodeClips.attempt]
  generalize x₁ s₁ = r₁ at both
  generalize x₂ s₂ = r₂ at both
  cases both with
  | ok related => exact .ok related
  | error related => exact .ok related

section Wrapped
variable {ρ₁ ρ₂ : Type} {A : τ → τ → Prop} {B : α → τ → τ → Prop} {G : ε → τ → τ → Prop} {y₁ y₂ : EStateM ε τ α}

/-- The files are not touched. -/
theorem outer (file : ρ₁ → ρ₂ → Prop) (agree : Agree A y₁ y₂ B G) :
    Agree (fun w₁ w₂ => A w₁.own w₂.own ∧ file w₁.rfile w₂.rfile) (Wrapped.outer y₁ : EStateM ε (Wrapped ρ₁ τ) α)
      (Wrapped.outer y₂ : EStateM ε (Wrapped ρ₂ τ) α) (fun a w₁ w₂ => B a w₁.own w₂.own ∧ file w₁.rfile w₂.rfile)
      (fun e w₁ w₂ => G e w₁.own w₂.own) := by
  rintro w₁ w₂ ⟨before, files⟩
  have both := agree before
  simp only [Wrapped.outer]
  generalize y₁ w₁.own = r₁ at both
  generalize y₂ w₂.own = r₂ at both
  cases both with
  | ok related => exact .ok ⟨related, files⟩
  | error related => exact .error related

/-- The files are not touched, and both programs return. -/
theorem outer_returns (file : ρ₁ → ρ₂ → Prop) (agree : Agree A y₁ y₂ B fun _ _ _ => False) :
    Agree (fun w₁ w₂ => A w₁.own w₂.own ∧ file w₁.rfile w₂.rfile) (Wrapped.outer y₁ : EStateM ε (Wrapped ρ₁ τ) α)
      (Wrapped.outer y₂ : EStateM ε (Wrapped ρ₂ τ) α) (fun a w₁ w₂ => B a w₁.own w₂.own ∧ file w₁.rfile w₂.rfile)
      fun _ _ _ => False := agree.outer file

/-- Only the files are touched, and both calls return. -/
theorem inner {file : ρ₁ → ρ₂ → Prop} {z₁ : EStateM ε ρ₁ α} {z₂ : EStateM ε ρ₂ α} {file' : α → ρ₁ → ρ₂ → Prop}
    (agree : Agree file z₁ z₂ file' fun _ _ _ => False) :
    Agree (fun w₁ w₂ => A w₁.own w₂.own ∧ file w₁.rfile w₂.rfile) (Wrapped.inner z₁ : EStateM ε (Wrapped ρ₁ τ) α)
      (Wrapped.inner z₂ : EStateM ε (Wrapped ρ₂ τ) α) (fun a w₁ w₂ => A w₁.own w₂.own ∧ file' a w₁.rfile w₂.rfile)
      (fun e w₁ w₂ => G e w₁.own w₂.own) := by
  rintro w₁ w₂ ⟨before, files⟩
  have both := agree files
  simp only [Wrapped.inner]
  generalize z₁ w₁.rfile = r₁ at both
  generalize z₂ w₂.rfile = r₂ at both
  cases both with
  | ok related => exact .ok ⟨before, related⟩
  | error related => exact related.elim

/-- The files are wrapped once more for a while. -/
theorem wrapping {υ₁ υ₂ : Type} {own₁ : υ₁} {own₂ : υ₂} {x₁ : EStateM ε (Wrapped (Wrapped ρ₁ υ₁) τ) α}
    {x₂ : EStateM ε (Wrapped (Wrapped ρ₂ υ₂) τ) α} {P : Wrapped (Wrapped ρ₁ υ₁) τ → Wrapped (Wrapped ρ₂ υ₂) τ → Prop}
    {Q : α → Wrapped (Wrapped ρ₁ υ₁) τ → Wrapped (Wrapped ρ₂ υ₂) τ → Prop} {Q' : α → Wrapped ρ₁ τ → Wrapped ρ₂ τ → Prop}
    {P' : Wrapped ρ₁ τ → Wrapped ρ₂ τ → Prop} (agree : Agree P x₁ x₂ Q fun e w₁ w₂ => G e w₁.own w₂.own)
    (enter : ∀ w₁ w₂, P' w₁ w₂ → P ⟨⟨w₁.rfile, own₁⟩, w₁.own⟩ ⟨⟨w₂.rfile, own₂⟩, w₂.own⟩)
    (leave : ∀ a w₁ w₂, Q a w₁ w₂ → Q' a ⟨w₁.rfile.rfile, w₁.own⟩ ⟨w₂.rfile.rfile, w₂.own⟩) :
    Agree P' (Wrapped.wrapping own₁ x₁) (Wrapped.wrapping own₂ x₂) Q' fun e w₁ w₂ => G e w₁.own w₂.own := by
  intro w₁ w₂ before
  have both := agree (enter w₁ w₂ before)
  simp only [Wrapped.wrapping]
  generalize x₁ ⟨⟨w₁.rfile, own₁⟩, w₁.own⟩ = r₁ at both
  generalize x₂ ⟨⟨w₂.rfile, own₂⟩, w₂.own⟩ = r₂ at both
  cases both with
  | ok related => exact .ok (leave _ _ _ related)
  | error related => exact .error related

end Wrapped

end Agree

end CodeClips
