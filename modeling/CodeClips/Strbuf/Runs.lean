import CodeClips.Lib.Transition
import CodeClips.Strbuf.Strbuf

/-!
# Runs of operations

A run is of the operations on one `strbuf_t`, which are all given the memory that they ask for. With
each goes the string that is to be built. `strbuf_always_iff` says which runs keep to it.
-/

namespace CodeClips.Strbuf

inductive Op where
  | init_with_size (size : BitVec 64)
  | append_char (c : Byte)
  | append_str (text : Text)
  | set (text : Text)
  | set_static (text : Text)
  | grow_to (new_size : BitVec 64)
  | shrink_to (new_size : BitVec 64)
  | reset
  | reset_length

/-- The operation, with what memory has where it allocates; `strbuf_reset` always returns `false`. -/
def Op.exec (junk : Nat → Byte) (s : strbuf_t) : Op → Option (strbuf_t × Bool)
  | init_with_size size => strbuf_init_with_size junk size
  | append_char c => strbuf_append_char junk s c
  | append_str text => strbuf_append_str junk s text
  | set text => strbuf_set junk s text
  | set_static text => strbuf_set_static s text
  | grow_to new_size => strbuf_grow_to junk s new_size
  | shrink_to new_size => strbuf_shrink_to junk s new_size
  | reset => (strbuf_reset junk s).map fun (s, _) => (s, true)
  | reset_length => strbuf_reset_length junk s

/-- The string that is to be built out of another; a buffer that shrinks may cut it off. -/
def Op.built (t : List Byte) : Op → strbuf_t → List Byte
  | init_with_size _, _ => []
  | append_char c, _ => t ++ [c]
  | append_str text, _ => t ++ text.bytes
  | set text, _ => text.bytes
  | set_static text, _ => text.bytes
  | grow_to _, _ => t
  | shrink_to _, s => t.take s.buffer.toNat
  | reset, _ => []
  | reset_length, _ => []

/-- When an operation builds it. -/
def Op.Right (junk : Nat → Byte) (s : strbuf_t) (t : List Byte) : Op → Prop
  | init_with_size size => size ≠ 0 ∧ find_next_power_of_two size + 1 ≠ 0
  | append_char _ => t.length + 2 + (if s.static then 1 else 0) ≤ 2 ^ 63
  | append_str text => t.length + text.bytes.length + 2 + (if s.static then 1 else 0) ≤ 2 ^ 63
  | set text => s.static = true → t.length + 2 ≤ (find_next_power_of_two (max (text.size + 1 + 1) s.buffer)).toNat
  | set_static _ => True
  | grow_to new_size => s.GrowsTo junk t new_size
  | shrink_to new_size => s.ShrinksTo t new_size
  | reset => s.static = true ∨ ∀ c ∈ t.head?, c = 0
  | reset_length => s.static = true → s.allocated ≠ 0

/-- Memory that has not been set up, a buffer with the string that is to be in it, or one outside of
which has been written. -/
inductive State where
  | raw
  | string (s : strbuf_t) (t : List Byte)
  | broken

def Leads (result : Option (strbuf_t × Bool)) (built : strbuf_t → List Byte) (st : State) : Prop :=
  (result = none ∧ st = .broken) ∨ ∃ s, result = some (s, true) ∧ st = .string s (built s)

def Step : State → (Nat → Byte) × Op → State → Prop
  | .raw, (junk, .init_with_size size), st => Leads (strbuf_init_with_size junk size) (fun _ => []) st
  | .string s t, (junk, op), st => Leads (op.exec junk s) (op.built t) st
  | _, _, _ => False

/-- The buffer has the string, and nothing has been written outside of it. -/
def State.Good : State → Prop
  | raw => True
  | string s t => s.Holds t
  | broken => False

def State.Sized : State → Prop
  | string s _ => s.Sized
  | _ => True

def State.Right : State → (Nat → Byte) × Op → Prop
  | .raw, (_, .init_with_size size) => size ≠ 0 ∧ find_next_power_of_two size + 1 ≠ 0
  | .string s t, (junk, op) => op.Right junk s t
  | _, _ => True

variable {junk : Nat → Byte} {s : strbuf_t} {t : List Byte} {st st' : State} {op : Op} {a : (Nat → Byte) × Op}

theorem settles_exec (holds : s.Holds t) (sized : s.Sized) (op : Op) :
    Settles (op.exec junk s) (op.built t) (op.Right junk s t) := by
  cases op with
  | init_with_size size => exact settles_init_with_size size
  | append_char c => exact settles_append_char holds sized c
  | append_str text => exact settles_append_str holds sized text
  | set text => exact settles_set holds sized text
  | set_static text => exact settles_set_static s text
  | grow_to new_size => exact settles_grow_to holds sized new_size
  | shrink_to new_size => exact settles_shrink_to holds sized new_size
  | reset => exact settles_reset holds sized
  | reset_length => exact settles_reset_length holds sized

theorem Settles.leads {result : Option (strbuf_t × Bool)} {built : strbuf_t → List Byte} {ok : Prop}
    (settles : Settles result built ok) (leads : Leads result built st) : (st.Good ↔ ok) ∧ (st.Good → st.Sized) := by
  obtain ⟨s, refused⟩ | ⟨fits, s, done, holds, sized⟩ | ⟨misfit, outside | ⟨s, done, wrong⟩⟩ := settles
  · obtain ⟨outside, -⟩ | ⟨s', done, -⟩ := leads
    · cases outside.symm.trans refused
    · cases done.symm.trans refused
  · obtain ⟨outside, -⟩ | ⟨s', done', rfl⟩ := leads
    · cases outside.symm.trans done
    · cases done'.symm.trans done
      exact ⟨iff_of_true holds fits, fun _ => sized⟩
  · obtain ⟨-, rfl⟩ | ⟨s', done, -⟩ := leads
    · exact ⟨iff_of_false id misfit, False.elim⟩
    · cases outside.symm.trans done
  · obtain ⟨outside, -⟩ | ⟨s', done', rfl⟩ := leads
    · cases outside.symm.trans done
    · cases done'.symm.trans done
      exact ⟨iff_of_false wrong misfit, fun holds => absurd holds wrong⟩

/-- One operation. -/
theorem step_exact (sized : st.Good → st.Sized) (good : st.Good) (step : Step st a st') :
    (st'.Good ↔ st.Right a) ∧ (st'.Good → st'.Sized) := by
  obtain ⟨junk, op⟩ := a
  cases st with
  | raw =>
    cases op with
    | init_with_size size => exact (settles_init_with_size size).leads step
    | _ => exact step.elim
  | string s t => exact (settles_exec good (sized good) op).leads step
  | broken => exact step.elim

/-- In a run that begins with `strbuf_init_with_size` and is given all memory, the buffer always has the string
that is built, with a NUL behind it if it is owned, and no write goes outside, if and only if each operation
meets its condition. -/
theorem strbuf_always_iff (run : List ((Nat → Byte) × Op)) :
    Always Step State.Good .raw run ↔ StepsMeet Step State.Right .raw run := by
  apply always_iff_stepsMeet (J := fun st => st.Good → st.Sized) ?_ ?_ (fun _ => trivial) trivial
  · intro st a st' sized good step
    exact (step_exact sized good step).2
  · intro st a st' sized good step
    exact (step_exact sized good step).1

/-- A string of one character is not cut off by `strbuf_reset`. -/
theorem strbuf_reset_leaves_character :
    ¬ Always Step State.Good .raw
      [(fun _ => 170, .init_with_size 64), (fun _ => 170, .append_char 97), (fun _ => 170, .reset)] := by
  intro always
  have path : Path Step .raw [(fun _ => 170, .init_with_size 64), (fun _ => 170, .append_char 97), (fun _ => 170, .reset)]
      (.string { value := some ([97, 0] ++ List.replicate 63 170), allocated := 64, buffer := 0, static := false } []) :=
    .cons (.inr ⟨_, rfl, rfl⟩) (.cons (.inr ⟨_, rfl, rfl⟩) (.cons (.inr ⟨_, rfl, rfl⟩) (.nil _)))
  obtain ⟨-, rest, value, nul⟩ := always.path path
  obtain rfl := Option.some.inj value
  exact absurd (nul rfl) (by decide)

end CodeClips.Strbuf
