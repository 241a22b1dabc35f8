import CodeClips.HashTable.Table
import Mathlib.Data.List.Dedup

/-!
# Calls on the table

A search that leaves the array writes or reads what is not the table's, so that a run ends there.
Up to then the table represents the first value of each key: `hset` does not write to a slot that
has its key already. Compared with what a map returns, a run goes wrong where a search finds no
place inside the array, or where a key that has got another value is asked for (`table_right_iff`).
-/

namespace CodeClips.HashTable

abbrev Key := BitVec 32
abbrev Value := BitVec 32

inductive Call
  | hset (k : Key) (v : Value)
  | hget (k : Key)
  deriving DecidableEq

def Call.key : Call → Key
  | .hset k _ => k
  | .hget k => k

/-- What a caller sees: `value` is where the pointer that `hget` returns points to. -/
inductive Reply
  | done
  | value (v : Option Value)
  | outside (p : Nat)
  deriving DecidableEq

def step (fuel : Nat) (t : Table) : Call → Option (Table × Reply)
  | .hset k v => do
    match ← hset fuel t k v with
    | .ok t => return (t, .done)
    | .error p => return (t, .outside p)
  | .hget k => do
    match ← hget fuel t k with
    | .inside p => return (t, .value ((t p).map Prod.snd))
    | .outside p => return (t, .outside p)

/-- The calls one after the other, up to one that leaves the array. -/
def run (fuel : Nat) : Table → List Call → Option (List Reply)
  | _, [] => some []
  | t, c :: calls => do
    match ← step fuel t c with
    | (_, .outside p) => return [.outside p]
    | (t, reply) => return reply :: (← run fuel t calls)

/-- What a map replies, `m` being that of the last values. -/
def replies (m : Key → Option Value) : List Call → List Reply
  | [] => []
  | .hset k v :: calls => .done :: replies (Function.update m k (some v)) calls
  | .hget k :: calls => .value (m k) :: replies m calls

/-- All searches end inside the array, and `hget` returns the value of the last `hset`. -/
def Right (calls : List Call) : Prop := ∃ enough, ∀ fuel ≥ enough, run fuel hnew calls = some (replies (fun _ => none) calls)

/-- One of the places for the key that are inside the array is empty or holds it. -/
def Room (t : Table) (k : Key) : Prop := ∃ j p, slot k j = some p ∧ ∀ e, t p = some e → e.1 = k

/-- The first value stays. -/
def addFirst (first : Key → Option Value) (k : Key) (v : Value) : Key → Option Value :=
  if first k = none then Function.update first k (some v) else first

/-- No search takes more passes. -/
def passes : Nat := 2 * SIZE + 1

/-- There is room for each key when it is used, and where a key is asked for, the first and the last
value that it got are the same. -/
def Meets : Table → (first last : Key → Option Value) → List Call → Prop
  | _, _, _, [] => True
  | t, first, last, .hset k v :: calls =>
    Room t k ∧ ∀ t', hset passes t k v = some (.ok t') → Meets t' (addFirst first k v) (Function.update last k (some v)) calls
  | t, first, last, .hget k :: calls => Room t k ∧ first k = last k ∧ Meets t first last calls

section Runs
variable {t t' : Table} {k : Key} {v : Value} {first last : Key → Option Value} {calls : List Call} {fuel : Nat}

theorem inside_of_room (room : Room t k) : ∃ j p, j < passes ∧ Probing.FoundAt slot t k j p := by
  obtain ⟨j, place, bound, ends⟩ := exists_ends t k
  cases ends with
  | found found => exact ⟨j, _, Nat.lt_succ_of_le bound, found⟩
  | left outside passed =>
    obtain ⟨i, p, inside, stops⟩ := room
    rcases Nat.lt_or_ge i j with before | after
    · obtain ⟨q, place, goes⟩ := passed i before
      rw [inside, Option.some.injEq] at place
      subst place
      exact absurd stops goes
    · rw [slot_eq_none] at outside
      rw [slot_eq_some] at inside
      have := position_mono (k := k) after
      omega

theorem outside_of_not_room (full : ¬ Room t k) : ∃ p, ∀ fuel ≥ passes, hget fuel t k = some (.outside p) := by
  obtain ⟨j, place, bound, ends⟩ := exists_ends t k
  cases ends with
  | found found => exact absurd ⟨j, _, found.place, found.stops⟩ full
  | left outside passed =>
    refine ⟨_, fun fuel enough => hget_of_ends (.left outside passed) ?_⟩
    exact Nat.lt_of_lt_of_le (Nat.lt_succ_of_le bound) enough

/-- The table represents the first values. -/
abbrev Holds (t : Table) (first : Key → Option Value) : Prop := Probing.Represents slot t first

theorem run_outside {c : Call} (full : ¬ Room t c.key) : ∃ p, ∀ fuel ≥ passes, run fuel t (c :: calls) = some [.outside p] := by
  obtain ⟨p, ends⟩ := outside_of_not_room full
  refine ⟨p, fun fuel enough => ?_⟩
  have left := ends fuel enough
  cases c with
  | hset k v =>
    change hget fuel t k = _ at left
    rw [run, step, hset, left]
    rfl
  | hget k =>
    change hget fuel t k = _ at left
    rw [run, step, left]
    rfl

theorem run_hget (holds : Holds t first) (room : Room t k) (enough : passes ≤ fuel) :
    run fuel t (.hget k :: calls) = (run fuel t calls).map (.value (first k) :: ·) := by
  obtain ⟨j, p, less, found⟩ := inside_of_room room
  rw [run, step, hget_of_ends (.found found) (Nat.lt_of_lt_of_le less enough), ← holds.lookup found]
  change (run fuel t calls >>= fun rest => pure (.value ((t p).map Prod.snd) :: rest)) = _
  cases run fuel t calls <;> rfl

/-- A new key is written where its search ends, and no other value of a key is. -/
theorem run_hset (holds : Holds t first) (room : Room t k) (v : Value) : ∃ t', Holds t' (addFirst first k v) ∧
    hset passes t k v = some (.ok t') ∧
    ∀ fuel ≥ passes, ∀ calls, run fuel t (.hset k v :: calls) = (run fuel t' calls).map (.done :: ·) := by
  obtain ⟨j, p, less, found⟩ := inside_of_room room
  have written (fuel : Nat) (enough : passes ≤ fuel) :
      hset fuel t k v = some (.ok (if t p = none then Function.update t p (some (k, v)) else t)) := by
    rw [hset, hget_of_ends (.found found) (Nat.lt_of_lt_of_le less enough)]
    rfl
  refine ⟨_, ?_, written passes (Nat.le_refl _), fun fuel enough calls => ?_⟩
  · have value := holds.lookup found
    by_cases empty : t p = none
    · have new : first k = none := by
        rw [← value, empty]
        rfl
      rw [if_pos empty, addFirst, if_pos new]
      exact holds.insert found new v
    · have old : first k ≠ none := by
        rw [← value, Ne, Option.map_eq_none_iff]
        exact empty
      rw [if_neg empty, addFirst, if_neg old]
      exact holds
  · rw [run, step, written fuel enough]
    generalize (if t p = none then Function.update t p (some (k, v)) else t) = t'
    change (run fuel t' calls >>= fun rest => pure (.done :: rest)) = _
    cases run fuel t' calls <;> rfl

/-- A call with its own reply, and the calls after it. -/
theorem right_cons {c : Call} {reply expected : Reply} {rest : List Reply}
    (head : ∀ fuel ≥ passes, run fuel t (c :: calls) = (run fuel t' calls).map (reply :: ·)) :
    (∃ enough, ∀ fuel ≥ enough, run fuel t (c :: calls) = some (expected :: rest)) ↔
      reply = expected ∧ ∃ enough, ∀ fuel ≥ enough, run fuel t' calls = some rest := by
  constructor
  · rintro ⟨enough, right⟩
    have later (fuel : Nat) (more : max enough passes ≤ fuel) : reply = expected ∧ run fuel t' calls = some rest := by
      have both := right fuel (by omega)
      rw [head fuel (by omega)] at both
      obtain ⟨tail, ran, same⟩ := Option.map_eq_some_iff.mp both
      obtain ⟨rfl, rfl⟩ := List.cons.inj same
      exact ⟨rfl, ran⟩
    exact ⟨(later _ (Nat.le_refl _)).1, _, fun fuel more => (later fuel more).2⟩
  · rintro ⟨rfl, enough, right⟩
    refine ⟨max enough passes, fun fuel more => ?_⟩
    rw [head fuel (by omega), right fuel (by omega)]
    rfl

theorem not_right_of_full {c : Call} {expected : Reply} {rest : List Reply} (full : ¬ Room t c.key)
    (inside : ∀ p, expected ≠ .outside p) :
    ¬ ∃ enough, ∀ fuel ≥ enough, run fuel t (c :: calls) = some (expected :: rest) := by
  rintro ⟨enough, right⟩
  obtain ⟨p, left⟩ : ∃ p, ∀ fuel ≥ passes, run fuel t (c :: calls) = some [.outside p] := run_outside full
  have both := right (max enough passes) (by omega)
  rw [left _ (by omega), Option.some.injEq] at both
  exact inside p (List.cons.inj both).1.symm

theorem runs (holds : Holds t first) :
    (∃ enough, ∀ fuel ≥ enough, run fuel t calls = some (replies last calls)) ↔ Meets t first last calls := by
  induction calls generalizing t first last with
  | nil => exact iff_of_true ⟨0, fun _ _ => rfl⟩ trivial
  | cons c calls ih =>
    cases c with
    | hset k v =>
      by_cases room : Room t k
      · obtain ⟨t', holds', written, head⟩ := run_hset holds room v
        rw [replies, right_cons fun fuel enough => head fuel enough calls, eq_self, true_and, ih holds', Meets, and_iff_right room]
        constructor
        · intro meets t'' again
          rw [written] at again
          cases again
          exact meets
        · exact fun meets => meets t' written
      · exact iff_of_false (not_right_of_full room fun p => by rintro ⟨⟩) fun meets => room meets.1
    | hget k =>
      by_cases room : Room t k
      · rw [replies, right_cons fun fuel enough => run_hget holds room enough, Reply.value.injEq, ih holds, Meets,
          and_iff_right room]
      · exact iff_of_false (not_right_of_full room fun p => by rintro ⟨⟩) fun meets => room meets.1

end Runs

/-- **Which runs are those of a map**: those with room for each key, in which no key that is asked
for has got another value before. -/
theorem table_right_iff (calls : List Call) : Right calls ↔ Meets hnew (fun _ => none) (fun _ => none) calls :=
  runs Probing.represents_empty

/-- The third key's second place is taken, and its third one is behind the array. -/
theorem leaves_array : ¬ ∀ calls : List Call, (calls.map Call.key).dedup.length < 1024 → Right calls := by
  intro right
  obtain ⟨enough, same⟩ := right [.hset 5 0, .hset 1000 0, .hset 2024 0] (by decide)
  have left : run (enough + 5) hnew [.hset 5 0, .hset 1000 0, .hset 2024 0] = some [.done, .done, .outside 2003] := rfl
  rw [same _ (Nat.le_add_right _ _)] at left
  cases left

end CodeClips.HashTable
