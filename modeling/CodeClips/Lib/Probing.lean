import Mathlib.Logic.Function.Basic

/-!
# Open addressing

A table of slots, each empty or with a key and its value, and for each key a sequence of places to
look at; the sequence may leave the table. A key is found at the first of its places that is empty
or holds it. `Represents` says that a table holds a map: writing at the place of a new key adds the
key to the map (`Represents.insert`), whatever the sequences are.
-/

namespace CodeClips.Probing

variable {K V P : Type*}

/-- The search for `k` ends at this slot. -/
def Stops (t : P → Option (K × V)) (k : K) (p : P) : Prop := ∀ e, t p = some e → e.1 = k

/-- The search for `k` ends at its `j`th place, and all the places before are in the table. -/
structure FoundAt (probe : K → Nat → Option P) (t : P → Option (K × V)) (k : K) (j : Nat) (p : P) : Prop where
  place : probe k j = some p
  stops : Stops t k p
  passed : ∀ i < j, ∃ q, probe k i = some q ∧ ¬ Stops t k q

/-- What is in the table is in the map, and what is in the map is found. -/
structure Represents (probe : K → Nat → Option P) (t : P → Option (K × V)) (m : K → Option V) : Prop where
  stored : ∀ p e, t p = some e → m e.1 = some e.2
  found : ∀ k v, m k = some v → ∃ j p, FoundAt probe t k j p ∧ t p = some (k, v)

variable {probe : K → Nat → Option P} {t : P → Option (K × V)} {m : K → Option V} {k : K} {v : V} {i j : Nat} {p q : P}

theorem represents_empty : Represents probe (fun _ => none) fun _ => (none : Option V) where
  stored := by
    intro p e stored
    cases stored
  found := by
    intro k v mapped
    cases mapped

theorem stops_of_stored (stored : t q = some (k, v)) : Stops t k q := by
  intro e slot
  rw [stored, Option.some.injEq] at slot
  rw [← slot]

theorem FoundAt.unique (first : FoundAt probe t k i p) (second : FoundAt probe t k j q) : i = j ∧ p = q := by
  have places : i = j := by
    rcases Nat.lt_trichotomy i j with before | same | after
    · obtain ⟨r, place, goes⟩ := second.passed i before
      rw [first.place, Option.some.injEq] at place
      subst place
      exact absurd first.stops goes
    · exact same
    · obtain ⟨r, place, goes⟩ := first.passed j after
      rw [second.place, Option.some.injEq] at place
      subst place
      exact absurd second.stops goes
  subst places
  exact ⟨rfl, Option.some.inj (first.place.symm.trans second.place)⟩

/-- What is found is the value in the map, or an empty slot if there is none. -/
theorem Represents.lookup (holds : Represents probe t m) (found : FoundAt probe t k j p) : (t p).map Prod.snd = m k := by
  cases slot : t p with
  | some e =>
    have key := found.stops e slot
    rw [← key, holds.stored p e slot]
    rfl
  | none =>
    cases mapped : m k with
    | none => rfl
    | some v =>
      obtain ⟨i, q, found', stored⟩ := holds.found k v mapped
      obtain ⟨-, rfl⟩ := found.unique found'
      rw [slot] at stored
      cases stored

section Write
variable [DecidableEq P]

/-- A slot that was not empty is not written. -/
theorem update_of_stored (empty : t p = none) {e e' : K × V} (stored : t q = some e) :
    Function.update t p (some e') q = some e := by
  rw [Function.update_of_ne, stored]
  rintro rfl
  rw [empty] at stored
  cases stored

/-- A search ends no earlier when an empty slot is written, and so it ends where it still stops. -/
theorem FoundAt.update (found : FoundAt probe t k j q) (empty : t p = none) {e : K × V}
    (stops : Stops (Function.update t p (some e)) k q) : FoundAt probe (Function.update t p (some e)) k j q where
  place := found.place
  stops := stops
  passed i before := by
    obtain ⟨r, place, goes⟩ := found.passed i before
    exact ⟨r, place, fun stops => goes fun e' stored => stops e' (update_of_stored empty stored)⟩

/-- A new key is written where its search ends; the searches for the others end where they did. -/
theorem Represents.insert [DecidableEq K] (holds : Represents probe t m) (found : FoundAt probe t k j p) (new : m k = none)
    (v : V) : Represents probe (Function.update t p (some (k, v))) (Function.update m k (some v)) := by
  have empty : t p = none := by
    have value := holds.lookup found
    rw [new, Option.map_eq_none_iff] at value
    exact value
  have written : Function.update t p (some (k, v)) p = some (k, v) := Function.update_self ..
  constructor
  · intro q e stored
    rcases eq_or_ne q p with rfl | other
    · rw [written, Option.some.injEq] at stored
      subst stored
      exact Function.update_self ..
    · rw [Function.update_of_ne other] at stored
      have mapped := holds.stored q e stored
      rw [Function.update_of_ne, mapped]
      intro same
      rw [same, new] at mapped
      cases mapped
  · intro k' w mapped
    rcases eq_or_ne k' k with rfl | other
    · rw [Function.update_self, Option.some.injEq] at mapped
      subst mapped
      exact ⟨j, p, found.update empty (stops_of_stored written), written⟩
    · rw [Function.update_of_ne other] at mapped
      obtain ⟨i, q, found', stored⟩ := holds.found k' w mapped
      have kept : Function.update t p (some (k, v)) q = some (k', w) := update_of_stored empty stored
      exact ⟨i, q, found'.update empty (stops_of_stored kept), kept⟩

end Write

end CodeClips.Probing
