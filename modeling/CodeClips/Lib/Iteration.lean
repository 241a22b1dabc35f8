import CodeClips.Lib.Spread
import Mathlib.Data.List.FinRange
import Mathlib.Tactic.Common

/-!
# Iteration over lists in places

An iterator is a function that is called again and again with the state it has left: each call
returns an element, the end, or nothing where it is not defined. `Iterates` says that the calls
return just the elements of a list, and then the end. `onward` are the elements from a place on
where a list is kept in each place; a search for the next place with an element keeps them
(`onward_skip`).
-/

namespace CodeClips

section Iterates
variable {S E : Type*} (next : S → Option (S × Option E))

/-- The calls from `s` on return the elements one after another, then the end. -/
inductive Iterates : S → List E → Prop where
  | stop {s s' : S} (ends : next s = some (s', none)) : Iterates s []
  | visit {s s' : S} {e : E} {es : List E} (returns : next s = some (s', some e)) (rest : Iterates s' es) :
      Iterates s (e :: es)

variable {next}

theorem Iterates.unique {s : S} {es es' : List E} (first : Iterates next s es) (second : Iterates next s es') :
    es = es' := by
  induction first generalizing es' with
  | stop ends =>
    cases second with
    | stop => rfl
    | visit returns =>
      rw [ends] at returns
      cases returns
  | visit returns _ ih =>
    cases second with
    | stop ends =>
      rw [ends] at returns
      cases returns
    | visit returns' rest' =>
      rw [returns] at returns'
      cases returns'
      rw [ih rest']

/-- A state in which a call does the same. -/
theorem Iterates.congr {s s' : S} {es : List E} (iterates : Iterates next s es) (same : next s' = next s) :
    Iterates next s' es := by
  cases iterates with
  | stop ends => exact .stop (same.trans ends)
  | visit returns rest => exact .visit (same.trans returns) rest

end Iterates

section Onward
variable {E : Type*} (lists : Nat → List E) {n b c : Nat}

/-- The elements from the place `b` on, of `n` places. -/
def onward (n b : Nat) : List E := (List.range' b (n - b)).flatMap lists

theorem onward_end (out : n ≤ b) : onward lists n b = [] := by
  rw [onward, Nat.sub_eq_zero_of_le out]
  rfl

theorem onward_place (inside : b < n) : onward lists n b = lists b ++ onward lists n (b + 1) := by
  have count : n - b = n - (b + 1) + 1 := by omega
  rw [onward, count, List.range'_succ, List.flatMap_cons]
  rfl

/-- Places without elements. -/
theorem onward_skip (le : b ≤ c) (none : ∀ i, b ≤ i → i < c → lists i = []) (inside : c ≤ n) :
    onward lists n b = onward lists n c := by
  induction c, le using Nat.le_induction with
  | base => rfl
  | succ c le ih =>
    rw [ih (fun i from_b below => none i from_b (by omega)) (by omega), onward_place lists (by omega),
      none c le (Nat.lt_succ_self c), List.nil_append]

theorem mem_onward {e : E} : e ∈ onward lists n b ↔ ∃ i, b ≤ i ∧ i < n ∧ e ∈ lists i := by
  rw [onward, List.mem_flatMap]
  constructor
  · rintro ⟨i, inside, listed⟩
    rw [List.mem_range'_1] at inside
    exact ⟨i, inside.1, by omega, listed⟩
  · rintro ⟨i, above, below, listed⟩
    exact ⟨i, List.mem_range'_1.mpr ⟨above, by omega⟩, listed⟩

/-- The first of the elements and those behind it. -/
theorem onward_cons {e : E} {rest : List E} (some : onward lists n b = e :: rest) :
    ∃ i back, i < n ∧ lists i = e :: back ∧ rest = back ++ onward lists n (i + 1) := by
  induction left : n - b generalizing b with
  | zero =>
    rw [onward_end lists (by omega)] at some
    cases some
  | succ left ih =>
    have inside : b < n := by omega
    rw [onward_place lists inside] at some
    cases here : lists b with
    | nil =>
      rw [here, List.nil_append] at some
      exact ih some (by omega)
    | cons e' back =>
      rw [here, List.cons_append] at some
      obtain ⟨rfl, rfl⟩ := List.cons.inj some
      exact ⟨b, back, inside, here, rfl⟩

/-- A set spread over the places: its elements, each once. -/
theorem Spread.onward {place : E → Nat} {lists : Nat → List E} {s : Set E} (spread : Spread place lists s)
    (inside : ∀ e ∈ s, place e < n) : (onward lists n 0).Nodup ∧ ∀ e, e ∈ onward lists n 0 ↔ e ∈ s := by
  constructor
  · rw [CodeClips.onward, List.nodup_flatMap]
    refine ⟨fun i _ => spread.nodup i, ?_⟩
    have places : (List.range' 0 (n - 0)).Nodup := List.nodup_range' 1
    apply places.imp
    intro i j other e first second
    exact spread.not_mem other first second
  · intro e
    rw [mem_onward]
    constructor
    · rintro ⟨i, -, -, listed⟩
      exact spread.mem listed
    · intro member
      exact ⟨place e, Nat.zero_le _, inside e member, spread.mem_place member⟩

/-- From the first place on. -/
theorem onward_zero (lists : Fin n → List E) :
    onward (fun b => if inside : b < n then lists ⟨b, inside⟩ else []) n 0 = (List.finRange n).flatMap lists := by
  have places : List.range' 0 n = (List.finRange n).map Fin.val := by
    rw [List.map_coe_finRange_eq_range, List.range_eq_range']
  rw [onward, Nat.sub_zero, places, List.flatMap_map]
  apply List.flatMap_congr
  intro p _
  rw [dif_pos p.isLt]

end Onward

end CodeClips
