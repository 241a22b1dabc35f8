import Mathlib.Data.List.Nodup
import Mathlib.Data.Set.Insert
import Mathlib.Logic.Function.Basic

/-!
# A set spread over lists

The elements of a set are kept in lists, each once and in the list of its place, as in the
buckets of a hash table. An element is put into the list of its place in any position, and
taken out of it.
-/

namespace CodeClips

section Spread
variable {ι E : Type*}

/-- Every element of the set is in one list, that of its place, and there once. -/
structure Spread (place : E → ι) (lists : ι → List E) (s : Set E) : Prop where
  nodup : ∀ p, (lists p).Nodup
  mem_iff : ∀ p e, e ∈ lists p ↔ e ∈ s ∧ place e = p

variable {place : E → ι} {lists : ι → List E} {s : Set E}

theorem spread_empty : Spread place (fun _ => []) ∅ :=
  ⟨fun _ => List.nodup_nil, fun _ _ => by simp⟩

/-- What is in one of the lists is in the set. -/
theorem Spread.mem (spread : Spread place lists s) {p : ι} {e : E} (listed : e ∈ lists p) : e ∈ s :=
  ((spread.mem_iff p e).mp listed).1

/-- It is in the list of its place. -/
theorem Spread.mem_place (spread : Spread place lists s) {e : E} (member : e ∈ s) : e ∈ lists (place e) :=
  (spread.mem_iff (place e) e).mpr ⟨member, rfl⟩

/-- And in no other list. -/
theorem Spread.place_eq (spread : Spread place lists s) {p : ι} {e : E} (listed : e ∈ lists p) : place e = p :=
  ((spread.mem_iff p e).mp listed).2

/-- No element is in two lists. -/
theorem Spread.not_mem (spread : Spread place lists s) {p q : ι} (other : p ≠ q) {e : E} (listed : e ∈ lists p) :
    e ∉ lists q :=
  fun listed' => other ((spread.place_eq listed).symm.trans (spread.place_eq listed'))

/-- The elements of the first places, one place after the other. -/
theorem Spread.below_succ {place : E → Nat} {lists : Nat → List E} (spread : Spread place lists s) (i : Nat) :
    {e | e ∈ s ∧ place e < i} ∪ {e | e ∈ lists i} = {e | e ∈ s ∧ place e < i + 1} := by
  ext e
  simp only [Set.mem_union, Set.mem_ofPred_eq, spread.mem_iff]
  constructor
  · rintro (⟨member, less⟩ | ⟨member, here⟩)
    · exact ⟨member, by omega⟩
    · exact ⟨member, by omega⟩
  · rintro ⟨member, less⟩
    by_cases here : place e = i
    · exact .inr ⟨member, here⟩
    · exact .inl ⟨member, by omega⟩

/-- Only the places of the elements count. -/
theorem Spread.congr (spread : Spread place lists s) {place' : E → ι} (same : ∀ e ∈ s, place' e = place e) :
    Spread place' lists s := by
  refine ⟨spread.nodup, fun p e => ?_⟩
  rw [spread.mem_iff]
  constructor
  · rintro ⟨member, here⟩
    exact ⟨member, (same e member).trans here⟩
  · rintro ⟨member, here⟩
    exact ⟨member, (same e member).symm.trans here⟩

variable [DecidableEq ι]

/-- An element comes into the list of its place. -/
theorem Spread.insert (spread : Spread place lists s) {p : ι} {e : E} (home : place e = p) (fresh : e ∉ s)
    {l : List E} (perm : l.Perm (e :: lists p)) : Spread place (Function.update lists p l) (insert e s) := by
  have absent : e ∉ lists p := fun listed => fresh (spread.mem listed)
  constructor
  · intro q
    by_cases here : q = p
    · subst here
      rw [Function.update_self]
      exact perm.nodup_iff.mpr (List.nodup_cons.mpr ⟨absent, spread.nodup _⟩)
    · rw [Function.update_of_ne here]
      exact spread.nodup q
  · intro q x
    by_cases here : q = p
    · subst here
      rw [Function.update_self, perm.mem_iff, List.mem_cons, spread.mem_iff, Set.mem_insert_iff]
      constructor
      · rintro (rfl | ⟨member, place⟩)
        · exact ⟨.inl rfl, home⟩
        · exact ⟨.inr member, place⟩
      · rintro ⟨rfl | member, place⟩
        · exact .inl rfl
        · exact .inr ⟨member, place⟩
    · rw [Function.update_of_ne here, spread.mem_iff, Set.mem_insert_iff]
      constructor
      · rintro ⟨member, place⟩
        exact ⟨.inr member, place⟩
      · rintro ⟨rfl | member, place⟩
        · exact absurd (place.symm.trans home) here
        · exact ⟨member, place⟩

/-- One is taken out of it. -/
theorem Spread.erase (spread : Spread place lists s) {p : ι} {e : E} (home : place e = p) {l : List E}
    (perm : (lists p).Perm (e :: l)) : Spread place (Function.update lists p l) (s \ {e}) := by
  obtain ⟨absent, nodup⟩ := List.nodup_cons.mp (perm.nodup_iff.mp (spread.nodup p))
  constructor
  · intro q
    by_cases here : q = p
    · subst here
      rw [Function.update_self]
      exact nodup
    · rw [Function.update_of_ne here]
      exact spread.nodup q
  · intro q x
    by_cases here : q = p
    · subst here
      have listed := spread.mem_iff q x
      rw [perm.mem_iff, List.mem_cons] at listed
      rw [Function.update_self, Set.mem_sdiff, Set.mem_singleton_iff]
      constructor
      · intro later
        have other : x ≠ e := by
          rintro rfl
          exact absent later
        obtain ⟨member, place⟩ := listed.mp (.inr later)
        exact ⟨⟨member, other⟩, place⟩
      · rintro ⟨⟨member, other⟩, place⟩
        exact (listed.mpr ⟨member, place⟩).resolve_left other
    · rw [Function.update_of_ne here, spread.mem_iff, Set.mem_sdiff, Set.mem_singleton_iff]
      constructor
      · rintro ⟨member, place⟩
        refine ⟨⟨member, ?_⟩, place⟩
        rintro rfl
        exact here (place.symm.trans home)
      · rintro ⟨⟨member, -⟩, place⟩
        exact ⟨member, place⟩

end Spread

end CodeClips
