import CodeClips.Ovs.Resize
import Mathlib.Logic.Equiv.Basic

/-!
# The maps of a client

A client inserts a node that is in no map, and removes one from the map that it is in. `Inv` says
that every map holds its nodes, and that no two maps have one array. It is kept by whatever
changes one map only (`Inv.only`), by resizing and by swaps.
-/

namespace CodeClips.Ovs

section Maps
variable {N M : Type}

/-- The map that each node is in, and the hash it was inserted with. -/
structure Client (N M : Type) where
  owner : N → Option M
  hash : N → BitVec 64

def Client.nodes (c : Client N M) (m : M) : Set N := {node | c.owner node = some m}

structure Inv (s : Memory N M) (c : Client N M) : Prop where
  holds : ∀ m, ∃ table, Holds s (.client m) c.hash table (c.nodes m)
  apart : ∀ m m' a, (s.hmap (.client m)).buckets = .array a → (s.hmap (.client m')).buckets = .array a → m = m'

variable {s s' : Memory N M} {c c' : Client N M} {m : M}

theorem nodes_disjoint {m m' : M} (other : m ≠ m') {node : N} (member : node ∈ c.nodes m) : node ∉ c.nodes m' := by
  intro member'
  exact other (Option.some.inj (member.symm.trans member'))

/-- No two maps share their buckets. -/
theorem Inv.separate (inv : Inv s c) {m m' : M} (other : m ≠ m') :
    (s.hmap (.client m)).buckets ≠ (s.hmap (.client m')).buckets := by
  obtain ⟨table, holds⟩ := inv.holds m
  obtain ⟨table', holds'⟩ := inv.holds m'
  intro same
  by_cases single : (s.hmap (.client m)).mask = 0
  · rw [holds.inline single] at same
    exact (holds'.buckets_ne (y := .client m) (by simpa using other)).1 same.symm
  · obtain ⟨a, array, -⟩ := holds.heap single
    exact other (inv.apart m m' a array (same ▸ array))

/-- One map is changed. -/
theorem Inv.only (inv : Inv s c) {changed : Set N} (only : Only s s' (.client m) changed)
    (holds : ∃ table, Holds s' (.client m) c'.hash table (c'.nodes m))
    (others : ∀ m', m' ≠ m → c'.nodes m' = c.nodes m' ∧ ∀ a ∈ c.nodes m', a ∉ changed ∧ c'.hash a = c.hash a) :
    Inv s' c' := by
  have buckets : ∀ m', (s'.hmap (.client m')).buckets = (s.hmap (.client m')).buckets := by
    intro m'
    by_cases same : m' = m
    · subst same
      exact only.buckets
    · rw [only.hmap (.client m') (by simpa using same)]
  constructor
  · intro m'
    by_cases same : m' = m
    · subst same
      exact holds
    · obtain ⟨nodes, outside⟩ := others m' same
      obtain ⟨table, holds'⟩ := inv.holds m'
      refine ⟨table, ?_⟩
      rw [nodes]
      have kept := holds'.other only (by simpa using same) (inv.separate same) fun a member => (outside a member).1
      exact kept.rehash fun a member => (outside a member).2
  · intro m₁ m₂ a first second
    rw [buckets] at first second
    exact inv.apart m₁ m₂ a first second

/-- One map is resized. -/
theorem Inv.beside [DecidableEq M] (inv : Inv s c) (beside : Beside s s' (.client m) (c.nodes m))
    (holds : ∃ table, Holds s' (.client m) c.hash table (c.nodes m))
    (fresh : ∀ a, (s'.hmap (.client m)).buckets = .array a → s.arrays ≤ a) : Inv s' c := by
  have hmap : ∀ m', m' ≠ m → s'.hmap (.client m') = s.hmap (.client m') := by
    intro m' other
    exact beside.hmap (.client m') (by simpa using other) (by simp)
  have allocated : ∀ m' a, (s.hmap (.client m')).buckets = .array a → a < s.arrays := by
    intro m' a array
    obtain ⟨table, holds'⟩ := inv.holds m'
    exact holds'.allocated array
  constructor
  · intro m'
    by_cases same : m' = m
    · subst same
      exact holds
    · obtain ⟨table, holds'⟩ := inv.holds m'
      obtain ⟨notOne, -⟩ := holds'.buckets_ne (y := .client m) (by simpa using Ne.symm same)
      obtain ⟨notTmp, -⟩ := holds'.buckets_ne (y := .tmp) (by simp)
      refine ⟨table, holds'.frame (hmap m' same) ?_ ?_ beside.arrays⟩
      · exact beside.cells _ (inv.separate same) notOne notTmp (allocated m')
      · intro a member
        exact beside.node a (nodes_disjoint same member)
  · intro m₁ m₂ a first second
    by_cases same₁ : m₁ = m
    · by_cases same₂ : m₂ = m
      · rw [same₁, same₂]
      · subst same₁
        rw [hmap m₂ same₂] at second
        exact absurd (allocated m₂ a second) (Nat.not_lt.mpr (fresh a first))
    · rw [hmap m₁ same₁] at first
      by_cases same₂ : m₂ = m
      · subst same₂
        exact absurd (allocated m₁ a first) (Nat.not_lt.mpr (fresh a second))
      · rw [hmap m₂ same₂] at second
        exact inv.apart m₁ m₂ a first second

/-! ## Swaps -/

variable [DecidableEq M]

def Client.swap (c : Client N M) (a b : M) : Client N M :=
  { c with owner := fun node => (c.owner node).map (Equiv.swap a b) }

theorem nodes_swap (c : Client N M) (a b m : M) : (c.swap a b).nodes m = c.nodes (Equiv.swap a b m) := by
  ext node
  show (c.owner node).map (Equiv.swap a b) = some m ↔ c.owner node = some (Equiv.swap a b m)
  cases c.owner node with
  | none => simp
  | some m' => simp [Equiv.swap_apply_eq_iff]

theorem swapped_other (s : Memory N M) {x a b : Place M} (first : x ≠ a) (second : x ≠ b) :
    (swapped s a b).hmap x = s.hmap x :=
  (Function.update_of_ne second _ _).trans (Function.update_of_ne first _ _)

/-- An array goes with the struct. -/
theorem array_swapped {a b : M} (apart : (.client a : Place M) ≠ .client b) {m : M} {k : Nat}
    (array : ((swapped s (.client a) (.client b)).hmap (.client m)).buckets = .array k) :
    (s.hmap (.client (Equiv.swap a b m))).buckets = .array k := by
  by_cases first : m = a
  · subst first
    rw [swapped_first s apart] at array
    rw [Equiv.swap_apply_left]
    exact repaired_array array
  by_cases second : m = b
  · subst second
    rw [swapped_second] at array
    rw [Equiv.swap_apply_right]
    exact repaired_array array
  rw [swapped_other s (by simpa using first) (by simpa using second)] at array
  rw [Equiv.swap_apply_of_ne_of_ne first second]
  exact array

/-- **The set of nodes goes with the struct.** -/
theorem Inv.swap (inv : Inv s c) (a b : M) : Inv (hmap_swap s (.client a) (.client b)) (c.swap a b) := by
  by_cases same : a = b
  · subst same
    obtain ⟨table, holds⟩ := inv.holds a
    have unchanged : c.swap a a = c := by
      rw [Client.swap, Equiv.swap_self]
      simp
    rw [hmap_swap_self holds, unchanged]
    exact inv
  have apart : (.client a : Place M) ≠ .client b := by simpa using same
  rw [hmap_swap_eq s apart]
  constructor
  · intro m
    rw [nodes_swap]
    by_cases first : m = a
    · subst first
      obtain ⟨table, holds⟩ := inv.holds b
      rw [Equiv.swap_apply_left]
      exact ⟨table, holds_swapped_first apart holds⟩
    by_cases second : m = b
    · subst second
      obtain ⟨table, holds⟩ := inv.holds a
      rw [Equiv.swap_apply_right]
      exact ⟨table, holds_swapped_second holds⟩
    obtain ⟨table, holds⟩ := inv.holds m
    obtain ⟨notFirst, -⟩ := holds.buckets_ne (y := .client a) (by simpa using Ne.symm first)
    obtain ⟨notSecond, -⟩ := holds.buckets_ne (y := .client b) (by simpa using Ne.symm second)
    rw [Equiv.swap_apply_of_ne_of_ne first second]
    refine ⟨table, holds.frame ?_ (swapped_cells s notFirst notSecond) (fun _ _ => rfl) (Nat.le_refl _)⟩
    exact swapped_other s (by simpa using first) (by simpa using second)
  · intro m m' k first second
    exact (Equiv.swap a b).injective (inv.apart _ _ k (array_swapped apart first) (array_swapped apart second))

end Maps

end CodeClips.Ovs
