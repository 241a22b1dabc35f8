import CodeClips.Lib.Bits
import CodeClips.Lib.Probing
import Mathlib.Data.Nat.Find
import Mathlib.Tactic.SplitIfs

/-!
# The probe loop

`hget` moves the table's own pointer along and looks at what it points to: the search for a key
starts at the first slot, whatever the key is, and goes on by a distance that grows by one each
time. The places are `position`; the loop ends at the first of them that is empty or holds the
key, or is behind the last slot (`exists_ends`).
-/

namespace CodeClips.HashTable

def SIZE : Nat := 1024

/-- Slots point to a key and its value. -/
abbrev Table := Fin SIZE → Option (BitVec 32 × BitVec 32)

def hnew : Table := fun _ => none

/-- The slot that the table's pointer has moved to. -/
inductive Place
  | inside (p : Fin SIZE)
  | outside (p : Nat)
  deriving DecidableEq

/-- The loop of `hget`, with `t` moved by `p`. -/
def hget_loop (t : Table) (k : BitVec 32) : Nat → BitVec 32 → Nat → Option Place
  | 0, _, _ => none
  | fuel + 1, h, p =>
    if inside : p < SIZE then
      match t ⟨p, inside⟩ with
      | none => some (.inside ⟨p, inside⟩)
      | some e =>
        if e.1 = k then some (.inside ⟨p, inside⟩)
        else
          let h := (h + 1) &&& (BitVec.ofNat 32 SIZE - 1)
          hget_loop t k fuel h (p + h.toNat)
    else some (.outside p)

def hget (fuel : Nat) (t : Table) (k : BitVec 32) : Option Place := hget_loop t k fuel (k &&& (BitVec.ofNat 32 SIZE - 1)) 0

/-- Where `hset` has written, or nothing is known of the table. -/
def hset (fuel : Nat) (t : Table) (k v : BitVec 32) : Option (Except Nat Table) := do
  match ← hget fuel t k with
  | .inside a => return .ok (if t a = none then Function.update t a (some (k, v)) else t)
  | .outside p => return .error p

/-! ## Places -/

def position (k : BitVec 32) : Nat → Nat
  | 0 => 0
  | j + 1 => position k j + (k.toNat + (j + 1)) % SIZE

/-- The places inside the array. -/
def slot (k : BitVec 32) (j : Nat) : Option (Fin SIZE) :=
  if inside : position k j < SIZE then some ⟨position k j, inside⟩ else none

section Loop
variable {t : Table} {k : BitVec 32} {i j fuel : Nat} {p : Fin SIZE}

theorem slot_eq_some : slot k j = some p ↔ position k j = p := by
  rw [slot]
  constructor
  · intro inside
    split_ifs at inside with less
    rw [← Option.some.inj inside]
  · intro same
    rw [dif_pos (by rw [same]; exact p.isLt), Option.some.injEq]
    exact Fin.ext same

theorem slot_eq_none : slot k j = none ↔ SIZE ≤ position k j := by
  rw [slot, dite_eq_right_iff]
  constructor
  · intro none
    by_contra less
    cases none (Nat.lt_of_not_le less)
  · intro outside less
    exact absurd less (Nat.not_lt.mpr outside)

theorem position_mono (before : i ≤ j) : position k i ≤ position k j := by
  induction before with
  | refl => exact Nat.le_refl _
  | step _ ih => exact Nat.le_trans ih (Nat.le_add_right _ _)

/-- Of two steps in a row only one can have length zero. -/
theorem le_position_double (k : BitVec 32) (n : Nat) : n ≤ position k (2 * n) := by
  induction n with
  | zero => exact Nat.le_refl _
  | succ n ih =>
    rw [Nat.mul_succ, position, position]
    simp only [SIZE]
    omega

theorem mask_toNat (x : BitVec 32) : (x &&& (BitVec.ofNat 32 SIZE - 1)).toNat = x.toNat % SIZE := by
  have mask : (BitVec.ofNat 32 SIZE - 1).toNat = 2 ^ 10 - 1 := by decide
  exact toNat_and_mask x 10 mask

/-- The remainder is that of the key and the number of the pass. -/
theorem next_remainder {h : BitVec 32} (now : h.toNat = (k.toNat + j) % SIZE) :
    ((h + 1) &&& (BitVec.ofNat 32 SIZE - 1)).toNat = (k.toNat + (j + 1)) % SIZE := by
  have one : (1 : BitVec 32).toNat = 1 := by decide
  rw [mask_toNat, BitVec.toNat_add, one, now]
  simp only [SIZE]
  omega

/-- A pass that goes on. -/
theorem loop_next {h : BitVec 32} (place : slot k j = some p) (goes : ¬ Probing.Stops t k p)
    (now : h.toNat = (k.toNat + j) % SIZE) : hget_loop t k (fuel + 1) h (position k j) =
      hget_loop t k fuel ((h + 1) &&& (BitVec.ofNat 32 SIZE - 1)) (position k (j + 1)) := by
  obtain ⟨e, stored, other⟩ : ∃ e, t p = some e ∧ e.1 ≠ k := by
    simpa [Probing.Stops] using goes
  rw [slot_eq_some] at place
  rw [hget_loop, place, dif_pos p.isLt, position, place]
  simp only [stored, if_neg other, next_remainder now]

/-- Where the search ends. -/
inductive Ends (t : Table) (k : BitVec 32) : Nat → Place → Prop
  | found {j : Nat} {p : Fin SIZE} (found : Probing.FoundAt slot t k j p) : Ends t k j (.inside p)
  | left {j : Nat} (outside : slot k j = none) (passed : ∀ i < j, ∃ p, slot k i = some p ∧ ¬ Probing.Stops t k p) :
      Ends t k j (.outside (position k j))

theorem Ends.passed {place : Place} (ends : Ends t k j place) : ∀ i < j, ∃ p, slot k i = some p ∧ ¬ Probing.Stops t k p := by
  cases ends with
  | found found => exact found.passed
  | left _ passed => exact passed

theorem Ends.last {place : Place} (ends : Ends t k j place) {h : BitVec 32} :
    hget_loop t k (fuel + 1) h (position k j) = some place := by
  cases ends with
  | found found =>
    have place := slot_eq_some.mp found.place
    rw [hget_loop, place, dif_pos (Fin.isLt _)]
    split
    · rfl
    · next e stored => rw [if_pos (found.stops e stored)]
  | left outside => rw [hget_loop, dif_neg (Nat.not_lt.mpr (slot_eq_none.mp outside))]

/-- **The loop** ends where the search does. -/
theorem hget_of_ends {place : Place} (ends : Ends t k j place) (enough : j < fuel) : hget fuel t k = some place := by
  have passes (n i : Nat) (left : i + n = j) {fuel : Nat} (enough : n < fuel) {h : BitVec 32}
      (now : h.toNat = (k.toNat + i) % SIZE) : hget_loop t k fuel h (position k i) = some place := by
    induction n generalizing i fuel h with
    | zero =>
      obtain ⟨fuel, rfl⟩ : ∃ f, fuel = f + 1 := ⟨fuel - 1, by omega⟩
      rw [← left] at ends
      exact ends.last
    | succ n ih =>
      obtain ⟨fuel, rfl⟩ : ∃ f, fuel = f + 1 := ⟨fuel - 1, by omega⟩
      obtain ⟨p, inside, goes⟩ := ends.passed i (by omega)
      rw [loop_next inside goes now]
      exact ih (i + 1) (by omega) (by omega) (next_remainder now)
  exact passes j 0 (Nat.zero_add j) enough (mask_toNat k)

/-- Every search ends. -/
theorem exists_ends (t : Table) (k : BitVec 32) : ∃ j place, j ≤ 2 * SIZE ∧ Ends t k j place := by
  classical
  have last : ∃ j, ∀ p, slot k j = some p → Probing.Stops t k p := by
    refine ⟨2 * SIZE, fun p inside => ?_⟩
    rw [slot_eq_none.mpr (le_position_double k SIZE)] at inside
    cases inside
  have passed : ∀ i < Nat.find last, ∃ p, slot k i = some p ∧ ¬ Probing.Stops t k p := by
    intro i before
    have goes := Nat.find_min last before
    push Not at goes
    exact goes
  have bound : Nat.find last ≤ 2 * SIZE := by
    by_contra later
    obtain ⟨p, inside, -⟩ := passed (2 * SIZE) (Nat.lt_of_not_le later)
    rw [slot_eq_none.mpr (le_position_double k SIZE)] at inside
    cases inside
  cases here : slot k (Nat.find last) with
  | none => exact ⟨_, _, bound, .left here passed⟩
  | some p => exact ⟨_, _, bound, .found ⟨here, Nat.find_spec last p here, passed⟩⟩

end Loop

end CodeClips.HashTable
