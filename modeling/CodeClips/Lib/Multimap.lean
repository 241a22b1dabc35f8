import Mathlib.Data.List.Basic
import Mathlib.Data.List.Pairwise
import Mathlib.Data.List.Perm.Basic
import Mathlib.Data.List.TakeWhile
import Mathlib.Order.Lattice
import Mathlib.Tactic.Common

/-!
# Sorted multimaps with positions

A multimap is a list of entries sorted by key; entries of one key keep the order in which they
were inserted. A position stands for an iterator: it is where its entry is, or the length of
the list for the end. An insertion or an erasure in front of it moves it (`afterInsert`,
`afterErase`), and erasing its own entry leaves it without one. `lowerBound` and `upperBound`
enclose the entries of a key (`lt_lowerBound`, `lt_upperBound`).
-/

namespace CodeClips

/-! ## The front of a list on which a predicate holds -/

section Front
variable {α : Type*} {p : α → Bool} {l : List α}

/-- The entries that `p` holds of are in front, and so known by their places. -/
theorem front_getElem? (front : l.Pairwise fun a b => p b → p a) {i : Nat} {e : α} (here : l[i]? = some e) :
    i < (l.takeWhile p).length ↔ p e := by
  induction l generalizing i with
  | nil => cases here
  | cons a l ih =>
    obtain ⟨first, rest⟩ := List.pairwise_cons.mp front
    cases holds : p a with
    | false =>
      rw [List.takeWhile_cons_of_neg (by simp [holds])]
      cases i with
      | zero =>
        cases here
        simp [holds]
      | succ i =>
        have mem := List.mem_of_getElem? (List.getElem?_cons_succ ▸ here)
        have no : ¬ p e := fun yes => by simp [first e mem yes] at holds
        simp [no]
    | true =>
      rw [List.takeWhile_cons_of_pos holds]
      cases i with
      | zero =>
        cases here
        simp [holds]
      | succ i =>
        rw [List.length_cons, Nat.succ_lt_succ_iff]
        exact ih rest (List.getElem?_cons_succ ▸ here)

/-- There are as many in front as `p` holds of. -/
theorem front_length (front : l.Pairwise fun a b => p b → p a) : (l.takeWhile p).length = l.countP p := by
  induction l with
  | nil => rfl
  | cons a l ih =>
    obtain ⟨first, rest⟩ := List.pairwise_cons.mp front
    cases holds : p a with
    | false =>
      have none : l.countP p = 0 := List.countP_eq_zero.mpr fun b mem yes => by simp [first b mem yes] at holds
      rw [List.takeWhile_cons_of_neg (by simp [holds]), List.countP_cons_of_neg (by simp [holds]), none]
      rfl
    | true =>
      rw [List.takeWhile_cons_of_pos holds, List.countP_cons_of_pos holds, List.length_cons, ih rest]

end Front

/-! ## The multimap -/

/-- Entries in the order of their keys; a key may have several. -/
structure Multimap (K V : Type*) [LinearOrder K] where
  entries : List (K × V)
  sorted : entries.Pairwise fun a b => a.1 ≤ b.1

namespace Multimap
variable {K V : Type*} [LinearOrder K]

/-- No entries. -/
def empty : Multimap K V := { entries := [], sorted := List.Pairwise.nil }

/-- The position of the first entry whose key is not less than `k`. -/
def lowerBound (m : Multimap K V) (k : K) : Nat := (m.entries.takeWhile fun e => e.1 < k).length

/-- The position of the first entry whose key is greater than `k`. -/
def upperBound (m : Multimap K V) (k : K) : Nat := (m.entries.takeWhile fun e => e.1 ≤ k).length

/-- The entries with smaller keys are in front. -/
theorem front_lt (m : Multimap K V) (k : K) :
    m.entries.Pairwise fun a b => decide (b.1 < k) → decide (a.1 < k) :=
  m.sorted.imp fun le => by simpa using fun less => lt_of_le_of_lt le less

/-- And those with keys that are not larger. -/
theorem front_le (m : Multimap K V) (k : K) :
    m.entries.Pairwise fun a b => decide (b.1 ≤ k) → decide (a.1 ≤ k) :=
  m.sorted.imp fun le => by simpa using fun less => le_trans le less

/-- Before the lower bound are the entries with smaller keys. -/
theorem lt_lowerBound {m : Multimap K V} {i : Nat} {e : K × V} (here : m.entries[i]? = some e) (k : K) :
    i < m.lowerBound k ↔ e.1 < k :=
  (front_getElem? (m.front_lt k) here).trans (by simp)

/-- Before the upper bound are the entries with keys that are not larger. -/
theorem lt_upperBound {m : Multimap K V} {i : Nat} {e : K × V} (here : m.entries[i]? = some e) (k : K) :
    i < m.upperBound k ↔ e.1 ≤ k :=
  (front_getElem? (m.front_le k) here).trans (by simp)

/-- The lower bound counts the entries with smaller keys. -/
theorem lowerBound_eq (m : Multimap K V) (k : K) : m.lowerBound k = m.entries.countP fun e => e.1 < k :=
  front_length (m.front_lt k)

/-- The upper bound counts those with keys that are not larger. -/
theorem upperBound_eq (m : Multimap K V) (k : K) : m.upperBound k = m.entries.countP fun e => e.1 ≤ k :=
  front_length (m.front_le k)

/-- A bound is a place, or the end. -/
theorem upperBound_le (m : Multimap K V) (k : K) : m.upperBound k ≤ m.entries.length :=
  (List.takeWhile_sublist _).length_le

theorem lowerBound_le_upperBound (m : Multimap K V) (k : K) : m.lowerBound k ≤ m.upperBound k := by
  rw [lowerBound_eq, upperBound_eq]
  exact List.countP_mono_left fun e _ less => by simpa using le_of_lt (by simpa using less)

/-- Between the bounds of a key are its entries. -/
theorem key_iff {m : Multimap K V} {i : Nat} {e : K × V} (here : m.entries[i]? = some e) (k : K) :
    m.lowerBound k ≤ i ∧ i < m.upperBound k ↔ e.1 = k := by
  rw [lt_upperBound here, ← Nat.not_lt, lt_lowerBound here, not_lt, and_comm]
  exact le_antisymm_iff.symm

/-! ## Insertion -/

/-- Behind the upper bound the keys are larger. -/
theorem lt_of_mem_back {m : Multimap K V} {k : K} {e : K × V}
    (mem : e ∈ m.entries.dropWhile fun e => e.1 ≤ k) : k < e.1 := by
  obtain ⟨j, here⟩ := List.mem_iff_getElem?.mp mem
  have place : m.entries[m.upperBound k + j]? = some e := by
    conv_lhs => rw [← @List.takeWhile_append_dropWhile _ (fun e => decide (e.1 ≤ k)) m.entries]
    rw [upperBound, List.getElem?_append_right (Nat.le_add_right _ _), Nat.add_sub_cancel_left, here]
  exact not_le.mp fun le => absurd ((lt_upperBound place k).mpr le) (by omega)

/-- Before it they are not. -/
theorem le_of_mem_front {m : Multimap K V} {k : K} {e : K × V}
    (mem : e ∈ m.entries.takeWhile fun e => e.1 ≤ k) : e.1 ≤ k := by
  simpa using List.mem_takeWhile_imp mem

/-- At the upper bound of the key. -/
def insert (m : Multimap K V) (k : K) (v : V) : Multimap K V where
  entries := (m.entries.takeWhile fun e => e.1 ≤ k) ++ (k, v) :: m.entries.dropWhile fun e => e.1 ≤ k
  sorted := by
    rw [List.pairwise_append, List.pairwise_cons]
    refine ⟨m.sorted.sublist (List.takeWhile_sublist _), ⟨fun e mem => le_of_lt (lt_of_mem_back mem),
      m.sorted.sublist (List.dropWhile_sublist _)⟩, fun a front b back => ?_⟩
    have low := le_of_mem_front front
    rcases List.mem_cons.mp back with rfl | back
    · exact low
    · exact le_trans low (le_of_lt (lt_of_mem_back back))

/-- Where a position is after an insertion at `u`. -/
def afterInsert (u i : Nat) : Nat := if u ≤ i then i + 1 else i

/-- One entry more, and the others are kept. -/
theorem insert_perm (m : Multimap K V) (k : K) (v : V) :
    (m.insert k v).entries.Perm ((k, v) :: m.entries) := by
  apply List.perm_middle.trans
  rw [List.takeWhile_append_dropWhile]

/-- A position keeps its entry. -/
theorem insert_getElem? (m : Multimap K V) (k : K) (v : V) (i : Nat) :
    (m.insert k v).entries[afterInsert (m.upperBound k) i]? = m.entries[i]? := by
  have whole : m.entries[i]? = ((m.entries.takeWhile fun e => e.1 ≤ k) ++ m.entries.dropWhile fun e => e.1 ≤ k)[i]? := by
    rw [List.takeWhile_append_dropWhile]
  rw [whole, afterInsert, upperBound, insert]
  split_ifs with before
  · rw [List.getElem?_append_right (by omega), List.getElem?_append_right before, Nat.succ_sub before,
      List.getElem?_cons_succ]
  · rw [List.getElem?_append_left (by omega), List.getElem?_append_left (by omega)]

/-- An entry is the new one or was there before. -/
theorem mem_insert {m : Multimap K V} {k : K} {v : V} {e : K × V} :
    e ∈ (m.insert k v).entries ↔ e = (k, v) ∨ e ∈ m.entries := by
  rw [(insert_perm m k v).mem_iff, List.mem_cons]

/-! ## Erasure -/

def erase (m : Multimap K V) (i : Nat) : Multimap K V where
  entries := m.entries.eraseIdx i
  sorted := m.sorted.sublist (List.eraseIdx_sublist _ _)

/-- Where a position is after the entry at `j` is erased; `none` for that entry's own. -/
def afterErase (j i : Nat) : Option Nat := if j < i then some (i - 1) else if j = i then none else some i

/-- The entry at `i` is taken out, and no other. -/
theorem erase_perm {m : Multimap K V} {i : Nat} {e : K × V} (here : m.entries[i]? = some e) :
    m.entries.Perm (e :: (m.erase i).entries) := by
  obtain ⟨inside, rfl⟩ := List.getElem?_eq_some_iff.mp here
  exact (List.getElem_cons_eraseIdx_perm inside).symm

/-- Nothing comes in by it. -/
theorem mem_of_mem_erase {m : Multimap K V} {i : Nat} {e : K × V} (mem : e ∈ (m.erase i).entries) :
    e ∈ m.entries :=
  List.mem_of_mem_eraseIdx mem

/-- A position that is left keeps its entry. -/
theorem erase_getElem? (m : Multimap K V) {i j i' : Nat} (left : afterErase j i = some i') :
    (m.erase j).entries[i']? = m.entries[i]? := by
  unfold afterErase at left
  split_ifs at left with before same
  · cases left
    exact (List.getElem?_eraseIdx_of_ge (by omega)).trans (by rw [Nat.sub_add_cancel (by omega)])
  · cases left
    exact List.getElem?_eraseIdx_of_lt (by omega)

/-! ## Lower bounds and positions -/

/-- A smaller key moves the lower bound on by one. -/
theorem lowerBound_insert (m : Multimap K V) (k k' : K) (v : V) :
    (m.insert k v).lowerBound k' = m.lowerBound k' + if k < k' then 1 else 0 := by
  rw [lowerBound_eq, lowerBound_eq, (insert_perm m k v).countP_eq, List.countP_cons]
  simp

/-- And back, when it is erased. -/
theorem lowerBound_erase {m : Multimap K V} {i : Nat} {e : K × V} (here : m.entries[i]? = some e) (k : K) :
    m.lowerBound k = (m.erase i).lowerBound k + if e.1 < k then 1 else 0 := by
  rw [lowerBound_eq, lowerBound_eq, (erase_perm here).countP_eq, List.countP_cons]
  simp

/-- A position at the first entry of its key stays there when something is inserted. -/
theorem afterInsert_lowerBound {m : Multimap K V} {i : Nat} {e : K × V} (here : m.entries[i]? = some e)
    (first : i = m.lowerBound e.1) (k : K) (v : V) :
    afterInsert (m.upperBound k) i = (m.insert k v).lowerBound e.1 := by
  have side := lt_upperBound here k
  rw [lowerBound_insert, ← first, afterInsert]
  by_cases less : k < e.1
  · rw [if_pos less, if_pos (by rw [← Nat.not_lt, side]; exact not_le.mpr less)]
  · rw [if_neg less, if_neg (by rw [Nat.not_le, side]; exact not_lt.mp less)]
    rfl

/-- The same when another entry is erased, for a position at a lower bound. -/
theorem afterErase_lowerBound {m : Multimap K V} {i i' j : Nat} {e : K × V} {k : K}
    (here : m.entries[j]? = some e) (first : i = m.lowerBound k) (left : afterErase j i = some i') :
    i' = (m.erase j).lowerBound k := by
  have side := lt_lowerBound here k
  have count := lowerBound_erase here k
  rw [← first] at side count
  unfold afterErase at left
  split_ifs at left with before same
  · cases left
    rw [if_pos (side.mp before)] at count
    omega
  · cases left
    rw [if_neg fun less => before (side.mpr less)] at count
    omega

/-- Erasing the first entry of a key brings the next entry to its position. -/
theorem erase_lowerBound {m : Multimap K V} {i : Nat} {e : K × V} (here : m.entries[i]? = some e)
    (first : i = m.lowerBound e.1) : i = (m.erase i).lowerBound e.1 := by
  have count := lowerBound_erase here e.1
  rw [if_neg (lt_irrefl _)] at count
  omega

/-- Past the entries of a key there are none of it. -/
theorem key_ne_of_bounds {m : Multimap K V} {k : K} (none : m.lowerBound k = m.upperBound k) {e : K × V}
    (mem : e ∈ m.entries) : e.1 ≠ k := by
  obtain ⟨i, here⟩ := List.mem_iff_getElem?.mp mem
  intro same
  have between := (key_iff here k).mpr same
  omega

end Multimap

end CodeClips
