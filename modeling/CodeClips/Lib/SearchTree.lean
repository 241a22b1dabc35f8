import Mathlib.Algebra.GroupWithZero.Nat
import Mathlib.Data.List.Perm.Basic
import Mathlib.Data.Tree.Basic
import Mathlib.Order.Lattice

/-!
# Search trees with equal keys

The entries of a binary tree are compared by a key. In a search tree the keys on the left of an
entry are smaller and those on its right are not, so that equal keys are kept: `insert` goes to the
left where the new key is smaller, and adds the entry to those the tree has (`perm_preorder_insert`).
`spine` and `waiting` are what a preorder traversal without recursion finds on its way to the left,
and what it leaves for later.
-/

namespace CodeClips.SearchTree

section Trees
variable {A K : Type*}

/-- The entry, then those on its left, then those on its right. -/
def preorder : BinaryTree A → List A
  | .nil => []
  | .node a l r => a :: (preorder l ++ preorder r)

theorem length_preorder (t : BinaryTree A) : (preorder t).length = t.numNodes := by
  induction t with
  | nil => rfl
  | node a l r left right => rw [preorder, List.length_cons, List.length_append, left, right, BinaryTree.numNodes]

/-- The entries on the way to the left. -/
def spine : BinaryTree A → List A
  | .nil => []
  | .node a l _ => a :: spine l

/-- The trees on the right of that way, the last one first. -/
def waiting : BinaryTree A → List (BinaryTree A)
  | .nil => []
  | .node _ l r => waiting l ++ [r]

theorem spine_append_waiting (t : BinaryTree A) : spine t ++ (waiting t).flatMap preorder = preorder t := by
  induction t with
  | nil => rfl
  | node a l r left =>
    rw [spine, waiting, preorder, List.flatMap_append, List.flatMap_singleton, List.cons_append, ← List.append_assoc, left]

/-- The nodes of the trees, and one more for each tree. -/
def places (ts : List (BinaryTree A)) : Nat := (ts.map fun t => t.numNodes + 1).sum

theorem places_append (ts us : List (BinaryTree A)) : places (ts ++ us) = places ts + places us := by
  rw [places, List.map_append, List.sum_append]
  rfl

theorem places_waiting (t : BinaryTree A) : places (waiting t) = t.numNodes := by
  induction t with
  | nil => rfl
  | node a l r left =>
    rw [waiting, places_append, left, BinaryTree.numNodes, places, List.map_singleton, List.sum_singleton, Nat.add_assoc]

theorem numNodes_lt_of_mem_waiting {t u : BinaryTree A} (later : u ∈ waiting t) : u.numNodes < t.numNodes := by
  induction t with
  | nil => cases later
  | node a l r left =>
    rw [BinaryTree.numNodes]
    rcases List.mem_append.mp later with before | last
    · have less := left before
      omega
    · rw [List.mem_singleton.mp last]
      omega

variable [LinearOrder K]

/-- Smaller keys are on the left, the others on the right. -/
def Ordered (key : A → K) : BinaryTree A → Prop
  | .nil => True
  | .node a l r =>
    Ordered key l ∧ Ordered key r ∧ (∀ b ∈ preorder l, key b < key a) ∧ ∀ b ∈ preorder r, key a ≤ key b

def insert (key : A → K) (x : A) : BinaryTree A → BinaryTree A
  | .nil => .node x .nil .nil
  | .node a l r => if key x < key a then .node a (insert key x l) r else .node a l (insert key x r)

variable {key : A → K} {x : A}

theorem perm_preorder_insert (t : BinaryTree A) : (preorder (insert key x t)).Perm (x :: preorder t) := by
  induction t with
  | nil => exact List.Perm.refl [x]
  | node a l r left right =>
    rw [insert]
    split_ifs with smaller
    · have front := (left.append_right (preorder r)).cons a
      exact front.trans (List.Perm.swap x a _)
    · have behind : (preorder l ++ preorder (insert key x r)).Perm (x :: (preorder l ++ preorder r)) :=
        (right.append_left (preorder l)).trans List.perm_middle
      exact (behind.cons a).trans (List.Perm.swap x a _)

/-- **Insertion** keeps the order. -/
theorem ordered_insert {t : BinaryTree A} (tree : Ordered key t) : Ordered key (insert key x t) := by
  induction t with
  | nil => exact ⟨trivial, trivial, List.forall_mem_nil _, List.forall_mem_nil _⟩
  | node a l r left right =>
    obtain ⟨ordered, ordered', below, above⟩ := tree
    rw [insert]
    split_ifs with smaller
    · refine ⟨left ordered, ordered', fun b member => ?_, above⟩
      rcases List.mem_cons.mp ((perm_preorder_insert l).mem_iff.mp member) with rfl | old
      · exact smaller
      · exact below b old
    · refine ⟨ordered, right ordered', below, fun b member => ?_⟩
      rcases List.mem_cons.mp ((perm_preorder_insert r).mem_iff.mp member) with rfl | old
      · exact le_of_not_gt smaller
      · exact above b old

end Trees

end CodeClips.SearchTree
