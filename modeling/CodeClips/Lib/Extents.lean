import Mathlib.Algebra.GroupWithZero.Nat
import Mathlib.Data.List.Nodup
import Mathlib.Data.List.Perm.Subperm

/-!
# Extents of memory

An extent is an address and a number of bytes. Extents that are apart from each other have no more
bytes together than the range they are in (`sum_bytes_le`), also when their numbers are rounded up,
as long as they begin at multiples of what they are rounded to (`sum_roundUp_le`).
-/

namespace CodeClips

/-- The least multiple that is not less. -/
def roundUp (unit n : Nat) : Nat := (n + (unit - 1)) / unit * unit

section Rounding
variable {unit n m : Nat}

/-- It is the least multiple from `n` on. -/
theorem roundUp_le (multiple : unit ∣ m) (least : n ≤ m) : roundUp unit n ≤ m := by
  obtain ⟨k, rfl⟩ := multiple
  rw [roundUp, Nat.mul_comm]
  apply Nat.mul_le_mul_left
  rcases Nat.eq_zero_or_pos unit with rfl | positive
  · rw [Nat.div_zero]
    exact Nat.zero_le k
  · rw [Nat.div_le_iff_le_mul positive, Nat.mul_comm k]
    omega

end Rounding

/-- A block of memory: where it begins, and its size. -/
structure Extent where
  start : Nat
  bytes : Nat
deriving DecidableEq

namespace Extent

/-- One ends before the other begins. -/
def Apart (e f : Extent) : Prop := e.start + e.bytes ≤ f.start ∨ f.start + f.bytes ≤ e.start

/-- The block lies between two addresses. -/
def Within (lo hi : Nat) (e : Extent) : Prop := lo ≤ e.start ∧ e.start + e.bytes ≤ hi

/-- The block with its size rounded up. -/
def rounded (unit : Nat) (e : Extent) : Extent := { e with bytes := roundUp unit e.bytes }

/-- The addresses of the bytes of a block. -/
def addresses (e : Extent) : List Nat := List.range' e.start e.bytes

variable {e f : Extent} {es : List Extent} {lo hi unit : Nat}

theorem Apart.symm (apart : Apart e f) : Apart f e := Or.symm apart

/-- Blocks that are apart have no byte in common. -/
theorem Apart.disjoint (apart : Apart e f) : List.Disjoint e.addresses f.addresses := by
  intro a inE inF
  rw [addresses, List.mem_range'_1] at inE inF
  rcases apart with before | before <;> omega

/-- **No more bytes** than the range has. -/
theorem sum_bytes_le (apart : es.Pairwise Apart) (inside : ∀ e ∈ es, Within lo hi e) :
    (es.map bytes).sum ≤ hi - lo := by
  have distinct : (es.flatMap addresses).Nodup :=
    List.nodup_flatMap.mpr ⟨fun e _ => List.nodup_range', apart.imp Apart.disjoint⟩
  have range : es.flatMap addresses ⊆ List.range' lo (hi - lo) := by
    intro a member
    obtain ⟨e, inList, inE⟩ := List.mem_flatMap.mp member
    obtain ⟨low, high⟩ := inside e inList
    rw [addresses, List.mem_range'_1] at inE
    rw [List.mem_range'_1]
    omega
  have few := (List.subperm_of_subset distinct range).length_le
  rw [List.length_flatMap, List.length_range'] at few
  simpa only [addresses, List.length_range'] using few

/-- Blocks that begin at multiples stay apart when their sizes are rounded up. -/
theorem Apart.rounded (aligned : unit ∣ e.start) (aligned' : unit ∣ f.start) (apart : Apart e f) :
    Apart (e.rounded unit) (f.rounded unit) := by
  have room {e f : Extent} (aligned : unit ∣ e.start) (aligned' : unit ∣ f.start)
      (before : e.start + e.bytes ≤ f.start) : e.start + roundUp unit e.bytes ≤ f.start := by
    have most := @roundUp_le unit e.bytes (f.start - e.start) (Nat.dvd_sub aligned' aligned) (by omega)
    omega
  exact apart.imp (room aligned aligned') (room aligned' aligned)

/-- And between the two addresses, if the upper one is a multiple. -/
theorem Within.rounded (aligned : unit ∣ e.start) (aligned' : unit ∣ hi) (within : Within lo hi e) :
    Within lo hi (e.rounded unit) := by
  obtain ⟨low, high⟩ := within
  have most := @roundUp_le unit e.bytes (hi - e.start) (Nat.dvd_sub aligned' aligned) (by omega)
  refine ⟨low, ?_⟩
  show e.start + roundUp unit e.bytes ≤ hi
  omega

/-- All the blocks together, rounded up, are no larger than the memory that they lie in. -/
theorem sum_roundUp_le (apart : es.Pairwise Apart) (inside : ∀ e ∈ es, Within lo hi e)
    (aligned : ∀ e ∈ es, unit ∣ e.start) (aligned' : unit ∣ hi) :
    (es.map fun e => roundUp unit e.bytes).sum ≤ hi - lo := by
  have apart' : (es.map (rounded unit)).Pairwise Apart :=
    List.pairwise_map.mpr (apart.imp_of_mem fun left right => Apart.rounded (aligned _ left) (aligned _ right))
  have inside' : ∀ e ∈ es.map (rounded unit), Within lo hi e :=
    List.forall_mem_map.mpr fun e member => (inside e member).rounded (aligned e member) aligned'
  have few := sum_bytes_le apart' inside'
  rwa [List.map_map] at few

end Extent

end CodeClips
