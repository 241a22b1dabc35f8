import CodeClips.Lwan.Hash

/-!
# One bucket

`Holds` says that a bucket holds a list of entries: they fill its first cells, and the array is
a number of whole steps with at least one cell left. Growing, writing the cell behind the last
entry, overwriting an entry, moving the tail down over a deleted one and shrinking all keep it.
-/

namespace CodeClips.Lwan

section Bucket
variable {K V : Type}

structure HashBucket.Holds (bucket : HashBucket K V) (entries : List (HashEntry K V)) : Prop where
  used : bucket.used.toNat = entries.length
  cells : ∃ rest, bucket.entries = entries.map some ++ rest
  total : bucket.entries.length = bucket.total.toNat
  steps : 64 ∣ bucket.total.toNat
  room : entries ≠ [] → entries.length < bucket.total.toNat

variable {bucket : HashBucket K V} {entries : List (HashEntry K V)}

theorem holds_new : ({ entries := [], used := 0, total := 0 } : HashBucket K V).Holds [] :=
  ⟨rfl, ⟨[], rfl⟩, rfl, Nat.dvd_zero 64, fun some => absurd rfl some⟩

/-- The loops read the entries, and never a cell that is not written. -/
theorem read_of_holds (holds : bucket.Holds entries) : bucket.read = some entries := by
  obtain ⟨rest, cells⟩ := holds.cells
  have front : bucket.entries.take bucket.used.toNat = entries.map some := by
    rw [cells, holds.used, ← List.length_map (f := some), List.take_left]
  have written : ∀ l : List (HashEntry K V), (l.map some).mapM id = some l := by
    intro l
    induction l with
    | nil => rfl
    | cons e l ih =>
      rw [List.map_cons, List.mapM_cons, ih]
      rfl
  rw [HashBucket.read, front, written]

/-- The array of a bucket resized to `n` cells, which its entries do not fill. -/
theorem holds_resize (holds : bucket.Holds entries) {total : BitVec 32} (steps : 64 ∣ total.toNat)
    (room : entries.length < total.toNat) :
    ({ bucket with entries := resize bucket.entries total.toNat, total := total } : HashBucket K V).Holds entries := by
  obtain ⟨rest, cells⟩ := holds.cells
  refine ⟨holds.used, ?_, ?_, steps, fun _ => room⟩
  · refine ⟨rest.take (total.toNat - entries.length) ++ List.replicate (total.toNat - bucket.entries.length) none, ?_⟩
    rw [resize, cells, List.take_append, List.take_of_length_le (by rw [List.length_map]; omega), List.length_map,
      List.append_assoc]
  · simp only [resize, List.length_append, List.length_take, List.length_replicate]
    omega

/-- The most entries with which a bucket can still take one more. -/
def bucketMost : Nat := 2 ^ 32 - 65

/-- **Growing**: unless memory fails, the bucket has room for the entry and for a cell behind. -/
theorem grow_of_holds (holds : bucket.Holds entries) (small : entries.length < bucketMost) (fails : Bool) :
    (bucket.grow fails = some none ∧ fails = true) ∨
      ∃ grown, bucket.grow fails = some (some grown) ∧ grown.Holds entries ∧ entries.length + 1 < grown.total.toNat := by
  rw [bucketMost] at small
  have used := holds.used
  obtain ⟨k, steps⟩ := holds.steps
  have next : (bucket.used + 1).toNat = entries.length + 1 := by
    rw [BitVec.toNat_add, used]
    exact Nat.mod_eq_of_lt (by simp; omega)
  rw [HashBucket.grow]
  by_cases full : bucket.used + 1 ≥ bucket.total
  · rw [if_pos full]
    rw [ge_iff_le, BitVec.le_def, next] at full
    have sum : (bucket.total + Lwan.steps).toNat = bucket.total.toNat + 64 := by
      rw [BitVec.toNat_add]
      exact Nat.mod_eq_of_lt (by simp [Lwan.steps]; omega)
    have positive : bucket.total + Lwan.steps ≠ 0 := by
      intro zero
      rw [zero] at sum
      exact absurd sum.symm (by simp)
    dsimp only
    rw [if_neg positive]
    cases fails with
    | true => exact .inl ⟨rfl, rfl⟩
    | false =>
      have room : entries.length + 1 < (bucket.total + Lwan.steps).toNat := by
        by_cases first : entries = []
        · simp [first, sum]
        · have before := holds.room first
          omega
      exact .inr ⟨_, rfl, holds_resize holds (by rw [sum]; omega) (by omega), room⟩
  · rw [if_neg full]
    rw [ge_iff_le, BitVec.le_def, next] at full
    exact .inr ⟨bucket, rfl, holds, by omega⟩

/-- At the limit the new total is 0. -/
theorem grow_at_limit (holds : bucket.Holds entries) (full : entries.length = bucketMost) (fails : Bool) :
    bucket.grow fails = none := by
  rw [bucketMost] at full
  have used := holds.used
  obtain ⟨k, steps⟩ := holds.steps
  have room := holds.room (by rintro rfl; simp at full)
  have most := bucket.total.isLt
  have next : (bucket.used + 1).toNat = entries.length + 1 := by
    rw [BitVec.toNat_add, used]
    exact Nat.mod_eq_of_lt (by simp; omega)
  have total : bucket.total = 4294967232#32 := by
    apply BitVec.eq_of_toNat_eq
    show bucket.total.toNat = 4294967232
    omega
  have grows : bucket.used + 1 ≥ bucket.total := by
    rw [ge_iff_le, BitVec.le_def, next, total]
    show 4294967232 ≤ entries.length + 1
    omega
  rw [HashBucket.grow, if_pos grows, total]
  rfl

/-- **Appending** to the cells. -/
theorem holds_append (holds : bucket.Holds entries) (room : entries.length + 1 < bucket.total.toNat)
    (entry : HashEntry K V) :
    bucket.used.toNat < bucket.entries.length ∧
      ({ bucket with
          entries := bucket.entries.set bucket.used.toNat (some entry)
          used := bucket.used + 1 } : HashBucket K V).Holds (entries ++ [entry]) := by
  obtain ⟨rest, cells⟩ := holds.cells
  have used := holds.used
  have total := holds.total
  have most := bucket.total.isLt
  refine ⟨by omega, ?_, ?_, ?_, holds.steps, fun _ => by simpa using room⟩
  · rw [BitVec.toNat_add, used, List.length_append]
    exact Nat.mod_eq_of_lt (by simp; omega)
  · have some : rest ≠ [] := by
      rintro rfl
      rw [cells, List.append_nil, List.length_map] at total
      omega
    obtain ⟨cell, rest, rfl⟩ := List.exists_cons_of_ne_nil some
    refine ⟨rest, ?_⟩
    have last : bucket.used.toNat = (entries.map Option.some).length := by rw [used, List.length_map]
    rw [cells, last, List.set_append_right _ _ (Nat.le_refl _), Nat.sub_self, List.set_cons_zero]
    simp
  · rw [List.length_set]
    exact total

/-- **Overwriting** one. -/
theorem holds_set (holds : bucket.Holds entries) {i : Nat} (inside : i < entries.length) (entry : HashEntry K V) :
    ({ bucket with entries := bucket.entries.set i (some entry) } : HashBucket K V).Holds (entries.set i entry) := by
  obtain ⟨rest, cells⟩ := holds.cells
  refine ⟨?_, ⟨rest, ?_⟩, ?_, holds.steps, fun _ => ?_⟩
  · rw [List.length_set]
    exact holds.used
  · rw [cells, List.set_append_left _ _ (by rwa [List.length_map]), List.map_set]
  · rw [List.length_set]
    exact holds.total
  · rw [List.length_set]
    exact holds.room (by rintro rfl; simp at inside)

/-- **Deleting** one: the `memmove` stays in the array, and takes the cell behind the last entry
to its place. -/
theorem holds_delete (holds : bucket.Holds entries) {i : Nat} (inside : i < entries.length) :
    i + 1 + (bucket.used.toNat - i) ≤ bucket.entries.length ∧
      ({ bucket with
          entries := blit bucket.entries i (slice bucket.entries (i + 1) (bucket.used.toNat - i))
          used := bucket.used - 1 } : HashBucket K V).Holds (entries.eraseIdx i) := by
  obtain ⟨rest, cells⟩ := holds.cells
  have used := holds.used
  have total := holds.total
  have room := holds.room (by rintro rfl; simp at inside)
  have fits : i + 1 + (bucket.used.toNat - i) ≤ bucket.entries.length := by omega
  have moved : (slice bucket.entries (i + 1) (bucket.used.toNat - i)).length = bucket.used.toNat - i := by
    rw [slice_length]
    omega
  refine ⟨fits, ?_, ?_, ?_, holds.steps, fun _ => ?_⟩
  · have one : (1 : BitVec 32).toNat ≤ bucket.used.toNat := by
      show 1 ≤ _
      omega
    rw [BitVec.toNat_sub_of_le (BitVec.le_def.mpr one), used, List.length_eraseIdx_of_lt inside]
    rfl
  · have front : bucket.entries.take i = (entries.take i).map some := by
      rw [cells, List.take_append_of_le_length (by rw [List.length_map]; omega), List.map_take]
    have tail : slice bucket.entries (i + 1) (bucket.used.toNat - i) =
        (entries.drop (i + 1)).map some ++ rest.take 1 := by
      have length : ((entries.drop (i + 1)).map some).length = entries.length - (i + 1) := by
        rw [List.length_map, List.length_drop]
      rw [slice, cells, List.drop_append_of_le_length (by rw [List.length_map]; omega), ← List.map_drop,
        List.take_append, List.take_of_length_le (by omega), length]
      congr 2
      omega
    refine ⟨rest.take 1 ++ bucket.entries.drop (i + (bucket.used.toNat - i)), ?_⟩
    rw [blit, moved, front, tail, List.eraseIdx_eq_take_drop_succ, List.map_append]
    simp only [List.append_assoc]
  · rw [length_blit (by omega)]
    exact total
  · rw [List.length_eraseIdx_of_lt inside]
    show _ < bucket.total.toNat
    omega

/-- **Shrinking** leaves a cell behind the entries. -/
theorem holds_shrink (holds : bucket.Holds entries) (fails : Bool) : (bucket.shrink fails).Holds entries := by
  have used := holds.used
  have most := bucket.total.isLt
  have sixtyFour : (steps : BitVec 32).toNat = 64 := rfl
  unfold HashBucket.shrink
  dsimp only
  split_ifs with shrinks failed
  · exact holds
  · rw [BitVec.lt_def, BitVec.toNat_add, BitVec.toNat_udiv, BitVec.toNat_udiv, sixtyFour] at shrinks
    have one : (bucket.used.toNat / 64 + (1 : BitVec 32).toNat) % 2 ^ 32 = bucket.used.toNat / 64 + 1 := by
      show (bucket.used.toNat / 64 + 1) % 2 ^ 32 = _
      omega
    rw [one] at shrinks
    have total : ((bucket.used / steps + 1) * steps).toNat = (bucket.used.toNat / 64 + 1) * 64 := by
      rw [BitVec.toNat_mul, BitVec.toNat_add, BitVec.toNat_udiv, sixtyFour, one]
      exact Nat.mod_eq_of_lt (by omega)
    exact holds_resize holds (by rw [total]; exact Nat.dvd_mul_left 64 _) (by rw [total]; omega)
  · exact holds

end Bucket

end CodeClips.Lwan
