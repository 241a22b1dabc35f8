import CodeClips.Lib.Trim
import CodeClips.Sds.Format

/-!
# `sdstrim`

Two scans move towards each other over the bytes that `strchr` finds in the set, and what is
between them is moved to the front. `strchr` finds the NUL behind the set as well, so the string
is trimmed by a larger set than it was asked for (`sdstrim_spec`).
-/

namespace CodeClips.Sds

open Trim

/-- Whether `strchr` finds a byte: the NUL behind the characters can be found too. -/
def strchr (cset : List Byte) (c : Byte) : Bool := (cset ++ [0]).contains c

section Scans
variable (buf cset : List Byte)

/-- The scan from the front; `stop` is the place behind `end`. -/
def skipFront (sp stop : Nat) : Nat :=
  if sp < stop ∧ strchr cset (buf.getD sp 0) then skipFront (sp + 1) stop else sp
termination_by stop - sp

/-- The scan from the back; the last byte that stays is the one before `ep`. -/
def skipBack (sp ep : Nat) : Nat :=
  if sp + 1 < ep ∧ strchr cset (buf.getD (ep - 1) 0) then skipBack sp (ep - 1) else ep
termination_by ep

end Scans

def sdstrim (s : Allocated) (cset : List Byte) : Allocated :=
  let sp := skipFront s.buf cset 0 (sdslen s.tosdshdr)
  let ep := skipBack s.buf cset sp (sdslen s.tosdshdr)
  let len := if ep ≤ sp then 0 else ep - sp
  let buf := if sp = 0 then s.buf else blit s.buf 0 (slice s.buf sp len)
  { len := BitVec.ofNat 32 len
    free := s.free + BitVec.ofNat 32 (sdslen s.tosdshdr - len)
    buf := blit buf len [0] }

/-- What is left is the longest piece that neither begins nor ends in the set, in the same allocation. -/
structure Trimmed (s s' : Allocated) (cset bytes : List Byte) : Prop where
  content : ∃ t, IsTrim (· ∈ cset) bytes t ∧ s'.Holds t
  sum : sdslen s'.tosdshdr + s'.free.toNat = sdslen s.tosdshdr + s.free.toNat
  allocation : s'.buf.length = s.buf.length

variable {s : Allocated} {bytes buf cset : List Byte}

/-! ## The scans -/

theorem skipFront_spec {done todo rest : List Byte} (whole : buf = done ++ todo ++ rest) :
    ∃ front t, todo = front ++ t ∧ (∀ c ∈ front, strchr cset c = true) ∧ (∀ c ∈ t.head?, ¬ strchr cset c = true) ∧
      skipFront buf cset done.length (done ++ todo).length = done.length + front.length := by
  induction todo generalizing done with
  | nil =>
    refine ⟨[], [], rfl, by simp, by simp, ?_⟩
    rw [skipFront, if_neg (by simp)]
    rfl
  | cons c todo ih =>
    have here : buf.getD done.length 0 = c := by simp [whole]
    rw [skipFront, here]
    split_ifs with found
    · obtain ⟨front, t, rfl, inFront, head, place⟩ := @ih (done ++ [c]) (by simp [whole])
      refine ⟨c :: front, t, rfl, List.forall_mem_cons.mpr ⟨found.2, inFront⟩, head, ?_⟩
      rw [List.length_append, List.length_singleton, ← List.append_cons] at place
      rw [place, List.length_cons]
      omega
    · refine ⟨[], c :: todo, rfl, by simp, ?_, rfl⟩
      rintro c' ⟨⟩ found'
      exact found ⟨by simp, found'⟩

theorem skipBack_spec {front t rest : List Byte} (whole : buf = front ++ t ++ rest)
    (head : ∀ c ∈ t.head?, ¬ strchr cset c = true) :
    ∃ t' back, t = t' ++ back ∧ Bare (strchr cset · = true) t' ∧ (∀ c ∈ back, strchr cset c = true) ∧
      skipBack buf cset front.length (front ++ t).length = front.length + t'.length := by
  induction t using List.reverseRecOn generalizing rest with
  | nil =>
    refine ⟨[], [], rfl, Bare.nil, by simp, ?_⟩
    rw [skipBack, if_neg (by simp)]
    simp
  | append_singleton t c ih =>
    have here : buf.getD ((front ++ (t ++ [c])).length - 1) 0 = c := by
      simp [whole, List.getD_eq_getElem?_getD]
    rw [skipBack, here]
    split_ifs with found
    · have some : t ≠ [] := by
        rintro rfl
        simp at found
      rw [List.head?_append_of_ne_nil _ some] at head
      obtain ⟨t', back, rfl, bare, inBack, place⟩ := @ih (c :: rest) (by simp [whole]) head
      refine ⟨t', back ++ [c], by simp, bare, ?_, ?_⟩
      · rintro c' member
        rcases List.mem_append.mp member with member | member
        · exact inBack c' member
        · rw [List.mem_singleton.mp member]
          exact found.2
      · rw [← place]
        congr 1
        simp only [List.length_append, List.length_singleton]
        omega
    · refine ⟨t ++ [c], [], by simp, ⟨head, ?_⟩, by simp, by simp⟩
      rw [List.getLast?_concat]
      rintro c' ⟨⟩ found'
      cases t with
      | nil => exact head c rfl found'
      | cons c' t => exact found ⟨by simp, found'⟩

/-! ## The function -/

/-- The string is trimmed by the set with a NUL in it, and `free` is counted modulo `2^32`. -/
theorem sdstrim_spec (holds : s.Holds bytes) (cset : List Byte) :
    ∃ t, Trims (strchr cset · = true) bytes t ∧ (sdstrim s cset).Holds t ∧
      (sdstrim s cset).buf.length = s.buf.length ∧
      (sdstrim s cset).free.toNat = (s.free.toNat + (bytes.length - t.length)) % 2 ^ 32 := by
  obtain ⟨len, rest, whole⟩ := holds
  have bound := s.len.isLt
  obtain ⟨front, u, rfl, inFront, head, place⟩ := @skipFront_spec s.buf cset [] bytes (0 :: rest) whole
  obtain ⟨t, back, rfl, bare, inBack, place'⟩ := @skipBack_spec s.buf cset front u (0 :: rest) whole head
  have count : (if front.length + t.length ≤ front.length then 0 else front.length + t.length - front.length) =
      t.length := by
    split_ifs <;> omega
  rw [List.length_nil, List.nil_append, Nat.zero_add, ← len] at place
  rw [← len] at place'
  have moved : ∃ behind, (if front.length = 0 then s.buf else blit s.buf 0 (slice s.buf front.length t.length)) =
      t ++ behind ∧ (t ++ behind).length = s.buf.length ∧ behind ≠ [] := by
    split_ifs with first
    · have none := List.length_eq_zero_iff.mp first
      exact ⟨back ++ 0 :: rest, by simp [whole, none], by simp [whole, none], by simp⟩
    · have piece : slice s.buf front.length t.length = t := by
        rw [slice, whole, List.append_assoc, List.append_assoc, List.drop_left, List.take_left]
      rw [piece, blit_zero]
      refine ⟨_, rfl, ?_, ?_⟩
      · rw [← blit_zero, length_blit]
        simp only [whole, List.length_append]
        omega
      · rw [← List.length_pos_iff, List.length_drop, whole]
        simp only [List.length_append, List.length_cons]
        omega
  obtain ⟨behind, moved, length, some⟩ := moved
  have trims : Trims (strchr cset · = true) (front ++ (t ++ back)) t :=
    ⟨⟨front, back, by rw [List.append_assoc], inFront, inBack⟩, bare⟩
  have shorter := trims.isTrim.piece.length_le
  have small : t.length < 2 ^ 32 := by
    rw [sdslen] at len
    omega
  refine ⟨t, trims, ⟨?_, ?_⟩, ?_, ?_⟩
  · rw [sdstrim, sdslen, place, place', count, BitVec.toNat_ofNat, Nat.mod_eq_of_lt small]
  · rw [sdstrim, place, place', count, moved, blit_append]
    exact ⟨_, List.append_assoc _ _ _⟩
  · rw [sdstrim, place, place', count, moved, length_blit, length]
    have inside := List.length_pos_iff.mpr some
    rw [List.length_append, List.length_singleton]
    omega
  · rw [sdstrim, place, place', count, BitVec.toNat_add, BitVec.toNat_ofNat, Nat.add_mod_mod, len]

theorem strchr_iff {c : Byte} : strchr cset c = true ↔ c ∈ cset ∨ c = 0 := by simp [strchr]

/-- **Trimming** is right exactly where neither the first nor the last byte outside of the set is a NUL, and `free`
has place for the bytes that are cut off. -/
theorem sdstrim_right_iff (holds : s.Holds bytes) (cset : List Byte) :
    Trimmed s (sdstrim s cset) cset bytes ↔
      bytes.find? (· ∉ cset) ≠ some 0 ∧ bytes.reverse.find? (· ∉ cset) ≠ some 0 ∧
        s.free.toNat + cut (· ∈ cset) bytes < 2 ^ 32 := by
  obtain ⟨t', trims', holds', allocation, free⟩ := sdstrim_spec holds cset
  obtain ⟨t, trims⟩ := exists_trims (· ∈ cset) bytes
  have bound := s.free.isLt
  have same : t' = t ↔ bytes.find? (· ∉ cset) ≠ some 0 ∧ bytes.reverse.find? (· ∉ cset) ≠ some 0 := by
    rw [← trims.head?_eq, ← trims.getLast?_eq]
    constructor
    · rintro rfl
      exact ⟨fun zero => trims'.bare.head 0 zero (strchr_iff.mpr (.inr rfl)),
        fun zero => trims'.bare.last 0 zero (strchr_iff.mpr (.inr rfl))⟩
    · rintro ⟨first, last⟩
      have bare : Bare (strchr cset · = true) t := by
        refine ⟨?_, ?_⟩
        · rintro c member found
          rcases strchr_iff.mp found with inside | rfl
          · exact trims.bare.head c member inside
          · exact first member
        · rintro c member found
          rcases strchr_iff.mp found with inside | rfl
          · exact trims.bare.last c member inside
          · exact last member
      exact trims'.isTrim.unique_of_trims (trims.mono (fun c inside => strchr_iff.mpr (.inl inside)) bare)
  have lengths := trims.length_add_cut
  rw [← and_assoc, ← same]
  constructor
  · rintro ⟨⟨u, trim, holdsU⟩, sum, -⟩
    rw [holds'.len, holds.len, free] at sum
    have equal : t' = t := by
      rw [← bytes_of_holds holds', bytes_of_holds holdsU]
      exact trim.unique_of_trims trims
    subst equal
    refine ⟨rfl, ?_⟩
    omega
  · rintro ⟨rfl, fits⟩
    refine ⟨⟨t', trims.isTrim, holds'⟩, ?_, allocation⟩
    rw [holds'.len, holds.len, free, Nat.mod_eq_of_lt (by omega)]
    omega

/-- The string of the `sds` for some bytes. -/
def exactly (bytes : List Byte) : Allocated := { len := BitVec.ofNat 32 bytes.length, free := 0, buf := bytes ++ [0] }

/-- Two bytes on either side. -/
theorem sdstrim_right_iff_both :
    Trimmed (exactly [1, 2, 0, 3, 1]) (sdstrim (exactly [1, 2, 0, 3, 1]) [1]) [1] [1, 2, 0, 3, 1] ↔
      [1, 2, 0, 3, 1].find? (· ∉ [(1 : Byte)]) ≠ some 0 ∧ [1, 2, 0, 3, 1].reverse.find? (· ∉ [(1 : Byte)]) ≠ some 0 ∧
        (exactly [1, 2, 0, 3, 1]).free.toNat + cut (· ∈ [(1 : Byte)]) [1, 2, 0, 3, 1] < 2 ^ 32 :=
  sdstrim_right_iff ⟨rfl, [], rfl⟩ [1]

/-- A NUL at the front is cut off, although it is not in the set. -/
theorem sdstrim_cuts_nul :
    (exactly [0, 2]).Holds [0, 2] ∧ ¬ Trimmed (exactly [0, 2]) (sdstrim (exactly [0, 2]) [1]) [1] [0, 2] := by
  have holds : (exactly [0, 2]).Holds [0, 2] := ⟨rfl, [], rfl⟩
  refine ⟨holds, ?_⟩
  rintro ⟨⟨t, trim, holdsT⟩, -, -⟩
  obtain ⟨t', trims, holdsT', -⟩ := sdstrim_spec holds [1]
  have kept : t' = t := by rw [← bytes_of_holds holdsT', bytes_of_holds holdsT]
  have long := trim.longest [0, 2] List.infix_rfl ⟨by decide, by decide⟩
  have whole : t' = [0, 2] := kept.trans (trim.piece.eq_of_length_le long)
  exact trims.bare.head 0 (by rw [whole]; rfl) rfl

end CodeClips.Sds
