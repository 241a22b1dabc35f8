import Mathlib.Data.List.Basic
import Mathlib.Data.List.SplitLengths

/-!
# Flat buffers, copies and slices

A C array is a list. `blit` is `memcpy` into it, `slice` the bytes a pointer and a
count select. `blit_append` says that copies laid end to end at the front of a buffer
leave their concatenation there, and `slices_from` that the equal slices of a list
followed by its last, shorter slice are the list again. `writeAt` is a copy that has to stay inside of
the buffer. The elements are of any type.
-/

namespace CodeClips

section Buffer
variable {α : Type*}

/-- `memcpy(buf + off, src, src.length)`. -/
def blit (buf : List α) (off : Nat) (src : List α) : List α :=
  buf.take off ++ src ++ buf.drop (off + src.length)

/-- The `len` elements that start at `off`. -/
def slice (buf : List α) (off len : Nat) : List α := (buf.drop off).take len

@[simp] theorem slice_length (buf : List α) (off len : Nat) :
    (slice buf off len).length = min len (buf.length - off) := by
  simp [slice]

/-- The front of a buffer after a copy to its start is what was copied. -/
theorem blit_zero (buf src : List α) : blit buf 0 src = src ++ buf.drop src.length := by
  simp [blit]

/-- A copy placed right after a prefix extends the prefix. -/
theorem blit_append (front src rest : List α) :
    blit (front ++ rest) front.length src = (front ++ src) ++ rest.drop src.length := by
  simp [blit, List.drop_append]

/-- What is sent after such a copy: the prefix and the copied bytes. -/
theorem take_blit_append {front src rest : List α} {off len : Nat} (start : off = front.length)
    (count : len = front.length + src.length) :
    (blit (front ++ rest) off src).take len = front ++ src := by
  subst start count
  rw [blit_append, ← List.length_append, List.take_left]

/-- A copy inside a buffer leaves its length. -/
theorem length_blit {buf src : List α} {off : Nat} (inside : off + src.length ≤ buf.length) :
    (blit buf off src).length = buf.length := by
  simp only [blit, List.length_append, List.length_take, List.length_drop]
  omega

/-- What has been copied to a place is there. -/
theorem slice_blit {buf src : List α} {off : Nat} (inside : off ≤ buf.length) :
    slice (blit buf off src) off src.length = src := by
  have front : (buf.take off).length = off := by
    rw [List.length_take]
    omega
  rw [slice, blit, List.append_assoc, List.drop_append_of_le_length (by omega), List.drop_of_length_le (by omega),
    List.nil_append, List.take_left]

/-! ## Copies that are checked, and other sizes -/

/-- A copy, if it stays inside of the buffer. -/
def writeAt (buf : List α) (off : Nat) (src : List α) : Option (List α) :=
  if off + src.length ≤ buf.length then some (blit buf off src) else none

/-- The buffer at another size; what is new is not set. -/
def resized (junk : Nat → α) (buf : List α) (size : Nat) : List α :=
  buf.take size ++ (List.range' buf.length (size - buf.length)).map junk

theorem writeAt_append {front rest src : List α} {off : Nat} (place : off = front.length)
    (room : src.length ≤ rest.length) : writeAt (front ++ rest) off src = some (front ++ src ++ rest.drop src.length) := by
  have inside : off + src.length ≤ (front ++ rest).length := by
    rw [List.length_append]
    omega
  rw [writeAt, if_pos inside, place, blit_append]

theorem length_writeAt {buf src buf' : List α} {off : Nat} (written : writeAt buf off src = some buf') :
    buf'.length = buf.length := by
  rw [writeAt] at written
  split_ifs at written with inside
  rw [← Option.some.inj written, length_blit inside]

/-- Something behind a front, and one element more behind it. -/
theorem writeAt_closed {front rest src : List α} {off cap : Nat} (z : α) (place : off = front.length)
    (length : (front ++ rest).length = cap + 1) (room : front.length + src.length ≤ cap) :
    ∃ rest', writeAt (front ++ rest) off (src ++ [z]) = some (front ++ src ++ z :: rest') ∧
      (front ++ src ++ z :: rest').length = cap + 1 := by
  have inside : (src ++ [z]).length ≤ rest.length := by
    rw [List.length_append] at length
    rw [List.length_append, List.length_singleton]
    omega
  have written := writeAt_append place inside
  rw [← List.append_assoc, List.append_assoc (front ++ src), List.singleton_append] at written
  exact ⟨_, written, (length_writeAt written).trans length⟩

/-- The same in two copies. -/
theorem writeAt_then_close {front rest src : List α} {off cap : Nat} (z : α) (place : off = front.length)
    (length : (front ++ rest).length = cap + 1) (room : front.length + src.length ≤ cap) :
    ∃ rest', (do let buf ← writeAt (front ++ rest) off src; writeAt buf (off + src.length) [z]) =
        some (front ++ src ++ z :: rest') ∧ (front ++ src ++ z :: rest').length = cap + 1 := by
  have inside : src.length ≤ rest.length := by
    rw [List.length_append] at length
    omega
  have copied := writeAt_append place inside
  have after := (length_writeAt copied).trans length
  obtain ⟨rest', closed, total⟩ := @writeAt_closed α (front ++ src) (rest.drop src.length) [] (off + src.length) cap z
    (by rw [List.length_append, place]) after (by rw [List.length_append, List.length_nil]; exact room)
  rw [List.append_nil] at closed total
  refine ⟨rest', ?_, total⟩
  rw [copied, Option.bind_eq_bind, Option.bind_some]
  exact closed

theorem length_resized (junk : Nat → α) (buf : List α) (size : Nat) : (resized junk buf size).length = size := by
  simp only [resized, List.length_append, List.length_take, List.length_map, List.length_range']
  omega

/-- What a larger size keeps. -/
theorem resized_append (junk : Nat → α) {front : List α} {size : Nat} (inside : front.length ≤ size) (rest : List α) :
    ∃ rest', resized junk (front ++ rest) size = front ++ rest' ∧ rest'.length = size - front.length := by
  have kept : (front ++ rest).take size = front ++ rest.take (size - front.length) := by
    rw [List.take_append, List.take_of_length_le inside]
  have length := length_resized junk (front ++ rest) size
  rw [resized, kept, List.append_assoc] at length ⊢
  refine ⟨_, rfl, ?_⟩
  rw [List.length_append] at length
  omega

/-- A slice in two parts. -/
theorem slice_add (buf : List α) (off m n : Nat) :
    slice buf off (m + n) = slice buf off m ++ slice buf (off + m) n := by
  rw [slice, List.take_add, List.drop_drop]
  rfl

/-- The first element of the `k`-th of pieces that all have `n` elements. -/
theorem getElem?_flatten_of_length {n : Nat} (pos : 0 < n) {pieces : List (List α)}
    (length : ∀ piece ∈ pieces, piece.length = n) (k : Nat) :
    pieces.flatten[n * k]? = pieces[k]?.bind (fun piece => piece[0]?) := by
  induction pieces generalizing k with
  | nil => rfl
  | cons piece pieces ih =>
    have here : piece.length = n := length piece List.mem_cons_self
    have later := ih (fun piece member => length piece (List.mem_cons_of_mem _ member))
    rw [List.flatten_cons]
    cases k with
    | zero =>
      rw [Nat.mul_zero, List.getElem?_append_left (by omega)]
      rfl
    | succ k =>
      rw [List.getElem?_append_right (by rw [here, Nat.mul_add]; omega), here, Nat.mul_add, Nat.mul_one,
        Nat.add_sub_cancel, later k]
      rfl

/-- The equal slices from the `k`-th on, then the last one, are the list from there on. -/
theorem slices_from (l : List α) (n last k m : Nat) (extent : l.length = n * (k + m) + last) :
    (List.range' k m).flatMap (fun i => slice l (n * i) n) ++ slice l (n * (k + m)) last =
      l.drop (n * k) := by
  induction m generalizing k with
  | zero =>
    simp only [List.range'_zero, List.flatMap_nil, List.nil_append, Nat.add_zero, slice]
    apply List.take_of_length_le
    simp [extent]
  | succ m ih =>
    have tail := ih (k + 1) (by rw [extent]; congr 2; omega)
    have shift : k + 1 + m = k + (m + 1) := by omega
    rw [shift] at tail
    have next : l.drop (n * (k + 1)) = (l.drop (n * k)).drop n := by
      rw [List.drop_drop, Nat.mul_add, Nat.mul_one]
    rw [List.range'_succ, List.flatMap_cons, List.append_assoc, tail, next, slice,
      List.take_append_drop]

end Buffer

end CodeClips
