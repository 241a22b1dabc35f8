import Mathlib.Data.List.Basic

/-!
# Reading from a stream

What a read of a text gives, up to a size or up to the end of a line, a size below zero for no
bound. A text arrives in pieces: `recv` gives what there is of the first piece and may fail, `pending` is the
text still to come. A `FileReader` with the operations `read` and `readline` is faithful (`Reads`) to the text
`left` of its state if it gives what is read of that text and goes on behind it.
-/

namespace CodeClips

section Text
variable {α : Type*} [DecidableEq α]

/-- The first line with its end, or the whole text. -/
def firstLine (nl : α) (s : List α) : List α := s.take (s.idxOf nl + 1)

omit [DecidableEq α] in
/-- At most `size` elements, or all of them. -/
def upTo (size : Int) (s : List α) : List α := if size < 0 then s else s.take size.toNat

def lineUpTo (nl : α) (size : Int) (s : List α) : List α := upTo size (firstLine nl s)

variable {nl : α} {s t : List α} {n i : Nat}

omit [DecidableEq α] in
theorem upTo_front (size : Int) (s : List α) : upTo size s <+: s := by
  rw [upTo]
  split
  · exact List.prefix_refl s
  · exact List.take_prefix _ s

theorem firstLine_front (nl : α) (s : List α) : firstLine nl s <+: s := List.take_prefix _ s

theorem lineUpTo_front (nl : α) (size : Int) (s : List α) : lineUpTo nl size s <+: s :=
  (upTo_front size _).trans (firstLine_front nl s)

omit [DecidableEq α] in
/-- What is read of a text, and what is left of it. -/
theorem append_drop_of_front {r : List α} (front : r <+: s) : r ++ s.drop r.length = s := by
  obtain ⟨t, rfl⟩ := front
  rw [List.drop_left]

omit [DecidableEq α] in
theorem upTo_nat (n : Nat) (s : List α) : upTo n s = s.take n := by
  rw [upTo, if_neg (by omega), Int.toNat_natCast]

theorem idxOf_of_find (found : s.idxOf? nl = some i) : s.idxOf nl = i ∧ i < s.length := by
  rw [List.idxOf_eq_getD_idxOf?, found, Option.getD_some]
  exact ⟨rfl, (List.idxOf?_eq_some_iff.mp found).1⟩

/-- It is found at its first place. -/
theorem not_mem_take_of_find (found : s.idxOf? nl = some i) : nl ∉ s.take i := by
  intro inside
  have here := (idxOf_of_find found).1
  have pieces : s.idxOf nl = (s.take i).idxOf nl := by
    conv_lhs => rw [← List.take_append_drop i s]
    exact List.idxOf_append_of_mem inside
  have early := List.idxOf_lt_length_of_mem inside
  rw [List.length_take] at early
  omega

theorem mem_take_of_find (found : s.idxOf? nl = some i) (later : i < n) : nl ∈ s.take n := by
  obtain ⟨here, short⟩ := idxOf_of_find found
  have inside : nl ∈ s := List.idxOf_lt_length_iff.mp (here ▸ short)
  by_contra outside
  have pieces : s.idxOf nl = (s.take n).length + (s.drop n).idxOf nl := by
    conv_lhs => rw [← List.take_append_drop n s]
    exact List.idxOf_append_of_notMem outside
  rw [List.length_take] at pieces
  omega

/-- The line ends in the first piece. -/
theorem firstLine_of_find (found : s.idxOf? nl = some i) (t : List α) : firstLine nl (s ++ t) = s.take (i + 1) := by
  obtain ⟨rfl, short⟩ := idxOf_of_find found
  have inside : nl ∈ s := List.idxOf_lt_length_iff.mp short
  rw [firstLine, List.idxOf_append_of_mem inside, List.take_append_of_le_length short]

theorem firstLine_of_not_mem (outside : nl ∉ s) (t : List α) : firstLine nl (s ++ t) = s ++ firstLine nl t := by
  rw [firstLine, List.idxOf_append_of_notMem outside, Nat.add_assoc, List.take_length_add_append, firstLine]

theorem firstLine_whole (outside : nl ∉ s) : firstLine nl s = s := by
  rw [firstLine, List.idxOf_of_notMem outside]
  exact List.take_of_length_le (Nat.le_succ _)

/-- A line with its end. -/
theorem firstLine_line (outside : nl ∉ s) (t : List α) : firstLine nl (s ++ nl :: t) = s ++ [nl] := by
  rw [firstLine_of_not_mem outside, firstLine, List.idxOf_cons_self]
  rfl

theorem firstLine_of_mem (inside : nl ∈ s) (t : List α) : firstLine nl (s ++ t) = firstLine nl s := by
  obtain ⟨l, rest, rfl, outside⟩ := List.eq_append_cons_of_mem inside
  rw [List.append_assoc, List.cons_append, firstLine_line outside, firstLine_line outside]

theorem getLast?_firstLine : (firstLine nl s).getLast? = some nl ↔ nl ∈ s := by
  constructor
  · intro last
    exact (firstLine_front nl s).subset (List.mem_of_getLast? last)
  · intro inside
    obtain ⟨l, rest, rfl, outside⟩ := List.eq_append_cons_of_mem inside
    rw [firstLine_line outside, List.getLast?_concat]

/-- The line ends within the size. -/
theorem take_firstLine_of_find (found : (s.take n).idxOf? nl = some i) (t : List α) :
    (firstLine nl (s ++ t)).take n = s.take (i + 1) := by
  have short := (idxOf_of_find found).2
  rw [List.length_take] at short
  have pieces : s ++ t = s.take n ++ (s.drop n ++ t) := by rw [← List.append_assoc, List.take_append_drop]
  rw [pieces, firstLine_of_find found, List.take_take, List.take_take]
  congr 1
  omega

/-- The size is reached before the line ends. -/
theorem take_firstLine_of_le (outside : nl ∉ s.take n) (long : n ≤ s.length) (t : List α) :
    (firstLine nl (s ++ t)).take n = s.take n := by
  have pieces : s ++ t = s.take n ++ (s.drop n ++ t) := by rw [← List.append_assoc, List.take_append_drop]
  have exact_ : (s.take n).length = n := by rw [List.length_take, Nat.min_eq_left long]
  rw [pieces, firstLine_of_not_mem outside, List.take_left' exact_]

theorem take_firstLine_of_lt (outside : nl ∉ s.take n) (short : s.length ≤ n) (t : List α) :
    (firstLine nl (s ++ t)).take n = s ++ (firstLine nl t).take (n - s.length) := by
  rw [List.take_of_length_le short] at outside
  rw [firstLine_of_not_mem outside, List.take_append, List.take_of_length_le short]

/-- A line of the beginning of a text. -/
theorem firstLine_take (nl : α) (n : Nat) (s : List α) : firstLine nl (s.take n) = (firstLine nl s).take n := by
  have pieces : s = s.take n ++ s.drop n := (List.take_append_drop n s).symm
  by_cases inside : nl ∈ s.take n
  · have line : firstLine nl s = firstLine nl (s.take n) := by
      conv_lhs => rw [pieces]
      exact firstLine_of_mem inside _
    have short := (firstLine_front nl (s.take n)).length_le
    rw [List.length_take] at short
    rw [line]
    exact (List.take_of_length_le (by omega)).symm
  · rw [firstLine_whole inside]
    conv_rhs => rw [pieces, firstLine_of_not_mem inside]
    rcases Nat.le_total n s.length with long | short
    · rw [List.take_left' (by rw [List.length_take, Nat.min_eq_left long])]
    · rw [List.take_of_length_le short, List.drop_of_length_le short, firstLine, List.take_nil, List.append_nil,
        List.take_of_length_le short]

end Text

section Pieces
variable {α ε : Type*}

/-- A piece of the text, or a failure of the call that waits for it. -/
inductive Arrival (α ε : Type*) where
  | data (first : α) (rest : List α)
  | error (code : ε)

/-- The text still to come. -/
def pending : List (Arrival α ε) → List α
  | [] => []
  | .data first rest :: s => first :: rest ++ pending s
  | .error _ :: s => pending s

/-- The piece without what has been taken from it. -/
def putBack (left : List α) (s : List (Arrival α ε)) : List (Arrival α ε) :=
  match left with
  | [] => s
  | first :: rest => .data first rest :: s

/-- At most `size` elements of the first piece; nothing at the end of the text. -/
def recvPiece (size : Nat) : List (Arrival α ε) → Except ε (List α) × List (Arrival α ε)
  | [] => (.ok [], [])
  | .data first rest :: s => (.ok ((first :: rest).take size), putBack ((first :: rest).drop size) s)
  | .error code :: s => (.error code, s)

@[simp] theorem pending_putBack (left : List α) (s : List (Arrival α ε)) : pending (putBack left s) = left ++ pending s := by
  cases left <;> rfl

end Pieces

/-- A file that is read. -/
structure FileReader (ε σ α : Type) where
  read : Int → EStateM ε σ (List α)
  readline : Int → EStateM ε σ (List α)

namespace FileReader
variable {ε σ α : Type} [DecidableEq α]

/-- In a good state the file gives what is read of the text `left`, and goes on behind it. -/
structure Reads (file : FileReader ε σ α) (nl : α) (left : σ → List α) (Good : σ → Prop) : Prop where
  read : ∀ {s : σ}, Good s → ∀ size, ∃ s', file.read size s = .ok (upTo size (left s)) s' ∧
    left s = upTo size (left s) ++ left s' ∧ Good s'
  readline : ∀ {s : σ}, Good s → ∀ size, ∃ s', file.readline size s = .ok (lineUpTo nl size (left s)) s' ∧
    left s = lineUpTo nl size (left s) ++ left s' ∧ Good s'

end FileReader

/-- A file that wraps another one. -/
structure Wrapped (σ τ : Type) where
  rfile : σ
  own : τ

namespace Wrapped
variable {ε σ τ α : Type}

/-- A call of the file inside. -/
def inner (x : EStateM ε σ α) : EStateM ε (Wrapped σ τ) α := fun w =>
  match x w.rfile with
  | .ok a s => .ok a { w with rfile := s }
  | .error e s => .error e { w with rfile := s }

/-- A call that leaves the file inside alone. -/
def outer (x : EStateM ε τ α) : EStateM ε (Wrapped σ τ) α := fun w =>
  match x w.own with
  | .ok a own => .ok a { w with own := own }
  | .error e own => .error e { w with own := own }

/-- A call while the file inside is wrapped once more. -/
def wrapping {υ : Type} (own : υ) (x : EStateM ε (Wrapped (Wrapped σ υ) τ) α) : EStateM ε (Wrapped σ τ) α := fun w =>
  match x ⟨⟨w.rfile, own⟩, w.own⟩ with
  | .ok a w' => .ok a ⟨w'.rfile.rfile, w'.own⟩
  | .error e w' => .error e ⟨w'.rfile.rfile, w'.own⟩

def getOwn : EStateM ε (Wrapped σ τ) τ := fun w => .ok w.own w

def setOwn (own : τ) : EStateM ε (Wrapped σ τ) Unit := fun w => .ok () { w with own := own }

theorem inner_ok {x : EStateM ε σ α} {w : Wrapped σ τ} {a : α} {s : σ} (returned : x w.rfile = .ok a s) :
    inner x w = .ok a { w with rfile := s } := by
  rw [inner, returned]

theorem outer_ok {x : EStateM ε τ α} {w : Wrapped σ τ} {a : α} {own : τ} (returned : x w.own = .ok a own) :
    outer x w = .ok a { w with own := own } := by
  rw [outer, returned]

theorem wrapping_ok {υ : Type} {own : υ} {x : EStateM ε (Wrapped (Wrapped σ υ) τ) α} {w : Wrapped σ τ} {a : α}
    {w' : Wrapped (Wrapped σ υ) τ} (returned : x ⟨⟨w.rfile, own⟩, w.own⟩ = .ok a w') :
    wrapping own x w = .ok a ⟨w'.rfile.rfile, w'.own⟩ := by
  rw [wrapping, returned]

theorem wrapping_error {υ : Type} {own : υ} {x : EStateM ε (Wrapped (Wrapped σ υ) τ) α} {w : Wrapped σ τ} {e : ε}
    {w' : Wrapped (Wrapped σ υ) τ} (raised : x ⟨⟨w.rfile, own⟩, w.own⟩ = .error e w') :
    wrapping own x w = .error e ⟨w'.rfile.rfile, w'.own⟩ := by
  rw [wrapping, raised]

theorem getOwn_bind {β : Type} (k : τ → EStateM ε (Wrapped σ τ) β) (w : Wrapped σ τ) : (getOwn >>= k) w = k w.own w := rfl

theorem setOwn_bind {β : Type} (own : τ) (k : Unit → EStateM ε (Wrapped σ τ) β) (w : Wrapped σ τ) :
    (setOwn own >>= k) w = k () { w with own := own } := rfl

end Wrapped

/-- A failure is a value. -/
def attempt {ε σ α : Type} (x : EStateM ε σ α) : EStateM ε σ (Except ε α) := fun s =>
  match x s with
  | .ok a s => .ok (.ok a) s
  | .error e s => .ok (.error e) s

/-- A step that has returned. -/
theorem bind_of_ok {ε σ α β : Type} {x : EStateM ε σ α} {s s' : σ} {a : α} (returned : x s = .ok a s')
    (f : α → EStateM ε σ β) : (x >>= f) s = f a s' := by
  show (match x s with
    | .ok a s => f a s
    | .error e s => .error e s) = f a s'
  rw [returned]

theorem bind_of_error {ε σ α β : Type} {x : EStateM ε σ α} {s s' : σ} {e : ε} (raised : x s = .error e s')
    (f : α → EStateM ε σ β) : (x >>= f) s = .error e s' := by
  show (match x s with
    | .ok a s => f a s
    | .error e s => .error e s) = .error e s'
  rw [raised]

end CodeClips
