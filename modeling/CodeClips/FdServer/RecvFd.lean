import CodeClips.Lib.Buffer
import Mathlib.Tactic.Common

/-!
# Errors over the descriptor-passing socket

`send_err` writes the text of an error and, as the trailer of `send_fd`, a NUL and the code.
`recv_fd` reads chunks into one buffer, hands each to `userfunc`, and takes the byte after the
first NUL for the code. It gives up the chunk that holds the NUL, so text that arrives with
the trailer is lost; and it reads the byte after the NUL even where the chunk ends there.
`recv_fd_iff`: the cuts of the stream for which the error comes out right.
-/

namespace CodeClips.FdServer

abbrev Byte := BitVec 8

def MAXLINE : Nat := 4096

/-! ## The sender -/

/-- The two bytes that `send_fd` sends; a descriptor goes with them as a control message. -/
def send_fd (fd_to_send : Int) : List Byte :=
  if fd_to_send < 0 then
    let code := BitVec.ofInt 8 (-fd_to_send)
    [0, if code = 0 then 1 else code]
  else [0, 0]

/-- What `send_err` writes. -/
def send_err (errcode : Int) (msg : List Byte) : List Byte :=
  msg ++ send_fd (if errcode ≥ 0 then -1 else errcode)

/-! ## The receiver -/

/-- The scan for a NUL in the first `nr` bytes: the byte after the first one. -/
def scan : List Byte → Nat → Option Byte
  | _, 0 => none
  | [], _ + 1 => none
  | b :: rest, nr + 1 => if b = 0 then some (rest.headD 0) else scan rest nr

/-- What `recv_fd` returns, `none` while it waits for more, and the pieces it hands over. -/
structure Received where
  result : Option Int
  pieces : List (List Byte)
deriving DecidableEq, Repr

/-- `recv_fd` on the chunks that `recvmsg` returns. `buf` is the buffer and the byte behind it;
no control message comes with an error. -/
def recv_fd (userfunc : List Byte → Int) (buf : List Byte) : List (List Byte) → Received
  | [] => { result := none, pieces := [] }
  | chunk :: chunks =>
    let buf := blit buf 0 chunk
    let nr := chunk.length
    match scan buf nr with
    | some status => { result := some (if status = 0 then -1 else -(status.toNat : Int)), pieces := [] }
    | none =>
      if userfunc (buf.take nr) ≠ nr then { result := some (-1), pieces := [buf.take nr] }
      else
        let rest := recv_fd userfunc buf chunks
        { rest with pieces := buf.take nr :: rest.pieces }

/-- The chunks in which a stream of bytes can arrive. -/
structure Cut (bytes : List Byte) (chunks : List (List Byte)) : Prop where
  whole : chunks.flatten = bytes
  sizes : ∀ chunk ∈ chunks, chunk ≠ [] ∧ chunk.length ≤ MAXLINE

/-- The error arrives as it was sent. -/
def Received.Right (r : Received) (errcode : Int) (msg : List Byte) : Prop :=
  r.result = some errcode ∧ r.pieces.flatten = msg

/-- The buffer after the chunks. -/
def filled (buf : List Byte) (chunks : List (List Byte)) : List Byte :=
  chunks.foldl (fun buf chunk => blit buf 0 chunk) buf

/-- No text comes in one chunk with the trailer; if the trailer is cut as well, the second byte
of the buffer is the code anyway, or is 0 and the code 1. -/
def TrailerApart (buf msg : List Byte) (code : Byte) (chunks : List (List Byte)) : Prop :=
  ∃ before, before.flatten = msg ∧
    (chunks = before ++ [[0, code]] ∨
      chunks = before ++ [[0], [code]] ∧
        ((filled buf before).getD 1 0 = code ∨ (filled buf before).getD 1 0 = 0 ∧ code = 1))

/-! ## One chunk -/

section Chunk
variable {userfunc : List Byte → Int} {buf : List Byte}

theorem scan_text {text rest : List Byte} (clean : 0 ∉ text) (nr : Nat) (more : text.length ≤ nr) :
    scan (text ++ rest) nr = scan rest (nr - text.length) := by
  induction text generalizing nr with
  | nil => rfl
  | cons b text ih =>
    obtain ⟨other, clean⟩ := not_or.mp fun h => clean (List.mem_cons.mpr h)
    obtain ⟨n, rfl⟩ : ∃ n, nr = n + 1 := ⟨nr - 1, by simp only [List.length_cons] at more; omega⟩
    rw [List.cons_append, scan, if_neg (Ne.symm other)]
    simp only [List.length_cons] at more ⊢
    rw [ih clean n (by omega)]
    congr 1
    omega

/-- A chunk without a NUL goes to `userfunc`. -/
theorem recv_fd_text {chunk : List Byte} (clean : 0 ∉ chunk) (writes : ∀ piece, userfunc piece = piece.length)
    (chunks : List (List Byte)) :
    recv_fd userfunc buf (chunk :: chunks) =
      { recv_fd userfunc (blit buf 0 chunk) chunks with
        pieces := chunk :: (recv_fd userfunc (blit buf 0 chunk) chunks).pieces } := by
  have none : scan (blit buf 0 chunk) chunk.length = none := by
    rw [blit_zero, scan_text clean _ (Nat.le_refl _), Nat.sub_self]
    cases buf.drop chunk.length <;> rfl
  have piece : (blit buf 0 chunk).take chunk.length = chunk := by
    rw [blit_zero, List.take_left]
  have full : userfunc chunk = chunk.length := writes chunk
  rw [recv_fd]
  dsimp only
  rw [none, piece]
  simp [full]

theorem recv_fd_texts {before : List (List Byte)} (clean : 0 ∉ before.flatten)
    (writes : ∀ piece, userfunc piece = piece.length) (chunks : List (List Byte)) :
    recv_fd userfunc buf (before ++ chunks) =
      { recv_fd userfunc (filled buf before) chunks with
        pieces := before ++ (recv_fd userfunc (filled buf before) chunks).pieces } := by
  induction before generalizing buf with
  | nil => rfl
  | cons chunk before ih =>
    rw [List.flatten_cons, List.mem_append, not_or] at clean
    rw [List.cons_append, recv_fd_text clean.1 writes, ih clean.2]
    rfl

/-- The error that a status byte stands for. -/
def errorOf (status : Byte) : Int := if status = 0 then -1 else -(status.toNat : Int)

/-- The chunk with the NUL ends the call, and nothing of it is handed over. -/
theorem recv_fd_nul {text tail : List Byte} (clean : 0 ∉ text) (chunks : List (List Byte)) :
    recv_fd userfunc buf ((text ++ 0 :: tail) :: chunks) =
      { result := some (errorOf ((tail ++ buf.drop (text.length + (tail.length + 1))).headD 0)), pieces := [] } := by
  have found : scan (blit buf 0 (text ++ 0 :: tail)) (text ++ 0 :: tail).length =
      some ((tail ++ buf.drop (text.length + (tail.length + 1))).headD 0) := by
    rw [blit_zero, List.append_assoc, scan_text clean _ (by simp), List.length_append, List.length_cons,
      Nat.add_sub_cancel_left, List.cons_append, scan, if_pos rfl]
  rw [recv_fd]
  dsimp only
  rw [found]
  rfl

variable (buf) in
/-- The text before the chunk with the NUL is handed over, the rest is not. -/
theorem recv_fd_eq {before : List (List Byte)} {text : List Byte} (clean : 0 ∉ before.flatten ++ text)
    (writes : ∀ piece, userfunc piece = piece.length) (tail : List Byte) (chunks : List (List Byte)) :
    recv_fd userfunc buf (before ++ (text ++ 0 :: tail) :: chunks) =
      { result := some (errorOf
          ((tail ++ (filled buf before).drop (text.length + (tail.length + 1))).headD 0))
        pieces := before } := by
  obtain ⟨first, second⟩ := not_or.mp fun h => clean (List.mem_append.mpr h)
  rw [recv_fd_texts first writes, recv_fd_nul second, List.append_nil]

end Chunk

/-! ## The whole error -/

/-- The chunks around the NUL. -/
theorem Cut.split {msg : List Byte} {code : Byte} {chunks : List (List Byte)} (cut : Cut (msg ++ [0, code]) chunks) :
    ∃ before text tail rest, chunks = before ++ (text ++ 0 :: tail) :: rest ∧ before.flatten ++ text = msg ∧
      (tail = [code] ∧ rest = [] ∨ tail = [] ∧ rest = [[code]]) := by
  -- what is left of the stream after the NUL
  have last : ∀ {tail : List Byte} {rest : List (List Byte)}, tail ++ rest.flatten = [code] →
      (∀ chunk ∈ rest, chunk ≠ []) → tail = [code] ∧ rest = [] ∨ tail = [] ∧ rest = [[code]] := by
    intro tail rest whole all
    obtain ⟨rfl, one⟩ | ⟨rfl, none⟩ := List.append_eq_singleton_iff.mp whole
    · obtain _ | ⟨chunk, more⟩ := rest
      · cases one
      · have filled := all chunk List.mem_cons_self
        obtain ⟨rfl, single⟩ | ⟨rfl, none⟩ := List.append_eq_singleton_iff.mp one
        · exact absurd rfl filled
        · obtain _ | ⟨other, more⟩ := more
          · exact .inr ⟨rfl, rfl⟩
          · have empty := (List.append_eq_nil_iff.mp none).1
            exact absurd empty (all other (by simp))
    · obtain _ | ⟨chunk, more⟩ := rest
      · exact .inl ⟨rfl, rfl⟩
      · have empty := (List.append_eq_nil_iff.mp none).1
        exact absurd empty (all chunk List.mem_cons_self)
  have nonempty : ∀ chunk ∈ chunks, chunk ≠ [] := fun chunk mem => (cut.sizes chunk mem).1
  obtain ⟨before, bs, rfl, rfl, right⟩ | ⟨before, text, c, cs, rest, rfl, rfl, right⟩ :=
    List.flatten_eq_append_iff.mp cut.whole
  · -- the NUL begins a chunk
    obtain _ | ⟨chunk, rest⟩ := bs
    · cases right
    · obtain _ | ⟨b, tail⟩ := chunk
      · exact absurd rfl (nonempty [] (by simp))
      · obtain ⟨rfl, whole⟩ := List.cons.inj right
        refine ⟨before, [], tail, rest, rfl, List.append_nil _, last whole.symm ?_⟩
        exact fun chunk mem => nonempty chunk (by simp [mem])
  · obtain ⟨rfl, whole⟩ := List.cons.inj right
    refine ⟨before, text, cs, rest, rfl, rfl, last whole.symm ?_⟩
    exact fun chunk mem => nonempty chunk (by simp [mem])

/-- The byte for a code from -255 to -1. -/
def codeByte (errcode : Int) : Byte := BitVec.ofInt 8 (-errcode)

theorem send_err_eq {errcode : Int} (low : -255 ≤ errcode) (high : errcode ≤ -1) (msg : List Byte) :
    send_err errcode msg = msg ++ [0, codeByte errcode] ∧ codeByte errcode ≠ 0 ∧
      ((codeByte errcode).toNat : Int) = -errcode := by
  unfold codeByte
  have value : ((BitVec.ofInt 8 (-errcode)).toNat : Int) = -errcode := by
    rw [BitVec.toNat_ofInt]
    omega
  have nonzero : BitVec.ofInt 8 (-errcode) ≠ 0 := by
    intro zero
    rw [zero] at value
    simp at value
    omega
  refine ⟨?_, nonzero, value⟩
  have negative : ¬ errcode ≥ 0 := by omega
  rw [send_err, if_neg negative, send_fd, if_pos (by omega)]
  simp only [nonzero, if_false]

theorem errorOf_eq_iff {code : Byte} {errcode : Int} (nonzero : code ≠ 0) (value : (code.toNat : Int) = -errcode)
    (status : Byte) : errorOf status = errcode ↔ status = code ∨ status = 0 ∧ code = 1 := by
  have same : ∀ {x : Byte}, (x.toNat : Int) = -errcode ↔ x = code := by
    intro x
    rw [← value, Int.natCast_inj, BitVec.toNat_inj]
  unfold errorOf
  split_ifs with zero
  · subst zero
    have one : (1 : Byte) = code ↔ errcode = -1 := by
      rw [← same]
      constructor
      · intro h
        simpa using congrArg Neg.neg h.symm
      · intro h
        rw [h]
        rfl
    constructor
    · exact fun h => .inr ⟨rfl, (one.mpr h.symm).symm⟩
    · intro h
      obtain other | ⟨_, is⟩ := h
      · exact absurd other.symm nonzero
      · exact (one.mp is.symm).symm
  · constructor
    · intro h
      exact .inl (same.mp (by omega))
    · intro h
      obtain is | ⟨is, _⟩ := h
      · have := same.mpr is
        omega
      · exact absurd is zero

theorem drop_headD (l : List Byte) (n : Nat) : (l.drop n).headD 0 = l.getD n 0 := by
  rw [List.headD_eq_head?_getD, List.head?_drop, List.getD_eq_getElem?_getD]

/-- **Which cuts bring the error through**: those that keep the trailer apart from the text. -/
theorem recv_fd_iff {userfunc : List Byte → Int} (writes : ∀ piece, userfunc piece = piece.length)
    {msg : List Byte} (clean : 0 ∉ msg) {errcode : Int} (low : -255 ≤ errcode) (high : errcode ≤ -1)
    (buf : List Byte) {chunks : List (List Byte)} (cut : Cut (send_err errcode msg) chunks) :
    (recv_fd userfunc buf chunks).Right errcode msg ↔ TrailerApart buf msg (codeByte errcode) chunks := by
  obtain ⟨trailer, nonzero, value⟩ := send_err_eq low high msg
  rw [trailer] at cut
  have errors := fun status => errorOf_eq_iff nonzero value status
  constructor
  · intro right
    obtain ⟨before, text, tail, rest, rfl, rfl, ends⟩ := cut.split
    rw [recv_fd_eq buf clean writes] at right
    obtain ⟨result, pieces⟩ := right
    -- all of the text has been handed over, so none of it is in the last chunk
    obtain rfl := List.self_eq_append_right.mp pieces
    refine ⟨before, (List.append_nil _).symm, ?_⟩
    obtain ⟨rfl, rfl⟩ | ⟨rfl, rfl⟩ := ends
    · exact .inl rfl
    · refine .inr ⟨rfl, ?_⟩
      rw [← drop_headD]
      exact (errors _).mp (Option.some.inj result)
  · intro ⟨before, all, shape⟩
    have clean' : 0 ∉ before.flatten ++ [] := by rwa [List.append_nil, all]
    obtain rfl | ⟨rfl, holds⟩ := shape
    · have whole := recv_fd_eq buf clean' writes [codeByte errcode] []
      rw [List.nil_append] at whole
      rw [whole]
      exact ⟨congrArg some ((errors _).mpr (.inl rfl)), all⟩
    · have whole := recv_fd_eq buf clean' writes [] [[codeByte errcode]]
      rw [List.nil_append] at whole
      rw [whole]
      refine ⟨congrArg some ((errors _).mpr ?_), all⟩
      rw [← drop_headD] at holds
      exact holds

/-- The text and the trailer in two chunks. -/
theorem recv_fd_apart :
    (recv_fd (fun piece => piece.length) (List.replicate (MAXLINE + 1) 0) [[0x45], [0, 5]]).Right (-5) [0x45] := by
  have cut : Cut (send_err (-5) [0x45]) [[0x45], [0, 5]] := by
    refine ⟨by decide, ?_⟩
    simp [MAXLINE]
  apply (recv_fd_iff (fun _ => rfl) (by decide) (by decide) (by decide) _ cut).mpr
  exact ⟨[[0x45]], rfl, .inl rfl⟩

/-- The text and the trailer in one chunk: the code comes out, the text does not. -/
theorem text_lost :
    let chunks : List (List Byte) := [[0x45, 0, 5]]
    let buf : List Byte := List.replicate (MAXLINE + 1) 0
    Cut (send_err (-5) [0x45]) chunks ∧
    recv_fd (fun piece => piece.length) buf chunks = { result := some (-5), pieces := [] } ∧
    ¬ (recv_fd (fun piece => piece.length) buf chunks).Right (-5) [0x45] := by
  intro chunks buf
  have cut : Cut (send_err (-5) [0x45]) chunks := by
    refine ⟨by decide, ?_⟩
    simp [chunks, MAXLINE]
  have received : recv_fd (fun piece => piece.length) buf chunks = { result := some (-5), pieces := [] } :=
    recv_fd_nul (by decide : (0 : Byte) ∉ [0x45]) []
  refine ⟨cut, received, ?_⟩
  rw [received]
  intro right
  cases right.2

end CodeClips.FdServer
