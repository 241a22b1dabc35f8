import CodeClips.CherryPy.Body
import CodeClips.CherryPy.FileStream

/-!
# A body of known length

With a `Content-Length` the application reads the body as a file of its own: no call gives a byte behind
it, and when the response is sent the connection stands at the next request, whatever the
application has read before.
-/

namespace CodeClips.CherryPy
open Wrapped

/-- A call of the application, with a size that is not negative or none. -/
inductive BodyCall where
  | read (size : Option Nat)
  | readline (size : Option Nat)

def BodyCall.size : Option Nat → Option Int := Option.map Nat.cast

/-- The call as one of a file. -/
def BodyCall.plain : BodyCall → Call
  | .read n => .read (sizeArg (BodyCall.size n))
  | .readline n => .readline (sizeArg (BodyCall.size n))

section Runs
variable {σ : Type} (rfile : FileReader Raised σ UInt8)

def runBody : List BodyCall → EStateM Raised (Wrapped σ KnownLength) (List Bytes)
  | [] => pure []
  | .read n :: calls => do
    let r ← knownLengthRead rfile (BodyCall.size n)
    let rs ← runBody calls
    pure (r :: rs)
  | .readline n :: calls => do
    let r ← knownLengthReadline rfile (BodyCall.size n)
    let rs ← runBody calls
    pure (r :: rs)

variable {rfile} {left : σ → Bytes} {Good : σ → Prop} {s : σ} {w : Wrapped σ KnownLength}

/-- The bytes of the body that are still to come. -/
def bodyLeft (left : σ → Bytes) (w : Wrapped σ KnownLength) : Bytes := (left w.rfile).take w.own.remaining.toNat

/-- `r` has been taken from the file, and what remains is counted. -/
structure Taken (left : σ → Bytes) (Good : σ → Prop) (w : Wrapped σ KnownLength) (r : Bytes) (w' : Wrapped σ KnownLength) :
    Prop where
  stream : left w.rfile = r ++ left w'.rfile
  good : Good w'.rfile
  some_ : 0 ≤ w'.own.remaining
  counted : w.own.remaining = r.length + w'.own.remaining

theorem Taken.bodyLeft {w' : Wrapped σ KnownLength} {r : Bytes} (taken : Taken left Good w r w') :
    bodyLeft left w = r ++ bodyLeft left w' := by
  have some_ := taken.some_
  have counted : w.own.remaining.toNat = r.length + w'.own.remaining.toNat := by
    have counted := taken.counted
    omega
  rw [CherryPy.bodyLeft, taken.stream, counted, List.take_length_add_append, CherryPy.bodyLeft]

theorem Taken.trans {w' w'' : Wrapped σ KnownLength} {r r' : Bytes} (taken : Taken left Good w r w')
    (taken' : Taken left Good w' r' w'') : Taken left Good w (r ++ r') w'' := by
  refine ⟨?_, taken'.good, taken'.some_, ?_⟩
  · rw [taken.stream, taken'.stream, List.append_assoc]
  · rw [taken.counted, taken'.counted, List.length_append]
    omega

theorem Taken.drop {w' : Wrapped σ KnownLength} {r : Bytes} (taken : Taken left Good w r w') :
    (CherryPy.bodyLeft left w).drop r.length = CherryPy.bodyLeft left w' := by
  rw [taken.bodyLeft, List.drop_left]

/-- The bytes that a call with this size may take. -/
def chosen (remaining : Nat) : Option Nat → Nat
  | none => remaining
  | some n => min n remaining

theorem upTo_chosen (n : Option Nat) (remaining : Nat) (t : Bytes) :
    upTo (sizeArg (BodyCall.size n)) (t.take remaining) = t.take (chosen remaining n) := by
  cases n with
  | none => rfl
  | some n => exact (upTo_nat n _).trans List.take_take

theorem atMost_chosen (n : Option Nat) (remaining : Nat) : atMost remaining (BodyCall.size n) = chosen remaining n := by
  cases n with
  | none => rfl
  | some n =>
    show min (n : Int) remaining = ((min n remaining : Nat) : Int)
    omega

theorem chosen_le (n : Option Nat) (remaining : Nat) : chosen remaining n ≤ remaining := by
  cases n with
  | none => exact Nat.le_refl remaining
  | some n => exact Nat.min_le_right n remaining

theorem knownLengthCall_takes {call : Int → EStateM Raised σ Bytes} {t : Bytes} (some_ : 0 ≤ w.own.remaining) (good : Good w.rfile)
    (calls : ∀ m : Nat, ∃ s', call m w.rfile = .ok (t.take m) s' ∧ left w.rfile = t.take m ++ left s' ∧ Good s') (n : Option Nat) :
    ∃ w', knownLengthCall call (BodyCall.size n) w = .ok (upTo (sizeArg (BodyCall.size n)) (t.take w.own.remaining.toNat)) w' ∧
      Taken left Good w (upTo (sizeArg (BodyCall.size n)) (t.take w.own.remaining.toNat)) w' := by
  obtain ⟨remaining, known⟩ := Int.eq_ofNat_of_zero_le some_
  rw [upTo_chosen, knownLengthCall, getOwn_bind, known, Int.toNat_natCast]
  by_cases empty : remaining = 0
  · have none : t.take (chosen remaining n) = [] := by
      rw [empty]
      cases n <;> simp [chosen]
    rw [none, if_pos (by simpa using empty)]
    exact ⟨w, rfl, rfl, good, some_, by simp⟩
  · obtain ⟨s', run, stream, good'⟩ := calls (chosen remaining n)
    have within : (t.take (chosen remaining n)).length ≤ remaining :=
      (List.length_take_le _ _).trans (chosen_le n remaining)
    rw [if_neg (by simpa using empty), atMost_chosen, bind_of_ok (inner_ok run), setOwn_bind]
    refine ⟨_, rfl, stream, good', ?_, ?_⟩
    · show (0 : Int) ≤ remaining - (t.take (chosen remaining n)).length
      omega
    · show w.own.remaining = (t.take (chosen remaining n)).length + (remaining - (t.take (chosen remaining n)).length)
      omega

variable (reads : rfile.Reads newline left Good)
include reads

theorem knownLengthRead_takes (good : Good w.rfile) (some_ : 0 ≤ w.own.remaining) (n : Option Nat) :
    ∃ w', knownLengthRead rfile (BodyCall.size n) w = .ok (upTo (sizeArg (BodyCall.size n)) (bodyLeft left w)) w' ∧
      Taken left Good w (upTo (sizeArg (BodyCall.size n)) (bodyLeft left w)) w' := by
  refine knownLengthCall_takes some_ good (fun m => ?_) n
  have run := reads.read good m
  rwa [upTo_nat] at run

theorem knownLengthReadline_takes (good : Good w.rfile) (some_ : 0 ≤ w.own.remaining) (n : Option Nat) :
    ∃ w', knownLengthReadline rfile (BodyCall.size n) w =
        .ok (lineUpTo newline (sizeArg (BodyCall.size n)) (bodyLeft left w)) w' ∧
      Taken left Good w (lineUpTo newline (sizeArg (BodyCall.size n)) (bodyLeft left w)) w' := by
  rw [lineUpTo, bodyLeft, firstLine_take]
  refine knownLengthCall_takes some_ good (fun m => ?_) n
  have run := reads.readline good m
  rwa [lineUpTo, upTo_nat] at run

/-- The calls read the body as a file of its own. -/
theorem runBody_takes (good : Good w.rfile) (some_ : 0 ≤ w.own.remaining) (calls : List BodyCall) :
    ∃ w' r, runBody rfile calls w = .ok (servings (calls.map BodyCall.plain) (bodyLeft left w)).1 w' ∧
      Taken left Good w r w' := by
  induction calls generalizing w with
  | nil => exact ⟨w, [], rfl, rfl, good, some_, by simp⟩
  | cons call calls ih =>
    cases call with
    | read n =>
      obtain ⟨w₁, run, taken⟩ := knownLengthRead_takes reads good some_ n
      obtain ⟨w', r, runs, taken'⟩ := ih taken.good taken.some_
      refine ⟨w', _ ++ r, ?_, taken.trans taken'⟩
      rw [runBody, bind_of_ok run, bind_of_ok runs, List.map_cons, BodyCall.plain, servings, taken.drop]
      rfl
    | readline n =>
      obtain ⟨w₁, run, taken⟩ := knownLengthReadline_takes reads good some_ n
      obtain ⟨w', r, runs, taken'⟩ := ih taken.good taken.some_
      refine ⟨w', _ ++ r, ?_, taken.trans taken'⟩
      rw [runBody, bind_of_ok run, bind_of_ok runs, List.map_cons, BodyCall.plain, servings, taken.drop]
      rfl

/-- What `send_headers` reads: the body, or all there is. -/
theorem drain_takes (good : Good w.rfile) (some_ : 0 ≤ w.own.remaining) :
    ∃ w', drain rfile w = .ok () w' ∧ Taken left Good w (bodyLeft left w) w' := by
  rw [drain, getOwn_bind]
  by_cases more : 0 < w.own.remaining
  · obtain ⟨n, known⟩ := Int.eq_ofNat_of_zero_le some_
    obtain ⟨w', run, taken⟩ := knownLengthRead_takes reads good some_ (some n)
    have all : upTo (sizeArg (BodyCall.size (some n))) (bodyLeft left w) = bodyLeft left w := by
      rw [bodyLeft, upTo_chosen, known, Int.toNat_natCast, chosen, Nat.min_self]
    rw [all] at run taken
    have run' : knownLengthRead rfile (some (n : Int)) w = .ok (bodyLeft left w) w' := run
    rw [if_pos more, known, bind_of_ok run']
    exact ⟨w', rfl, taken⟩
  · have none : bodyLeft left w = [] := by
      rw [bodyLeft, Int.toNat_of_nonpos (by omega), List.take_zero]
    rw [if_neg more, none]
    exact ⟨w, rfl, rfl, good, some_, by simp⟩

end Runs

variable {S : Settings} {f : FileObject} {fuel : Nat}

/-- A negative size is not bounded by what remains. -/
theorem knownLengthCall_negative {σ : Type} {call : Int → EStateM Raised σ Bytes} {s s' : σ} {r : Bytes} {size : Int} {contentLength : Nat}
    (some_ : 0 < contentLength) (negative : size < 0) (run : call size s = .ok r s') :
    knownLengthCall call (some size) ⟨s, ⟨contentLength⟩⟩ = .ok r ⟨s', ⟨contentLength - r.length⟩⟩ := by
  have least : atMost contentLength (some size) = size := Int.min_eq_left (by omega)
  rw [knownLengthCall, getOwn_bind, if_neg (by simp; omega), least, bind_of_ok (inner_ok run), setOwn_bind]
  rfl

/-- The application's calls, and then the rest of the body: they give what a file of the body alone
would give, and the connection stands behind the body, or at its end. With a negative size `read` takes
all there is on the connection, the next requests with it, and `readline` a line, wherever it ends. -/
theorem known_length_isolates_body (received : 1 ≤ S.rbufsize) (received' : 1 ≤ S.default_bufsize)
    (ready : Ready S fuel f) (contentLength : Nat) :
    (∀ calls : List BodyCall, ∃ w w',
      runBody (fileObject S fuel) calls ⟨f, ⟨contentLength⟩⟩ =
        .ok (servings (calls.map BodyCall.plain) (f.stream.take contentLength)).1 w ∧
      drain (fileObject S fuel) w = .ok () w' ∧ w'.rfile.stream = f.stream.drop contentLength) ∧
    (0 < contentLength → ∀ size < 0,
      (∃ w, knownLengthRead (fileObject S fuel) (some size) ⟨f, ⟨contentLength⟩⟩ = .ok f.stream w ∧ w.rfile.stream = []) ∧
      ∃ w, knownLengthReadline (fileObject S fuel) (some size) ⟨f, ⟨contentLength⟩⟩ = .ok (firstLine newline f.stream) w ∧
        firstLine newline f.stream ++ w.rfile.stream = f.stream) := by
  have reads : (fileObject S fuel).Reads newline FileObject.stream (Ready S fuel) := fileObject_reads received received'
  refine ⟨fun calls => ?_, fun some_ size negative => ⟨?_, ?_⟩⟩
  · obtain ⟨w, r, run, taken⟩ := runBody_takes (w := ⟨f, ⟨contentLength⟩⟩) reads ready (Int.natCast_nonneg _) calls
    obtain ⟨w', drained, taken'⟩ := drain_takes reads taken.good taken.some_
    refine ⟨w, w', run, drained, ?_⟩
    have body : f.stream.take contentLength = r ++ bodyLeft FileObject.stream w := taken.bodyLeft
    have whole : f.stream = (r ++ bodyLeft FileObject.stream w) ++ w'.rfile.stream := (taken.trans taken').stream
    rw [← body] at whole
    exact (List.append_cancel_left ((List.take_append_drop contentLength f.stream).trans whole)).symm
  · obtain ⟨f', run, rest, -⟩ := reads.read ready size
    have all : upTo size f.stream = f.stream := if_pos negative
    rw [all] at run rest
    exact ⟨_, knownLengthCall_negative some_ negative run, List.append_cancel_left (rest.symm.trans (List.append_nil _).symm)⟩
  · obtain ⟨f', run, rest, -⟩ := reads.readline ready size
    have line : lineUpTo newline size f.stream = firstLine newline f.stream := if_pos negative
    rw [line] at run rest
    exact ⟨_, knownLengthCall_negative some_ negative run, rest.symm⟩

/-- A line of a body of four bytes, and what a negative size takes in its place. -/
theorem known_length_isolates_body_two :
    (∃ w w', runBody (fileObject (threeBytes true) 6) [.readline none] ⟨twoPieces, ⟨4⟩⟩ = .ok [[97, 98, 10]] w ∧
      drain (fileObject (threeBytes true) 6) w = .ok () w' ∧ w'.rfile.stream = [100]) ∧
    ∃ w, knownLengthRead (fileObject (threeBytes true) 6) (some (-1)) ⟨twoPieces, ⟨4⟩⟩ = .ok [97, 98, 10, 99, 100] w ∧
      w.rfile.stream = [] := by
  obtain ⟨isolated, negative⟩ := known_length_isolates_body (by decide) (by decide) (twoPieces_ready true) 4
  exact ⟨isolated [.readline none], (negative (by decide) (-1) (by decide)).1⟩

end CodeClips.CherryPy
