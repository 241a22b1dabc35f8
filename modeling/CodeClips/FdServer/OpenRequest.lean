import CodeClips.FdServer.RecvFd
import Mathlib.Data.List.TakeWhile
import Mathlib.Logic.Function.Basic

/-!
# Requests to open a file

The client's `csopen` sends the words `open`, path and flag, separated by blanks and ended by
a NUL; the server cuts the request up with `strtok`. The words come out as they went in
(`words_request`), but `parse_args` stores 256 buffers in an array of 50 pointers, and then
clears its caller's pointer in place of the structure, so no request is ever parsed
(`request_never_parsed`). `get_cli_args` clears its result in the same way.
-/

namespace CodeClips.FdServer

open Function

/-- `CL_OPEN` -/
def CL_OPEN : List Byte := [0x6f, 0x70, 0x65, 0x6e]

def blank : Byte := 0x20

/-- `WHITE` -/
def WHITE : List Byte := [blank, 0x09, 0x0a]

def MAXARGC : Nat := 50

def MAXLENARG : Nat := 256

/-! ## The client -/

/-- `%d` -/
def decimal (n : Int) : List Byte :=
  let digits := (Nat.toDigits 10 n.natAbs).map fun c => BitVec.ofNat 8 c.toNat
  if n < 0 then 0x2d :: digits else digits

/-- What `csopen` sends. -/
def request (name : List Byte) (oflag : Int) : List Byte :=
  CL_OPEN ++ [blank] ++ name ++ (blank :: decimal oflag ++ [0])

/-- The bytes that its `sprintf` writes behind `buf[2]`. -/
def sprintfOutside (oflag : Int) : Nat := (blank :: decimal oflag ++ [0]).length - 2

/-! ## The server -/

/-- A C string, without the NUL. -/
def cString (buf : List Byte) : List Byte := buf.takeWhile (· ≠ 0)

/-- `strtok` on what is left of the string: the word and the rest behind its end. -/
def strtok (s : List Byte) : Option (List Byte × List Byte) :=
  match s.dropWhile (· ∈ WHITE) with
  | [] => none
  | b :: s => some ((b :: s).takeWhile (· ∉ WHITE), ((b :: s).dropWhile (· ∉ WHITE)).drop 1)

/-- `client_args`; a place of `argv` that is not set has a null pointer. -/
structure ClientArgs where
  argv : Nat → Option (List Byte)
  argc : Int

/-- The caller's pointer with what it points to, and the places behind the end of `argv` that
have been written. -/
structure Memory where
  cli_args : Option ClientArgs
  outside : List Nat

inductive Fault where
  | nullPointer
deriving DecidableEq, Repr

/-- `(*cli_args)->argv[j] = arg`. -/
def Memory.store (m : Memory) (j : Nat) (arg : Option (List Byte)) : Memory :=
  if j < MAXARGC then { m with cli_args := m.cli_args.map fun a => { a with argv := update a.argv j arg } }
  else { m with outside := m.outside ++ [j] }

/-- The `while` of `parse_args`, with the words still allowed. `none`: too many. -/
def words : Nat → List Byte → Option (List (List Byte))
  | 0, s => match strtok s with
    | none => some []
    | some _ => none
  | room + 1, s => match strtok s with
    | none => some []
    | some (ptr, s) => (words room s).map (ptr :: ·)

/-- `parse_args` from the first `strtok` on: `argc` is a copy of the field, and stays one. -/
def parseWords (buf : List Byte) (m : Memory) : Except Fault Int × Memory :=
  match strtok (cString buf) with
  | none => (.ok (-1), m)
  | some (word, s) =>
    -- `argv[0] = buf`, which now ends with the first word
    let m := m.store 0 (some ((cString buf).takeWhile (· ∈ WHITE) ++ word))
    match words (MAXARGC - 2) s with
    | none => (.ok (-1), m)
    | some args =>
      let m := (List.range args.length).foldl (fun m k => m.store (k + 1) args[k]?) m
      (.ok 0, m.store (args.length + 1) none)

/-- `parse_args`; `heap` is what `malloc` returns for the structure. -/
def parse_args (heap : ClientArgs) (buf : List Byte) (m : Memory) : Except Fault Int × Memory :=
  let m := { m with cli_args := some heap }
  let m := (List.range MAXLENARG).foldl (fun m j => m.store j (some [])) m
  -- `memset(cli_args, 0, sizeof(cli_args))`
  let m := { m with cli_args := none }
  match m.cli_args with
  | none => (.error .nullPointer, m)
  | some _ => parseWords buf m

/-- `open_fd` -/
structure OpenFd where
  path : Option (List Byte)
  oflag : Int

def digitsValue (s : List Byte) : Nat :=
  (s.takeWhile fun b => 0x30 ≤ b.toNat ∧ b.toNat ≤ 0x39).foldl (fun n b => 10 * n + (b.toNat - 0x30)) 0

/-- `atoi` where the string does not begin with white space. -/
def atoi (s : List Byte) : Int :=
  match s with
  | 0x2d :: digits => -(digitsValue digits : Int)
  | 0x2b :: digits => digitsValue digits
  | digits => digitsValue digits

/-- `get_cli_args`, with what `*fd` is in the end. -/
def get_cli_args (args : ClientArgs) : Except Fault Int × Option OpenFd :=
  -- `memset(fd, 0, sizeof(open_fd))` comes after `*fd = malloc(..)`
  let fd : Option OpenFd := none
  if args.argc ≠ 3 ∨ args.argv 0 ≠ some CL_OPEN then (.ok (-1), fd)
  else match fd with
    | none => (.error .nullPointer, fd)
    | some _ => (.ok 0, some { path := args.argv 1, oflag := atoi ((args.argv 2).getD []) })

/-- The request has been parsed into `open`, path and flag. -/
structure Parsed (name : List Byte) (oflag : Int) (parsed : Except Fault Int × Memory) : Prop where
  result : parsed.1 = .ok 0
  inside : parsed.2.outside = []
  args : ∃ args, parsed.2.cli_args = some args ∧ args.argc = 3 ∧ args.argv 0 = some CL_OPEN ∧
    args.argv 1 = some name ∧ args.argv 2 = some (decimal oflag) ∧
    get_cli_args args = (.ok 0, some { path := some name, oflag := oflag })

/-! ## The words -/

/-- A word: not empty, and without white space or NUL. -/
structure IsWord (w : List Byte) : Prop where
  nonempty : w ≠ []
  clean : ∀ b ∈ w, b ∉ WHITE
  noNul : ∀ b ∈ w, b ≠ 0

theorem isWord_open : IsWord CL_OPEN := by
  constructor <;> decide

theorem decimal_range (n : Int) : ∀ b ∈ decimal n, 0x2d ≤ b.toNat ∧ b.toNat ≤ 0x39 := by
  have digits : ∀ b ∈ (Nat.toDigits 10 n.natAbs).map fun c => BitVec.ofNat 8 c.toNat,
      0x2d ≤ b.toNat ∧ b.toNat ≤ 0x39 := by
    intro b mem
    obtain ⟨c, here, rfl⟩ := List.mem_map.mp mem
    have digit := Nat.isDigit_of_mem_toDigits (by decide) (by decide) here
    simp only [Char.isDigit, Bool.and_eq_true, decide_eq_true_eq] at digit
    have low : 48 ≤ c.toNat := digit.1
    have high : c.toNat ≤ 57 := digit.2
    rw [BitVec.toNat_ofNat, Nat.mod_eq_of_lt (by omega)]
    omega
  intro b mem
  simp only [decimal] at mem
  split_ifs at mem
  · obtain rfl | rest := List.mem_cons.mp mem
    · decide
    · exact digits b rest
  · exact digits b mem

theorem isWord_decimal (n : Int) : IsWord (decimal n) := by
  refine ⟨?_, ?_, ?_⟩
  · simp only [decimal]
    split_ifs
    · exact List.cons_ne_nil _ _
    · simp [Nat.toDigits_ne_nil]
  · intro b mem white
    have range := decimal_range n b mem
    simp only [WHITE, List.mem_cons, List.not_mem_nil, or_false] at white
    obtain rfl | rfl | rfl := white
    · exact absurd range (by decide)
    · exact absurd range (by decide)
    · exact absurd range (by decide)
  · intro b mem zero
    have range := decimal_range n b mem
    rw [zero] at range
    exact absurd range (by decide)

/-- `strtok` takes the word in front and the blank behind it. -/
theorem strtok_word {w : List Byte} (word : IsWord w) (s : List Byte) :
    strtok (w ++ blank :: s) = some (w, s) ∧ strtok w = some (w, []) := by
  obtain ⟨b, w, rfl⟩ := List.exists_cons_of_ne_nil word.nonempty
  have black : ∀ c ∈ b :: w, decide (c ∉ WHITE) = true := fun c mem => decide_eq_true (word.clean c mem)
  have front : b ∉ WHITE := word.clean b List.mem_cons_self
  constructor
  · have taken : ((b :: w) ++ blank :: s).takeWhile (· ∉ WHITE) = b :: w := by
      rw [List.takeWhile_append_of_pos black, List.takeWhile_cons_of_neg (by decide), List.append_nil]
    have left : ((b :: w) ++ blank :: s).dropWhile (· ∉ WHITE) = blank :: s := by
      rw [List.dropWhile_append_of_pos black, List.dropWhile_cons_of_neg (by decide)]
    rw [strtok, List.cons_append, List.dropWhile_cons_of_neg (by simpa using front)]
    rw [List.cons_append] at taken left
    dsimp only
    rw [taken, left]
    rfl
  · rw [strtok, List.dropWhile_cons_of_neg (by simpa using front)]
    dsimp only
    rw [List.takeWhile_eq_self_iff.mpr black, List.dropWhile_eq_nil_iff.mpr black]
    rfl

theorem words_some {s rest w : List Byte} (found : strtok s = some (w, rest)) (room : Nat) :
    words (room + 1) s = (words room rest).map (w :: ·) := by
  rw [words, found]

theorem cString_request {name : List Byte} (word : IsWord name) (oflag : Int) :
    cString (request name oflag) = CL_OPEN ++ blank :: (name ++ blank :: decimal oflag) := by
  have text : request name oflag = (CL_OPEN ++ blank :: (name ++ blank :: decimal oflag)) ++ [0] := by
    simp [request]
  have clean : ∀ b ∈ CL_OPEN ++ blank :: (name ++ blank :: decimal oflag), decide (b ≠ 0) = true := by
    intro b mem
    apply decide_eq_true
    simp only [List.mem_append, List.mem_cons] at mem
    obtain first | rfl | second | rfl | third := mem
    · exact isWord_open.noNul b first
    · decide
    · exact word.noNul b second
    · decide
    · exact (isWord_decimal oflag).noNul b third
  rw [cString, text, List.takeWhile_append_of_pos clean, List.takeWhile_cons_of_neg (by decide), List.append_nil]

/-- The words come out of the request as they went in. -/
theorem words_request {name : List Byte} (word : IsWord name) (oflag : Int) :
    ∃ s, strtok (cString (request name oflag)) = some (CL_OPEN, s) ∧
      words (MAXARGC - 2) s = some [name, decimal oflag] := by
  refine ⟨name ++ blank :: decimal oflag, ?_, ?_⟩
  · rw [cString_request word]
    exact (strtok_word isWord_open _).1
  · show words (46 + 1 + 1) _ = _
    rw [words_some (strtok_word word (decimal oflag)).1, words_some (strtok_word (isWord_decimal oflag) []).2]
    rfl

/-! ## What goes wrong -/

/-- The places written behind the end of `argv`. -/
theorem Memory.store_outside (n : Nat) (arg : Option (List Byte)) (m : Memory) :
    ((List.range n).foldl (fun m j => m.store j arg) m).outside =
      m.outside ++ (List.range n).filter (MAXARGC ≤ ·) := by
  induction n with
  | zero => simp
  | succ n ih =>
    rw [List.range_succ, List.foldl_append, List.filter_append, ← List.append_assoc, ← ih]
    simp only [List.foldl_cons, List.foldl_nil, store]
    split_ifs with inside
    · simp [List.filter_cons_of_neg, Nat.not_le.mpr inside]
    · simp [List.filter_cons_of_pos, Nat.not_lt.mp inside]

theorem parse_args_faults (heap : ClientArgs) (buf : List Byte) (m : Memory) :
    (parse_args heap buf m).1 = .error .nullPointer := rfl

theorem parse_args_outside (heap : ClientArgs) (buf : List Byte) (m : Memory) :
    (parse_args heap buf m).2.outside = m.outside ++ (List.range MAXLENARG).filter (MAXARGC ≤ ·) :=
  Memory.store_outside MAXLENARG (some []) { m with cli_args := some heap }

theorem not_parsed {name : List Byte} {oflag : Int} {parsed : Except Fault Int × Memory}
    (faults : parsed.1 = .error .nullPointer) : ¬ Parsed name oflag parsed := by
  intro right
  cases faults.symm.trans right.result

/-- `get_cli_args` never gives a result, even where it is called. -/
theorem get_cli_args_never (args : ClientArgs) (fd : Option OpenFd) : get_cli_args args ≠ (.ok 0, fd) := by
  unfold get_cli_args
  split_ifs
  · intro same
    cases same
  · intro same
    cases same

/-- **No request is parsed**: its words are right, but `parse_args` writes behind `argv` and
ends at a null pointer; and the client has written behind its own buffer before. -/
theorem request_never_parsed {name : List Byte} (word : IsWord name) (oflag : Int) (heap : ClientArgs) :
    let parsed := parse_args heap (request name oflag) { cli_args := none, outside := [] }
    ¬ Parsed name oflag parsed ∧
    (∃ s, strtok (cString (request name oflag)) = some (CL_OPEN, s) ∧
      words (MAXARGC - 2) s = some [name, decimal oflag]) ∧
    parsed.1 = .error .nullPointer ∧ (∀ j, j ∈ parsed.2.outside ↔ MAXARGC ≤ j ∧ j < MAXLENARG) ∧
    0 < sprintfOutside oflag := by
  intro parsed
  have outside : parsed.2.outside = [] ++ (List.range MAXLENARG).filter (MAXARGC ≤ ·) := parse_args_outside ..
  rw [List.nil_append] at outside
  refine ⟨not_parsed (parse_args_faults ..), words_request word oflag, parse_args_faults .., ?_, ?_⟩
  · intro j
    rw [outside, List.mem_filter, List.mem_range]
    simp [and_comm]
  · have digits := List.length_pos_iff.mpr (isWord_decimal oflag).nonempty
    simp only [sprintfOutside, List.length_append, List.length_cons, List.length_nil]
    omega

/-- The request for the file `a`, for reading: `argv` is written to behind its end. -/
theorem request_a_outside :
    50 ∈ (parse_args { argv := fun _ => none, argc := 0 } (request [0x61] 0)
      { cli_args := none, outside := [] }).2.outside := by
  have word : IsWord [0x61] := ⟨by decide, by decide, by decide⟩
  obtain ⟨_, _, _, outside, _⟩ := request_never_parsed word 0 { argv := fun _ => none, argc := 0 }
  exact (outside 50).mpr (by decide)

/-- It is not parsed. -/
theorem request_a_not_parsed :
    ¬ Parsed [0x61] 0 (parse_args { argv := fun _ => none, argc := 0 } (request [0x61] 0)
      { cli_args := none, outside := [] }) :=
  not_parsed (parse_args_faults ..)

end CodeClips.FdServer
