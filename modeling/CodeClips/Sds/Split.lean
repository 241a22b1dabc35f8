import CodeClips.Lib.Outcome
import CodeClips.Lib.Separator
import CodeClips.Sds.Repr
import Mathlib.Algebra.GroupWithZero.Nat
import Mathlib.Algebra.Ring.Int.Defs
import Mathlib.Data.List.Forall2

/-!
# `sdssplitlen` and `sdsjoin`

The splitter scans for the separator and keeps an array of tokens that it doubles ahead of its
use. The size of the array is an `int`; from 1342177280 slots on it cannot be doubled, and what is
asked of the allocator then is more than any has. A run ends without a write outside of the array,
and with a result unless a request is refused (`Refusal`). The tokens are the pieces of the string
(`ends_sdssplitlen`), which `sdsjoin` puts together again (`holds_sdsjoin`).
-/

namespace CodeClips.Sds

open Separator

/-! ## The functions -/

/-- Why a run stops: the allocator refuses a request, or a write is outside of an array. -/
inductive Fault where
  | refused (size : Nat)
  | outside

abbrev Run := Except Fault

/-- The array of tokens: `capacity` entries, of which the first are set. `elements` is their number. -/
structure Tokens where
  slots : BitVec 32
  capacity : Nat
  tokens : List sdshdr

def Tokens.elements (a : Tokens) : Nat := a.tokens.length

/-- `sizeof(sds)*slots`, in a `size_t`. -/
def arraySize (slots : BitVec 32) : Nat := (8 * slots.signExtend 64).toNat

/-- `tokens[elements] = token`, and the next element. -/
def Tokens.write (a : Tokens) (token : sdshdr) : Run Tokens :=
  if a.elements < a.capacity then .ok { a with tokens := a.tokens ++ [token] } else .error .outside

section Allocator
variable (grants : Nat → Bool)

/-- `zmalloc` and `zrealloc`, which do not return without memory. -/
def zmalloc (size : Nat) : Run Unit := if grants size then .ok () else .error (.refused size)

def sdsnewlen (init : List Byte) : Run sdshdr := do
  zmalloc grants (8 + init.length + 1)
  pure { len := BitVec.ofNat 32 init.length, buf := init ++ [0] }

/-- Makes sure that there is room for the next element and the final one. -/
def makeRoom (a : Tokens) : Run Tokens :=
  if a.slots.toInt < a.elements + 2 then do
    let slots := a.slots * 2
    zmalloc grants (arraySize slots)
    pure { a with slots := slots, capacity := arraySize slots / 8 }
  else pure a

/-- The loop, from `j` on: `j < len-(seplen-1)`. It returns where the last token starts as well. -/
def splitFrom (s sep : List Byte) (a : Tokens) (start j : Nat) : Run (Tokens × Nat) :=
  if j + (sep.length - 1) < s.length then do
    let a ← makeRoom grants a
    if (sep.length = 1 ∧ s[j]? = sep[0]?) ∨ slice s j sep.length = sep then
      let token ← sdsnewlen grants (slice s start (j - start))
      let a ← a.write token
      splitFrom s sep a (j + sep.length) (j + (sep.length - 1) + 1)
    else splitFrom s sep a start (j + 1)
  else pure (a, start)
termination_by s.length - j

/-- `none` is the `NULL` for a separator without bytes. -/
def sdssplitlen (s sep : List Byte) : Run (Option (List sdshdr)) :=
  if sep.length < 1 then pure none
  else do
    zmalloc grants (arraySize 5)
    if s.length = 0 then pure (some [])
    else
      let (a, start) ← splitFrom grants s sep { slots := 5, capacity := 5, tokens := [] } 0 0
      let token ← sdsnewlen grants (slice s start (s.length - start))
      let a ← a.write token
      pure (some a.tokens)

end Allocator

/-- `sdscat(s, t)`, of what is before the NUL at `t`. -/
def sdscat (s : sdshdr) (t : List Byte) : sdshdr := sdscatlen s (t.takeWhile (· ≠ 0))

def sdsjoin (argv : List (List Byte)) (sep : List Byte) : sdshdr :=
  argv.zipIdx.foldl (fun join (arg, j) =>
    let join := sdscat join arg
    if j ≠ argv.length - 1 then sdscat join sep else join) sdsempty

/-! ## Where a run ends -/

/-- The allocator has refused a request, which is below `2^63` if `small`. No write is outside. -/
def Refusal (grants : Nat → Bool) (small : Prop) : Fault → Prop
  | .refused size => grants size = false ∧ (small → size < 2 ^ 63)
  | .outside => False

section Ends
variable {grants : Nat → Bool} {small : Prop}

theorem ends_zmalloc {size : Nat} {P : Unit → Prop} (bounded : small → size < 2 ^ 63)
    (granted : grants size = true → P ()) :
    Ends (Refusal grants small) (zmalloc grants size) P := by
  rw [zmalloc]
  split_ifs with grant
  · exact granted grant
  · exact ⟨Bool.eq_false_iff.mpr grant, bounded⟩

theorem ends_sdsnewlen {init : List Byte} (fits : init.length < 2 ^ 31) :
    Ends (Refusal grants small) (sdsnewlen grants init) (·.Holds init) := by
  apply Ends.bind (ends_zmalloc (P := fun _ => True) (by omega) (fun _ => trivial))
  rintro - -
  refine ⟨?_, [], rfl⟩
  show (BitVec.ofNat 32 init.length).toNat = init.length
  rw [BitVec.toNat_ofNat]
  omega

/-! ## The array -/

/-- The array has the slots that are counted, 5 doubled some times, and room for one more token. -/
structure Tokens.Room (a : Tokens) (more : Nat) : Prop where
  slots : ∃ k ≤ 28, a.slots = BitVec.ofNat 32 (5 * 2 ^ k) ∧ a.capacity = 5 * 2 ^ k
  room : a.elements + more ≤ a.capacity

theorem slots_bounds {k : Nat} (most : k ≤ 28) : 5 * 2 ^ k ≤ 5 * 2 ^ 28 ∧ 5 ≤ 5 * 2 ^ k := by
  have high : 2 ^ k ≤ 2 ^ 28 := Nat.pow_le_pow_right (by decide) most
  have low : 0 < 2 ^ k := Nat.pow_pos (by decide)
  omega

theorem toInt_slots {n : Nat} (fits : n < 2 ^ 31) : (BitVec.ofNat 32 n).toInt = n := by
  rw [BitVec.toInt_eq_toNat_of_lt (by rw [BitVec.toNat_ofNat]; omega), BitVec.toNat_ofNat]
  omega

theorem arraySize_of_lt {n : Nat} (fits : n < 2 ^ 31) : arraySize (BitVec.ofNat 32 n) = 8 * n := by
  have positive : (BitVec.ofNat 32 n).msb = false := by
    rw [BitVec.msb_eq_false_iff_two_mul_lt, BitVec.toNat_ofNat]
    omega
  have wide : ((BitVec.ofNat 32 n).signExtend 64).toNat = n := by
    rw [BitVec.signExtend_eq_setWidth_of_msb_false positive, BitVec.toNat_setWidth, BitVec.toNat_ofNat]
    omega
  rw [arraySize, BitVec.toNat_mul, wide]
  show 8 * n % 2 ^ 64 = _
  omega

/-- What is asked for once the slots have wrapped. -/
theorem arraySize_wrapped : 2 ^ 63 ≤ arraySize (BitVec.ofNat 32 (5 * 2 ^ 28) * 2) := by decide

theorem doubled_slots (k : Nat) : BitVec.ofNat 32 (5 * 2 ^ k) * 2 = BitVec.ofNat 32 (5 * 2 ^ (k + 1)) := by
  rw [Nat.pow_succ, ← Nat.mul_assoc]
  exact (BitVec.ofNat_mul (5 * 2 ^ k) 2).symm

/-- The array is made large enough for the next token and the final one, or the request is refused. -/
theorem ends_makeRoom {a : Tokens} (room : a.Room 1) (refuses : ∀ size, grants size = true → size < 2 ^ 63)
    (few : small → a.elements + 2 ≤ 5 * 2 ^ 28) :
    Ends (Refusal grants small) (makeRoom grants a) (fun a' => a'.Room 2 ∧ a'.tokens = a.tokens) := by
  obtain ⟨⟨k, most, slots, capacity⟩, room⟩ := room
  have bounds := slots_bounds most
  rw [makeRoom, slots, toInt_slots (by omega)]
  split_ifs with full
  · rcases Nat.lt_or_eq_of_le most with fewer | rfl
    · have next := slots_bounds (show k + 1 ≤ 28 from fewer)
      have size := arraySize_of_lt (n := 5 * 2 ^ (k + 1)) (by omega)
      rw [doubled_slots]
      dsimp only
      rw [size]
      apply Ends.bind (ends_zmalloc (P := fun _ => True) (by omega) (fun _ => trivial))
      rintro - -
      refine ⟨⟨⟨k + 1, fewer, rfl, by dsimp only; omega⟩, ?_⟩, rfl⟩
      show a.elements + 2 ≤ 8 * (5 * 2 ^ (k + 1)) / 8
      rw [Nat.pow_succ] at next ⊢
      omega
    · apply Ends.bind (ends_zmalloc (P := fun _ => False) ?_ ?_) (fun _ => False.elim)
      · intro little
        have few := few little
        omega
      · intro granted
        exact absurd (refuses _ granted) (Nat.not_lt.mpr arraySize_wrapped)
  · exact ⟨⟨⟨k, most, slots, capacity⟩, by omega⟩, rfl⟩

theorem ends_write {a : Tokens} {more : Nat} (room : a.Room (more + 1)) (token : sdshdr) :
    Ends (Refusal grants small) (a.write token) (fun a' => a'.Room more ∧ a'.tokens = a.tokens ++ [token]) := by
  have inside := room.room
  rw [Tokens.write, if_pos (by omega)]
  refine ⟨⟨room.slots, ?_⟩, rfl⟩
  show (a.tokens ++ [token]).length + more ≤ a.capacity
  rw [List.length_append, List.length_singleton]
  rw [Tokens.elements] at inside
  omega

/-! ## The scan -/

/-- The pieces so far are in the array, and the scan is in the one that begins at `start`. -/
structure Scanned (s sep : List Byte) (a : Tokens) (start j : Nat) : Prop where
  order : start ≤ j
  inside : j ≤ s.length
  split : ∃ found, List.Forall₂ sdshdr.Holds a.tokens found ∧
    pieces sep s = found ++ extend (slice s start (j - start)) (pieces sep (s.drop j))

theorem slice_start_add (s : List Byte) {start j : Nat} (order : start ≤ j) (n : Nat) :
    slice s start (j + n - start) = slice s start (j - start) ++ slice s j n := by
  have count : j + n - start = (j - start) + n := by omega
  have place : start + (j - start) = j := by omega
  rw [count, slice_add, place]

theorem Scanned.advance {s sep : List Byte} {a : Tokens} {start j : Nat} (scanned : Scanned s sep a start j)
    (more : j < s.length) (none : slice s j sep.length ≠ sep) : Scanned s sep a start (j + 1) := by
  obtain ⟨order, -, found, held, split⟩ := scanned
  refine ⟨by omega, more, found, held, ?_⟩
  have here : s.drop j = s[j] :: s.drop (j + 1) := List.drop_eq_getElem_cons more
  have next : slice s j 1 = [s[j]] := by
    rw [slice, here]
    rfl
  have differs : ¬ sep <+: s[j] :: s.drop (j + 1) := by
    rw [← here]
    intro begins
    exact none (List.prefix_iff_eq_take.mp begins).symm
  rw [split, here, pieces_advance differs, extend_extend _ _ (pieces_ne_nil _ _), slice_start_add s order, next]

theorem Scanned.found {s sep : List Byte} {a a' : Tokens} {start j : Nat} {token : sdshdr} (some : sep ≠ [])
    (scanned : Scanned s sep a start j) (more : j + sep.length ≤ s.length) (same : slice s j sep.length = sep)
    (held : token.Holds (slice s start (j - start))) (written : a'.tokens = a.tokens ++ [token]) :
    Scanned s sep a' (j + sep.length) (j + sep.length) := by
  obtain ⟨order, -, found, tokens, split⟩ := scanned
  refine ⟨Nat.le_refl _, more, found ++ [slice s start (j - start)], ?_, ?_⟩
  · rw [written]
    exact List.rel_append tokens (List.Forall₂.cons held List.Forall₂.nil)
  · have here : s.drop j = sep ++ s.drop (j + sep.length) := by
      calc s.drop j = slice s j sep.length ++ (s.drop j).drop sep.length := (List.take_append_drop _ _).symm
        _ = sep ++ s.drop (j + sep.length) := by rw [same, List.drop_drop]
    have empty : slice s (j + sep.length) 0 = [] := List.take_zero
    rw [split, here, pieces_found some, Nat.sub_self, empty, extend_nil (pieces_ne_nil _ _), extend, List.append_nil,
      List.append_assoc, List.singleton_append]

/-- The comparison of one character is that of the separator. -/
theorem found_iff {s sep : List Byte} {j : Nat} (more : j + sep.length ≤ s.length) :
    (sep.length = 1 ∧ s[j]? = sep[0]?) ∨ slice s j sep.length = sep ↔ slice s j sep.length = sep := by
  refine ⟨?_, .inr⟩
  rintro (⟨one, same⟩ | same)
  · obtain ⟨c, rfl⟩ := List.length_eq_one_iff.mp one
    rw [List.length_singleton] at more ⊢
    have here : s.drop j = s[j] :: s.drop (j + 1) := List.drop_eq_getElem_cons more
    rw [List.getElem?_eq_getElem more] at same
    rw [slice, here]
    exact congrArg (fun c => [c]) (Option.some.inj same)
  · exact same

/-- The tokens that are found are at most as many as the pieces. -/
theorem elements_lt_pieces {s sep : List Byte} {a : Tokens} {start j : Nat} (scanned : Scanned s sep a start j) :
    a.elements < (pieces sep s).length := by
  obtain ⟨-, -, found, held, split⟩ := scanned
  have some := List.length_pos_of_ne_nil (extend_ne_nil (slice s start (j - start)) (pieces sep (s.drop j)))
  rw [split, List.length_append, Tokens.elements, held.length_eq]
  omega

/-- What the loop leaves: all pieces but the last, which begins at `start`. -/
structure Finished (s sep : List Byte) (a : Tokens) (start : Nat) : Prop where
  room : a.Room 1
  inside : start ≤ s.length
  split : ∃ found, List.Forall₂ sdshdr.Holds a.tokens found ∧ pieces sep s = found ++ [s.drop start]

/-- Where there is no room for a separator, the rest is the last piece. -/
theorem Scanned.finish {s sep : List Byte} {a : Tokens} {start j : Nat} (scanned : Scanned s sep a start j)
    (room : a.Room 1) (short : s.length - j < sep.length) : Finished s sep a start := by
  obtain ⟨order, inside, found, held, split⟩ := scanned
  refine ⟨room, Nat.le_trans order inside, found, held, ?_⟩
  have last : pieces sep (s.drop j) = [s.drop j] := pieces_short (by rwa [List.length_drop])
  have joined : slice s start (j - start) ++ s.drop j = s.drop start := by
    have place : j = start + (j - start) := by omega
    rw [slice]
    nth_rewrite 2 [place]
    rw [← List.drop_drop, List.take_append_drop]
  rw [split, last, extend, joined]

theorem ends_splitFrom {s sep : List Byte} (some : sep ≠ []) (fits : s.length < 2 ^ 31)
    (refuses : ∀ size, grants size = true → size < 2 ^ 63) (few : small → occurrences sep s + 2 ≤ 5 * 2 ^ 28)
    {a : Tokens} {start j : Nat} (room : a.Room 1) (scanned : Scanned s sep a start j) :
    Ends (Refusal grants small) (splitFrom grants s sep a start j) (fun result => Finished s sep result.1 result.2) := by
  have positive := List.length_pos_of_ne_nil some
  induction n : s.length - j using Nat.strong_induction_on generalizing a start j with
  | _ n ih =>
    subst n
    rw [splitFrom]
    by_cases more : j + (sep.length - 1) < s.length
    · have matched := @found_iff s sep j (by omega)
      have elements := elements_lt_pieces scanned
      have order := scanned.order
      rw [length_pieces] at elements
      rw [if_pos more]
      apply (ends_makeRoom room refuses fun little => by have := few little; omega).bind
      rintro a' ⟨room', kept⟩
      have scanned' : Scanned s sep a' start j := ⟨order, scanned.inside, kept ▸ scanned.split⟩
      by_cases same : slice s j sep.length = sep
      · have short : (slice s start (j - start)).length < 2 ^ 31 := by
          rw [slice_length]
          omega
        have next : j + (sep.length - 1) + 1 = j + sep.length := by omega
        rw [if_pos (matched.mpr same), next]
        apply (ends_sdsnewlen short).bind
        intro token held
        apply (ends_write room' token).bind
        rintro a'' ⟨room'', written⟩
        exact ih _ (by omega) room'' (scanned'.found some (by omega) same held written) rfl
      · rw [if_neg (mt matched.mp same)]
        exact ih _ (by omega) ⟨room'.slots, Nat.le_of_succ_le room'.room⟩ (scanned'.advance (by omega) same) rfl
    · rw [if_neg more]
      exact scanned.finish room (by omega)

variable (small) in
/-- **The tokens** hold the pieces of the string. -/
theorem ends_sdssplitlen {s sep : List Byte} (nonempty : s ≠ []) (some : sep ≠ []) (fits : s.length < 2 ^ 31)
    (refuses : ∀ size, grants size = true → size < 2 ^ 63) (few : small → occurrences sep s + 2 ≤ 5 * 2 ^ 28) :
    Ends (Refusal grants small) (sdssplitlen grants s sep) (fun result => ∃ tokens, result = Option.some tokens ∧
      List.Forall₂ sdshdr.Holds tokens (pieces sep s)) := by
  have positive := List.length_pos_of_ne_nil some
  have size : arraySize 5 < 2 ^ 63 := by decide
  have scanned : Scanned s sep { slots := 5, capacity := 5, tokens := [] } 0 0 := by
    refine ⟨Nat.le_refl 0, Nat.zero_le _, [], List.Forall₂.nil, ?_⟩
    exact (extend_nil (pieces_ne_nil sep s)).symm
  have room : Tokens.Room { slots := 5, capacity := 5, tokens := [] } 1 := ⟨⟨0, by decide, rfl, rfl⟩, by decide⟩
  rw [sdssplitlen, if_neg (by omega)]
  apply (ends_zmalloc (P := fun _ => True) (fun _ => size) (fun _ => trivial)).bind
  rintro - -
  rw [if_neg (fun empty => nonempty (List.length_eq_zero_iff.mp empty))]
  apply (ends_splitFrom some fits refuses few room scanned).bind
  rintro ⟨a, start⟩ ⟨room, inside, found, held, split⟩
  have rest : slice s start (s.length - start) = s.drop start := by
    rw [slice, List.take_of_length_le (by rw [List.length_drop])]
  have short : (slice s start (s.length - start)).length < 2 ^ 31 := by
    rw [slice_length]
    omega
  apply (ends_sdsnewlen short).bind
  intro token last
  apply (ends_write room token).bind
  rintro a' ⟨-, written⟩
  refine ⟨a'.tokens, rfl, ?_⟩
  rw [written, split, ← rest]
  exact List.rel_append held (List.Forall₂.cons last List.Forall₂.nil)

/-- An allocator that has everything below `2^63` refuses nothing, as long as the slots do not wrap. -/
theorem not_refused {s sep : List Byte} (nonempty : s ≠ []) (some : sep ≠ []) (fits : s.length < 2 ^ 31)
    (grants_iff : ∀ size, grants size = true ↔ size < 2 ^ 63) (few : occurrences sep s + 2 ≤ 5 * 2 ^ 28) (size : Nat) :
    sdssplitlen grants s sep ≠ .error (.refused size) := by
  have ends := ends_sdssplitlen True nonempty some fits (fun size => (grants_iff size).mp) (fun _ => few)
  intro refused
  rw [refused] at ends
  obtain ⟨denied, bounded⟩ := ends
  rw [(grants_iff size).mpr (bounded trivial)] at denied
  cases denied

end Ends

/-! ## The join -/

theorem takeWhile_of_noNul {t : List Byte} (noNul : 0 ∉ t) (rest : List Byte) :
    (t ++ 0 :: rest).takeWhile (· ≠ 0) = t := cString_of_buf (s := { len := 0, buf := t ++ 0 :: rest }) rfl noNul

theorem holds_sdscat {s : sdshdr} {bytes t : List Byte} (holds : s.Holds bytes) (noNul : 0 ∉ t) (rest : List Byte)
    (fits : bytes.length + t.length < 2 ^ 32) : (sdscat s (t ++ 0 :: rest)).Holds (bytes ++ t) := by
  rw [sdscat, takeWhile_of_noNul noNul]
  exact holds_sdscatlen holds t fits

/-- The loop of `sdsjoin`, from the `k`-th argument on. -/
theorem holds_join {sep : List Byte} (noNul : 0 ∉ sep) {argc : Nat} {argv : List (List Byte)} {texts : List (List Byte)}
    (terminated : List.Forall₂ (fun arg text => 0 ∉ text ∧ ∃ rest, arg = text ++ 0 :: rest) argv texts) {k : Nat}
    (count : k + argv.length = argc) (some : texts ≠ []) {join : sdshdr} {bytes : List Byte} (holds : join.Holds bytes)
    (fits : (bytes ++ sep.intercalate texts).length < 2 ^ 32) :
    ((argv.zipIdx k).foldl (fun join (arg, j) =>
      let join := sdscat join arg
      if j ≠ argc - 1 then sdscat join (sep ++ [0]) else join) join).Holds (bytes ++ sep.intercalate texts) := by
  induction terminated generalizing k join bytes with
  | nil => exact absurd rfl some
  | @cons arg text argv texts here rest ih =>
    obtain ⟨clean, behind, rfl⟩ := here
    rw [List.length_cons] at count
    rw [List.zipIdx_cons, List.foldl_cons]
    cases texts with
    | nil =>
      cases rest
      rw [List.intercalate_singleton] at fits ⊢
      rw [List.length_append] at fits
      dsimp only
      rw [List.length_nil] at count
      rw [if_neg (by omega)]
      exact holds_sdscat holds clean behind fits
    | cons next texts =>
      have length := rest.length_eq
      rw [List.length_cons] at length
      rw [List.intercalate_cons_cons] at fits ⊢
      simp only [List.length_append] at fits
      have first := holds_sdscat holds clean behind (by omega)
      have second := holds_sdscat first noNul [] (by rw [List.length_append]; omega)
      have more : k ≠ argc - 1 := by omega
      have all := ih (k := k + 1) (by omega) (List.cons_ne_nil _ _) second (by simp only [List.length_append]; omega)
      dsimp only
      rw [if_pos more]
      rwa [List.append_assoc, List.append_assoc, ← List.append_assoc text] at all

theorem holds_sdsjoin {sep : List Byte} (noNul : 0 ∉ sep) {tokens : List sdshdr} {texts : List (List Byte)}
    (held : List.Forall₂ sdshdr.Holds tokens texts) (clean : ∀ text ∈ texts, 0 ∉ text) (some : texts ≠ [])
    (fits : (sep.intercalate texts).length < 2 ^ 32) :
    (sdsjoin (tokens.map sdshdr.buf) (sep ++ [0])).Holds (sep.intercalate texts) := by
  have terminated : List.Forall₂ (fun arg text => 0 ∉ text ∧ ∃ rest, arg = text ++ 0 :: rest)
      (tokens.map sdshdr.buf) texts := by
    rw [List.forall₂_map_left_iff]
    exact (List.forall₂_and_left _ _ |>.mpr ⟨clean, held.flip⟩).flip.imp fun token text both => ⟨both.1, both.2.buf⟩
  have joined := holds_join noNul terminated (k := 0) (Nat.zero_add _) some holds_sdsempty (by rwa [List.nil_append])
  rwa [List.nil_append] at joined

/-- **Split and join**: where no request is refused, the tokens with the separator between them are the
string, none has a separator in it, and there is one more than there are separators. -/
theorem sds_split_join {grants : Nat → Bool} (refuses : ∀ size, grants size = true → size < 2 ^ 63) {s sep : List Byte}
    (nonempty : s ≠ []) (some : sep ≠ []) (noNul : 0 ∉ s) (noNul' : 0 ∉ sep) (fits : s.length < 2 ^ 31)
    (granted : ∀ size, sdssplitlen grants s sep ≠ .error (.refused size)) :
    ∃ tokens, sdssplitlen grants s sep = .ok (Option.some tokens) ∧
      (sdsjoin (tokens.map sdshdr.buf) (sep ++ [0])).Holds s ∧ (∀ token ∈ tokens, ¬ sep <:+: token.bytes) ∧
      tokens.length = occurrences sep s + 1 := by
  have ends := ends_sdssplitlen False nonempty some fits refuses False.elim
  cases run : sdssplitlen grants s sep with
  | error fault =>
    rw [run] at ends
    cases fault with
    | refused size => exact absurd run (granted size)
    | outside => exact ends.elim
  | ok result =>
    rw [run] at ends
    obtain ⟨tokens, rfl, held⟩ := ends
    have whole := intercalate_pieces some s
    have clean : ∀ piece ∈ pieces sep s, 0 ∉ piece := fun _ member zero => noNul (mem_of_mem_pieces some member zero)
    have joined := holds_sdsjoin noNul' held clean (pieces_ne_nil sep s) (by rw [whole]; omega)
    have bytes : tokens.map sdshdr.bytes = pieces sep s := by
      rw [← List.forall₂_eq_eq_eq, List.forall₂_map_left_iff]
      exact held.imp fun _ _ => bytes_of_holds
    rw [whole] at joined
    refine ⟨tokens, rfl, joined, ?_, ?_⟩
    · intro token member
      have piece := List.mem_map_of_mem (f := sdshdr.bytes) member
      rw [bytes] at piece
      exact pieces_clear some s _ piece
    · rw [held.length_eq, length_pieces]

/-- An allocator with everything below `2^63`, and two pieces. -/
theorem sds_split_join_comma :
    ∃ tokens, sdssplitlen (fun size => decide (size < 2 ^ 63)) [char 'a', char ',', char 'b'] [char ','] =
        .ok (Option.some tokens) ∧
      (sdsjoin (tokens.map sdshdr.buf) ([char ','] ++ [0])).Holds [char 'a', char ',', char 'b'] ∧
      (∀ token ∈ tokens, ¬ [char ','] <:+: token.bytes) ∧
      tokens.length = occurrences [char ','] [char 'a', char ',', char 'b'] + 1 := by
  have nonempty : [char 'a', char ',', char 'b'] ≠ [] := List.cons_ne_nil _ _
  have some : [char ','] ≠ [] := List.cons_ne_nil _ _
  have granted := not_refused nonempty some (by decide) (fun _ => decide_eq_true_iff) (by decide)
  exact sds_split_join (fun _ => of_decide_eq_true) nonempty some (by decide) (by decide) (by decide) granted

end CodeClips.Sds
