import CodeClips.Lib.Buffer
import Mathlib.Data.List.Basic
import Mathlib.Tactic.Linarith
import Mathlib.Tactic.Ring

/-!
# Readers and big-endian numbers

A reader consumes a list from its front and may fail. `Reads` says that it consumes exactly
some elements, whatever follows, and yields a value; it composes along the reader's own
sequencing (`Reads.bind`), so that a round trip is proved field by field; `ReadsAt` says what is
taken at a place of any input. Numbers are laid out
with their highest byte first; `fromBigEndian_bigEndian` and `bigEndian_fromBigEndian` are
the two directions.
-/

namespace CodeClips

section Reader
variable {α β γ ε : Type}

/-- A program that takes bytes from the front of what is left, or fails. -/
abbrev Reader (β ε : Type) := StateT (List β) (Except ε)

/-- The next `n` elements, or the failure `short`. -/
def Reader.take (short : ε) (n : Nat) : Reader β ε (List β) := fun input =>
  if n ≤ input.length then .ok (input.take n, input.drop n) else .error short

/-- The reader takes exactly these elements and yields the value. -/
def Reads (r : Reader β ε α) (input : List β) (a : α) : Prop :=
  ∀ rest, r.run (input ++ rest) = .ok (a, rest)

/-- A program that takes nothing. -/
theorem Reads.pure (a : α) : Reads (Pure.pure a : Reader β ε α) [] a := fun _ => rfl

/-- Two programs one after the other, and what they take. -/
theorem Reads.bind {r : Reader β ε α} {f : α → Reader β ε γ} {xs ys : List β} {a : α} {c : γ} (first : Reads r xs a)
    (second : Reads (f a) ys c) : Reads (r >>= f) (xs ++ ys) c := by
  intro rest
  rw [List.append_assoc, StateT.run_bind, first]
  exact second rest

/-- A value computed from what is read. -/
theorem Reads.map {r : Reader β ε α} {xs : List β} {a : α} (reads : Reads r xs a) (f : α → γ) :
    Reads (do let a ← r; Pure.pure (f a)) xs (f a) := by
  rw [← List.append_nil xs]
  exact reads.bind (.pure (f a))

/-- So many bytes are taken. -/
theorem Reads.take {xs : List β} {n : Nat} (short : ε) (length : xs.length = n) : Reads (Reader.take short n) xs xs := by
  intro rest
  have enough : n ≤ (xs ++ rest).length := by
    rw [List.length_append]
    omega
  show Reader.take short n (xs ++ rest) = _
  rw [Reader.take, if_pos enough, List.take_left' length, List.drop_left' length]

/-- A reader that continues after another one. -/
theorem Reads.run_bind {r : Reader β ε α} {f : α → Reader β ε γ} {xs : List β} {a : α} (reads : Reads r xs a)
    (rest : List β) : (r >>= f).run (xs ++ rest) = (f a).run rest := by
  rw [StateT.run_bind, reads]
  rfl

theorem run_bind_of_ok {r : Reader β ε α} {f : α → Reader β ε γ} {input mid : List β} {a : α}
    (ok : r.run input = .ok (a, mid)) : (r >>= f).run input = (f a).run mid := by
  rw [StateT.run_bind, ok]
  rfl

/-- A sequence that ends has two parts that do. -/
theorem run_bind_eq_ok {r : Reader β ε α} {f : α → Reader β ε γ} {input rest : List β} {c : γ}
    (ok : (r >>= f).run input = .ok (c, rest)) :
    ∃ a mid, r.run input = .ok (a, mid) ∧ (f a).run mid = .ok (c, rest) := by
  rw [StateT.run_bind] at ok
  cases first : r.run input with
  | error e =>
    rw [first] at ok
    cases ok
  | ok result =>
    rw [first] at ok
    exact ⟨result.1, result.2, rfl, ok⟩

/-- There were so many, and they are taken from the front. -/
theorem take_eq_ok {short : ε} {n : Nat} {input bytes rest : List β}
    (ok : (Reader.take short n).run input = .ok (bytes, rest)) :
    n ≤ input.length ∧ bytes = input.take n ∧ rest = input.drop n := by
  change Reader.take short n input = _ at ok
  rw [Reader.take] at ok
  split_ifs at ok with enough
  cases ok
  exact ⟨enough, rfl, rfl⟩

/-- The reader takes `n` elements at a place and yields the value. -/
def ReadsAt (r : Reader β ε α) (input : List β) (off n : Nat) (a : α) : Prop :=
  r.run (input.drop off) = .ok (a, input.drop (off + n))

theorem ReadsAt.run_bind {r : Reader β ε α} {input : List β} {off n : Nat} {a : α} (reads : ReadsAt r input off n a)
    (f : α → Reader β ε γ) : (r >>= f).run (input.drop off) = (f a).run (input.drop (off + n)) := run_bind_of_ok reads

theorem ReadsAt.map {r : Reader β ε α} {input : List β} {off n : Nat} {a : α} (reads : ReadsAt r input off n a)
    (f : α → γ) : ReadsAt (do let a ← r; Pure.pure (f a)) input off n (f a) := reads.run_bind fun a => Pure.pure (f a)

/-- The bytes at an offset. -/
theorem ReadsAt.take {input : List β} {off n : Nat} (short : ε) (inside : off + n ≤ input.length) :
    ReadsAt (Reader.take short n) input off n (slice input off n) := by
  have enough : n ≤ (input.drop off).length := by
    rw [List.length_drop]
    omega
  show Reader.take short n (input.drop off) = _
  rw [Reader.take, if_pos enough, List.drop_drop, slice]

/-- Whatever the reader yields has the property. -/
def Yields (r : Reader β ε α) (P : α → Prop) : Prop := ∀ input a rest, r.run input = .ok (a, rest) → P a

/-- A result that is known. -/
theorem Yields.pure {P : α → Prop} {a : α} (holds : P a) : Yields (Pure.pure a : Reader β ε α) P := by
  intro input b rest ok
  cases ok
  exact holds

/-- A sequence yields what its last part does. -/
theorem Yields.bind {P : γ → Prop} {r : Reader β ε α} {f : α → Reader β ε γ} (last : ∀ a, Yields (f a) P) :
    Yields (r >>= f) P := by
  intro input c rest ok
  obtain ⟨a, mid, -, ok⟩ := run_bind_eq_ok ok
  exact last a mid c rest ok

/-- What is read to the end. -/
theorem Reads.run {r : Reader β ε α} {xs : List β} {a : α} (reads : Reads r xs a) : r.run xs = .ok (a, []) := by
  have all := reads []
  rwa [List.append_nil] at all

end Reader

section BigEndian

/-- The `n` low bytes of a number, the highest first. -/
def bigEndian : Nat → Nat → List (BitVec 8)
  | 0, _ => []
  | n + 1, v => BitVec.ofNat 8 (v / 256 ^ n) :: bigEndian n v

/-- The number that the bytes are, the highest one first. -/
def fromBigEndian (bytes : List (BitVec 8)) : Nat := bytes.foldl (fun v b => v * 256 + b.toNat) 0

@[simp] theorem length_bigEndian (n v : Nat) : (bigEndian n v).length = n := by
  induction n with
  | zero => rfl
  | succ n ih => rw [bigEndian, List.length_cons, ih]

/-- The reading may begin with a number. -/
theorem foldl_bytes (bytes : List (BitVec 8)) (v : Nat) :
    bytes.foldl (fun v b => v * 256 + b.toNat) v = v * 256 ^ bytes.length + fromBigEndian bytes := by
  induction bytes generalizing v with
  | nil => simp [fromBigEndian]
  | cons b bytes ih =>
    rw [fromBigEndian, List.foldl_cons, List.foldl_cons, ih, ih, List.length_cons, Nat.pow_succ']
    ring

/-- The first byte is the highest one. -/
theorem fromBigEndian_cons (b : BitVec 8) (bytes : List (BitVec 8)) :
    fromBigEndian (b :: bytes) = b.toNat * 256 ^ bytes.length + fromBigEndian bytes := by
  rw [fromBigEndian, List.foldl_cons, foldl_bytes, Nat.zero_mul, Nat.zero_add]

/-- So many bytes are a number below that power of 256. -/
theorem fromBigEndian_lt (bytes : List (BitVec 8)) : fromBigEndian bytes < 256 ^ bytes.length := by
  induction bytes with
  | nil => exact Nat.one_pos
  | cons b bytes ih =>
    rw [fromBigEndian_cons, List.length_cons, Nat.pow_succ']
    have byte : b.toNat < 256 := b.isLt
    nlinarith

/-- A number is read back if it fits. -/
theorem fromBigEndian_bigEndian (n v : Nat) : fromBigEndian (bigEndian n v) = v % 256 ^ n := by
  induction n with
  | zero => simp [bigEndian, fromBigEndian, Nat.mod_one]
  | succ n ih =>
    have high : v % 256 ^ (n + 1) = v % 256 ^ n + 256 ^ n * (v / 256 ^ n % 256) := by
      rw [Nat.pow_succ, Nat.mod_mul]
    rw [bigEndian, fromBigEndian_cons, ih, length_bigEndian, BitVec.toNat_ofNat, high]
    ring

/-- Equal numbers below the highest byte have equal bytes there. -/
theorem bigEndian_mod (n v : Nat) : bigEndian n (v % 256 ^ n) = bigEndian n v := by
  induction n generalizing v with
  | zero => rfl
  | succ n ih =>
    have low : v % 256 ^ (n + 1) % 256 ^ n = v % 256 ^ n := Nat.mod_mod_of_dvd _ (Nat.pow_dvd_pow _ (Nat.le_succ n))
    have byte : v % 256 ^ (n + 1) / 256 ^ n = v / 256 ^ n % 256 := by rw [Nat.pow_succ, Nat.mod_mul_right_div_self]
    have rest : bigEndian n (v % 256 ^ (n + 1)) = bigEndian n v := by rw [← ih, low, ih]
    rw [bigEndian, bigEndian, rest, byte]
    congr 1
    apply BitVec.eq_of_toNat_eq
    simp

/-- The bytes of a number are written again. -/
theorem bigEndian_fromBigEndian (bytes : List (BitVec 8)) : bigEndian bytes.length (fromBigEndian bytes) = bytes := by
  induction bytes with
  | nil => rfl
  | cons b bytes ih =>
    have small := fromBigEndian_lt bytes
    have high : (b.toNat * 256 ^ bytes.length + fromBigEndian bytes) / 256 ^ bytes.length = b.toNat := by
      rw [Nat.add_comm, Nat.add_mul_div_right _ _ (Nat.pow_pos (by decide)), Nat.div_eq_of_lt small, Nat.zero_add]
    have low : (b.toNat * 256 ^ bytes.length + fromBigEndian bytes) % 256 ^ bytes.length = fromBigEndian bytes := by
      rw [Nat.mul_add_mod_self_right, Nat.mod_eq_of_lt small]
    rw [List.length_cons, bigEndian, fromBigEndian_cons, high, ← bigEndian_mod, low, ih]
    congr 1
    exact BitVec.eq_of_toNat_eq (by simp)

theorem pow_bytes (n : Nat) : 256 ^ n = 2 ^ (8 * n) := by rw [Nat.pow_mul]

/-- The bytes of a vector are the vector again. -/
theorem ofNat_bigEndian (n : Nat) (v : BitVec (8 * n)) :
    BitVec.ofNat (8 * n) (fromBigEndian (bigEndian n v.toNat)) = v := by
  rw [fromBigEndian_bigEndian, pow_bytes, Nat.mod_eq_of_lt v.isLt, BitVec.ofNat_toNat, BitVec.setWidth_eq]

/-- Bytes are those of a vector. -/
theorem bigEndian_ofNat (bytes : List (BitVec 8)) :
    bigEndian bytes.length (BitVec.ofNat (8 * bytes.length) (fromBigEndian bytes)).toNat = bytes := by
  have small := fromBigEndian_lt bytes
  rw [pow_bytes] at small
  rw [BitVec.toNat_ofNat, Nat.mod_eq_of_lt small, bigEndian_fromBigEndian]

end BigEndian

end CodeClips
