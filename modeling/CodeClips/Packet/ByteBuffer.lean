import CodeClips.Lib.ByteCodec

/-!
# `java.nio.ByteBuffer`

What the packet classes use of Java: signed bytes and shorts as bit vectors, the exceptions,
a buffer that is read, and an array that is allocated and filled from its start. A buffer that
wraps a part of an array is the reader of the bytes of that part.
-/

namespace CodeClips.Packet

abbrev Byte := BitVec 8
abbrev Short := BitVec 16

/-- `packetParsing` is checked, the others are `RuntimeException`s. -/
inductive Throwable where
  | packetParsing (message : String)
  | bufferUnderflow
  | bufferOverflow
  | indexOutOfBounds
  | illegalArgument
  | negativeArraySize
  | nullPointer
  deriving DecidableEq

/-- What a method returns or throws. -/
abbrev Java := Except Throwable

/-- `ByteBuffer.wrap` of an array, read from its position on; a read past its end throws. -/
abbrev ByteBuffer := Reader Byte Throwable

namespace ByteBuffer

/-- One byte. -/
def get : ByteBuffer Byte := fun
  | [] => .error .bufferUnderflow
  | b :: rest => .ok (b, rest)

/-- An array of `n` bytes is filled. -/
def getBytes (n : Nat) : ByteBuffer (List Byte) := Reader.take .bufferUnderflow n

/-- Two bytes in network order. -/
def getShort : ByteBuffer Short := do
  let bytes ← getBytes 2
  pure (BitVec.ofNat 16 (fromBigEndian bytes))

/-- Four bytes in network order. -/
def getInt : ByteBuffer (BitVec 32) := do
  let bytes ← getBytes 4
  pure (BitVec.ofNat 32 (fromBigEndian bytes))

/-- Eight bytes in network order. -/
def getLong : ByteBuffer (BitVec 64) := do
  let bytes ← getBytes 8
  pure (BitVec.ofNat 64 (fromBigEndian bytes))

/-- `remaining()`. -/
def remaining : ByteBuffer Nat := fun input => .ok (input.length, input)

/-- The bytes that remain, as the payload's decoder takes them. -/
def rest : ByteBuffer (List Byte) := fun input => .ok (input, [])

end ByteBuffer

/-- The bytes of a short in network order. -/
def putShort (s : Short) : List Byte := bigEndian 2 s.toNat

/-- The bytes of an int in network order. -/
def putInt (n : BitVec 32) : List Byte := bigEndian 4 n.toNat

/-- The bytes of a long in network order. -/
def putLong (n : BitVec 64) : List Byte := bigEndian 8 n.toNat

/-- `new byte[length]`, into which the bytes are put one after the other. -/
def allocate (length : BitVec 32) (bytes : List Byte) : Java (List Byte) :=
  if length.toInt < 0 then .error .negativeArraySize
  else if length.toInt.toNat < bytes.length then .error .bufferOverflow
  else .ok (bytes ++ List.replicate (length.toInt.toNat - bytes.length) 0)

/-- Dereferences what may be `null`. -/
def nonNull {α : Type} : Option α → Java α
  | some a => .ok a
  | none => .error .nullPointer

/-! ## Reading what is put -/

@[simp] theorem length_putShort (s : Short) : (putShort s).length = 2 := length_bigEndian 2 _

@[simp] theorem length_putInt (n : BitVec 32) : (putInt n).length = 4 := length_bigEndian 4 _

theorem reads_get (b : Byte) : Reads ByteBuffer.get [b] b := fun _ => rfl

theorem reads_getBytes {bytes : List Byte} {n : Nat} (length : bytes.length = n) :
    Reads (ByteBuffer.getBytes n) bytes bytes := .take _ length

/-- A short is read as it was put. -/
theorem reads_getShort (s : Short) : Reads ByteBuffer.getShort (putShort s) s := by
  have value : BitVec.ofNat 16 (fromBigEndian (putShort s)) = s := ofNat_bigEndian 2 s
  have reads := (reads_getBytes (length_putShort s)).map (fun bytes => BitVec.ofNat 16 (fromBigEndian bytes))
  rwa [value] at reads

/-- An int is read as it was put. -/
theorem reads_getInt (n : BitVec 32) : Reads ByteBuffer.getInt (putInt n) n := by
  have value : BitVec.ofNat 32 (fromBigEndian (putInt n)) = n := ofNat_bigEndian 4 n
  have reads := (reads_getBytes (length_putInt n)).map (fun bytes => BitVec.ofNat 32 (fromBigEndian bytes))
  rwa [value] at reads

/-! ## Reading at a place -/

/-- The numbers of one, two and four bytes at a place. -/
def byteAt (bytes : List Byte) (off : Nat) : Byte := bytes.getD off 0
/-- The short at an offset of an array. -/
def shortAt (bytes : List Byte) (off : Nat) : Short := BitVec.ofNat 16 (fromBigEndian (slice bytes off 2))
/-- The int at an offset of an array. -/
def intAt (bytes : List Byte) (off : Nat) : BitVec 32 := BitVec.ofNat 32 (fromBigEndian (slice bytes off 4))

section Place
variable {bytes : List Byte} {off n : Nat}

/-- Inside the array a read does not throw. -/
theorem readsAt_getBytes (inside : off + n ≤ bytes.length) :
    ReadsAt (ByteBuffer.getBytes n) bytes off n (slice bytes off n) := .take _ inside

/-- The array from an offset on begins with the byte there. -/
theorem drop_eq_byteAt (inside : off + 1 ≤ bytes.length) : bytes.drop off = byteAt bytes off :: bytes.drop (off + 1) := by
  rw [byteAt, List.getD_eq_getElem?_getD, List.getElem?_eq_getElem inside, Option.getD_some]
  exact List.drop_eq_getElem_cons inside

theorem readsAt_get (inside : off + 1 ≤ bytes.length) : ReadsAt ByteBuffer.get bytes off 1 (byteAt bytes off) := by
  rw [ReadsAt, drop_eq_byteAt inside]
  rfl

theorem readsAt_getShort (inside : off + 2 ≤ bytes.length) :
    ReadsAt ByteBuffer.getShort bytes off 2 (shortAt bytes off) := (readsAt_getBytes inside).map _

theorem readsAt_getInt (inside : off + 4 ≤ bytes.length) : ReadsAt ByteBuffer.getInt bytes off 4 (intAt bytes off) :=
  (readsAt_getBytes inside).map _

/-! What is at a place, put again. -/

/-- A byte as a slice of length 1. -/
theorem byteAt_eq_slice (inside : off + 1 ≤ bytes.length) : [byteAt bytes off] = slice bytes off 1 := by
  rw [slice, drop_eq_byteAt inside]
  rfl

/-- What is read as a short is put as the same two bytes. -/
theorem putShort_shortAt (inside : off + 2 ≤ bytes.length) : putShort (shortAt bytes off) = slice bytes off 2 := by
  have length : (slice bytes off 2).length = 2 := by
    rw [slice_length]
    omega
  have back := bigEndian_ofNat (slice bytes off 2)
  rwa [length] at back

/-- And an int as the same four. -/
theorem putInt_intAt (inside : off + 4 ≤ bytes.length) : putInt (intAt bytes off) = slice bytes off 4 := by
  have length : (slice bytes off 4).length = 4 := by
    rw [slice_length]
    omega
  have back := bigEndian_ofNat (slice bytes off 4)
  rwa [length] at back

end Place

/-- Two bytes are a short. -/
theorem exists_putShort (b₁ b₂ : Byte) : ∃ s : Short, [b₁, b₂] = putShort s :=
  ⟨_, (bigEndian_ofNat [b₁, b₂]).symm⟩

/-- An array that is allocated holds what is put and zeros after it. -/
theorem allocate_eq_ok {length : BitVec 32} {bytes data : List Byte} (ok : allocate length bytes = .ok data) :
    bytes.length ≤ length.toInt.toNat ∧ 0 ≤ length.toInt ∧
      data = bytes ++ List.replicate (length.toInt.toNat - bytes.length) 0 := by
  rw [allocate] at ok
  split_ifs at ok with negative short
  cases ok
  exact ⟨by omega, by omega, rfl⟩

/-- An array of just the length of what is put into it. -/
theorem allocate_exact {length : BitVec 32} {bytes : List Byte} (exact : length.toInt = bytes.length) :
    allocate length bytes = .ok bytes := by
  rw [allocate, exact, if_neg (by omega), if_neg (by omega)]
  simp

end CodeClips.Packet
