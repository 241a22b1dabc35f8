import CodeClips.CherryPy.FileObject

/-!
# The files of a request

`SizeCheckWrapper`, `KnownLengthRFile` and `ChunkedRFile` of `cherrPy-wsgi.py`, over any file, and the
chunks that `HTTPRequest.write` sends. The loops of the second half have fuel.
-/

namespace CodeClips.CherryPy
open Wrapped

def CRLF : Bytes := [13, 10]

/-- The white space of `strip`. -/
def isSpace (b : UInt8) : Bool := b = 32 || (9 ≤ b && b ≤ 13)

def strip (s : Bytes) : Bytes := ((s.dropWhile isSpace).reverse.dropWhile isSpace).reverse

theorem isSpace_CRLF : ∀ b ∈ CRLF, isSpace b := by simp [CRLF, isSpace]

section Hex

def hexValue (b : UInt8) : Option Nat :=
  if 48 ≤ b ∧ b ≤ 57 then some (b.toNat - 48)
  else if 97 ≤ b ∧ b ≤ 102 then some (b.toNat - 87)
  else if 65 ≤ b ∧ b ≤ 70 then some (b.toNat - 55)
  else none

/-- One hexadecimal digit or more. -/
def hexNumber (s : Bytes) : Option Nat :=
  if s = [] then none else s.foldlM (fun n b => (16 * n + ·) <$> hexValue b) 0

def withoutPrefix (s : Bytes) : Bytes := if s.head? = some 48 ∧ (s[1]? = some 120 ∨ s[1]? = some 88) then s.drop 2 else s

/-- `int(s, 16)` -/
def intBase16 (s : Bytes) : Option Int :=
  match strip s with
  | 45 :: t => (hexNumber (withoutPrefix t)).map fun n => -(n : Int)
  | 43 :: t => (hexNumber (withoutPrefix t)).map fun n => (n : Int)
  | t => (hexNumber (withoutPrefix t)).map fun n => (n : Int)

/-- `hex(n)[2:]` -/
def hex (n : Nat) : Bytes := (Nat.toDigits 16 n).map fun c => UInt8.ofNat c.toNat

end Hex

section Wrappers
variable {σ : Type} (rfile : FileReader Raised σ UInt8)

/-- A size of `None` is below every number. -/
def sizeArg : Option Int → Int
  | none => -1
  | some size => size

section SizeCheck

structure SizeCheck where
  maxlen : Nat
  bytes_read : Nat

/-- `data` is counted, and the length checked. -/
def checkLength (data : Bytes) : EStateM Raised (Wrapped σ SizeCheck) Unit := do
  let own ← getOwn
  let own := { own with bytes_read := own.bytes_read + data.length }
  setOwn own
  if own.maxlen ≠ 0 ∧ own.maxlen < own.bytes_read then throw (.maxSizeExceeded none) else pure ()

/-- The loop of `readline` that reads a long line in pieces. -/
def pieceLoop : Nat → Bytes → EStateM Raised (Wrapped σ SizeCheck) Bytes
  | 0, _ => throw .running
  | fuel + 1, res => do
    let data ← Wrapped.inner (rfile.readline 256)
    checkLength data
    if data.length < 256 ∨ data.getLast? = some newline then pure (res ++ data) else pieceLoop fuel (res ++ data)

def sizeCheckReadline (fuel : Nat) : Option Int → EStateM Raised (Wrapped σ SizeCheck) Bytes
  | some size => do
    let data ← Wrapped.inner (rfile.readline size)
    checkLength data
    pure data
  | none => pieceLoop rfile fuel []

end SizeCheck

section KnownLength

structure KnownLength where
  remaining : Int

/-- The size that is asked for, and no more than remains. -/
def atMost (remaining : Int) : Option Int → Int
  | none => remaining
  | some size => min size remaining

/-- `read` and `readline` differ in the call they make. -/
def knownLengthCall (call : Int → EStateM Raised σ Bytes) (size : Option Int) : EStateM Raised (Wrapped σ KnownLength) Bytes := do
  let own ← getOwn
  if own.remaining = 0 then pure []
  else
    let data ← Wrapped.inner (call (atMost own.remaining size))
    setOwn { remaining := own.remaining - data.length }
    pure data

def knownLengthRead (size : Option Int) : EStateM Raised (Wrapped σ KnownLength) Bytes := knownLengthCall rfile.read size

def knownLengthReadline (size : Option Int) : EStateM Raised (Wrapped σ KnownLength) Bytes :=
  knownLengthCall rfile.readline size

/-- `send_headers` reads what is left of the body. -/
def drain : EStateM Raised (Wrapped σ KnownLength) Unit := do
  let own ← getOwn
  if 0 < own.remaining then do
    let _ ← knownLengthRead rfile (some own.remaining)
    pure ()
  else pure ()

end KnownLength

section Chunked

structure Chunked where
  maxlen : Nat
  bytes_read : Nat
  buffer : Bytes
  closed : Bool

/-- The bytes are counted, and more than `maxlen` are an error. -/
def counted (own : Chunked) (n : Nat) : Chunked := { own with bytes_read := own.bytes_read + n }

def fetch : EStateM Raised (Wrapped σ Chunked) Unit := do
  let own ← getOwn
  if own.closed then pure ()
  else do
    let line ← Wrapped.inner (rfile.readline (-1))
    let own := counted own line.length
    setOwn own
    if own.maxlen ≠ 0 ∧ own.maxlen < own.bytes_read then
      throw (.maxSizeExceeded (some ("Request Entity Too Large", own.maxlen)))
    else
      let size := (strip line).takeWhile (· ≠ 59)
      match intBase16 size with
      | none => throw (.valueError "Bad chunked transfer size: %r" (some size))
      | some chunkSize =>
        if chunkSize ≤ 0 then setOwn { own with closed := true }
        else if own.maxlen ≠ 0 ∧ (own.maxlen : Int) < own.bytes_read + chunkSize then
          throw (.ioError "Request Entity Too Large")
        else do
          let chunk ← Wrapped.inner (rfile.read chunkSize)
          setOwn { counted own chunk.length with buffer := own.buffer ++ chunk }
          let crlf ← Wrapped.inner (rfile.read 2)
          if crlf ≠ CRLF then
            throw (.valueError "Bad chunked transfer coding (expected '\\r\\n', got %r)" (some crlf))
          else pure ()

/-- A chunk is fetched if the buffer is empty. -/
def fill : EStateM Raised (Wrapped σ Chunked) Unit := do
  let own ← getOwn
  if own.buffer = [] then fetch rfile else pure ()

/-- What is taken out of the buffer. -/
def takeBuffer (n : Nat) : EStateM Raised (Wrapped σ Chunked) Bytes := do
  let own ← getOwn
  setOwn { own with buffer := own.buffer.drop n }
  pure (own.buffer.take n)

/-- The size, if it is neither `None` nor 0. -/
def wanted : Option Int → Option Int
  | none => none
  | some size => if size = 0 then none else some size

/-- There are as many bytes as are wanted. -/
def enough (size : Option Int) (data : Bytes) : Bool :=
  match wanted size with
  | none => false
  | some size => size ≤ data.length

def chunkedReadLoop (size : Option Int) : Nat → Bytes → EStateM Raised (Wrapped σ Chunked) Bytes
  | 0, _ => throw .running
  | fuel + 1, data => do
    if enough size data then pure data
    else do
      fill rfile
      let own ← getOwn
      if own.buffer = [] then pure data
      else match wanted size with
        | some size => do
          let taken ← takeBuffer (size - data.length).toNat
          chunkedReadLoop (some size) fuel (data ++ taken)
        | none => chunkedReadLoop none fuel (data ++ own.buffer)

def chunkedRead (fuel : Nat) (size : Option Int) : EStateM Raised (Wrapped σ Chunked) Bytes :=
  chunkedReadLoop rfile size fuel []

def chunkedLineLoop (size : Option Int) : Nat → Bytes → EStateM Raised (Wrapped σ Chunked) Bytes
  | 0, _ => throw .running
  | fuel + 1, data => do
    if enough size data then pure data
    else do
      fill rfile
      let own ← getOwn
      if own.buffer = [] then pure data
      else match wanted size, own.buffer.idxOf? newline with
        | some size, none => do
          let taken ← takeBuffer (size - data.length).toNat
          chunkedLineLoop (some size) fuel (data ++ taken)
        | some size, some newlinePos => do
          let taken ← takeBuffer (min (size - data.length) newlinePos).toNat
          chunkedLineLoop (some size) fuel (data ++ taken)
        | none, none => chunkedLineLoop none fuel (data ++ own.buffer)
        | none, some newlinePos => do
          let taken ← takeBuffer newlinePos
          chunkedLineLoop none fuel (data ++ taken)

def chunkedReadline (fuel : Nat) (size : Option Int) : EStateM Raised (Wrapped σ Chunked) Bytes :=
  chunkedLineLoop rfile size fuel []

/-- The loop of `read_trailer_lines`, which gives the lines one by one. -/
def trailerLoop : Nat → List Bytes → EStateM Raised (Wrapped σ Chunked) (List Bytes)
  | 0, _ => throw .running
  | fuel + 1, lines => do
    let line ← Wrapped.inner (rfile.readline (-1))
    if line = [] then throw (.valueError "Illegal end of headers." none)
    else do
      let own := counted (← getOwn) line.length
      setOwn own
      if own.maxlen ≠ 0 ∧ own.maxlen < own.bytes_read then throw (.ioError "Request Entity Too Large")
      else if line = CRLF then pure lines
      else if ¬ CRLF <:+ line then throw (.valueError "HTTP requires CRLF terminators" none)
      else trailerLoop fuel (lines ++ [line])

def readTrailerLines (fuel : Nat) : EStateM Raised (Wrapped σ Chunked) (List Bytes) := do
  let own ← getOwn
  if own.closed then trailerLoop rfile fuel []
  else throw (.valueError "Cannot read trailers until the request body has been read." none)

end Chunked

end Wrappers

/-- What `HTTPRequest.write` sends of a chunk, where the transfer coding is chunked. -/
def writeChunk (chunk : Bytes) : Bytes := if chunk = [] then chunk else hex chunk.length ++ CRLF ++ chunk ++ CRLF

/-- The chunks of a response, and the last one, which `respond` sends. -/
def writeChunks (chunks : List Bytes) : Bytes := chunks.flatMap writeChunk ++ 48 :: CRLF ++ CRLF

end CodeClips.CherryPy
