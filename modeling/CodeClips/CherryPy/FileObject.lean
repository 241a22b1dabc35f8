import CodeClips.Lib.Reader

/-!
# The file over a socket

`CP_fileobject` of `cherrPy-wsgi.py`, in both forms of its buffer: a string, and a `StringIO` that is
rewound, read and written at its end. The socket is what it will give: pieces of the text, and
failures of a call. A loop has fuel, which stands for the calls it makes.
-/

namespace CodeClips.CherryPy

abbrev Bytes := List UInt8

def newline : UInt8 := 10

/-- The first argument of a `socket.error`: an error number, or a text. -/
inductive ErrNum where
  | number (n : Int)
  | text (s : String)
  deriving DecidableEq, Repr

inductive Raised where
  | running
  | assertion
  | unboundLocalError (name : String)
  | socketError (errnum : ErrNum)
  | maxSizeExceeded (args : Option (String × Nat))
  /-- The text with the `repr` of a value where it has `%r`. -/
  | valueError (text : String) (value : Option Bytes)
  | ioError (text : String)
  | attributeError (name : String)
  | typeError (text : String)
  | assertionError (text : String)
  deriving DecidableEq, Repr

structure Settings where
  socket_errors_nonblocking : List ErrNum
  socket_error_eintr : List ErrNum
  /-- `_fileobject_uses_str_type` -/
  strType : Bool
  rbufsize : Nat
  default_bufsize : Nat

structure FileObject where
  rbuf : Bytes
  sock : List (Arrival UInt8 ErrNum)
  bytes_read : Nat

abbrev FileM := EStateM Raised FileObject

section Model
variable (S : Settings)

/-- The call is made again after these errors. -/
def Retried (e : ErrNum) : Prop := e ∈ S.socket_errors_nonblocking ∨ e ∈ S.socket_error_eintr

instance (e : ErrNum) : Decidable (Retried S e) := inferInstanceAs (Decidable (_ ∨ _))

def recvFrom (size : Nat) : List (Arrival UInt8 ErrNum) → Except ErrNum Bytes × List (Arrival UInt8 ErrNum)
  | .error e :: sock => if Retried S e then recvFrom size sock else (.error e, sock)
  | .data first rest :: sock => recvPiece size (.data first rest :: sock)
  | [] => recvPiece size []

def recv (size : Nat) : FileM Bytes := fun f =>
  match recvFrom S size f.sock with
  | (.ok data, sock) => .ok data { f with sock := sock, bytes_read := f.bytes_read + data.length }
  | (.error e, sock) => .error (.socketError e) { f with sock := sock }

def setRbuf (rbuf : Bytes) : FileM Unit := fun f => .ok () { f with rbuf := rbuf }

/-- The loop of `read` until EOF. -/
def readAll (recvSize : Nat) : Nat → Bytes → FileM Bytes
  | 0, _ => throw .running
  | fuel + 1, buffers => do
    let data ← recv S recvSize
    if data.isEmpty then pure buffers else readAll recvSize fuel (buffers ++ data)

/-- The loop of `readline` that reads until the newline or EOF. -/
def lineLoop : Nat → Bytes → FileM Bytes
  | 0, _ => throw .running
  | fuel + 1, buffers => do
    let data ← recv S S.rbufsize
    if data.isEmpty then pure buffers
    else match data.idxOf? newline with
      | some nl => do
        setRbuf (data.drop (nl + 1))
        pure (buffers ++ data.take (nl + 1))
      | none => lineLoop fuel (buffers ++ data)

/-- The same, a byte for each call. -/
def unbufferedLoop : Nat → Bytes → FileM Bytes
  | 0, _ => throw .running
  | fuel + 1, buffers => do
    let data ← recv S 1
    if data.isEmpty then pure buffers
    else if data = [newline] then pure (buffers ++ data)
    else unbufferedLoop fuel (buffers ++ data)

section Str

/-- The loop of `read` until there are `size` bytes or EOF. -/
def strReadLoop (size : Nat) : Nat → Bytes → Nat → FileM Bytes
  | 0, _, _ => throw .running
  | fuel + 1, buffers, bufLen => do
    let left := size - bufLen
    let data ← recv S (max S.rbufsize left)
    if data.isEmpty then pure buffers
    else if left ≤ data.length then do
      setRbuf (data.drop left)
      pure (buffers ++ data.take left)
    else strReadLoop size fuel (buffers ++ data) (bufLen + data.length)

/-- `read` where the buffer is a string. -/
def strRead (fuel : Nat) (size : Int) : FileM Bytes := do
  let data := (← get).rbuf
  if size < 0 then do
    setRbuf []
    readAll S (if S.rbufsize ≤ 1 then S.default_bufsize else S.rbufsize) fuel data
  else if size.toNat ≤ data.length then do
    setRbuf (data.drop size.toNat)
    pure (data.take size.toNat)
  else do
    setRbuf []
    strReadLoop S size.toNat fuel data data.length

/-- The loop of `readline` until there are `size` bytes, the newline or EOF. -/
def strLineLoop (size : Nat) : Nat → Bytes → Nat → FileM Bytes
  | 0, _, _ => throw .running
  | fuel + 1, buffers, bufLen => do
    let data ← recv S S.rbufsize
    if data.isEmpty then pure buffers
    else
      let left := size - bufLen
      match (data.take left).idxOf? newline with
      | some nl => do
        setRbuf (data.drop (nl + 1))
        pure (buffers ++ data.take (nl + 1))
      | none =>
        if left ≤ data.length then do
          setRbuf (data.drop left)
          pure (buffers ++ data.take left)
        else strLineLoop size fuel (buffers ++ data) (bufLen + data.length)

def strReadline (fuel : Nat) (size : Int) : FileM Bytes := do
  let data := (← get).rbuf
  if size < 0 then
    if S.rbufsize ≤ 1 then
      if data = [] then unbufferedLoop S fuel [] else throw .assertion
    else match data.idxOf? newline with
      | some nl => do
        setRbuf (data.drop (nl + 1))
        pure (data.take (nl + 1))
      | none => do
        setRbuf []
        lineLoop S fuel data
  else match (data.take size.toNat).idxOf? newline with
    | some nl => do
      setRbuf (data.drop (nl + 1))
      pure (data.take (nl + 1))
    | none =>
      if size.toNat ≤ data.length then do
        setRbuf (data.drop size.toNat)
        pure (data.take size.toNat)
      else do
        setRbuf []
        strLineLoop S size.toNat fuel data data.length

end Str

section StringIO

/-- The loop of `read` until there are `size` bytes or EOF, never more than these received. -/
def ioReadLoop (size : Nat) : Nat → Bytes → Nat → FileM Bytes
  | 0, _, _ => throw .running
  | fuel + 1, buf, bufLen => do
    let left := size - bufLen
    let data ← recv S left
    let n := data.length
    if data.isEmpty then pure buf
    else if n = size ∧ bufLen = 0 then pure data
    else if n = left then pure (buf ++ data)
    else if n ≤ left then ioReadLoop size fuel (buf ++ data) (bufLen + n)
    else throw .assertion

/-- `read` where the buffer is a `StringIO`. -/
def ioRead (fuel : Nat) (size : Int) : FileM Bytes := do
  let buf := (← get).rbuf
  if size < 0 then do
    setRbuf []
    readAll S (max S.rbufsize S.default_bufsize) fuel buf
  else if size.toNat ≤ buf.length then do
    setRbuf (buf.drop size.toNat)
    pure (buf.take size.toNat)
  else do
    setRbuf []
    ioReadLoop S size.toNat fuel buf buf.length

/-- The loop of `readline` until there are `size` bytes, the newline or EOF. -/
def ioLineLoop (size : Nat) : Nat → Bytes → Nat → FileM Bytes
  | 0, _, _ => throw .running
  | fuel + 1, buf, bufLen => do
    let data ← recv S S.rbufsize
    if data.isEmpty then pure buf
    else
      let left := size - bufLen
      match (data.take left).idxOf? newline with
      | some nl => do
        setRbuf (data.drop (nl + 1))
        if bufLen = 0 then pure (data.take (nl + 1)) else pure (buf ++ data.take (nl + 1))
      | none =>
        let n := data.length
        if n = size ∧ bufLen = 0 then pure data
        else if left ≤ n then do
          setRbuf (data.drop left)
          pure (buf ++ data.take left)
        else ioLineLoop size fuel (buf ++ data) (bufLen + n)

/-- The line that the buffer has already, with the rest of it: it ends, or has the size. -/
def lineInBuffer (buf : Bytes) (size : Int) : Option (Bytes × Bytes) :=
  let bline := lineUpTo newline size buf
  if buf.length > 0 ∧ (bline.getLast? = some newline ∨ (bline.length : Int) = size) then
    some (bline, buf.drop bline.length)
  else none

def ioReadline (fuel : Nat) (size : Int) : FileM Bytes := do
  let buf := (← get).rbuf
  match lineInBuffer buf size with
  | some (bline, rest) => do
    setRbuf rest
    pure bline
  | none =>
    if size < 0 then do
      setRbuf []
      if S.rbufsize ≤ 1 then unbufferedLoop S fuel buf else lineLoop S fuel buf
    else if size.toNat ≤ buf.length then do
      setRbuf (buf.drop size.toNat)
      pure (buf.take size.toNat)
    else do
      setRbuf []
      ioLineLoop S size.toNat fuel buf buf.length

end StringIO

/-- `CP_fileobject`, as it is defined for the type of the buffer. -/
def fileObject (fuel : Nat) : FileReader Raised FileObject UInt8 where
  read size := if S.strType then strRead S fuel size else ioRead S fuel size
  readline size := if S.strType then strReadline S fuel size else ioReadline S fuel size

end Model

end CodeClips.CherryPy
