import CodeClips.Lib.Buffer
import CodeClips.Lib.Transition

/-!
# The echo server

`onReadPrepared` puts what it reads at `buf + pos` and adds it to `size`; `onWritePrepared`
sends `size` bytes from `buf + pos` and moves `pos` behind what has been sent. Nothing moves
`pos` back, and the read is at `pos` also while there are bytes still to be sent. The results
of `read` and `write` are the environment's; the registrations of the event loop succeed.
-/

namespace CodeClips.Aio

abbrev Byte := BitVec 8

def BUF_SIZE : Nat := 1024

/-- `EchoClient` but for its address and its lock. -/
structure EchoClient where
  buf : List Byte
  pos : Int
  size : Int
deriving DecidableEq, Repr

/-- `init_client`; the memory is as `malloc` returns it. -/
def init_client (buf : List Byte) : EchoClient := { buf := buf, pos := 0, size := 0 }

/-- One connection: `writable` is the event mask, which has `AE_READABLE` as long as the
connection is open. `received` and `sent` are all bytes read and written so far, and `stored`
is the end of the part of the buffer that has been read into. -/
structure Connection where
  client : EchoClient
  opened : Bool
  writable : Bool
  received : List Byte
  sent : List Byte
  stored : Int

def Connection.start (buf : List Byte) : Connection :=
  { client := init_client buf, opened := true, writable := false, received := [], sent := [], stored := 0 }

/-- `close_client`: both events are deleted, and the descriptor is closed. -/
def close_client (c : Connection) : Connection := { c with opened := false, writable := false }

/-- `onReadPrepared`, where `read` returns `nread` and has stored `data`. -/
def onReadPrepared (c : Connection) (nread : Int) (data : List Byte) : Connection :=
  if nread ≤ 0 then close_client c
  else
    { c with
      client := { c.client with
        buf := blit c.client.buf c.client.pos.toNat data
        size := c.client.size + nread }
      writable := true
      received := c.received ++ data
      stored := max c.stored (c.client.pos + nread) }

/-- `onWritePrepared`, where `write` returns `nwrite`; `behind` is the memory behind the buffer. -/
def onWritePrepared (c : Connection) (nwrite : Int) (behind : List Byte) : Connection :=
  let bytes := (c.client.buf.drop c.client.pos.toNat ++ behind).take nwrite.toNat
  let c := if nwrite ≤ 0 then close_client c else c
  let client := { c.client with pos := c.client.pos + nwrite, size := c.client.size - nwrite }
  { c with
    client := client
    sent := c.sent ++ bytes
    writable := if client.size = 0 then false else c.writable }

inductive Event where
  | readable (nread : Int) (data : List Byte)
  | writable (nwrite : Int) (behind : List Byte)

/-- What `read` with a count can return: a negative count is refused. -/
structure ReadReturns (count nread : Int) (data : List Byte) : Prop where
  least : -1 ≤ nread
  most : 0 ≤ count → nread ≤ count
  refused : count < 0 → nread = -1
  length : data.length = nread.toNat

/-- What `write` can return; the bytes it sends are there. -/
structure WriteReturns (c : EchoClient) (nwrite : Int) (behind : List Byte) : Prop where
  least : -1 ≤ nwrite
  most : nwrite ≤ c.size
  length : nwrite.toNat ≤ (c.buf.drop c.pos.toNat ++ behind).length

/-- An event that the loop calls a handler for. -/
inductive Connection.Step : Connection → Event → Connection → Prop where
  | readable {c : Connection} {nread : Int} {data : List Byte} (opened : c.opened = true)
      (returns : ReadReturns (BUF_SIZE - c.client.pos) nread data) :
      Step c (.readable nread data) (onReadPrepared c nread data)
  | writable {c : Connection} {nwrite : Int} {behind : List Byte} (opened : c.opened = true)
      (registered : c.writable = true) (returns : WriteReturns c.client nwrite behind) :
      Step c (.writable nwrite behind) (onWritePrepared c nwrite behind)

/-! ## What the handlers do -/

section Handlers
variable {c : Connection}

theorem onReadPrepared_closes {nread : Int} (none : nread ≤ 0) (data : List Byte) :
    onReadPrepared c nread data = close_client c := if_pos none

theorem onReadPrepared_reads {nread : Int} (some : 0 < nread) (data : List Byte) :
    onReadPrepared c nread data =
      { c with
        client := { c.client with
          buf := blit c.client.buf c.client.pos.toNat data
          size := c.client.size + nread }
        writable := true
        received := c.received ++ data
        stored := max c.stored (c.client.pos + nread) } := if_neg (by omega)

/-- A failed write closes the connection, but the position and the size change all the same. -/
theorem onWritePrepared_closes {nwrite : Int} (none : nwrite ≤ 0) (behind : List Byte) :
    onWritePrepared c nwrite behind =
      { c with
        client := { c.client with pos := c.client.pos + nwrite, size := c.client.size - nwrite }
        opened := false
        writable := false } := by
  have nothing : nwrite.toNat = 0 := by omega
  simp only [onWritePrepared, if_pos none, close_client, nothing, List.take_zero, List.append_nil, ite_self]

theorem onWritePrepared_writes {nwrite : Int} (some : 0 < nwrite) (behind : List Byte) :
    onWritePrepared c nwrite behind =
      { c with
        client := { c.client with pos := c.client.pos + nwrite, size := c.client.size - nwrite }
        sent := c.sent ++ (c.client.buf.drop c.client.pos.toNat ++ behind).take nwrite.toNat
        writable := if c.client.size - nwrite = 0 then false else c.writable } := by
  have more : ¬ nwrite ≤ 0 := by omega
  simp only [onWritePrepared, if_neg more]

end Handlers

end CodeClips.Aio
