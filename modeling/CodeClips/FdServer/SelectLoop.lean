import CodeClips.FdServer.Loop2

/-!
# The select loop of the descriptor server

`loop` keeps the table `client`, the set `allset` that goes to `select`, and the bounds `maxfd`
and `maxi`. A pass either takes one connection or serves the clients that are ready. What the
system calls answer is the action of the environment; `handle_request` changes none of the four.
-/

namespace CodeClips.FdServer

open Function

/-! ## Descriptor sets -/

def FD_SETSIZE : Int := 1024

/-- `fd_set`, read by `FD_ISSET`: outside the set it is whatever the memory there has. -/
abbrev FdSet := Int → Bool

section Wild
-- a write outside the set is undefined: `wild` is what it does to the set
variable (wild : Int → Bool → FdSet → FdSet)

def FdSet.write (set : FdSet) (fd : Int) (bit : Bool) : FdSet :=
  if 0 ≤ fd ∧ fd < FD_SETSIZE then update set fd bit else wild fd bit set

def FD_SET (fd : Int) (set : FdSet) : FdSet := set.write wild fd true

def FD_CLR (fd : Int) (set : FdSet) : FdSet := set.write wild fd false

def FD_ZERO : FdSet := fun _ => false

/-! ## The accept -/

def EXIT_FAILURE : Int := 1

def STALE : Int := 30

def S_IRWXU : BitVec 32 := 0o700

def S_IRWXG : BitVec 32 := 0o070

def S_IRWXO : BitVec 32 := 0o007

def S_ISSOCK (m : BitVec 32) : Bool := m &&& 0o170000 == 0o140000

/-- `struct stat` -/
structure Stat where
  st_mode : BitVec 32
  st_uid : Nat
  st_atime : Int
  st_ctime : Int
  st_mtime : Int

/-- What the calls of `serv_accept` answer: whether there is memory, what `accept` returns, the
`stat` of the name of the peer, and the time. -/
structure Peer where
  malloc : Bool
  accept : Int
  stat : Option Stat
  time : Int

/-- The value returned and `*uidptr` after it. -/
def serv_accept (peer : Peer) (uid : Nat) : Int × Nat :=
  if peer.malloc = false then (EXIT_FAILURE, uid)
  else if peer.accept < 0 then (-2, uid)
  else
    match peer.stat with
    | none => (-3, uid)
    | some statbuf =>
      let staletime := peer.time - STALE
      if S_ISSOCK statbuf.st_mode = false then (-4, uid)
      else if statbuf.st_mode &&& (S_IRWXO ||| S_IRWXG) ≠ 0 ∨ statbuf.st_mode &&& S_IRWXU ≠ S_IRWXU then (-5, uid)
      else if statbuf.st_atime < staletime ∨ statbuf.st_ctime < staletime ∨ statbuf.st_mtime < staletime then
        (-6, uid)
      else (peer.accept, statbuf.st_uid)

/-- What `client_add` returns: where no entry is free, the first one of those it allocates. -/
def client_add_index (t : ClientTable) : Nat := (t.find (-1)).getD t.client_size

/-! ## The loop -/

/-- The variables of `loop`, with the calls of `handle_request` made so far. -/
structure SelectServer where
  clients : ClientTable
  allset : FdSet
  maxfd : Int
  maxi : Int
  listenfd : Int
  uid : Nat
  requests : List (Int × Nat)

/-- Before the first pass; `uid` is not set yet. -/
def SelectServer.start (listenfd : Int) (heap : Nat → Client) (uid : Nat) : SelectServer where
  clients := { client := heap, client_size := 0 }
  allset := FD_SET wild listenfd FD_ZERO
  maxfd := listenfd
  maxi := -1
  listenfd := listenfd
  uid := uid
  requests := []

/-- The branch for `listenfd`: an error code of `serv_accept` is only logged. -/
def SelectServer.accept (s : SelectServer) (peer : Peer) : SelectServer :=
  let (clifd, uid) := serv_accept peer s.uid
  let i : Int := client_add_index s.clients
  { s with
    uid := uid
    clients := client_add s.clients clifd uid
    allset := FD_SET wild clifd s.allset
    maxfd := if clifd > s.maxfd then clifd else s.maxfd
    maxi := if i > s.maxi then i else s.maxi }

/-- The body of the `for`, where `read` returns `nread`. -/
def SelectServer.body (s : SelectServer) (rset : FdSet) (i : Nat) (nread : Int) : SelectServer :=
  let clifd := (s.clients.client i).fd
  if clifd < 0 then s
  else if rset clifd then
    if nread < 0 then s
    else if nread = 0 then
      { s with clients := client_del s.clients clifd, allset := FD_CLR wild clifd s.allset }
    else { s with requests := s.requests ++ [(clifd, (s.clients.client i).uid)] }
  else s

/-- `for (i = 0; i <= maxi; i++)` -/
def SelectServer.serve (s : SelectServer) (rset : FdSet) (nread : Nat → Int) : SelectServer :=
  (List.range (s.maxi + 1).toNat).foldl (fun s i => s.body wild rset i (nread i)) s

/-- What the environment answers in a pass: `rset` after `select`, the calls of `serv_accept`,
and `read` at each entry. -/
structure Pass where
  rset : FdSet
  peer : Peer
  nread : Nat → Int

def SelectServer.pass (s : SelectServer) (a : Pass) : SelectServer :=
  if a.rset s.listenfd then s.accept wild a.peer else s.serve wild a.rset a.nread

/-- One pass: of the set, `select` leaves what is ready. -/
def SelectServer.Step (s : SelectServer) (a : Pass) (s' : SelectServer) : Prop :=
  (∀ fd, 0 ≤ fd → fd < FD_SETSIZE → a.rset fd → s.allset fd) ∧ s' = s.pass wild a

end Wild

end CodeClips.FdServer
