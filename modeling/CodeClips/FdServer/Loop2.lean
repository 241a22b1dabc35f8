import CodeClips.Lib.Transition
import CodeClips.Lib.Window

/-!
# The poll loop of the descriptor server

`loop2` keeps two arrays: the table `client`, where `client_add` takes the first free entry
and `client_del` only marks one as free, and the array handed to `poll`, where a new client
goes to the end and the last entry fills the place of one that has hung up. The descriptors
that `serv_accept` returns, the `revents` of `poll` and what `read` returns are the actions of
the environment; realloc succeeds, and `handle_request` does not touch the two arrays.
-/

namespace CodeClips.FdServer

open Function

def NALLOC : Nat := 10

def POLLIN : BitVec 16 := 0x001

def POLLHUP : BitVec 16 := 0x010

/-- `struct pollfd` -/
structure Pollfd where
  fd : Int
  events : BitVec 16
  revents : BitVec 16
deriving DecidableEq, Repr

structure Client where
  fd : Int
  uid : Nat
deriving DecidableEq, Repr

/-! ## The client table -/

/-- `client` and `client_size`: what is past the size is not yet allocated. -/
structure ClientTable where
  client : Nat → Client
  client_size : Nat

/-- The `uid` of a new entry is whatever the memory has. -/
def client_alloc (t : ClientTable) : ClientTable where
  client i := if t.client_size ≤ i ∧ i < t.client_size + NALLOC then { t.client i with fd := -1 } else t.client i
  client_size := t.client_size + NALLOC

/-- The first entry with the descriptor. -/
def ClientTable.find (t : ClientTable) (fd : Int) : Option Nat :=
  (List.range t.client_size).find? fun i => (t.client i).fd = fd

def ClientTable.set (t : ClientTable) (i : Nat) (c : Client) : ClientTable := { t with client := update t.client i c }

/-- `goto again` happens once at most: the entries just allocated are free. -/
def client_add (t : ClientTable) (fd : Int) (uid : Nat) : ClientTable :=
  match t.find (-1) with
  | some i => t.set i { fd := fd, uid := uid }
  | none =>
    let t := client_alloc t
    match t.find (-1) with
    | some i => t.set i { fd := fd, uid := uid }
    | none => t

def client_del (t : ClientTable) (fd : Int) : ClientTable :=
  match t.find fd with
  | some i => t.set i { t.client i with fd := -1 }
  | none => t

/-! ## The poll array -/

/-- `pollfd_wrap` -/
structure PollfdWrap where
  pfd : Nat → Pollfd
  maxfd : Nat

/-- The first `NALLOC` entries are the default; `malloc` leaves the memory as it was. -/
def pollfd_init (memory : Nat → Pollfd) (default_pfd : Pollfd) : PollfdWrap where
  pfd i := if i < NALLOC then default_pfd else memory i
  maxfd := NALLOC

def pollfd_alloc (w : PollfdWrap) (default_pfd : Pollfd) : PollfdWrap where
  pfd i := if w.maxfd ≤ i ∧ i < w.maxfd + NALLOC then default_pfd else w.pfd i
  maxfd := w.maxfd + NALLOC

def pollfd_add (w : PollfdWrap) (newpfd : Pollfd) : PollfdWrap :=
  match (List.range w.maxfd).find? fun i => (w.pfd i).fd = -1 with
  | some i => { w with pfd := update w.pfd i newpfd }
  | none => w

/-! ## The loop -/

/-- Where `loop2` is: before `serv_accept`, or at the head of the `for` with this `i`. -/
inductive Pc where
  | accept
  | body (i : Nat)
deriving DecidableEq, Repr

/-- The variables of `loop2`, with what it has done so far: the calls of `handle_request`, the
descriptors it has closed, and those on which `read` has failed. -/
structure Server where
  clients : ClientTable
  pfd_wrap : PollfdWrap
  default_pfd : Pollfd
  numfd : Nat
  pc : Pc
  requests : List (Int × Nat)
  closed : List Int
  unread : List Int

/-- Before the first pass, which begins like the end of one. -/
def Server.start (listenfd : Nat) (memory : Nat → Pollfd) (heap : Nat → Client) (revents : BitVec 16) : Server :=
  let default_pfd : Pollfd := { fd := -1, events := 0, revents := revents }
  let w := pollfd_init memory default_pfd
  { clients := client_add { client := heap, client_size := 0 } listenfd 0
    pfd_wrap := { w with pfd := update w.pfd 0 { w.pfd 0 with fd := listenfd } }
    default_pfd := default_pfd
    numfd := 1
    pc := .body 1
    requests := []
    closed := []
    unread := [] }

/-- What the environment answers. -/
inductive Answer where
  /-- `poll`, the `revents` of each place -/
  | poll (revents : Nat → BitVec 16)
  /-- `serv_accept` -/
  | serv_accept (clifd : Nat) (uid : Nat)
  /-- `read`, where the entry has something to read -/
  | read (nread : Int)

/-- `poll` returns; the next is `serv_accept` or the `for`. -/
def Server.poll (s : Server) (revents : Nat → BitVec 16) : Server :=
  let pfd := fun i => if i < s.numfd then { s.pfd_wrap.pfd i with revents := revents i } else s.pfd_wrap.pfd i
  { s with
    pfd_wrap := { s.pfd_wrap with pfd := pfd }
    pc := if (pfd 0).revents &&& POLLIN ≠ 0 then .accept else .body 1 }

def Server.accept (s : Server) (clifd uid : Nat) : Server :=
  let default_pfd := { s.default_pfd with fd := if s.numfd = s.pfd_wrap.maxfd then -1 else (clifd : Int) }
  let w := if s.numfd = s.pfd_wrap.maxfd then pollfd_alloc s.pfd_wrap default_pfd
    else pollfd_add s.pfd_wrap default_pfd
  { s with
    clients := client_add s.clients clifd uid
    pfd_wrap := { w with pfd := update w.pfd s.numfd { fd := clifd, events := POLLIN, revents := 0 } }
    default_pfd := default_pfd
    numfd := s.numfd + 1
    pc := .body 1 }

/-- `hungup`: the last entry is moved to the place, and the loop goes on with it. -/
def Server.hungup (s : Server) (i : Nat) : Server :=
  let clients := client_del s.clients (s.pfd_wrap.pfd i).fd
  let closed := s.closed ++ [(s.pfd_wrap.pfd i).fd]
  if i < s.numfd - 1 then
    { s with
      clients := clients
      closed := closed
      pfd_wrap := { s.pfd_wrap with pfd := update s.pfd_wrap.pfd i (s.pfd_wrap.pfd (s.numfd - 1)) }
      numfd := s.numfd - 1
      pc := .body i }
  else { s with clients := clients, closed := closed, numfd := s.numfd - 1, pc := .body (i + 1) }

/-- `read` has failed, which is only to be logged. -/
def Server.read_error (s : Server) (i : Nat) : Server :=
  { s with unread := s.unread ++ [(s.pfd_wrap.pfd i).fd], pc := .body (i + 1) }

def Server.handle_request (s : Server) (i : Nat) : Server :=
  { s with
    requests := s.requests ++ [((s.pfd_wrap.pfd i).fd, (s.clients.client i).uid)]
    pc := .body (i + 1) }

/-- The body of the `for`. -/
def Server.body (s : Server) (i : Nat) (nread : Int) : Server :=
  if (s.pfd_wrap.pfd i).revents &&& POLLHUP ≠ 0 then s.hungup i
  else if (s.pfd_wrap.pfd i).revents &&& POLLIN ≠ 0 then
    if nread < 0 then s.read_error i
    else if nread = 0 then s.hungup i
    else s.handle_request i
  else { s with pc := .body (i + 1) }

def Server.next (s : Server) : Answer → Option Server
  | .poll revents => match s.pc with
    | .body i => if s.numfd ≤ i then some (s.poll revents) else none
    | .accept => none
  | .serv_accept clifd uid => match s.pc with
    | .accept => some (s.accept clifd uid)
    | .body _ => none
  | .read nread => match s.pc with
    | .body i => if i < s.numfd then some (s.body i nread) else none
    | .accept => none

/-! ## The clients -/

/-- `poll` has reported the entry as readable or hung up. -/
def Pollfd.ready (p : Pollfd) : Bool := p.revents &&& POLLHUP ≠ 0 ∨ p.revents &&& POLLIN ≠ 0

/-- The body ends in `hungup`. -/
def Server.Closes (s : Server) (i : Nat) (nread : Int) : Prop :=
  (s.pfd_wrap.pfd i).revents &&& POLLHUP ≠ 0 ∨ (s.pfd_wrap.pfd i).revents &&& POLLIN ≠ 0 ∧ nread = 0

instance (s : Server) (i : Nat) (nread : Int) : Decidable (s.Closes i nread) :=
  inferInstanceAs (Decidable (_ ∨ _))

/-- The descriptors that have been handled: read for a request, closed, or found unreadable. -/
def Server.served (s : Server) : Multiset Int := s.requests.map Prod.fst + s.closed + s.unread

/-- The server and its clients: the `uid` with which each connected client was accepted, the
clients that the last `poll` reported, and what had been handled before it. -/
structure World where
  server : Server
  accepted : Int → Option Nat
  reported : Multiset Int
  before : Multiset Int

/-- The clients handled since the last `poll`. -/
def World.handled (w : World) : Multiset Int := w.server.served - w.before

/-- The descriptors in the entries from `a` on. -/
def Server.entries (s : Server) (a : Nat) : Multiset Int := (window s.pfd_wrap.pfd a s.numfd).map Pollfd.fd

/-- Those of them that `poll` has reported. -/
def Server.ready (s : Server) (a : Nat) : Multiset Int :=
  ((window s.pfd_wrap.pfd a s.numfd).filter (Pollfd.ready ·)).map Pollfd.fd

/-- One answer and the code up to the next one. -/
def World.after (w : World) (server : Server) : Answer → World
  | .poll _ => { w with server := server, reported := server.ready 1, before := w.server.served }
  | .serv_accept clifd uid => { w with server := server, accepted := update w.accepted clifd (some uid) }
  | .read nread => match w.server.pc with
    | .accept => { w with server := server }
    | .body i =>
      { w with
        server := server
        accepted := if w.server.Closes i nread then update w.accepted (w.server.pfd_wrap.pfd i).fd none else w.accepted }

/-- `serv_accept` returns a descriptor that is not in use. -/
def World.Fresh (w : World) (listenfd : Nat) : Answer → Prop
  | .serv_accept clifd _ => clifd ≠ listenfd ∧ w.accepted clifd = none
  | _ => True

def World.Step (listenfd : Nat) (w : World) (a : Answer) (w' : World) : Prop :=
  ∃ server, w.server.next a = some server ∧ w.Fresh listenfd a ∧ w' = w.after server a

def World.start (listenfd : Nat) (memory : Nat → Pollfd) (heap : Nat → Client) (revents : BitVec 16) : World where
  server := Server.start listenfd memory heap revents
  accepted _ := none
  reported := 0
  before := 0

/-- Between two passes. -/
def World.PassOver (w : World) : Prop := ∃ i, w.server.pc = .body i ∧ w.server.numfd ≤ i

/-! ## What the body does -/

section Body
variable {s : Server} {i : Nat}

theorem Server.body_of_closes {nread : Int} (closes : s.Closes i nread) : s.body i nread = s.hungup i := by
  unfold body
  split_ifs with hup readable failed eof
  · rfl
  · obtain hang | ⟨_, eof⟩ := closes
    · exact absurd hang hup
    · omega
  · rfl
  · obtain hang | ⟨_, eof'⟩ := closes
    · exact absurd hang hup
    · exact absurd eof' eof
  · obtain hang | ⟨here, _⟩ := closes
    · exact absurd hang hup
    · exact absurd here readable

/-- The two arrays stay as they are where nobody hangs up: nothing is reported, `read` fails, or
there is a request. -/
theorem Server.body_of_stays {nread : Int} (stays : ¬ s.Closes i nread) :
    s.body i nread = { s with pc := .body (i + 1) } ∧ (s.pfd_wrap.pfd i).revents &&& POLLHUP = 0 ∧
        (s.pfd_wrap.pfd i).revents &&& POLLIN = 0 ∨
      s.body i nread = s.read_error i ∧ (s.pfd_wrap.pfd i).revents &&& POLLIN ≠ 0 ∧ nread < 0 ∨
      s.body i nread = s.handle_request i ∧ (s.pfd_wrap.pfd i).revents &&& POLLHUP = 0 ∧
        (s.pfd_wrap.pfd i).revents &&& POLLIN ≠ 0 ∧ 0 < nread := by
  obtain ⟨quiet, data⟩ := not_or.mp stays
  unfold body
  rw [if_neg quiet]
  split_ifs with readable failed eof
  · exact .inr (.inl ⟨rfl, readable, failed⟩)
  · exact absurd ⟨readable, eof⟩ data
  · exact .inr (.inr ⟨rfl, not_not.mp quiet, readable, by omega⟩)
  · exact .inl ⟨rfl, not_not.mp quiet, not_not.mp readable⟩

/-- The two branches of `hungup` write the same array. -/
theorem Server.hungup_pfd (inside : i < s.numfd) :
    (s.hungup i).pfd_wrap.pfd = update s.pfd_wrap.pfd i (s.pfd_wrap.pfd (s.numfd - 1)) := by
  unfold hungup
  dsimp only
  split_ifs with before
  · rfl
  · obtain rfl : i = s.numfd - 1 := by omega
    exact (update_eq_self _ _).symm

theorem Server.hungup_maxfd : (s.hungup i).pfd_wrap.maxfd = s.pfd_wrap.maxfd := by
  unfold hungup
  dsimp only
  split_ifs <;> rfl

theorem Server.hungup_numfd : (s.hungup i).numfd = s.numfd - 1 := by
  unfold hungup
  dsimp only
  split_ifs <;> rfl

theorem Server.hungup_clients : (s.hungup i).clients = client_del s.clients (s.pfd_wrap.pfd i).fd := by
  unfold hungup
  dsimp only
  split_ifs <;> rfl

theorem Server.hungup_requests : (s.hungup i).requests = s.requests := by
  unfold hungup
  dsimp only
  split_ifs <;> rfl

theorem Server.hungup_served : (s.hungup i).served = (s.pfd_wrap.pfd i).fd ::ₘ s.served := by
  have closed : (s.hungup i).closed = s.closed ++ [(s.pfd_wrap.pfd i).fd] := by
    unfold hungup
    dsimp only
    split_ifs <;> rfl
  have unread : (s.hungup i).unread = s.unread := by
    unfold hungup
    dsimp only
    split_ifs <;> rfl
  rw [served, served, hungup_requests, closed, unread, ← Multiset.coe_add, Multiset.coe_singleton,
    Multiset.add_comm (s.closed : Multiset Int), Multiset.singleton_add, Multiset.add_cons, Multiset.cons_add]

theorem Server.read_error_served : (s.read_error i).served = (s.pfd_wrap.pfd i).fd ::ₘ s.served := by
  simp only [read_error, served]
  rw [← Multiset.coe_add, Multiset.coe_singleton, ← Multiset.add_assoc, Multiset.add_comm _ {_},
    Multiset.singleton_add]

theorem Server.handle_request_served : (s.handle_request i).served = (s.pfd_wrap.pfd i).fd ::ₘ s.served := by
  simp only [handle_request, served, List.map_append, List.map_cons, List.map_nil]
  rw [← Multiset.coe_add, Multiset.coe_singleton, Multiset.add_comm _ {_}, Multiset.singleton_add,
    Multiset.cons_add, Multiset.cons_add]

/-- **The body** handles the client of the entry exactly if `poll` has reported it. -/
theorem Server.body_served (nread : Int) :
    (s.body i nread).served = if (s.pfd_wrap.pfd i).ready then (s.pfd_wrap.pfd i).fd ::ₘ s.served else s.served := by
  have ready_of (readable : (s.pfd_wrap.pfd i).revents &&& POLLIN ≠ 0) : (s.pfd_wrap.pfd i).ready = true :=
    decide_eq_true (.inr readable)
  by_cases closes : s.Closes i nread
  · have ready : (s.pfd_wrap.pfd i).ready = true := decide_eq_true (closes.imp_right And.left)
    rw [body_of_closes closes, hungup_served, if_pos ready]
  · obtain ⟨passes, quiet, empty⟩ | ⟨fails, readable, _⟩ | ⟨serves, _, readable, _⟩ := body_of_stays closes
    · have unready : ¬ (s.pfd_wrap.pfd i).ready = true := by simp [Pollfd.ready, quiet, empty]
      rw [passes, if_neg unready]
      rfl
    · rw [fails, read_error_served, if_pos (ready_of readable)]
    · rw [serves, handle_request_served, if_pos (ready_of readable)]

/-- The loop goes on with the place just filled, or it is over. -/
theorem Server.hungup_pc (inside : i < s.numfd) :
    (s.hungup i).pc = .body i ∨ (s.hungup i).pc = .body (i + 1) ∧ i = s.numfd - 1 := by
  unfold hungup
  dsimp only
  split_ifs with before
  · exact .inl rfl
  · exact .inr ⟨rfl, by omega⟩

/-- Where nobody hangs up only `i`, the requests and the failed reads change. -/
theorem Server.body_stays {nread : Int} (stays : ¬ s.Closes i nread) :
    (s.body i nread).pfd_wrap = s.pfd_wrap ∧ (s.body i nread).numfd = s.numfd ∧
      (s.body i nread).clients = s.clients ∧ (s.body i nread).pc = .body (i + 1) := by
  obtain ⟨passes, _⟩ | ⟨fails, _⟩ | ⟨serves, _⟩ := body_of_stays stays
  · rw [passes]
    exact ⟨rfl, rfl, rfl, rfl⟩
  · rw [fails]
    exact ⟨rfl, rfl, rfl, rfl⟩
  · rw [serves]
    exact ⟨rfl, rfl, rfl, rfl⟩

end Body

/-- What a step can be. -/
inductive World.Stepped (listenfd : Nat) (w : World) : Answer → World → Prop where
  | poll {i : Nat} (revents : Nat → BitVec 16) (at_ : w.server.pc = .body i) (done : w.server.numfd ≤ i) :
      Stepped listenfd w (.poll revents)
        { w with server := w.server.poll revents, reported := (w.server.poll revents).ready 1, before := w.server.served }
  | accept (clifd uid : Nat) (at_ : w.server.pc = .accept) (other : clifd ≠ listenfd)
      (fresh : w.accepted clifd = none) :
      Stepped listenfd w (.serv_accept clifd uid)
        { w with server := w.server.accept clifd uid, accepted := update w.accepted clifd (some uid) }
  | hungup {i : Nat} (nread : Int) (at_ : w.server.pc = .body i) (inside : i < w.server.numfd)
      (closes : w.server.Closes i nread) :
      Stepped listenfd w (.read nread)
        { w with
          server := w.server.hungup i
          accepted := update w.accepted (w.server.pfd_wrap.pfd i).fd none }
  | stays {i : Nat} (nread : Int) (at_ : w.server.pc = .body i) (inside : i < w.server.numfd)
      (stays : ¬ w.server.Closes i nread) :
      Stepped listenfd w (.read nread) { w with server := w.server.body i nread }

theorem World.step_cases {listenfd : Nat} {w w' : World} {a : Answer} (step : World.Step listenfd w a w') :
    w.Stepped listenfd a w' := by
  obtain ⟨server, next, fresh, rfl⟩ := step
  cases a with
  | poll revents =>
    dsimp only [Server.next] at next
    split at next
    · next i here =>
      obtain ⟨done, ⟨⟩⟩ := Option.ite_none_right_eq_some.mp next
      exact .poll revents here done
    · cases next
  | serv_accept clifd uid =>
    dsimp only [Server.next] at next
    split at next
    · next here =>
      cases next
      exact .accept clifd uid here fresh.1 fresh.2
    · cases next
  | read nread =>
    dsimp only [Server.next] at next
    split at next
    · next i here =>
      obtain ⟨inside, ⟨⟩⟩ := Option.ite_none_right_eq_some.mp next
      simp only [after, here]
      split_ifs with closes
      · rw [Server.body_of_closes closes]
        exact .hungup nread here inside closes
      · exact .stays nread here inside closes
    · cases next

/-! ## Steps that can be taken -/

section Enabled
variable {listenfd : Nat} {w : World}

theorem World.step_poll {i : Nat} (here : w.server.pc = .body i) (done : w.server.numfd ≤ i)
    (revents : Nat → BitVec 16) :
    World.Step listenfd w (.poll revents) (w.after (w.server.poll revents) (.poll revents)) :=
  ⟨_, by simp only [Server.next, here, if_pos done], trivial, rfl⟩

theorem World.step_accept (here : w.server.pc = .accept) {clifd : Nat} (other : clifd ≠ listenfd)
    (fresh : w.accepted clifd = none) (uid : Nat) :
    World.Step listenfd w (.serv_accept clifd uid) (w.after (w.server.accept clifd uid) (.serv_accept clifd uid)) :=
  ⟨_, by simp only [Server.next, here], ⟨other, fresh⟩, rfl⟩

theorem World.step_read {i : Nat} (here : w.server.pc = .body i) (inside : i < w.server.numfd) (nread : Int) :
    World.Step listenfd w (.read nread) (w.after (w.server.body i nread) (.read nread)) :=
  ⟨_, by simp only [Server.next, here, if_pos inside], trivial, rfl⟩

end Enabled

end CodeClips.FdServer
