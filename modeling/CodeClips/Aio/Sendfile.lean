import CodeClips.Lib.Buffer
import CodeClips.Lib.Transition
import Mathlib.Algebra.Ring.Int.Defs
import Mathlib.Logic.Function.Basic
import Mathlib.Data.List.Infix

/-!
# The sendfile server

The progress of a transfer is in three variables of the whole server: the file that is being
sent, its size, and how much of it has been sent. A request sets the first two, and adds to
the third when its first `sendfile` leaves a rest. The rest is sent when `epoll_wait` reports
the socket as writable, but to the descriptor that is stored with the registration, and every
`epoll_ctl` stores `ev.data.fd`, which only a new connection sets. `completed_of_alone` says in
which runs each client whose transfer completes has received the file it asked for. The files
do not change, and what `accept`, `recv`, `open`, `stat` and `sendfile` return is the
environment's; an `accept` that fails ends the server.
-/

namespace CodeClips.Aio.Sendfile

abbrev Byte := BitVec 8

/-- What an `int` holds of a size. -/
def int (n : Int) : Int := (BitVec.ofInt 32 n).toInt

/-- The branch that a reported mask takes: `EPOLLIN`, or else `EPOLLOUT`, or else `EPOLLHUP` or
`EPOLLERR`. -/
inductive Ready where
  | input
  | output
  | hangup
deriving DecidableEq, Repr

/-- An entry of `events`: the `data.fd` stored with the registration, and the mask. -/
structure EpollEvent where
  fd : Int
  ready : Ready
deriving DecidableEq, Repr

/-- A connection: its registration (for `EPOLLOUT` or else for `EPOLLIN`, and the `data.fd`
stored with it), the name it has sent last, and what it has received since. -/
structure Client where
  writing : Bool
  data : Int
  requested : Option String
  received : List Byte
deriving DecidableEq, Repr

structure OpenFile where
  content : List Byte
  pos : Nat

/-- The variables of the server, with `data` for `ev.data.fd` and the `events` that are still
to be handled, and the two kinds of open descriptors. `served` is the client whose request has
set `fd` and `total`, until another event sets them or the client is gone; `completed` are the
clients at each success. -/
structure Server where
  offset : Int
  fd : Int
  total : Int
  data : Int
  events : List EpollEvent
  files : Int → Option OpenFile
  clients : Int → Option Client
  served : Option Int
  completed : List Client

/-- `ev` has been used to register the listening socket. -/
def Server.start (listenfd : Int) : Server where
  offset := 0
  fd := 0
  total := 0
  data := listenfd
  events := []
  files _ := none
  clients _ := none
  served := none
  completed := []

/-- `sendfile` without an offset of its own: it sends from the position of the file. -/
def Server.sendfile (s : Server) (sockfd fd ret : Int) : Server :=
  if ret = -1 then s
  else
    let bytes := match s.files fd with
      | some f => slice f.content f.pos ret.toNat
      | none => []
    { s with
      files := Function.update s.files fd ((s.files fd).map fun f => { f with pos := f.pos + ret.toNat })
      clients := Function.update s.clients sockfd
        ((s.clients sockfd).map fun c => { c with received := c.received ++ bytes }) }

/-- `epoll_ctl(epfd, EPOLL_CTL_MOD, sockfd, &ev)`: `ev.data` is stored as it is. -/
def Server.epoll_mod (s : Server) (sockfd : Int) (writing : Bool) : Server :=
  { s with
    clients := Function.update s.clients sockfd
      ((s.clients sockfd).map fun c => { c with writing := writing, data := s.data }) }

/-- The success of the transfer to `sockfd`: `offset = 0` and `close(fd)`. -/
def Server.success (s : Server) (sockfd : Int) : Server :=
  { s with
    offset := 0
    files := Function.update s.files s.fd none
    completed := s.completed ++ (s.clients sockfd).toList }

def onAccept (s : Server) (connfd : Int) : Server :=
  { s with
    data := connfd
    clients := Function.update s.clients connfd
      (some { writing := false, data := connfd, requested := none, received := [] }) }

/-- `recv` has returned 0, or the event is `EPOLLHUP` or `EPOLLERR`: whatever has the number
is closed. -/
def onClose (s : Server) (sockfd : Int) : Server :=
  { s with
    files := Function.update s.files sockfd none
    clients := Function.update s.clients sockfd none
    served := if s.served = some sockfd then none else s.served }

/-- `recv` has failed with a reset. The socket is closed, but the request is handled all the
same: `open("")` and `sendfile` fail, and `st_size` is what `stat` has left. -/
def onReset (s : Server) (sockfd st_size : Int) : Server :=
  { s with clients := Function.update s.clients sockfd none, fd := -1, total := int st_size, served := none }

/-- The request of `name`: `fd` and `file` are what `open` returns and opens, `st_size` is from
`stat`, and `ret` is what `sendfile` returns. -/
def onRequest (s : Server) (sockfd : Int) (name : String) (file : Option (List Byte)) (fd st_size ret : Int) :
    Server :=
  let clients := Function.update s.clients sockfd
    ((s.clients sockfd).map fun c => { c with requested := some name, received := [] })
  let s := { s with
    fd := fd
    files := Function.update s.files fd (file.map fun content => { content := content, pos := 0 })
    clients := clients
    served := some sockfd }
  let s := s.sendfile sockfd fd ret
  let s := { s with total := int st_size }
  if ret = -1 then s
  else if ret ≠ st_size then { s.epoll_mod sockfd true with offset := s.offset + ret }
  else s.success sockfd

/-- The event is `EPOLLOUT`, and `sendfile` returns `ret`. -/
def onWritable (s : Server) (sockfd ret : Int) : Server :=
  let s := s.sendfile sockfd s.fd ret
  if ret = -1 then s
  else if s.offset < s.total then { s.epoll_mod sockfd true with offset := s.offset + ret }
  else (s.epoll_mod sockfd false).success sockfd

/-- A call of `epoll_wait`, or an entry of `events` with the answers to the calls for it. -/
inductive Event where
  | epoll_wait (events : List EpollEvent)
  | accept (connfd : Int)
  | read_err (sockfd : Int)
  | close (sockfd : Int)
  | reset (sockfd st_size : Int)
  | request (sockfd : Int) (name : String) (file : Option (List Byte)) (fd st_size ret : Int)
  | writable (sockfd ret : Int)

section Kernel
variable (listenfd : Int) (contents : String → Option (List Byte)) (s : Server)

def Server.with_events (s : Server) (events : List EpollEvent) : Server := { s with events := events }

/-- What `epoll_wait` can report of a registered socket. -/
inductive Server.Reports : Int → EpollEvent → Prop where
  | listening (ready : Ready) : Reports listenfd { fd := listenfd, ready := ready }
  | input {sockfd : Int} {c : Client} (client : s.clients sockfd = some c) (reading : c.writing = false) :
      Reports sockfd { fd := c.data, ready := .input }
  | output {sockfd : Int} {c : Client} (client : s.clients sockfd = some c) (writing : c.writing = true) :
      Reports sockfd { fd := c.data, ready := .output }
  | hangup {sockfd : Int} {c : Client} (client : s.clients sockfd = some c) :
      Reports sockfd { fd := c.data, ready := .hangup }

/-- No descriptor has the number. -/
structure Server.Free (d : Int) : Prop where
  number : 0 ≤ d
  other : d ≠ listenfd
  file : s.files d = none
  client : s.clients d = none

/-- What `open` and `stat` give for a name, where `contents` are the files. -/
inductive Opens (name : String) : Option (List Byte) → Int → Int → Prop where
  | found {content : List Byte} {fd : Int} (listed : contents name = some content) (free : s.Free listenfd fd) :
      Opens name (some content) fd content.length
  | refused (st_size : Int) : Opens name none (-1) st_size
  /-- A directory can be opened, but not be sent. -/
  | directory {fd : Int} (free : s.Free listenfd fd) (st_size : Int) : Opens name none fd st_size

end Kernel

/-- What `sendfile` can return for a count. -/
inductive SendReturns (client : Option Client) (file : Option OpenFile) (count : Int) : Int → Prop where
  | refused : SendReturns client file count (-1)
  | sent {c : Client} {f : OpenFile} {ret : Int} (target : client = some c) (source : file = some f)
      (least : 0 ≤ ret) (most : ret ≤ count) (left : f.pos + ret ≤ f.content.length) :
      SendReturns client file count ret

/-- The body of the `for (;;)`, one entry of `events` after the other. -/
inductive Server.Step (listenfd : Int) (contents : String → Option (List Byte)) : Server → Event → Server → Prop where
  | epoll_wait {s : Server} {events : List EpollEvent} {sockets : List Int} (handled : s.events = [])
      (once : sockets.Nodup) (reports : List.Forall₂ (s.Reports listenfd) sockets events)
      (most : events.length ≤ 20) : Step listenfd contents s (.epoll_wait events) (s.with_events events)
  | accept {s : Server} {ready : Ready} {rest : List EpollEvent} {connfd : Int}
      (head : s.events = { fd := listenfd, ready := ready } :: rest) (free : s.Free listenfd connfd) :
      Step listenfd contents s (.accept connfd) (onAccept (s.with_events rest) connfd)
  | read_err {s : Server} {sockfd : Int} {rest : List EpollEvent} (head : s.events = { fd := sockfd, ready := .input } :: rest)
      (other : sockfd ≠ listenfd) : Step listenfd contents s (.read_err sockfd) (s.with_events rest)
  | eof {s : Server} {sockfd : Int} {rest : List EpollEvent} {c : Client}
      (head : s.events = { fd := sockfd, ready := .input } :: rest) (other : sockfd ≠ listenfd)
      (client : s.clients sockfd = some c) :
      Step listenfd contents s (.close sockfd) (onClose (s.with_events rest) sockfd)
  | hangup {s : Server} {sockfd : Int} {rest : List EpollEvent} (head : s.events = { fd := sockfd, ready := .hangup } :: rest)
      (other : sockfd ≠ listenfd) :
      Step listenfd contents s (.close sockfd) (onClose (s.with_events rest) sockfd)
  | reset {s : Server} {sockfd st_size : Int} {rest : List EpollEvent} {c : Client}
      (head : s.events = { fd := sockfd, ready := .input } :: rest) (other : sockfd ≠ listenfd)
      (client : s.clients sockfd = some c) :
      Step listenfd contents s (.reset sockfd st_size) (onReset (s.with_events rest) sockfd st_size)
  | request {s : Server} {sockfd fd st_size ret : Int} {name : String} {file : Option (List Byte)}
      {rest : List EpollEvent} {c : Client} (head : s.events = { fd := sockfd, ready := .input } :: rest)
      (other : sockfd ≠ listenfd) (client : s.clients sockfd = some c)
      (opens : Opens listenfd contents s name file fd st_size)
      (returns : SendReturns (s.clients sockfd) (file.map fun content => { content := content, pos := 0 }) st_size ret) :
      Step listenfd contents s (.request sockfd name file fd st_size ret)
        (onRequest (s.with_events rest) sockfd name file fd st_size ret)
  | writable {s : Server} {sockfd ret : Int} {rest : List EpollEvent}
      (head : s.events = { fd := sockfd, ready := .output } :: rest) (other : sockfd ≠ listenfd)
      (returns : SendReturns (s.clients sockfd) (s.files s.fd) s.total ret) :
      Step listenfd contents s (.writable sockfd ret) (onWritable (s.with_events rest) sockfd ret)

/-! ## What the handlers do -/

theorem int_of_lt {n : Int} (least : 0 ≤ n) (small : n < 2 ^ 31) : int n = n := by
  rw [int, BitVec.toInt_ofInt]
  exact Int.bmod_eq_of_le (by omega) (by omega)

section Handlers
variable {s : Server} {sockfd ret : Int} {c : Client}

/-- A failed `sendfile` changes nothing. -/
theorem onWritable_refused : onWritable s sockfd (-1) = s := by
  simp [onWritable, Server.sendfile]

theorem sendfile_sent {fd : Int} {f : OpenFile} (sends : ret ≠ -1) (source : s.files fd = some f)
    (client : s.clients sockfd = some c) :
    s.sendfile sockfd fd ret =
      { s with
        files := Function.update s.files fd (some { f with pos := f.pos + ret.toNat })
        clients := Function.update s.clients sockfd
          (some { c with received := c.received ++ slice f.content f.pos ret.toNat }) } := by
  simp only [Server.sendfile, if_neg sends, source, client, Option.map_some]

/-- Part of the file has been sent, and the registration waits for the rest. -/
theorem onWritable_more {f : OpenFile} (sends : ret ≠ -1) (source : s.files s.fd = some f)
    (client : s.clients sockfd = some c) (more : s.offset < s.total) :
    onWritable s sockfd ret =
      { s with
        offset := s.offset + ret
        files := Function.update s.files s.fd (some { f with pos := f.pos + ret.toNat })
        clients := Function.update s.clients sockfd
          (some { c with
            writing := true
            data := s.data
            received := c.received ++ slice f.content f.pos ret.toNat }) } := by
  simp [onWritable, sendfile_sent sends source client, if_neg sends, if_pos more, Server.epoll_mod]

theorem onWritable_success {f : OpenFile} (sends : ret ≠ -1) (source : s.files s.fd = some f)
    (client : s.clients sockfd = some c) (all : ¬ s.offset < s.total) :
    onWritable s sockfd ret =
      { s with
        offset := 0
        files := Function.update s.files s.fd none
        clients := Function.update s.clients sockfd
          (some { c with
            writing := false
            data := s.data
            received := c.received ++ slice f.content f.pos ret.toNat })
        completed := s.completed ++
          [{ c with
            writing := false
            data := s.data
            received := c.received ++ slice f.content f.pos ret.toNat }] } := by
  simp [onWritable, sendfile_sent sends source client, if_neg sends, if_neg all, Server.epoll_mod, Server.success]

variable {fd st_size : Int} {name : String} {content : List Byte}

/-- The state of a request that gets nothing yet. -/
def Server.asked (s : Server) (sockfd : Int) (c : Client) (name : String) (file : Option (List Byte)) (fd st_size : Int) :
    Server :=
  { s with
    fd := fd
    total := int st_size
    files := Function.update s.files fd (file.map fun content => { content := content, pos := 0 })
    clients := Function.update s.clients sockfd (some { c with requested := some name, received := [] })
    served := some sockfd }

theorem onRequest_refused (file : Option (List Byte)) (client : s.clients sockfd = some c) :
    onRequest s sockfd name file fd st_size (-1) = s.asked sockfd c name file fd st_size := by
  simp [onRequest, Server.sendfile, Server.asked, client]

theorem onRequest_more (sends : ret ≠ -1) (client : s.clients sockfd = some c) (rest : ret ≠ st_size) :
    onRequest s sockfd name (some content) fd st_size ret =
      { s with
        offset := s.offset + ret
        fd := fd
        total := int st_size
        files := Function.update s.files fd (some { content := content, pos := ret.toNat })
        clients := Function.update s.clients sockfd
          (some { writing := true, data := s.data, requested := some name, received := slice content 0 ret.toNat })
        served := some sockfd } := by
  simp [onRequest, Server.sendfile, client, if_neg sends, if_pos rest, Server.epoll_mod]

theorem onRequest_success (sends : ret ≠ -1) (client : s.clients sockfd = some c) (all : ret = st_size) :
    onRequest s sockfd name (some content) fd st_size ret =
      { s with
        offset := 0
        fd := fd
        total := int st_size
        files := Function.update s.files fd none
        clients := Function.update s.clients sockfd
          (some { c with requested := some name, received := slice content 0 ret.toNat })
        served := some sockfd
        completed := s.completed ++ [{ c with requested := some name, received := slice content 0 ret.toNat }] } := by
  have whole : ¬ ret ≠ st_size := fun differ => differ all
  simp [onRequest, Server.sendfile, client, if_neg sends, if_neg whole, Server.success]

end Handlers

/-! ## One transfer at a time -/

/-- The client has received the file it asked for, from its first byte to its last. -/
def Client.Right (contents : String → Option (List Byte)) (c : Client) : Prop :=
  ∃ name, c.requested = some name ∧ contents name = some c.received

/-- The open file is the one the client asked for, and the client has what stands before its
position. -/
structure Server.InProgress (contents : String → Option (List Byte)) (s : Server) (c : Client) (f : OpenFile) : Prop where
  asked : ∃ name, c.requested = some name ∧ contents name = some f.content
  received : c.received = f.content.take f.pos
  inside : f.pos ≤ f.content.length
  total : s.total = int f.content.length

/-- Each client whose transfer is complete has the file, and the one being served has what has
been sent of it. -/
structure Server.Kept (contents : String → Option (List Byte)) (s : Server) : Prop where
  completed : ∀ c ∈ s.completed, c.Right contents
  served : ∀ sockfd, s.served = some sockfd →
    ∃ c, s.clients sockfd = some c ∧ ∀ f, s.files s.fd = some f → s.InProgress contents c f

/-- The variables belong to the transfer that goes on: when `sendfile` succeeds for an event
that a socket is writable, the descriptor stored with it is the one of the last request, no
other request's or reset's having come in between, `offset` is how much of the file has been
sent, and an `int` holds its size. -/
def Server.Alone (s : Server) : Event → Prop
  | .writable sockfd ret => ret ≠ -1 → s.served = some sockfd ∧
      ∀ f, s.files s.fd = some f → s.offset = f.pos ∧ f.content.length < 2 ^ 31
  | _ => True

section Step
variable {contents : String → Option (List Byte)} {s s' : Server} {sockfd : Int} {c : Client}

/-- Of the server only the size counts for a transfer. -/
theorem Server.InProgress.of_total {f : OpenFile} (progress : s.InProgress contents c f) (same : s'.total = s.total) :
    s'.InProgress contents c f :=
  ⟨progress.asked, progress.received, progress.inside, same.trans progress.total⟩

/-- It is enough to look at the client that is served. -/
theorem Server.Kept.of_served (completed : ∀ c' ∈ s.completed, c'.Right contents)
    (served : s.served = some sockfd) (client : s.clients sockfd = some c)
    (progress : ∀ f, s.files s.fd = some f → s.InProgress contents c f) : s.Kept contents := by
  refine ⟨completed, ?_⟩
  intro x served'
  obtain rfl := Option.some.inj (served.symm.trans served')
  exact ⟨c, client, progress⟩

theorem Server.Kept.completed_snoc (kept : s.Kept contents) (right : c.Right contents) :
    ∀ c' ∈ s.completed ++ [c], c'.Right contents :=
  List.forall_mem_append.mpr ⟨kept.completed, List.forall_mem_singleton.mpr right⟩

theorem Server.Kept.events (kept : s.Kept contents) (events : List EpollEvent) :
    Server.Kept contents (s.with_events events) := by
  refine ⟨kept.completed, ?_⟩
  intro x served
  obtain ⟨c, client, progress⟩ := kept.served x served
  refine ⟨c, client, ?_⟩
  intro f source
  exact (progress f source).of_total rfl

theorem Server.Kept.accept (kept : s.Kept contents) (free : s.clients sockfd = none) :
    (onAccept s sockfd).Kept contents := by
  refine ⟨kept.completed, ?_⟩
  intro x served
  obtain ⟨c, client, progress⟩ := kept.served x served
  have other : x ≠ sockfd := by
    rintro rfl
    rw [free] at client
    cases client
  refine ⟨c, (Function.update_of_ne other ..).trans client, ?_⟩
  intro f source
  exact (progress f source).of_total rfl

theorem Server.Kept.close (kept : s.Kept contents) : (onClose s sockfd).Kept contents := by
  refine ⟨kept.completed, ?_⟩
  intro x served
  simp only [onClose] at served
  split at served
  · cases served
  · next another =>
    obtain ⟨c, client, progress⟩ := kept.served x served
    have other : x ≠ sockfd := by
      rintro rfl
      exact another served
    refine ⟨c, (Function.update_of_ne other ..).trans client, ?_⟩
    intro f source
    have open_ : s.files s.fd = some f := by
      obtain same | differ := eq_or_ne s.fd sockfd
      · simp [onClose, same] at source
      · exact (Function.update_of_ne differ ..).symm.trans source
    exact (progress f open_).of_total rfl

theorem Server.Kept.reset (kept : s.Kept contents) (st_size : Int) : (onReset s sockfd st_size).Kept contents :=
  ⟨kept.completed, fun _ served => nomatch served⟩

/-- A request that gets nothing begins with nothing. -/
theorem Server.Kept.asked (kept : s.Kept contents) {name : String} {file : Option (List Byte)} {fd st_size : Int}
    (opened : ∀ content, file = some content → contents name = some content ∧ st_size = content.length) :
    (s.asked sockfd c name file fd st_size).Kept contents := by
  refine Server.Kept.of_served kept.completed rfl (Function.update_self ..) ?_
  intro f source
  simp only [Server.asked, Function.update_self, Option.map_eq_some_iff] at source
  obtain ⟨content, here, rfl⟩ := source
  obtain ⟨listed, size⟩ := opened content here
  exact ⟨⟨name, rfl, listed⟩, rfl, Nat.zero_le _, congrArg int size⟩

theorem Server.Kept.request (kept : s.Kept contents) {name : String} {content : List Byte} {fd ret : Int}
    (client : s.clients sockfd = some c) (listed : contents name = some content) (sends : ret ≠ -1) (least : 0 ≤ ret)
    (most : ret ≤ content.length) :
    (onRequest s sockfd name (some content) fd content.length ret).Kept contents := by
  by_cases whole : ret = content.length
  · rw [onRequest_success sends client whole]
    refine Server.Kept.of_served (kept.completed_snoc ⟨name, rfl, ?_⟩) rfl (Function.update_self ..) ?_
    · dsimp only
      rw [listed, whole, Int.toNat_natCast, slice, List.drop_zero, List.take_length]
    · intro f source
      dsimp only at source
      rw [Function.update_self] at source
      cases source
  · rw [onRequest_more sends client whole]
    refine Server.Kept.of_served kept.completed rfl (Function.update_self ..) ?_
    intro f source
    dsimp only at source
    rw [Function.update_self] at source
    cases source
    refine ⟨⟨name, rfl, listed⟩, ?_, by dsimp only; omega, rfl⟩
    dsimp only
    rw [slice, List.drop_zero]

/-- The client that is served gets the bytes that follow what it has. -/
theorem Server.InProgress.next {f : OpenFile} (progress : s.InProgress contents c f) (n : Nat) :
    c.received ++ slice f.content f.pos n = f.content.take (f.pos + n) := by
  rw [progress.received, slice, List.take_add]

theorem Server.Kept.writable (kept : s.Kept contents) {ret : Int} (sends : ret ≠ -1)
    (alone : s.served = some sockfd ∧ ∀ f, s.files s.fd = some f → s.offset = f.pos ∧ f.content.length < 2 ^ 31)
    (returns : SendReturns (s.clients sockfd) (s.files s.fd) s.total ret) : (onWritable s sockfd ret).Kept contents := by
  obtain ⟨served, counts⟩ := alone
  cases returns with
  | refused => exact absurd rfl sends
  | @sent c f _ target source least most left =>
    obtain ⟨c', client, progress⟩ := kept.served sockfd served
    obtain rfl := Option.some.inj (target.symm.trans client)
    have before := progress f source
    have inside := before.inside
    obtain ⟨offset, small⟩ := counts f source
    have total : s.total = f.content.length := before.total.trans (int_of_lt (by omega) (by omega))
    by_cases more : s.offset < s.total
    · rw [onWritable_more sends source client more]
      refine Server.Kept.of_served kept.completed served (Function.update_self ..) ?_
      intro f' source'
      dsimp only at source'
      rw [Function.update_self] at source'
      cases source'
      exact ⟨before.asked, before.next _, by dsimp only; omega, before.total⟩
    · rw [onWritable_success sends source client more]
      obtain ⟨name, asked, listed⟩ := before.asked
      refine Server.Kept.of_served (kept.completed_snoc ⟨name, asked, ?_⟩) served (Function.update_self ..) ?_
      · -- all of the file had been sent, and `sendfile` found nothing more
        dsimp only
        rw [listed, before.next, List.take_of_length_le (by omega)]
      · intro f' source'
        dsimp only at source'
        rw [Function.update_self] at source'
        cases source'

variable {listenfd : Int}

/-- **One step** of a transfer that is alone keeps each client's bytes right. -/
theorem Server.step_kept {e : Event} (kept : s.Kept contents) (step : s.Step listenfd contents e s') (alone : s.Alone e) :
    s'.Kept contents := by
  cases step with
  | epoll_wait _ _ _ _ => exact kept.events _
  | accept _ free => exact (kept.events _).accept free.client
  | read_err _ _ => exact kept.events _
  | eof _ _ _ => exact (kept.events _).close
  | hangup _ _ => exact (kept.events _).close
  | reset _ _ _ => exact (kept.events _).reset _
  | @request sockfd fd st_size ret name file rest c _ _ client opens returns =>
    cases returns with
    | refused =>
      have asked : onRequest (s.with_events rest) sockfd name file fd st_size (-1) =
          Server.asked (s.with_events rest) sockfd c name file fd st_size := onRequest_refused _ client
      rw [asked]
      apply (kept.events rest).asked
      intro content file
      cases opens with
      | found listed _ => exact ⟨Option.some.inj file ▸ listed, by rw [Option.some.inj file]⟩
      | refused => cases file
      | directory => cases file
    | sent _ source least most left =>
      cases opens with
      | found listed _ => exact (kept.events rest).request client listed (by omega) least most
      | refused => cases source
      | directory => cases source
  | @writable _ ret rest _ _ returns =>
    by_cases sends : ret = -1
    · rw [sends, onWritable_refused]
      exact kept.events _
    · exact (kept.events rest).writable sends (alone sends) returns

end Step

/-- **Isolation**: if whatever is sent to a writable socket is sent to the client of the last
request, with `offset` its progress, each client whose transfer completes has received the file
it asked for. -/
theorem completed_of_alone {listenfd : Int} {contents : String → Option (List Byte)} {events : List Event}
    (alone : StepsMeet (Server.Step listenfd contents) Server.Alone (.start listenfd) events) :
    Always (Server.Step listenfd contents) (fun s => ∀ c ∈ s.completed, c.Right contents) (.start listenfd) events := by
  apply always_of_stepsMeet (J := Server.Kept contents) ?_ ?_ ?_ alone
  · exact fun s e s' kept step ok => Server.step_kept kept step ok
  · exact fun s kept => kept.completed
  · exact ⟨fun _ member => (nomatch member), fun _ served => (nomatch served)⟩

/-- The files of two clients. -/
def twoFiles (name : String) : Option (List Byte) :=
  if name = "a" then some [1, 2, 3, 4] else if name = "b" then some [7, 8, 9] else none

/-- The answers of a run in which one client is sent its file whole, and then another one its
file in three parts, the last one empty. -/
def oneAfterTheOther : List Event :=
  [.epoll_wait [⟨3, .input⟩], .accept 6, .epoll_wait [⟨3, .input⟩], .accept 5,
    .epoll_wait [⟨6, .input⟩, ⟨5, .input⟩], .request 6 "b" (some [7, 8, 9]) 7 3 3,
    .request 5 "a" (some [1, 2, 3, 4]) 7 4 3, .epoll_wait [⟨5, .output⟩], .writable 5 1,
    .epoll_wait [⟨5, .output⟩], .writable 5 0]

theorem oneAfterTheOther_alone :
    StepsMeet (Server.Step 3 twoFiles) Server.Alone (.start 3) oneAfterTheOther := by
  intro _ step
  cases step
  refine ⟨trivial, fun _ step => ?_⟩
  cases step
  rename_i head _
  cases head
  refine ⟨trivial, fun _ step => ?_⟩
  cases step
  refine ⟨trivial, fun _ step => ?_⟩
  cases step
  rename_i head _
  cases head
  refine ⟨trivial, fun _ step => ?_⟩
  cases step
  refine ⟨trivial, fun _ step => ?_⟩
  cases step
  rename_i head _ _ _ _
  cases head
  refine ⟨trivial, fun _ step => ?_⟩
  cases step
  rename_i head _ _ _ _
  cases head
  refine ⟨trivial, fun _ step => ?_⟩
  cases step
  refine ⟨trivial, fun _ step => ?_⟩
  cases step
  rename_i head _ _
  cases head
  refine ⟨fun _ => ⟨rfl, fun f source => ?_⟩, fun _ step => ?_⟩
  · obtain rfl := Option.some.inj source
    decide
  cases step
  refine ⟨trivial, fun _ step => ?_⟩
  cases step
  rename_i head _ _
  cases head
  refine ⟨fun _ => ⟨rfl, fun f source => ?_⟩, trivial⟩
  obtain rfl := Option.some.inj source
  decide

/-- A call of `epoll_wait` that reports one socket. -/
theorem epoll_wait_one {listenfd sockfd : Int} {contents : String → Option (List Byte)} {s : Server} {e : EpollEvent}
    (handled : s.events = []) (reports : s.Reports listenfd sockfd e) :
    s.Step listenfd contents (.epoll_wait [e]) (s.with_events [e]) :=
  .epoll_wait handled (List.pairwise_singleton _ sockfd) (.cons reports .nil) (by simp)

/-- One that reports the listening socket. -/
theorem epoll_wait_listening {listenfd : Int} {contents : String → Option (List Byte)} {s : Server} (handled : s.events = []) :
    s.Step listenfd contents (.epoll_wait [⟨listenfd, .input⟩]) (s.with_events [⟨listenfd, .input⟩]) :=
  epoll_wait_one handled (.listening _)

/-- Both have their files in the end. -/
theorem completed_of_alone_two :
    ∃ s, Path (Server.Step 3 twoFiles) (.start 3) oneAfterTheOther s ∧
      s.completed.map Client.received = [[7, 8, 9], [1, 2, 3, 4]] ∧ ∀ c ∈ s.completed, c.Right twoFiles := by
  let s₁ := onAccept (.start 3) 6
  let s₂ := onAccept s₁ 5
  let s₃ := onRequest (s₂.with_events [⟨5, .input⟩]) 6 "b" (some [7, 8, 9]) 7 3 3
  let s₄ := onRequest (s₃.with_events []) 5 "a" (some [1, 2, 3, 4]) 7 4 3
  let s₅ := onWritable s₄ 5 1
  let s₆ := onWritable s₅ 5 0
  have first : Server.Step 3 twoFiles ((Server.start 3).with_events [⟨3, .input⟩]) (.accept 6) s₁ :=
    .accept rfl ⟨by decide, by decide, rfl, rfl⟩
  have second : Server.Step 3 twoFiles (s₁.with_events [⟨3, .input⟩]) (.accept 5) s₂ :=
    .accept rfl ⟨by decide, by decide, rfl, rfl⟩
  have both : s₂.Step 3 twoFiles (.epoll_wait [⟨6, .input⟩, ⟨5, .input⟩])
      (s₂.with_events [⟨6, .input⟩, ⟨5, .input⟩]) :=
    .epoll_wait rfl (by decide : ([6, 5] : List Int).Nodup)
      (.cons (.input (c := ⟨false, 6, none, []⟩) rfl rfl) (.cons (.input (c := ⟨false, 5, none, []⟩) rfl rfl) .nil))
      (by decide)
  have third : Server.Step 3 twoFiles (s₂.with_events [⟨6, .input⟩, ⟨5, .input⟩])
      (.request 6 "b" (some [7, 8, 9]) 7 3 3) s₃ :=
    .request rfl (by decide) rfl (.found rfl ⟨by decide, by decide, rfl, rfl⟩)
      (.sent rfl rfl (by decide) (by decide) (by decide))
  have fourth : s₃.Step 3 twoFiles (.request 5 "a" (some [1, 2, 3, 4]) 7 4 3) s₄ :=
    .request rfl (by decide) rfl (.found rfl ⟨by decide, by decide, rfl, rfl⟩)
      (.sent rfl rfl (by decide) (by decide) (by decide))
  have waits (s : Server) (handled : s.events = []) {received : List Byte}
      (client : s.clients 5 = some { writing := true, data := 5, requested := "a", received := received }) :
      s.Step 3 twoFiles (.epoll_wait [⟨5, .output⟩]) (s.with_events [⟨5, .output⟩]) :=
    epoll_wait_one handled (.output client rfl)
  have fifth : Server.Step 3 twoFiles (s₄.with_events [⟨5, .output⟩]) (.writable 5 1) s₅ :=
    .writable rfl (by decide)
      (.sent (f := { content := [1, 2, 3, 4], pos := 3 }) rfl rfl (by decide) (by decide) (by decide))
  have sixth : Server.Step 3 twoFiles (s₅.with_events [⟨5, .output⟩]) (.writable 5 0) s₆ :=
    .writable rfl (by decide)
      (.sent (f := { content := [1, 2, 3, 4], pos := 4 }) rfl rfl (by decide) (by decide) (by decide))
  have path : Path (Server.Step 3 twoFiles) (.start 3) oneAfterTheOther s₆ :=
    .cons (epoll_wait_listening rfl) <| .cons first <| .cons (epoll_wait_listening rfl) <| .cons second <| .cons both <| .cons third <|
    .cons fourth <| .cons (waits _ rfl rfl) <| .cons fifth <| .cons (waits _ rfl rfl) <| .cons sixth <| .nil _
  exact ⟨s₆, path, rfl, (completed_of_alone oneAfterTheOther_alone).path path⟩

/-- Two clients connect, and the first asks for a file of which the first `sendfile` sends a
part: the rest is sent to the second, whose transfer is then a success. -/
theorem rest_to_last_accepted :
    ¬ Always (Server.Step 3 twoFiles) (fun s => ∀ c ∈ s.completed, c.Right twoFiles) (.start 3)
      [.epoll_wait [⟨3, .input⟩], .accept 5, .epoll_wait [⟨3, .input⟩], .accept 6,
        .epoll_wait [⟨5, .input⟩], .request 5 "a" (some [1, 2, 3, 4]) 7 4 2,
        .epoll_wait [⟨6, .output⟩], .writable 6 2, .epoll_wait [⟨6, .output⟩], .writable 6 0] := by
  intro always
  let s₁ := onAccept (.start 3) 5
  let s₂ := onAccept s₁ 6
  let s₃ := onRequest s₂ 5 "a" (some [1, 2, 3, 4]) 7 4 2
  let s₄ := onWritable s₃ 6 2
  let s₅ := onWritable s₄ 6 0
  have first : Server.Step 3 twoFiles ((Server.start 3).with_events [⟨3, .input⟩]) (.accept 5) s₁ :=
    .accept rfl ⟨by decide, by decide, rfl, rfl⟩
  have second : Server.Step 3 twoFiles (s₁.with_events [⟨3, .input⟩]) (.accept 6) s₂ :=
    .accept rfl ⟨by decide, by decide, rfl, rfl⟩
  have reading : s₂.clients 5 = some { writing := false, data := 5, requested := none, received := [] } := rfl
  have asks : s₂.Step 3 twoFiles (.epoll_wait [⟨5, .input⟩]) (s₂.with_events [⟨5, .input⟩]) :=
    epoll_wait_one rfl (.input reading rfl)
  have third : Server.Step 3 twoFiles (s₂.with_events [⟨5, .input⟩]) (.request 5 "a" (some [1, 2, 3, 4]) 7 4 2) s₃ :=
    .request rfl (by decide) rfl (.found rfl ⟨by decide, by decide, rfl, rfl⟩)
      (.sent rfl rfl (by decide) (by decide) (by decide))
  -- the socket of 5 is writable, and 6 stands in the event
  have writing : s₃.clients 5 = some { writing := true, data := 6, requested := "a", received := [1, 2] } := rfl
  have misdirected : s₃.Step 3 twoFiles (.epoll_wait [⟨6, .output⟩]) (s₃.with_events [⟨6, .output⟩]) :=
    epoll_wait_one rfl (.output writing rfl)
  have fourth : Server.Step 3 twoFiles (s₃.with_events [⟨6, .output⟩]) (.writable 6 2) s₄ :=
    .writable rfl (by decide)
      (.sent (f := { content := [1, 2, 3, 4], pos := 2 }) rfl rfl (by decide) (by decide) (by decide))
  have writing' : s₄.clients 6 = some { writing := true, data := 6, requested := none, received := [3, 4] } := rfl
  have waits : s₄.Step 3 twoFiles (.epoll_wait [⟨6, .output⟩]) (s₄.with_events [⟨6, .output⟩]) :=
    epoll_wait_one rfl (.output writing' rfl)
  have fifth : Server.Step 3 twoFiles (s₄.with_events [⟨6, .output⟩]) (.writable 6 0) s₅ :=
    .writable rfl (by decide)
      (.sent (f := { content := [1, 2, 3, 4], pos := 4 }) rfl rfl (by decide) (by decide) (by decide))
  have right := always.path
    (.cons (epoll_wait_listening rfl) <| .cons first <| .cons (epoll_wait_listening rfl) <| .cons second <| .cons asks <| .cons third <|
      .cons misdirected <| .cons fourth <| .cons waits <| .cons fifth <| .nil _)
  have sent : s₅.completed = [{ writing := false, data := 6, requested := none, received := [3, 4] }] := rfl
  obtain ⟨name, asked, _⟩ := right { writing := false, data := 6, requested := none, received := [3, 4] }
    (by rw [sent]; exact List.mem_singleton_self _)
  cases asked

end CodeClips.Aio.Sendfile
