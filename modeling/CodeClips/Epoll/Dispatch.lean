import CodeClips.Epoll.Registration
import Mathlib.Data.List.Pairwise

/-!
# Dispatching ready events

The body of the loop over the ready events in `LTReactor::Run`, with the handlers of
`tcpeventhandler.cpp` behind it. One event may call `OnFDRead`, `OnFDWrite` and `Close` of the
same object, and a `TcpSocketHandler` deletes itself in `Close`, so the state keeps a trace of
the member functions called and the objects deleted. `safe_iff`: the runs that touch no
deleted handler are those whose events are all harmless.
-/

namespace CodeClips.Epoll

def EPOLLERR : Events := 0x008

/-- The member functions `Run` and `OnAccept` call. -/
inductive Member where
  | OnFDRead
  | OnFDWrite
  | Close
  | RegisterReadEvent
deriving DecidableEq, Repr

/-- What is done to a handler, named by its `id`. -/
inductive Op where
  | call (id : Nat) (member : Member)
  | delete (id : Nat)
deriving DecidableEq, Repr

def Op.id : Op → Nat
  | .call id _ => id
  | .delete id => id

/-- The later operation is on no handler that the earlier one deletes. -/
def Op.Apart (earlier later : Op) : Prop := earlier ≠ .delete later.id

instance : DecidableRel Op.Apart := fun _ _ => inferInstanceAs (Decidable (_ ≠ _))

/-- `handlers` has the descriptor of each handler made so far, under its `id`: the
`TcpServerEventHandler` is number 0, the others are `TcpSocketHandler`s. -/
structure Program where
  reactor : LTReactor
  handlers : List Int
  opened : Int → Bool
  trace : List Op

/-- After `OnListen`. -/
def Program.start (m_fd : Int) (opened : Int → Bool) : Program where
  reactor := (LTReactor.init.RegisterReadEvent { id := 0, m_fd := m_fd } false).1
  handlers := [m_fd]
  opened := Function.update opened m_fd true
  trace := []

def Program.record (s : Program) (op : Op) : Program := { s with trace := s.trace ++ [op] }

/-- `close`: the descriptor leaves the interest list as well. -/
def Program.close (s : Program) (fd : Int) : Program :=
  { s with
    reactor := { s.reactor with interest := Function.update s.reactor.interest fd none }
    opened := Function.update s.opened fd false }

/-! ## The handlers -/

/-- What the two `Close` have in common. -/
def Program.unregister (s : Program) (p : FDEventHanderBase) : Program :=
  let reactor := (s.reactor.UnRegisterReadEvent p false).1
  let reactor := (reactor.UnRegisterWriteEvent p false).1
  { s with reactor := reactor }.close p.m_fd

def TcpServerEventHandler.Close (s : Program) (p : FDEventHanderBase) : Program := s.unregister p

/-- The last statement is `delete this`. -/
def TcpSocketHandler.Close (s : Program) (p : FDEventHanderBase) : Program :=
  (s.unregister p).record (.delete p.id)

/-- A registration that a decoder asks of its socket; `refused` as in `epoll_ctl`. -/
inductive Registration where
  | read (refused : Bool)
  | write (refused : Bool)
  | noRead (refused : Bool)
  | noWrite (refused : Bool)
deriving DecidableEq, Repr

def LTReactor.apply (r : LTReactor) (p : FDEventHanderBase) : Registration → LTReactor
  | .read refused => (r.RegisterReadEvent p refused).1
  | .write refused => (r.RegisterWriteEvent p refused).1
  | .noRead refused => (r.UnRegisterReadEvent p refused).1
  | .noWrite refused => (r.UnRegisterWriteEvent p refused).1

/-- One ready event, with the outcome of the calls that it leads to. -/
structure Ready where
  fd : Int
  events : Events
  /-- `read` -/
  iRet : Int
  /-- what `SocketDataDecoderBase::OnProcess` asks for, and if it closes the socket in the end -/
  process : List Registration
  closes : Bool
  /-- `accept` -/
  sockFD : Int
  /-- `epoll_ctl` for the new connection -/
  refused : Bool

/-- `m_dataDecoder->OnProcess`. -/
def OnProcess (s : Program) (p : FDEventHanderBase) (e : Ready) : Program :=
  let s := { s with reactor := e.process.foldl (fun r reg => r.apply p reg) s.reactor }
  if e.closes then TcpSocketHandler.Close s p else s

def TcpSocketHandler.OnFDRead (s : Program) (p : FDEventHanderBase) (e : Ready) : Program :=
  if e.iRet = 0 then TcpSocketHandler.Close s p else OnProcess s p e

def TcpServerEventHandler.OnAccept (s : Program) (fd : Int) (refused : Bool) : Program :=
  let pHandler : FDEventHanderBase := { id := s.handlers.length, m_fd := fd }
  let s := { s with handlers := s.handlers ++ [fd] }.record (.call pHandler.id .RegisterReadEvent)
  let (reactor, iRet) := s.reactor.RegisterReadEvent pHandler refused
  let s := { s with reactor := reactor }
  if iRet ≠ 0 then
    let s := TcpSocketHandler.Close (s.record (.call pHandler.id .Close)) pHandler
    s.record (.delete pHandler.id)
  else s

/-- `accept` opens the descriptor that it returns. -/
def TcpServerEventHandler.OnFDRead (s : Program) (e : Ready) : Program :=
  if e.sockFD < 0 then s
  else OnAccept { s with opened := Function.update s.opened e.sockFD true } e.sockFD e.refused

def FDEventHanderBase.OnFDRead (p : FDEventHanderBase) (s : Program) (e : Ready) : Program :=
  if p.id = 0 then TcpServerEventHandler.OnFDRead s e else TcpSocketHandler.OnFDRead s p e

/-- Both classes leave it empty. -/
def FDEventHanderBase.OnFDWrite (_ : FDEventHanderBase) (s : Program) : Program := s

def FDEventHanderBase.Close (p : FDEventHanderBase) (s : Program) : Program :=
  if p.id = 0 then TcpServerEventHandler.Close s p else TcpSocketHandler.Close s p

/-! ## The loop over the ready events -/

/-- The three `if`s on one handler. -/
def FDEventHanderBase.dispatch (pBase : FDEventHanderBase) (s : Program) (e : Ready) : Program :=
  let s := if e.events &&& EPOLLIN ≠ 0 then pBase.OnFDRead (s.record (.call pBase.id .OnFDRead)) e else s
  let s := if e.events &&& EPOLLOUT ≠ 0 then pBase.OnFDWrite (s.record (.call pBase.id .OnFDWrite)) else s
  if e.events &&& EPOLLERR ≠ 0 then pBase.Close (s.record (.call pBase.id .Close)) else s

/-- The body of the loop. -/
def Program.Run (s : Program) (e : Ready) : Program :=
  if e.fd < 0 then s
  else match (GetFDEventHandler s.reactor.m_fdmap e.fd).1 with
    | none => s
    | some pBase => pBase.dispatch s e

/-- `accept` returns no descriptor that is open. -/
def Program.Step (s : Program) (e : Ready) (s' : Program) : Prop :=
  (e.sockFD < 0 ∨ s.opened e.sockFD = false) ∧ s' = s.Run e

/-- No operation is on a handler deleted before. -/
def Program.Safe (s : Program) : Prop := s.trace.Pairwise Op.Apart

instance (s : Program) : Decidable s.Safe := inferInstanceAs (Decidable (s.trace.Pairwise Op.Apart))

/-! ## What a reactor operation keeps -/

/-- Each entry of `m_fdmap` has a handler of `own`, under its own descriptor, which is in the
interest list; what is in the interest list is open. -/
structure LTReactor.Owned (own : FDEventHanderBase → Prop) (opened : Int → Bool) (r : LTReactor) : Prop where
  known : r.Known
  entry : ∀ fd it, r.m_fdmap fd = some it → own it.pHandler ∧ it.pHandler.m_fd = fd
  watched : ∀ fd, r.m_fdmap fd ≠ none → r.interest fd ≠ none
  opened : ∀ fd, r.interest fd ≠ none → opened fd = true

section Owned
variable {own : FDEventHanderBase → Prop} {opened : Int → Bool} {r : LTReactor}

theorem LTReactor.Owned.imp {own' : FDEventHanderBase → Prop} {opened' : Int → Bool} (owned : r.Owned own opened)
    (more : ∀ fd it, r.m_fdmap fd = some it → own it.pHandler → own' it.pHandler)
    (opens : ∀ fd, opened fd = true → opened' fd = true) : r.Owned own' opened' where
  known := owned.known
  entry := fun fd it here => ⟨more fd it here (owned.entry fd it here).1, (owned.entry fd it here).2⟩
  watched := owned.watched
  opened := fun fd here => opens fd (owned.opened fd here)

/-- A change at one descriptor. -/
theorem LTReactor.Owned.update (owned : r.Owned own opened) (fd : Int) (events : Option Events)
    (entry : Option FDHandler)
    (fine : ∀ it, entry = some it → it.type &&& ~~~(EPOLLOUT ||| EPOLLIN) = 0 ∧ own it.pHandler ∧ it.pHandler.m_fd = fd)
    (watched : entry ≠ none → events ≠ none) (isOpen : events ≠ none → opened fd = true) :
    ({ interest := Function.update r.interest fd events, m_fdmap := Function.update r.m_fdmap fd entry } :
      LTReactor).Owned own opened := by
  refine ⟨LTReactor.known_update owned.known fd events entry fun it here => (fine it here).1, ?_, ?_, ?_⟩
  · intro other it here
    obtain rfl | apart := eq_or_ne other fd
    · exact (fine it (by simpa using here)).2
    · exact owned.entry other it (by simpa [apart] using here)
  · intro other here
    obtain rfl | apart := eq_or_ne other fd
    · simpa using watched (by simpa using here)
    · simpa [apart] using owned.watched other (by simpa [apart] using here)
  · intro other here
    obtain rfl | apart := eq_or_ne other fd
    · exact isOpen (by simpa using here)
    · exact owned.opened other (by simpa [apart] using here)

/-- What an unrefused `epoll_ctl` of the right kind does. -/
theorem LTReactor.Owned.registerEvent (owned : r.Owned own opened) {type : Events}
    (ours : type &&& ~~~(EPOLLOUT ||| EPOLLIN) = 0) {p : FDEventHanderBase} (mine : own p)
    (isOpen : opened p.m_fd = true) (refused : Bool) : (r.registerEvent type p refused).1.Owned own opened := by
  cases refused with
  | true => exact owned
  | false =>
    cases entry : r.m_fdmap p.m_fd with
    | none =>
      cases kernel : r.interest p.m_fd with
      | some events => simpa [LTReactor.registerEvent, GetFDEventHandler, epoll_ctl, entry, kernel] using owned
      | none =>
        simp only [LTReactor.registerEvent, GetFDEventHandler, epoll_ctl, AddFDEventHandler, entry, kernel]
        apply owned.update
        · intro it here
          cases here
          exact ⟨ours, mine, rfl⟩
        · simp
        · exact fun _ => isOpen
    | some it =>
      obtain ⟨events, kernel⟩ := Option.ne_none_iff_exists'.mp (owned.watched p.m_fd (by simp [entry]))
      simp only [LTReactor.registerEvent, GetFDEventHandler, epoll_ctl, AddFDEventHandler, entry, kernel]
      apply owned.update
      · intro it' here
        cases here
        refine ⟨?_, mine, rfl⟩
        dsimp only
        rw [BitVec.and_or_distrib_right, owned.known _ _ entry, ours]
        rfl
      · simp
      · exact fun _ => isOpen

theorem LTReactor.Owned.unRegisterEvent (owned : r.Owned own opened) (type : Events) (p : FDEventHanderBase)
    (refused : Bool) : (r.unRegisterEvent type p refused).1.Owned own opened := by
  cases refused with
  | true => exact owned
  | false =>
    cases entry : r.m_fdmap p.m_fd with
    | none =>
      have same : Function.update r.m_fdmap p.m_fd none = r.m_fdmap := by rw [← entry, Function.update_eq_self]
      cases kernel : r.interest p.m_fd with
      | none => simpa [LTReactor.unRegisterEvent, GetFDEventHandler, epoll_ctl, entry, kernel] using owned
      | some events =>
        have gone := owned.update p.m_fd none none (by simp) (by simp) (by simp)
        rw [same] at gone
        simpa [LTReactor.unRegisterEvent, GetFDEventHandler, epoll_ctl, DelFDEventHandler, entry, kernel] using gone
    | some it =>
      obtain ⟨events, kernel⟩ := Option.ne_none_iff_exists'.mp (owned.watched p.m_fd (by simp [entry]))
      simp only [LTReactor.unRegisterEvent, GetFDEventHandler, epoll_ctl, entry, kernel]
      rw [DelFDEventHandler_eq entry]
      apply owned.update
      · intro left here
        split at here
        · cases here
        · cases here
          refine ⟨?_, (owned.entry _ it entry).1, (owned.entry _ it entry).2⟩
          dsimp only
          rw [BitVec.and_assoc, BitVec.and_comm (~~~type), ← BitVec.and_assoc, owned.known _ _ entry]
          exact BitVec.zero_and
      · simp
      · exact fun _ => owned.opened p.m_fd (by simp [kernel])

theorem LTReactor.Owned.apply (owned : r.Owned own opened) {p : FDEventHanderBase} (mine : own p)
    (isOpen : opened p.m_fd = true) (reg : Registration) : (r.apply p reg).Owned own opened := by
  cases reg with
  | read refused => exact owned.registerEvent (by decide) mine isOpen refused
  | write refused => exact owned.registerEvent (by decide) mine isOpen refused
  | noRead refused => exact owned.unRegisterEvent EPOLLIN p refused
  | noWrite refused => exact owned.unRegisterEvent EPOLLOUT p refused

/-- The registrations of a decoder, one by one. -/
theorem LTReactor.Owned.foldl (owned : r.Owned own opened) {p : FDEventHanderBase} (mine : own p)
    (isOpen : opened p.m_fd = true) (process : List Registration) :
    (process.foldl (fun r reg => r.apply p reg) r).Owned own opened := by
  induction process generalizing r with
  | nil => exact owned
  | cons reg process ih => exact ih (owned.apply mine isOpen reg)

/-- Refused or not, only the descriptor's own entry changes. -/
theorem LTReactor.Owned.unRegisterEvent_m_fdmap (owned : r.Owned own opened) (type : Events)
    (p : FDEventHanderBase) :
    (r.unRegisterEvent type p false).1.m_fdmap = DelFDEventHandler r.m_fdmap p.m_fd type := by
  cases entry : r.m_fdmap p.m_fd with
  | none =>
    cases kernel : r.interest p.m_fd with
    | none => simp [LTReactor.unRegisterEvent, GetFDEventHandler, epoll_ctl, DelFDEventHandler, entry, kernel]
    | some events => simp [LTReactor.unRegisterEvent, GetFDEventHandler, epoll_ctl, DelFDEventHandler, entry, kernel]
  | some it =>
    obtain ⟨events, kernel⟩ := Option.ne_none_iff_exists'.mp (owned.watched p.m_fd (by simp [entry]))
    simp [LTReactor.unRegisterEvent, GetFDEventHandler, epoll_ctl, entry, kernel]

end Owned

/-- The two events taken away one after the other leave no entry. -/
theorem DelFDEventHandler_both {m_fdmap : FdMap} {fd : Int}
    (known : ∀ it, m_fdmap fd = some it → it.type &&& ~~~(EPOLLOUT ||| EPOLLIN) = 0) :
    DelFDEventHandler (DelFDEventHandler m_fdmap fd EPOLLIN) fd EPOLLOUT fd = none := by
  cases entry : m_fdmap fd with
  | none => simp [DelFDEventHandler, entry]
  | some it =>
    have last : it.type &&& ~~~EPOLLIN &&& ~~~EPOLLOUT = 0 := by
      rw [BitVec.and_assoc]
      exact known it entry
    rw [DelFDEventHandler_eq entry]
    split
    · simp [DelFDEventHandler]
    · simp [DelFDEventHandler, last]

/-! ## What an event keeps -/

/-- The handler is one of those made, and not deleted. -/
def Program.Live (s : Program) (p : FDEventHanderBase) : Prop :=
  s.handlers[p.id]? = some p.m_fd ∧ Op.delete p.id ∉ s.trace

/-- `m_fdmap` has handlers only that are not deleted. -/
structure Program.Sound (s : Program) : Prop where
  owned : s.reactor.Owned s.Live s.opened
  made : ∀ op ∈ s.trace, op.id < s.handlers.length

/-- `s` has come to `s'` by these operations, and `m_fdmap` is in order. -/
structure Program.Did (s : Program) (ops : List Op) (s' : Program) : Prop where
  sound : s'.Sound
  trace : s'.trace = s.trace ++ ops
  handlers : s.handlers <+: s'.handlers

theorem Program.Sound.stay {s : Program} (sound : s.Sound) : s.Did [] s :=
  ⟨sound, (List.append_nil _).symm, List.prefix_rfl⟩

theorem Program.Did.append {s t u : Program} {first second : List Op} (did : s.Did first t) (next : t.Did second u) :
    s.Did (first ++ second) u where
  sound := next.sound
  trace := by rw [next.trace, did.trace, List.append_assoc]
  handlers := did.handlers.trans next.handlers

theorem Program.Sound.ite {s t : Program} {ops : List Op} (sound : s.Sound) {c : Prop} [Decidable c]
    (did : s.Did ops t) : s.Did (if c then ops else []) (if c then t else s) := by
  split_ifs
  · exact did
  · exact sound.stay

theorem Program.Did.made {s t : Program} {ops : List Op} (did : s.Did ops t) {id : Nat} {fd : Int}
    (made : s.handlers[id]? = some fd) : t.handlers[id]? = some fd := by
  obtain ⟨rest, more⟩ := did.handlers
  rw [← more, List.getElem?_append_left (List.getElem?_eq_some_iff.mp made).1]
  exact made

/-- `Close` of either class takes the handler out of `m_fdmap`. -/
theorem Program.unregister_owned {own : FDEventHanderBase → Prop} {s : Program}
    (owned : s.reactor.Owned own s.opened) (p : FDEventHanderBase) :
    (s.unregister p).reactor.Owned (fun q => own q ∧ q.m_fd ≠ p.m_fd) (s.unregister p).opened := by
  have first := owned.unRegisterEvent EPOLLIN p false
  have second := first.unRegisterEvent EPOLLOUT p false
  have gone : (s.unregister p).reactor.m_fdmap p.m_fd = none := by
    dsimp only [unregister, close, LTReactor.UnRegisterReadEvent, LTReactor.UnRegisterWriteEvent]
    rw [first.unRegisterEvent_m_fdmap, owned.unRegisterEvent_m_fdmap]
    exact DelFDEventHandler_both (owned.known p.m_fd)
  have apart : ∀ fd it, (s.unregister p).reactor.m_fdmap fd = some it → fd ≠ p.m_fd := by
    intro fd it here same
    rw [same, gone] at here
    cases here
  refine ⟨second.known, ?_, ?_, ?_⟩
  · intro fd it here
    obtain ⟨mine, same⟩ := second.entry fd it here
    exact ⟨⟨mine, same ▸ apart fd it here⟩, same⟩
  · intro fd here
    obtain ⟨it, entry⟩ := Option.ne_none_iff_exists'.mp here
    have other := apart fd it entry
    dsimp only [unregister, close]
    rw [Function.update_of_ne other]
    exact second.watched fd here
  · intro fd here
    dsimp only [unregister, close] at here ⊢
    obtain rfl | other := eq_or_ne fd p.m_fd
    · simp at here
    · rw [Function.update_of_ne other] at here ⊢
      exact second.opened fd here

theorem Program.Live.record {s : Program} {p : FDEventHanderBase} (live : s.Live p) {op : Op}
    (other : op ≠ .delete p.id) : (s.record op).Live p := by
  refine ⟨live.1, ?_⟩
  intro mem
  obtain old | new := List.mem_append.mp mem
  · exact live.2 old
  · exact other (List.mem_singleton.mp new).symm

theorem Program.Live.call {s : Program} {p : FDEventHanderBase} (live : s.Live p) (id : Nat) (member : Member) :
    (s.record (.call id member)).Live p := live.record nofun

theorem Program.Sound.made_record {s : Program} (sound : s.Sound) {op : Op} (made : op.id < s.handlers.length) :
    ∀ op' ∈ (s.record op).trace, op'.id < (s.record op).handlers.length := by
  intro op' mem
  obtain old | new := List.mem_append.mp mem
  · exact sound.made op' old
  · rw [List.mem_singleton.mp new]
    exact made

/-- A call leaves all handlers as they are. -/
theorem Program.Sound.call {s : Program} (sound : s.Sound) {id : Nat} (made : id < s.handlers.length)
    (member : Member) : s.Did [.call id member] (s.record (.call id member)) := by
  refine ⟨⟨?_, sound.made_record made⟩, rfl, List.prefix_rfl⟩
  apply sound.owned.imp
  · exact fun fd it here live => live.call id member
  · exact fun fd here => here

/-- Once a handler is deleted, it matters no more to `m_fdmap` if it is deleted again. -/
theorem Program.Sound.delete_again {s : Program} (sound : s.Sound) {id : Nat} (gone : .delete id ∈ s.trace) :
    (s.record (.delete id)).Sound := by
  refine ⟨?_, sound.made_record (sound.made _ gone)⟩
  apply sound.owned.imp
  · intro fd it here live
    apply live.record
    intro same
    exact live.2 (same ▸ gone)
  · exact fun fd here => here

theorem Program.Sound.unregister {s : Program} (sound : s.Sound) (p : FDEventHanderBase) :
    (s.unregister p).Sound where
  owned := (unregister_owned sound.owned p).imp (fun _ _ _ own => own.1) fun _ here => here
  made := sound.made

theorem Program.Sound.close {s : Program} (sound : s.Sound) {p : FDEventHanderBase}
    (made : s.handlers[p.id]? = some p.m_fd) : s.Did [.delete p.id] (TcpSocketHandler.Close s p) := by
  have number : p.id < s.handlers.length := (List.getElem?_eq_some_iff.mp made).1
  refine ⟨⟨?_, (sound.unregister p).made_record number⟩, rfl, List.prefix_rfl⟩
  apply (unregister_owned sound.owned p).imp
  · intro fd it _ own
    obtain ⟨live, apart⟩ := own
    apply Live.record (s := s.unregister p) live
    -- another handler under the same number would have the same descriptor
    intro same
    have both := live.1
    rw [← Op.delete.inj same, made] at both
    exact apart (Option.some.inj both).symm
  · exact fun fd here => here

theorem Program.Sound.onFDRead_socket {s : Program} (sound : s.Sound) {p : FDEventHanderBase} (live : s.Live p)
    (isOpen : s.opened p.m_fd = true) (e : Ready) :
    s.Did (if e.iRet = 0 ∨ e.closes then [.delete p.id] else []) (TcpSocketHandler.OnFDRead s p e) := by
  have registered : s.Did [] { s with reactor := e.process.foldl (fun r reg => r.apply p reg) s.reactor } :=
    ⟨⟨sound.owned.foldl live isOpen e.process, sound.made⟩, (List.append_nil _).symm, List.prefix_rfl⟩
  unfold TcpSocketHandler.OnFDRead OnProcess
  by_cases eof : e.iRet = 0
  · rw [if_pos eof, if_pos (.inl eof)]
    exact sound.close live.1
  · cases closes : e.closes with
    | true => simpa [eof] using registered.append (registered.sound.close live.1)
    | false => simpa [eof] using registered

/-- A new handler on a descriptor that `accept` has just opened. -/
theorem Program.Sound.new {s : Program} (sound : s.Sound) (fd : Int) :
    Program.Sound { s with opened := Function.update s.opened fd true, handlers := s.handlers ++ [fd] } := by
  constructor
  · apply sound.owned.imp
    · intro fd it _ live
      refine ⟨?_, live.2⟩
      dsimp only
      rw [List.getElem?_append_left (List.getElem?_eq_some_iff.mp live.1).1]
      exact live.1
    · intro other here
      obtain rfl | apart := eq_or_ne other fd
      · simp
      · simpa [apart] using here
  · intro op mem
    have before := sound.made op mem
    simp only [List.length_append, List.length_singleton]
    omega

/-- The registration of a new handler fails exactly if the kernel refuses it. -/
theorem Program.Sound.register_new {s : Program} (sound : s.Sound) {p : FDEventHanderBase}
    (unused : s.opened p.m_fd = false) (refused : Bool) :
    (s.reactor.RegisterReadEvent p refused).2 = if refused then -1 else 0 := by
  have kernel : s.reactor.interest p.m_fd = none := by
    by_contra watched
    have isOpen := sound.owned.opened _ watched
    rw [unused] at isOpen
    cases isOpen
  have entry : s.reactor.m_fdmap p.m_fd = none := by
    by_contra here
    exact sound.owned.watched _ here kernel
  cases refused with
  | true => rfl
  | false => simp [LTReactor.RegisterReadEvent, LTReactor.registerEvent, GetFDEventHandler, epoll_ctl, entry, kernel]

/-- What `OnAccept` does to handlers, by their numbers. -/
def Program.acceptOps (s : Program) (refused : Bool) : List Op :=
  .call s.handlers.length .RegisterReadEvent ::
    if refused then
      [.call s.handlers.length .Close, .delete s.handlers.length, .delete s.handlers.length]
    else []

theorem Program.Sound.onAccept {s : Program} (sound : s.Sound) {fd : Int} (unused : s.opened fd = false)
    (refused : Bool) :
    s.Did (s.acceptOps refused)
      (TcpServerEventHandler.OnAccept { s with opened := Function.update s.opened fd true } fd refused) := by
  let p : FDEventHanderBase := { id := s.handlers.length, m_fd := fd }
  let made : Program := { s with opened := Function.update s.opened fd true, handlers := s.handlers ++ [fd] }
  have grown : s.Did [] made := ⟨sound.new fd, (List.append_nil _).symm, ⟨[fd], rfl⟩⟩
  have mine : made.handlers[p.id]? = some p.m_fd := by simp [made, p]
  have number : p.id < made.handlers.length := by simp [made, p]
  have asked := grown.append (grown.sound.call number .RegisterReadEvent)
  have result : (made.reactor.RegisterReadEvent p refused).2 = if refused then -1 else 0 :=
    sound.register_new (p := p) unused refused
  have live : (made.record (.call p.id .RegisterReadEvent)).Live p := by
    refine ⟨mine, ?_⟩
    intro mem
    have before : Op.delete p.id ∈ s.trace := by simpa [made, record] using mem
    exact absurd (sound.made _ before) (Nat.lt_irrefl _)
  let registered : Program :=
    { made.record (.call p.id .RegisterReadEvent) with reactor := (made.reactor.RegisterReadEvent p refused).1 }
  have answered : s.Did [.call p.id .RegisterReadEvent] registered :=
    ⟨⟨asked.sound.owned.registerEvent (by decide) live (by simp [made, p, record]) refused, asked.sound.made⟩,
      asked.trace, asked.handlers⟩
  have shape : TcpServerEventHandler.OnAccept { s with opened := Function.update s.opened fd true } fd refused =
      if (made.reactor.RegisterReadEvent p refused).2 ≠ 0 then
        (TcpSocketHandler.Close (registered.record (.call p.id .Close)) p).record (.delete p.id)
      else registered := rfl
  rw [shape, result]
  cases refused with
  | true =>
    have called := answered.append (answered.sound.call number .Close)
    have closed := called.append (called.sound.close mine)
    have gone : .delete p.id ∈ (TcpSocketHandler.Close (registered.record (.call p.id .Close)) p).trace := by
      simp [TcpSocketHandler.Close, record]
    exact closed.append ⟨closed.sound.delete_again gone, rfl, List.prefix_rfl⟩
  | false => exact answered

/-- What `OnFDRead` does to handlers. -/
def Program.readOps (s : Program) (p : FDEventHanderBase) (e : Ready) : List Op :=
  if p.id = 0 then
    if e.sockFD < 0 then [] else s.acceptOps e.refused
  else if e.iRet = 0 ∨ e.closes then [.delete p.id] else []

theorem Program.Sound.onFDRead {s : Program} (sound : s.Sound) {p : FDEventHanderBase} (live : s.Live p)
    (isOpen : s.opened p.m_fd = true) {e : Ready} (unused : e.sockFD < 0 ∨ s.opened e.sockFD = false) :
    s.Did (s.readOps p e) (p.OnFDRead s e) := by
  unfold FDEventHanderBase.OnFDRead readOps
  by_cases server : p.id = 0
  · rw [if_pos server, if_pos server]
    unfold TcpServerEventHandler.OnFDRead
    split_ifs with failed
    · exact sound.stay
    · exact sound.onAccept (unused.resolve_left failed) e.refused
  · rw [if_neg server, if_neg server]
    exact sound.onFDRead_socket live isOpen e

theorem Program.Sound.onClose {s : Program} (sound : s.Sound) {p : FDEventHanderBase}
    (made : s.handlers[p.id]? = some p.m_fd) : s.Did (if p.id = 0 then [] else [.delete p.id]) (p.Close s) := by
  unfold FDEventHanderBase.Close
  split_ifs
  · exact ⟨sound.unregister p, (List.append_nil _).symm, List.prefix_rfl⟩
  · exact sound.close made

/-- What one event does to handlers, in order. -/
def Program.ops (s : Program) (p : FDEventHanderBase) (e : Ready) : List Op :=
  (if e.events &&& EPOLLIN ≠ 0 then [.call p.id .OnFDRead] ++ s.readOps p e else []) ++
  (if e.events &&& EPOLLOUT ≠ 0 then [.call p.id .OnFDWrite] else []) ++
  (if e.events &&& EPOLLERR ≠ 0 then [.call p.id .Close] ++ (if p.id = 0 then [] else [.delete p.id]) else [])

/-- **One event** keeps `m_fdmap` free of deleted handlers, whatever its callbacks do. -/
theorem Program.Sound.dispatch {s : Program} (sound : s.Sound) {p : FDEventHanderBase} (live : s.Live p)
    (isOpen : s.opened p.m_fd = true) {e : Ready} (unused : e.sockFD < 0 ∨ s.opened e.sockFD = false) :
    s.Did (s.ops p e) (p.dispatch s e) := by
  have number : ∀ {ops t}, s.Did ops t → p.id < t.handlers.length :=
    fun did => (List.getElem?_eq_some_iff.mp (did.made live.1)).1
  have called := sound.call (number sound.stay) .OnFDRead
  have read := sound.ite (c := e.events &&& EPOLLIN ≠ 0)
    (called.append (called.sound.onFDRead (live.call p.id .OnFDRead) isOpen unused))
  have written := read.append (read.sound.ite (c := e.events &&& EPOLLOUT ≠ 0)
    (read.sound.call (number read) .OnFDWrite))
  have closing := written.sound.call (number written) .Close
  have made := (written.append closing).made live.1
  exact written.append (written.sound.ite (c := e.events &&& EPOLLERR ≠ 0)
    (closing.append (closing.sound.onClose made)))

theorem Program.step_sound {s s' : Program} {e : Ready} (sound : s.Sound) (step : s.Step e s') : s'.Sound := by
  obtain ⟨unused, rfl⟩ := step
  unfold Run
  split_ifs
  · exact sound
  · cases entry : s.reactor.m_fdmap e.fd with
    | none => simpa [GetFDEventHandler, entry] using sound
    | some it =>
      obtain ⟨live, same⟩ := sound.owned.entry _ it entry
      have isOpen := sound.owned.opened _ (sound.owned.watched e.fd (by simp [entry]))
      simpa [GetFDEventHandler, entry] using (sound.dispatch live (same ▸ isOpen) unused).sound

/-! ## Which events are harmless -/

/-- A `TcpSocketHandler` whose reading ends with `Close` has no other event at once, and a new
connection is registered. -/
def Program.Harmless (s : Program) (e : Ready) : Prop :=
  ∀ it, 0 ≤ e.fd → s.reactor.m_fdmap e.fd = some it → e.events &&& EPOLLIN ≠ 0 →
    if it.pHandler.id = 0 then 0 ≤ e.sockFD → e.refused = false
    else e.iRet = 0 ∨ e.closes = true → e.events &&& EPOLLOUT = 0 ∧ e.events &&& EPOLLERR = 0

theorem Program.acceptOps_id {s : Program} {refused : Bool} {op : Op} (mem : op ∈ s.acceptOps refused) :
    op.id = s.handlers.length := by
  rw [acceptOps, List.mem_cons, List.mem_ite_nil_right] at mem
  obtain rfl | ⟨_, more⟩ := mem
  · rfl
  · simp only [List.mem_cons, List.not_mem_nil, or_false] at more
    obtain rfl | rfl | rfl := more
    all_goals rfl

theorem Program.readOps_id {s : Program} {p : FDEventHanderBase} {e : Ready} {op : Op} (mem : op ∈ s.readOps p e) :
    op.id = p.id ∨ op.id = s.handlers.length := by
  unfold readOps at mem
  split_ifs at mem
  · cases mem
  · exact .inr (acceptOps_id mem)
  · rw [List.mem_singleton.mp mem]
    exact .inl rfl
  · cases mem

/-- An event does something to its own handler or to the one it makes. -/
theorem Program.ops_id {s : Program} {p : FDEventHanderBase} {e : Ready} {op : Op} (mem : op ∈ s.ops p e) :
    op.id = p.id ∨ op.id = s.handlers.length := by
  simp only [ops, List.mem_append, List.mem_ite_nil_right, List.mem_ite_nil_left, List.mem_singleton] at mem
  obtain (⟨_, rfl | read⟩ | ⟨_, rfl⟩) | ⟨_, rfl | ⟨_, rfl⟩⟩ := mem
  · exact .inl rfl
  · exact readOps_id read
  all_goals exact .inl rfl

/-- The condition on an event of which the handler is `p`. -/
theorem Program.ops_apart_iff {s : Program} {p : FDEventHanderBase} (made : p.id < s.handlers.length) (e : Ready) :
    (s.ops p e).Pairwise Op.Apart ↔ (e.events &&& EPOLLIN ≠ 0 →
      if p.id = 0 then 0 ≤ e.sockFD → e.refused = false
      else e.iRet = 0 ∨ e.closes = true → e.events &&& EPOLLOUT = 0 ∧ e.events &&& EPOLLERR = 0) := by
  unfold ops readOps
  by_cases server : p.id = 0
  · -- only the handler just made is deleted, and it is not the server's
    have other : s.handlers.length ≠ 0 := by omega
    simp only [server, if_true, acceptOps]
    split_ifs <;> simp_all [Op.Apart, Op.id, imp_iff_not_or]
  · simp only [server, if_false]
    split_ifs <;> simp_all [Op.Apart, Op.id]

/-- **One event**: nothing is done to a deleted handler exactly if the event is harmless. -/
theorem Program.step_safe_iff {s s' : Program} {e : Ready} (sound : s.Sound) (safe : s.Safe) (step : s.Step e s') :
    s'.Safe ↔ s.Harmless e := by
  obtain ⟨unused, rfl⟩ := step
  unfold Run Harmless
  split_ifs with invalid
  · exact iff_of_true safe fun _ valid => absurd valid (by omega)
  · cases entry : s.reactor.m_fdmap e.fd with
    | none => simpa [GetFDEventHandler, entry] using safe
    | some it =>
      obtain ⟨live, same⟩ := sound.owned.entry _ it entry
      have isOpen := sound.owned.opened _ (sound.owned.watched e.fd (by simp [entry]))
      have made := (List.getElem?_eq_some_iff.mp live.1).1
      have did := sound.dispatch live (same ▸ isOpen) unused
      have apart : ∀ op ∈ s.trace, ∀ later ∈ s.ops it.pHandler e, op.Apart later := by
        intro op mem later new deletes
        obtain mine | fresh := ops_id new
        · exact live.2 (mine ▸ deletes ▸ mem)
        · have before := sound.made op mem
          rw [deletes] at before
          exact absurd fresh (Nat.ne_of_lt before)
      simp only [GetFDEventHandler, entry]
      unfold Safe
      rw [did.trace, List.pairwise_append, ops_apart_iff made]
      constructor
      · intro both it' _ here
        cases here
        exact both.2.1
      · exact fun harmless => ⟨safe, harmless it (by omega) rfl, apart⟩

/-! ## Runs -/

theorem Program.start_sound (m_fd : Int) (opened : Int → Bool) : (start m_fd opened).Sound := by
  constructor
  · have empty : LTReactor.init.Owned (start m_fd opened).Live (start m_fd opened).opened := by
      refine ⟨?_, ?_, ?_, ?_⟩
      all_goals simp [LTReactor.init, LTReactor.Known]
    apply empty.registerEvent
    · decide
    · exact ⟨rfl, by simp [start]⟩
    · simp [start]
  · simp [start]

/-- **Which runs touch no deleted handler**: those whose events are all harmless. -/
theorem Program.safe_iff (m_fd : Int) (opened : Int → Bool) (events : List Ready) :
    Always Step Safe (start m_fd opened) events ↔ StepsMeet Step Harmless (start m_fd opened) events := by
  apply always_iff_stepsMeet (J := Sound) ?_ ?_ ?_ ?_ events
  · exact fun s e s' sound _ step => step_sound sound step
  · exact fun s e s' sound safe step => step_safe_iff sound safe step
  · exact start_sound m_fd opened
  · exact List.Pairwise.nil

/-- A new connection that the kernel does not register is deleted twice; a socket whose end is
read is closed once more for an error reported with it. -/
theorem Program.deleted_handler_used :
    let connect : Ready :=
      { fd := 3, events := EPOLLIN, iRet := 0, process := [], closes := false, sockFD := 4, refused := false }
    let refused : Ready := { connect with refused := true }
    let hangUp : Ready :=
      { fd := 4, events := EPOLLIN ||| EPOLLERR, iRet := 0, process := [], closes := false, sockFD := -1, refused := false }
    ¬ Always Step Safe (start 3 fun _ => false) [refused] ∧
    ¬ Always Step Safe (start 3 fun _ => false) [connect, hangUp] := by
  intro connect refused hangUp
  have twice : ¬ ((start 3 fun _ => false).Run refused).Safe := by decide
  have again : ¬ (((start 3 fun _ => false).Run connect).Run hangUp).Safe := by decide
  constructor
  · intro always
    exact twice (always.2 _ ⟨.inr (by decide), rfl⟩).head
  · intro always
    have connected := always.2 _ ⟨.inr (by decide), rfl⟩
    exact again (connected.2 _ ⟨.inl (by decide), rfl⟩).head

end CodeClips.Epoll
