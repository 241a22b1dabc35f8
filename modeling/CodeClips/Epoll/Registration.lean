import CodeClips.Lib.Transition
import Mathlib.Logic.Function.Basic

/-!
# Event registration in `LTReactor`

The five operations of `reactor.cpp` on file descriptors. The kernel's interest list is
changed through `epoll_ctl`, `m_fdmap` by `EventHanderSet`; which of `EPOLL_CTL_ADD`, `MOD`
and `DEL` an operation asks for is decided by whether `m_fdmap` has the descriptor. Taking
away the last event of a descriptor erases it from `m_fdmap` but asks the kernel for `MOD`,
so it stays in the interest list with an empty mask. `consistent_iff`: that is the only way
the two can come apart.
-/

namespace CodeClips.Epoll

/-- A set of events, as `epoll_event::events` and `FDHandler::type` hold it. -/
abbrev Events := BitVec 32

def EPOLLIN : Events := 0x001

def EPOLLOUT : Events := 0x004

/-- `FDEventHanderBase`: the object and its descriptor. -/
structure FDEventHanderBase where
  id : Nat
  m_fd : Int
deriving DecidableEq, Repr

/-- `EventHanderSet::FDHandler`. -/
structure FDHandler where
  type : Events
  pHandler : FDEventHanderBase
deriving DecidableEq, Repr

/-! ## The kernel -/

/-- The interest list of an epoll instance. -/
abbrev Interest := Int → Option Events

inductive EpollOp where
  | EPOLL_CTL_ADD
  | EPOLL_CTL_MOD
  | EPOLL_CTL_DEL
deriving DecidableEq, Repr

/-- `epoll_ctl`, with what it returns. `refused`: it fails for a reason of the kernel's own,
such as memory, and changes nothing. -/
def epoll_ctl (interest : Interest) (op : EpollOp) (fd : Int) (events : Events) (refused : Bool) : Interest × Int :=
  if refused then (interest, -1)
  else match op, interest fd with
    | .EPOLL_CTL_ADD, none => (Function.update interest fd (some events), 0)
    | .EPOLL_CTL_ADD, some _ => (interest, -1)
    | .EPOLL_CTL_MOD, some _ => (Function.update interest fd (some events), 0)
    | .EPOLL_CTL_MOD, none => (interest, -1)
    | .EPOLL_CTL_DEL, some _ => (Function.update interest fd none, 0)
    | .EPOLL_CTL_DEL, none => (interest, -1)

/-! ## `EventHanderSet` -/

abbrev FdMap := Int → Option FDHandler

def AddFDEventHandler (m_fdmap : FdMap) (pHandler : FDEventHanderBase) (type : Events) : FdMap :=
  match m_fdmap pHandler.m_fd with
  | some it => Function.update m_fdmap pHandler.m_fd (some { type := it.type ||| type, pHandler := pHandler })
  | none => Function.update m_fdmap pHandler.m_fd (some { type := type, pHandler := pHandler })

def DelFDEventHandler (m_fdmap : FdMap) (fd : Int) (type : Events) : FdMap :=
  match m_fdmap fd with
  | some it =>
    if it.type &&& ~~~type = 0 then Function.update m_fdmap fd none
    else Function.update m_fdmap fd (some { it with type := it.type &&& ~~~type })
  | none => m_fdmap

/-- The handler, `none` for `NULL`, and what is left in `type`, which callers set to 0. -/
def GetFDEventHandler (m_fdmap : FdMap) (fd : Int) : Option FDEventHanderBase × Events :=
  match m_fdmap fd with
  | some it => (some it.pHandler, it.type)
  | none => (none, 0)

/-! ## `LTReactor` -/

structure LTReactor where
  interest : Interest
  m_fdmap : FdMap

/-- After `Init`. -/
def LTReactor.init : LTReactor := { interest := fun _ => none, m_fdmap := fun _ => none }

/-- `RegisterReadEvent` and `RegisterWriteEvent` but for the event. -/
def LTReactor.registerEvent (type : Events) (s : LTReactor) (pBase : FDEventHanderBase) (refused : Bool) :
    LTReactor × Int :=
  let (pHandler, held) := GetFDEventHandler s.m_fdmap pBase.m_fd
  let op := if pHandler = none then EpollOp.EPOLL_CTL_ADD else EpollOp.EPOLL_CTL_MOD
  let (interest, iRet) := epoll_ctl s.interest op pBase.m_fd (held ||| type) refused
  if iRet = -1 then ({ s with interest := interest }, -1)
  else ({ interest := interest, m_fdmap := AddFDEventHandler s.m_fdmap pBase type }, 0)

/-- `UnRegisterReadEvent` and `UnRegisterWriteEvent` but for the event. -/
def LTReactor.unRegisterEvent (type : Events) (s : LTReactor) (pBase : FDEventHanderBase) (refused : Bool) :
    LTReactor × Int :=
  let (pHandler, held) := GetFDEventHandler s.m_fdmap pBase.m_fd
  let op := if pHandler = none then EpollOp.EPOLL_CTL_DEL else EpollOp.EPOLL_CTL_MOD
  let (interest, iRet) := epoll_ctl s.interest op pBase.m_fd (held &&& ~~~type) refused
  if iRet = -1 then ({ s with interest := interest }, -1)
  else ({ interest := interest, m_fdmap := DelFDEventHandler s.m_fdmap pBase.m_fd type }, 0)

def LTReactor.RegisterReadEvent := registerEvent EPOLLIN

def LTReactor.RegisterWriteEvent := registerEvent EPOLLOUT

def LTReactor.UnRegisterReadEvent := unRegisterEvent EPOLLIN

def LTReactor.UnRegisterWriteEvent := unRegisterEvent EPOLLOUT

def LTReactor.UnRegisterAllEvent (s : LTReactor) (pBase : FDEventHanderBase) (refused : Bool) : LTReactor × Int :=
  let (interest, iRet) := epoll_ctl s.interest .EPOLL_CTL_DEL pBase.m_fd (EPOLLOUT ||| EPOLLIN) refused
  if iRet = -1 then ({ s with interest := interest }, -1)
  else ({ interest := interest, m_fdmap := DelFDEventHandler s.m_fdmap pBase.m_fd (EPOLLOUT ||| EPOLLIN) }, 0)

/-- A call of one of the five; `refused` as in `epoll_ctl`. -/
inductive Call where
  | RegisterReadEvent (pBase : FDEventHanderBase) (refused : Bool)
  | RegisterWriteEvent (pBase : FDEventHanderBase) (refused : Bool)
  | UnRegisterReadEvent (pBase : FDEventHanderBase) (refused : Bool)
  | UnRegisterWriteEvent (pBase : FDEventHanderBase) (refused : Bool)
  | UnRegisterAllEvent (pBase : FDEventHanderBase) (refused : Bool)
deriving DecidableEq, Repr

def LTReactor.call (s : LTReactor) : Call → LTReactor × Int
  | .RegisterReadEvent pBase refused => s.RegisterReadEvent pBase refused
  | .RegisterWriteEvent pBase refused => s.RegisterWriteEvent pBase refused
  | .UnRegisterReadEvent pBase refused => s.UnRegisterReadEvent pBase refused
  | .UnRegisterWriteEvent pBase refused => s.UnRegisterWriteEvent pBase refused
  | .UnRegisterAllEvent pBase refused => s.UnRegisterAllEvent pBase refused

def LTReactor.Step (s : LTReactor) (c : Call) (s' : LTReactor) : Prop := s' = (s.call c).1

/-! ## Agreement -/

/-- A descriptor is in the interest list exactly if it is in `m_fdmap`, with the same events. -/
def LTReactor.Agree (s : LTReactor) : Prop := ∀ fd, s.interest fd = (s.m_fdmap fd).map FDHandler.type

/-- `m_fdmap` holds no events but the two. -/
def LTReactor.Known (s : LTReactor) : Prop :=
  ∀ fd it, s.m_fdmap fd = some it → it.type &&& ~~~(EPOLLOUT ||| EPOLLIN) = 0

/-- The events `m_fdmap` has for a descriptor. -/
def LTReactor.held (s : LTReactor) (fd : Int) : Events := ((s.m_fdmap fd).map FDHandler.type).getD 0

/-- What registration does in a state of agreement. -/
theorem LTReactor.registerEvent_eq {s : LTReactor} (agree : s.Agree) (type : Events) (p : FDEventHanderBase)
    (refused : Bool) :
    s.registerEvent type p refused =
      if refused then (s, -1)
      else ({ interest := Function.update s.interest p.m_fd (some (s.held p.m_fd ||| type))
              m_fdmap := Function.update s.m_fdmap p.m_fd
                (some { type := s.held p.m_fd ||| type, pHandler := p }) }, 0) := by
  have kernel := agree p.m_fd
  cases refused with
  | true => rfl
  | false =>
    cases entry : s.m_fdmap p.m_fd with
    | none =>
      rw [entry] at kernel
      simp [registerEvent, GetFDEventHandler, epoll_ctl, AddFDEventHandler, held, entry, kernel]
    | some it =>
      rw [entry] at kernel
      simp [registerEvent, GetFDEventHandler, epoll_ctl, AddFDEventHandler, held, entry, kernel]

/-- What unregistration does: the descriptor is erased from `m_fdmap` only. -/
theorem LTReactor.unRegisterEvent_eq {s : LTReactor} (agree : s.Agree) (type : Events) (p : FDEventHanderBase)
    (refused : Bool) :
    s.unRegisterEvent type p refused =
      if refused ∨ s.m_fdmap p.m_fd = none then (s, -1)
      else ({ interest := Function.update s.interest p.m_fd (some (s.held p.m_fd &&& ~~~type))
              m_fdmap := DelFDEventHandler s.m_fdmap p.m_fd type }, 0) := by
  have kernel := agree p.m_fd
  cases refused with
  | true => rfl
  | false =>
    cases entry : s.m_fdmap p.m_fd with
    | none =>
      rw [entry] at kernel
      simp [unRegisterEvent, GetFDEventHandler, epoll_ctl, entry, kernel]
    | some it =>
      rw [entry] at kernel
      simp [unRegisterEvent, GetFDEventHandler, epoll_ctl, held, entry, kernel]

theorem LTReactor.unRegisterAllEvent_eq {s : LTReactor} (agree : s.Agree) (p : FDEventHanderBase) (refused : Bool) :
    s.UnRegisterAllEvent p refused =
      if refused ∨ s.m_fdmap p.m_fd = none then (s, -1)
      else ({ interest := Function.update s.interest p.m_fd none
              m_fdmap := DelFDEventHandler s.m_fdmap p.m_fd (EPOLLOUT ||| EPOLLIN) }, 0) := by
  have kernel := agree p.m_fd
  cases refused with
  | true => rfl
  | false =>
    cases entry : s.m_fdmap p.m_fd with
    | none =>
      rw [entry] at kernel
      simp [UnRegisterAllEvent, epoll_ctl, kernel]
    | some it =>
      rw [entry] at kernel
      simp [UnRegisterAllEvent, epoll_ctl, kernel]

/-- A change of both tables at one descriptor keeps agreement if the new entries agree. -/
theorem LTReactor.agree_update {s : LTReactor} (agree : s.Agree) (fd : Int) (events : Option Events)
    (entry : Option FDHandler) :
    ({ interest := Function.update s.interest fd events, m_fdmap := Function.update s.m_fdmap fd entry } :
      LTReactor).Agree ↔ events = entry.map FDHandler.type := by
  constructor
  · intro after
    simpa using after fd
  · intro same other
    by_cases here : other = fd
    · subst here
      simpa using same
    · simpa [here] using agree other

/-- The entry `DelFDEventHandler` leaves. -/
theorem DelFDEventHandler_eq {m_fdmap : FdMap} {fd : Int} {it : FDHandler} (entry : m_fdmap fd = some it)
    (type : Events) :
    DelFDEventHandler m_fdmap fd type = Function.update m_fdmap fd
      (if it.type &&& ~~~type = 0 then none else some { it with type := it.type &&& ~~~type }) := by
  unfold DelFDEventHandler
  rw [entry]
  dsimp only
  split <;> rfl

/-! ## One step -/

/-- The call does not take away the last event a descriptor is registered for. -/
def LTReactor.LeavesEvent (s : LTReactor) (type : Events) (p : FDEventHanderBase) (refused : Bool) : Prop :=
  refused = false → s.m_fdmap p.m_fd ≠ none → s.held p.m_fd &&& ~~~type ≠ 0

/-- Neither `UnRegisterReadEvent` nor `UnRegisterWriteEvent` takes away a last event. -/
def LTReactor.KeepsEvent (s : LTReactor) : Call → Prop
  | .UnRegisterReadEvent pBase refused => s.LeavesEvent EPOLLIN pBase refused
  | .UnRegisterWriteEvent pBase refused => s.LeavesEvent EPOLLOUT pBase refused
  | _ => True

theorem LTReactor.registerEvent_agree {s : LTReactor} (agree : s.Agree) (type : Events) (p : FDEventHanderBase)
    (refused : Bool) : (s.registerEvent type p refused).1.Agree := by
  rw [registerEvent_eq agree]
  cases refused with
  | true => exact agree
  | false => exact (agree_update agree ..).mpr rfl

theorem LTReactor.unRegisterEvent_agree_iff {s : LTReactor} (agree : s.Agree) (type : Events)
    (p : FDEventHanderBase) (refused : Bool) :
    (s.unRegisterEvent type p refused).1.Agree ↔ s.LeavesEvent type p refused := by
  rw [unRegisterEvent_eq agree, LeavesEvent]
  cases refused with
  | true => simpa using agree
  | false =>
    cases entry : s.m_fdmap p.m_fd with
    | none => simpa using agree
    | some it =>
      have held : s.held p.m_fd = it.type := by simp [LTReactor.held, entry]
      rw [if_neg (by simp), DelFDEventHandler_eq entry, agree_update agree, held]
      by_cases last : it.type &&& ~~~type = 0
      · simp [last]
      · rw [if_neg last]
        simpa using last

/-- `m_fdmap` is erased from as well when all events go. -/
theorem LTReactor.unRegisterAllEvent_agree {s : LTReactor} (agree : s.Agree) (known : s.Known)
    (p : FDEventHanderBase) (refused : Bool) : (s.UnRegisterAllEvent p refused).1.Agree := by
  rw [unRegisterAllEvent_eq agree]
  cases refused with
  | true => simpa using agree
  | false =>
    cases entry : s.m_fdmap p.m_fd with
    | none => simpa using agree
    | some it =>
      rw [if_neg (by simp), DelFDEventHandler_eq entry, if_pos (known _ _ entry)]
      exact (agree_update agree ..).mpr rfl

/-- **One step**: agreement is kept exactly if no last event is taken away. -/
theorem LTReactor.step_agree_iff {s s' : LTReactor} {c : Call} (known : s.Known) (agree : s.Agree)
    (step : s.Step c s') : s'.Agree ↔ s.KeepsEvent c := by
  subst step
  cases c with
  | RegisterReadEvent p refused => exact iff_of_true (registerEvent_agree agree _ p refused) trivial
  | RegisterWriteEvent p refused => exact iff_of_true (registerEvent_agree agree _ p refused) trivial
  | UnRegisterReadEvent p refused => exact unRegisterEvent_agree_iff agree ..
  | UnRegisterWriteEvent p refused => exact unRegisterEvent_agree_iff agree ..
  | UnRegisterAllEvent p refused => exact iff_of_true (unRegisterAllEvent_agree agree known p refused) trivial

/-- Entries that hold only the two events stay so. -/
theorem LTReactor.known_update {s : LTReactor} (known : s.Known) (fd : Int) (events : Option Events)
    (entry : Option FDHandler) (fine : ∀ it, entry = some it → it.type &&& ~~~(EPOLLOUT ||| EPOLLIN) = 0) :
    ({ interest := Function.update s.interest fd events, m_fdmap := Function.update s.m_fdmap fd entry } :
      LTReactor).Known := by
  intro other it here
  by_cases same : other = fd
  · subst same
    exact fine it (by simpa using here)
  · exact known other it (by simpa [same] using here)

theorem LTReactor.held_known {s : LTReactor} (known : s.Known) (fd : Int) :
    s.held fd &&& ~~~(EPOLLOUT ||| EPOLLIN) = 0 := by
  cases entry : s.m_fdmap fd with
  | none => simp [held, entry]
  | some it => simpa [held, entry] using known fd it entry

theorem LTReactor.registerEvent_known {s : LTReactor} (known : s.Known) (agree : s.Agree) (type : Events)
    (ours : type &&& ~~~(EPOLLOUT ||| EPOLLIN) = 0) (p : FDEventHanderBase) (refused : Bool) :
    (s.registerEvent type p refused).1.Known := by
  rw [registerEvent_eq agree]
  cases refused with
  | true => exact known
  | false =>
    apply known_update known
    rintro it ⟨⟩
    have both := held_known known p.m_fd
    dsimp only
    rw [BitVec.and_or_distrib_right, both, ours]
    rfl

theorem LTReactor.deleted_known {s : LTReactor} (known : s.Known) {it : FDHandler} {fd : Int}
    (entry : s.m_fdmap fd = some it) (type : Events) (events : Option Events) :
    ({ interest := Function.update s.interest fd events, m_fdmap := DelFDEventHandler s.m_fdmap fd type } :
      LTReactor).Known := by
  rw [DelFDEventHandler_eq entry]
  apply known_update known
  intro left here
  split at here
  · cases here
  · cases here
    have before := known _ _ entry
    dsimp only
    rw [BitVec.and_assoc, BitVec.and_comm (~~~type), ← BitVec.and_assoc, before]
    exact BitVec.zero_and

theorem LTReactor.step_known {s s' : LTReactor} {c : Call} (known : s.Known) (agree : s.Agree)
    (step : s.Step c s') : s'.Known := by
  subst step
  have unregister : ∀ type p refused, (s.unRegisterEvent type p refused).1.Known := by
    intro type p refused
    rw [unRegisterEvent_eq agree]
    split_ifs with nothing
    · exact known
    · obtain ⟨it, entry⟩ := Option.ne_none_iff_exists'.mp (not_or.mp nothing).2
      exact deleted_known known entry type _
  cases c with
  | RegisterReadEvent p refused => exact registerEvent_known known agree _ (by decide) p refused
  | RegisterWriteEvent p refused => exact registerEvent_known known agree _ (by decide) p refused
  | UnRegisterReadEvent p refused => exact unregister _ p refused
  | UnRegisterWriteEvent p refused => exact unregister _ p refused
  | UnRegisterAllEvent p refused =>
    dsimp only [call]
    rw [unRegisterAllEvent_eq agree]
    split_ifs with nothing
    · exact known
    · obtain ⟨it, entry⟩ := Option.ne_none_iff_exists'.mp (not_or.mp nothing).2
      exact deleted_known known entry _ _

/-! ## Runs -/

/-- The two tables agree, and any event can be registered unless the kernel refuses. -/
structure LTReactor.Consistent (s : LTReactor) : Prop where
  agree : s.Agree
  read : ∀ pBase, (s.RegisterReadEvent pBase false).2 = 0
  write : ∀ pBase, (s.RegisterWriteEvent pBase false).2 = 0

theorem LTReactor.consistent_iff_agree (s : LTReactor) : s.Consistent ↔ s.Agree := by
  constructor
  · exact fun consistent => consistent.agree
  · intro agree
    refine ⟨agree, fun p => ?_, fun p => ?_⟩
    · exact congrArg Prod.snd (registerEvent_eq agree EPOLLIN p false)
    · exact congrArg Prod.snd (registerEvent_eq agree EPOLLOUT p false)

/-- **Which runs keep the tables consistent**: those in which no single unregistration takes
away the last event of a descriptor. -/
theorem LTReactor.consistent_iff (calls : List Call) :
    Always Step Consistent init calls ↔ StepsMeet Step KeepsEvent init calls := by
  apply always_iff_stepsMeet (J := Known) ?_ ?_ ?_ ?_ calls
  · intro s c s' known consistent step
    exact step_known known consistent.agree step
  · intro s c s' known consistent step
    rw [consistent_iff_agree]
    exact step_agree_iff known consistent.agree step
  · intro fd it here
    cases here
  · rw [consistent_iff_agree]
    exact fun fd => rfl

/-- Reading is registered, unregistered and registered again: the second registration asks
the kernel to add a descriptor it still has. -/
theorem LTReactor.register_again_fails :
    let p : FDEventHanderBase := { id := 0, m_fd := 3 }
    let s := ((init.RegisterReadEvent p false).1.UnRegisterReadEvent p false).1
    ¬ Always Step Consistent init [.RegisterReadEvent p false, .UnRegisterReadEvent p false] ∧
    s.interest 3 = some 0 ∧ s.m_fdmap 3 = none ∧ (s.RegisterReadEvent p false).2 = -1 := by
  intro p s
  have kernel : s.interest 3 = some 0 := by decide
  have map : s.m_fdmap 3 = none := by decide
  refine ⟨?_, kernel, map, by decide⟩
  rintro ⟨_, first⟩
  have agree : s.Agree := (((first _ rfl).2 _ rfl).head).agree
  have both := agree 3
  rw [kernel, map] at both
  cases both

end CodeClips.Epoll
