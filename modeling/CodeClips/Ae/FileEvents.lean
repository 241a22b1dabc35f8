import CodeClips.Epoll.Registration

/-!
# File events of the `ae` event loop

`ae.c` keeps a mask for each descriptor and `maxfd`, the highest one with a mask;
`ae_epoll.c` keeps the kernel's interest list in step through `epoll_ctl`, choosing between
`EPOLL_CTL_ADD`, `MOD` and `DEL` by the mask it finds. When `epoll_ctl` refuses, the call
returns before the mask is written; when the highest descriptor goes, `maxfd` is searched for
downwards. `agreement` says that the three never come apart.
-/

namespace CodeClips.Ae

/-- A mask of events, an `int` in C. -/
abbrev Mask := BitVec 32

def AE_NONE : Mask := 0
def AE_READABLE : Mask := 1
def AE_WRITABLE : Mask := 2

def AE_OK : Int := 0
def AE_ERR : Int := -1

section FileEvents
variable {Proc Data : Type}

/-- `aeFileEvent`; the pointers of an event that has not been set are `none`. -/
structure aeFileEvent (Proc Data : Type) where
  mask : Mask
  rfileProc : Option Proc
  wfileProc : Option Proc
  clientData : Option Data

/-- What the file-event functions use of `aeEventLoop`, with the interest list of the epoll
instance behind `apidata`. -/
structure aeEventLoop (Proc Data : Type) where
  maxfd : Int
  setsize : Int
  events : Int → aeFileEvent Proc Data
  interest : Epoll.Interest

/-- `aeCreateEventLoop(setsize)`, as far as the file events go. -/
def aeCreateEventLoop (setsize : Int) : aeEventLoop Proc Data :=
  { maxfd := -1
    setsize := setsize
    events := fun _ => { mask := AE_NONE, rfileProc := none, wfileProc := none, clientData := none }
    interest := fun _ => none }

/-- `ee.events` for a mask. -/
def eeEvents (mask : Mask) : Epoll.Events :=
  let events : Epoll.Events := 0
  let events := if mask &&& AE_READABLE ≠ 0 then events ||| Epoll.EPOLLIN else events
  if mask &&& AE_WRITABLE ≠ 0 then events ||| Epoll.EPOLLOUT else events

/-- `aeApiAddEvent`: the interest list it leaves, and what it returns. `refused` as in
`epoll_ctl`. -/
def aeApiAddEvent (eventLoop : aeEventLoop Proc Data) (fd : Int) (mask : Mask) (refused : Bool) :
    Epoll.Interest × Int :=
  let op := if (eventLoop.events fd).mask = AE_NONE then Epoll.EpollOp.EPOLL_CTL_ADD
    else Epoll.EpollOp.EPOLL_CTL_MOD
  let mask := mask ||| (eventLoop.events fd).mask
  let (interest, ret) := Epoll.epoll_ctl eventLoop.interest op fd (eeEvents mask) refused
  if ret = -1 then (interest, -1) else (interest, 0)

/-- `aeApiDelEvent`. What `epoll_ctl` returns is not looked at; the kernel does not refuse to
change or delete an entry it has. -/
def aeApiDelEvent (eventLoop : aeEventLoop Proc Data) (fd : Int) (delmask : Mask) : Epoll.Interest :=
  let mask := (eventLoop.events fd).mask &&& ~~~delmask
  if mask ≠ AE_NONE then (Epoll.epoll_ctl eventLoop.interest .EPOLL_CTL_MOD fd (eeEvents mask) false).1
  else (Epoll.epoll_ctl eventLoop.interest .EPOLL_CTL_DEL fd (eeEvents mask) false).1

/-- What `aeCreateFileEvent` writes to `*fe`. -/
def aeFileEvent.set (fe : aeFileEvent Proc Data) (mask : Mask) (proc : Proc) (clientData : Data) :
    aeFileEvent Proc Data :=
  let fe := { fe with mask := fe.mask ||| mask }
  let fe := if mask &&& AE_READABLE ≠ 0 then { fe with rfileProc := some proc } else fe
  let fe := if mask &&& AE_WRITABLE ≠ 0 then { fe with wfileProc := some proc } else fe
  { fe with clientData := some clientData }

def aeCreateFileEvent (eventLoop : aeEventLoop Proc Data) (fd : Int) (mask : Mask) (proc : Proc)
    (clientData : Data) (refused : Bool) : aeEventLoop Proc Data × Int :=
  if fd ≥ eventLoop.setsize then (eventLoop, AE_ERR)
  else
    let (interest, ret) := aeApiAddEvent eventLoop fd mask refused
    if ret = -1 then ({ eventLoop with interest := interest }, AE_ERR)
    else
      let fe := (eventLoop.events fd).set mask proc clientData
      ({ eventLoop with
          interest := interest
          events := Function.update eventLoop.events fd fe
          maxfd := if fd > eventLoop.maxfd then fd else eventLoop.maxfd }, AE_OK)

/-- The search for the new `maxfd`: the highest descriptor below `j` with a mask, or -1. -/
def highestBelow (events : Int → aeFileEvent Proc Data) : Nat → Int
  | 0 => -1
  | j + 1 => if (events j).mask ≠ AE_NONE then j else highestBelow events j

def aeDeleteFileEvent (eventLoop : aeEventLoop Proc Data) (fd : Int) (mask : Mask) : aeEventLoop Proc Data :=
  if fd ≥ eventLoop.setsize then eventLoop
  else
    let fe := eventLoop.events fd
    if fe.mask = AE_NONE then eventLoop
    else
      let fe := { fe with mask := fe.mask &&& ~~~mask }
      let events := Function.update eventLoop.events fd fe
      let maxfd := if fd = eventLoop.maxfd ∧ fe.mask = AE_NONE then highestBelow events eventLoop.maxfd.toNat
        else eventLoop.maxfd
      let eventLoop := { eventLoop with events := events, maxfd := maxfd }
      { eventLoop with interest := aeApiDelEvent eventLoop fd mask }

/-! ## Calls -/

/-- A call of one of the two; `refused` as in `epoll_ctl`. -/
inductive Call (Proc Data : Type) where
  | aeCreateFileEvent (fd : Int) (mask : Mask) (proc : Proc) (clientData : Data) (refused : Bool)
  | aeDeleteFileEvent (fd : Int) (mask : Mask)

def aeEventLoop.call (eventLoop : aeEventLoop Proc Data) : Call Proc Data → aeEventLoop Proc Data
  | .aeCreateFileEvent fd mask proc clientData refused =>
    (Ae.aeCreateFileEvent eventLoop fd mask proc clientData refused).1
  | .aeDeleteFileEvent fd mask => Ae.aeDeleteFileEvent eventLoop fd mask

/-- A non-empty set of `AE_READABLE` and `AE_WRITABLE`. -/
def Asked (mask : Mask) : Prop :=
  mask = AE_READABLE ∨ mask = AE_WRITABLE ∨ mask = AE_READABLE ||| AE_WRITABLE

/-- A descriptor, and a non-empty set of events. -/
def Call.Valid : Call Proc Data → Prop
  | .aeCreateFileEvent fd mask _ _ _ => 0 ≤ fd ∧ Asked mask
  | .aeDeleteFileEvent fd mask => 0 ≤ fd ∧ Asked mask

/-- A descriptor is in the interest list exactly if it has a mask, and with that mask. -/
def aeEventLoop.Agree (s : aeEventLoop Proc Data) : Prop :=
  ∀ fd, s.interest fd = if (s.events fd).mask = AE_NONE then none else some (eeEvents (s.events fd).mask)

/-- `top` is the highest descriptor with a mask, or -1. -/
def Highest (events : Int → aeFileEvent Proc Data) (top : Int) : Prop :=
  (∀ fd, (events fd).mask ≠ AE_NONE → fd ≤ top) ∧ (top = -1 ∨ (events top).mask ≠ AE_NONE)

/-- Masks are sets of the two events, on descriptors of the loop. -/
structure aeEventLoop.Known (s : aeEventLoop Proc Data) : Prop where
  sets : ∀ fd, (s.events fd).mask = AE_NONE ∨ Asked (s.events fd).mask
  range : ∀ fd, (s.events fd).mask ≠ AE_NONE → 0 ≤ fd ∧ fd < s.setsize

/-- The invariant of the loop. -/
structure aeEventLoop.Invariant (s : aeEventLoop Proc Data) : Prop where
  known : s.Known
  agree : s.Agree
  highest : Highest s.events s.maxfd

/-! ## Masks -/

/-- Joining and taking away events stays among the sets of the two. -/
theorem mask_or {m n : Mask} (held : m = AE_NONE ∨ Asked m) (asked : Asked n) : Asked (m ||| n) := by
  unfold Asked at *
  rcases held with rfl | rfl | rfl | rfl <;> rcases asked with rfl | rfl | rfl <;> decide

theorem mask_sdiff {m n : Mask} (held : m = AE_NONE ∨ Asked m) (asked : Asked n) :
    m &&& ~~~n = AE_NONE ∨ Asked (m &&& ~~~n) := by
  unfold Asked at *
  rcases held with rfl | rfl | rfl | rfl <;> rcases asked with rfl | rfl | rfl <;> decide

/-- Taking events away twice is taking them away once. -/
theorem mask_sdiff_twice (m n : Mask) : m &&& ~~~n &&& ~~~n = m &&& ~~~n := by
  rw [BitVec.and_assoc, BitVec.and_self]

theorem Asked.ne {m : Mask} (asked : Asked m) : m ≠ AE_NONE := by
  unfold Asked at asked
  rcases asked with rfl | rfl | rfl <;> decide

/-! ## The highest descriptor -/

theorem highestBelow_highest (events : Int → aeFileEvent Proc Data) (j : Nat)
    (below : ∀ fd, (events fd).mask ≠ AE_NONE → 0 ≤ fd ∧ fd < j) : Highest events (highestBelow events j) := by
  induction j with
  | zero =>
    refine ⟨fun fd set => ?_, .inl rfl⟩
    have bounds := below fd set
    omega
  | succ j ih =>
    rw [highestBelow]
    split_ifs with set
    · refine ⟨fun fd mask => ?_, .inr set⟩
      have bounds := below fd mask
      omega
    · apply ih
      intro fd mask
      have bounds := below fd mask
      have other : fd ≠ j := by
        rintro rfl
        exact set mask
      omega

/-! ## One call -/

@[simp] theorem aeFileEvent.set_mask (fe : aeFileEvent Proc Data) (mask : Mask) (proc : Proc) (clientData : Data) :
    (fe.set mask proc clientData).mask = fe.mask ||| mask := by
  unfold aeFileEvent.set
  split_ifs <;> rfl

/-- A change at one descriptor keeps agreement if the new entries agree. -/
theorem agree_update {s : aeEventLoop Proc Data} (agree : s.Agree) (fd maxfd : Int) (fe : aeFileEvent Proc Data) :
    ({ s with
        maxfd := maxfd
        events := Function.update s.events fd fe
        interest := Function.update s.interest fd
          (if fe.mask = AE_NONE then none else some (eeEvents fe.mask)) } : aeEventLoop Proc Data).Agree := by
  intro other
  by_cases here : other = fd
  · subst here
    simp
  · simpa [here] using agree other

theorem known_update {s : aeEventLoop Proc Data} (known : s.Known) {fd : Int} (bounds : 0 ≤ fd ∧ fd < s.setsize)
    (maxfd : Int) {fe : aeFileEvent Proc Data} (set : fe.mask = AE_NONE ∨ Asked fe.mask) (interest : Epoll.Interest) :
    ({ s with
        maxfd := maxfd
        events := Function.update s.events fd fe
        interest := interest } : aeEventLoop Proc Data).Known := by
  constructor
  · intro other
    by_cases here : other = fd
    · subst here
      simpa using set
    · simpa [here] using known.sets other
  · intro other
    by_cases here : other = fd
    · subst here
      exact fun _ => bounds
    · simpa [here] using known.range other

/-- The kernel takes `ADD` and `MOD` from `aeApiAddEvent` as they are meant. -/
theorem aeApiAddEvent_eq {s : aeEventLoop Proc Data} (agree : s.Agree) (fd : Int) (mask : Mask) (refused : Bool) :
    aeApiAddEvent s fd mask refused =
      if refused then (s.interest, -1)
      else (Function.update s.interest fd (some (eeEvents (mask ||| (s.events fd).mask))), 0) := by
  have kernel := agree fd
  cases refused with
  | true => rfl
  | false =>
    by_cases none : (s.events fd).mask = AE_NONE
    · rw [if_pos none] at kernel
      simp [aeApiAddEvent, Epoll.epoll_ctl, kernel, none]
    · rw [if_neg none] at kernel
      simp [aeApiAddEvent, Epoll.epoll_ctl, kernel, none]

/-- And `MOD` and `DEL` from `aeApiDelEvent`, which finds the mask already lowered. -/
theorem aeApiDelEvent_eq (s : aeEventLoop Proc Data) {fd : Int} {mask : Mask} (known : s.interest fd ≠ none)
    (lowered : (s.events fd).mask &&& ~~~mask = (s.events fd).mask) :
    aeApiDelEvent s fd mask = Function.update s.interest fd
      (if (s.events fd).mask = AE_NONE then none else some (eeEvents (s.events fd).mask)) := by
  obtain ⟨events, listed⟩ := Option.ne_none_iff_exists'.mp known
  by_cases none : (s.events fd).mask = AE_NONE
  · rw [aeApiDelEvent, lowered, if_neg (not_not_intro none), if_pos none]
    simp [Epoll.epoll_ctl, listed]
  · rw [aeApiDelEvent, lowered, if_pos none, if_neg none]
    simp [Epoll.epoll_ctl, listed]

/-- What `aeCreateFileEvent` does when the kernel does not refuse. -/
theorem aeCreateFileEvent_eq {s : aeEventLoop Proc Data} (agree : s.Agree) {fd : Int} (inside : fd < s.setsize)
    (mask : Mask) (proc : Proc) (clientData : Data) :
    let fe := (s.events fd).set mask proc clientData
    aeCreateFileEvent s fd mask proc clientData false =
      ({ s with
          interest := Function.update s.interest fd (some (eeEvents fe.mask))
          events := Function.update s.events fd fe
          maxfd := if fd > s.maxfd then fd else s.maxfd }, AE_OK) := by
  have room : ¬ fd ≥ s.setsize := by omega
  simp only [aeCreateFileEvent, if_neg room, aeApiAddEvent_eq agree, aeFileEvent.set_mask, BitVec.or_comm mask]
  rfl

theorem aeCreateFileEvent_invariant {s : aeEventLoop Proc Data} (inv : s.Invariant) {fd : Int} (descriptor : 0 ≤ fd)
    {mask : Mask} (asked : Asked mask) (proc : Proc) (clientData : Data) (refused : Bool) :
    (aeCreateFileEvent s fd mask proc clientData refused).1.Invariant := by
  by_cases outside : fd ≥ s.setsize
  · rw [aeCreateFileEvent, if_pos outside]
    exact inv
  cases refused with
  | true =>
    rw [aeCreateFileEvent, if_neg outside, aeApiAddEvent_eq inv.agree]
    exact inv
  | false =>
    rw [aeCreateFileEvent_eq inv.agree (by omega)]
    generalize entry : (s.events fd).set mask proc clientData = fe
    have set : Asked fe.mask := by
      rw [← entry, aeFileEvent.set_mask]
      exact mask_or (inv.known.sets fd) asked
    have listed : (if fe.mask = AE_NONE then none else some (eeEvents fe.mask)) = some (eeEvents fe.mask) :=
      if_neg set.ne
    refine ⟨known_update inv.known ⟨descriptor, by omega⟩ _ (.inr set) _, ?_, ?_, ?_⟩
    · rw [← listed]
      exact agree_update inv.agree fd _ fe
    · intro other mask
      dsimp only
      by_cases here : other = fd
      · split_ifs <;> omega
      · have below := inv.highest.1 other (by simpa [here] using mask)
        split_ifs <;> omega
    · dsimp only
      split_ifs with higher
      · exact .inr (by simpa using set.ne)
      · refine inv.highest.2.imp_right fun top => ?_
        by_cases here : s.maxfd = fd
        · simpa [here] using set.ne
        · simpa [here] using top

/-- What `aeDeleteFileEvent` does to a descriptor with a mask. -/
theorem aeDeleteFileEvent_eq {s : aeEventLoop Proc Data} (agree : s.Agree) {fd : Int} (inside : fd < s.setsize)
    (held : (s.events fd).mask ≠ AE_NONE) (mask : Mask) :
    let fe := { s.events fd with mask := (s.events fd).mask &&& ~~~mask }
    aeDeleteFileEvent s fd mask =
      { s with
          maxfd := if fd = s.maxfd ∧ fe.mask = AE_NONE then
              highestBelow (Function.update s.events fd fe) s.maxfd.toNat
            else s.maxfd
          events := Function.update s.events fd fe
          interest := Function.update s.interest fd
            (if fe.mask = AE_NONE then none else some (eeEvents fe.mask)) } := by
  have room : ¬ fd ≥ s.setsize := by omega
  have kernel := agree fd
  rw [if_neg held] at kernel
  simp only [aeDeleteFileEvent, if_neg room, if_neg held]
  rw [aeApiDelEvent_eq]
  · simp
  · simp [kernel]
  · simpa using mask_sdiff_twice (s.events fd).mask mask

theorem aeDeleteFileEvent_invariant {s : aeEventLoop Proc Data} (inv : s.Invariant) {fd : Int}
    {mask : Mask} (asked : Asked mask) : (aeDeleteFileEvent s fd mask).Invariant := by
  by_cases outside : fd ≥ s.setsize
  · rw [aeDeleteFileEvent, if_pos outside]
    exact inv
  by_cases held : (s.events fd).mask = AE_NONE
  · simp only [aeDeleteFileEvent, if_neg outside, held, if_true]
    exact inv
  have bounds := inv.known.range fd held
  rw [aeDeleteFileEvent_eq inv.agree (by omega) held]
  generalize entry : ({ s.events fd with mask := (s.events fd).mask &&& ~~~mask } : aeFileEvent Proc Data) = fe
  have set : fe.mask = AE_NONE ∨ Asked fe.mask := entry ▸ mask_sdiff (inv.known.sets fd) asked
  have before : ∀ other, (Function.update s.events fd fe other).mask ≠ AE_NONE → (s.events other).mask ≠ AE_NONE := by
    intro other mask
    by_cases here : other = fd
    · exact here ▸ held
    · simpa [here] using mask
  refine ⟨known_update inv.known bounds _ set _, agree_update inv.agree fd _ fe, ?_⟩
  dsimp only
  split_ifs with gone
  · -- the highest descriptor has lost its mask: all others are below it
    obtain ⟨rfl, empty⟩ := gone
    apply highestBelow_highest
    intro other mask
    have below := inv.highest.1 other (before other mask)
    have range := inv.known.range other (before other mask)
    have differs : other ≠ s.maxfd := by
      rintro rfl
      exact mask (by simpa using empty)
    omega
  · refine ⟨fun other mask => inv.highest.1 other (before other mask), inv.highest.2.imp_right fun top => ?_⟩
    by_cases here : s.maxfd = fd
    · have kept : fe.mask ≠ AE_NONE := fun empty => gone ⟨here.symm, empty⟩
      simpa [here] using kept
    · simpa [here] using top

/-! ## Runs -/

theorem create_invariant (setsize : Int) : (aeCreateEventLoop setsize : aeEventLoop Proc Data).Invariant :=
  ⟨⟨fun _ => .inl rfl, fun _ set => absurd rfl set⟩, fun _ => rfl, fun _ set => absurd rfl set, .inl rfl⟩

/-- Every call keeps the invariant. -/
theorem call_invariant {s : aeEventLoop Proc Data} (inv : s.Invariant) {c : Call Proc Data} (valid : c.Valid) :
    (s.call c).Invariant := by
  cases c with
  | aeCreateFileEvent fd mask proc clientData refused =>
    exact aeCreateFileEvent_invariant inv valid.1 valid.2 proc clientData refused
  | aeDeleteFileEvent fd mask => exact aeDeleteFileEvent_invariant inv valid.2

theorem run_invariant {s : aeEventLoop Proc Data} (inv : s.Invariant) (calls : List (Call Proc Data))
    (valid : ∀ c ∈ calls, c.Valid) : (calls.foldl aeEventLoop.call s).Invariant := by
  induction calls generalizing s with
  | nil => exact inv
  | cons c calls ih =>
    obtain ⟨first, rest⟩ := List.forall_mem_cons.mp valid
    exact ih (call_invariant inv first) rest

/-- **Agreement.** After any sequence of calls, each mask is the one the kernel has, and
`maxfd` is the highest descriptor with a mask. -/
theorem agreement (setsize : Int) (calls : List (Call Proc Data)) (valid : ∀ c ∈ calls, c.Valid) :
    let s := calls.foldl aeEventLoop.call (aeCreateEventLoop setsize)
    (∀ fd, s.interest fd = if (s.events fd).mask = AE_NONE then none else some (eeEvents (s.events fd).mask)) ∧
      (∀ fd, (s.events fd).mask = AE_NONE ∨ Asked (s.events fd).mask) ∧ Highest s.events s.maxfd := by
  have inv := run_invariant (create_invariant setsize) calls valid
  exact ⟨inv.agree, inv.known.sets, inv.highest⟩

/-- Two descriptors, a refused `ADD`, and the higher one deleted. -/
theorem agreement_four :
    let calls : List (Call Unit Unit) := [.aeCreateFileEvent 3 AE_READABLE () () false,
      .aeCreateFileEvent 7 (AE_READABLE ||| AE_WRITABLE) () () false, .aeCreateFileEvent 8 AE_WRITABLE () () true,
      .aeDeleteFileEvent 7 (AE_READABLE ||| AE_WRITABLE)]
    let s := calls.foldl aeEventLoop.call (aeCreateEventLoop 16)
    (∀ fd, s.interest fd = if (s.events fd).mask = AE_NONE then none else some (eeEvents (s.events fd).mask)) ∧
      (∀ fd, (s.events fd).mask = AE_NONE ∨ Asked (s.events fd).mask) ∧ Highest s.events s.maxfd := by
  apply agreement
  simp [Call.Valid, Asked]

end FileEvents

end CodeClips.Ae
