import CodeClips.FdServer.PollArray

/-!
# The uid of a request

`loop2` hands `client[i].uid` to `handle_request` for the descriptor in `pollfd[i]`, but the
two arrays fill their gaps in different ways. `ClientTable.Lists`: the table has the `uid` of
each client, in one entry; `credentials_iff`: as long as only last entries hang up that entry is
at the client's place in the poll array, and its requests are served under the right `uid`;
elsewhere they are exactly if the two entries have the same.
-/

namespace CodeClips.FdServer

open Function

/-! ## The client table -/

/-- `c` has been added in entry `k`, the first free one or else the first one allocated for it. -/
structure ClientTable.Added (t t' : ClientTable) (k : Nat) (c : Client) : Prop where
  first : ∀ j, j < k → (t.client j).fd ≠ -1
  free : k < t.client_size → (t.client k).fd = -1
  next : k ≤ t.client_size
  inside : k < t'.client_size
  grows : t.client_size ≤ t'.client_size
  entry : t'.client k = c
  kept : ∀ j, j < t.client_size → j ≠ k → t'.client j = t.client j
  fresh : ∀ j, t.client_size ≤ j → j < t'.client_size → j ≠ k → (t'.client j).fd = -1

theorem ClientTable.find_some {t : ClientTable} {fd : Int} {k : Nat} (found : t.find fd = some k) :
    k < t.client_size ∧ (t.client k).fd = fd ∧ ∀ j, j < k → (t.client j).fd ≠ fd := by
  obtain ⟨here, inside, first⟩ := List.find?_range_eq_some.mp found
  refine ⟨List.mem_range.mp inside, of_decide_eq_true here, ?_⟩
  intro j less
  simpa using first j less

theorem ClientTable.find_none {t : ClientTable} {fd : Int} (missing : t.find fd = none) {j : Nat}
    (inside : j < t.client_size) : (t.client j).fd ≠ fd := by
  simpa using List.find?_range_eq_none.mp missing j inside

theorem client_alloc_old (t : ClientTable) {j : Nat} (inside : j < t.client_size) :
    (client_alloc t).client j = t.client j := by
  simp only [client_alloc]
  rw [if_neg (by omega)]

theorem client_alloc_new (t : ClientTable) {j : Nat} (past : t.client_size ≤ j) (less : j < t.client_size + NALLOC) :
    ((client_alloc t).client j).fd = -1 := by
  simp only [client_alloc]
  rw [if_pos ⟨past, less⟩]

/-- The second search of `client_add`. -/
theorem find_client_alloc {t : ClientTable} (full : t.find (-1) = none) :
    (client_alloc t).find (-1) = some t.client_size := by
  apply List.find?_range_eq_some.mpr
  refine ⟨?_, ?_, ?_⟩
  · exact decide_eq_true (client_alloc_new t (Nat.le_refl _) (by simp [NALLOC]))
  · simp [client_alloc, NALLOC]
  · intro j less
    rw [client_alloc_old t less]
    simpa using ClientTable.find_none full less

theorem client_add_spec (t : ClientTable) (fd : Int) (uid : Nat) :
    ∃ k, t.Added (client_add t fd uid) k { fd := fd, uid := uid } := by
  unfold client_add
  cases found : t.find (-1) with
  | some k =>
    obtain ⟨inside, free, first⟩ := ClientTable.find_some found
    refine ⟨k, first, fun _ => free, Nat.le_of_lt inside, inside, Nat.le_refl _, update_self .., ?_, ?_⟩
    · exact fun j _ other => update_of_ne other ..
    · exact fun j past less _ => absurd less (Nat.not_lt.mpr past)
  | none =>
    dsimp only
    rw [find_client_alloc found]
    refine ⟨t.client_size, ?_, ?_, Nat.le_refl _, ?_, ?_, update_self .., ?_, ?_⟩
    · exact fun j less => ClientTable.find_none found less
    · exact fun less => absurd less (Nat.lt_irrefl _)
    · simp [ClientTable.set, client_alloc, NALLOC]
    · simp [ClientTable.set, client_alloc]
    · exact fun j less other => (update_of_ne other ..).trans (client_alloc_old t less)
    · intro j past less other
      simp only [ClientTable.set]
      rw [update_of_ne other]
      exact client_alloc_new t past less

/-- The entries in use are the new one and the old ones. -/
theorem ClientTable.Added.used {t t' : ClientTable} {k j : Nat} {c : Client} (added : t.Added t' k c)
    (inside : j < t'.client_size) (use : (t'.client j).fd ≠ -1) :
    j = k ∨ j < t.client_size ∧ t'.client j = t.client j := by
  obtain rfl | other := eq_or_ne j k
  · exact .inl rfl
  · obtain old | past := Nat.lt_or_ge j t.client_size
    · exact .inr ⟨old, added.kept j old other⟩
    · exact absurd (added.fresh j past inside other) use

theorem ClientTable.Added.old {t t' : ClientTable} {k j : Nat} {c : Client} (added : t.Added t' k c)
    (inside : j < t.client_size) (use : (t.client j).fd ≠ -1) : j < t'.client_size ∧ t'.client j = t.client j := by
  refine ⟨Nat.lt_of_lt_of_le inside added.grows, added.kept j inside ?_⟩
  intro same
  exact use (same ▸ added.free (same ▸ inside))

/-- `client_del` frees the first entry of the descriptor. -/
theorem client_del_spec {t : ClientTable} {fd : Int} {k : Nat} (inside : k < t.client_size)
    (here : (t.client k).fd = fd) (only : ∀ j, j < t.client_size → (t.client j).fd = fd → j = k) :
    client_del t fd = t.set k { t.client k with fd := -1 } := by
  unfold client_del
  cases found : t.find fd with
  | none => exact absurd here (ClientTable.find_none found inside)
  | some j =>
    obtain ⟨less, same, _⟩ := ClientTable.find_some found
    cases only j less same
    rfl

/-! ## The table has each client -/

/-- The table has the listening descriptor and the clients with their `uid`, each in one entry. -/
structure ClientTable.Lists (t : ClientTable) (listenfd : Nat) (accepted : Int → Option Nat) : Prop where
  placed : ∀ fd uid, accepted fd = some uid → ∃ k, k < t.client_size ∧ t.client k = { fd := fd, uid := uid }
  only : ∀ k, k < t.client_size → (t.client k).fd ≠ -1 →
    (t.client k).fd = listenfd ∨ accepted (t.client k).fd = some (t.client k).uid
  apart : ∀ j k, j < t.client_size → k < t.client_size → (t.client j).fd ≠ -1 →
    (t.client j).fd = (t.client k).fd → j = k
  listening : accepted listenfd = none
  inUse : accepted (-1) = none

section Lists
variable {t : ClientTable} {listenfd : Nat} {accepted : Int → Option Nat}

theorem ClientTable.Lists.add (lists : t.Lists listenfd accepted) {clifd : Nat} (uid : Nat)
    (other : clifd ≠ listenfd) (unused : accepted clifd = none) :
    (client_add t clifd uid).Lists listenfd (update accepted clifd (some uid)) := by
  obtain ⟨k, added⟩ := client_add_spec t clifd uid
  have entry : ((client_add t clifd uid).client k).fd = clifd := by rw [added.entry]
  -- no entry of the table has the descriptor before
  have absent : ∀ j, j < t.client_size → (t.client j).fd ≠ clifd := by
    intro j inside same
    obtain first | second := lists.only j inside (by omega)
    · omega
    · rw [same, unused] at second
      cases second
  refine ⟨?_, ?_, ?_, ?_, ?_⟩
  · intro fd uid' here
    obtain rfl | apart := eq_or_ne fd clifd
    · rw [update_self] at here
      cases here
      exact ⟨k, added.inside, added.entry⟩
    · rw [update_of_ne apart] at here
      obtain ⟨j, inside, same⟩ := lists.placed fd uid' here
      have use : (t.client j).fd ≠ -1 := by
        rw [same]
        intro free
        rw [show fd = -1 from free, lists.inUse] at here
        cases here
      obtain ⟨inside', same'⟩ := added.old inside use
      exact ⟨j, inside', same'.trans same⟩
  · intro j inside use
    obtain rfl | ⟨old, same⟩ := added.used inside use
    · rw [added.entry]
      exact .inr (update_self ..)
    · rw [same] at use ⊢
      rw [update_of_ne (absent j old)]
      exact lists.only j old use
  · intro i j insideI insideJ use same
    obtain rfl | ⟨oldI, sameI⟩ := added.used insideI use
    · obtain rfl | ⟨oldJ, sameJ⟩ := added.used insideJ (same ▸ use)
      · rfl
      · rw [sameJ, entry] at same
        exact absurd same.symm (absent j oldJ)
    · obtain rfl | ⟨oldJ, sameJ⟩ := added.used insideJ (same ▸ use)
      · rw [sameI, entry] at same
        exact absurd same (absent i oldI)
      · rw [sameI] at use same
        rw [sameJ] at same
        exact lists.apart i j oldI oldJ use same
  · rw [update_of_ne (by omega)]
    exact lists.listening
  · rw [update_of_ne (by omega)]
    exact lists.inUse

theorem ClientTable.Lists.del (lists : t.Lists listenfd accepted) {fd : Int} {uid : Nat}
    (here : accepted fd = some uid) : (client_del t fd).Lists listenfd (update accepted fd none) := by
  obtain ⟨k, inside, entry⟩ := lists.placed fd uid here
  have use : fd ≠ -1 := by
    intro free
    rw [free, lists.inUse] at here
    cases here
  have same : (t.client k).fd = fd := by rw [entry]
  have unique : ∀ j, j < t.client_size → (t.client j).fd = fd → j = k :=
    fun j insideJ sameJ => lists.apart j k insideJ inside (sameJ ▸ use) (sameJ.trans same.symm)
  rw [client_del_spec inside same unique]
  -- what is still in use is another entry, with another descriptor
  have rest : ∀ j, ((t.set k { t.client k with fd := -1 }).client j).fd ≠ -1 →
      j ≠ k ∧ (t.set k { t.client k with fd := -1 }).client j = t.client j := by
    intro j useJ
    obtain rfl | apart := eq_or_ne j k
    · simp [ClientTable.set] at useJ
    · exact ⟨apart, update_of_ne apart ..⟩
  refine ⟨?_, ?_, ?_, ?_, ?_⟩
  · intro other uid' there
    obtain rfl | apart := eq_or_ne other fd
    · simp at there
    · rw [update_of_ne apart] at there
      obtain ⟨j, insideJ, entryJ⟩ := lists.placed other uid' there
      refine ⟨j, insideJ, ?_⟩
      have differ : j ≠ k := by
        intro both
        rw [both, entry] at entryJ
        exact apart (congrArg Client.fd entryJ).symm
      exact (update_of_ne differ ..).trans entryJ
  · intro j insideJ useJ
    obtain ⟨differ, keeps⟩ := rest j useJ
    rw [keeps] at useJ ⊢
    rw [update_of_ne fun sameJ => differ (unique j insideJ sameJ)]
    exact lists.only j insideJ useJ
  · intro i j insideI insideJ useI sameIJ
    obtain ⟨_, keepsI⟩ := rest i useI
    obtain ⟨_, keepsJ⟩ := rest j (sameIJ ▸ useI)
    rw [keepsI] at useI sameIJ
    rw [keepsJ] at sameIJ
    exact lists.apart i j insideI insideJ useI sameIJ
  · obtain apart | same := eq_or_ne (listenfd : Int) fd
    · rw [apart, update_self]
    · rw [update_of_ne same]
      exact lists.listening
  · rw [update_of_ne use.symm]
    exact lists.inUse

end Lists

/-! ## One step -/

/-- What holds in every state of `loop2`. -/
structure World.Sound (listenfd : Nat) (w : World) : Prop where
  exact : w.Exact
  counted : w.Counted
  lists : w.server.clients.Lists listenfd w.accepted

/-- The loop comes to `handle_request` with the entry `i`. -/
def Server.Serves (s : Server) (i : Nat) (nread : Int) : Prop :=
  s.pc = .body i ∧ i < s.numfd ∧ (s.pfd_wrap.pfd i).revents &&& POLLHUP = 0 ∧
    (s.pfd_wrap.pfd i).revents &&& POLLIN ≠ 0 ∧ 0 < nread

/-- A request made in this step is under the `uid` of its client. -/
def World.Right (w : World) (a : Answer) : Prop :=
  ∀ server request, w.server.next a = some server → server.requests = w.server.requests ++ [request] →
    w.accepted request.1 = some request.2

/-- The entry of the table for the descriptor of a request is at its place in the poll array. -/
def World.Placed (w : World) (a : Answer) : Prop :=
  ∀ i nread, a = .read nread → w.server.Serves i nread →
    i < w.server.clients.client_size ∧ (w.server.clients.client i).fd = (w.server.pfd_wrap.pfd i).fd

/-- The entry of the table for the descriptor of a request has the same `uid` as the entry at
its place in the poll array. -/
def World.SameUid (w : World) (a : Answer) : Prop :=
  ∀ i nread, a = .read nread → w.server.Serves i nread →
    ∃ k, k < w.server.clients.client_size ∧ (w.server.clients.client k).fd = (w.server.pfd_wrap.pfd i).fd ∧
      (w.server.clients.client k).uid = (w.server.clients.client i).uid

/-- Only the last entry of the poll array hangs up. -/
def World.HangsUpLast (w : World) (a : Answer) : Prop :=
  ∀ i nread, a = .read nread → w.server.pc = .body i → i < w.server.numfd → w.server.Closes i nread →
    i + 1 = w.server.numfd

section Step
variable {listenfd : Nat} {w w' : World} {a : Answer}

/-- A connected client has its `uid`. -/
theorem World.Exact.accepted (exact : w.Exact) {i : Nat} (first : 1 ≤ i) (inside : i < w.server.numfd) :
    ∃ uid, w.accepted (w.server.pfd_wrap.pfd i).fd = some uid := by
  apply Option.ne_none_iff_exists'.mp
  apply (exact.connected _).mp
  exact Multiset.mem_map_of_mem _ (mem_window.mpr ⟨i, first, inside, rfl⟩)

theorem World.step_sound (sound : w.Sound listenfd) (step : World.Step listenfd w a w') : w'.Sound listenfd := by
  refine ⟨step_exact sound.exact sound.counted step, step_counted sound.exact sound.counted step, ?_⟩
  cases step_cases step with
  | poll revents here done => exact sound.lists
  | accept clifd uid here other fresh => exact sound.lists.add uid other fresh
  | hungup nread here inside closes =>
    obtain ⟨uid, mine⟩ := sound.exact.accepted (sound.counted.ahead _ here).1 inside
    dsimp only
    rw [Server.hungup_clients]
    exact sound.lists.del mine
  | stays nread here inside stays =>
    dsimp only
    rw [(Server.body_stays stays).2.2.1]
    exact sound.lists

/-- A step makes no request but that of `handle_request`. -/
theorem Server.next_requests {s s' : Server} (next : s.next a = some s') :
    (s'.requests = s.requests ∧ ∀ i nread, a = .read nread → ¬ s.Serves i nread) ∨
      ∃ i nread, a = .read nread ∧ s.Serves i nread ∧
        s'.requests = s.requests ++ [((s.pfd_wrap.pfd i).fd, (s.clients.client i).uid)] := by
  cases a with
  | poll revents =>
    dsimp only [Server.next] at next
    split at next
    · obtain ⟨_, ⟨⟩⟩ := Option.ite_none_right_eq_some.mp next
      exact .inl ⟨rfl, fun i nread same => by cases same⟩
    · cases next
  | serv_accept clifd uid =>
    dsimp only [Server.next] at next
    split at next
    · cases next
      exact .inl ⟨rfl, fun i nread same => by cases same⟩
    · cases next
  | read nread =>
    dsimp only [Server.next] at next
    split at next
    · next i here =>
      obtain ⟨inside, ⟨⟩⟩ := Option.ite_none_right_eq_some.mp next
      have same : ∀ {j nread'}, Answer.read nread = .read nread' → s.Serves j nread' → j = i ∧ nread' = nread := by
        intro j nread' answer serves
        cases answer
        cases serves.1.symm.trans here
        exact ⟨rfl, rfl⟩
      by_cases closes : s.Closes i nread
      · rw [body_of_closes closes]
        refine .inl ⟨hungup_requests, ?_⟩
        intro j nread' answer serves
        obtain ⟨rfl, rfl⟩ := same answer serves
        obtain hup | ⟨_, eof⟩ := closes
        · exact hup serves.2.2.1
        · exact absurd serves.2.2.2.2 (by omega)
      · obtain ⟨passes, _, nothing⟩ | ⟨fails, _, failed⟩ | ⟨serves, quiet, readable, data⟩ := body_of_stays closes
        · rw [passes]
          refine .inl ⟨rfl, ?_⟩
          intro j nread' answer serves
          obtain ⟨rfl, rfl⟩ := same answer serves
          exact serves.2.2.2.1 nothing
        · rw [fails]
          refine .inl ⟨rfl, ?_⟩
          intro j nread' answer serves
          obtain ⟨rfl, rfl⟩ := same answer serves
          exact absurd serves.2.2.2.2 (by omega)
        · rw [serves]
          exact .inr ⟨i, nread, rfl, ⟨here, inside, quiet, readable, data⟩, rfl⟩
    · cases next

/-- **One step**: the `uid` of a request is right exactly if the two entries have the same. -/
theorem World.right_iff (sound : w.Sound listenfd) (step : World.Step listenfd w a w') : w.Right a ↔ w.SameUid a := by
  obtain ⟨server, next, _, rfl⟩ := step
  obtain ⟨same, none⟩ | ⟨i, nread, rfl, serves, requests⟩ := Server.next_requests next
  · apply iff_of_true
    · intro server' request next' added
      cases next.symm.trans next'
      rw [same] at added
      simp at added
    · exact fun i nread answer serves => absurd serves (none i nread answer)
  · obtain ⟨uid, mine⟩ := sound.exact.accepted (sound.counted.ahead _ serves.1).1 serves.2.1
    obtain ⟨k, inside, entry⟩ := sound.lists.placed _ uid mine
    constructor
    · intro right j nread' answer serves'
      cases answer
      cases serves.1.symm.trans serves'.1
      have given := right server _ next requests
      refine ⟨k, inside, by rw [entry], ?_⟩
      rw [mine] at given
      rw [entry]
      exact Option.some.inj given
    · intro uids server' request next' added
      cases next.symm.trans next'
      obtain ⟨rfl⟩ := List.cons.inj (List.append_cancel_left (requests.symm.trans added))
      obtain ⟨j, insideJ, sameJ, uidJ⟩ := uids i nread rfl serves
      have use := sound.exact.used serves.2.1
      have one : j = k := sound.lists.apart j k insideJ inside (sameJ ▸ use) (by rw [sameJ, entry])
      rw [one, entry] at uidJ
      rw [mine]
      exact congrArg some uidJ

theorem World.Placed.sameUid (placed : w.Placed a) : w.SameUid a := by
  intro i nread answer serves
  obtain ⟨inside, same⟩ := placed i nread answer serves
  exact ⟨i, inside, same, rfl⟩

/-! ## While only the last entry hangs up -/

/-- The entries in use are at the same places in both arrays. -/
structure Server.Aligned (s : Server) : Prop where
  used : ∀ i, i < s.numfd → (s.clients.client i).fd = (s.pfd_wrap.pfd i).fd
  size : s.numfd ≤ s.clients.client_size
  free : ∀ i, s.numfd ≤ i → i < s.clients.client_size → (s.clients.client i).fd = -1

theorem Server.Aligned.accept {s : Server} (aligned : s.Aligned) (fits : s.numfd ≤ s.pfd_wrap.maxfd)
    (inUse : ∀ i, i < s.numfd → (s.pfd_wrap.pfd i).fd ≠ -1) (clifd uid : Nat) : (s.accept clifd uid).Aligned := by
  obtain ⟨k, added⟩ := client_add_spec s.clients clifd uid
  obtain ⟨kept, new, _⟩ := accept_pfd fits inUse clifd uid
  -- the first free entry of the table is number `numfd` as well
  have place : k = s.numfd := by
    obtain before | rfl | past := Nat.lt_trichotomy k s.numfd
    · have free := added.free (Nat.lt_of_lt_of_le before aligned.size)
      rw [aligned.used k before] at free
      exact absurd free (inUse k before)
    · rfl
    · have free := aligned.free s.numfd (Nat.le_refl _) (Nat.lt_of_lt_of_le past added.next)
      exact absurd free (added.first _ past)
  subst place
  have clients : (s.accept clifd uid).clients = client_add s.clients clifd uid := rfl
  have count : (s.accept clifd uid).numfd = s.numfd + 1 := rfl
  refine ⟨?_, added.inside, ?_⟩
  · intro i less
    rw [count] at less
    obtain before | rfl := Nat.lt_succ_iff_lt_or_eq.mp less
    · rw [clients, added.kept i (Nat.lt_of_lt_of_le before aligned.size) (Nat.ne_of_lt before), kept i before]
      exact aligned.used i before
    · rw [clients, added.entry, new]
  · intro i past inside
    rw [count] at past
    rw [clients] at inside ⊢
    have other : i ≠ s.numfd := by omega
    obtain old | new := Nat.lt_or_ge i s.clients.client_size
    · rw [added.kept i old other]
      exact aligned.free i (by omega) old
    · exact added.fresh i new inside other

theorem Server.Aligned.hungup {s : Server} (aligned : s.Aligned) {i : Nat} (last : i + 1 = s.numfd)
    (apart : ∀ j, j < s.clients.client_size → (s.clients.client j).fd = (s.pfd_wrap.pfd i).fd → j = i) :
    (s.hungup i).Aligned := by
  have inside : i < s.numfd := by omega
  have size := aligned.size
  have clients : (s.hungup i).clients = s.clients.set i { s.clients.client i with fd := -1 } := by
    rw [hungup_clients]
    exact client_del_spec (by omega) (aligned.used i inside) apart
  have count : (s.hungup i).numfd = i := by
    rw [hungup_numfd]
    omega
  have array : (s.hungup i).pfd_wrap.pfd = s.pfd_wrap.pfd := by
    rw [hungup_pfd inside, show s.numfd - 1 = i by omega, update_eq_self]
  refine ⟨?_, ?_, ?_⟩
  · intro j less
    rw [count] at less
    rw [clients, array]
    have other : j ≠ i := Nat.ne_of_lt less
    simp only [ClientTable.set]
    rw [update_of_ne other]
    exact aligned.used j (by omega)
  · rw [count, clients]
    simp only [ClientTable.set]
    omega
  · intro j past insideJ
    rw [count] at past
    rw [clients] at insideJ ⊢
    simp only [ClientTable.set] at insideJ ⊢
    obtain rfl | other := eq_or_ne j i
    · rw [update_self]
    · rw [update_of_ne other]
      exact aligned.free j (by omega) insideJ

theorem World.step_aligned (sound : w.Sound listenfd) (aligned : w.server.Aligned)
    (step : World.Step listenfd w a w') (last : w.HangsUpLast a) : w'.server.Aligned := by
  cases step_cases step with
  | poll revents here done =>
    refine ⟨?_, aligned.size, aligned.free⟩
    intro i less
    have fd : ((w.server.poll revents).pfd_wrap.pfd i).fd = (w.server.pfd_wrap.pfd i).fd := by
      simp only [Server.poll]
      split_ifs <;> rfl
    exact (aligned.used i less).trans fd.symm
  | accept clifd uid here other fresh => exact aligned.accept sound.exact.maxfd (fun i => sound.exact.used) clifd uid
  | hungup nread here inside closes =>
    apply aligned.hungup (last _ _ rfl here inside closes)
    intro j insideJ same
    have mine := aligned.used _ inside
    apply sound.lists.apart j _ insideJ (Nat.lt_of_lt_of_le inside aligned.size)
    · rw [same]
      exact sound.exact.used inside
    · rw [same, mine]
  | stays nread here inside stays =>
    obtain ⟨array, count, clients, _⟩ := Server.body_stays stays
    refine ⟨?_, ?_, ?_⟩
    · dsimp only
      rw [array, count, clients]
      exact aligned.used
    · dsimp only
      rw [count, clients]
      exact aligned.size
    · dsimp only
      rw [count, clients]
      exact aligned.free

end Step

/-! ## Runs -/

section Runs
variable (listenfd : Nat) (memory : Nat → Pollfd) (heap : Nat → Client) (revents : BitVec 16)

theorem World.start_sound : (start listenfd memory heap revents).Sound listenfd := by
  refine ⟨start_exact .., start_counted .., ?_⟩
  obtain ⟨k, added⟩ := client_add_spec { client := heap, client_size := 0 } listenfd 0
  have new : ∀ {j}, j < (client_add { client := heap, client_size := 0 } listenfd 0).client_size →
      ((client_add { client := heap, client_size := 0 } listenfd 0).client j).fd ≠ -1 → j = k := by
    intro j inside use
    obtain same | ⟨old, _⟩ := added.used inside use
    · exact same
    · exact absurd old (Nat.not_lt_zero j)
  refine ⟨?_, ?_, ?_, rfl, rfl⟩
  · intro fd uid here
    cases here
  · intro j inside use
    rw [new inside use]
    exact .inl (congrArg Client.fd added.entry)
  · intro i j insideI insideJ use same
    rw [new insideI use, new insideJ (same ▸ use)]

theorem Server.start_aligned : (start listenfd memory heap revents).Aligned := by
  obtain ⟨k, added⟩ := client_add_spec { client := heap, client_size := 0 } listenfd 0
  obtain rfl : k = 0 := Nat.le_zero.mp added.next
  refine ⟨?_, added.inside, ?_⟩
  · intro i less
    obtain rfl : i = 0 := Nat.lt_one_iff.mp less
    exact congrArg Client.fd added.entry
  · intro i past inside
    exact added.fresh i (Nat.zero_le i) inside (by
      have one : 1 ≤ i := past
      omega)

/-- **Whose uid a request has**: as long as only last entries hang up, the entry of the table for
a request is at its place in the poll array; where it is at each request of a run, every request
is under the `uid` recorded for its connection; and in a run every request is exactly if at each
of them the entry of the table for it and the one at its place have the same `uid`. -/
theorem World.credentials_iff (answers : List Answer) :
    (StepsMeet (World.Step listenfd) HangsUpLast (start listenfd memory heap revents) answers →
      StepsMeet (World.Step listenfd) Placed (start listenfd memory heap revents) answers) ∧
    (StepsMeet (World.Step listenfd) Placed (start listenfd memory heap revents) answers →
      StepsMeet (World.Step listenfd) Right (start listenfd memory heap revents) answers) ∧
    (StepsMeet (World.Step listenfd) Right (start listenfd memory heap revents) answers ↔
      StepsMeet (World.Step listenfd) SameUid (start listenfd memory heap revents) answers) := by
  have begin := start_sound listenfd memory heap revents
  have next : ∀ w a w', World.Sound listenfd w → World.Step listenfd w a w' → World.Sound listenfd w' :=
    fun w a w' sound step => step_sound sound step
  refine ⟨?_, ?_, ?_, ?_⟩
  · apply stepsMeet_imp (J := fun w => w.Sound listenfd ∧ w.server.Aligned) ?_ ?_
      ⟨begin, Server.start_aligned listenfd memory heap revents⟩
    · intro w a w' ⟨sound, aligned⟩ step last
      exact ⟨step_sound sound step, step_aligned sound aligned step last⟩
    · intro w a w' ⟨_, aligned⟩ _ _ i nread _ serves
      exact ⟨Nat.lt_of_lt_of_le serves.2.1 aligned.size, aligned.used i serves.2.1⟩
  · apply stepsMeet_imp (J := World.Sound listenfd) ?_ ?_ begin
    · exact fun w a w' sound step _ => next w a w' sound step
    · exact fun w a w' sound step placed => (right_iff sound step).mpr placed.sameUid
  · apply stepsMeet_imp (J := World.Sound listenfd) ?_ ?_ begin
    · exact fun w a w' sound step _ => next w a w' sound step
    · exact fun w a w' sound step => (right_iff sound step).mp
  · apply stepsMeet_imp (J := World.Sound listenfd) ?_ ?_ begin
    · exact fun w a w' sound step _ => next w a w' sound step
    · exact fun w a w' sound step => (right_iff sound step).mpr

end Runs

/-- Two clients connect, with the uids 1000 and 1001; the first hangs up, and the request of
the second is served under the uid of the first. -/
theorem World.wrong_uid :
    let memory : Nat → Pollfd := fun _ => { fd := 0, events := 0, revents := 0 }
    let heap : Nat → Client := fun _ => { fd := 0, uid := 0 }
    ¬ StepsMeet (World.Step 3) Right (start 3 memory heap 0)
      [.poll fun i => if i = 0 then POLLIN else 0, .serv_accept 4 1000, .read 0,
       .poll fun i => if i = 0 then POLLIN else 0, .serv_accept 5 1001, .read 0, .read 0,
       .poll fun i => if i = 1 then POLLHUP else if i = 2 then POLLIN else 0, .read 0, .read 10] := by
  intro memory heap meet
  let connect : Nat → BitVec 16 := fun i => if i = 0 then POLLIN else 0
  let leave : Nat → BitVec 16 := fun i => if i = 1 then POLLHUP else if i = 2 then POLLIN else 0
  let w₀ := start 3 memory heap 0
  let w₁ := w₀.after (w₀.server.poll connect) (.poll connect)
  let w₂ := w₁.after (w₁.server.accept 4 1000) (.serv_accept 4 1000)
  let w₃ := w₂.after (w₂.server.body 1 0) (.read 0)
  let w₄ := w₃.after (w₃.server.poll connect) (.poll connect)
  let w₅ := w₄.after (w₄.server.accept 5 1001) (.serv_accept 5 1001)
  let w₆ := w₅.after (w₅.server.body 1 0) (.read 0)
  let w₇ := w₆.after (w₆.server.body 2 0) (.read 0)
  let w₈ := w₇.after (w₇.server.poll leave) (.poll leave)
  let w₉ := w₈.after (w₈.server.body 1 0) (.read 0)
  have first : Path (World.Step 3) w₀ [.poll connect, .serv_accept 4 1000, .read 0] w₃ :=
    .cons (step_poll rfl (Nat.le_refl 1) connect) <|
    .cons (step_accept (by decide) (by decide) rfl 1000) <|
    .cons (step_read rfl (by decide) 0) (.nil w₃)
  have second : Path (World.Step 3) w₃ [.poll connect, .serv_accept 5 1001, .read 0, .read 0] w₇ :=
    .cons (step_poll (i := 2) (by decide) (by decide) connect) <|
    .cons (step_accept (by decide) (by decide) (by decide) 1001) <|
    .cons (step_read rfl (by decide) 0) <|
    .cons (step_read (by decide) (by decide) 0) (.nil w₇)
  have third : Path (World.Step 3) w₇ [.poll leave, .read 0] w₉ :=
    .cons (step_poll (i := 3) (by decide) (by decide) leave) <|
    .cons (step_read (by decide) (by decide) 0) (.nil w₉)
  have here : w₉.server.pc = .body 1 := by decide
  have inside : 1 < w₉.server.numfd := by decide
  have right := meet.after_path ((first.append second).append third) (step_read here inside 10)
  have given := right (w₉.server.body 1 10) (5, 1000) (by simp only [Server.next, here, if_pos inside]) (by decide)
  exact absurd given (by decide)

end CodeClips.FdServer
