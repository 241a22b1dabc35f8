import CodeClips.FdServer.Loop2

/-!
# The entries of the poll array

In every state of `loop2` the entries from 1 up to `numfd` are the connected clients
(`World.Exact`), and the requests, hang-ups and failed reads of a pass together with the
clients that are ahead of `i` are the ones that `poll` has reported (`World.Counted`): the
entry moved into the place of a client that has hung up is still ahead, since the loop goes on
with that place.
-/

namespace CodeClips.FdServer

open Function

/-- The entries are the connected clients, each once. -/
structure World.Exact (w : World) : Prop where
  numfd : 1 ≤ w.server.numfd
  maxfd : w.server.numfd ≤ w.server.pfd_wrap.maxfd
  listening : (w.server.pfd_wrap.pfd 0).fd ≠ -1
  nodup : (w.server.entries 1).Nodup
  connected : ∀ fd, fd ∈ w.server.entries 1 ↔ w.accepted fd ≠ none
  inUse : w.accepted (-1) = none

/-- What has been handled in this pass and what is left of it is what was reported. -/
structure World.Counted (w : World) : Prop where
  once : w.reported.Nodup
  since : w.before ≤ w.server.served
  ahead : ∀ i, w.server.pc = .body i → 1 ≤ i ∧ w.server.served + w.server.ready i = w.before + w.reported
  accepting : w.server.pc = .accept → w.server.served = w.before ∧ w.server.ready 1 = w.reported

/-! ## `pollfd_add` -/

/-- The entries in use stay where they are, and the new one comes after them. -/
theorem Server.accept_pfd {s : Server} (fits : s.numfd ≤ s.pfd_wrap.maxfd)
    (used : ∀ i, i < s.numfd → (s.pfd_wrap.pfd i).fd ≠ -1) (clifd uid : Nat) :
    (∀ i, i < s.numfd → (s.accept clifd uid).pfd_wrap.pfd i = s.pfd_wrap.pfd i) ∧
      (s.accept clifd uid).pfd_wrap.pfd s.numfd = { fd := clifd, events := POLLIN, revents := 0 } ∧
      s.numfd + 1 ≤ (s.accept clifd uid).pfd_wrap.maxfd := by
  refine ⟨?_, update_self .., ?_⟩
  · intro i less
    have apart : i ≠ s.numfd := Nat.ne_of_lt less
    simp only [accept, update_of_ne apart]
    split_ifs with full
    · simp only [pollfd_alloc]
      rw [if_neg (by omega)]
    · unfold pollfd_add
      split
      · next k found =>
        have free : (s.pfd_wrap.pfd k).fd = -1 := by simpa using List.find?_some found
        have other : i ≠ k := by
          intro same
          exact used i less (same ▸ free)
        exact update_of_ne other ..
      · rfl
  · simp only [accept]
    split_ifs with full
    · simp only [pollfd_alloc, NALLOC]
      omega
    · have size : ∀ newpfd, (pollfd_add s.pfd_wrap newpfd).maxfd = s.pfd_wrap.maxfd := by
        intro newpfd
        unfold pollfd_add
        split <;> rfl
      rw [size]
      omega

/-! ## One step -/

section Step
variable {listenfd : Nat} {w w' : World} {revents : Nat → BitVec 16}

theorem World.Exact.used (exact : w.Exact) {i : Nat} (less : i < w.server.numfd) :
    (w.server.pfd_wrap.pfd i).fd ≠ -1 := by
  obtain rfl | below := Nat.eq_zero_or_pos i
  · exact exact.listening
  · intro free
    have mem : (-1 : Int) ∈ w.server.entries 1 := by
      rw [← free]
      exact Multiset.mem_map_of_mem _ (mem_window.mpr ⟨i, below, less, rfl⟩)
    exact (exact.connected (-1)).mp mem exact.inUse

/-- `poll` writes no descriptor. -/
theorem Server.poll_entries (s : Server) (revents : Nat → BitVec 16) (a : Nat) :
    (s.poll revents).entries a = s.entries a := by
  unfold entries
  rw [map_window, map_window]
  apply window_congr
  intro i _ _
  simp only [poll, comp_apply]
  split_ifs <;> rfl

theorem Server.poll_body {s : Server} {i : Nat} (next : (s.poll revents).pc = .body i) : i = 1 := by
  have either : (s.poll revents).pc = .accept ∨ (s.poll revents).pc = .body 1 := ite_eq_or_eq ..
  obtain accepts | first := either
  · cases next.symm.trans accepts
  · cases next.symm.trans first
    rfl

theorem World.Exact.poll (exact : w.Exact) (revents : Nat → BitVec 16) (reported before : Multiset Int) :
    World.Exact { w with server := w.server.poll revents, reported := reported, before := before } where
  numfd := exact.numfd
  maxfd := exact.maxfd
  listening := by
    have entry := exact.listening
    simp only [Server.poll]
    split_ifs
    · exact entry
    · exact entry
  nodup := by
    rw [Server.poll_entries]
    exact exact.nodup
  connected fd := by
    rw [Server.poll_entries]
    exact exact.connected fd
  inUse := exact.inUse

/-- The entries after a new connection. -/
theorem World.Exact.accept_entries (exact : w.Exact) (clifd uid : Nat) :
    (w.server.accept clifd uid).entries 1 = (clifd : Int) ::ₘ w.server.entries 1 := by
  obtain ⟨kept, new, _⟩ := Server.accept_pfd exact.maxfd (fun i => exact.used) clifd uid
  have count : (w.server.accept clifd uid).numfd = w.server.numfd + 1 := rfl
  unfold Server.entries
  rw [count, window_last _ exact.numfd, new, Multiset.map_cons, window_congr fun i _ => kept i]

theorem World.Exact.accept (exact : w.Exact) {clifd : Nat} (uid : Nat) (fresh : w.accepted clifd = none) :
    World.Exact { w with server := w.server.accept clifd uid, accepted := update w.accepted clifd (some uid) } where
  numfd := Nat.le_add_left 1 _
  maxfd := (Server.accept_pfd exact.maxfd (fun i => exact.used) clifd uid).2.2
  listening := by
    rw [(Server.accept_pfd exact.maxfd (fun i => exact.used) clifd uid).1 0 exact.numfd]
    exact exact.listening
  nodup := by
    rw [exact.accept_entries, Multiset.nodup_cons]
    refine ⟨?_, exact.nodup⟩
    rw [exact.connected]
    exact fun accepted => accepted fresh
  connected fd := by
    rw [exact.accept_entries, Multiset.mem_cons, exact.connected]
    obtain rfl | apart := eq_or_ne fd clifd
    · simp
    · simp [apart]
  inUse := by
    dsimp only
    rw [update_of_ne (by omega)]
    exact exact.inUse

/-- The place vacated is filled by the last entry. -/
theorem Server.hungup_window {s : Server} {i a : Nat} (le : a ≤ i) (inside : i < s.numfd) :
    window s.pfd_wrap.pfd a s.numfd =
      s.pfd_wrap.pfd i ::ₘ window (s.hungup i).pfd_wrap.pfd a (s.hungup i).numfd := by
  obtain ⟨n, count⟩ : ∃ n, s.numfd = n + 1 := ⟨s.numfd - 1, by omega⟩
  rw [hungup_pfd inside, hungup_numfd, count]
  exact window_swapRemove _ le (by omega)

theorem World.Exact.hungup (exact : w.Exact) {i : Nat} (first : 1 ≤ i) (inside : i < w.server.numfd) :
    World.Exact { w with
      server := w.server.hungup i
      accepted := update w.accepted (w.server.pfd_wrap.pfd i).fd none } := by
  have entries : w.server.entries 1 = (w.server.pfd_wrap.pfd i).fd ::ₘ (w.server.hungup i).entries 1 := by
    unfold Server.entries
    rw [Server.hungup_window first inside, Multiset.map_cons]
  have apart := exact.nodup
  rw [entries, Multiset.nodup_cons] at apart
  have members := exact.connected
  rw [entries] at members
  refine ⟨?_, ?_, ?_, apart.2, ?_, ?_⟩
  · rw [Server.hungup_numfd]
    omega
  · rw [Server.hungup_numfd, Server.hungup_maxfd]
    exact Nat.le_trans (Nat.sub_le ..) exact.maxfd
  · rw [Server.hungup_pfd inside, update_of_ne (by omega)]
    exact exact.listening
  · intro fd
    dsimp only
    obtain rfl | other := eq_or_ne fd (w.server.pfd_wrap.pfd i).fd
    · simpa using apart.1
    · rw [update_of_ne other, ← members fd, Multiset.mem_cons]
      simp [other]
  · dsimp only
    obtain same | other := eq_or_ne (-1) (w.server.pfd_wrap.pfd i).fd
    · rw [same, update_self]
    · rw [update_of_ne other]
      exact exact.inUse

/-- A step that leaves the poll array as it is. -/
theorem World.Exact.stay (exact : w.Exact) {server : Server} (same : server.pfd_wrap = w.server.pfd_wrap)
    (count : server.numfd = w.server.numfd) : World.Exact { w with server := server } := by
  have entries : server.entries 1 = w.server.entries 1 := by
    unfold Server.entries
    rw [same, count]
  refine ⟨?_, ?_, ?_, ?_, ?_, exact.inUse⟩
  · rw [count]
    exact exact.numfd
  · rw [count, same]
    exact exact.maxfd
  · rw [same]
    exact exact.listening
  · rw [entries]
    exact exact.nodup
  · rw [entries]
    exact exact.connected

/-- **One step** keeps the entries exact. -/
theorem World.step_exact {a : Answer} (exact : w.Exact) (counted : w.Counted) (step : World.Step listenfd w a w') :
    w'.Exact := by
  cases step_cases step with
  | poll revents here done => exact exact.poll ..
  | accept clifd uid here other fresh => exact exact.accept uid fresh
  | hungup nread here inside closes => exact exact.hungup (counted.ahead _ here).1 inside
  | stays nread here inside stays => exact exact.stay (Server.body_stays stays).1 (Server.body_stays stays).2.1

theorem Server.le_body_served {s : Server} {i : Nat} (nread : Int) : s.served ≤ (s.body i nread).served := by
  rw [body_served]
  split_ifs
  · exact Multiset.le_cons_self _ _
  · exact le_refl _

/-- Handling the entry `i` takes it from those that are ahead. -/
theorem Server.body_served_ready {s : Server} {i next : Nat} (nread : Int)
    (moves : window s.pfd_wrap.pfd i s.numfd =
      s.pfd_wrap.pfd i ::ₘ window (s.body i nread).pfd_wrap.pfd next (s.body i nread).numfd) :
    (s.body i nread).served + (s.body i nread).ready next = s.served + s.ready i := by
  rw [body_served]
  unfold ready
  rw [moves]
  split_ifs with ready
  · rw [Multiset.filter_cons_of_pos (p := fun x : Pollfd => x.ready = true) _ ready, Multiset.map_cons, Multiset.add_cons, Multiset.cons_add]
  · rw [Multiset.filter_cons_of_neg (p := fun x : Pollfd => x.ready = true) _ ready]

/-- The entries reported by `poll` are among the connected clients. -/
theorem World.Exact.ready_nodup (exact : w.Exact) : (w.server.ready 1).Nodup := by
  have sub : w.server.ready 1 ≤ w.server.entries 1 :=
    Multiset.map_le_map (Multiset.filter_le _ _)
  exact Multiset.nodup_of_le sub exact.nodup

/-- Nothing is reported of a client just accepted. -/
theorem World.Exact.accept_ready (exact : w.Exact) (clifd uid : Nat) :
    (w.server.accept clifd uid).ready 1 = w.server.ready 1 := by
  obtain ⟨kept, new, _⟩ := Server.accept_pfd exact.maxfd (fun i => exact.used) clifd uid
  have count : (w.server.accept clifd uid).numfd = w.server.numfd + 1 := rfl
  have quiet : ¬ Pollfd.ready { fd := clifd, events := POLLIN, revents := 0 } = true := by
    simp [Pollfd.ready]
  unfold Server.ready
  rw [count, window_last _ exact.numfd, new, Multiset.filter_cons_of_neg (p := fun x : Pollfd => x.ready = true) _ quiet,
    window_congr fun i _ => kept i]

/-- **One step**: who has been handled is no longer ahead. -/
theorem World.step_counted {a : Answer} (exact : w.Exact) (counted : w.Counted)
    (step : World.Step listenfd w a w') : w'.Counted := by
  cases step_cases step with
  | poll revents here done =>
    refine ⟨(exact.poll revents 0 0).ready_nodup, le_refl _, ?_, fun _ => ⟨rfl, rfl⟩⟩
    intro i next
    cases Server.poll_body next
    exact ⟨Nat.le_refl 1, rfl⟩
  | accept clifd uid here other fresh =>
    refine ⟨counted.once, counted.since, ?_, ?_⟩
    · intro i next
      cases next
      obtain ⟨none, ahead⟩ := counted.accepting here
      have unserved : (w.server.accept clifd uid).served = w.server.served := rfl
      dsimp only
      rw [unserved, none, exact.accept_ready, ahead]
      exact ⟨Nat.le_refl 1, rfl⟩
    · intro next
      cases next
  | hungup nread here inside closes =>
    obtain ⟨first, ahead⟩ := counted.ahead _ here
    have moves := Server.hungup_window (Nat.le_refl _) inside
    rw [← Server.body_of_closes closes] at moves ⊢
    refine ⟨counted.once, counted.since.trans (Server.le_body_served nread), ?_, ?_⟩
    · intro i next
      rw [Server.body_of_closes closes] at next
      obtain same | ⟨later, last⟩ := Server.hungup_pc inside
      · cases next.symm.trans same
        exact ⟨first, (Server.body_served_ready nread moves).trans ahead⟩
      · cases next.symm.trans later
        refine ⟨Nat.le_add_left 1 _, ?_⟩
        rw [← ahead]
        apply Server.body_served_ready
        -- the entry was the last one: nothing is ahead of it or of the next place
        rw [moves, Server.body_of_closes closes, Server.hungup_numfd, window_empty _ (by omega),
          window_empty _ (by omega)]
    · intro next
      rw [Server.body_of_closes closes] at next
      obtain same | ⟨later, _⟩ := Server.hungup_pc inside
      · cases next.symm.trans same
      · cases next.symm.trans later
  | stays nread here inside stays =>
    obtain ⟨first, ahead⟩ := counted.ahead _ here
    obtain ⟨same, count, _, pc⟩ := Server.body_stays stays
    refine ⟨counted.once, counted.since.trans (Server.le_body_served nread), ?_, ?_⟩
    · intro i next
      cases next.symm.trans pc
      refine ⟨Nat.le_add_left 1 _, ?_⟩
      rw [← ahead]
      apply Server.body_served_ready
      rw [same, count]
      exact window_head _ inside
    · intro next
      cases next.symm.trans pc

/-- The clients handled in the pass are those reported that are no longer ahead. -/
theorem World.Counted.handled_add {w : World} (counted : w.Counted) :
    w.server.served = w.before + w.handled ∧
      ∃ ahead, w.handled + ahead = w.reported ∧ (w.PassOver → ahead = 0) := by
  have split : w.server.served = w.before + w.handled := by
    rw [World.handled, Multiset.add_comm, Multiset.sub_add_cancel counted.since]
  refine ⟨split, ?_⟩
  cases here : w.server.pc with
  | accept =>
    obtain ⟨none, ahead⟩ := counted.accepting here
    refine ⟨w.reported, ?_, ?_⟩
    · have empty : w.handled = 0 := by
        rw [World.handled, none]
        exact (Multiset.eq_sub_of_add_eq (Multiset.zero_add _)).symm
      rw [empty, Multiset.zero_add]
    · intro ⟨i, body, _⟩
      cases here.symm.trans body
  | body i =>
    refine ⟨w.server.ready i, ?_, ?_⟩
    · have all := (counted.ahead i here).2
      rw [split, Multiset.add_assoc] at all
      exact Multiset.add_right_inj.mp all
    · intro ⟨j, body, done⟩
      cases here.symm.trans body
      unfold Server.ready
      rw [window_empty _ done]
      rfl

/-- A pass comes to its end: each turn of the loop has less ahead of it. -/
def Server.left (s : Server) : Nat :=
  match s.pc with
  | .accept => s.numfd
  | .body i => s.numfd - i

theorem World.step_left {nread : Int} (step : World.Step listenfd w (.read nread) w') :
    w'.server.left < w.server.left := by
  cases step_cases step with
  | hungup _ here inside closes =>
    unfold Server.left
    obtain same | ⟨later, _⟩ := Server.hungup_pc inside
    · rw [here, same, Server.hungup_numfd]
      dsimp only
      omega
    · rw [here, later, Server.hungup_numfd]
      dsimp only
      omega
  | stays _ here inside stays =>
    obtain ⟨_, count, _, pc⟩ := Server.body_stays stays
    unfold Server.left
    rw [here, pc, count]
    dsimp only
    omega

end Step

/-! ## Runs -/

section Runs
variable (listenfd : Nat) (memory : Nat → Pollfd) (heap : Nat → Client) (revents : BitVec 16)

theorem World.start_exact : (start listenfd memory heap revents).Exact := by
  have entries : (start listenfd memory heap revents).server.entries 1 = 0 :=
    congrArg (Multiset.map Pollfd.fd) (window_empty _ (Nat.le_refl 1))
  refine ⟨Nat.le_refl 1, ?_, ?_, ?_, ?_, rfl⟩
  · show 1 ≤ NALLOC
    decide
  · simp only [start, Server.start, update_self]
    omega
  · rw [entries]
    exact Multiset.nodup_zero
  · rw [entries]
    simp [start]

theorem World.start_counted : (start listenfd memory heap revents).Counted := by
  refine ⟨Multiset.nodup_zero, le_refl _, ?_, ?_⟩
  · intro i here
    cases here
    have none : (start listenfd memory heap revents).server.ready 1 = 0 :=
      congrArg (fun x => (x.filter (Pollfd.ready ·)).map Pollfd.fd) (window_empty _ (Nat.le_refl 1))
    rw [none]
    exact ⟨Nat.le_refl 1, rfl⟩
  · intro here
    cases here

/-- **The poll array**: between two passes the entries are the connected clients, each once;
what has been read for a request, closed or found unreadable in the pass is among the clients
that `poll` has reported, and at its end it is each of them once; the array is never too small,
and a pass goes on to its end. -/
theorem World.poll_array (w : World)
    (reached : Reachable (World.Step listenfd) (start listenfd memory heap revents) w) :
    (w.server.entries 1).Nodup ∧
    (∀ fd, fd ∈ w.server.entries 1 ↔ w.accepted fd ≠ none) ∧
    (1 ≤ w.server.numfd ∧ w.server.numfd ≤ w.server.pfd_wrap.maxfd) ∧
    w.server.served = w.before + w.handled ∧
    w.reported.Nodup ∧ w.handled ≤ w.reported ∧ (w.PassOver → w.handled = w.reported) ∧
    ∀ nread w', World.Step listenfd w (.read nread) w' → w'.server.left < w.server.left := by
  have both : w.Exact ∧ w.Counted := by
    induction reached with
    | start => exact ⟨start_exact .., start_counted ..⟩
    | step _ next ih => exact ⟨step_exact ih.1 ih.2 next, step_counted ih.1 ih.2 next⟩
  obtain ⟨exact, counted⟩ := both
  obtain ⟨split, ahead, sum, complete⟩ := counted.handled_add
  refine ⟨exact.nodup, exact.connected, ⟨exact.numfd, exact.maxfd⟩, split, counted.once, ?_, ?_, ?_⟩
  · rw [← sum]
    exact Multiset.le_add_right ..
  · intro passOver
    rw [← sum, complete passOver, Multiset.add_zero]
  · exact fun nread w' step => step_left step

end Runs

/-- Two clients connect; in the next pass the first hangs up and the second has a request. -/
theorem World.poll_array_two :
    ∃ w : World, w.PassOver ∧ w.reported = {4, 5} ∧ w.handled = w.reported ∧ w.server.closed = [4] ∧
      w.server.requests.map Prod.fst = [5] ∧ w.server.unread = [] ∧
      ∀ fd, fd ∈ w.server.entries 1 ↔ w.accepted fd ≠ none := by
  let memory : Nat → Pollfd := fun _ => { fd := 0, events := 0, revents := 0 }
  let heap : Nat → Client := fun _ => { fd := 0, uid := 0 }
  let connect : Nat → BitVec 16 := fun i => if i = 0 then POLLIN else 0
  let leave : Nat → BitVec 16 := fun i => if i = 1 then POLLHUP else if i = 2 then POLLIN else 0
  let w₀ := start 3 memory heap 0
  let w₁ := w₀.after (w₀.server.poll connect) (.poll connect)
  let w₂ := w₁.after (w₁.server.accept 4 1000) (.serv_accept 4 1000)
  let w₃ := w₂.after (w₂.server.body 1 0) (.read 0)
  let w₄ := w₃.after (w₃.server.poll connect) (.poll connect)
  let w₅ := w₄.after (w₄.server.accept 5 1001) (.serv_accept 5 1001)
  let w₆ := w₅.after (w₅.server.body 1 0) (.read 0)
  let w₇ := w₆.after (w₆.server.body 2 0) (.read 0)
  let w₈ := w₇.after (w₇.server.poll leave) (.poll leave)
  let w₉ := w₈.after (w₈.server.body 1 0) (.read 0)
  let w₁₀ := w₉.after (w₉.server.body 1 10) (.read 10)
  have reached₃ : Reachable (World.Step 3) w₀ w₃ :=
    ((Reachable.start.step (step_poll rfl (Nat.le_refl 1) connect)).step
      (step_accept (by decide) (by decide) rfl 1000)).step (step_read rfl (by decide) 0)
  have reached₇ : Reachable (World.Step 3) w₀ w₇ :=
    (((reached₃.step (step_poll (i := 2) (by decide) (by decide) connect)).step
      (step_accept (by decide) (by decide) (by decide) 1001)).step (step_read rfl (by decide) 0)).step
      (step_read (by decide) (by decide) 0)
  have reached₁₀ : Reachable (World.Step 3) w₀ w₁₀ :=
    ((reached₇.step (step_poll (i := 3) (by decide) (by decide) leave)).step
      (step_read (by decide) (by decide) 0)).step (step_read (by decide) (by decide) 10)
  obtain ⟨_, connected, _, _, _, _, all, _⟩ := poll_array 3 memory heap 0 w₁₀ reached₁₀
  have done : w₁₀.PassOver := ⟨2, by decide, by decide⟩
  exact ⟨w₁₀, done, by decide, all done, by decide, by decide, by decide, connected⟩

end CodeClips.FdServer
