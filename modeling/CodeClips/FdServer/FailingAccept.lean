import CodeClips.FdServer.Credentials
import CodeClips.FdServer.SelectLoop
import Mathlib.Data.Finset.Card

/-!
# A failing accept takes an entry

`loop` stores what `serv_accept` returns, and none of its error codes is the `-1` that marks a
free entry. `failing_accept_iff`: a run keeps its state at every failing accept only if none
fails, and each error code stays in the table to the end of the run.
-/

namespace CodeClips.FdServer

/-! ## The code that is stored -/

/-- The codes below zero, and `EXIT_FAILURE`. -/
def Peer.Fails (peer : Peer) : Prop := peer.malloc = false ∨ (serv_accept peer 0).1 < 0

theorem serv_accept_uid (peer : Peer) (uid uid' : Nat) : (serv_accept peer uid).1 = (serv_accept peer uid').1 := by
  simp only [serv_accept]
  cases peer.stat with
  | none => split_ifs <;> rfl
  | some statbuf =>
    dsimp only
    split_ifs <;> rfl

/-- What is stored is no mark of a free entry. -/
theorem serv_accept_ne (peer : Peer) (uid : Nat) : (serv_accept peer uid).1 ≠ -1 := by
  simp only [serv_accept, EXIT_FAILURE]
  cases peer.stat with
  | none => split_ifs <;> simp
  | some statbuf =>
    dsimp only
    split_ifs
    -- the last is the descriptor, which is at least zero
    all_goals
      dsimp only
      omega

/-! ## Entries with an error code -/

/-- The entries with an error code below zero. -/
def ClientTable.lost (t : ClientTable) : Finset Nat := {i ∈ Finset.range t.client_size | (t.client i).fd < -1}

@[simp] theorem ClientTable.mem_lost {t : ClientTable} {i : Nat} :
    i ∈ t.lost ↔ i < t.client_size ∧ (t.client i).fd < -1 := by
  simp [lost]

section Added
variable {t t' : ClientTable} {k : Nat} {c : Client}

theorem ClientTable.Added.index (added : t.Added t' k c) : k = client_add_index t := by
  unfold client_add_index
  cases found : t.find (-1) with
  | none =>
    have past : ¬ k < t.client_size := fun inside => ClientTable.find_none found inside (added.free inside)
    exact Nat.le_antisymm added.next (Nat.not_lt.mp past)
  | some i =>
    obtain ⟨inside, free, first⟩ := ClientTable.find_some found
    obtain less | same | more := Nat.lt_trichotomy k i
    · exact absurd (added.free (less.trans inside)) (first k less)
    · exact same
    · exact absurd free (added.first i more)

theorem ClientTable.Added.not_mem_lost (added : t.Added t' k c) : k ∉ t.lost := by
  rw [mem_lost]
  rintro ⟨inside, code⟩
  rw [added.free inside] at code
  exact absurd code (lt_irrefl _)

/-- No other entry changes. -/
theorem ClientTable.Added.mem_lost_iff (added : t.Added t' k c) (j : Nat) :
    j ∈ t'.lost ↔ j = k ∧ c.fd < -1 ∨ j ∈ t.lost := by
  simp only [mem_lost]
  constructor
  · rintro ⟨inside, code⟩
    obtain rfl | ⟨old, same⟩ := added.used inside code.ne
    · rw [added.entry] at code
      exact .inl ⟨rfl, code⟩
    · rw [same] at code
      exact .inr ⟨old, code⟩
  · rintro (⟨rfl, code⟩ | ⟨inside, code⟩)
    · rw [added.entry]
      exact ⟨added.inside, code⟩
    · obtain ⟨inside', same⟩ := added.old inside code.ne
      rw [same]
      exact ⟨inside', code⟩

end Added

theorem lost_client_add (t : ClientTable) (fd : Int) (uid : Nat) :
    (client_add t fd uid).lost.card = t.lost.card + if fd < -1 then 1 else 0 := by
  obtain ⟨k, added⟩ := client_add_spec t fd uid
  split
  · next code =>
    rw [← Finset.card_insert_of_notMem added.not_mem_lost]
    congr 1
    ext j
    rw [added.mem_lost_iff, Finset.mem_insert, and_iff_left code]
  · next ok =>
    rw [Nat.add_zero]
    congr 1
    ext j
    rw [added.mem_lost_iff]
    exact or_iff_right fun both => ok both.2

theorem client_size_client_del (t : ClientTable) (fd : Int) : (client_del t fd).client_size = t.client_size := by
  unfold client_del
  split <;> rfl

/-- `client_del` is only called for a descriptor. -/
theorem lost_client_del (t : ClientTable) {fd : Int} (valid : 0 ≤ fd) : (client_del t fd).lost = t.lost := by
  unfold client_del
  cases found : t.find fd with
  | none => rfl
  | some k =>
    obtain ⟨_, here, _⟩ := ClientTable.find_some found
    ext j
    obtain rfl | other := eq_or_ne j k
    · simp [ClientTable.set]
      omega
    · simp [ClientTable.set, other]

/-! ## One pass -/

/-- The pass takes the branch for `listenfd`, and `serv_accept` fails. -/
def Pass.Fails (a : Pass) (listenfd : Int) : Prop := a.rset listenfd ∧ a.peer.Fails

/-- It fails with a code below zero. -/
def Pass.Loses (a : Pass) (listenfd : Int) : Prop := a.rset listenfd ∧ (serv_accept a.peer 0).1 < 0

instance (a : Pass) (listenfd : Int) : Decidable (a.Loses listenfd) := inferInstanceAs (Decidable (_ ∧ _))

namespace SelectServer

variable {wild : Int → Bool → FdSet → FdSet} {s s' s'' : SelectServer}

/-- What serving the clients leaves as it was. -/
structure Served (s s' : SelectServer) : Prop where
  listenfd : s'.listenfd = s.listenfd
  maxi : s'.maxi = s.maxi
  client_size : s'.clients.client_size = s.clients.client_size
  lost : s'.clients.lost = s.clients.lost

theorem Served.refl (s : SelectServer) : s.Served s := ⟨rfl, rfl, rfl, rfl⟩

theorem Served.trans (first : s.Served s') (second : s'.Served s'') : s.Served s'' where
  listenfd := second.listenfd.trans first.listenfd
  maxi := second.maxi.trans first.maxi
  client_size := second.client_size.trans first.client_size
  lost := second.lost.trans first.lost

theorem body_served (s : SelectServer) (rset : FdSet) (i : Nat) (nread : Int) :
    s.Served (s.body wild rset i nread) := by
  unfold body
  dsimp only
  split_ifs with code ready failed eof
  · exact .refl s
  · exact .refl s
  · exact ⟨rfl, rfl, client_size_client_del .., lost_client_del _ (not_lt.mp code)⟩
  · exact ⟨rfl, rfl, rfl, rfl⟩
  · exact .refl s

theorem serve_served (s : SelectServer) (rset : FdSet) (nread : Nat → Int) : s.Served (s.serve wild rset nread) := by
  unfold serve
  generalize List.range (s.maxi + 1).toNat = entries
  induction entries generalizing s with
  | nil => exact .refl s
  | cons i rest ih => exact (body_served s rset i (nread i)).trans (ih _)

/-- The entries that `loop` reads are in the table. -/
structure Inside (listenfd : Int) (s : SelectServer) : Prop where
  listenfd : s.listenfd = listenfd
  maxi : s.maxi < s.clients.client_size

theorem start_inside (listenfd : Int) (heap : Nat → Client) (uid : Nat) :
    (start wild listenfd heap uid).Inside listenfd :=
  ⟨rfl, by simp [start]⟩

theorem accept_inside {listenfd : Int} (inside : s.Inside listenfd) (peer : Peer) :
    (s.accept wild peer).Inside listenfd := by
  refine ⟨inside.listenfd, ?_⟩
  obtain ⟨k, added⟩ := client_add_spec s.clients (serv_accept peer s.uid).1 (serv_accept peer s.uid).2
  have old := inside.maxi
  have new := added.inside
  have grows := added.grows
  rw [added.index] at new
  simp only [accept]
  split <;> omega

theorem pass_inside {listenfd : Int} (inside : s.Inside listenfd) (a : Pass) : (s.pass wild a).Inside listenfd := by
  unfold pass
  split
  · exact accept_inside inside a.peer
  · have served : s.Served (s.serve wild a.rset a.nread) := serve_served s a.rset a.nread
    refine ⟨served.listenfd.trans inside.listenfd, ?_⟩
    rw [served.maxi, served.client_size]
    exact inside.maxi

/-- A pass that loses an entry adds one to those that are lost, and no pass gives one back. -/
theorem lost_pass {listenfd : Int} (inside : s.Inside listenfd) (a : Pass) :
    (s.pass wild a).clients.lost.card = s.clients.lost.card + if a.Loses listenfd then 1 else 0 := by
  unfold pass
  rw [inside.listenfd]
  split
  · next ready =>
    have code := serv_accept_ne a.peer s.uid
    have same := serv_accept_uid a.peer s.uid 0
    simp only [accept, lost_client_add, Pass.Loses, ready, true_and]
    congr 1
    apply if_congr ?_ rfl rfl
    omega
  · next quiet =>
    rw [if_neg fun loses => quiet loses.1, (serve_served s a.rset a.nread).lost, Nat.add_zero]

/-- `client`, `allset`, `maxfd` and `maxi` are the same. -/
structure Unchanged (s s' : SelectServer) : Prop where
  client_size : s'.clients.client_size = s.clients.client_size
  client : ∀ i, i < s.clients.client_size → s'.clients.client i = s.clients.client i
  allset : s'.allset = s.allset
  maxfd : s'.maxfd = s.maxfd
  maxi : s'.maxi = s.maxi

/-- An accept changes an entry that was free, or there are more. -/
theorem not_unchanged_accept (s : SelectServer) (peer : Peer) : ¬ s.Unchanged (s.accept wild peer) := by
  intro same
  obtain ⟨k, added⟩ := client_add_spec s.clients (serv_accept peer s.uid).1 (serv_accept peer s.uid).2
  have old : k < s.clients.client_size := same.client_size ▸ added.inside
  have entry : (serv_accept peer s.uid).1 = (s.clients.client k).fd :=
    (congrArg Client.fd added.entry).symm.trans (congrArg Client.fd (same.client k old))
  exact serv_accept_ne peer s.uid (entry.trans (added.free old))

/-- A failing accept of the pass leaves the state unchanged. -/
def Keeps (wild : Int → Bool → FdSet → FdSet) (s : SelectServer) (a : Pass) : Prop :=
  a.Fails s.listenfd → s.Unchanged (s.pass wild a)

theorem keeps_iff (s : SelectServer) (a : Pass) : s.Keeps wild a ↔ ¬ a.Fails s.listenfd := by
  refine ⟨?_, fun ok fails => absurd fails ok⟩
  intro keeps fails
  have same := keeps fails
  rw [pass, if_pos fails.1] at same
  exact not_unchanged_accept s a.peer same

/-! ## Runs -/

theorem lost_path {listenfd : Int} {passes : List Pass} (path : Path (Step wild) s passes s')
    (inside : s.Inside listenfd) :
    s'.clients.lost.card = s.clients.lost.card + passes.countP (Pass.Loses · listenfd) := by
  induction path with
  | nil => rfl
  | @cons s s₁ s' a rest next _ ih =>
    obtain ⟨_, rfl⟩ := next
    rw [ih (pass_inside inside a), lost_pass inside a, List.countP_cons]
    simp only [decide_eq_true_eq]
    omega

/-- **Failing accepts**: the failing accepts of a run all leave the state unchanged exactly if
the run has none; at its end there is an entry with an error code for each accept that returned
one below zero. -/
theorem failing_accept_iff (wild : Int → Bool → FdSet → FdSet) (listenfd : Int) (heap : Nat → Client) (uid : Nat)
    (passes : List Pass) :
    (StepsMeet (Step wild) (Keeps wild) (start wild listenfd heap uid) passes ↔
      StepsMeet (Step wild) (fun s a => ¬ a.Fails s.listenfd) (start wild listenfd heap uid) passes) ∧
    ∀ s, Path (Step wild) (start wild listenfd heap uid) passes s →
      s.clients.lost.card = passes.countP (Pass.Loses · listenfd) := by
  refine ⟨⟨?_, ?_⟩, ?_⟩
  · apply stepsMeet_imp (J := fun _ => True) (fun _ _ _ _ _ _ => trivial) ?_ trivial
    exact fun s a _ _ _ keeps => (keeps_iff s a).mp keeps
  · apply stepsMeet_imp (J := fun _ => True) (fun _ _ _ _ _ _ => trivial) ?_ trivial
    exact fun s a _ _ _ ok => (keeps_iff s a).mpr ok
  · intro s path
    rw [lost_path path (start_inside listenfd heap uid)]
    exact Nat.zero_add _

/-- The first `accept` fails, and an entry has the code -2. -/
theorem failing_accept_takes_entry :
    let wild : Int → Bool → FdSet → FdSet := fun _ _ set => set
    let heap : Nat → Client := fun _ => { fd := 0, uid := 0 }
    let peer : Peer := { malloc := true, accept := -1, stat := none, time := 0 }
    ¬ StepsMeet (Step wild) (Keeps wild) (start wild 3 heap 0)
      [{ rset := fun fd => fd == 3, peer := peer, nread := fun _ => 0 }] := by
  intro wild heap peer meet
  have ready : ∀ fd : Int, (fd == 3) = true → FD_SET wild 3 FD_ZERO fd = true := by
    intro fd three
    rw [beq_iff_eq.mp three]
    rfl
  have keeps := (meet _ ⟨fun fd _ _ => ready fd, rfl⟩).1
  have same := keeps ⟨rfl, .inr (by decide)⟩
  exact absurd same.client_size (by decide)

end SelectServer

end CodeClips.FdServer
