import CodeClips.Lwan.ListHead
import Mathlib.Data.Fintype.Card

/-!
# What `list_check` finds

The check walks the links forward and compares each link back. It always ends: a walk that does
not come back to its start would come to a node a second time, from another node than the first
time, and the link back of that node cannot be right both times. So in a memory of finitely many
nodes the check accepts exactly the circles, and reports the first link back that is wrong.
-/

namespace CodeClips.LwanList
variable {A : Type}

def links (m : Memory A) : Links A where
  next := m.next ListNode.next
  prev := m.next ListNode.prev

/-- There is a node at `a`. -/
def Room (m : Memory A) (a : A) : Prop := (m.cell a).isSome

section Loads
variable {m : Memory A} {a : A} {p : Option A}

theorem exists_cell (room : Room m a) : ∃ c, m.cell a = some c := Option.isSome_iff_exists.mp room

theorem nextOf_room (room : Room m a) : nextOf m (some a) = .ok ((links m).next a) := by
  obtain ⟨c, here⟩ := exists_cell room
  simp only [nextOf, CellHeap.load_some here, links, CellHeap.next_of_cell _ here]
  rfl

theorem prevOf_room (room : Room m a) : prevOf m (some a) = .ok ((links m).prev a) := by
  obtain ⟨c, here⟩ := exists_cell room
  simp only [prevOf, CellHeap.load_some here, links, CellHeap.next_of_cell _ here]
  rfl

theorem nextOf_freed (room : ¬ Room m a) : nextOf m (some a) = .error (.access .freed) := by
  have empty : m.cell a = none := by simpa [Room] using room
  simp only [nextOf, CellHeap.load, empty]
  rfl

theorem room_of_next {b : A} (linked : (links m).next a = some b) : Room m a := by
  obtain ⟨c, here, -⟩ := Option.bind_eq_some_iff.mp linked
  exact Option.isSome_iff_exists.mpr ⟨c, here⟩

theorem room_of_prev {b : A} (linked : (links m).prev a = some b) : Room m a := by
  obtain ⟨c, here, -⟩ := Option.bind_eq_some_iff.mp linked
  exact Option.isSome_iff_exists.mpr ⟨c, here⟩

/-- What a load gives, or the access that stops the program. -/
theorem prevOf_cases (m : Memory A) (p : Option A) :
    (∃ a, p = some a ∧ Room m a) ∨ ∃ stop, stop ≠ .running ∧ prevOf m p = .error (.access stop) := by
  cases p with
  | none => exact .inr ⟨.null, by decide, rfl⟩
  | some a =>
    cases here : m.cell a with
    | none =>
      refine .inr ⟨.freed, by decide, ?_⟩
      simp only [prevOf, CellHeap.load, here]
      rfl
    | some c => exact .inl ⟨a, rfl, Option.isSome_iff_exists.mpr ⟨c, here⟩⟩

end Loads

variable {m : Memory A} {node p b : A} {l : List A}

theorem room_of_track (track : (links m).Track (p :: l)) (next : (links m).next (l.getLastD p) = some b) : Room m p := by
  cases l with
  | nil => exact room_of_next next
  | cons a l => exact room_of_next (List.isChain_cons_cons.mp track).1.1

/-- The walk from `node` has come through `l`, and goes on to `b`, whose link back is another. -/
structure Broken (m : Memory A) (node : A) (l : List A) (b : A) : Prop where
  track : (links m).Track (node :: l)
  nodup : (node :: l).Nodup
  next : (links m).next (l.getLastD node) = some b
  room : Room m b
  wrong : (links m).prev b ≠ some (l.getLastD node)

theorem rooms_of_track (track : (links m).Track (p :: l)) (room : Room m p) : ∀ a ∈ p :: l, Room m a := by
  induction l generalizing p with
  | nil =>
    intro a inside
    rwa [List.mem_singleton.mp inside]
  | cons b l ih =>
    obtain ⟨joined, rest⟩ := List.isChain_cons_cons.mp track
    intro a inside
    rcases List.mem_cons.mp inside with rfl | inside
    · exact room
    · exact ih rest (room_of_prev joined.2) a inside

/-- The walk does not come to a node for the second time. -/
theorem fresh_of_joined (track : (links m).Track (node :: l)) (nodup : (node :: l).Nodup) (other : b ≠ node)
    (joined : (links m).Joined (l.getLastD node) b) : b ∉ node :: l := by
  intro inside
  rcases List.mem_cons.mp inside with same | inside
  · exact other same
  obtain ⟨front, back, rfl⟩ := List.append_of_mem inside
  obtain ⟨xs, before⟩ := Links.exists_getLastD front node
  have whole : (links m).Track ((node :: front) ++ b :: back) := by simpa using track
  rw [before, List.append_assoc] at whole
  have earlier := (Links.Track.split whole).2.1
  have same : (front ++ b :: back).getLastD node = front.getLastD node := by
    have twice := joined.2.symm.trans earlier.2
    exact Option.some.inj twice
  -- The last node of the walk would be in front of `b` in it.
  have apart : ((node :: front) ++ b :: back).Nodup := by simpa using nodup
  obtain ⟨-, -, apart⟩ := List.nodup_append.mp apart
  refine apart _ (Links.getLastD_mem front node) _ (Links.getLastD_mem back b) ?_
  obtain ⟨ys, behind⟩ := Links.exists_getLastD back b
  rw [← same, behind]
  simp

variable [DecidableEq A] {fuel : Nat} {abortstr : Option String} {count : BitVec 32}

/-- One turn of the loop at a node that is joined to the one before. -/
theorem checkLoop_step (joined : (links m).Joined p b) (other : b ≠ node) :
    checkLoop m abortstr node (fuel + 1) (some p) (some b) count =
      checkLoop m abortstr node fuel (some b) ((links m).next b) (count + 1) := by
  have room : Room m b := room_of_prev joined.2
  rw [checkLoop, if_neg (by simpa using other), prevOf_room room, returned_bind, joined.2, if_neg (by simp),
    nextOf_room room, returned_bind]

/-- The walk comes through a track. -/
theorem checkLoop_track (track : (links m).Track (p :: l)) (outside : node ∉ l) :
    checkLoop m abortstr node (l.length + fuel) (some p) ((links m).next p) count =
      checkLoop m abortstr node fuel (some (l.getLastD p)) ((links m).next (l.getLastD p))
        (count + BitVec.ofNat 32 l.length) := by
  induction l generalizing p count with
  | nil => simp
  | cons b l ih =>
    obtain ⟨joined, rest⟩ := List.isChain_cons_cons.mp track
    rw [List.mem_cons, not_or] at outside
    have longer : (b :: l).length + fuel = l.length + fuel + 1 := by
      rw [List.length_cons]
      omega
    have counted : count + 1 + BitVec.ofNat 32 l.length = count + BitVec.ofNat 32 (b :: l).length := by
      rw [List.length_cons, BitVec.add_assoc, Nat.add_comm, BitVec.ofNat_add]
      rfl
    rw [longer, joined.1, checkLoop_step joined (Ne.symm outside.1), ih rest outside.2, counted, List.getLastD_cons]

theorem corrupt_eq (abortstr : Option String) (b : A) (l : List A) (wrong : (links m).prev b ≠ some p) (room : Room m b) :
    checkLoop m abortstr node (fuel + 1) (some p) (some b) (BitVec.ofNat 32 l.length) =
      corrupt abortstr node (some b) (if b = node then 0 else BitVec.ofNat 32 (l.length + 1)) := by
  by_cases same : b = node
  · subst same
    rw [checkLoop, if_pos rfl, prevOf_room room, returned_bind, if_pos wrong, if_pos rfl]
  · rw [checkLoop, if_neg (by simpa using same), prevOf_room room, returned_bind, if_pos wrong, if_neg same,
      BitVec.ofNat_add]
    rfl

/-- The check of a circle. -/
theorem listCheckNode_ring (ring : (links m).Ring node l) (enough : l.length < fuel) (abortstr : Option String) :
    listCheckNode fuel m node abortstr = .ok (some node) := by
  obtain ⟨outside, -⟩ := List.nodup_cons.mp ring.nodup
  have first := ring.next_eq
  have track : (links m).Track (node :: l) := List.IsChain.left_of_append ring.track
  have last := ring.joined_last
  obtain ⟨fuel, rfl⟩ := Nat.exists_eq_add_of_lt enough
  rw [listCheckNode, nextOf_room (room_of_next first), returned_bind, Nat.add_assoc, checkLoop_track track outside,
    last.1, checkLoop, if_pos rfl, prevOf_room (room_of_prev last.2), returned_bind, last.2]
  simp

/-- The check of a walk that is broken. -/
theorem listCheckNode_broken (broken : Broken m node l b) (enough : l.length < fuel) (abortstr : Option String) :
    listCheckNode fuel m node abortstr =
      corrupt abortstr node (some b) (if b = node then 0 else BitVec.ofNat 32 (l.length + 1)) := by
  obtain ⟨outside, -⟩ := List.nodup_cons.mp broken.nodup
  have start : Room m node := room_of_track broken.track broken.next
  have counted : (0 : BitVec 32) + BitVec.ofNat 32 l.length = BitVec.ofNat 32 l.length := BitVec.zero_add _
  obtain ⟨fuel, rfl⟩ := Nat.exists_eq_add_of_lt enough
  rw [listCheckNode, nextOf_room start, returned_bind, Nat.add_assoc, checkLoop_track broken.track outside,
    broken.next, counted, corrupt_eq abortstr b l broken.wrong broken.room]

theorem length_le_card (cells : Finset A) (nodup : l.Nodup) (inside : ∀ a ∈ l, a ∈ cells) : l.length ≤ cells.card := by
  rw [← List.toFinset_card_of_nodup nodup]
  exact Finset.card_le_card fun a here => inside a (List.mem_toFinset.mp here)

theorem track_short {cells : Finset A} (all : ∀ a, Room m a → a ∈ cells) (enough : cells.card < fuel)
    (track : (links m).Track (node :: l)) (nodup : (node :: l).Nodup) (room : Room m node) : l.length < fuel := by
  have short := length_le_card cells nodup fun a inside => all a (rooms_of_track track room a inside)
  rw [List.length_cons] at short
  omega

theorem Broken.short {cells : Finset A} (all : ∀ a, Room m a → a ∈ cells) (enough : cells.card < fuel)
    (broken : Broken m node l b) : l.length < fuel :=
  track_short all enough broken.track broken.nodup (room_of_track broken.track broken.next)

/-- The walk comes back, or to a link back that is wrong, or to no node. -/
theorem walk_ends (cells : Finset A) (all : ∀ a, Room m a → a ∈ cells) (abortstr : Option String)
    (track : (links m).Track (node :: l)) (nodup : (node :: l).Nodup) (rooms : ∀ a ∈ node :: l, Room m a)
    (enough : cells.card < fuel + l.length + 1) :
    (∃ l, (links m).Ring node l) ∨ (∃ l b, Broken m node l b) ∨
      ∃ stop, stop ≠ .running ∧ ∀ count, checkLoop m abortstr node fuel (some (l.getLastD node))
        ((links m).next (l.getLastD node)) count = .error (.access stop) := by
  induction fuel generalizing l with
  | zero =>
    have short := length_le_card cells nodup fun a inside => all a (rooms a inside)
    rw [List.length_cons] at short
    omega
  | succ fuel ih =>
    by_cases back : (links m).next (l.getLastD node) = some node
    · by_cases right : (links m).prev node = some (l.getLastD node)
      · exact .inl ⟨l, track.concat ⟨back, right⟩, nodup⟩
      · exact .inr (.inl ⟨l, node, track, nodup, back, rooms node List.mem_cons_self, right⟩)
    rcases prevOf_cases m ((links m).next (l.getLastD node)) with ⟨b, next, room⟩ | ⟨stop, ended, fails⟩
    · by_cases right : (links m).prev b = some (l.getLastD node)
      · have other : b ≠ node := by
          rintro rfl
          exact back next
        have joined : (links m).Joined (l.getLastD node) b := ⟨next, right⟩
        have fresh := fresh_of_joined track nodup other joined
        have last : (l ++ [b]).getLastD node = b := by simp
        have further := ih (l := l ++ [b]) (track.concat joined)
          ((List.perm_append_singleton b (node :: l)).nodup_iff.mpr (List.nodup_cons.mpr ⟨fresh, nodup⟩))
          (fun a inside => by
            rw [← List.cons_append] at inside
            rcases List.mem_append.mp inside with inside | inside
            · exact rooms a inside
            · rwa [List.mem_singleton.mp inside])
          (by
            rw [List.length_append, List.length_singleton]
            omega)
        rw [last] at further
        refine further.imp_right (Or.imp_right ?_)
        rintro ⟨stop, ended, fails⟩
        refine ⟨stop, ended, fun count => ?_⟩
        rw [next, checkLoop_step joined other, fails]
      · exact .inr (.inl ⟨l, b, track, nodup, next, room, right⟩)
    · refine .inr (.inr ⟨stop, ended, fun count => ?_⟩)
      rw [checkLoop, if_neg back, fails]
      rfl

/-- The check of any node, where its fuel is more than the nodes there are. -/
theorem listCheckNode_cases (cells : Finset A) (all : ∀ a, Room m a → a ∈ cells) (enough : cells.card < fuel)
    (node : A) (abortstr : Option String) :
    (∃ l, (links m).Ring node l ∧ listCheckNode fuel m node abortstr = .ok (some node)) ∨
    (∃ l b, Broken m node l b ∧ listCheckNode fuel m node abortstr =
      corrupt abortstr node (some b) (if b = node then 0 else BitVec.ofNat 32 (l.length + 1))) ∨
    ∃ stop, stop ≠ .running ∧ listCheckNode fuel m node abortstr = .error (.access stop) := by
  by_cases room : Room m node
  · rcases walk_ends cells all abortstr (List.isChain_singleton node) (List.nodup_singleton node)
      (fun a inside => by rwa [List.mem_singleton.mp inside]) (Nat.lt_succ_of_lt enough) with
      ⟨l, ring⟩ | ⟨l, b, broken⟩ | ⟨stop, ended, fails⟩
    · exact .inl ⟨l, ring, listCheckNode_ring ring (track_short all enough (List.IsChain.left_of_append ring.track) ring.nodup room)
        abortstr⟩
    · exact .inr (.inl ⟨l, b, broken, listCheckNode_broken broken (broken.short all enough) abortstr⟩)
    · refine .inr (.inr ⟨stop, ended, ?_⟩)
      rw [listCheckNode, nextOf_room room, returned_bind]
      exact fails 0
  · refine .inr (.inr ⟨.freed, by decide, ?_⟩)
    rw [listCheckNode, nextOf_freed room]
    rfl

omit [DecidableEq A] in
theorem corrupt_ne (abortstr : Option String) (head node : A) (n : Option A) (count : BitVec 32) :
    corrupt abortstr head n count ≠ .ok (some node) := by
  cases abortstr <;> simp [corrupt]

/-- In a memory of finitely many nodes, and with fuel for all of them, the check ends for every
node, accepts it exactly if it lies on a circle, and reports the first link back that is wrong
with its place on the walk, 0 for the start's own. -/
theorem list_check_node_exact (cells : Finset A) (all : ∀ a, Room m a → a ∈ cells) (enough : cells.card < fuel)
    (node : A) :
    (∀ abortstr, listCheckNode fuel m node abortstr = .ok (some node) ↔ ∃ l, (links m).Ring node l) ∧
    (listCheckNode fuel m node none = .ok none ↔ ∃ l b, Broken m node l b) ∧
    (∀ abortstr n count head, listCheckNode fuel m node (some abortstr) = .error (.aborted abortstr n count head) ↔
      head = node ∧ ∃ l b, Broken m node l b ∧ n = some b ∧
        count = if b = node then 0 else BitVec.ofNat 32 (l.length + 1)) ∧
    ∀ abortstr, listCheckNode fuel m node abortstr ≠ .error (.access .running) := by
  have every := listCheckNode_cases cells all enough node
  refine ⟨fun abortstr => ⟨fun accepted => ?_, ?_⟩, ⟨fun null => ?_, ?_⟩, fun abortstr n count head => ⟨fun report => ?_, ?_⟩,
    fun abortstr running => ?_⟩
  · rcases every abortstr with ⟨l, ring, -⟩ | ⟨l, b, -, found⟩ | ⟨stop, -, fails⟩
    · exact ⟨l, ring⟩
    · rw [found] at accepted
      exact absurd accepted (corrupt_ne abortstr node node (some b) _)
    · simp [fails] at accepted
  · rintro ⟨l, ring⟩
    have track : (links m).Track (node :: l) := List.IsChain.left_of_append ring.track
    exact listCheckNode_ring ring (track_short all enough track ring.nodup (room_of_next ring.next_eq)) abortstr
  · rcases every none with ⟨l, -, accepted⟩ | ⟨l, b, broken, -⟩ | ⟨stop, -, fails⟩
    · simp [accepted] at null
    · exact ⟨l, b, broken⟩
    · simp [fails] at null
  · rintro ⟨l, b, broken⟩
    exact listCheckNode_broken broken (broken.short all enough) none
  · rcases every (some abortstr) with ⟨l, -, accepted⟩ | ⟨l, b, broken, found⟩ | ⟨stop, -, fails⟩
    · simp [accepted] at report
    · rw [found] at report
      cases report
      exact ⟨rfl, l, b, broken, rfl, rfl⟩
    · simp [fails] at report
  · rintro ⟨rfl, l, b, broken, rfl, rfl⟩
    exact listCheckNode_broken broken (broken.short all enough) (some abortstr)
  · rcases every abortstr with ⟨l, -, accepted⟩ | ⟨l, b, -, found⟩ | ⟨stop, ended, fails⟩
    · simp [accepted] at running
    · cases abortstr <;> simp [found, corrupt] at running
    · rw [fails] at running
      cases running
      exact ended rfl

/-- Two nodes, each the other's neighbour on both sides. -/
def pair : Memory Bool where
  cell a := some ⟨some !a, some !a⟩

theorem list_check_node_exact_pair : listCheckNode 3 pair true none = .ok (some true) := by
  have ring : (links pair).Ring true [false] :=
    ⟨by simp [Links.Track, Links.Joined, links, CellHeap.next, pair], by decide⟩
  exact ((list_check_node_exact Finset.univ (fun a _ => Finset.mem_univ a) (by decide) true).1 none).mpr ⟨_, ring⟩

end CodeClips.LwanList
