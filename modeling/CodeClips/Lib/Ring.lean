import Mathlib.Data.List.Chain
import Mathlib.Data.List.Nodup
import Mathlib.Logic.Function.Basic

/-!
# Circular lists of two links

`Joined m a b` says that `a` links forward to `b` and `b` back to `a`; a `Track` is a list of
nodes of which each is joined to the one after it, and `Ring m h l` the track from `h` through `l`
back to `h`. `tie` joins two nodes, and `Track.join` makes one track of two. Every change of a ring is
a few ties: a node after the head (`Ring.insert`) or taken out (`Ring.remove`), the nodes of
another ring put before the head (`Ring.append`). `flip` reads the links the other way around, so
that each of them holds at the other end too.
-/

namespace CodeClips

/-- The links of the nodes, both ways. -/
structure Links (A : Type*) where
  next : A → Option A
  prev : A → Option A

namespace Links
variable {A : Type*}

/-- `b` follows `a`, and knows it. -/
def Joined (m : Links A) (a b : A) : Prop := m.next a = some b ∧ m.prev b = some a

/-- Every node is joined to the next one. -/
def Track (m : Links A) (c : List A) : Prop := c.IsChain m.Joined

/-- The head and the nodes, each joined with the next and the last with the head. -/
structure Ring (m : Links A) (h : A) (l : List A) : Prop where
  track : m.Track (h :: l ++ [h])
  nodup : (h :: l).Nodup

/-- Forward is backward. -/
def flip (m : Links A) : Links A := { next := m.prev, prev := m.next }

variable {m m' : Links A} {a b h p q : A} {c xs ys l l' front back : List A}

/-- Only the links along a track matter. -/
theorem Track.congr (track : m.Track c) (next : ∀ a ∈ c.dropLast, m'.next a = m.next a)
    (prev : ∀ b ∈ c.tail, m'.prev b = m.prev b) : m'.Track c := by
  induction c with
  | nil => exact List.isChain_nil
  | cons a c ih =>
    cases c with
    | nil => exact List.isChain_singleton a
    | cons b c =>
      obtain ⟨joined, rest⟩ := List.isChain_cons_cons.mp track
      refine List.isChain_cons_cons.mpr ⟨⟨?_, ?_⟩, ?_⟩
      · rw [next a List.mem_cons_self]
        exact joined.1
      · rw [prev b List.mem_cons_self]
        exact joined.2
      · refine ih rest (fun a inside => next a (List.mem_cons_of_mem _ inside)) fun d inside => ?_
        exact prev d (List.mem_cons_of_mem b inside)

/-- Two tracks are joined at their ends. -/
theorem Track.append (first : m.Track (xs ++ [p])) (joined : m.Joined p q) (second : m.Track (q :: ys)) :
    m.Track (xs ++ p :: q :: ys) :=
  List.isChain_append_cons_cons.mpr ⟨first, joined, second⟩

/-- A track is taken apart between two nodes. -/
theorem Track.split (track : m.Track (xs ++ p :: q :: ys)) :
    m.Track (xs ++ [p]) ∧ m.Joined p q ∧ m.Track (q :: ys) :=
  List.isChain_append_cons_cons.mp track

@[simp] theorem flip_flip (m : Links A) : m.flip.flip = m := rfl

/-- A track backward is a track. -/
theorem track_flip : m.flip.Track c.reverse ↔ m.Track c := by
  rw [Track, Track, List.isChain_reverse]
  exact List.IsChain.iff fun a b => And.comm

/-- A ring has an end at every place of it. -/
theorem Ring.next_eq (ring : m.Ring h l) : m.next h = some (l.headD h) := by
  cases l with
  | nil => exact (List.isChain_pair.mp ring.track).1
  | cons a l => exact (List.isChain_cons_cons.mp ring.track).1.1

/-- The list is in the other order then. -/
theorem Ring.flip (ring : m.Ring h l) : m.flip.Ring h l.reverse where
  track := by
    have turned := track_flip.mpr ring.track
    simpa using turned
  nodup := by
    obtain ⟨outside, nodup⟩ := List.nodup_cons.mp ring.nodup
    exact List.nodup_cons.mpr ⟨by simpa using outside, List.nodup_reverse.mpr nodup⟩

/-- Before the head is the last node. -/
theorem Ring.prev_eq (ring : m.Ring h l) : m.prev h = some (l.getLastD h) := by
  have first : m.flip.next h = _ := ring.flip.next_eq
  simpa [Links.flip] using first

/-- The same ring, seen from one of its nodes. -/
theorem Ring.rotate (ring : m.Ring h (front ++ a :: back)) : m.Ring a (back ++ h :: front) := by
  have whole : m.Track ((h :: front) ++ a :: (back ++ [h])) := by simpa using ring.track
  refine ⟨?_, ?_⟩
  · rw [Track, List.isChain_split] at whole
    have turned : m.Track ((a :: back) ++ h :: (front ++ [a])) := by
      rw [Track, List.isChain_split]
      exact ⟨by simpa using whole.2, by simpa using whole.1⟩
    simpa using turned
  · have same : (a :: (back ++ h :: front)).Perm (h :: (front ++ a :: back)) := by
      have swap : ((a :: back) ++ (h :: front)).Perm ((h :: front) ++ (a :: back)) := List.perm_append_comm
      simpa using swap
    exact same.nodup_iff.mpr ring.nodup

/-- Nodes outside of the ring may change. -/
theorem Ring.congr (ring : m.Ring h l) (next : ∀ a ∈ h :: l, m'.next a = m.next a)
    (prev : ∀ a ∈ h :: l, m'.prev a = m.prev a) : m'.Ring h l where
  track := by
    apply ring.track.congr
    · intro a inside
      rw [List.dropLast_concat] at inside
      exact next a inside
    · intro b inside
      refine prev b ?_
      simpa [or_comm] using inside
  nodup := ring.nodup

theorem exists_headD (l : List A) (h : A) : ∃ ys, l ++ [h] = l.headD h :: ys := by
  cases l with
  | nil => exact ⟨[], rfl⟩
  | cons a l => exact ⟨l ++ [h], rfl⟩

theorem exists_getLastD (l : List A) (h : A) : ∃ xs, h :: l = xs ++ [l.getLastD h] := by
  rcases List.eq_nil_or_concat l with rfl | ⟨front, a, rfl⟩
  · exact ⟨[], rfl⟩
  · exact ⟨h :: front, by simp⟩

/-- What comes first, behind the head, is a node or the head. -/
theorem headD_mem (l : List A) (h : A) : l.headD h ∈ h :: l := by
  cases l with
  | nil => exact List.mem_cons_self
  | cons a l => exact List.mem_cons_of_mem h List.mem_cons_self

/-- And so what comes last. -/
theorem getLastD_mem (l : List A) (h : A) : l.getLastD h ∈ h :: l := by
  obtain ⟨xs, before⟩ := exists_getLastD l h
  rw [before]
  exact List.mem_concat_self

theorem Ring.joined_last (ring : m.Ring h l) : m.Joined (l.getLastD h) h := by
  obtain ⟨xs, before⟩ := exists_getLastD l h
  have track := ring.track
  rw [before, List.append_assoc] at track
  exact (Track.split track).2.1

/-- A track with one more node, joined to the last. -/
theorem Track.concat (track : m.Track (h :: l)) (joined : m.Joined (l.getLastD h) a) : m.Track (h :: l ++ [a]) := by
  obtain ⟨xs, before⟩ := exists_getLastD l h
  rw [before] at track ⊢
  rw [List.append_assoc]
  exact track.append joined (List.isChain_singleton a)

/-- A ring comes to each node once and leaves each once. -/
theorem simple_of_nodup (nodup : (h :: l).Nodup) : (h :: l ++ [h]).dropLast.Nodup ∧ (h :: l ++ [h]).tail.Nodup := by
  rw [List.dropLast_concat]
  exact ⟨nodup, (List.perm_append_singleton h l).nodup_iff.mpr nodup⟩

/-- The nodes of two rings without one in common. -/
theorem nodup_of_disjoint {f : A} (ring : m.Ring h l) (ring' : m.Ring f l') (apart : (h :: l).Disjoint (f :: l')) :
    ((h :: l) ++ f :: l').Nodup :=
  List.nodup_append'.mpr ⟨ring.nodup, ring'.nodup, apart⟩

section Neighbours
variable {n : A}

/-- Behind a node is the next one, or the head. -/
theorem Ring.next_node (ring : m.Ring h (front ++ n :: back)) : m.next n = some (back.headD h) := by
  rw [ring.rotate.next_eq]
  cases back <;> rfl

/-- Before a node is the one before, or the head. -/
theorem Ring.prev_node (ring : m.Ring h (front ++ n :: back)) : m.prev n = some (front.getLastD h) := by
  obtain ⟨xs, before⟩ := exists_getLastD front h
  rw [ring.rotate.prev_eq, before]
  simp

theorem headD_inside (front back : List A) (h : A) : back.headD h ∈ h :: (front ++ back) := by
  rcases List.mem_cons.mp (headD_mem back h) with same | inside
  · rw [same]
    exact List.mem_cons_self
  · exact List.mem_cons_of_mem h (List.mem_append_right front inside)

theorem getLastD_inside (front back : List A) (h : A) : front.getLastD h ∈ h :: (front ++ back) :=
  (List.mem_append_left back (getLastD_mem front h) : front.getLastD h ∈ (h :: front) ++ back)

/-- A node is not among the others. -/
theorem Ring.not_mem (ring : m.Ring h (front ++ n :: back)) : n ∉ h :: (front ++ back) := by
  have moved : (n :: h :: (front ++ back)).Perm (h :: (front ++ n :: back)) :=
    (@List.perm_middle A n (h :: front) back).symm
  exact (List.nodup_cons.mp (moved.nodup_iff.mpr ring.nodup)).1

theorem subset_whole (h n : A) (front back : List A) : h :: (front ++ back) ⊆ h :: (front ++ n :: back) := by
  have smaller : (front ++ back).Sublist (front ++ n :: back) := (List.sublist_cons_self n back).append_left front
  exact (smaller.cons_cons h).subset

end Neighbours

section Changes
variable [DecidableEq A]

/-- `a` and `b` are joined. -/
def tie (m : Links A) (a b : A) : Links A where
  next := Function.update m.next a (some b)
  prev := Function.update m.prev b (some a)

/-- The two nodes are joined by it. -/
theorem joined_tie (m : Links A) (a b : A) : (m.tie a b).Joined a b :=
  ⟨Function.update_self .., Function.update_self ..⟩

/-- Tying the other way round. -/
theorem flip_tie (m : Links A) (a b : A) : (m.tie a b).flip = m.flip.tie b a := rfl

/-- A track is kept that leads neither from `a` nor to `b`. -/
theorem Track.tie (track : m.Track c) (leaves : a ∉ c.dropLast) (enters : b ∉ c.tail) : (m.tie a b).Track c := by
  apply track.congr
  · intro d inside
    apply Function.update_of_ne
    rintro rfl
    exact leaves inside
  · intro d inside
    apply Function.update_of_ne
    rintro rfl
    exact enters inside

/-- Two tracks made one. -/
theorem Track.join (first : m.Track (xs ++ [p])) (second : m.Track (q :: ys))
    (firsts : (xs ++ p :: q :: ys).dropLast.Nodup) (seconds : (xs ++ p :: q :: ys).tail.Nodup) :
    (m.tie p q).Track (xs ++ p :: q :: ys) := by
  have lasts : (xs ++ p :: (q :: ys).dropLast).Nodup := by
    rwa [List.dropLast_append_of_ne_nil (List.cons_ne_nil p _), List.dropLast_cons_of_ne_nil (List.cons_ne_nil q ys)] at firsts
  have heads : ((xs ++ [p]).tail ++ q :: ys).Nodup := by
    rwa [List.append_cons, List.tail_append_of_ne_nil (by simp)] at seconds
  obtain ⟨-, unique, apart⟩ := List.nodup_append.mp lasts
  obtain ⟨-, unique', apart'⟩ := List.nodup_append.mp heads
  refine Track.append ?_ (joined_tie m p q) ?_
  · refine first.tie ?_ fun inside => apart' q inside q List.mem_cons_self rfl
    rw [List.dropLast_concat]
    exact fun inside => apart p inside p List.mem_cons_self rfl
  · exact second.tie (List.nodup_cons.mp unique).1 (List.nodup_cons.mp unique').1

/-- A node that is tied in behind the head is the first. -/
theorem Ring.insert {n : A} (ring : m.Ring h l) (fresh : n ∉ h :: l) :
    ((m.tie n (l.headD h)).tie h n).Ring h (n :: l) := by
  obtain ⟨ys, pieces⟩ := exists_headD l h
  have nodup : (h :: n :: l).Nodup := by
    obtain ⟨outside, nodup⟩ := List.nodup_cons.mp ring.nodup
    rw [List.mem_cons, not_or] at fresh
    refine List.nodup_cons.mpr ⟨?_, List.nodup_cons.mpr ⟨fresh.2, nodup⟩⟩
    simpa [Ne.symm fresh.1] using outside
  obtain ⟨firsts, seconds⟩ := simple_of_nodup nodup
  have second : m.Track (l.headD h :: ys) := by
    rw [← pieces]
    exact List.IsChain.tail ring.track
  refine ⟨?_, nodup⟩
  rw [List.cons_append, List.cons_append, pieces] at firsts seconds ⊢
  have middle : (m.tie n (l.headD h)).Track ([] ++ n :: l.headD h :: ys) := by
    refine Track.join (List.isChain_singleton n) second ?_ ?_
    · exact (List.nodup_cons.mp firsts).2
    · exact (List.nodup_cons.mp seconds).2
  have whole : ((m.tie n (l.headD h)).tie h n).Track ([] ++ h :: n :: l.headD h :: ys) :=
    Track.join (List.isChain_singleton h) middle firsts seconds
  exact whole

/-- Before the head it is the last. -/
theorem Ring.insertLast {n : A} (ring : m.Ring h l) (fresh : n ∉ h :: l) :
    ((m.tie (l.getLastD h) n).tie n h).Ring h (l ++ [n]) := by
  have fresh' : n ∉ h :: l.reverse := by simpa using fresh
  have turned := (ring.flip.insert fresh').flip
  simpa [flip_tie] using turned

/-- Tying the neighbours of a node takes it out. -/
theorem Ring.remove {n : A} (ring : m.Ring h (front ++ n :: back)) :
    (m.tie (front.getLastD h) (back.headD h)).Ring h (front ++ back) := by
  obtain ⟨xs, before⟩ := exists_getLastD front h
  obtain ⟨ys, behind⟩ := exists_headD back h
  have nodup : (h :: (front ++ back)).Nodup := by
    refine ring.nodup.sublist ?_
    exact ((List.sublist_cons_self n back).append_left front).cons_cons h
  obtain ⟨firsts, seconds⟩ := simple_of_nodup nodup
  have whole : m.Track ((h :: front) ++ n :: (back ++ [h])) := by simpa using ring.track
  rw [before, behind, Track, List.append_assoc, List.singleton_append, List.isChain_append_cons_cons] at whole
  obtain ⟨first, -, rest⟩ := whole
  have pieces : h :: (front ++ back) ++ [h] = xs ++ front.getLastD h :: back.headD h :: ys := by
    rw [← behind, List.append_cons xs, ← before]
    simp
  refine ⟨?_, nodup⟩
  rw [pieces] at firsts seconds ⊢
  exact Track.join first rest.tail firsts seconds

/-- The head and the nodes of another ring behind the last node. -/
theorem Ring.append {f : A} (ring : m.Ring h l) (ring' : m.Ring f l') (apart : (h :: l).Disjoint (f :: l')) :
    ((m.tie (l'.getLastD f) h).tie (l.getLastD h) f).Ring h (l ++ f :: l') := by
  obtain ⟨xs, before⟩ := exists_getLastD l h
  obtain ⟨xs', before'⟩ := exists_getLastD l' f
  have nodup : (h :: (l ++ f :: l')).Nodup := nodup_of_disjoint ring ring' apart
  obtain ⟨firsts, seconds⟩ := simple_of_nodup nodup
  have first : m.Track (h :: l) := List.IsChain.left_of_append ring.track
  have second : m.Track (f :: l') := List.IsChain.left_of_append ring'.track
  have pieces : h :: (l ++ f :: l') ++ [h] = xs ++ l.getLastD h :: f :: (l' ++ [h]) := by
    rw [List.append_cons xs, ← before]
    simp
  have pieces' : f :: (l' ++ [h]) = xs' ++ [l'.getLastD f, h] := by
    rw [← List.cons_append, before']
    simp
  refine ⟨?_, nodup⟩
  rw [pieces] at firsts seconds ⊢
  have middle : (m.tie (l'.getLastD f) h).Track (f :: (l' ++ [h])) := by
    rw [before'] at second
    rw [pieces']
    refine second.join (List.isChain_singleton h) ?_ ?_ <;> rw [← pieces']
    · rw [← List.cons_append, List.dropLast_concat]
      exact ring'.nodup
    · refine (List.perm_append_singleton h l').nodup_iff.mpr (List.nodup_cons.mpr ⟨?_, ?_⟩)
      · exact fun inside => apart List.mem_cons_self (List.mem_cons_of_mem f inside)
      · exact (List.nodup_cons.mp ring'.nodup).2
  refine Track.join ?_ middle firsts seconds
  rw [← before]
  apply first.tie
  · intro inside
    exact apart (List.dropLast_subset _ inside) (getLastD_mem l' f)
  · exact (List.nodup_cons.mp ring.nodup).1

/-- The head and the nodes of another ring before the first node. -/
theorem Ring.prepend {f : A} (ring : m.Ring h l) (ring' : m.Ring f l') (apart : (h :: l).Disjoint (f :: l')) :
    ((m.tie h f).tie (l'.getLastD f) (l.headD h)).Ring h (f :: (l' ++ l)) := by
  obtain ⟨xs', before'⟩ := exists_getLastD l' f
  obtain ⟨ys, behind⟩ := exists_headD l h
  have nodup : (h :: f :: (l' ++ l)).Nodup := by
    have swap : (h :: ((f :: l') ++ l)).Perm (h :: (l ++ f :: l')) := List.perm_append_comm.cons h
    exact swap.nodup_iff.mpr (nodup_of_disjoint ring ring' apart)
  obtain ⟨firsts, seconds⟩ := simple_of_nodup nodup
  have second : m.Track (f :: l') := List.IsChain.left_of_append ring'.track
  have third : m.Track (l ++ [h]) := ring.track.tail
  have pieces : h :: f :: (l' ++ l) ++ [h] = h :: xs' ++ l'.getLastD f :: l.headD h :: ys := by
    calc h :: f :: (l' ++ l) ++ [h] = h :: (f :: l') ++ (l ++ [h]) := by simp
      _ = h :: xs' ++ l'.getLastD f :: l.headD h :: ys := by
        rw [before', behind]
        simp
  refine ⟨?_, nodup⟩
  have middle : (m.tie h f).Track ([] ++ h :: f :: l') := by
    refine Track.join (List.isChain_singleton h) second ?_ ring'.nodup
    have whole : (h :: f :: l').Nodup := nodup.sublist ((List.sublist_append_left (f :: l') l).cons_cons h)
    exact whole.sublist (List.dropLast_sublist _)
  rw [pieces] at firsts seconds ⊢
  refine Track.join ?_ ?_ firsts seconds
  · rwa [List.cons_append, ← before']
  · rw [← behind]
    apply third.tie
    · rw [List.dropLast_concat]
      exact (List.nodup_cons.mp ring.nodup).1
    · intro inside
      have inside : f ∈ l ++ [h] := List.mem_of_mem_tail inside
      exact apart (by simpa [or_comm] using inside) List.mem_cons_self

end Changes

end Links

end CodeClips
