import CodeClips.Lib.Iteration
import CodeClips.Lwan.MapRuns

/-!
# `hash_iter`

An iterator is the number of a bucket and, as an `int`, the place of the entry it has been at; it
begins before the first one. Where a bucket has `2^31` entries or more, the `int` is counted past its
last value, which C leaves undefined; all other tables are iterated over from the first bucket to
the last (`iterates_onward`).
-/

namespace CodeClips.Lwan

section Iteration
variable {K V : Type}

structure hash_iter where
  bucket : Nat
  entry : BitVec 32

def hash_iter_init : hash_iter := { bucket := 0, entry := -1 }

/-- `hash->buckets + bucket`, which is read. -/
def Hash.bucketAt (hash : Hash K V) (bucket : Nat) : Option (HashBucket K V) :=
  if inside : bucket < n_buckets then some (hash.buckets ⟨bucket, inside⟩) else none

/-- The `for` loop of `hash_iter_next`, from `bucket` on. -/
def nextBucket (hash : Hash K V) (bucket : Nat) : Nat :=
  if inside : bucket < n_buckets then
    if (hash.buckets ⟨bucket, inside⟩).used > 0 then bucket else nextBucket hash (bucket + 1)
  else bucket
termination_by n_buckets - bucket

/-- `b->entries[entry]`, its key and its value. -/
def HashBucket.pairAt (b : HashBucket K V) (entry : BitVec 32) : Option (K × V) :=
  if entry.toInt < 0 then none else (b.entries[entry.toNat]?.bind id).map fun e => (e.key, e.value)

/-- The last lines of `hash_iter_next`. -/
def hash_iter.visit (iter : hash_iter) (b : HashBucket K V) : Option (hash_iter × Option (K × V)) :=
  (b.pairAt iter.entry).map fun e => (iter, some e)

/-- An `int` cannot be counted past `2^31 - 1`. -/
def hash_iter_next (hash : Hash K V) (iter : hash_iter) : Option (hash_iter × Option (K × V)) :=
  (hash.bucketAt iter.bucket).bind fun b =>
    if iter.entry = BitVec.intMax 32 then none
    else
      let iter := { iter with entry := iter.entry + 1 }
      if iter.entry ≥ b.used then
        let iter := { bucket := nextBucket hash (iter.bucket + 1), entry := 0 }
        if iter.bucket ≥ n_buckets then some (iter, none) else (hash.bucketAt iter.bucket).bind iter.visit
      else iter.visit b

/-- The pairs of a bucket's entries. -/
def pairs (entries : List (HashEntry K V)) : List (K × V) := entries.map fun e => (e.key, e.value)

/-- All pairs of a table. -/
def stored (table : Table K V) : List (K × V) := (List.finRange n_buckets).flatMap fun p => pairs (table p)

/-- The pairs in a bucket by its number. -/
def pairsAt (table : Table K V) (bucket : Nat) : List (K × V) :=
  if inside : bucket < n_buckets then pairs (table ⟨bucket, inside⟩) else []

/-- The iterator in a bucket of which it has returned `i` entries. -/
def hash_iter.behind (bucket i : Nat) : hash_iter := { bucket := bucket, entry := BitVec.ofNat 32 i - 1 }

variable {hash : Hash K V} {table : Table K V} {p i : Nat} {e : K × V} {front rest : List (K × V)}

/-! ## A call -/

theorem pairsAt_of_lt (table : Table K V) (inside : p < n_buckets) : pairsAt table p = pairs (table ⟨p, inside⟩) :=
  dif_pos inside

theorem nextBucket_spec (holds : ∀ p, (hash.buckets p).Holds (table p)) (bucket : Nat) (le : bucket ≤ n_buckets) :
    bucket ≤ nextBucket hash bucket ∧ nextBucket hash bucket ≤ n_buckets ∧
      (∀ i, bucket ≤ i → i < nextBucket hash bucket → pairsAt table i = []) ∧
      (nextBucket hash bucket < n_buckets → pairsAt table (nextBucket hash bucket) ≠ []) := by
  induction bucket using nextBucket.induct hash with
  | case1 bucket inside some =>
    rw [nextBucket, dif_pos inside, if_pos some]
    refine ⟨le_rfl, le, fun i from_b below => by omega, fun _ none => ?_⟩
    rw [pairsAt_of_lt table inside, pairs, List.map_eq_nil_iff] at none
    have used := (holds ⟨bucket, inside⟩).used
    rw [none, List.length_nil] at used
    rw [gt_iff_lt, BitVec.lt_def, used] at some
    exact absurd some (by decide)
  | case2 bucket inside none ih =>
    obtain ⟨above, within, empty, found⟩ := ih inside
    rw [nextBucket, dif_pos inside, if_neg none]
    refine ⟨by omega, within, fun i from_b below => ?_, found⟩
    by_cases here : i = bucket
    · subst here
      have used := (holds ⟨i, inside⟩).used
      rw [gt_iff_lt, BitVec.lt_def, used] at none
      have zero := Nat.eq_zero_of_not_pos none
      rw [pairsAt_of_lt table inside, pairs, List.length_eq_zero_iff.mp zero]
      rfl
    · exact empty i (by omega) below
  | case3 bucket outside =>
    rw [nextBucket, dif_neg outside]
    exact ⟨le_rfl, le, fun i from_b below => by omega, fun inside => absurd inside outside⟩

theorem pairAt_of_holds {b : HashBucket K V} {entries : List (HashEntry K V)} (holds : b.Holds entries)
    (small : i < 2 ^ 31) (there : (pairs entries)[i]? = some e) : b.pairAt (BitVec.ofNat 32 i) = some e := by
  obtain ⟨behind, cells⟩ := holds.cells
  have index : (BitVec.ofNat 32 i).toNat = i := by
    rw [BitVec.toNat_ofNat]
    omega
  rw [pairs, List.getElem?_map, Option.map_eq_some_iff] at there
  obtain ⟨entry, at_i, rfl⟩ := there
  have inside := (List.getElem?_eq_some_iff.mp at_i).1
  have cell : b.entries[i]? = some (some entry) := by
    rw [cells, List.getElem?_append_left (by rw [List.length_map]; exact inside), List.getElem?_map, at_i]
    rfl
  have positive : ¬ (BitVec.ofNat 32 i).toInt < 0 := by
    rw [BitVec.toInt_eq_toNat_of_lt (by omega)]
    omega
  rw [HashBucket.pairAt, if_neg positive, index, cell]
  rfl

theorem hash_iter_next_overflow (p : Nat) : hash_iter_next hash (.behind p (2 ^ 31)) = none := by
  rw [hash_iter_next]
  cases hash.bucketAt (hash_iter.behind p (2 ^ 31)).bucket with
  | none => rfl
  | some b => rw [Option.bind_some, if_pos (by rfl)]

theorem entry_ne_intMax (small : i < 2 ^ 31) : (hash_iter.behind p i).entry ≠ BitVec.intMax 32 := by
  intro last
  have value := congrArg BitVec.toNat last
  rw [hash_iter.behind, BitVec.toNat_sub, BitVec.toNat_ofNat] at value
  rw [show (BitVec.intMax 32).toNat = 2 ^ 31 - 1 from rfl, show (1 : BitVec 32).toNat = 1 from rfl] at value
  omega

theorem entry_add_one (p i : Nat) : (hash_iter.behind p i).entry + 1 = BitVec.ofNat 32 i := BitVec.sub_add_cancel _ _

theorem bucketAt_behind (hash : Hash K V) (inside : p < n_buckets) (i : Nat) :
    hash.bucketAt (hash_iter.behind p i).bucket = some (hash.buckets ⟨p, inside⟩) :=
  dif_pos inside

/-- A call inside of a bucket. -/
theorem hash_iter_next_inside (holds : ∀ p, (hash.buckets p).Holds (table p)) (inside : p < n_buckets)
    (split : pairsAt table p = front ++ e :: rest) (small : front.length < 2 ^ 31) :
    hash_iter_next hash (.behind p front.length) = some (.behind p (front.length + 1), some e) := by
  have here := holds ⟨p, inside⟩
  have used := here.used
  rw [pairsAt_of_lt table inside] at split
  have length := congrArg List.length split
  rw [pairs, List.length_map, List.length_append, List.length_cons] at length
  have within : ¬ BitVec.ofNat 32 front.length ≥ (hash.buckets ⟨p, inside⟩).used := by
    rw [ge_iff_le, BitVec.le_def, used, BitVec.toNat_ofNat]
    omega
  have there : (pairs (table ⟨p, inside⟩))[front.length]? = some e := by
    rw [split, List.getElem?_append_right le_rfl, Nat.sub_self]
    rfl
  have next : (hash_iter.behind p (front.length + 1)).entry = BitVec.ofNat 32 front.length := by
    rw [hash_iter.behind, BitVec.ofNat_add]
    exact BitVec.add_sub_cancel _ _
  rw [hash_iter_next, bucketAt_behind hash inside, Option.bind_some, if_neg (entry_ne_intMax small), entry_add_one]
  dsimp only
  rw [if_neg within, hash_iter.visit, pairAt_of_holds here small there, ← next]
  rfl

/-- A call behind the last entry of a bucket. -/
theorem hash_iter_next_behind (holds : ∀ p, (hash.buckets p).Holds (table p)) (inside : p < n_buckets)
    (small : (pairsAt table p).length < 2 ^ 31) :
    (nextBucket hash (p + 1) = n_buckets ∧
        ∃ iter, hash_iter_next hash (.behind p (pairsAt table p).length) = some (iter, none)) ∨
      ∃ c e rest, nextBucket hash (p + 1) = c ∧ c < n_buckets ∧ pairsAt table c = e :: rest ∧
        hash_iter_next hash (.behind p (pairsAt table p).length) = some (.behind c 1, some e) := by
  obtain ⟨-, within, -, found⟩ := nextBucket_spec holds (p + 1) inside
  have used := (holds ⟨p, inside⟩).used
  have length : (pairsAt table p).length = (table ⟨p, inside⟩).length := by
    rw [pairsAt_of_lt table inside, pairs, List.length_map]
  have out : BitVec.ofNat 32 (pairsAt table p).length ≥ (hash.buckets ⟨p, inside⟩).used := by
    rw [ge_iff_le, BitVec.le_def, used, BitVec.toNat_ofNat]
    omega
  rw [hash_iter_next, bucketAt_behind hash inside, Option.bind_some, if_neg (entry_ne_intMax small), entry_add_one]
  dsimp only
  rw [if_pos out, show (hash_iter.behind p (pairsAt table p).length).bucket = p from rfl]
  by_cases last : nextBucket hash (p + 1) < n_buckets
  · obtain ⟨e, rest, some⟩ := List.exists_cons_of_ne_nil (found last)
    have first : (pairs (table ⟨nextBucket hash (p + 1), last⟩))[0]? = Option.some e := by
      rw [← pairsAt_of_lt table last, some]
      rfl
    right
    refine ⟨_, e, rest, rfl, last, some, ?_⟩
    have read : ((hash.buckets ⟨_, last⟩).pairAt 0) = Option.some e := pairAt_of_holds (holds ⟨_, last⟩) (by decide) first
    have bucket : hash.bucketAt (nextBucket hash (p + 1)) = Option.some (hash.buckets ⟨_, last⟩) := dif_pos last
    rw [if_neg (Nat.not_le.mpr last), bucket, Option.bind_some, hash_iter.visit, read]
    rfl
  · left
    exact ⟨by omega, _, if_pos (Nat.le_of_not_lt last)⟩

/-! ## All calls -/

/-- No bucket has more entries than an `int` can number. -/
def Countable (hash : Hash K V) : Prop := ∀ p, (hash.buckets p).used.toNat < 2 ^ 31

theorem length_pairsAt (holds : ∀ p, (hash.buckets p).Holds (table p)) (inside : p < n_buckets) :
    (pairsAt table p).length = (hash.buckets ⟨p, inside⟩).used.toNat := by
  rw [pairsAt_of_lt table inside, pairs, List.length_map, (holds _).used]

theorem iterates_onward (holds : ∀ p, (hash.buckets p).Holds (table p)) (countable : Countable hash)
    (inside : p < n_buckets) (split : pairsAt table p = front ++ rest) :
    Iterates (hash_iter_next hash) (.behind p front.length) (rest ++ onward (pairsAt table) n_buckets (p + 1)) := by
  have small := countable ⟨p, inside⟩
  rw [← length_pairsAt holds inside] at small
  induction left : n_buckets - p using Nat.strong_induction_on generalizing p front rest with
  | _ m ih =>
    induction rest generalizing front with
    | nil =>
      rw [List.append_nil] at split
      rw [List.nil_append, ← split]
      obtain ⟨above, within, empty, -⟩ := nextBucket_spec holds (p + 1) inside
      rw [onward_skip _ above empty within]
      rcases hash_iter_next_behind holds inside small with ⟨last, iter, ends⟩ | ⟨c, e, rest, next, last, some, returns⟩
      · rw [last, onward_end _ le_rfl]
        exact .stop ends
      · rw [next, onward_place _ last, some, List.cons_append]
        apply Iterates.visit returns
        have smaller := countable ⟨c, last⟩
        rw [← length_pairsAt holds last] at smaller
        have later : Iterates (hash_iter_next hash) (.behind c [e].length)
            (rest ++ onward (pairsAt table) n_buckets (c + 1)) :=
          ih (n_buckets - c) (by omega) last some smaller rfl
        exact later
    | cons e rest ih' =>
      have length := congrArg List.length split
      rw [List.length_append, List.length_cons] at length
      apply Iterates.visit (hash_iter_next_inside holds inside split (by omega))
      have next := @ih' (front ++ [e]) (by rw [split, List.append_assoc]; rfl)
      rw [List.length_append] at next
      exact next

/-- A call that is defined is one of these. -/
theorem hash_iter_next_cases (holds : ∀ p, (hash.buckets p).Holds (table p)) (inside : p < n_buckets) (le : i ≤ 2 ^ 31)
    (within : i ≤ (pairsAt table p).length) {result : hash_iter × Option (K × V)}
    (returns : hash_iter_next hash (.behind p i) = some result) :
    i < 2 ^ 31 ∧ ((i < (pairsAt table p).length ∧ ∃ e, result = (.behind p (i + 1), some e)) ∨
      (i = (pairsAt table p).length ∧ ((nextBucket hash (p + 1) = n_buckets ∧ result.2 = none) ∨
        ∃ e, nextBucket hash (p + 1) < n_buckets ∧ pairsAt table (nextBucket hash (p + 1)) ≠ [] ∧
          result = (.behind (nextBucket hash (p + 1)) 1, some e)))) := by
  have small : i < 2 ^ 31 := by
    apply Nat.lt_of_le_of_ne le
    rintro rfl
    rw [hash_iter_next_overflow] at returns
    cases returns
  refine ⟨small, ?_⟩
  rcases Nat.lt_or_eq_of_le within with less | rfl
  · have split : pairsAt table p = (pairsAt table p).take i ++ (pairsAt table p)[i] :: (pairsAt table p).drop (i + 1) := by
      rw [← List.drop_eq_getElem_cons, List.take_append_drop]
    have count : ((pairsAt table p).take i).length = i := by
      rw [List.length_take]
      omega
    have next := hash_iter_next_inside holds inside split (by rw [count]; exact small)
    rw [count, returns] at next
    exact .inl ⟨less, _, Option.some.inj next⟩
  · refine .inr ⟨rfl, ?_⟩
    rcases hash_iter_next_behind holds inside small with ⟨last, iter, ends⟩ | ⟨c, e, rest, rfl, last, some, next⟩
    · rw [returns] at ends
      rw [Option.some.inj ends]
      exact .inl ⟨last, rfl⟩
    · rw [returns] at next
      exact .inr ⟨e, last, by rw [some]; exact List.cons_ne_nil _ _, Option.some.inj next⟩

theorem countable_of_iterates (holds : ∀ p, (hash.buckets p).Holds (table p)) {iter : hash_iter} {visited : List (K × V)}
    (iterates : Iterates (hash_iter_next hash) iter visited) (begins : iter = .behind p i) (inside : p < n_buckets)
    (le : i ≤ 2 ^ 31) (within : i ≤ (pairsAt table p).length) :
    ∀ q, p ≤ q → q < n_buckets → (pairsAt table q).length < 2 ^ 31 := by
  have between := (nextBucket_spec holds (p + 1) inside).2.2.1
  induction iterates generalizing p i with
  | stop ends =>
    subst begins
    obtain ⟨small, ⟨-, e, more⟩ | ⟨rfl, ⟨last, -⟩ | ⟨e, -, -, more⟩⟩⟩ := hash_iter_next_cases holds inside le within ends
    · cases more
    · intro q later inside'
      rcases Nat.eq_or_lt_of_le later with rfl | later
      · exact small
      · rw [between q later (by omega)]
        exact Nat.two_pow_pos 31
    · cases more
  | visit returns _ ih =>
    subst begins
    obtain ⟨small, ⟨less, e, same⟩ | ⟨rfl, ⟨-, none⟩ | ⟨e, last, some, same⟩⟩⟩ :=
      hash_iter_next_cases holds inside le within returns
    · cases same
      exact ih rfl inside (by omega) less between
    · cases none
    · cases same
      have first := List.length_pos_iff.mpr some
      have onwards := ih rfl last (by decide) first (nextBucket_spec holds _ last).2.2.1
      intro q later inside'
      rcases Nat.eq_or_lt_of_le later with rfl | later
      · exact small
      · rcases Nat.lt_or_ge q (nextBucket hash (p + 1)) with before | behind
        · rw [between q later before]
          exact Nat.two_pow_pos 31
        · exact onwards q behind inside'

/-- **An iteration** returns each pair of a table once and ends, exactly where no bucket has `2^31` entries. -/
theorem hash_iter_complete_iff (holds : ∀ p, (hash.buckets p).Holds (table p)) :
    (∃ visited, Iterates (hash_iter_next hash) hash_iter_init visited ∧ visited.Perm (stored table)) ↔ Countable hash := by
  have first : 0 < n_buckets := by decide
  constructor
  · rintro ⟨visited, iterates, -⟩ p
    have small := countable_of_iterates holds iterates (p := 0) (i := 0) rfl first (by decide) (Nat.zero_le _) p
      (Nat.zero_le _) p.isLt
    rw [length_pairsAt holds p.isLt] at small
    exact small
  · intro countable
    have iterates := @iterates_onward K V hash table 0 [] _ holds countable first (List.nil_append _).symm
    rw [← onward_place _ first] at iterates
    have all : onward (pairsAt table) n_buckets 0 = stored table := onward_zero fun p => pairs (table p)
    exact ⟨_, iterates, by rw [all]⟩

/-- Three keys in one bucket. -/
theorem hash_iter_complete_iff_three :
    ∃ hash replies table m, run oneBucket Hash.new (addNumbers 3) = some (hash, replies) ∧ Sim oneBucket hash table m ∧
      ((∃ visited, Iterates (hash_iter_next hash) hash_iter_init visited ∧ visited.Perm (stored table)) ↔
        Countable hash) := by
  obtain ⟨hash, replies, table, m, ran, sim, -⟩ := run_addNumbers 3 (by decide)
  exact ⟨hash, replies, table, m, ran, sim, hash_iter_complete_iff sim.holds⟩

/-- So many entries in one bucket that the `int` is counted past its last value. -/
theorem hash_iter_overflows :
    ∃ hash replies table m, run oneBucket Hash.new (addNumbers (2 ^ 31 + 1)) = some (hash, replies) ∧
      Sim oneBucket hash table m ∧
      ¬ ∃ visited, Iterates (hash_iter_next hash) hash_iter_init visited ∧ visited.Perm (stored table) := by
  obtain ⟨hash, replies, table, m, ran, sim, length, -⟩ := run_addNumbers (2 ^ 31 + 1) (by decide)
  refine ⟨hash, replies, table, m, ran, sim, ?_⟩
  rintro ⟨visited, iterates, -⟩
  have small := countable_of_iterates sim.holds iterates (p := 0) (i := 0) rfl (by decide) (by decide) (Nat.zero_le _) 0
    le_rfl (by decide)
  have used : (pairsAt table 0).length = (hash.buckets (pos 0)).used.toNat := length_pairsAt sim.holds (by decide)
  rw [used, (sim.holds (pos 0)).used, length] at small
  omega

end Iteration

end CodeClips.Lwan
