import CodeClips.Lwan.Operations
import Mathlib.Data.List.Nodup

/-!
# Runs of the table

By `step_refines` any sequence of calls returns what it returns on a map, and what `Sim` says of
the last table is its well-formedness. The only bound is that of the `unsigned` total of a
bucket: it wraps with the entry that comes after `bucketMost` others.
-/

namespace CodeClips.Lwan

section MapRuns
variable {K V : Type} (ops : KeyFunctions K)

/-- The calls one after the other, with what they return. -/
def run : Hash K V → List (Call K V) → Option (Hash K V × List (Reply K V))
  | hash, [] => some (hash, [])
  | hash, call :: calls =>
    (step ops hash call).bind fun r => (run r.1 calls).map fun rest => (rest.1, r.2 :: rest.2)

/-- No call of the run adds an entry to a bucket that is at the limit. -/
def RunFits : Hash K V → List (Call K V) → Prop
  | _, [] => True
  | hash, call :: calls =>
    Fits ops hash call ∧ ∀ hash' reply, step ops hash call = some (hash', reply) → RunFits hash' calls

/-- The calls on a map. -/
inductive MapRun [DecidableEq K] : (K → Option V) → List (Call K V) → List (Reply K V) → (K → Option V) → Prop where
  | nil (m : K → Option V) : MapRun m [] [] m
  | cons {m m' m'' : K → Option V} {call : Call K V} {calls : List (Call K V)} {reply : Reply K V}
      {replies : List (Reply K V)} (next : MapStep m call m' reply) (rest : MapRun m' calls replies m'') :
      MapRun m (call :: calls) (reply :: replies) m''

/-- Keys are unique over all buckets, `count` counts the entries, and a bucket that has entries
has a cell behind them. -/
structure Hash.Wf (hash : Hash K V) : Prop where
  keys : ∃ table : Table K V, (∀ p, (hash.buckets p).read = some (table p)) ∧
    ((List.finRange n_buckets).flatMap fun p => (table p).map HashEntry.key).Nodup
  count : hash.count = BitVec.ofNat 32 (∑ p, (hash.buckets p).used.toNat)
  total : ∀ p, (hash.buckets p).entries.length = (hash.buckets p).total.toNat
  used_lt_total : ∀ p, (hash.buckets p).used ≠ 0 → (hash.buckets p).used < (hash.buckets p).total

variable {ops}
variable {m : K → Option V} {table : Table K V} {hash : Hash K V}

theorem entry_eq_of_key {e f : HashEntry K V} (first : e ∈ entriesOf ops m) (second : f ∈ entriesOf ops m)
    (same : e.key = f.key) : e = f := by
  obtain ⟨v, stored, entry⟩ := mem_entriesOf.mp first
  obtain ⟨w, stored', entry'⟩ := mem_entriesOf.mp second
  rw [same, stored'] at stored
  rw [entry, entry', same, Option.some.inj stored]

theorem wf_of_sim (sim : Sim ops hash table m) : hash.Wf := by
  refine ⟨⟨table, fun p => read_of_holds (sim.holds p), ?_⟩, ?_, fun p => (sim.holds p).total, ?_⟩
  · rw [List.nodup_flatMap]
    constructor
    · intro p _
      apply (sim.spread.nodup p).map_on
      intro e first f second
      exact entry_eq_of_key (sim.spread.mem first) (sim.spread.mem second)
    · apply (List.nodup_finRange n_buckets).imp
      intro p q other key first second
      obtain ⟨e, listed, rfl⟩ := List.mem_map.mp first
      obtain ⟨f, listed', same⟩ := List.mem_map.mp second
      obtain rfl := entry_eq_of_key (sim.spread.mem listed') (sim.spread.mem listed) same
      exact sim.spread.not_mem other listed listed'
  · have used : (fun p => (hash.buckets p).used.toNat) = fun p => (table p).length :=
      funext fun p => (sim.holds p).used
    rw [used]
    exact sim.count
  · intro p some
    have used := (sim.holds p).used
    have entries : table p ≠ [] := by
      intro none
      rw [none] at used
      exact some (BitVec.eq_of_toNat_eq used)
    rw [BitVec.lt_def, used]
    exact (sim.holds p).room entries

theorem run_append (hash : Hash K V) (first second : List (Call K V)) :
    run ops hash (first ++ second) =
      (run ops hash first).bind fun r => (run ops r.1 second).map fun rest => (rest.1, r.2 ++ rest.2) := by
  induction first generalizing hash with
  | nil =>
    rw [List.nil_append, run, Option.bind_some]
    cases run ops hash second with
    | none => rfl
    | some r => rfl
  | cons call first ih =>
    rw [List.cons_append, run, run]
    cases step ops hash call with
    | none => rfl
    | some r =>
      rw [Option.bind_some, Option.bind_some, ih]
      cases run ops r.1 first with
      | none => rfl
      | some t =>
        rw [Option.bind_some, Option.map_some, Option.bind_some]
        cases run ops t.1 second with
        | none => rfl
        | some u => rfl

variable [DecidableEq K]

theorem run_refines (sim : Sim ops hash table m) {calls : List (Call K V)} (fits : RunFits ops hash calls) :
    ∃ hash' replies table' m', run ops hash calls = some (hash', replies) ∧ MapRun m calls replies m' ∧
      Sim ops hash' table' m' := by
  induction calls generalizing hash table m with
  | nil => exact ⟨hash, [], table, m, rfl, .nil m, sim⟩
  | cons call calls ih =>
    obtain ⟨hash', reply, table', m', taken, next, after, -⟩ := step_refines sim fits.1
    obtain ⟨hash'', replies, table'', m'', ran, rest, last⟩ := ih after (fits.2 hash' reply taken)
    refine ⟨hash'', reply :: replies, table'', m'', ?_, .cons next rest, last⟩
    rw [run, taken, Option.bind_some, ran]
    rfl

/-- A run that is too short for a bucket to come to the limit. -/
theorem runFits_of_length (sim : Sim ops hash table m) {calls : List (Call K V)}
    (short : ∀ p, (table p).length + calls.length ≤ bucketMost) : RunFits ops hash calls := by
  induction calls generalizing hash table m with
  | nil => trivial
  | cons call calls ih =>
    have fits : Fits ops hash call := by
      intro key _ _
      rw [(sim.holds _).used]
      exact Nat.lt_of_lt_of_le (Nat.lt_add_of_pos_right (Nat.succ_pos _)) (short (pos (ops.hash_value key)))
    refine ⟨fits, ?_⟩
    intro hash' reply taken
    obtain ⟨hash'', reply', table', m', taken', -, after, lengths⟩ := step_refines sim fits
    obtain ⟨rfl, rfl⟩ := Prod.mk.inj (Option.some.inj (taken.symm.trans taken'))
    apply ih after
    intro p
    have one := lengths p
    have room := short p
    rw [List.length_cons] at room
    omega

/-- **The table refines a map**: every sequence of calls that fits is defined, returns what a
map returns, and leaves a well-formed table. -/
theorem hash_refines_map (ops : KeyFunctions K) (calls : List (Call K V)) (fits : RunFits ops Hash.new calls) :
    ∃ hash replies m, run ops Hash.new calls = some (hash, replies) ∧ MapRun (fun _ => none) calls replies m ∧
      hash.Wf := by
  obtain ⟨hash, replies, table, m, ran, spec, sim⟩ := run_refines sim_new fits
  exact ⟨hash, replies, m, ran, spec, wf_of_sim sim⟩

/-! ## One bucket for all keys -/

/-- Every key has the same hash. -/
def oneBucket : KeyFunctions Nat :=
  { hash_value := fun _ => 0
    key_compare := fun a b => a - b
    compare_eq := fun a b => by omega }

/-- A key added and refused the second time, another one added for which no memory can be had, and none is needed; the
first deleted, and the other looked for. -/
def fiveCalls : List (Call Nat Nat) :=
  [.add 3 30 false, .add_unique 3 31 false, .add 4 40 true, .del 3 false, .find 4]

theorem hash_refines_map_five :
    ∃ hash replies m, run oneBucket Hash.new fiveCalls = some (hash, replies) ∧
      MapRun (fun _ => none) fiveCalls replies m ∧ hash.Wf :=
  hash_refines_map oneBucket fiveCalls (runFits_of_length sim_new fun _ => by decide)

/-- The first `n` numbers as keys. -/
def addNumbers (n : Nat) : List (Call Nat Unit) := (List.range n).map fun key => .add key () false

/-- They all go to the bucket 0. -/
theorem run_addNumbers (n : Nat) (most : n ≤ bucketMost) :
    ∃ hash replies table m, run oneBucket Hash.new (addNumbers n) = some (hash, replies) ∧
      Sim oneBucket hash table m ∧ (table (pos 0)).length = n ∧ ∀ key, n ≤ key → m key = none := by
  induction n with
  | zero => exact ⟨Hash.new, [], _, _, rfl, sim_new, rfl, fun _ _ => rfl⟩
  | succ n ih =>
    obtain ⟨hash, replies, table, m, ran, sim, length, absent⟩ := ih (Nat.le_of_succ_le most)
    have holds := sim.holds (pos 0)
    rcases grow_of_holds holds (by omega) false with ⟨-, failed⟩ | ⟨bucket, grown, here, room⟩
    · exact absurd failed Bool.false_ne_true
    · obtain ⟨hash', put, after⟩ := hash_put_absent sim grown here room (absent n (Nat.le_refl n)) false ()
      have added : step oneBucket hash (.add n () false) = some (hash', .ret 0 none) := by
        rw [step, hash_add, put]
        rfl
      refine ⟨hash', replies ++ [.ret 0 none], _, _, ?_, after, ?_, ?_⟩
      · rw [addNumbers, List.range_succ, List.map_append, run_append, ← addNumbers, ran, Option.bind_some,
          List.map_singleton, run, added]
        rfl
      · show (Function.update table (pos 0) (table (pos 0) ++ _) (pos 0)).length = n + 1
        rw [Function.update_self, List.length_append, length]
        rfl
      · intro key later
        rw [Function.update_of_ne (by omega)]
        exact absent key (by omega)

/-- One more key than `bucketMost`: the new total of the bucket is 0, and its array is freed. -/
theorem hash_add_overflows : run oneBucket Hash.new (addNumbers (bucketMost + 1)) = none := by
  obtain ⟨hash, replies, table, m, ran, sim, length, -⟩ := run_addNumbers bucketMost (Nat.le_refl _)
  have limit : step oneBucket hash (.add bucketMost () false) = none := by
    have grown : (hash.buckets (pos (oneBucket.hash_value bucketMost))).grow false = none :=
      grow_at_limit (sim.holds (pos 0)) length false
    rw [step, hash_add]
    simp only [hash_put, grown, Option.bind_eq_bind, Option.bind_none, Option.map_none]
  rw [addNumbers, List.range_succ, List.map_append, run_append, ← addNumbers, ran, Option.bind_some,
    List.map_singleton, run, limit]
  rfl

end MapRuns

end CodeClips.Lwan
