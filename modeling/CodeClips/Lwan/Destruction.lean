import CodeClips.Lwan.Iteration

/-!
# `hash_free`

The calls that `hash_free` makes, in their order. The loop over the entries of a bucket is made only
where there is a `free_value`, and `free_key` is called in it: without a `free_value` the keys of a
table are not freed.
-/

namespace CodeClips.Lwan

section Destruction
variable {K V : Type}

/-- A call: of one of the two functions, or of `free` for the array of a bucket and for the table. -/
inductive Release (K V : Type) where
  | value (value : V)
  | key (key : K)
  | entries (bucket : Fin n_buckets)
  | table

def Release.value? : Release K V → Option V
  | .value v => some v
  | _ => none

def Release.key? : Release K V → Option K
  | .key k => some k
  | _ => none

def Release.entries? : Release K V → Option (Fin n_buckets)
  | .entries bucket => some bucket
  | _ => none

section Functions
variable (free_key free_value : Bool)

/-- What is called for a bucket; whether there is a function is a `Bool`. -/
def HashBucket.free (p : Fin n_buckets) (bucket : HashBucket K V) : Option (List (Release K V)) := do
  let entries ← if free_value then bucket.read else some []
  let released := entries.flatMap fun entry => .value entry.value :: if free_key then [.key entry.key] else []
  some (released ++ [.entries p])

/-- `NULL` is `none`. -/
def hash_free : Option (Hash K V) → Option (List (Release K V))
  | none => some []
  | some hash => do
    let released ← (List.finRange n_buckets).mapM fun p => (hash.buckets p).free free_key free_value p
    some (released.flatten ++ [.table])

/-- Each function that there is is called once for each pair, and the array of each bucket is freed once. -/
structure FreesOnce (entries : List (K × V)) (released : List (Release K V)) : Prop where
  keys : (released.filterMap Release.key?).Perm (if free_key then entries.map Prod.fst else [])
  values : (released.filterMap Release.value?).Perm (if free_value then entries.map Prod.snd else [])
  arrays : (released.filterMap Release.entries?).Perm (List.finRange n_buckets)

end Functions

/-- The pairs of a map, each once. -/
structure Lists (m : K → Option V) (entries : List (K × V)) : Prop where
  keys : (entries.map Prod.fst).Nodup
  mem_iff : ∀ key value, (key, value) ∈ entries ↔ m key = some value

variable {ops : KeyFunctions K} {hash : Hash K V} {table : Table K V} {m : K → Option V} {free_key free_value : Bool}

/-! ## Tables that a run leads to -/

theorem lists_stored (sim : Sim ops hash table m) : Lists m (stored table) := by
  constructor
  · obtain ⟨table', reads, nodup⟩ := (wf_of_sim sim).keys
    have same : table' = table := funext fun p => Option.some.inj ((reads p).symm.trans (read_of_holds (sim.holds p)))
    have keys : (stored table).map Prod.fst = (List.finRange n_buckets).flatMap fun p => (table p).map HashEntry.key := by
      simp only [stored, pairs, List.map_flatMap, List.map_map]
      rfl
    rw [keys, ← same]
    exact nodup
  · intro key value
    simp only [stored, pairs, List.mem_flatMap, List.mem_finRange, true_and, List.mem_map, Prod.mk.injEq]
    constructor
    · rintro ⟨p, entry, listed, rfl, rfl⟩
      exact (sim.spread.mem listed).2
    · intro present
      have member : entryOf ops key value ∈ entriesOf ops m := ⟨rfl, present⟩
      exact ⟨_, _, sim.spread.mem_place member, rfl, rfl⟩

/-- A bucket is never beyond the limit. -/
theorem length_le_bucketMost {bucket : HashBucket K V} {entries : List (HashEntry K V)} (holds : bucket.Holds entries) :
    entries.length ≤ bucketMost := by
  obtain ⟨k, steps⟩ := holds.steps
  have most := bucket.total.isLt
  by_cases none : entries = []
  · rw [none]
    exact Nat.zero_le _
  · have room := holds.room none
    rw [bucketMost]
    omega

/-- A call that is defined adds no entry to a bucket at the limit. -/
theorem fits_of_step (sim : Sim ops hash table m) {call : Call K V} {result : Hash K V × Reply K V}
    (taken : step ops hash call = some result) : Fits ops hash call := by
  intro key fails adds
  have holds := sim.holds (pos (ops.hash_value key))
  apply Nat.lt_of_le_of_ne (by rw [holds.used]; exact length_le_bucketMost holds)
  intro full
  have limit := grow_at_limit holds (holds.used.symm.trans full) fails
  cases call with
  | add key' value fails' =>
    cases adds
    simp [step, hash_add, hash_put, limit] at taken
  | add_unique key' value fails' =>
    cases adds
    simp [step, hash_add_unique, hash_put, limit] at taken
  | del key' fails' => cases adds
  | find key' => cases adds

theorem runFits_of_run [DecidableEq K] (sim : Sim ops hash table m) {calls : List (Call K V)}
    {result : Hash K V × List (Reply K V)} (ran : run ops hash calls = some result) : RunFits ops hash calls := by
  induction calls generalizing hash table m result with
  | nil => trivial
  | cons call calls ih =>
    obtain ⟨⟨hash', reply⟩, taken, rest⟩ := Option.bind_eq_some_iff.mp ran
    obtain ⟨last, ran', -⟩ := Option.map_eq_some_iff.mp rest
    have fits := fits_of_step sim taken
    obtain ⟨hash'', reply', table', m', taken', -, after, -⟩ := step_refines sim fits
    rw [taken] at taken'
    cases taken'
    refine ⟨fits, fun hash'' reply' again => ?_⟩
    rw [taken] at again
    cases again
    exact ih after ran'

/-! ## The calls -/

/-- What is called for the entries of a bucket. -/
def releases (free_key free_value : Bool) (entries : List (HashEntry K V)) (p : Fin n_buckets) : List (Release K V) :=
  (if free_value then entries.flatMap fun entry => .value entry.value :: if free_key then [.key entry.key] else []
    else []) ++ [.entries p]

theorem hash_free_eq (holds : ∀ p, (hash.buckets p).Holds (table p)) :
    hash_free free_key free_value (some hash) =
      some ((List.finRange n_buckets).flatMap (fun p => releases free_key free_value (table p) p) ++ [.table]) := by
  have each : ∀ p, (hash.buckets p).free free_key free_value p = some (releases free_key free_value (table p) p) := by
    intro p
    rw [HashBucket.free, read_of_holds (holds p), releases]
    cases free_value <;> rfl
  have all : (List.finRange n_buckets).mapM (fun p => some (releases free_key free_value (table p) p)) =
      some ((List.finRange n_buckets).map fun p => releases free_key free_value (table p) p) := List.mapM_pure
  rw [hash_free]
  simp only [each]
  rw [all, Option.bind_eq_bind, Option.bind_some, List.flatMap_def]

theorem fst_pairs (entries : List (HashEntry K V)) :
    (pairs entries).map Prod.fst = entries.flatMap fun entry => [entry.key] := by
  rw [pairs, List.map_map, List.map_eq_flatMap]
  rfl

theorem snd_pairs (entries : List (HashEntry K V)) :
    (pairs entries).map Prod.snd = entries.flatMap fun entry => [entry.value] := by
  rw [pairs, List.map_map, List.map_eq_flatMap]
  rfl

theorem keys_releases (entries : List (HashEntry K V)) (p : Fin n_buckets) :
    (releases free_key free_value entries p).filterMap Release.key? =
      if free_key && free_value then (pairs entries).map Prod.fst else [] := by
  rw [fst_pairs]
  cases free_value with
  | false => simp [releases, Release.key?]
  | true => cases free_key <;> simp [releases, Release.key?, List.filterMap_flatMap, List.filterMap_cons]

theorem values_releases (entries : List (HashEntry K V)) (p : Fin n_buckets) :
    (releases free_key free_value entries p).filterMap Release.value? =
      if free_value then (pairs entries).map Prod.snd else [] := by
  rw [snd_pairs]
  cases free_value with
  | false => rfl
  | true => cases free_key <;> simp [releases, Release.value?, List.filterMap_flatMap, List.filterMap_cons]

theorem entries_releases (entries : List (HashEntry K V)) (p : Fin n_buckets) :
    (releases free_key free_value entries p).filterMap Release.entries? = [p] := by
  cases free_value with
  | false => rfl
  | true => cases free_key <;> simp [releases, Release.entries?, List.filterMap_flatMap, List.filterMap_cons]

/-- The calls for a table are those for its buckets, of each kind. -/
theorem called_releases (table : Table K V) {A : Type} (f : Release K V → Option A) (table_none : f Release.table = none) :
    ((List.finRange n_buckets).flatMap (fun p => releases free_key free_value (table p) p) ++ [Release.table]).filterMap f =
      (List.finRange n_buckets).flatMap fun p => (releases free_key free_value (table p) p).filterMap f := by
  rw [List.filterMap_append, List.filterMap_flatMap, List.filterMap_cons_none table_none, List.filterMap_nil,
    List.append_nil]

/-- What is called for each bucket or for none. -/
theorem flatMap_stored (table : Table K V) {A : Type} (f : K × V → A) (called : Bool) :
    ((List.finRange n_buckets).flatMap fun p => if called then (pairs (table p)).map f else []) =
      if called then (stored table).map f else [] := by
  cases called with
  | false => simp
  | true =>
    rw [if_pos rfl, stored, List.map_flatMap]
    rfl

theorem keys_called (table : Table K V) :
    ((List.finRange n_buckets).flatMap (fun p => releases free_key free_value (table p) p) ++
      [Release.table]).filterMap Release.key? = if free_key && free_value then (stored table).map Prod.fst else [] := by
  rw [called_releases table Release.key? rfl]
  simp only [keys_releases, flatMap_stored]

/-- **The calls** for a table are right, whatever is in it, unless there is a `free_key` and no `free_value`. -/
theorem freesOnce_iff (holds : ∀ p, (hash.buckets p).Holds (table p)) :
    (∃ released, hash_free free_key free_value (some hash) = some released ∧
      FreesOnce free_key free_value (stored table) released) ↔
      (free_key = true → free_value = true ∨ stored table = []) := by
  rw [hash_free_eq holds]
  constructor
  · rintro ⟨released, same, keys, -⟩ has_key
    obtain rfl := Option.some.inj same
    subst has_key
    cases free_value with
    | true => exact .inl rfl
    | false =>
      rw [keys_called, Bool.and_false, if_neg (by decide), if_pos rfl] at keys
      exact .inr (List.map_eq_nil_iff.mp (List.nil_perm.mp keys))
  · intro fine
    refine ⟨_, rfl, ?_, ?_, ?_⟩
    · rw [keys_called]
      cases free_key with
      | false => exact .refl _
      | true =>
        rcases fine rfl with rfl | none
        · exact .refl _
        · rw [none]
          cases free_value <;> exact .refl _
    · rw [called_releases table Release.value? rfl]
      simp only [values_releases, flatMap_stored]
      exact .refl _
    · rw [called_releases table Release.entries? rfl]
      simp only [entries_releases, List.flatMap_singleton']
      exact .refl _

/-- After **any sequence of calls**, `hash_free` frees the pairs of the map and the arrays once, exactly if there is a
`free_value`, or no `free_key`, or nothing in the map. -/
theorem hash_free_right_iff [DecidableEq K] (ops : KeyFunctions K) {calls : List (Call K V)} {replies : List (Reply K V)}
    (ran : run ops Hash.new calls = some (hash, replies)) (free_key free_value : Bool) :
    ∃ m entries, MapRun (fun _ => none) calls replies m ∧ Lists m entries ∧
      ((∃ released, hash_free free_key free_value (some hash) = some released ∧
        FreesOnce free_key free_value entries released) ↔ (free_key = true → free_value = true ∨ entries = [])) := by
  obtain ⟨hash', replies', table, m, ran', spec, sim⟩ := run_refines sim_new (runFits_of_run sim_new ran)
  obtain ⟨rfl, rfl⟩ := Prod.mk.inj (Option.some.inj (ran.symm.trans ran'))
  exact ⟨m, stored table, spec, lists_stored sim, freesOnce_iff sim.holds⟩

/-- Both functions, after five calls. -/
theorem hash_free_right_iff_five :
    ∃ hash replies, run oneBucket Hash.new fiveCalls = some (hash, replies) ∧
      ∃ m entries, MapRun (fun _ => none) fiveCalls replies m ∧ Lists m entries ∧
        ((∃ released, hash_free true true (some hash) = some released ∧ FreesOnce true true entries released) ↔
          (true = true → true = true ∨ entries = [])) := by
  have fits : RunFits oneBucket Hash.new fiveCalls := runFits_of_length sim_new fun _ => by decide
  obtain ⟨hash, replies, table, m, ran, -⟩ := run_refines sim_new fits
  exact ⟨hash, replies, ran, hash_free_right_iff oneBucket ran true true⟩

/-- A table with one key, a `free_key` and no `free_value`: the key is not freed. -/
theorem hash_free_leaks :
    ∃ hash replies m entries, run oneBucket Hash.new (addNumbers 1) = some (hash, replies) ∧
      MapRun (fun _ => none) (addNumbers 1) replies m ∧ Lists m entries ∧
      ¬ ∃ released, hash_free true false (some hash) = some released ∧ FreesOnce true false entries released := by
  obtain ⟨hash, replies, table, m, ran, sim, length, -⟩ := run_addNumbers 1 (by decide)
  obtain ⟨hash', replies', table', m', ran', spec, sim'⟩ := run_refines sim_new (runFits_of_run sim_new ran)
  rw [ran] at ran'
  obtain ⟨rfl, rfl⟩ := Prod.mk.inj (Option.some.inj ran')
  refine ⟨hash, replies, m', stored table', ran, spec, lists_stored sim', fun right => ?_⟩
  rcases (freesOnce_iff sim'.holds).mp right rfl with has_value | none
  · cases has_value
  · have empty := List.flatMap_eq_nil_iff.mp none (pos 0) (List.mem_finRange _)
    have used := (sim.holds (pos 0)).used.symm.trans (sim'.holds (pos 0)).used
    rw [length, List.map_eq_nil_iff.mp empty] at used
    cases used

end Destruction

end CodeClips.Lwan
