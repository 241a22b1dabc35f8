import CodeClips.Lwan.Refinement

/-!
# Each operation on a table that stands for a map

`Call.spec` is what a call does to a map and returns. `step_refines` says that a call on a table
does the same to the map the table stands for, unless memory fails in an add.
-/

namespace CodeClips.Lwan

section Operations
variable {K V : Type} {ops : KeyFunctions K}
variable {m : K → Option V} {table : Table K V} {hash : Hash K V} {key : K} {value : V}
variable {bucket : HashBucket K V} {fails : Bool}

/-! ## Calls that leave the map -/

/-- Where the bucket cannot grow, nothing is put into it. -/
theorem hash_put_fails (unique : Bool) (grown : (hash.buckets (pos (ops.hash_value key))).grow fails = some none) :
    hash_put ops unique hash key value fails = some (hash, { ret := -ENOMEM, freed := none }) := by
  simp only [hash_put, grown, Option.bind_eq_bind, Option.bind_some]

/-- `add_unique` of a key that is there: the bucket may have grown, and has the same entries. -/
theorem hash_put_refused (sim : Sim ops hash table m)
    (grown : (hash.buckets (pos (ops.hash_value key))).grow fails = some (some bucket))
    (here : bucket.Holds (table (pos (ops.hash_value key)))) {old : V} (present : m key = some old) (value : V) :
    ∃ hash', hash_put ops true hash key value fails = some (hash', { ret := -EEXIST, freed := none }) ∧
      Sim ops hash' table m := by
  obtain ⟨i, found, -⟩ := findIdx_present sim.spread present
  refine ⟨_, ?_, sim_regrown sim here⟩
  simp only [hash_put, grown, read_of_holds here, found, Option.bind_eq_bind, Option.bind_some]
  rfl

/-- The search of a key that is not there. -/
theorem hash_find_entry_absent (sim : Sim ops hash table m) (absent : m key = none) :
    hash_find_entry ops hash key (ops.hash_value key) = some none := by
  simp only [hash_find_entry, read_of_holds (sim.holds _), findIdx_absent sim.spread absent, Option.bind_eq_bind,
    Option.bind_some, Option.bind_none]

/-- The search finds the entry of the key at its place. -/
theorem hash_find_entry_present (sim : Sim ops hash table m) (present : m key = some value) :
    ∃ i, hash_find_entry ops hash key (ops.hash_value key) = some (some (i, entryOf ops key value)) ∧
      (table (pos (ops.hash_value key)))[i]? = some (entryOf ops key value) := by
  obtain ⟨i, found, there⟩ := findIdx_present sim.spread present
  refine ⟨i, ?_, there⟩
  simp only [hash_find_entry, read_of_holds (sim.holds _), found, there, Option.bind_eq_bind, Option.bind_some,
    Option.map_some]

/-- A lookup returns what the map has. -/
theorem hash_find_eq (sim : Sim ops hash table m) (key : K) : hash_find ops hash key = some (m key) := by
  cases stored : m key with
  | none =>
    rw [hash_find, hash_find_entry_absent sim stored]
    rfl
  | some value =>
    obtain ⟨i, found, -⟩ := hash_find_entry_present sim stored
    rw [hash_find, found]
    rfl

/-- A key that is not there cannot be deleted. -/
theorem hash_del_absent (sim : Sim ops hash table m) (absent : m key = none) (fails : Bool) :
    hash_del ops hash key fails = some (hash, { ret := -ENOENT, freed := none }) := by
  simp only [hash_del, hash_find_entry_absent sim absent, Option.bind_eq_bind, Option.bind_some]

/-- No bucket has more than one entry more than before. -/
theorem length_update_le (table : Table K V) {p : Fin n_buckets} {l : List (HashEntry K V)}
    (one : l.length ≤ (table p).length + 1) (q : Fin n_buckets) :
    (Function.update table p l q).length ≤ (table q).length + 1 := by
  by_cases here : q = p
  · subst here
    rw [Function.update_self]
    exact one
  · rw [Function.update_of_ne here]
    exact Nat.le_succ _

/-! ## Calls that change it -/

variable [DecidableEq K]

/-- A new key comes behind the entries of its bucket. -/
theorem hash_put_absent (sim : Sim ops hash table m)
    (grown : (hash.buckets (pos (ops.hash_value key))).grow fails = some (some bucket))
    (here : bucket.Holds (table (pos (ops.hash_value key))))
    (room : (table (pos (ops.hash_value key))).length + 1 < bucket.total.toNat) (absent : m key = none)
    (unique : Bool) (value : V) :
    ∃ hash', hash_put ops unique hash key value fails = some (hash', { ret := 0, freed := none }) ∧
      Sim ops hash' (Function.update table (pos (ops.hash_value key))
        (table (pos (ops.hash_value key)) ++ [entryOf ops key value])) (Function.update m key (some value)) := by
  obtain ⟨inside, appended⟩ := holds_append here room (entryOf ops key value)
  refine ⟨_, ?_, sim_append sim rfl absent appended⟩
  simp only [hash_put, grown, read_of_holds here, findIdx_absent sim.spread absent, if_pos inside,
    Option.bind_eq_bind, Option.bind_some]
  rfl

/-- The entry of the key is overwritten, and the old one is what is to be freed. -/
theorem hash_put_replaces (sim : Sim ops hash table m)
    (grown : (hash.buckets (pos (ops.hash_value key))).grow fails = some (some bucket))
    (here : bucket.Holds (table (pos (ops.hash_value key)))) {old : V} (present : m key = some old) (value : V) :
    ∃ hash' i, hash_put ops false hash key value fails =
        some (hash', { ret := 0, freed := some (entryOf ops key old) }) ∧
      Sim ops hash' (Function.update table (pos (ops.hash_value key))
        ((table (pos (ops.hash_value key))).set i (entryOf ops key value))) (Function.update m key (some value)) := by
  obtain ⟨i, found, there⟩ := findIdx_present sim.spread present
  have inside : i < (table (pos (ops.hash_value key))).length := (List.getElem?_eq_some_iff.mp there).1
  refine ⟨_, i, ?_, sim_set sim rfl present there value (holds_set here inside _)⟩
  simp only [hash_put, grown, read_of_holds here, found, there, Option.bind_eq_bind, Option.bind_some]
  rfl

/-- The entry of the key is taken out of its bucket, and is what is to be freed. -/
theorem hash_del_present (sim : Sim ops hash table m) (present : m key = some value) (fails : Bool) :
    ∃ hash' i, hash_del ops hash key fails = some (hash', { ret := 0, freed := some (entryOf ops key value) }) ∧
      Sim ops hash' (Function.update table (pos (ops.hash_value key))
        ((table (pos (ops.hash_value key))).eraseIdx i)) (Function.update m key none) := by
  obtain ⟨i, found, there⟩ := hash_find_entry_present sim present
  obtain ⟨fits, deleted⟩ := holds_delete (sim.holds _) (List.getElem?_eq_some_iff.mp there).1
  refine ⟨_, i, ?_, sim_erase sim rfl present there (holds_shrink deleted fails)⟩
  simp only [hash_del, found, if_pos fits, Option.bind_eq_bind, Option.bind_some]

/-! ## A call -/

/-- The calls, with whether the memory that they ask for is refused. -/
inductive Call (K V : Type) where
  | add (key : K) (value : V) (fails : Bool)
  | add_unique (key : K) (value : V) (fails : Bool)
  | del (key : K) (fails : Bool)
  | find (key : K)

/-- What a call returns, and the key and value it has freed. -/
inductive Reply (K V : Type) where
  | ret (n : Int) (freed : Option (K × V))
  | value (v : Option V)

def Answer.reply (answer : Answer K V) : Reply K V :=
  .ret answer.ret (answer.freed.map fun entry => (entry.key, entry.value))

/-- A call on the table, where it does not do what is undefined. -/
def step (ops : KeyFunctions K) (hash : Hash K V) : Call K V → Option (Hash K V × Reply K V)
  | .add key value fails => (hash_add ops hash key value fails).map fun r => (r.1, r.2.reply)
  | .add_unique key value fails => (hash_add_unique ops hash key value fails).map fun r => (r.1, r.2.reply)
  | .del key fails => (hash_del ops hash key fails).map fun r => (r.1, r.2.reply)
  | .find key => (hash_find ops hash key).map fun v => (hash, .value v)

/-- The map after a call, and what is returned. -/
def Call.spec (m : K → Option V) : Call K V → (K → Option V) × Reply K V
  | .add key value _ => (Function.update m key (some value), .ret 0 ((m key).map (key, ·)))
  | .add_unique key value _ =>
    if (m key).isSome then (m, .ret (-EEXIST) none) else (Function.update m key (some value), .ret 0 none)
  | .del key _ =>
    if (m key).isSome then (Function.update m key none, .ret 0 ((m key).map (key, ·)))
    else (m, .ret (-ENOENT) none)
  | .find key => (m, .value (m key))

/-- The key an add is called with, and whether its reallocation fails. -/
def Call.adds : Call K V → Option (K × Bool)
  | .add key _ fails => some (key, fails)
  | .add_unique key _ fails => some (key, fails)
  | .del _ _ => none
  | .find _ => none

/-- A call on the map: it does what `spec` says, or it is an add without memory and changes
nothing. -/
def MapStep (m : K → Option V) (call : Call K V) (m' : K → Option V) (reply : Reply K V) : Prop :=
  (m', reply) = call.spec m ∨ ((∃ key, call.adds = some (key, true)) ∧ m' = m ∧ reply = .ret (-ENOMEM) none)

/-- No entry is added to a bucket that is at the limit. -/
def Fits (ops : KeyFunctions K) (hash : Hash K V) (call : Call K V) : Prop :=
  ∀ key fails, call.adds = some (key, fails) → (hash.buckets (pos (ops.hash_value key))).used.toNat < bucketMost

/-- Whatever `hash_put` does is a step of the map. -/
theorem put_refines (sim : Sim ops hash table m) (key : K) (value : V) (fails : Bool)
    (small : (hash.buckets (pos (ops.hash_value key))).used.toNat < bucketMost) (unique : Bool) :
    ∃ hash' answer table' m', hash_put ops unique hash key value fails = some (hash', answer) ∧
      MapStep m (if unique then .add_unique key value fails else .add key value fails) m' answer.reply ∧
      Sim ops hash' table' m' ∧ ∀ p, (table' p).length ≤ (table p).length + 1 := by
  have holds := sim.holds (pos (ops.hash_value key))
  rw [holds.used] at small
  rcases grow_of_holds holds small fails with ⟨grown, failed⟩ | ⟨bucket, grown, here, room⟩
  · -- no memory
    refine ⟨_, _, table, m, hash_put_fails unique grown, .inr ⟨⟨key, ?_⟩, rfl, rfl⟩, sim, fun _ => Nat.le_succ _⟩
    cases unique with
    | false => rw [failed]; rfl
    | true => rw [failed]; rfl
  · cases stored : m key with
    | none =>
      obtain ⟨hash', put, after⟩ := hash_put_absent sim grown here room stored unique value
      refine ⟨_, _, _, _, put, .inl ?_, after, length_update_le table (by simp)⟩
      cases unique with
      | false => simp [Call.spec, stored, Answer.reply]
      | true => simp [Call.spec, stored, Answer.reply]
    | some old =>
      cases unique with
      | true =>
        obtain ⟨hash', put, after⟩ := hash_put_refused sim grown here stored value
        refine ⟨_, _, _, _, put, .inl ?_, after, fun _ => Nat.le_succ _⟩
        simp [Call.spec, stored, Answer.reply]
      | false =>
        obtain ⟨hash', i, put, after⟩ := hash_put_replaces sim grown here stored value
        refine ⟨_, _, _, _, put, .inl ?_, after, length_update_le table (by simp)⟩
        simp [Call.spec, stored, Answer.reply, entryOf]

/-- **A call on the table is a call on its map.** -/
theorem step_refines (sim : Sim ops hash table m) {call : Call K V} (fits : Fits ops hash call) :
    ∃ hash' reply table' m', step ops hash call = some (hash', reply) ∧ MapStep m call m' reply ∧
      Sim ops hash' table' m' ∧ ∀ p, (table' p).length ≤ (table p).length + 1 := by
  cases call with
  | add key value fails =>
    obtain ⟨hash', answer, table', m', put, spec, after, lengths⟩ :=
      put_refines sim key value fails (fits key fails rfl) false
    refine ⟨hash', answer.reply, table', m', ?_, spec, after, lengths⟩
    rw [step, hash_add, put]
    rfl
  | add_unique key value fails =>
    obtain ⟨hash', answer, table', m', put, spec, after, lengths⟩ :=
      put_refines sim key value fails (fits key fails rfl) true
    refine ⟨hash', answer.reply, table', m', ?_, spec, after, lengths⟩
    rw [step, hash_add_unique, put]
    rfl
  | del key fails =>
    cases stored : m key with
    | none =>
      refine ⟨hash, .ret (-ENOENT) none, table, m, ?_, .inl ?_, sim, fun _ => Nat.le_succ _⟩
      · rw [step, hash_del_absent sim stored fails]
        rfl
      · simp [Call.spec, stored]
    | some value =>
      obtain ⟨hash', i, deleted, after⟩ := hash_del_present sim stored fails
      have shorter : ((table (pos (ops.hash_value key))).eraseIdx i).length ≤
          (table (pos (ops.hash_value key))).length + 1 :=
        Nat.le_succ_of_le (List.length_eraseIdx_le _ i)
      refine ⟨hash', .ret 0 (some (key, value)), _, _, ?_, .inl ?_, after, length_update_le table shorter⟩
      · rw [step, deleted]
        rfl
      · simp [Call.spec, stored]
  | find key =>
    refine ⟨hash, _, table, m, ?_, .inl rfl, sim, fun _ => Nat.le_succ _⟩
    rw [step, hash_find_eq sim key]
    rfl

end Operations

end CodeClips.Lwan
