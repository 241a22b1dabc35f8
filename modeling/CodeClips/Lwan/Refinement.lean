import CodeClips.Lwan.Bucket

/-!
# The table refines a map

`Sim` relates a table to a map: its buckets hold lists over which the entries of the map are
spread, each in the bucket of its hash. Every operation keeps it, and returns what the map does.
-/

namespace CodeClips.Lwan

section Refinement
variable {K V : Type} (ops : KeyFunctions K)

/-- The entry of a key. -/
def entryOf (key : K) (value : V) : HashEntry K V :=
  { key := key, value := value, hashval := ops.hash_value key }

/-- The entries of a map. -/
def entriesOf (m : K → Option V) : Set (HashEntry K V) :=
  {entry | entry.hashval = ops.hash_value entry.key ∧ m entry.key = some entry.value}

/-- The bucket of an entry. -/
def place (entry : HashEntry K V) : Fin n_buckets := pos entry.hashval

abbrev Table (K V : Type) : Type := Fin n_buckets → List (HashEntry K V)

/-- The number of entries. -/
def Table.size (table : Table K V) : Nat := ∑ p, (table p).length

structure Sim (hash : Hash K V) (table : Table K V) (m : K → Option V) : Prop where
  holds : ∀ p, (hash.buckets p).Holds (table p)
  spread : Spread place table (entriesOf ops m)
  count : hash.count = BitVec.ofNat 32 table.size

variable {ops}
variable {m : K → Option V} {table : Table K V} {hash : Hash K V} {key : K} {value : V}
variable {p : Fin n_buckets} {bucket : HashBucket K V}

theorem sim_new : Sim ops (Hash.new : Hash K V) (fun _ => []) (fun _ => none) := by
  refine ⟨fun _ => holds_new, ?_, ?_⟩
  · have empty : entriesOf ops (fun _ : K => (none : Option V)) = ∅ := by
      ext entry
      simp [entriesOf]
    rw [empty]
    exact spread_empty
  · simp [Table.size, Hash.new]

/-! ## Looking for a key -/

theorem mem_entriesOf {entry : HashEntry K V} :
    entry ∈ entriesOf ops m ↔ ∃ value, m entry.key = some value ∧ entry = entryOf ops entry.key value := by
  cases entry with
  | mk key value hashval => simp [entriesOf, entryOf]; tauto

theorem hit_iff {entry : HashEntry K V} (member : entry ∈ entriesOf ops m) :
    hit ops key (ops.hash_value key) entry = true ↔ entry.key = key := by
  simp only [hit, Bool.and_eq_true, decide_eq_true_eq, ops.compare_eq, member.1]
  constructor
  · rintro ⟨-, same⟩
    exact same.symm
  · rintro rfl
    exact ⟨rfl, rfl⟩

/-- An absent key is not found. -/
theorem findIdx_absent (spread : Spread place table (entriesOf ops m)) (absent : m key = none) :
    (table (pos (ops.hash_value key))).findIdx? (hit ops key (ops.hash_value key)) = none := by
  rw [List.findIdx?_eq_none_iff]
  intro entry listed
  have member := spread.mem listed
  rw [Bool.eq_false_iff, ne_eq, hit_iff member]
  rintro rfl
  exact absurd (absent.symm.trans member.2) (by simp)

/-- A key of the map is found, with its entry. -/
theorem findIdx_present (spread : Spread place table (entriesOf ops m)) (present : m key = some value) :
    ∃ i, (table (pos (ops.hash_value key))).findIdx? (hit ops key (ops.hash_value key)) = some i ∧
      (table (pos (ops.hash_value key)))[i]? = some (entryOf ops key value) := by
  have member : entryOf ops key value ∈ entriesOf ops m := ⟨rfl, present⟩
  have listed : entryOf ops key value ∈ table (pos (ops.hash_value key)) := spread.mem_place member
  cases found : (table (pos (ops.hash_value key))).findIdx? (hit ops key (ops.hash_value key)) with
  | none =>
    have missed := List.findIdx?_eq_none_iff.mp found _ listed
    rw [Bool.eq_false_iff, ne_eq, hit_iff member] at missed
    exact absurd rfl missed
  | some i =>
    obtain ⟨inside, hits, -⟩ := List.findIdx?_eq_some_iff_getElem.mp found
    have there := spread.mem (List.getElem_mem inside)
    obtain ⟨v, stored, entry⟩ := mem_entriesOf.mp there
    rw [hit_iff there] at hits
    rw [hits, present] at stored
    refine ⟨i, rfl, ?_⟩
    rw [List.getElem?_eq_getElem inside, entry, hits, ← Option.some.inj stored]

/-! ## Changing one bucket -/

theorem size_update (table : Table K V) (p : Fin n_buckets) (l : List (HashEntry K V)) :
    Table.size (Function.update table p l) + (table p).length = table.size + l.length := by
  have lengths : (fun q => (Function.update table p l q).length) =
      Function.update (fun q => (table q).length) p l.length := Function.comp_update List.length table p l
  rw [Table.size, lengths, Finset.sum_update_of_mem (Finset.mem_univ p), Table.size,
    ← Finset.add_sum_erase _ _ (Finset.mem_univ p), Finset.sdiff_singleton_eq_erase]
  omega

theorem holds_update {buckets : Fin n_buckets → HashBucket K V} {entries : List (HashEntry K V)}
    (holds : ∀ q, (buckets q).Holds (table q)) (here : bucket.Holds entries) (q : Fin n_buckets) :
    (Function.update buckets p bucket q).Holds (Function.update table p entries q) := by
  by_cases same : q = p
  · subst same
    rw [Function.update_self, Function.update_self]
    exact here
  · rw [Function.update_of_ne same, Function.update_of_ne same]
    exact holds q

/-- A bucket that holds the same entries. -/
theorem sim_regrown (sim : Sim ops hash table m) (here : bucket.Holds (table p)) :
    Sim ops { hash with buckets := Function.update hash.buckets p bucket } table m := by
  have holds := holds_update (p := p) sim.holds here
  rw [Function.update_eq_self] at holds
  exact ⟨holds, sim.spread, sim.count⟩

variable [DecidableEq K]

theorem entriesOf_add (absent : m key = none) (value : V) :
    entriesOf ops (Function.update m key (some value)) = insert (entryOf ops key value) (entriesOf ops m) := by
  ext entry
  rw [Set.mem_insert_iff, mem_entriesOf, mem_entriesOf]
  by_cases same : entry.key = key
  · rw [same, Function.update_self, absent]
    simp
  · rw [Function.update_of_ne same]
    constructor
    · exact .inr
    · rintro (rfl | other)
      · exact absurd rfl same
      · exact other

theorem entriesOf_del (present : m key = some value) :
    entriesOf ops (Function.update m key none) = entriesOf ops m \ {entryOf ops key value} := by
  ext entry
  rw [Set.mem_sdiff, Set.mem_singleton_iff, mem_entriesOf, mem_entriesOf]
  by_cases same : entry.key = key
  · rw [same, Function.update_self, present]
    simp
  · rw [Function.update_of_ne same]
    constructor
    · intro there
      refine ⟨there, ?_⟩
      rintro rfl
      exact same rfl
    · exact And.left

/-- A new entry behind the others of its bucket. -/
theorem sim_append (sim : Sim ops hash table m) (home : pos (ops.hash_value key) = p) (absent : m key = none)
    (here : bucket.Holds (table p ++ [entryOf ops key value])) :
    Sim ops { count := hash.count + 1, buckets := Function.update hash.buckets p bucket }
      (Function.update table p (table p ++ [entryOf ops key value])) (Function.update m key (some value)) := by
  refine ⟨holds_update sim.holds here, ?_, ?_⟩
  · rw [entriesOf_add absent]
    apply sim.spread.insert (e := entryOf ops key value) home
    · intro member
      exact absurd (absent.symm.trans member.2) (by simp)
    · exact List.perm_append_singleton _ _
  · have size := size_update table p (table p ++ [entryOf ops key value])
    rw [List.length_append, List.length_singleton] at size
    have one : Table.size (Function.update table p (table p ++ [entryOf ops key value])) = table.size + 1 := by
      omega
    rw [one, sim.count, BitVec.ofNat_add]
    rfl

/-- Its entry taken out of its bucket. -/
theorem sim_erase (sim : Sim ops hash table m) (home : pos (ops.hash_value key) = p) (present : m key = some value)
    {i : Nat} (there : (table p)[i]? = some (entryOf ops key value)) (here : bucket.Holds ((table p).eraseIdx i)) :
    Sim ops { count := hash.count - 1, buckets := Function.update hash.buckets p bucket }
      (Function.update table p ((table p).eraseIdx i)) (Function.update m key none) := by
  obtain ⟨inside, entry⟩ := List.getElem?_eq_some_iff.mp there
  refine ⟨holds_update sim.holds here, ?_, ?_⟩
  · rw [entriesOf_del present]
    apply sim.spread.erase (e := entryOf ops key value) home
    rw [← entry]
    exact (List.getElem_cons_eraseIdx_perm inside).symm
  · have size := size_update table p ((table p).eraseIdx i)
    rw [List.length_eraseIdx_of_lt inside] at size
    have one : table.size = Table.size (Function.update table p ((table p).eraseIdx i)) + 1 := by omega
    rw [sim.count, one, BitVec.ofNat_add]
    exact BitVec.add_sub_cancel _ _

/-- Its entry overwritten. -/
theorem sim_set (sim : Sim ops hash table m) (home : pos (ops.hash_value key) = p) (present : m key = some value)
    {i : Nat} (there : (table p)[i]? = some (entryOf ops key value)) (new : V)
    (here : bucket.Holds ((table p).set i (entryOf ops key new))) :
    Sim ops { hash with buckets := Function.update hash.buckets p bucket }
      (Function.update table p ((table p).set i (entryOf ops key new))) (Function.update m key (some new)) := by
  obtain ⟨inside, entry⟩ := List.getElem?_eq_some_iff.mp there
  refine ⟨holds_update sim.holds here, ?_, ?_⟩
  · -- the old entry is taken out, then the new one put in
    have out : (table p).Perm (entryOf ops key value :: (table p).eraseIdx i) := by
      rw [← entry]
      exact (List.getElem_cons_eraseIdx_perm inside).symm
    have without := sim.spread.erase (e := entryOf ops key value) home out
    rw [← entriesOf_del present] at without
    have absent : Function.update m key none key = none := Function.update_self key none m
    have fresh : entryOf ops key new ∉ entriesOf ops (Function.update m key none) := by
      intro member
      exact absurd (absent.symm.trans member.2) (by simp)
    have back : ((table p).set i (entryOf ops key new)).Perm
        (entryOf ops key new :: Function.update table p ((table p).eraseIdx i) p) := by
      rw [Function.update_self]
      exact List.set_perm_cons_eraseIdx inside _
    have within := without.insert (e := entryOf ops key new) home fresh back
    rw [← entriesOf_add absent, Function.update_idem, Function.update_idem] at within
    exact within
  · have size := size_update table p ((table p).set i (entryOf ops key new))
    rw [List.length_set] at size
    have same : Table.size (Function.update table p ((table p).set i (entryOf ops key new))) = table.size := by omega
    rw [same]
    exact sim.count

end Refinement

end CodeClips.Lwan
