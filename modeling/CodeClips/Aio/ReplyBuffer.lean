import CodeClips.Aio.FileBlocks

/-!
# The reply buffer and the block buffers

`total` blocks are asked for, one more than the whole blocks of the file. The buffer that they
are copied to has the size of the file, and `io_destroy_afdata` is called with the whole blocks
only. So when a block has completed at all, one buffer at least is not freed
(`freed_lt_submitted`), and when all have, the last is copied over the end
(`writesInside_all`).
-/

namespace CodeClips.Aio.FileBlocks

/-- The iocbs whose buffers `io_submit_read` allocates. -/
def submitted (st_size : Nat) : List Nat := List.range (total st_size).toNat

/-- The iocbs below `n` whose buffers `io_destroy_afdata` frees: those that have one. -/
def io_destroy_afdata (allocated : Nat → Bool) (n : Int) : List Nat := (List.range n.toNat).filter allocated

/-- `int n = filesize / BUFFSIZE`, and the call with it. -/
def freed (st_size : Nat) : List Nat :=
  io_destroy_afdata (fun i => i ∈ submitted st_size) ((filesize st_size).tdiv BUFFSIZE)

/-- The copies of `nbuf` buffers lie inside of what `malloc(filesize)` returns. It returns null
for a negative size. -/
def WritesInside (st_size nbuf : Nat) : Prop := ∀ i < nbuf, i * BUFFSIZE + BUFFSIZE ≤ (filesize st_size).toNat

/-- What the branch of the eventfd does to memory; `*nbuf` is the count it is read with. -/
structure ReplySafe (st_size : Nat) (c : Completions (total st_size).toNat) : Prop where
  inside : WritesInside st_size c.eval
  once : (freed st_size).Nodup
  all : (freed st_size).length = (submitted st_size).length

/-! ## Sizes as an `int` -/

theorem int_cases (n : Nat) :
    int n = (n % 2 ^ 32 : Nat) ∧ n % 2 ^ 32 < 2 ^ 31 ∨ int n = (n % 2 ^ 32 : Nat) - 2 ^ 32 ∧ 2 ^ 31 ≤ n % 2 ^ 32 := by
  rw [int, BitVec.toInt_eq_toNat_cond, BitVec.toNat_ofNat]
  split <;> omega

/-- For any size, also one that an `int` does not hold: where blocks are asked for at all, they
are more than the whole blocks of `filesize`. -/
theorem whole_lt_total {st_size : Nat} (some : 0 < total st_size) :
    (filesize st_size).tdiv BUFFSIZE < total st_size := by
  have size := int_cases st_size
  have blocks := int_cases (st_size / BUFFSIZE + 1)
  rw [total] at some ⊢
  rw [filesize]
  simp only [BUFFSIZE] at some blocks ⊢
  rcases size with ⟨value, small⟩ | ⟨value, large⟩
  · rw [value]
    have whole : ((st_size % 2 ^ 32 : Nat) : Int).tdiv (1024 : Nat) = (st_size % 2 ^ 32 / 1024 : Nat) := rfl
    rw [whole]
    omega
  · obtain ⟨k, negative⟩ : ∃ k : Nat, int st_size = -k := ⟨(-(int st_size)).toNat, by omega⟩
    have none : 0 ≤ (k : Int).tdiv (1024 : Nat) := Int.tdiv_nonneg (by omega) (by omega)
    rw [negative, Int.neg_tdiv]
    omega

/-! ## The two defects -/

section Reply
variable {st_size : Nat}

/-- No buffer is freed twice. -/
theorem freed_nodup (st_size : Nat) : (freed st_size).Nodup := List.nodup_range.filter _

/-- Fewer buffers are freed than were allocated. -/
theorem freed_lt_submitted (some : 0 < total st_size) : (freed st_size).length < (submitted st_size).length := by
  have fewer := whole_lt_total some
  have most : (freed st_size).length ≤ ((filesize st_size).tdiv BUFFSIZE).toNat := by
    have filtered := List.length_filter_le (fun i => decide (i ∈ submitted st_size))
      (List.range ((filesize st_size).tdiv BUFFSIZE).toNat)
    rwa [List.length_range] at filtered
  rw [submitted, List.length_range]
  omega

/-- The copies stay inside exactly if the completed blocks are whole blocks of the file. -/
theorem writesInside_iff (st_size nbuf : Nat) : WritesInside st_size nbuf ↔ nbuf * BUFFSIZE ≤ (filesize st_size).toNat := by
  constructor
  · intro inside
    cases nbuf with
    | zero => exact (Nat.zero_mul BUFFSIZE).le.trans (Nat.zero_le _)
    | succ k => exact (Nat.succ_mul k BUFFSIZE).le.trans (inside k (Nat.lt_succ_self k))
  · intro room i within
    have before : (i + 1) * BUFFSIZE ≤ nbuf * BUFFSIZE := Nat.mul_le_mul_right BUFFSIZE within
    rw [Nat.succ_mul] at before
    exact before.trans room

/-- When all blocks have completed, the copies do not stay inside. -/
theorem writesInside_all (some : 0 < total st_size) : ¬ WritesInside st_size (total st_size).toNat := by
  rw [writesInside_iff]
  have fewer := whole_lt_total some
  intro room
  have fits : 0 ≤ filesize st_size := by
    simp only [BUFFSIZE] at room
    omega
  obtain ⟨size, eq⟩ := Int.eq_ofNat_of_zero_le fits
  have whole : (filesize st_size).tdiv BUFFSIZE = (size / BUFFSIZE : Nat) := by
    rw [eq]
    rfl
  rw [whole] at fewer
  rw [eq] at room
  simp only [BUFFSIZE, Int.toNat_natCast] at room fewer
  omega

/-- Blocks that have completed were asked for. -/
theorem Completions.total_pos (c : Completions (total st_size).toNat) (notified : 0 < c.eval) : 0 < total st_size := by
  rw [← c.count, List.length_pos_iff_exists_mem] at notified
  obtain ⟨i, completed⟩ := notified
  obtain ⟨events, batch, listed⟩ := List.mem_flatten.mp completed
  have within := c.submitted events batch i listed
  omega

end Reply

/-- **The reply** is never assembled safely: whatever the size of the file, and whichever blocks
have completed, not all buffers are freed. -/
theorem reply_not_safe (st_size : Nat) (c : Completions (total st_size).toNat) (notified : 0 < c.eval) :
    ¬ ReplySafe st_size c ∧ (freed st_size).length < (submitted st_size).length ∧
      (c.eval = (total st_size).toNat → ¬ WritesInside st_size c.eval) := by
  have some := c.total_pos notified
  refine ⟨?_, freed_lt_submitted some, ?_⟩
  · intro safe
    exact (freed_lt_submitted some).ne safe.all
  · intro all
    rw [all]
    exact writesInside_all some

/-- A file of 1024 bytes: two blocks are asked for, and one is freed. -/
theorem reply_not_safe_1024 : 0 < oneByOne.eval ∧ ¬ ReplySafe 1024 oneByOne ∧
    (freed 1024).length < (submitted 1024).length ∧
      (oneByOne.eval = (total 1024).toNat → ¬ WritesInside 1024 oneByOne.eval) :=
  ⟨by decide, reply_not_safe 1024 oneByOne (by decide)⟩

theorem reply_overruns : ¬ ∀ (st_size : Nat) (c : Completions (total st_size).toNat), 0 < c.eval → ReplySafe st_size c := by
  intro safe
  have inside := (safe 1024 oneByOne (by decide)).inside
  have outside : ¬ WritesInside 1024 2 := @writesInside_all 1024 (by decide)
  exact outside inside

end CodeClips.Aio.FileBlocks
