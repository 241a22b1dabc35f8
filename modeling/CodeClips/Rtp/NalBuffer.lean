import CodeClips.Rtp.LostBytes

/-!
# What fits in `nal_buf`

`copy_nal_from_file` does not look at the size of `nal_buf`: it stores whatever the file holds
before the next start code. `payload` counts that in the file itself, and the call stays inside
the array exactly if this is at most its size (`copy_nal_bounded_iff`).
-/

namespace CodeClips.Rtp

/-- The bytes before the first start code that count: three zeros and the byte after them do
not, nor do zeros at the end of the file. -/
def payload (bs : List Byte) : Nat :=
  match bs with
  | [] => 0
  | b :: rest =>
    if [0, 0, 1] <+: b :: rest ∨ [0, 0, 0, 1] <+: b :: rest then 0
    else if [0, 0, 0] <+: b :: rest then payload (rest.drop 3)
    else if b :: rest = [0] ∨ b :: rest = [0, 0] then 0
    else payload rest + 1
termination_by bs.length
decreasing_by all_goals simp; try omega

/-- The call returns with at most `size` bytes in `buf`, and has stored nothing beyond. -/
def CopyBounded (size : Nat) (fp : List Byte) : Prop :=
  ∃ buf, buf.length ≤ size ∧
    (copy_nal_from_file size fp = .eof buf ∨ ∃ rest, copy_nal_from_file size fp = .nal buf rest)

/-! ## Counting -/

theorem payload_code (bs : List Byte) {p : Nat} (two : p = 2 ∨ p = 3) : payload (zeros p ++ 1 :: bs) = 0 := by
  rcases two with rfl | rfl
  · have code : [0, 0, 1] <+: (0 : Byte) :: 0 :: 1 :: bs := by simp [List.cons_prefix_cons]
    exact (payload.eq_2 0 (0 :: 1 :: bs)).trans (if_pos (.inl code))
  · have code : [0, 0, 0, 1] <+: (0 : Byte) :: 0 :: 0 :: 1 :: bs := by simp [List.cons_prefix_cons]
    exact (payload.eq_2 0 (0 :: 0 :: 1 :: bs)).trans (if_pos (.inr code))

theorem payload_zeros {p : Nat} (few : p ≤ 3) : payload (zeros p) = 0 := by
  interval_cases p <;> simp [zeros, List.replicate, payload]

theorem payload_loss (bs : List Byte) {b : Byte} (noCode : b ≠ 1) : payload (zeros 3 ++ b :: bs) = payload bs := by
  have other : ¬ (1#8 = b) := fun same => noCode same.symm
  have none : ¬ ([0, 0, 1] <+: (0 : Byte) :: 0 :: 0 :: b :: bs ∨ [0, 0, 0, 1] <+: (0 : Byte) :: 0 :: 0 :: b :: bs) := by
    simp [List.cons_prefix_cons, other]
  have three : [0, 0, 0] <+: (0 : Byte) :: 0 :: 0 :: b :: bs := by simp [List.cons_prefix_cons]
  exact (payload.eq_2 0 (0 :: 0 :: b :: bs)).trans (by rw [if_neg none, if_pos three]; rfl)

theorem payload_keep (bs : List Byte) {p : Nat} {b : Byte} (few : p < 3) (nonzero : b ≠ 0) (noCode : 2 ≤ p → b ≠ 1) :
    payload (zeros p ++ b :: bs) = p + 1 + payload bs := by
  have notZero : ¬ (0#8 = b) := fun same => nonzero same.symm
  have here : ¬ (b = 0#8) := nonzero
  interval_cases p
  · simp [zeros, List.replicate, payload, List.cons_prefix_cons, notZero, here]
    omega
  · simp [zeros, List.replicate, payload, List.cons_prefix_cons, notZero, here]
    omega
  · have other : ¬ (1#8 = b) := fun same => noCode (Nat.le_refl 2) same.symm
    simp [zeros, List.replicate, payload, List.cons_prefix_cons, notZero, here, other]
    omega

/-! ## The first buffer of a scan -/

/-- A scan adds to the buffer in progress what counts in the rest of the file. -/
theorem scan_payload (buf bs : List Byte) {p : Nat} (few : p ≤ 3) :
    ∃ first rest, scan (held p buf) bs = first :: rest ∧ first.length = buf.length + payload (zeros p ++ bs) := by
  induction bs generalizing p buf with
  | nil => exact ⟨buf, [], rfl, by rw [List.append_nil, payload_zeros few, Nat.add_zero]⟩
  | cons b bs ih =>
    cases agree buf bs b few with
    | code one two scanned split =>
      subst one
      exact ⟨buf, _, scanned, by rw [payload_code bs two, Nat.add_zero]⟩
    | zero none few' scanned =>
      subst none
      rw [scanned, zeros_succ]
      exact ih buf few'
    | keep nonzero few' noCode scanned split =>
      obtain ⟨first, rest, eq, length⟩ := ih (buf ++ zeros p ++ [b]) (Nat.zero_le 3)
      refine ⟨first, rest, scanned.trans eq, ?_⟩
      rw [length, payload_keep bs few' nonzero noCode]
      simp [zeros]
      omega
    | loss three noCode p' seg few' lost scanned split =>
      subst three
      obtain ⟨first, rest, eq, length⟩ := ih buf (Nat.zero_le 3)
      refine ⟨first, rest, scanned.trans eq, ?_⟩
      rw [length, payload_loss bs noCode]
      rfl

/-- The call ends inside the array exactly if the first buffer of the scan fits. -/
theorem copyLoop_overflow_iff {size : Nat} {s : ScanState} {fp first : List Byte} {rest : List (List Byte)}
    (room : s.buf.length ≤ size) (whole : scan s fp = first :: rest) :
    copyLoop size s fp = .overflow ↔ size < first.length := by
  induction fp generalizing s with
  | nil =>
    cases whole
    exact iff_of_false (by rintro ⟨⟩) (Nat.not_lt_of_le room)
  | cons b fp ih =>
    rw [scan] at whole
    rw [copyLoop]
    cases step : scanByte s b with
    | none =>
      rw [step] at whole
      cases whole
      exact iff_of_false (by rintro ⟨⟩) (Nat.not_lt_of_le room)
    | some s' =>
      rw [step] at whole
      dsimp only at whole ⊢
      split_ifs with fits
      · exact ih fits whole
      · exact iff_of_true rfl ((Nat.lt_of_not_le fits).trans_le (scan_head whole))

theorem copyBounded_iff (size : Nat) (fp : List Byte) : CopyBounded size fp ↔ payload fp ≤ size := by
  obtain ⟨first, rest, whole, length⟩ := scan_payload [] fp (Nat.zero_le 3)
  have start : scan .start fp = first :: rest := whole
  have counts : first.length = payload fp := length.trans (Nat.zero_add _)
  have beyond := copyLoop_overflow_iff (Nat.zero_le size) start
  have call := copyLoop_scan size .start fp (Nat.zero_le _)
  rw [counts, ← copy_nal_from_file] at beyond
  rw [← copy_nal_from_file] at call
  rw [CopyBounded, ← Nat.not_lt, ← beyond]
  cases result : copy_nal_from_file size fp with
  | nal buf rest =>
    rw [result] at call
    exact iff_of_true ⟨buf, call.2, .inr ⟨rest, rfl⟩⟩ (by rintro ⟨⟩)
  | eof buf =>
    rw [result] at call
    exact iff_of_true ⟨buf, call.2, .inl rfl⟩ (by rintro ⟨⟩)
  | overflow =>
    refine iff_of_false ?_ (not_not_intro rfl)
    rintro ⟨buf, -, ended | ⟨rest, ended⟩⟩
    · cases ended
    · cases ended

/-- **The bound on `nal_buf`** is kept exactly if what counts before the first start code fits. -/
theorem copy_nal_bounded_iff (fp : List Byte) :
    CopyBounded NAL_BUF_SIZE fp ↔ payload fp ≤ NAL_BUF_SIZE :=
  copyBounded_iff NAL_BUF_SIZE fp

theorem payload_replicate (n : Nat) {b : Byte} (nonzero : b ≠ 0) : payload (List.replicate n b) = n := by
  induction n with
  | zero => simp [payload]
  | succ n ih =>
    rw [List.replicate_succ]
    have kept : payload (b :: List.replicate n b) = 0 + 1 + payload (List.replicate n b) :=
      payload_keep _ (p := 0) (by decide) nonzero (fun two => absurd two (by decide))
    rw [kept, ih]
    omega

/-- A NAL of one byte more than `nal_buf` has. -/
theorem copy_nal_overflows : ¬ ∀ fp, CopyBounded NAL_BUF_SIZE fp := by
  intro always
  have bounded := always (List.replicate (NAL_BUF_SIZE + 1) 0x65)
  rw [copyBounded_iff, payload_replicate _ (by decide)] at bounded
  exact Nat.not_succ_le_self _ bounded

end CodeClips.Rtp
