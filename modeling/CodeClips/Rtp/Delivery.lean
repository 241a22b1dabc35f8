import CodeClips.Rtp.LostBytes
import Mathlib.Data.List.Infix

/-!
# Delivery of an Annex-B file

A well-formed file is a list of NALs, each behind a start code. Its segments are nothing,
before the first start code, and then the NALs (`splitNal_annexBFile`). The loop of `main`
hands over the first of these, which is empty, and never the last, since the call that reads
it returns -1 (`never_delivered`). `delivered_iff` says when it hands over the others.
-/

namespace CodeClips.Rtp

/-- A NAL of a well-formed file, with the length of its start code. -/
structure FileNal where
  fourBytes : Bool
  bytes : List Byte
  nonempty : bytes ≠ []
  short : bytes.length < NAL_BUF_SIZE
  noCode : ¬ [0, 0, 1] <:+: bytes
  noZero : bytes.getLast? ≠ some 0

def FileNal.lead (nal : FileNal) : List Byte := if nal.fourBytes then [0, 0, 0, 1] else [0, 0, 1]

/-- The file that holds the NALs. -/
def annexBFile (nals : List FileNal) : List Byte := nals.flatMap fun nal => nal.lead ++ nal.bytes

theorem annexBFile_cons (nal : FileNal) (nals : List FileNal) :
    annexBFile (nal :: nals) = nal.lead ++ (nal.bytes ++ annexBFile nals) := by
  simp [annexBFile]

/-! ## The segments of the file -/

theorem splitNal_lead (acc bs : List Byte) (nal : FileNal) :
    splitNal acc (nal.lead ++ bs) = acc :: splitNal [] bs := by
  rw [FileNal.lead]
  split
  · exact splitNal_code acc bs (.inr rfl)
  · exact splitNal_code acc bs (.inl rfl)

/-- No start code begins in a non-empty suffix of a NAL. -/
theorem no_code_begins {code bytes : List Byte} (shape : code = [0, 0, 0, 1] ∨ code = [0, 0, 1])
    (bs : List Byte) (some : bytes ≠ []) (noCode : ¬ [0, 0, 1] <:+: bytes) (noZero : bytes.getLast? ≠ .some 0) :
    ¬ code <+: bytes ++ bs := by
  intro begins
  have inside : [0, 0, 1] <:+: code := by
    rcases shape with rfl | rfl
    · exact (List.suffix_cons 0 _).isInfix
    · exact List.infix_rfl
  rcases List.prefix_or_prefix_of_prefix begins (List.prefix_append bytes bs) with fits | cut
  · exact noCode (inside.trans fits.isInfix)
  -- the NAL ends inside the start code: with a zero, or it holds the whole code
  rcases shape with rfl | rfl
  · simp only [List.prefix_cons_iff, List.prefix_nil] at cut
    obtain rfl | ⟨_, rfl, rfl | ⟨_, rfl, rfl | ⟨_, rfl, rfl | ⟨_, rfl, rfl⟩⟩⟩⟩ := cut
    · exact some rfl
    · exact noZero rfl
    · exact noZero rfl
    · exact noZero rfl
    · exact noCode (List.suffix_cons 0 _).isInfix
  · simp only [List.prefix_cons_iff, List.prefix_nil] at cut
    obtain rfl | ⟨_, rfl, rfl | ⟨_, rfl, rfl | ⟨_, rfl, rfl⟩⟩⟩ := cut
    · exact some rfl
    · exact noZero rfl
    · exact noZero rfl
    · exact noCode List.infix_rfl

/-- Inside a NAL no start code is found. -/
theorem splitNal_inside (acc bytes bs : List Byte) (noCode : ¬ [0, 0, 1] <:+: bytes)
    (noZero : bytes.getLast? ≠ some 0) : splitNal acc (bytes ++ bs) = splitNal (acc ++ bytes) bs := by
  induction bytes generalizing acc with
  | nil => rw [List.nil_append, List.append_nil]
  | cons b bytes ih =>
    have here := fun code shape => @no_code_begins code _ shape bs (List.cons_ne_nil b bytes) noCode noZero
    have later : ¬ [0, 0, 1] <:+: bytes := fun code => noCode (code.trans (List.suffix_cons b bytes).isInfix)
    have last : bytes.getLast? ≠ some 0 := by
      cases bytes <;> simp_all
    rw [List.cons_append] at here ⊢
    rw [splitNal_byte acc ⟨here _ (.inl rfl), here _ (.inr rfl)⟩, ih _ later last, List.append_assoc]
    rfl

theorem splitNal_nals (nal : FileNal) (nals : List FileNal) :
    splitNal [] (nal.bytes ++ annexBFile nals) = (nal :: nals).map FileNal.bytes := by
  induction nals generalizing nal with
  | nil => rw [splitNal_inside _ _ _ nal.noCode nal.noZero, annexBFile, List.flatMap_nil, splitNal_nil]; rfl
  | cons next nals ih =>
    rw [splitNal_inside _ _ _ nal.noCode nal.noZero, annexBFile_cons, splitNal_lead, ih]
    rfl

/-- The segments of a well-formed file. -/
theorem splitNal_annexBFile (nals : List FileNal) :
    splitNal [] (annexBFile nals) = [] :: nals.map FileNal.bytes := by
  cases nals with
  | nil => rw [annexBFile, List.flatMap_nil, splitNal_nil]; rfl
  | cons nal nals => rw [annexBFile_cons, splitNal_lead, splitNal_nals]

/-! ## What the loop hands over -/

/-- The scanner finds the first start code. -/
theorem scan_lead (bs : List Byte) (nal : FileNal) : scan .start (nal.lead ++ bs) = [] :: scan .start bs := by
  rw [FileNal.lead]
  split <;> rfl

/-- **The last NAL is never delivered**, and an empty one is, so the NALs handed over are not
those of the file, with or without the empty ones. -/
theorem never_delivered (nals : List FileNal) (some : nals ≠ []) :
    (mainLoop NAL_BUF_SIZE (annexBFile nals)).map handed ≠ .some (nals.map FileNal.bytes) ∧
    (mainLoop NAL_BUF_SIZE (annexBFile nals)).map (fun cs => (handed cs).filter (· ≠ [])) ≠
      .some (nals.map FileNal.bytes) := by
  obtain ⟨nal, rest, rfl⟩ := List.exists_cons_of_ne_nil some
  have first := scan_lead (nal.bytes ++ annexBFile rest) nal
  rw [← annexBFile_cons] at first
  have count : (scan .start _).length ≤ _ :=
    scan_length_le [] [] (nal.bytes ++ annexBFile rest) (Nat.le_refl 0) (by omega)
  rw [zeros, List.replicate_zero, List.nil_append, splitNal_nals] at count
  constructor
  · rw [ne_eq, mainLoop_map_eq, handed_callsOf, first, List.dropLast_cons_of_ne_nil (scan_ne_nil _ _)]
    rintro ⟨-, same⟩
    exact nal.nonempty (List.cons.inj same).1.symm
  · rw [ne_eq, mainLoop_map_eq, handed_callsOf, first, List.dropLast_cons_of_ne_nil (scan_ne_nil _ _)]
    rintro ⟨-, same⟩
    have fewer := List.length_filter_le (· ≠ []) (scan .start (nal.bytes ++ annexBFile rest)).dropLast
    have lengths := congrArg List.length same
    rw [List.filter_cons_of_neg (by simp)] at lengths
    simp only [List.length_dropLast, List.length_map, List.length_cons] at fewer lengths count
    omega

/-- One NAL of one byte: the loop hands over an empty NAL and not that one. -/
theorem never_delivered_one :
    let nal : FileNal := ⟨false, [0x65], by decide, by decide, by decide, by decide⟩
    annexBFile [nal] = [0, 0, 1, 0x65] ∧
    (mainLoop NAL_BUF_SIZE (annexBFile [nal])).map handed ≠ .some [[0x65]] ∧
    (mainLoop NAL_BUF_SIZE (annexBFile [nal])).map (fun cs => (handed cs).filter (· ≠ [])) ≠ .some [[0x65]] :=
  ⟨rfl, never_delivered _ (List.cons_ne_nil _ _)⟩

/-- A file of two NALs, of which the loop hands over the first behind an empty one. -/
theorem last_nal_lost :
    let first : FileNal := ⟨false, [0x65], by decide, by decide, by decide, by decide⟩
    let second : FileNal := ⟨true, [0x66], by decide, by decide, by decide, by decide⟩
    annexBFile [first, second] = [0, 0, 1, 0x65, 0, 0, 0, 1, 0x66] ∧
    (mainLoop NAL_BUF_SIZE (annexBFile [first, second])).map handed = .some [[], [0x65]] ∧
    (mainLoop NAL_BUF_SIZE (annexBFile [first, second])).map handed ≠
      .some ([first, second].map FileNal.bytes) := by
  have delivered : (mainLoop NAL_BUF_SIZE [0, 0, 1, 0x65, 0, 0, 0, 1, 0x66]).map handed = .some [[], [0x65]] :=
    (mainLoop_map_eq ..).mpr ⟨by unfold Fits; decide, by decide⟩
  refine ⟨rfl, delivered, fun same => ?_⟩
  exact absurd (delivered.symm.trans same) (by decide)

theorem kept_length_le (l : List Byte) : (kept l).length ≤ l.length := by
  induction l using kept.induct with
  | case1 => simp [kept]
  | case2 b rest three ih =>
    rw [kept, if_pos three]
    simp at ih ⊢
    omega
  | case3 b rest three zeros =>
    rw [kept, if_neg three, if_pos zeros]
    simp
  | case4 b rest three zeros ih =>
    rw [kept, if_neg three, if_neg zeros]
    exact Nat.succ_le_succ ih

/-- The NALs before the last are delivered, behind an empty one, exactly if no three zeros
before a byte other than 01 come ahead of the last start code. -/
theorem delivered_iff (nals : List FileNal) :
    (mainLoop NAL_BUF_SIZE (annexBFile nals)).map handed = some ([] :: nals.map FileNal.bytes).dropLast ↔
      ¬ LossyBefore (annexBFile nals) := by
  have short : ∀ buf ∈ [] :: nals.map FileNal.bytes, buf.length ≤ NAL_BUF_SIZE := by
    simp only [List.forall_mem_cons, List.forall_mem_map]
    exact ⟨Nat.zero_le _, fun nal _ => nal.short.le⟩
  have fits : Fits NAL_BUF_SIZE ([] :: nals.map FileNal.bytes).dropLast :=
    fun buf mem => short buf (List.dropLast_subset _ mem)
  have last : (kept (lastNal (annexBFile nals))).length ≤ NAL_BUF_SIZE := by
    apply (kept_length_le _).trans
    apply short
    rw [lastNal, splitNal_annexBFile, List.getLastD_cons]
    exact List.getLastD_mem_cons
  rw [← splitNal_annexBFile, handed_iff, splitNal_annexBFile]
  exact ⟨fun fine => fine.1, fun fine => ⟨fine, fits, last⟩⟩

end CodeClips.Rtp
