import CodeClips.Rtp.Segments

/-!
# Which bytes the scanner loses

The scanner holds back up to three zeros. If the byte after three of them is not 01 it drops
all four; if the file ends it drops the zeros. From the first such loss inside a segment its
buffer is shorter than the segment, and stays so until a start code ends both, or the scanner
misses that start code and ends one buffer fewer (`scan_shorter`). So the segments come out
exactly if there is no loss before the last start code (`handed_iff`), and the buffer that
the last call leaves is right as well exactly if there is no loss at all (`buffers_iff`).
-/

namespace CodeClips.Rtp

/-- Three zeros and a byte other than 01 are next. -/
def Loss (bs : List Byte) : Prop := ∃ x, x ≠ 1 ∧ [0, 0, 0, x] <+: bs

/-- `P` holds of the rest of the file at some byte. -/
def Somewhere (P : List Byte → Prop) (bs : List Byte) : Prop := ∃ rest, rest <:+ bs ∧ P rest

/-- Three zeros and a byte other than 01 occur. -/
def Lossy (bs : List Byte) : Prop := Somewhere Loss bs

/-- They occur with a start code after them; it may share zeros with them. -/
def LossyBefore (bs : List Byte) : Prop := Somewhere (fun rest => Loss rest ∧ [0, 0, 1] <:+: rest) bs

theorem somewhere_cons (P : List Byte → Prop) (b : Byte) (bs : List Byte) :
    Somewhere P (b :: bs) ↔ P (b :: bs) ∨ Somewhere P bs := by
  simp only [Somewhere, List.suffix_cons_iff, or_and_right, exists_or, exists_eq_left]

/-- No loss begins among `k` zeros that another byte ends. -/
theorem not_loss (bs : List Byte) {b : Byte} {k : Nat} (nonzero : b ≠ 0) (few : k < 3 ∨ k = 3 ∧ b = 1) :
    ¬ Loss (zeros k ++ b :: bs) := by
  rintro ⟨x, noCode, here⟩
  have notZero : ¬ (0#8 = b) := fun same => nonzero same.symm
  rcases few with few | ⟨rfl, rfl⟩
  · interval_cases k <;> simp [List.replicate, List.cons_prefix_cons, notZero] at here
  · simp [List.replicate, List.cons_prefix_cons] at here
    exact noCode here

/-- Bytes that begin no loss can be passed over. -/
theorem somewhere_skip {P : List Byte → Prop} (loss : ∀ rest, P rest → Loss rest) (bs : List Byte) {b : Byte}
    {k : Nat} (nonzero : b ≠ 0) (few : k < 3 ∨ k = 3 ∧ b = 1) :
    Somewhere P (zeros k ++ b :: bs) ↔ Somewhere P bs := by
  induction k with
  | zero =>
    have here := not_loss bs (k := 0) nonzero (by omega)
    rw [zeros, List.replicate_zero, List.nil_append, somewhere_cons]
    exact or_iff_right (here ∘ loss _)
  | succ k ih =>
    have here := not_loss bs nonzero few
    rw [zeros, List.replicate_succ, List.cons_append, ← zeros] at here ⊢
    rw [somewhere_cons, ih (by omega)]
    exact or_iff_right (here ∘ loss _)

theorem lossy_skip (bs : List Byte) {b : Byte} {k : Nat} (nonzero : b ≠ 0) (few : k < 3 ∨ k = 3 ∧ b = 1) :
    Lossy (zeros k ++ b :: bs) ↔ Lossy bs :=
  somewhere_skip (fun _ loss => loss) bs nonzero few

theorem lossyBefore_skip (bs : List Byte) {b : Byte} {k : Nat} (nonzero : b ≠ 0)
    (few : k < 3 ∨ k = 3 ∧ b = 1) : LossyBefore (zeros k ++ b :: bs) ↔ LossyBefore bs :=
  somewhere_skip (fun _ loss => loss.1) bs nonzero few

theorem LossyBefore.code {bs : List Byte} : LossyBefore bs → [0, 0, 1] <:+: bs := by
  rintro ⟨rest, later, _, code⟩
  exact code.trans later.isInfix

theorem LossyBefore.lossy {bs : List Byte} : LossyBefore bs → Lossy bs := by
  rintro ⟨rest, later, loss, _⟩
  exact ⟨rest, later, loss⟩

theorem not_lossy_zeros {p : Nat} (few : p ≤ 3) : ¬ Lossy (zeros p) := by
  rintro ⟨rest, later, x, -, here⟩
  have long := here.length_le.trans later.length_le
  simp at long
  omega

/-- With three zeros held back and no 01 next. -/
theorem loss_here (bs : List Byte) {b : Byte} (noCode : b ≠ 1) : Loss (zeros 3 ++ b :: bs) :=
  ⟨b, noCode, by simp [List.replicate, List.cons_prefix_cons]⟩

/-! ## After a loss -/

/-- Fewer buffers, or a first one that is shorter. -/
def Shorter (xs ys : List (List Byte)) : Prop :=
  xs.length ≤ ys.length ∧
    (xs.length = ys.length → (xs.head?.getD []).length < (ys.head?.getD []).length)

theorem Shorter.ne {xs ys : List (List Byte)} (shorter : Shorter xs ys) : xs ≠ ys := by
  rintro rfl
  exact lt_irrefl _ (shorter.2 rfl)

theorem Shorter.dropLast_ne {xs ys : List (List Byte)} (shorter : Shorter xs ys) (some : xs ≠ [])
    (two : 2 ≤ ys.length) : xs.dropLast ≠ ys.dropLast := by
  intro same
  have lengths := congrArg List.length same
  have heads := congrArg List.head? same
  have one := List.length_pos_iff.mpr some
  simp only [List.length_dropLast] at lengths
  have equal : xs.length = ys.length := by omega
  rw [List.head?_dropLast, List.head?_dropLast, if_pos (by omega), if_pos (by omega)] at heads
  have less := shorter.2 equal
  rw [heads] at less
  exact lt_irrefl _ less

/-- **Once behind, the scanner stays behind.** -/
theorem scan_shorter (buf acc bs : List Byte) {f p : Nat} (le : f ≤ p) (few : p ≤ 3)
    (less : buf.length < acc.length) :
    Shorter (scan (held f buf) bs) (splitNal acc (zeros p ++ bs)) := by
  induction bs generalizing f p buf acc with
  | nil =>
    rw [scan_end, List.append_nil, splitNal_end acc few]
    exact ⟨Nat.le_refl _, fun _ => by simp; omega⟩
  | cons b bs ih =>
    cases pass buf acc bs b le few with
    | code scanned split =>
      rw [scanned, split]
      exact ⟨Nat.succ_le_succ (scan_length_le [] [] bs (Nat.le_refl 0) (by omega)), fun _ => less⟩
    | missed more scanned split =>
      have count := scan_length_le (buf ++ more) [] bs (Nat.le_refl 0) (by omega)
      rw [scanned, split]
      simp only [zeros, List.replicate_zero, List.nil_append] at count
      exact ⟨Nat.le_succ_of_le count, fun same => by simp at same; omega⟩
    | go f' p' more seg le' few' fewer scanned split =>
      rw [scanned, split]
      exact ih _ _ le' few' (by simp; omega)

/-- The first loss puts the scanner behind. -/
theorem scan_lost (buf bs : List Byte) {b : Byte} (noCode : b ≠ 1) :
    Shorter (scan (held 3 buf) (b :: bs)) (splitNal buf (zeros 3 ++ b :: bs)) := by
  obtain ⟨p', seg, few, lost, split⟩ := split_after_loss buf bs noCode
  rw [scan_loss buf bs noCode, split]
  exact scan_shorter _ _ _ (Nat.zero_le p') few (by simpa using lost)

theorem scan_dropLast_ne (buf bs : List Byte) {p : Nat} (few : p ≤ 3) (lossy : LossyBefore (zeros p ++ bs)) :
    (scan (held p buf) bs).dropLast ≠ (splitNal buf (zeros p ++ bs)).dropLast := by
  induction bs generalizing p buf with
  | nil =>
    rw [List.append_nil] at lossy
    exact absurd lossy.lossy (not_lossy_zeros few)
  | cons b bs ih =>
    cases agree buf bs b few with
    | code one two scanned split =>
      subst one
      rw [lossyBefore_skip bs (by decide) (two.imp (by omega) (⟨·, rfl⟩))] at lossy
      rw [scanned, split, List.dropLast_cons_of_ne_nil (scan_ne_nil _ _),
        List.dropLast_cons_of_ne_nil (splitNal_ne_nil _ _)]
      intro same
      exact ih [] (Nat.zero_le 3) lossy (List.cons.inj same).2
    | zero none few' scanned =>
      subst none
      rw [zeros_succ] at lossy ⊢
      rw [scanned]
      exact ih buf few' lossy
    | keep nonzero few' noCode scanned split =>
      rw [lossyBefore_skip bs nonzero (by omega)] at lossy
      rw [scanned, split]
      exact ih _ (Nat.zero_le 3) lossy
    | loss three noCode =>
      subst three
      exact (scan_lost buf bs noCode).dropLast_ne (scan_ne_nil _ _) ((splitNal_length _ _).mpr lossy.code)

/-- **The buffers are the segments** exactly if nothing is lost. -/
theorem scan_eq_iff (buf bs : List Byte) {p : Nat} (few : p ≤ 3) :
    scan (held p buf) bs = splitNal buf (zeros p ++ bs) ↔
      ¬ Lossy (zeros p ++ bs) ∧ (zeros p ++ bs).getLast? ≠ some 0 := by
  induction bs generalizing p buf with
  | nil =>
    rw [scan_end, List.append_nil, splitNal_end buf few]
    have last : (zeros p).getLast? ≠ some 0 ↔ p = 0 := by
      cases p <;> simp [zeros, List.getLast?_replicate]
    rw [last]
    simp [not_lossy_zeros few]
  | cons b bs ih =>
    cases agree buf bs b few with
    | code one two scanned split =>
      subst one
      have last : (zeros p ++ 1 :: bs).getLast? ≠ some 0 ↔ bs.getLast? ≠ some 0 := by
        cases bs <;> simp [List.getLast?_append, List.getLast?_cons]
      rw [scanned, split, lossy_skip bs (by decide) (two.imp (by omega) (⟨·, rfl⟩)), last, List.cons.injEq]
      simpa using ih [] (Nat.zero_le 3)
    | zero none few' scanned =>
      subst none
      rw [scanned, zeros_succ]
      exact ih buf few'
    | keep nonzero few' noCode scanned split =>
      have last : (zeros p ++ b :: bs).getLast? ≠ some 0 ↔ bs.getLast? ≠ some 0 := by
        have here : ¬ (b = 0#8) := nonzero
        cases bs <;> simp [List.getLast?_append, List.getLast?_cons, here]
      rw [scanned, split, lossy_skip bs nonzero (by omega), last]
      exact ih _ (Nat.zero_le 3)
    | loss three noCode =>
      subst three
      apply iff_of_false (scan_lost buf bs noCode).ne
      exact fun none => none.1 ⟨_, List.suffix_rfl, loss_here bs noCode⟩

/-! ## What is left of the last segment -/

/-- The bytes of a segment the scanner stores: three zeros and the byte after them are
lost, and so are zeros at the end. -/
def kept (l : List Byte) : List Byte :=
  match l with
  | [] => []
  | b :: rest =>
    if [0, 0, 0] <+: b :: rest then kept (rest.drop 3)
    else if b :: rest = [0] ∨ b :: rest = [0, 0] then []
    else b :: kept rest
termination_by l.length
decreasing_by all_goals simp; try omega

theorem kept_loss (b : Byte) (bs : List Byte) : kept (zeros 3 ++ b :: bs) = kept bs := by
  have three : [0, 0, 0] <+: (0 : Byte) :: 0 :: 0 :: b :: bs := by simp [List.cons_prefix_cons]
  exact (kept.eq_2 0 (0 :: 0 :: b :: bs)).trans (if_pos three)

theorem kept_zeros {p : Nat} (few : p ≤ 3) : kept (zeros p) = [] := by
  interval_cases p <;> simp [zeros, List.replicate, kept]

theorem kept_keep (bs : List Byte) {p : Nat} {b : Byte} (few : p < 3) (nonzero : b ≠ 0) :
    kept (zeros p ++ b :: bs) = zeros p ++ b :: kept bs := by
  have notZero : ¬ (0#8 = b) := fun same => nonzero same.symm
  have here : ¬ (b = 0#8) := nonzero
  interval_cases p
  · simp [zeros, List.replicate, kept, List.cons_prefix_cons, notZero, here]
  · simp [zeros, List.replicate, kept, List.cons_prefix_cons, notZero, here]
  · simp [zeros, List.replicate, kept, List.cons_prefix_cons, notZero, here]

theorem splitNal_noCode (acc bs : List Byte) (noCode : ¬ [0, 0, 1] <:+: bs) : splitNal acc bs = [acc ++ bs] := by
  induction bs generalizing acc with
  | nil => rw [splitNal_nil, List.append_nil]
  | cons b bs ih =>
    rw [List.infix_cons_iff, not_or] at noCode
    have long : ¬ [0, 0, 0, 1] <+: b :: bs := by
      intro long
      exact noCode.2 (List.cons_prefix_cons.mp long).2.isInfix
    rw [splitNal_byte acc ⟨long, noCode.1⟩, ih _ noCode.2, List.append_assoc]
    rfl

/-- Without a start code everything that is kept stays in the buffer. -/
theorem scan_noCode (buf bs : List Byte) {p : Nat} (few : p ≤ 3) (noCode : ¬ [0, 0, 1] <:+: zeros p ++ bs) :
    scan (held p buf) bs = [buf ++ kept (zeros p ++ bs)] := by
  induction bs generalizing p buf with
  | nil => simp [scan_end, kept_zeros few]
  | cons b bs ih =>
    have later : ¬ [0, 0, 1] <:+: bs := fun code =>
      noCode (code.trans ((List.suffix_cons b bs).trans (List.suffix_append _ _)).isInfix)
    cases agree buf bs b few with
    | code one two =>
      subst one
      apply absurd ?_ noCode
      rcases two with rfl | rfl
      · exact List.infix_append' [] [0, 0, 1] bs
      · exact List.infix_append' [0] [0, 0, 1] bs
    | zero none few' scanned =>
      subst none
      rw [zeros_succ] at noCode ⊢
      rw [scanned]
      exact ih buf few' noCode
    | keep nonzero few' noCode' scanned =>
      rw [scanned, ih _ (Nat.zero_le 3) later, kept_keep bs few' nonzero]
      simp
    | loss three noCode' p' seg few' lost scanned =>
      subst three
      rw [scanned, ih _ (Nat.zero_le 3) later, kept_loss]
      rfl

/-- With no loss before the last start code, all buffers but the last are the segments. -/
theorem scan_eq_kept (buf bs : List Byte) {p : Nat} (few : p ≤ 3) (fine : ¬ LossyBefore (zeros p ++ bs))
    (stored : ∀ m, kept (buf ++ m) = buf ++ kept m) :
    ∃ segs last, splitNal buf (zeros p ++ bs) = segs ++ [last] ∧ scan (held p buf) bs = segs ++ [kept last] := by
  induction bs generalizing p buf with
  | nil =>
    refine ⟨[], buf ++ zeros p, ?_, ?_⟩
    · rw [List.append_nil, splitNal_end buf few, List.nil_append]
    · rw [scan_end, stored, kept_zeros few, List.append_nil, List.nil_append]
  | cons b bs ih =>
    cases agree buf bs b few with
    | code one two scanned split =>
      subst one
      rw [lossyBefore_skip bs (by decide) (two.imp (by omega) (⟨·, rfl⟩))] at fine
      obtain ⟨segs, last, segments, buffers⟩ := ih [] (Nat.zero_le 3) fine (fun m => rfl)
      refine ⟨buf :: segs, last, ?_, ?_⟩
      · rw [split]
        exact congrArg (buf :: ·) segments
      · rw [scanned, buffers, List.cons_append]
    | zero none few' scanned =>
      subst none
      rw [zeros_succ] at fine ⊢
      rw [scanned]
      exact ih buf few' fine stored
    | keep nonzero few' noCode scanned split =>
      rw [lossyBefore_skip bs nonzero (by omega)] at fine
      rw [scanned, split]
      apply ih _ (Nat.zero_le 3) fine
      intro m
      have next := kept_keep m few' nonzero
      simp only [List.append_assoc, List.singleton_append] at next ⊢
      rw [stored, next]
    | loss three noCode =>
      subst three
      have last : ¬ [0, 0, 1] <:+: zeros 3 ++ b :: bs := fun code =>
        fine ⟨_, List.suffix_rfl, loss_here bs noCode, code⟩
      refine ⟨[], buf ++ (zeros 3 ++ b :: bs), ?_, ?_⟩
      · rw [splitNal_noCode _ _ last, List.nil_append]
      · rw [scan_noCode _ _ few last, stored, List.nil_append]

/-! ## The loop of `main` -/

theorem mainLoop_map_eq {α : Type} (size : Nat) (fp : List Byte) (g : List Call → α) (x : α) :
    (mainLoop size fp).map g = some x ↔
      Fits size (scan .start fp) ∧ g (callsOf (scan .start fp)) = x := by
  simp only [Option.map_eq_some_iff, mainLoop_eq, and_assoc]
  constructor
  · rintro ⟨_, fits, rfl, rfl⟩
    exact ⟨fits, rfl⟩
  · rintro ⟨fits, rfl⟩
    exact ⟨_, fits, rfl, rfl⟩

theorem fits_concat (size : Nat) (bufs : List (List Byte)) (buf : List Byte) :
    Fits size (bufs ++ [buf]) ↔ Fits size bufs ∧ buf.length ≤ size := by
  simp [Fits, or_imp, forall_and]

/-- The last segment of a file. -/
def lastNal (fp : List Byte) : List Byte := (splitNal [] fp).getLastD []

/-- The NALs handed over are the segments exactly if nothing before the last start code is
lost and everything stored fits. -/
theorem handed_iff (size : Nat) (fp : List Byte) :
    (mainLoop size fp).map handed = some (splitNal [] fp).dropLast ↔
      ¬ LossyBefore fp ∧ Fits size (splitNal [] fp).dropLast ∧ (kept (lastNal fp)).length ≤ size := by
  rw [mainLoop_map_eq, handed_callsOf]
  by_cases lossy : LossyBefore fp
  · have differ := scan_dropLast_ne [] fp (Nat.zero_le 3) lossy
    exact iff_of_false (fun same => differ same.2) (fun fine => fine.1 lossy)
  · obtain ⟨segs, last, segments, buffers⟩ := scan_eq_kept [] fp (Nat.zero_le 3) lossy (fun m => rfl)
    rw [zeros, List.replicate_zero, List.nil_append] at segments
    have start : scan .start fp = segs ++ [kept last] := buffers
    rw [start, segments, lastNal, segments, fits_concat]
    simp [lossy]

/-- The buffers of all calls are the segments exactly if nothing is lost and everything fits. -/
theorem buffers_iff (size : Nat) (fp : List Byte) :
    (mainLoop size fp).map (·.map Call.buf) = some (splitNal [] fp) ↔
      ¬ Lossy fp ∧ fp.getLast? ≠ some 0 ∧ Fits size (splitNal [] fp) := by
  have same : scan .start fp = splitNal [] fp ↔ ¬ Lossy fp ∧ fp.getLast? ≠ some 0 :=
    scan_eq_iff [] fp (Nat.zero_le 3)
  rw [mainLoop_map_eq, callsOf_buf, ← and_assoc, ← same, and_comm]
  exact and_congr_right fun equal => by rw [equal]

/-- **Which files come out segment by segment**: the NALs handed over, and the buffers of all
calls with the one that returns -1. -/
theorem segments_iff (size : Nat) (fp : List Byte) :
    ((mainLoop size fp).map handed = some (splitNal [] fp).dropLast ↔
      ¬ LossyBefore fp ∧ Fits size (splitNal [] fp).dropLast ∧ (kept (lastNal fp)).length ≤ size) ∧
    ((mainLoop size fp).map (·.map Call.buf) = some (splitNal [] fp) ↔
      ¬ Lossy fp ∧ fp.getLast? ≠ some 0 ∧ Fits size (splitNal [] fp)) :=
  ⟨handed_iff size fp, buffers_iff size fp⟩

/-- Three zeros and 02 are dropped, and five zeros and 01 do not end a NAL. -/
theorem segments_lost :
    (mainLoop NAL_BUF_SIZE [0x65, 0, 0, 0, 2, 0x66, 0, 0, 1, 0x67]).map handed = some [[0x65, 0x66]] ∧
    (mainLoop NAL_BUF_SIZE [0x65, 0, 0, 0, 2, 0x66, 0, 0, 1, 0x67]).map handed ≠
      some (splitNal [] [0x65, 0, 0, 0, 2, 0x66, 0, 0, 1, 0x67]).dropLast ∧
    (mainLoop NAL_BUF_SIZE [0x65, 0, 0, 0, 0, 0, 1, 0x66]).map (·.map Call.buf) = some [[0x65, 0, 1, 0x66]] ∧
    (mainLoop NAL_BUF_SIZE [0x65, 0, 0, 0, 0, 0, 1, 0x66]).map (·.map Call.buf) ≠
      some (splitNal [] [0x65, 0, 0, 0, 0, 0, 1, 0x66]) := by
  have triple : (mainLoop NAL_BUF_SIZE [0x65, 0, 0, 0, 2, 0x66, 0, 0, 1, 0x67]).map handed = some [[0x65, 0x66]] :=
    (mainLoop_map_eq ..).mpr ⟨by unfold Fits; decide, by decide⟩
  have five : (mainLoop NAL_BUF_SIZE [0x65, 0, 0, 0, 0, 0, 1, 0x66]).map (·.map Call.buf) =
      some [[0x65, 0, 1, 0x66]] :=
    (mainLoop_map_eq ..).mpr ⟨by unfold Fits; decide, by decide⟩
  refine ⟨triple, ?_, five, ?_⟩
  · rw [triple]
    simp [splitNal]
  · rw [five]
    simp [splitNal]

end CodeClips.Rtp
