import CodeClips.Rtp.NalScanner
import Mathlib.Tactic.IntervalCases

/-!
# The segments between start codes

`splitNal` is what the scanner is for: it cuts a byte string at every `00 00 01` and
`00 00 00 01`, and every byte of the string is in a segment or in a start code. `scan` is
compared with it byte by byte. Both hold back at most three zeros: while nothing has been
lost, the same ones (`Agree`); after a loss the scanner holds back fewer (`Pass`), so it
may miss a start code but never sees one that is not there (`scan_length_le`).
-/

namespace CodeClips.Rtp

/-- The segments of a byte string, the first one continuing `acc`; the last one is not
ended by a start code. -/
def splitNal (acc : List Byte) : List Byte → List (List Byte)
  | [] => [acc]
  | b :: rest =>
    if [0, 0, 0, 1] <+: b :: rest then acc :: splitNal [] (rest.drop 3)
    else if [0, 0, 1] <+: b :: rest then acc :: splitNal [] (rest.drop 2)
    else splitNal (acc ++ [b]) rest
termination_by bs => bs.length
decreasing_by all_goals simp; try omega

/-- `p` zeros, held back. -/
abbrev zeros (p : Nat) : List Byte := List.replicate p 0

/-! ## One byte at a time, with `p` zeros held back -/

theorem splitNal_nil (acc : List Byte) : splitNal acc [] = [acc] := by
  rw [splitNal]

theorem splitNal_ne_nil (acc bs : List Byte) : splitNal acc bs ≠ [] := by
  induction acc, bs using splitNal.induct with
  | case1 acc => simp [splitNal_nil]
  | case2 acc b rest long ih =>
    rw [splitNal, if_pos long]
    exact List.cons_ne_nil _ _
  | case3 acc b rest long short ih =>
    rw [splitNal, if_neg long, if_pos short]
    exact List.cons_ne_nil _ _
  | case4 acc b rest long short ih =>
    rw [splitNal, if_neg long, if_neg short]
    exact ih

/-- A byte at which no start code begins. -/
theorem splitNal_byte (acc : List Byte) {b : Byte} {rest : List Byte}
    (noCode : ¬ [0, 0, 0, 1] <+: b :: rest ∧ ¬ [0, 0, 1] <+: b :: rest) :
    splitNal acc (b :: rest) = splitNal (acc ++ [b]) rest := by
  rw [splitNal, if_neg noCode.1, if_neg noCode.2]

theorem splitNal_end (acc : List Byte) {p : Nat} (held : p ≤ 3) : splitNal acc (zeros p) = [acc ++ zeros p] := by
  interval_cases p
  · simp [splitNal_nil]
  · rw [show zeros 1 = [0] from rfl, splitNal_byte _ (by decide), splitNal_nil]
  · rw [show zeros 2 = [0, 0] from rfl, splitNal_byte _ (by decide), splitNal_byte _ (by decide), splitNal_nil]
    simp
  · rw [show zeros 3 = [0, 0, 0] from rfl, splitNal_byte _ (by decide), splitNal_byte _ (by decide),
      splitNal_byte _ (by decide), splitNal_nil]
    simp

/-- A fourth zero frees the first. -/
theorem splitNal_zero (acc bs : List Byte) :
    splitNal acc (zeros 3 ++ 0 :: bs) = splitNal (acc ++ [0]) (zeros 3 ++ bs) := by
  have noCode : ¬ [0, 0, 0, 1] <+: (0 : Byte) :: 0 :: 0 :: 0 :: bs ∧ ¬ [0, 0, 1] <+: (0 : Byte) :: 0 :: 0 :: 0 :: bs := by
    simp [List.cons_prefix_cons]
  exact splitNal_byte acc noCode

theorem splitNal_code (acc bs : List Byte) {p : Nat} (held : p = 2 ∨ p = 3) :
    splitNal acc (zeros p ++ 1 :: bs) = acc :: splitNal [] bs := by
  rcases held with rfl | rfl
  · have short : ¬ [0, 0, 0, 1] <+: (0 : Byte) :: 0 :: 1 :: bs ∧ [0, 0, 1] <+: (0 : Byte) :: 0 :: 1 :: bs := by
      simp [List.cons_prefix_cons]
    exact (splitNal.eq_2 acc 0 (0 :: 1 :: bs)).trans (by rw [if_neg short.1, if_pos short.2]; rfl)
  · have long : [0, 0, 0, 1] <+: (0 : Byte) :: 0 :: 0 :: 1 :: bs := by
      simp [List.cons_prefix_cons]
    exact (splitNal.eq_2 acc 0 (0 :: 0 :: 1 :: bs)).trans (by rw [if_pos long]; rfl)

theorem splitNal_keep (acc bs : List Byte) {p : Nat} {b : Byte} (held : p ≤ 3) (nonzero : b ≠ 0)
    (noCode : 2 ≤ p → b ≠ 1) :
    splitNal acc (zeros p ++ b :: bs) = splitNal (acc ++ zeros p ++ [b]) bs := by
  have notZero : ¬ (0#8 = b) := fun same => nonzero same.symm
  have here : ∀ k, k ≤ p → ∀ acc, splitNal acc (zeros k ++ b :: bs) = splitNal (acc ++ zeros k ++ [b]) bs := by
    intro k
    induction k with
    | zero =>
      intro _ acc
      have none : ¬ [0, 0, 0, 1] <+: b :: bs ∧ ¬ [0, 0, 1] <+: b :: bs := by
        simp [List.cons_prefix_cons, notZero]
      simpa using splitNal_byte acc none
    | succ k ih =>
      intro bound acc
      have notOne : 1 ≤ k → ¬ (1#8 = b) := fun two same => noCode (by omega) same.symm
      have none : ¬ [0, 0, 0, 1] <+: 0 :: (zeros k ++ b :: bs) ∧ ¬ [0, 0, 1] <+: 0 :: (zeros k ++ b :: bs) := by
        have small : k ≤ 2 := by omega
        interval_cases k
        · simp [List.cons_prefix_cons, notZero]
        · simp [List.cons_prefix_cons, notZero, notOne]
        · simp [List.replicate, List.cons_prefix_cons, notOne]
      rw [zeros, List.replicate_succ, List.cons_append, splitNal_byte acc none, ih (by omega)]
      simp [zeros]
  exact here p (Nat.le_refl p) acc

/-- The scanner inside a call, with `f` zeros held back. -/
def held (f : Nat) (buf : List Byte) : ScanState := { flag := f, tmpbuf := zeros f, buf := buf }

/-- What `tmpbuf` holds does not matter when no zero is held back. -/
theorem scan_tmpbuf (tmpbuf buf bs : List Byte) :
    scan { flag := 0, tmpbuf := tmpbuf, buf := buf } bs = scan (held 0 buf) bs := by
  induction bs generalizing buf with
  | nil => rfl
  | cons b bs ih =>
    by_cases zero : b = 0
    · subst zero
      rfl
    · have pass : ∀ t, scan { flag := 0, tmpbuf := t, buf := buf } (b :: bs) =
          scan { flag := 0, tmpbuf := t, buf := buf ++ [b] } bs := by
        intro t
        rw [scan, scanByte, if_pos rfl, if_pos zero]
      rw [pass, held, pass, ih]
      rfl

theorem scan_end (f : Nat) (buf : List Byte) : scan (held f buf) [] = [buf] := rfl

theorem scan_zero (buf bs : List Byte) {f : Nat} (few : f < 3) :
    scan (held f buf) (0 :: bs) = scan (held (f + 1) buf) bs := by
  interval_cases f <;> rfl

theorem scan_code (buf bs : List Byte) {f : Nat} (two : f = 2 ∨ f = 3) :
    scan (held f buf) (1 :: bs) = buf :: scan (held 0 []) bs := by
  rcases two with rfl | rfl <;> rfl

/-- The loss: with three zeros held back, a byte other than 01 is dropped with them. -/
theorem scan_loss (buf bs : List Byte) {b : Byte} (noCode : b ≠ 1) :
    scan (held 3 buf) (b :: bs) = scan (held 0 buf) bs := by
  rw [← scan_tmpbuf (zeros 3) buf bs, held, scan, scanByte, if_neg (by simp), if_neg (by simp),
    if_neg (by simp), if_neg noCode]

theorem scan_keep (buf bs : List Byte) {f : Nat} {b : Byte} (few : f < 3) (nonzero : b ≠ 0)
    (noCode : 2 ≤ f → b ≠ 1) :
    scan (held f buf) (b :: bs) = scan (held 0 (buf ++ zeros f ++ [b])) bs := by
  rw [← scan_tmpbuf (zeros f) (buf ++ zeros f ++ [b]) bs]
  rw [held, scan, scanByte]
  interval_cases f
  · rw [if_pos rfl, if_pos nonzero]
    simp [zeros]
  · rw [if_neg (by simp), if_pos rfl, if_neg nonzero]
    simp [zeros]
  · rw [if_neg (by simp), if_neg (by simp), if_pos rfl, if_neg nonzero, if_neg (noCode (Nat.le_refl 2))]
    simp [zeros]

/-! ## Both at once -/

/-- What the scanner with `f` zeros held back and the reference with `p` do on a byte. -/
inductive Pass (f p : Nat) (buf acc : List Byte) (b : Byte) (bs : List Byte) : Prop where
  | code
      (scanned : scan (held f buf) (b :: bs) = buf :: scan (held 0 []) bs)
      (split : splitNal acc (zeros p ++ b :: bs) = acc :: splitNal [] bs)
  | missed (more : List Byte)
      (scanned : scan (held f buf) (b :: bs) = scan (held 0 (buf ++ more)) bs)
      (split : splitNal acc (zeros p ++ b :: bs) = acc :: splitNal [] bs)
  | go (f' p' : Nat) (more seg : List Byte) (le : f' ≤ p') (few : p' ≤ 3) (less : more.length ≤ seg.length)
      (scanned : scan (held f buf) (b :: bs) = scan (held f' (buf ++ more)) bs)
      (split : splitNal acc (zeros p ++ b :: bs) = splitNal (acc ++ seg) (zeros p' ++ bs))

/-- The same while nothing has been lost: `loss` is the first loss. -/
inductive Agree (p : Nat) (buf : List Byte) (b : Byte) (bs : List Byte) : Prop where
  | code (one : b = 1) (two : p = 2 ∨ p = 3)
      (scanned : scan (held p buf) (b :: bs) = buf :: scan (held 0 []) bs)
      (split : splitNal buf (zeros p ++ b :: bs) = buf :: splitNal [] bs)
  | zero (none : b = 0) (few : p < 3)
      (scanned : scan (held p buf) (b :: bs) = scan (held (p + 1) buf) bs)
  | keep (nonzero : b ≠ 0) (few : p < 3) (noCode : 2 ≤ p → b ≠ 1)
      (scanned : scan (held p buf) (b :: bs) = scan (held 0 (buf ++ zeros p ++ [b])) bs)
      (split : splitNal buf (zeros p ++ b :: bs) = splitNal (buf ++ zeros p ++ [b]) bs)
  | loss (three : p = 3) (noCode : b ≠ 1) (p' : Nat) (seg : List Byte) (few : p' ≤ 3) (lost : 0 < seg.length)
      (scanned : scan (held p buf) (b :: bs) = scan (held 0 buf) bs)
      (split : splitNal buf (zeros p ++ b :: bs) = splitNal (buf ++ seg) (zeros p' ++ bs))

theorem zeros_succ (p : Nat) (bs : List Byte) : zeros p ++ 0 :: bs = zeros (p + 1) ++ bs := by
  rw [zeros, zeros, List.replicate_succ', List.append_assoc]
  rfl

/-- The first loss: three zeros are held back and no start code ends. -/
theorem split_after_loss (acc bs : List Byte) {b : Byte} (noCode : b ≠ 1) :
    ∃ p' seg, p' ≤ 3 ∧ 0 < seg.length ∧
      splitNal acc (zeros 3 ++ b :: bs) = splitNal (acc ++ seg) (zeros p' ++ bs) := by
  by_cases zero : b = 0
  · subst zero
    exact ⟨3, [0], by omega, by simp, splitNal_zero acc bs⟩
  · refine ⟨0, zeros 3 ++ [b], by omega, by simp, ?_⟩
    rw [splitNal_keep acc bs (Nat.le_refl 3) zero (fun _ => noCode)]
    simp

theorem pass (buf acc bs : List Byte) (b : Byte) {f p : Nat} (le : f ≤ p) (few : p ≤ 3) :
    Pass f p buf acc b bs := by
  by_cases zero : b = 0
  · subst zero
    have split : ∃ p' seg, f + 1 ≤ p' + (if f = 3 then 1 else 0) ∧ p' ≤ 3 ∧
        splitNal acc (zeros p ++ 0 :: bs) = splitNal (acc ++ seg) (zeros p' ++ bs) := by
      by_cases three : p = 3
      · subst three
        exact ⟨3, [0], by split <;> omega, by omega, splitNal_zero acc bs⟩
      · exact ⟨p + 1, [], by split <;> omega, by omega, by rw [zeros_succ, List.append_nil]⟩
    obtain ⟨p', seg, le', few', split⟩ := split
    by_cases three : f = 3
    · subst three
      exact .go 0 p' [] seg (by omega) few' (by simp) (by rw [scan_loss buf bs (by decide), List.append_nil]) split
    · rw [if_neg three] at le'
      exact .go (f + 1) p' [] seg (by omega) few' (by simp)
        (by rw [scan_zero buf bs (by omega), List.append_nil]) split
  · by_cases noCode : 2 ≤ p → b ≠ 1
    · have split := splitNal_keep acc bs few zero noCode
      rw [List.append_assoc] at split
      by_cases three : f = 3
      · subst three
        exact .go 0 0 [] (zeros p ++ [b]) (by omega) (by omega) (by simp)
          (by rw [scan_loss buf bs (noCode (by omega)), List.append_nil]) split
      · have scanned := scan_keep buf bs (by omega : f < 3) zero (fun two => noCode (by omega))
        rw [List.append_assoc] at scanned
        exact .go 0 0 (zeros f ++ [b]) (zeros p ++ [b]) (by omega) (by omega) (by simp [zeros, le]) scanned split
    · obtain ⟨two, one⟩ := Classical.not_imp.mp noCode
      rw [not_not] at one
      subst one
      have split := splitNal_code acc bs (by omega : p = 2 ∨ p = 3)
      by_cases both : 2 ≤ f
      · exact .code (scan_code buf bs (by omega)) split
      · have scanned := scan_keep buf bs (by omega : f < 3) zero (fun two => absurd two both)
        rw [List.append_assoc] at scanned
        exact .missed (zeros f ++ [1]) scanned split

theorem agree (buf bs : List Byte) (b : Byte) {p : Nat} (few : p ≤ 3) : Agree p buf b bs := by
  by_cases zero : b = 0 ∧ p < 3
  · obtain ⟨rfl, few⟩ := zero
    exact .zero rfl few (scan_zero buf bs few)
  by_cases code : b = 1 ∧ 2 ≤ p
  · obtain ⟨rfl, two⟩ := code
    exact .code rfl (by omega) (scan_code buf bs (by omega)) (splitNal_code buf bs (by omega))
  by_cases three : p = 3
  · subst three
    have noCode : b ≠ 1 := fun one => code ⟨one, by omega⟩
    obtain ⟨p', seg, few', lost, split⟩ := split_after_loss buf bs noCode
    exact .loss rfl noCode p' seg few' lost (scan_loss buf bs noCode) split
  · have nonzero : b ≠ 0 := fun same => zero ⟨same, by omega⟩
    have noCode : 2 ≤ p → b ≠ 1 := fun two one => code ⟨one, two⟩
    exact .keep nonzero (by omega) noCode (scan_keep buf bs (by omega) nonzero noCode)
      (splitNal_keep buf bs few nonzero noCode)

/-! ## Counting the segments -/

/-- The scanner ends no more buffers than there are segments. -/
theorem scan_length_le (buf acc bs : List Byte) {f p : Nat} (le : f ≤ p) (few : p ≤ 3) :
    (scan (held f buf) bs).length ≤ (splitNal acc (zeros p ++ bs)).length := by
  induction bs generalizing f p buf acc with
  | nil => simp [scan_end, splitNal_end acc few]
  | cons b bs ih =>
    cases pass buf acc bs b le few with
    | code scanned split =>
      rw [scanned, split]
      exact Nat.succ_le_succ (ih [] [] (Nat.le_refl 0) (by omega))
    | missed more scanned split =>
      rw [scanned, split]
      exact Nat.le_succ_of_le (ih (buf ++ more) [] (Nat.le_refl 0) (by omega))
    | go f' p' more seg le' few' less scanned split =>
      rw [scanned, split]
      exact ih _ _ le' few'

/-- There is more than one segment exactly if there is a start code. -/
theorem splitNal_length (acc bs : List Byte) : 2 ≤ (splitNal acc bs).length ↔ [0, 0, 1] <:+: bs := by
  induction acc, bs using splitNal.induct with
  | case1 acc => simp [splitNal_nil]
  | case2 acc b rest long ih =>
    have more := splitNal_ne_nil [] (rest.drop 3)
    have code : [0, 0, 1] <:+: b :: rest :=
      (List.suffix_cons _ _).isInfix.trans long.isInfix
    rw [splitNal, if_pos long]
    exact iff_of_true (Nat.succ_le_succ (List.length_pos_iff.mpr more)) code
  | case3 acc b rest long short ih =>
    have more := splitNal_ne_nil [] (rest.drop 2)
    rw [splitNal, if_neg long, if_pos short]
    exact iff_of_true (Nat.succ_le_succ (List.length_pos_iff.mpr more)) short.isInfix
  | case4 acc b rest long short ih =>
    rw [splitNal, if_neg long, if_neg short, ih, List.infix_cons_iff]
    exact (or_iff_right short).symm

end CodeClips.Rtp
