import CodeClips.Lua.SplitPath

/-!
# Prefixes and suffixes of a path

`path:is_prefix_of` and `path:is_suffix_of` put their argument into a pattern, in which a dot
stands for any character and a `-` after a character for any number of it. `Stands` says which
texts an argument stands for so. The two are right about all paths exactly if the argument
stands for itself only (`affix_iff`): it has no dot, and a `-` at its beginning at most.
-/

namespace CodeClips.Lua

open LuaPattern

namespace path

/-- The argument is spliced into the pattern, and the rest must not be empty. -/
def is_prefix_of (path pre : Str) : Bool := (string_match path ("^".toList ++ pre ++ "[%w-_/.]+".toList)).isSome

/-- The argument is spliced in, before the end. -/
def is_suffix_of (path suffix : Str) : Bool :=
  (string_match path ("^[%w-_/.]-".toList ++ suffix ++ "$".toList)).isSome

end path

/-! ## The argument as a pattern -/

/-- What a character of the argument matches: a dot matches any character. -/
def charOf (c : Char) : Single := if c = '.' then .any else .elem (.lit c)

/-- The items that an argument becomes. -/
def spliced : Str → List Item
  | [] => []
  | [c] => [.rep (charOf c) .one]
  | c :: d :: s => if d = '-' then .rep (charOf c) .minus :: spliced s else .rep (charOf c) .one :: spliced (d :: s)

/-- The texts that an argument stands for. -/
def Stands : Str → Str → Prop
  | [], t => t = []
  | [c], t => ∃ d, t = [d] ∧ (charOf c).test d
  | c :: d :: s, t =>
    if d = '-' then ∃ a b, t = a ++ b ∧ (∀ e ∈ a, (charOf c).test e) ∧ Stands s b
    else ∃ e b, t = e :: b ∧ (charOf c).test e ∧ Stands (d :: s) b

section Reading
variable {s t r : Str} {cs ds : List Cap}

theorem matches_spliced : Matches (spliced s) t cs r ds ↔ ∃ a, t = a ++ r ∧ Stands s a ∧ ds = cs := by
  induction s using spliced.induct generalizing t with
  | case1 =>
    simp only [spliced, Stands, matches_nil]
    constructor
    · rintro ⟨rfl, rfl⟩
      exact ⟨[], rfl, rfl, rfl⟩
    · rintro ⟨a, rfl, rfl, rfl⟩
      exact ⟨rfl, rfl⟩
  | case2 c =>
    simp only [spliced, Stands, matches_one, matches_nil]
    constructor
    · rintro ⟨d, u, rfl, test, rfl, rfl⟩
      exact ⟨[d], rfl, ⟨d, rfl, test⟩, rfl⟩
    · rintro ⟨a, rfl, ⟨d, rfl, test⟩, rfl⟩
      exact ⟨d, r, rfl, test, rfl, rfl⟩
  | case3 c s ih =>
    simp only [spliced, Stands, if_true, matches_minus, ih]
    constructor
    · rintro ⟨a, u, rfl, all, b, rfl, stands, rfl⟩
      exact ⟨a ++ b, (List.append_assoc ..).symm, ⟨a, b, rfl, all, stands⟩, rfl⟩
    · rintro ⟨_, rfl, ⟨a, b, rfl, all, stands⟩, rfl⟩
      exact ⟨a, b ++ r, List.append_assoc .., all, b, rfl, stands, rfl⟩
  | case4 c d s other ih =>
    simp only [spliced, Stands, if_neg other, matches_one, ih]
    constructor
    · rintro ⟨e, u, rfl, test, b, rfl, stands, rfl⟩
      exact ⟨e :: b, rfl, ⟨e, b, rfl, test, stands⟩, rfl⟩
    · rintro ⟨_, rfl, ⟨e, b, rfl, test, stands⟩, rfl⟩
      exact ⟨e, b ++ r, rfl, test, b, rfl, stands, rfl⟩

theorem ne_of_legal {c d : Char} (legal : legalSet.test c) (not : legalSet.test d = false) : c ≠ d := by
  rintro rfl
  rw [not] at legal
  cases legal

/-- A character of a legal path means itself in a pattern, or any character. -/
theorem single_legal {c : Char} (legal : legalSet.test c) (p : Str) : single c p = some (charOf c, p) := by
  have escape := ne_of_legal legal (d := '%') (by decide)
  have bracket := ne_of_legal legal (d := '[') (by decide)
  unfold single charOf
  rw [if_neg escape, if_neg bracket]
  split <;> rfl

/-- A `-` behind a character is a quantifier. -/
theorem quant_legal {c : Char} (legal : legalSet.test c) (p : Str) :
    quant (c :: p) = if c = '-' then (.minus, p) else (.one, c :: p) := by
  have option := ne_of_legal legal (d := '?') (by decide)
  have star := ne_of_legal legal (d := '*') (by decide)
  have plus := ne_of_legal legal (d := '+') (by decide)
  rw [quant, if_neg option, if_neg star, if_neg plus]

/-- A character of the argument with its quantifier. -/
theorem items_legal {c : Char} (legal : legalSet.test c) (fuel : Nat) (p : Str) :
    items (fuel + 1) (c :: p) = (items fuel (quant p).2).map (.rep (charOf c) (quant p).1 :: ·) := by
  have opens := ne_of_legal legal (d := '(') (by decide)
  have closes := ne_of_legal legal (d := ')') (by decide)
  have dollar := ne_of_legal legal (d := '$') (by decide)
  rw [items, if_neg opens, if_neg closes, if_neg fun both => dollar both.1, single_legal legal]

/-- A legal text at the beginning of a pattern is read by itself. -/
theorem items_append {is : List Item} {rest : Str} {k fuel : Nat} (legal : Legal s)
    (read : ∀ n ≥ k, items n rest = some is) (whole : quant rest = (.one, rest)) (enough : s.length + k ≤ fuel) :
    items fuel (s ++ rest) = some (spliced s ++ is) := by
  induction s using spliced.induct generalizing fuel with
  | case1 =>
    rw [List.nil_append]
    exact read fuel (by simpa using enough)
  | case2 c =>
    obtain ⟨fuel, rfl⟩ : ∃ f, fuel = f + 1 := ⟨fuel - 1, by simp at enough; omega⟩
    rw [List.singleton_append, items_legal (legal c List.mem_cons_self), whole, read fuel (by simp at enough; omega)]
    rfl
  | case3 c s ih =>
    obtain ⟨fuel, rfl⟩ : ∃ f, fuel = f + 1 := ⟨fuel - 1, by simp at enough; omega⟩
    obtain ⟨first, dash, legal⟩ := (List.forall_mem_cons.mp legal).imp id List.forall_mem_cons.mp
    rw [List.cons_append, List.cons_append, items_legal first, quant_legal dash, if_pos rfl,
      ih legal (by simp at enough; omega), spliced, if_pos rfl]
    rfl
  | case4 c d s other ih =>
    obtain ⟨fuel, rfl⟩ : ∃ f, fuel = f + 1 := ⟨fuel - 1, by simp at enough; omega⟩
    obtain ⟨first, legal⟩ := List.forall_mem_cons.mp legal
    have next := @ih fuel legal (by simp at enough ⊢; omega)
    rw [List.cons_append] at next
    rw [List.cons_append, List.cons_append, items_legal first, quant_legal (legal d List.mem_cons_self), if_neg other,
      next, spliced, if_neg other]
    rfl

theorem items_legalSet (n : Nat) (enough : n ≥ 2) : items n "[%w-_/.]+".toList = some [.rep legalSet .plus] := by
  obtain ⟨n, rfl⟩ : ∃ m, n = m + 2 := ⟨n - 2, by omega⟩
  simp [items, single, setElems, quant, legalSet]

theorem items_fin (n : Nat) (enough : n ≥ 1) : items n "$".toList = some [.fin] := by
  obtain ⟨n, rfl⟩ : ∃ m, n = m + 1 := ⟨n - 1, by omega⟩
  simp [items]

end Reading

section Calls
variable {p s : Str}

/-- A text that the argument stands for is in front, and the path goes on behind it. -/
theorem is_prefix_of_iff (legalPath : Legal p) (legal : Legal s) :
    path.is_prefix_of p s ↔ ∃ t, Stands s t ∧ t <+: p ∧ t.length < p.length := by
  have read : compile ("^".toList ++ s ++ "[%w-_/.]+".toList) =
      some { anchor := true, items := spliced s ++ [.rep legalSet .plus] } := by
    rw [show "^".toList = ['^'] from rfl, List.singleton_append, List.cons_append, compile,
      items_append legal items_legalSet (by simp [quant]) (by simp)]
    rfl
  rw [path.is_prefix_of, string_match_anchored read]
  simp only [matches_append, matches_spliced, matches_plus, matches_nil]
  constructor
  · rintro ⟨r, ds, u, es, ⟨t, rfl, stands, rfl⟩, v, w, rfl, some, -, -, -⟩
    refine ⟨t, stands, List.prefix_append t _, ?_⟩
    rw [List.length_append, List.length_append]
    have longer := List.length_pos_of_ne_nil some
    omega
  · rintro ⟨t, stands, ⟨u, rfl⟩, longer⟩
    rw [List.length_append] at longer
    exact ⟨[], [], u, [], ⟨t, rfl, stands, rfl⟩, u, [], (List.append_nil u).symm, List.ne_nil_of_length_pos (by omega),
      (Legal.append_iff.mp legalPath).2, rfl, rfl⟩

/-- A text that the argument stands for is at the end. -/
theorem is_suffix_of_iff (legalPath : Legal p) (legal : Legal s) :
    path.is_suffix_of p s ↔ ∃ t, Stands s t ∧ t <:+ p := by
  have read : compile ("^[%w-_/.]-".toList ++ s ++ "$".toList) =
      some { anchor := true, items := .rep legalSet .minus :: spliced s ++ [.fin] } := by
    have rest : items (s.length + 9) (s ++ "$".toList) = some (spliced s ++ [.fin]) :=
      items_append legal items_fin rfl (by omega)
    simpa [compile, items, single, setElems, quant, legalSet] using rest
  rw [path.is_suffix_of, string_match_anchored read, List.cons_append]
  simp only [matches_minus, matches_append, matches_spliced, matches_fin]
  constructor
  · rintro ⟨r, ds, u, v, rfl, -, w, es, ⟨t, rfl, stands, rfl⟩, rfl, -⟩
    exact ⟨t, stands, u, by rw [List.append_nil]⟩
  · rintro ⟨t, stands, u, rfl⟩
    exact ⟨[], [], u, t, rfl, (Legal.append_iff.mp legalPath).1, [], [], ⟨t, (List.append_nil t).symm, stands, rfl⟩,
      rfl, rfl, rfl⟩

end Calls

/-! ## Arguments that stand for themselves -/

/-- No dot, and a `-` at the beginning only. -/
def Plain (s : Str) : Prop := '.' ∉ s ∧ '-' ∉ s.tail

/-- What the shortest text is that an argument stands for. -/
def shortest : Str → Str
  | [] => []
  | [c] => [c]
  | c :: d :: s => if d = '-' then shortest s else c :: shortest (d :: s)

section Plain
variable {s t : Str}

theorem charOf_self (c : Char) : (charOf c).test c := by
  unfold charOf
  split <;> simp [Single.test, Elem.test]

/-- Other characters than the dot stand for themselves. -/
theorem charOf_iff {c : Char} (noDot : c ≠ '.') {d : Char} : (charOf c).test d ↔ c = d := by
  rw [charOf, if_neg noDot, lit_test]

/-- An argument without dots and quantifiers stands for itself. -/
theorem stands_plain (plain : Plain s) : Stands s t ↔ t = s := by
  obtain ⟨noDot, noDash⟩ := plain
  induction s using spliced.induct generalizing t with
  | case1 => exact Iff.rfl
  | case2 c =>
    simp only [Stands, charOf_iff (fun dot => noDot (dot ▸ List.mem_cons_self))]
    constructor
    · rintro ⟨d, rfl, rfl⟩
      rfl
    · rintro rfl
      exact ⟨c, rfl, rfl⟩
  | case3 c s _ => exact absurd List.mem_cons_self noDash
  | case4 c d s other ih =>
    have rest {b : Str} : Stands (d :: s) b ↔ b = d :: s :=
      ih (fun dot => noDot (List.mem_cons_of_mem c dot)) (fun dash => noDash (List.mem_cons_of_mem d dash))
    simp only [Stands, if_neg other, charOf_iff (fun dot => noDot (dot ▸ List.mem_cons_self)), rest]
    constructor
    · rintro ⟨e, b, rfl, rfl, rfl⟩
      rfl
    · rintro rfl
      exact ⟨c, d :: s, rfl, rfl, rfl⟩

/-- The shortest text that the argument stands for: what is quantified is left out. -/
theorem stands_shortest (s : Str) : Stands s (shortest s) := by
  induction s using spliced.induct with
  | case1 => rfl
  | case2 c => exact ⟨c, rfl, charOf_self c⟩
  | case3 c s ih =>
    rw [Stands, if_pos rfl, shortest, if_pos rfl]
    exact ⟨[], shortest s, rfl, List.forall_mem_nil _, ih⟩
  | case4 c d s other ih =>
    rw [Stands, if_neg other, shortest, if_neg other]
    exact ⟨c, shortest (d :: s), rfl, charOf_self c, ih⟩

theorem shortest_sublist (s : Str) : (shortest s).Sublist s := by
  induction s using spliced.induct with
  | case1 => exact .slnil
  | case2 c => exact .refl _
  | case3 c s ih =>
    rw [shortest, if_pos rfl]
    exact (ih.cons _).cons _
  | case4 c d s other ih =>
    rw [shortest, if_neg other]
    exact ih.cons_cons c

/-- A `-` after a character leaves out both. -/
theorem length_shortest (dash : '-' ∈ s.tail) : (shortest s).length + 2 ≤ s.length := by
  induction s using spliced.induct with
  | case1 => cases dash
  | case2 c => cases dash
  | case3 c s _ =>
    have shorter := (shortest_sublist s).length_le
    rw [shortest, if_pos rfl, List.length_cons, List.length_cons]
    omega
  | case4 c d s other ih =>
    have later : '-' ∈ s := (List.mem_cons.mp dash).resolve_left (Ne.symm other)
    have shorter := ih later
    rw [shortest, if_neg other, List.length_cons, List.length_cons]
    exact Nat.succ_le_succ shorter

/-- Without a `-` after a character, another may stand at each dot. -/
theorem stands_map (noDash : '-' ∉ s.tail) (f : Char → Char) (same : ∀ c, c ≠ '.' → f c = c) : Stands s (s.map f) := by
  have test (c : Char) : (charOf c).test (f c) := by
    by_cases dot : c = '.'
    · rw [charOf, if_pos dot]
      rfl
    · rw [same c dot]
      exact charOf_self c
  induction s using spliced.induct with
  | case1 => rfl
  | case2 c => exact ⟨f c, rfl, test c⟩
  | case3 c s _ => exact absurd List.mem_cons_self noDash
  | case4 c d s other ih =>
    rw [Stands, if_neg other]
    exact ⟨f c, (d :: s).map f, rfl, test c, ih fun dash => noDash (List.mem_cons_of_mem d dash)⟩

/-- An argument that is not plain stands for a text that is shorter by two, or as long and not
the same. -/
theorem stands_other (legal : Legal s) (special : ¬ Plain s) :
    ∃ t, Stands s t ∧ Legal t ∧ (t.length + 2 ≤ s.length ∨ t.length = s.length ∧ t ≠ s) := by
  by_cases dash : '-' ∈ s.tail
  · refine ⟨shortest s, stands_shortest s, ?_, .inl (length_shortest dash)⟩
    exact fun c member => legal c ((shortest_sublist s).subset member)
  · have dot : '.' ∈ s := by
      by_contra noDot
      exact special ⟨noDot, dash⟩
    let f : Char → Char := fun c => if c = '.' then 'a' else c
    refine ⟨s.map f, stands_map dash f (fun c other => if_neg other), ?_, .inr ⟨List.length_map f, ?_⟩⟩
    · rw [Legal, List.forall_mem_map]
      intro c member
      dsimp only [f]
      split
      · decide
      · exact legal c member
    · intro same
      rw [← same] at dot
      obtain ⟨c, -, changed⟩ := List.mem_map.mp dot
      dsimp only [f] at changed
      split at changed
      · exact absurd changed (by decide)
      · next other => exact other changed

end Plain

/-! ## The textual relation -/

/-- The answer is that the path begins with the argument, and goes on. -/
def PrefixRight (p s : Str) : Prop := path.is_prefix_of p s ↔ s <+: p ∧ s.length < p.length

/-- The answer is that the path ends with the argument. -/
def SuffixRight (p s : Str) : Prop := path.is_suffix_of p s ↔ s <:+ p

section Right
variable {p s : Str}

theorem legal_a : Legal ['a'] := by decide

/-- The answer is right for every path if the argument stands for itself. -/
theorem prefixRight_iff (legal : Legal s) : (∀ p, is_legal p → PrefixRight p s) ↔ Plain s := by
  constructor
  · intro right
    by_contra special
    obtain ⟨t, stands, legalT, short⟩ := stands_other legal special
    have legalP : Legal (t ++ ['a']) := Legal.append_iff.mpr ⟨legalT, legal_a⟩
    have answer := (is_prefix_of_iff legalP legal).mpr ⟨t, stands, List.prefix_append t _, by simp⟩
    obtain ⟨text, longer⟩ := (right _ (is_legal_iff.mpr ⟨by simp, legalP⟩)).mp answer
    rw [List.length_append, List.length_singleton] at longer
    obtain shorter | ⟨same, differ⟩ := short
    · omega
    · have whole := List.prefix_of_prefix_length_le text (List.prefix_append t ['a']) (Nat.le_of_eq same.symm)
      exact differ (whole.eq_of_length same.symm).symm
  · intro plain p legalP
    rw [PrefixRight, is_prefix_of_iff (is_legal_iff.mp legalP).2 legal]
    simp only [stands_plain plain, exists_eq_left]

/-- And so is that for the suffix. -/
theorem suffixRight_iff (legal : Legal s) : (∀ p, is_legal p → SuffixRight p s) ↔ Plain s := by
  constructor
  · intro right
    by_contra special
    obtain ⟨t, stands, legalT, short⟩ := stands_other legal special
    obtain shorter | ⟨same, differ⟩ := short
    · have legalP : Legal ('a' :: t) := Legal.append_iff.mpr ⟨legal_a, legalT⟩
      have answer := (is_suffix_of_iff legalP legal).mpr ⟨t, stands, List.suffix_cons 'a' t⟩
      have text := ((right _ (is_legal_iff.mpr ⟨by simp, legalP⟩)).mp answer).length_le
      rw [List.length_cons] at text
      omega
    · have full : t ≠ [] := by
        rintro rfl
        exact differ (List.length_eq_zero_iff.mp same.symm).symm
      have answer := (is_suffix_of_iff legalT legal).mpr ⟨t, stands, List.suffix_refl t⟩
      exact differ (((right _ (is_legal_iff.mpr ⟨full, legalT⟩)).mp answer).eq_of_length same.symm).symm
  · intro plain p legalP
    rw [SuffixRight, is_suffix_of_iff (is_legal_iff.mp legalP).2 legal]
    simp only [stands_plain plain, exists_eq_left]

end Right

/-- **Prefixes and suffixes**: the answers for an argument are right for every path exactly if
it is plain; for one path they are exactly if the texts that it stands for say what it says. -/
theorem affix_iff (s : Str) (legal : is_legal s) :
    ((∀ p, is_legal p → PrefixRight p s ∧ SuffixRight p s) ↔ Plain s) ∧
    ((∀ p, is_legal p → PrefixRight p s) ↔ Plain s) ∧ ((∀ p, is_legal p → SuffixRight p s) ↔ Plain s) ∧
    ∀ p, is_legal p →
      (PrefixRight p s ↔
        ((∃ t, Stands s t ∧ t <+: p ∧ t.length < p.length) ↔ s <+: p ∧ s.length < p.length)) ∧
      (SuffixRight p s ↔ ((∃ t, Stands s t ∧ t <:+ p) ↔ s <:+ p)) := by
  have legal' := (is_legal_iff.mp legal).2
  refine ⟨⟨?_, ?_⟩, prefixRight_iff legal', suffixRight_iff legal', ?_⟩
  · exact fun right => (prefixRight_iff legal').mp fun p legalP => (right p legalP).1
  · exact fun plain p legalP => ⟨(prefixRight_iff legal').mpr plain p legalP, (suffixRight_iff legal').mpr plain p legalP⟩
  · intro p legalP
    have legalP' := (is_legal_iff.mp legalP).2
    rw [PrefixRight, SuffixRight, is_prefix_of_iff legalP' legal', is_suffix_of_iff legalP' legal']
    exact ⟨Iff.rfl, Iff.rfl⟩

theorem affix_iff_name : is_legal "a/b.c".toList ∧
    ((∀ p, is_legal p → PrefixRight p "a/b.c".toList ∧ SuffixRight p "a/b.c".toList) ↔ Plain "a/b.c".toList) :=
  ⟨is_legal_name, (affix_iff _ is_legal_name).1⟩

/-- `a.c` is taken for a prefix of `abcd`. -/
theorem prefix_wildcard : ¬ ∀ p s, is_legal p → is_legal s → PrefixRight p s ∧ SuffixRight p s := by
  intro always
  have legalS : is_legal "a.c".toList := is_legal_iff.mpr ⟨by decide, by decide⟩
  have legalP : is_legal "abcd".toList := is_legal_iff.mpr ⟨by decide, by decide⟩
  have right := (always _ _ legalP legalS).1
  have answer : path.is_prefix_of "abcd".toList "a.c".toList := by
    refine (is_prefix_of_iff (is_legal_iff.mp legalP).2 (is_legal_iff.mp legalS).2).mpr ⟨"abc".toList, ?_, ?_, ?_⟩
    · exact ⟨'a', ['b', 'c'], rfl, rfl, 'b', ['c'], rfl, rfl, 'c', rfl, rfl⟩
    · exact ⟨['d'], rfl⟩
    · decide
  exact absurd (right.mp answer).1 (by decide)

end CodeClips.Lua
