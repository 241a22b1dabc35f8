import CodeClips.Lib.LuaPattern
import CodeClips.Lua.Path

/-!
# Splitting a path in two

`path:split` and `path:split_ext` ask with one pattern whether there is something to split, and
split with another. The second pattern asks for a character before the last slash, or before
the dot of the extension; where there is none, nothing is returned (`lossless_iff`).
-/

namespace CodeClips.Lua

open LuaPattern

/-- One legal character or more, with an extension behind them or without. -/
def is_legal (path : Str) : Bool :=
  (string_match path "^([%w-_/.]+)$".toList).isSome || (string_match path "^([%w-_/.]+)(%.[%w]+)$".toList).isSome

/-- The values that a call to `string.match` stands for: the captures, or a nil. -/
def values : Option (List Str) → List (Option Str)
  | some caps => caps.map some
  | none => [none]

namespace path

/-- The head with its slash and the tail; no slash, no head. -/
def split (path : Str) : List (Option Str) :=
  if (string_match path "/".toList).isSome then values (string_match path "^([%w-_/.]+/)([%w-_.]*)$".toList)
  else some [] :: values (string_match path "^([%w-_/.]+)$".toList)

/-- The root and the extension, where the path ends with a dot and a word. -/
def split_ext (path : Str) : List (Option Str) :=
  if (string_match path "%.[%w]+$".toList).isSome then
    values (string_match path "^([%w-_/.]+)%.([%w]+)$".toList)
  else [some path, some []]

end path

/-! ## The patterns -/

/-- `[%w-_/.]` -/
def legalSet : Single := .set [.cls 'w', .lit '-', .lit '_', .lit '/', .lit '.']

/-- `[%w-_.]` -/
def nameSet : Single := .set [.cls 'w', .lit '-', .lit '_', .lit '.']

/-- `[%w]` -/
def wordSet : Single := .set [.cls 'w']

/-- There are legal characters only. -/
def Legal (p : Str) : Prop := ∀ c ∈ p, legalSet.test c

instance : DecidablePred Legal := List.decidableBAll _

/-- The pattern of `is_legal`, compiled; so the ones below. -/
theorem legal_whole : compile "^([%w-_/.]+)$".toList =
    some { anchor := true, items := [.opens, .rep legalSet .plus, .closes, .fin] } := by
  simp [compile, items, single, setElems, quant, legalSet]

theorem legal_dotted : compile "^([%w-_/.]+)(%.[%w]+)$".toList = some {
    anchor := true
    items := [.opens, .rep legalSet .plus, .closes, .opens, .rep (.elem (.cls '.')) .one, .rep wordSet .plus, .closes,
      .fin] } := by
  simp [compile, items, single, setElems, quant, legalSet, wordSet]

theorem slash_anywhere : compile "/".toList = some { anchor := false, items := [.rep (.elem (.lit '/')) .one] } := by
  simp [compile, items, single, quant]

theorem head_tail : compile "^([%w-_/.]+/)([%w-_.]*)$".toList = some {
    anchor := true
    items := [.opens, .rep legalSet .plus, .rep (.elem (.lit '/')) .one, .closes, .opens, .rep nameSet .star, .closes,
      .fin] } := by
  simp [compile, items, single, setElems, quant, legalSet, nameSet]

theorem ends_dotted : compile "%.[%w]+$".toList = some {
    anchor := false, items := [.rep (.elem (.cls '.')) .one, .rep wordSet .plus, .fin] } := by
  simp [compile, items, single, setElems, quant, wordSet]

theorem root_ext : compile "^([%w-_/.]+)%.([%w]+)$".toList = some {
    anchor := true
    items := [.opens, .rep legalSet .plus, .closes, .rep (.elem (.cls '.')) .one, .opens, .rep wordSet .plus, .closes,
      .fin] } := by
  simp [compile, items, single, setElems, quant, legalSet, wordSet]

/-- The characters of a name are the legal ones, without the slash. -/
theorem nameSet_iff {c : Char} : nameSet.test c ↔ legalSet.test c ∧ c ≠ '/' := by
  by_cases slash : c = '/'
  · subst slash
    decide
  · simp [nameSet, legalSet, Single.test, Elem.test, slash, Ne.symm slash]

theorem legalSet_dot : legalSet.test '.' := by decide

theorem wordSet_legal {c : Char} (word : wordSet.test c) : legalSet.test c := by
  simp only [wordSet, legalSet, Single.test, List.any_cons, List.any_nil, Bool.or_false] at word ⊢
  rw [word, Bool.true_or]

theorem dot_not_word : ¬ wordSet.test '.' := by decide

theorem dot_test {c : Char} : (Single.elem (.cls '.')).test c ↔ '.' = c := by simp [Single.test, Elem.test]

/-! ## What they match -/

/-- Legal texts are put together of legal ones. -/
theorem Legal.append_iff {p q : Str} : Legal (p ++ q) ↔ Legal p ∧ Legal q := List.forall_mem_append

section Match
variable {p : Str}

theorem is_legal_iff : is_legal p ↔ p ≠ [] ∧ Legal p := by
  rw [is_legal, Bool.or_eq_true, string_match_anchored legal_whole, string_match_anchored legal_dotted]
  simp only [matches_opens, matches_closes, matches_plus, matches_char (fun _ => dot_test), matches_fin]
  constructor
  · rintro (⟨r, ds, t, u, rfl, some, legal, rfl, -⟩ | ⟨r, ds, t, u, rfl, some, legal, v, rfl, w, x, rfl, -, word, rfl, -⟩)
    · rw [List.append_nil]
      exact ⟨some, legal⟩
    · refine ⟨List.append_ne_nil_of_left_ne_nil some _, Legal.append_iff.mpr ⟨legal, ?_⟩⟩
      rw [List.append_nil]
      exact List.forall_mem_cons.mpr ⟨legalSet_dot, fun c member => wordSet_legal (word c member)⟩
  · rintro ⟨some, legal⟩
    exact .inl ⟨[], _, p, [], (List.append_nil p).symm, some, legal, rfl, rfl, rfl⟩

/-- The one capture of a legal path is the path. -/
theorem whole_captures (full : p ≠ []) (legal : Legal p) : string_match p "^([%w-_/.]+)$".toList = some [p] := by
  have matched : (string_match p "^([%w-_/.]+)$".toList).isSome := by
    rw [string_match_anchored legal_whole]
    simp only [matches_opens, matches_closes, matches_plus, matches_fin]
    exact ⟨[], _, p, [], (List.append_nil p).symm, full, legal, rfl, rfl, rfl⟩
  obtain ⟨caps, found⟩ := Option.isSome_iff_exists.mp matched
  obtain ⟨r, ds, matched, rfl⟩ := string_match_captures legal_whole found
  simp only [matches_opens, matches_closes, matches_plus, matches_fin] at matched
  obtain ⟨t, u, rfl, -, -, rfl, rfl, rfl⟩ := matched
  rw [found]
  simp [closeCap, captures, capture]

/-- The pattern of the slash finds it anywhere. -/
theorem slash_iff : (string_match p "/".toList).isSome ↔ '/' ∈ p := by
  rw [string_match_free slash_anywhere]
  simp only [matches_char (fun _ => lit_test), matches_nil]
  constructor
  · rintro ⟨t, u, r, ds, rfl, v, rfl, -⟩
    simp
  · intro member
    obtain ⟨t, u, rfl⟩ := List.append_of_mem member
    exact ⟨t, _, u, [], rfl, u, rfl, rfl, rfl⟩

/-- There is a character before the last slash. -/
theorem head_tail_isSome (legal : Legal p) :
    (string_match p "^([%w-_/.]+/)([%w-_.]*)$".toList).isSome ↔
      ∃ head tail, p = head ++ '/' :: tail ∧ head ≠ [] ∧ '/' ∉ tail := by
  rw [string_match_anchored head_tail]
  simp only [matches_opens, matches_closes, matches_plus, matches_char (fun _ => lit_test), matches_star, matches_fin]
  constructor
  · rintro ⟨r, ds, head, u, rfl, some, -, v, rfl, tail, w, rfl, name, rfl, -⟩
    rw [List.append_nil]
    exact ⟨head, tail, rfl, some, fun slash => (nameSet_iff.mp (name '/' slash)).2 rfl⟩
  · rintro ⟨head, tail, rfl, some, last⟩
    obtain ⟨first, second⟩ := Legal.append_iff.mp legal
    refine ⟨[], _, head, _, rfl, some, first, tail, rfl, tail, [], (List.append_nil tail).symm, ?_, rfl, rfl, rfl⟩
    intro c member
    refine nameSet_iff.mpr ⟨second c (List.mem_cons_of_mem _ member), ?_⟩
    rintro rfl
    exact last member

/-- What `head` and `tail` capture: the tail has no slash. -/
theorem head_tail_captures {caps : List Str} (found : string_match p "^([%w-_/.]+/)([%w-_.]*)$".toList = some caps) :
    ∃ head tail, p = head ++ tail ∧ '/' ∉ tail ∧ caps = [head, tail] := by
  obtain ⟨r, ds, matched, rfl⟩ := string_match_captures head_tail found
  simp only [matches_opens, matches_closes, matches_plus, matches_char (fun _ => lit_test), matches_star,
    matches_fin] at matched
  obtain ⟨head, u, rfl, -, -, v, rfl, tail, w, rfl, name, rfl, rfl, rfl⟩ := matched
  refine ⟨head ++ ['/'], tail, by simp, fun slash => (nameSet_iff.mp (name '/' slash)).2 rfl, ?_⟩
  have first := take_before (head ++ ['/']) (tail ++ [])
  have second := take_before tail []
  rw [List.append_assoc, List.singleton_append] at first
  simp only [closeCap, captures, first, second, capture, List.map_cons, List.map_nil, List.reverse_cons,
    List.reverse_nil, List.nil_append, List.singleton_append, reduceCtorEq, if_false]

/-- The path ends with a dot and a word of one character at least. -/
theorem ends_dotted_isSome :
    (string_match p "%.[%w]+$".toList).isSome ↔
      ∃ root ext, p = root ++ '.' :: ext ∧ ext ≠ [] ∧ ∀ c ∈ ext, wordSet.test c := by
  rw [string_match_free ends_dotted]
  simp only [matches_char (fun _ => dot_test), matches_plus, matches_fin]
  constructor
  · rintro ⟨root, u, r, ds, rfl, v, rfl, ext, w, rfl, some, word, rfl, -⟩
    rw [List.append_nil]
    exact ⟨root, ext, rfl, some, word⟩
  · rintro ⟨root, ext, rfl, some, word⟩
    exact ⟨root, _, [], [], rfl, ext, rfl, ext, [], (List.append_nil ext).symm, some, word, rfl, rfl, rfl⟩

/-- There is a character before the dot of the extension. -/
theorem root_ext_isSome (legal : Legal p) :
    (string_match p "^([%w-_/.]+)%.([%w]+)$".toList).isSome ↔
      ∃ root ext, p = root ++ '.' :: ext ∧ root ≠ [] ∧ ext ≠ [] ∧ ∀ c ∈ ext, wordSet.test c := by
  rw [string_match_anchored root_ext]
  simp only [matches_opens, matches_closes, matches_plus, matches_char (fun _ => dot_test), matches_fin]
  constructor
  · rintro ⟨r, ds, root, u, rfl, some, -, v, rfl, ext, w, rfl, more, word, rfl, -⟩
    rw [List.append_nil]
    exact ⟨root, ext, rfl, some, more, word⟩
  · rintro ⟨root, ext, rfl, some, more, word⟩
    exact ⟨[], _, root, _, rfl, some, (Legal.append_iff.mp legal).1, ext, rfl, ext, [], (List.append_nil ext).symm, more,
      word, rfl, rfl, rfl⟩

/-- What the root and the extension capture, which lose the dot between them. -/
theorem root_ext_captures {caps : List Str} (found : string_match p "^([%w-_/.]+)%.([%w]+)$".toList = some caps) :
    ∃ root ext, p = root ++ '.' :: ext ∧ ext ≠ [] ∧ caps = [root, ext] := by
  obtain ⟨r, ds, matched, rfl⟩ := string_match_captures root_ext found
  simp only [matches_opens, matches_closes, matches_plus, matches_char (fun _ => dot_test), matches_fin] at matched
  obtain ⟨root, u, rfl, -, -, v, rfl, ext, w, rfl, more, -, rfl, rfl, rfl⟩ := matched
  refine ⟨root, ext, by simp, more, ?_⟩
  have first := take_before root ('.' :: (ext ++ []))
  have second := take_before ext []
  simp only [closeCap, captures, first, second, capture, List.map_cons, List.map_nil, List.reverse_cons,
    List.reverse_nil, List.nil_append, List.singleton_append, reduceCtorEq, if_false]

end Match

/-! ## What is lost -/

/-- Two strings are returned, the path is both together, and the second has no slash. -/
def SplitsPath (p : Str) : Prop :=
  ∃ head tail, path.split p = [some head, some tail] ∧ head ++ tail = p ∧ '/' ∉ tail

/-- Two strings are returned, and the path is the first with the second as its extension. -/
def SplitsExt (p : Str) : Prop :=
  ∃ root ext, path.split_ext p = [some root, some ext] ∧ p = if ext = [] then root else root ++ '.' :: ext

/-- The only slash is the first character. -/
def TopLevel (p : Str) : Prop := ∃ name, p = '/' :: name ∧ '/' ∉ name

/-- A dot, and then only letters and digits. -/
def Hidden (p : Str) : Prop := ∃ ext, p = '.' :: ext ∧ ext ≠ [] ∧ ∀ c ∈ ext, wordSet.test c

section Splits
variable {p : Str}

/-- The last occurrence of a character. -/
theorem last_of_mem {c : Char} (member : c ∈ p) : ∃ before after, p = before ++ c :: after ∧ c ∉ after := by
  obtain ⟨after, before, split, last⟩ := List.eq_append_cons_of_mem (List.mem_reverse.mpr member)
  refine ⟨before.reverse, after.reverse, ?_, fun later => last (List.mem_reverse.mp later)⟩
  rw [← List.reverse_reverse p, split, List.reverse_append, List.reverse_cons, List.append_assoc,
    List.singleton_append]

/-- Nothing stands before a character that comes first and does not come again. -/
theorem before_eq_nil {c : Char} {name before after : Str} (same : c :: name = before ++ c :: after) (once : c ∉ name) :
    before = [] := by
  cases before with
  | nil => rfl
  | cons d before =>
    rw [List.cons_append, List.cons.injEq] at same
    exact absurd (by rw [same.2]; simp) once

/-- A path is lost in `split` if its only slash is the first character. -/
theorem splitsPath_iff (legal : is_legal p) : SplitsPath p ↔ ¬ TopLevel p := by
  obtain ⟨some, legal⟩ := is_legal_iff.mp legal
  unfold SplitsPath path.split
  by_cases slash : '/' ∈ p
  · rw [if_pos (slash_iff.mpr slash)]
    cases found : string_match p "^([%w-_/.]+/)([%w-_.]*)$".toList with
    | some caps =>
      obtain ⟨head, tail, split, last, rfl⟩ := head_tail_captures found
      obtain ⟨before, after, split', more, -⟩ := (head_tail_isSome legal).mp (found ▸ rfl)
      refine iff_of_true ⟨head, tail, rfl, split.symm, last⟩ ?_
      rintro ⟨name, top, once⟩
      exact more (before_eq_nil (top.symm.trans split') once)
    | none =>
      refine iff_of_false ?_ (not_not_intro ?_)
      · rintro ⟨head, tail, nothing, -⟩
        cases nothing
      · obtain ⟨before, after, split, last⟩ := last_of_mem slash
        by_cases first : before = []
        · exact ⟨after, by rw [split, first, List.nil_append], last⟩
        · have matched := (head_tail_isSome legal).mpr ⟨before, after, split, first, last⟩
          rw [found] at matched
          cases matched
  · rw [if_neg fun matched => slash (slash_iff.mp matched)]
    refine iff_of_true ⟨[], p, by rw [whole_captures some legal]; rfl, rfl, slash⟩ ?_
    rintro ⟨name, rfl, -⟩
    exact slash List.mem_cons_self

/-- And in `split_ext` if its only dot is the first character, with a word behind it. -/
theorem splitsExt_iff (legal : is_legal p) : SplitsExt p ↔ ¬ Hidden p := by
  obtain ⟨-, legal⟩ := is_legal_iff.mp legal
  unfold SplitsExt path.split_ext
  by_cases guarded : (string_match p "%.[%w]+$".toList).isSome
  · rw [if_pos guarded]
    cases found : string_match p "^([%w-_/.]+)%.([%w]+)$".toList with
    | some caps =>
      obtain ⟨root, ext, split, more, rfl⟩ := root_ext_captures found
      obtain ⟨before, after, split', some, -⟩ := (root_ext_isSome legal).mp (found ▸ rfl)
      refine iff_of_true ⟨root, ext, rfl, by rw [if_neg more, split]⟩ ?_
      rintro ⟨name, hidden, -, word⟩
      exact some (before_eq_nil (hidden.symm.trans split') fun dot => dot_not_word (word '.' dot))
    | none =>
      refine iff_of_false ?_ (not_not_intro ?_)
      · rintro ⟨root, ext, nothing, -⟩
        cases nothing
      · obtain ⟨root, ext, split, more, word⟩ := ends_dotted_isSome.mp guarded
        by_cases first : root = []
        · exact ⟨ext, by rw [split, first, List.nil_append], more, word⟩
        · have matched := (root_ext_isSome legal).mpr ⟨root, ext, split, first, more, word⟩
          rw [found] at matched
          cases matched
  · rw [if_neg guarded]
    refine iff_of_true ⟨p, [], rfl, (if_pos rfl).symm⟩ ?_
    rintro ⟨ext, split, more, word⟩
    exact guarded (ends_dotted_isSome.mpr ⟨[], ext, split, more, word⟩)

end Splits

/-- **Splitting** loses nothing of a legal path exactly if it has a slash that is not the first
character, or none, and is not only a dot and an extension. -/
theorem lossless_iff (p : Str) (legal : is_legal p) :
    (SplitsPath p ↔ ¬ TopLevel p) ∧ (SplitsExt p ↔ ¬ Hidden p) ∧
      (SplitsPath p ∧ SplitsExt p ↔ ¬ TopLevel p ∧ ¬ Hidden p) :=
  ⟨splitsPath_iff legal, splitsExt_iff legal, and_congr (splitsPath_iff legal) (splitsExt_iff legal)⟩

theorem is_legal_name : is_legal "a/b.c".toList := is_legal_iff.mpr ⟨by decide, by decide⟩

theorem lossless_iff_name : is_legal "a/b.c".toList ∧ (SplitsPath "a/b.c".toList ∧ SplitsExt "a/b.c".toList ↔
    ¬ TopLevel "a/b.c".toList ∧ ¬ Hidden "a/b.c".toList) :=
  ⟨is_legal_name, (lossless_iff _ is_legal_name).2.2⟩

/-- A file in the root directory: the head would be `/` alone. -/
theorem split_nothing : ¬ ∀ p, is_legal p → SplitsPath p ∧ SplitsExt p := by
  intro always
  have legal : is_legal "/a".toList := is_legal_iff.mpr ⟨by decide, by decide⟩
  have top : TopLevel "/a".toList := ⟨['a'], by decide, by decide⟩
  exact (splitsPath_iff legal).mp (always _ legal).1 top

end CodeClips.Lua
