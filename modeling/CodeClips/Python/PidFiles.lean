import CodeClips.Python.ManagerServer
import Mathlib.Data.List.Infix

/-!
# Names of pid files

The name of the pid file is made by three replacements, and that of the configuration file by
three others, which do not undo the first in the opposite order. They do not disturb each other
as long as no name runs into an extension: a path is a list of tokens, the extensions `.conf`
and `.pid` and the characters between, and the replacement of a name keeps the extensions, that
of an extension the rest.
-/

namespace CodeClips.Manager

open Replace (replace Kept Exchanged)

/-- `.conf` or `.pid`. -/
def ext (conf : Bool) : Str := if conf then ".conf".toList else ".pid".toList

inductive Tok
  | char (c : Char)
  | ext (conf : Bool)
  deriving DecidableEq

/-- The path that tokens are. -/
def text : List Tok → Str
  | [] => []
  | .char c :: ts => c :: text ts
  | .ext b :: ts => ext b ++ text ts

/-- No extension is made of characters. -/
def Spelled (ts : List Tok) : Prop := ∀ b, ¬ (ext b).map Tok.char <:+: ts

/-- No name in the path runs into an extension. -/
def Apart (name s : Str) : Prop :=
  ∀ b u v x y, s = u ++ (ext b ++ v) → s = x ++ (name ++ y) →
    u.length + (ext b).length ≤ x.length ∨ x.length + name.length ≤ u.length

/-- The tokens of a path; the first argument counts the characters left of an extension. -/
def scan : Nat → Str → List Tok
  | _, [] => []
  | n + 1, _ :: s => scan n s
  | 0, c :: s =>
    if ext true <+: c :: s then .ext true :: scan 4 s
    else if ext false <+: c :: s then .ext false :: scan 3 s
    else .char c :: scan 0 s

def tokens (s : Str) : List Tok := scan 0 s

section Text
variable {name : Str} {ts ts' : List Tok} {b : Bool} {c : Char}

theorem text_append (ts ts' : List Tok) : text (ts ++ ts') = text ts ++ text ts' := by
  induction ts with
  | nil => rfl
  | cons t ts ih =>
    cases t with
    | char c => rw [List.cons_append, text, text, ih, List.cons_append]
    | ext b => rw [List.cons_append, text, text, ih, List.append_assoc]

theorem text_char (name : Str) : text (name.map .char) = name := by
  induction name with
  | nil => rfl
  | cons c name ih => rw [List.map_cons, text, ih]

theorem ext_eq (b : Bool) : ∃ word, ext b = '.' :: word ∧ '.' ∉ word ∧ '-' ∉ word := by
  cases b
  · exact ⟨"pid".toList, by decide⟩
  · exact ⟨"conf".toList, by decide⟩

/-- Without a dot only characters are matched. -/
theorem prefix_text (dot : '.' ∉ name) : name <+: text ts ↔ name.map .char <+: ts := by
  induction name generalizing ts with
  | nil => simp
  | cons c name ih =>
    rw [List.mem_cons, not_or] at dot
    cases ts with
    | nil => simp [text]
    | cons t ts =>
      cases t with
      | char d => rw [text, List.map_cons, List.cons_prefix_cons, List.cons_prefix_cons, ih dot.2, Tok.char.injEq]
      | ext b =>
        obtain ⟨word, split, -⟩ := ext_eq b
        rw [text, split, List.map_cons, List.cons_append, List.cons_prefix_cons, List.cons_prefix_cons]
        simp [Ne.symm dot.1]

theorem ext_prefix_ext {b b' : Bool} {s s' : Str} (same : ext b ++ s = ext b' ++ s') : b = b' := by
  cases b <;> cases b' <;> first | rfl | exact absurd same (by simp [ext])

/-- An extension in a path is a token. -/
theorem ext_prefix_text (spelled : Spelled ts) : ext b <+: text ts ↔ ∃ r, ts = .ext b :: r := by
  constructor
  · rintro ⟨s, same⟩
    cases ts with
    | nil => cases b <;> cases same
    | cons t r =>
      cases t with
      | char d =>
        obtain ⟨word, split, dot, -⟩ := ext_eq b
        rw [split, text, List.cons_append, List.cons.injEq] at same
        obtain ⟨rfl, rest⟩ := same
        have chars := (prefix_text dot).mp ⟨s, rest⟩
        refine absurd ?_ (spelled b)
        rw [split, List.map_cons]
        exact (List.cons_prefix_cons.mpr ⟨rfl, chars⟩).isInfix
      | ext b' => exact ⟨r, by rw [ext_prefix_ext same]⟩
  · rintro ⟨r, rfl⟩
    exact ⟨text r, rfl⟩

theorem Spelled.tail {t : Tok} (spelled : Spelled (t :: ts)) : Spelled ts :=
  fun b inside => spelled b (inside.trans (List.suffix_cons t ts).isInfix)

/-- Different tokens are different paths. -/
theorem text_injective (spelled : Spelled ts) (spelled' : Spelled ts') (same : text ts = text ts') : ts = ts' := by
  induction ts generalizing ts' with
  | nil =>
    cases ts' with
    | nil => rfl
    | cons t ts' =>
      cases t with
      | char c => cases same
      | ext b => cases b <;> cases same
  | cons t ts ih =>
    cases t with
    | ext b =>
      obtain ⟨r, rfl⟩ := (ext_prefix_text spelled').mp ⟨text ts, same⟩
      rw [ih spelled.tail spelled'.tail (List.append_cancel_left same)]
    | char c =>
      cases ts' with
      | nil => cases same
      | cons t' ts' =>
        cases t' with
        | char c' =>
          obtain ⟨rfl, rest⟩ := List.cons.inj same
          rw [ih spelled.tail spelled'.tail rest]
        | ext b =>
          obtain ⟨r, split⟩ := (ext_prefix_text spelled).mp ⟨text ts', same.symm⟩
          cases split

theorem scan_drop (n : Nat) (s : Str) : scan n s = scan 0 (s.drop n) := by
  induction n generalizing s with
  | zero => rw [List.drop_zero]
  | succ n ih =>
    cases s with
    | nil => rw [List.drop_nil, scan, scan]
    | cons c s => rw [scan, ih, List.drop_succ_cons]

theorem tokens_ext (b : Bool) (r : Str) : tokens (ext b ++ r) = .ext b :: tokens r := by
  cases b
  · have other : ¬ ext true <+: '.' :: ("pid".toList ++ r) := by
      rintro ⟨v, same⟩
      have equal : true = false := ext_prefix_ext same
      cases equal
    have here : ext false <+: '.' :: ("pid".toList ++ r) := ⟨r, rfl⟩
    show scan 0 ('.' :: ("pid".toList ++ r)) = _
    rw [scan, if_neg other, if_pos here, scan_drop]
    rfl
  · have here : ext true <+: '.' :: ("conf".toList ++ r) := ⟨r, rfl⟩
    show scan 0 ('.' :: ("conf".toList ++ r)) = _
    rw [scan, if_pos here, scan_drop]
    rfl

theorem tokens_char {s : Str} (clear : ∀ b, ¬ ext b <+: c :: s) : tokens (c :: s) = .char c :: tokens s := by
  rw [tokens, scan, if_neg (clear true), if_neg (clear false)]
  rfl

/-- Every path is one of tokens. -/
theorem text_tokens (s : Str) : Spelled (tokens s) ∧ text (tokens s) = s := by
  induction size : s.length using Nat.strongRecOn generalizing s with
  | _ n ih =>
    by_cases found : ∃ b, ext b <+: s
    · obtain ⟨b, r, rfl⟩ := found
      obtain ⟨spelled, same⟩ := ih r.length (by rw [← size, List.length_append]; cases b <;> simp [ext]) r rfl
      rw [tokens_ext, text, same]
      refine ⟨?_, rfl⟩
      intro b' inside
      rcases List.infix_cons_iff.mp inside with here | later
      · obtain ⟨word, split, -⟩ := ext_eq b'
        rw [split, List.map_cons, List.cons_prefix_cons] at here
        cases here.1
      · exact spelled b' later
    · cases s with
      | nil => exact ⟨fun b inside => by cases b <;> simp [ext, tokens, scan] at inside, rfl⟩
      | cons c s =>
        obtain ⟨spelled, same⟩ := ih s.length (by rw [← size, List.length_cons]; omega) s rfl
        rw [tokens_char fun b here => found ⟨b, here⟩, text, same]
        refine ⟨?_, rfl⟩
        intro b inside
        rcases List.infix_cons_iff.mp inside with ⟨r, here⟩ | later
        · refine found ⟨b, text r, ?_⟩
          have whole := congrArg text here
          rwa [text_append, text_char, text, same] at whole
        · exact spelled b later

theorem exists_text (s : Str) : ∃ ts, Spelled ts ∧ text ts = s := ⟨tokens s, text_tokens s⟩

/-- No extension comes from tokens that are not part of one. -/
theorem Spelled.replaced {old new : List Tok} (spelled : Spelled ts) (dot : .char '.' ∉ new)
    (outside : ∀ b, ¬ new <:+: (ext b).map .char) (ends : ∀ b z, z <:+ (ext b).map .char → z ≠ [] → ¬ z <+: new) :
    Spelled (replace old new ts) := by
  by_cases found : old <:+: ts
  · obtain ⟨u, v, rfl, first⟩ := Replace.exists_first found
    rw [Replace.replace_first first]
    intro b inside
    have before := spelled b
    have within := outside b
    have parts := ends b
    obtain ⟨word, dotted, -⟩ := ext_eq b
    rw [dotted, List.map_cons] at inside before within parts
    have tail := (List.suffix_cons (Tok.char '.') (word.map .char))
    rcases Replace.infix_sides dot (fun more => within (more.trans tail.isInfix))
      (fun z suffix => parts z (suffix.trans tail)) inside with left | right
    · exact before (left.trans ⟨[], old ++ v, rfl⟩)
    · exact before (right.trans ⟨u ++ old, [], by simp⟩)
  · rwa [Replace.replace_of_outside found]

end Text

/-! ## Replacing a name -/

section Name
variable {old new name : Str} {ts : List Tok}

theorem text_eq_nil (none : text ts = []) : ts = [] := by
  cases ts with
  | nil => rfl
  | cons t ts =>
    cases t with
    | char c => cases none
    | ext b => cases b <;> cases none

theorem Apart.behind {l s : Str} (apart : Apart name (l ++ s)) : Apart name s := by
  intro b u v x y extension here
  have sides := apart b (l ++ u) v (l ++ x) y (by rw [extension, List.append_assoc]) (by rw [here, List.append_assoc])
  simp only [List.length_append] at sides
  omega

/-- No name begins in an extension. -/
theorem Apart.clear {s : Str} {b : Bool} (apart : Apart name (ext b ++ s)) (some : name ≠ []) (u v : Str)
    (same : ext b ++ s = u ++ (name ++ v)) : (ext b).length ≤ u.length := by
  have sides := apart b [] s u v rfl same
  have full := List.length_pos_iff.mpr some
  rw [List.length_nil] at sides
  omega

/-- Where no extension begins only characters are matched. -/
theorem chars_prefix (clear : ∀ b u v, text ts = u ++ (ext b ++ v) → name.length ≤ u.length) (here : name <+: text ts) :
    name.map .char <+: ts := by
  induction name generalizing ts with
  | nil => exact List.nil_prefix
  | cons c name ih =>
    cases ts with
    | nil => exact absurd (List.prefix_nil.mp here) (List.cons_ne_nil _ _)
    | cons t ts =>
      cases t with
      | char d =>
        rw [text, List.cons_prefix_cons] at here
        obtain ⟨rfl, rest⟩ := here
        refine List.cons_prefix_cons.mpr ⟨rfl, ih ?_ rest⟩
        intro b u v same
        exact Nat.le_of_succ_le_succ (clear b (c :: u) v (congrArg (c :: ·) same))
      | ext b => exact absurd (clear b [] (text ts) rfl) (Nat.not_succ_le_zero _)

theorem Apart.prefix_iff (apart : Apart name (text ts)) : name <+: text ts ↔ name.map .char <+: ts := by
  constructor
  · rintro ⟨y, same⟩
    refine chars_prefix ?_ ⟨y, same⟩
    intro b u v extension
    have full : 0 < (ext b).length := by cases b <;> decide
    have sides := apart b u v [] y extension same.symm
    rw [List.length_nil] at sides
    omega
  · rintro ⟨r, rfl⟩
    rw [text_append, text_char]
    exact List.prefix_append _ _

/-- A name is replaced among the characters. -/
theorem replace_name_text (apart : Apart old (text ts)) (some : old ≠ []) :
    replace old new (text ts) = text (replace (old.map .char) (new.map .char) ts) := by
  induction ts with
  | nil => rw [text, replace, replace, if_neg some, if_neg (by simp [some]), text]
  | cons t ts ih =>
    by_cases here : old.map .char <+: t :: ts
    · obtain ⟨r, split⟩ := here
      rw [← split, text_append, text_char]
      rw [Replace.replace_prefix, Replace.replace_prefix, text_append, text_char]
    · rw [replace, if_neg here]
      cases t with
      | char c =>
        have before : ¬ old <+: c :: text ts := fun found => here (apart.prefix_iff.mp found)
        rw [text, replace, if_neg before, ih (Apart.behind (l := [c]) apart), text]
      | ext b => rw [text, Replace.replace_append (Apart.clear apart some), ih apart.behind, text]

/-- A new name that runs into no extension makes none. -/
theorem Spelled.replace_name (spelled : Spelled ts) (apart : Apart new (text (replace (old.map .char) (new.map .char) ts))) :
    Spelled (replace (old.map .char) (new.map .char) ts) := by
  by_cases found : old.map .char <:+: ts
  · obtain ⟨u, v, rfl, first⟩ := Replace.exists_first found
    rw [Replace.replace_first first] at apart ⊢
    rintro b ⟨p, q, same⟩
    have whole := congrArg text same
    simp only [text_append, text_char, List.append_assoc] at whole
    rw [List.append_assoc] at same
    -- an extension lies before the new name or behind it, and so it was there before
    rcases apart b (text p) (text q) (text u) (text v) (by simp only [text_append, text_char, whole])
      (by simp only [text_append, text_char]) with before | behind
    · apply spelled b
      rw [← List.append_assoc] at same
      rcases List.append_eq_append_iff.mp same with ⟨c, longer, -⟩ | ⟨c, longer, -⟩
      · exact ⟨p, c ++ (old.map .char ++ v), by simp only [longer, List.append_assoc]⟩
      · have size := congrArg (List.length ∘ text) longer
        simp only [Function.comp_apply, text_append, text_char, List.length_append] at size
        have none : text c = [] := List.length_eq_zero_iff.mp (by omega)
        obtain rfl := text_eq_nil none
        rw [List.append_nil] at longer
        exact ⟨p, old.map .char ++ v, by rw [longer]⟩
    · apply spelled b
      rw [← List.append_assoc u] at same
      rcases List.append_eq_append_iff.mp same with ⟨c, longer, rest⟩ | ⟨c, -, rest⟩
      · have size := congrArg (List.length ∘ text) longer
        simp only [Function.comp_apply, text_append, text_char, List.length_append] at size
        have none : text c = [] := List.length_eq_zero_iff.mp (by omega)
        obtain rfl := text_eq_nil none
        exact ⟨u ++ old.map .char, q, by rw [List.append_assoc, rest]; simp⟩
      · exact ⟨u ++ (old.map .char ++ c), q, by simp only [rest, List.append_assoc]⟩
  · rwa [Replace.replace_of_outside found]

end Name

/-! ## Replacing an extension -/

section Ext
variable {ts : List Tok} {b b' : Bool}

/-- No extension begins in another. -/
theorem ext_clear (other : b' ≠ b) (s u v : Str) (same : ext b' ++ s = u ++ (ext b ++ v)) : (ext b').length ≤ u.length := by
  rcases List.append_eq_append_iff.mp same with ⟨w, longer, -⟩ | ⟨w, taken, behind⟩
  · rw [longer, List.length_append]
    exact Nat.le_add_right _ _
  · cases u with
    | nil =>
      rw [List.nil_append] at taken
      exact absurd (ext_prefix_ext (taken ▸ behind)).symm other
    | cons d u =>
      obtain ⟨word, dotted, dot, -⟩ := ext_eq b'
      obtain ⟨word', dotted', -⟩ := ext_eq b
      rw [dotted, List.cons_append, List.cons.injEq] at taken
      cases w with
      | nil => exact Nat.le_of_eq (by rw [dotted, taken.2, List.append_nil]; rfl)
      | cons e w =>
        rw [dotted', List.cons_append, List.cons_append, List.cons.injEq] at behind
        exact absurd (by simp [taken.2, ← behind.1]) dot

theorem replace_ext_text (spelled : Spelled ts) :
    replace (ext b) (ext b') (text ts) = text (replace [.ext b] [.ext b'] ts) := by
  induction ts with
  | nil => cases b <;> rfl
  | cons t ts ih =>
    have rest := ih spelled.tail
    cases t with
    | char c =>
      have before : ¬ ext b <+: text (.char c :: ts) := by
        rw [ext_prefix_text spelled]
        rintro ⟨r, ⟨⟩⟩
      rw [text] at before ⊢
      rw [replace, if_neg before, rest, replace, if_neg (by simp), text]
    | ext c =>
      by_cases same : c = b
      · subst same
        have toks : replace [.ext c] [.ext b'] (.ext c :: ts) = .ext b' :: ts := Replace.replace_prefix [.ext c] _ ts
        rw [toks, text, text, Replace.replace_prefix]
      · rw [replace, if_neg (by simp [Ne.symm same]), text, text, Replace.replace_append (ext_clear same (text ts)), rest]

theorem Spelled.replace_ext (spelled : Spelled ts) : Spelled (replace [.ext b] [.ext b'] ts) := by
  have outside (c : Bool) : .ext b' ∉ (ext c).map Tok.char := by simp
  refine spelled.replaced (by simp) ?_ ?_
  · exact fun c within => outside c (within.subset (List.mem_singleton_self _))
  · intro c z suffix some begins
    obtain ⟨t, z, rfl⟩ := List.exists_cons_of_ne_nil some
    rw [List.cons_prefix_cons] at begins
    exact outside c (begins.1 ▸ suffix.subset List.mem_cons_self)

end Ext

/-! ## Names and extensions apart -/

/-- A character, or the place of an extension. -/
def Tok.blank : Tok → Option Char
  | .char c => some c
  | .ext _ => none

def Tok.ext? : Tok → Option Bool
  | .char _ => none
  | .ext b => some b

section Projections
variable {old new : Str} {ts ts' : List Tok} {b b' : Bool}

/-- The characters and places, and the extensions for these, are the tokens. -/
theorem eq_of_apart (blank : ts.map Tok.blank = ts'.map Tok.blank) (exts : ts.filterMap Tok.ext? = ts'.filterMap Tok.ext?) :
    ts = ts' := by
  induction ts generalizing ts' with
  | nil => exact (List.map_eq_nil_iff.mp blank.symm).symm
  | cons t ts ih =>
    cases ts' with
    | nil => cases blank
    | cons t' ts' =>
      obtain ⟨first, rest⟩ := List.cons.inj blank
      cases t with
      | char c =>
        cases t' with
        | char c' => rw [Tok.char.injEq _ _ |>.mpr (Option.some.inj first), ih rest exts]
        | ext b' => cases first
      | ext b =>
        cases t' with
        | char c' => cases first
        | ext b' =>
          obtain ⟨same, others⟩ := List.cons.inj exts
          rw [same, ih rest others]

theorem map_blank_char (name : Str) : (name.map Tok.char).map Tok.blank = name.map some := List.map_map

theorem filterMap_ext_char (name : Str) : (name.map Tok.char).filterMap Tok.ext? = [] := by
  rw [List.filterMap_eq_nil_iff, List.forall_mem_map]
  exact fun _ _ => rfl

theorem blank_replace_name (old new : Str) (ts : List Tok) :
    (replace (old.map .char) (new.map .char) ts).map Tok.blank = replace (old.map some) (new.map some) (ts.map Tok.blank) := by
  rw [← map_blank_char, ← map_blank_char, Replace.replace_map]
  intro s
  induction old generalizing s with
  | nil => exact fun _ => List.nil_prefix
  | cons c old ih =>
    intro found
    cases s with
    | nil => exact absurd (List.prefix_nil.mp found) (List.cons_ne_nil _ _)
    | cons t s =>
      rw [List.map_cons, List.map_cons, List.map_cons, List.cons_prefix_cons] at found
      cases t with
      | char d =>
        obtain rfl := Option.some.inj found.1
        exact List.cons_prefix_cons.mpr ⟨rfl, ih s found.2⟩
      | ext b => cases found.1

theorem exts_replace_name (old new : Str) (ts : List Tok) :
    (replace (old.map .char) (new.map .char) ts).filterMap Tok.ext? = ts.filterMap Tok.ext? := by
  by_cases found : old.map Tok.char <:+: ts
  · obtain ⟨u, v, rfl, first⟩ := Replace.exists_first found
    simp only [Replace.replace_first first, List.filterMap_append, filterMap_ext_char]
  · rw [Replace.replace_of_outside found]

theorem blank_replace_ext (b b' : Bool) (ts : List Tok) :
    (replace [.ext b] [.ext b'] ts).map Tok.blank = ts.map Tok.blank := by
  by_cases found : [Tok.ext b] <:+: ts
  · obtain ⟨u, v, rfl, first⟩ := Replace.exists_first found
    simp only [Replace.replace_first first, List.map_append, List.map_cons, Tok.blank]
  · rw [Replace.replace_of_outside found]

theorem exts_replace_ext (b b' : Bool) (ts : List Tok) :
    (replace [.ext b] [.ext b'] ts).filterMap Tok.ext? = replace [b] [b'] (ts.filterMap Tok.ext?) := by
  induction ts with
  | nil => rfl
  | cons t ts ih =>
    cases t with
    | char c =>
      rw [replace, if_neg (by simp)]
      exact ih
    | ext c =>
      by_cases same : b = c
      · subst same
        have toks : replace [.ext b] [.ext b'] (.ext b :: ts) = .ext b' :: ts := Replace.replace_prefix [.ext b] _ ts
        have bits : replace [b] [b'] (b :: ts.filterMap Tok.ext?) = b' :: ts.filterMap Tok.ext? := Replace.replace_prefix [b] _ _
        rw [toks]
        exact bits.symm
      · rw [replace, if_neg (by simp [same])]
        have bits : replace [b] [b'] (c :: ts.filterMap Tok.ext?) = c :: replace [b] [b'] (ts.filterMap Tok.ext?) := by
          rw [replace, if_neg (by simp [same])]
        exact (congrArg (c :: ·) ih).trans bits.symm

/-- Two spelled paths are the same if they are the same apart. -/
theorem text_eq_iff (spelled : Spelled ts) (spelled' : Spelled ts') :
    text ts = text ts' ↔ ts.map Tok.blank = ts'.map Tok.blank ∧ ts.filterMap Tok.ext? = ts'.filterMap Tok.ext? := by
  constructor
  · intro same
    rw [text_injective spelled spelled' same]
    exact ⟨rfl, rfl⟩
  · rintro ⟨blank, exts⟩
    rw [eq_of_apart blank exts]

/-- An extension is put back exactly if it is among the extensions alone. -/
theorem replace_ext_iff (spelled : Spelled ts) :
    replace (ext b') (ext b) (replace (ext b) (ext b') (text ts)) = text ts ↔
      replace [b'] [b] (replace [b] [b'] (ts.filterMap Tok.ext?)) = ts.filterMap Tok.ext? := by
  rw [replace_ext_text spelled, replace_ext_text spelled.replace_ext,
    text_eq_iff spelled.replace_ext.replace_ext spelled, blank_replace_ext, blank_replace_ext, exts_replace_ext,
    exts_replace_ext, and_iff_right rfl]

/-- Two paths become the same exactly if the rest is and the extensions do. -/
theorem replace_ext_eq_iff (spelled : Spelled ts) (spelled' : Spelled ts') :
    replace (ext b) (ext b') (text ts) = replace (ext b) (ext b') (text ts') ↔
      ts.map Tok.blank = ts'.map Tok.blank ∧
        replace [b] [b'] (ts.filterMap Tok.ext?) = replace [b] [b'] (ts'.filterMap Tok.ext?) := by
  rw [replace_ext_text spelled, replace_ext_text spelled', text_eq_iff spelled.replace_ext spelled'.replace_ext]
  simp only [blank_replace_ext, exts_replace_ext]

/-- What is blank for a name is the name. -/
theorem eq_chars_of_blank {name : Str} (blank : ts.map Tok.blank = name.map some) : ts = name.map .char := by
  induction name generalizing ts with
  | nil => exact List.map_eq_nil_iff.mp blank
  | cons c name ih =>
    cases ts with
    | nil => cases blank
    | cons t ts =>
      obtain ⟨first, rest⟩ := List.cons.inj blank
      cases t with
      | char d => rw [Option.some.inj first, ih rest, List.map_cons]
      | ext b => cases first

/-- Which extensions there are does not matter for that. -/
theorem Spelled.of_blank (spelled : Spelled ts) (same : ts.map Tok.blank = ts'.map Tok.blank) : Spelled ts' := by
  rintro b ⟨p, q, rfl⟩
  rw [List.append_assoc, List.map_append, List.map_append] at same
  obtain ⟨p', r', rfl, -, rest⟩ := List.map_eq_append_iff.mp same
  obtain ⟨e, q', rfl, extension, -⟩ := List.map_eq_append_iff.mp rest
  rw [map_blank_char] at extension
  rw [eq_chars_of_blank extension] at spelled
  exact spelled b ⟨p', q', by rw [List.append_assoc]⟩

section Both
variable (full : old ≠ [])
include full

/-- **Both replacements** are undone exactly if each is when done alone. -/
theorem replace_both_iff {s : Str} (full' : new ≠ []) (asked : Apart old s) (put : Apart new (replace old new s))
    (found : Apart new (replace (ext b) (ext b') (replace old new s)))
    (back : Apart old (replace new old (replace (ext b) (ext b') (replace old new s)))) :
    replace (ext b') (ext b) (replace new old (replace (ext b) (ext b') (replace old new s))) = s ↔
      replace new old (replace old new s) = s ∧ replace (ext b') (ext b) (replace (ext b) (ext b') s) = s := by
  obtain ⟨ts, spelled, rfl⟩ := exists_text s
  rw [replace_name_text asked full] at put found back ⊢
  have one := spelled.replace_name put
  rw [replace_ext_text one] at found back ⊢
  rw [replace_name_text found full'] at back ⊢
  have three := one.replace_ext.replace_name back
  have alone : Spelled (replace (new.map .char) (old.map .char) (replace (old.map .char) (new.map .char) ts)) := by
    apply three.of_blank
    simp only [blank_replace_name, blank_replace_ext]
  rw [replace_name_text put full', replace_ext_text three, text_eq_iff three.replace_ext spelled, text_eq_iff alone spelled,
    replace_ext_iff spelled]
  simp only [blank_replace_ext, blank_replace_name, exts_replace_ext, exts_replace_name, and_true]

/-- The same where the name is not put back. -/
theorem replace_ext_only_iff {s : Str} (asked : Apart old s) (put : Apart new (replace old new s)) :
    replace (ext b') (ext b) (replace (ext b) (ext b') (replace old new s)) = s ↔
      replace old new s = s ∧ replace (ext b') (ext b) (replace (ext b) (ext b') s) = s := by
  obtain ⟨ts, spelled, rfl⟩ := exists_text s
  rw [replace_name_text asked full] at put ⊢
  have one := spelled.replace_name put
  rw [replace_ext_text one, replace_ext_text one.replace_ext, text_eq_iff one.replace_ext.replace_ext spelled,
    text_eq_iff one spelled, replace_ext_iff spelled]
  simp only [blank_replace_ext, blank_replace_name, exts_replace_ext, exts_replace_name, and_true]

/-- **Two paths** become the same exactly if they do apart. -/
theorem replace_both_eq_iff {s s' : Str} (asked : Apart old s) (put : Apart new (replace old new s)) (asked' : Apart old s')
    (put' : Apart new (replace old new s')) :
    replace (ext b) (ext b') (replace old new s) = replace (ext b) (ext b') (replace old new s') ↔
      replace (old.map some) (new.map some) ((tokens s).map Tok.blank) =
          replace (old.map some) (new.map some) ((tokens s').map Tok.blank) ∧
        replace [b] [b'] ((tokens s).filterMap Tok.ext?) = replace [b] [b'] ((tokens s').filterMap Tok.ext?) := by
  have pieces {s : Str} (asked : Apart old s) (put : Apart new (replace old new s)) :
      Spelled (replace (old.map .char) (new.map .char) (tokens s)) ∧
        replace old new s = text (replace (old.map .char) (new.map .char) (tokens s)) := by
    obtain ⟨spelled, same⟩ := text_tokens s
    have named : replace old new s = text (replace (old.map .char) (new.map .char) (tokens s)) := by
      rw [← same] at asked
      rw [← replace_name_text asked full, same]
    exact ⟨spelled.replace_name (named ▸ put), named⟩
  obtain ⟨one, eq⟩ := pieces asked put
  obtain ⟨one', eq'⟩ := pieces asked' put'
  rw [eq, eq', replace_ext_eq_iff one one']
  simp only [blank_replace_name, exts_replace_name]

end Both

end Projections

/-- One extension lies behind another. -/
theorem ext_split {x u s v : Str} {b b' : Bool} (same : x ++ (ext b ++ s) = u ++ (ext b' ++ v)) (before : u.length < x.length) :
    ∃ w, x = u ++ (ext b' ++ w) := by
  obtain ⟨word, dotted, -⟩ := ext_eq b
  obtain ⟨word', dotted', dot, -⟩ := ext_eq b'
  rw [dotted, dotted', List.cons_append] at same
  rw [dotted']
  exact Replace.sep_split same dot before

/-- The first `.conf` is kept if each `.pid` has a `.conf` before it. -/
theorem kept_ext_iff {s : Str} (inside : ext true <:+: s) :
    Kept (ext true) (ext false) s ↔ ∀ u v, s = u ++ (ext false ++ v) → ext true <:+: u := by
  constructor
  · rintro (⟨outside, -⟩ | ⟨x, r, rfl, -, first⟩) u v split
    · exact absurd inside outside
    · rcases Nat.lt_trichotomy u.length x.length with before | same | behind
      · obtain ⟨w, rfl⟩ := ext_split split before
        have earlier := first u (w ++ (ext false ++ r)) (by simp only [List.append_assoc])
        exact absurd before (Nat.not_lt.mpr earlier)
      · obtain ⟨-, extensions⟩ := List.append_inj split same.symm
        cases ext_prefix_ext extensions
      · obtain ⟨w, rfl⟩ := ext_split split.symm behind
        exact Replace.infix_append x (ext true) w
  · intro each
    obtain ⟨x, r, rfl, first⟩ := Replace.exists_first inside
    refine .inr ⟨x, r, rfl, first, ?_⟩
    intro u v split
    by_contra before
    obtain ⟨w, rfl⟩ := ext_split split (Nat.lt_of_not_le before)
    obtain ⟨p, q, rfl⟩ := each u (w ++ (ext true ++ r)) (by simp only [List.append_assoc])
    have earlier := first p (q ++ (ext false ++ w) ++ (ext true ++ r)) (by simp only [List.append_assoc])
    simp only [List.length_append] at earlier before
    omega


/-! ## The files of a server -/

/-- What follows `SWIFT_DIR` in the path of a configuration file. -/
structure Legal (rest : Str) : Prop where
  under : rest.head? = some '/'
  ends : ext true <:+ rest

/-- `old` is not found from within the directory on. -/
def Outside (old dir s : Str) : Prop := ∀ u v, dir ++ s = u ++ (old ++ v) → dir.length ≤ u.length

section Stages
variable (server : Server) (rest : Str)

/-- The path with the name replaced. -/
def Server.named : Str := replace server.type_server server.server rest

/-- And with the suffix. -/
def Server.suffixed : Str := replace (ext true) (ext false) (server.named rest)

/-- And with the name replaced back. -/
def Server.renamed : Str :=
  if server.server ∈ STANDALONE_SERVERS then server.suffixed rest
  else replace server.server server.type_server (server.suffixed rest)

/-- On the way to the pid file no name runs into an extension, and neither begins in the
directory. -/
structure Separate : Prop where
  directory : Outside (ext true) server.run_dir (server.named rest)
  name : server.type_server ≠ server.server → Outside server.type_server server.run_dir rest
  asked : server.type_server ≠ server.server → Apart server.type_server rest
  put : server.type_server ≠ server.server → Apart server.server (server.named rest)

/-- Nor on the way back. -/
structure SeparateBack : Prop extends Separate server rest where
  run_dir : normpath server.run_dir = server.run_dir
  swift : server.type_server ≠ server.server → server.server ∉ STANDALONE_SERVERS →
    Outside server.server SWIFT_DIR (server.suffixed rest)
  found : server.type_server ≠ server.server → server.server ∉ STANDALONE_SERVERS → Apart server.server (server.suffixed rest)
  back : server.type_server ≠ server.server → server.server ∉ STANDALONE_SERVERS → Apart server.type_server (server.renamed rest)

/-- The name after the type is where that of the server is, once it is replaced; a standalone
server does not put it back. -/
def NameKept : Prop :=
  server.type_server = server.server ∨
    (server.server ∈ STANDALONE_SERVERS → ¬ server.type_server <:+: rest) ∧
    (server.server ∉ STANDALONE_SERVERS → Kept server.type_server server.server rest)

end Stages

/-- No `.pid` comes before the first `.conf`. -/
def ExtKept (rest : Str) : Prop := ∀ u v, rest = u ++ (ext false ++ v) → ext true <:+: u

/-- The same, or with the first `old` of one and a `new` of the other exchanged. -/
def Merged {α : Type} (old new s s' : List α) : Prop := s = s' ∨ Exchanged old new s s' ∨ Exchanged old new s' s

/-- The path with its extensions blank. -/
def blanks (s : Str) : List (Option Char) := (tokens s).map Tok.blank

/-- The extensions in the path, `true` for `.conf`. -/
def exts (s : Str) : List Bool := (tokens s).filterMap Tok.ext?

section Files
variable {self : Server} {rest rest' : Str}

/-- A text that begins with a character which the directory lacks does not begin in it. -/
theorem outside_of_head {c : Char} {old dir : Str} (absent : c ∉ dir) (s : Str) : Outside (c :: old) dir s := by
  intro u v same
  rcases List.append_eq_append_iff.mp same with ⟨w, longer, -⟩ | ⟨w, taken, behind⟩
  · rw [longer, List.length_append]
    exact Nat.le_add_right _ _
  · cases w with
    | nil => rw [taken, List.append_nil]
    | cons d w =>
      rw [List.cons_append, List.cons_append, List.cons.injEq] at behind
      exact absurd (by simp [taken, ← behind.1]) absent

/-- The configuration root is what `normpath` leaves of it. -/
theorem swift_dir : normpath SWIFT_DIR = SWIFT_DIR := by decide

theorem type_server_ne_nil (self : Server) : self.type_server ≠ [] := by simp [Server.type_server]

theorem init_server_ne_nil (server run_dir : Str) : (Server.init server run_dir).server ≠ [] := by
  dsimp only [Server.init]
  rw [ne_eq, List.map_eq_nil_iff]
  split_ifs with dash
  · exact List.ne_nil_of_mem dash
  · exact List.append_ne_nil_of_right_ne_nil _ (by decide)

/-- The path of the pid file. -/
theorem Separate.get_pid_file_name_eq (separate : Separate self rest) :
    get_pid_file_name self (SWIFT_DIR ++ rest) = self.run_dir ++ self.suffixed rest := by
  have named : replace self.type_server self.server (self.run_dir ++ rest) = self.run_dir ++ self.named rest := by
    by_cases same : self.type_server = self.server
    · rw [Server.named, same, Replace.replace_self, Replace.replace_self]
    · exact Replace.replace_append (separate.name same)
  rw [get_pid_file_name, swift_dir, Replace.replace_prefix, named]
  exact Replace.replace_append separate.directory

/-- And that of the configuration file for it. -/
theorem SeparateBack.get_conf_file_name_eq (separate : SeparateBack self rest) :
    get_conf_file_name self (self.run_dir ++ self.suffixed rest) =
      SWIFT_DIR ++ replace (ext false) (ext true) (self.renamed rest) := by
  have suffix (s : Str) : replace (ext false) (ext true) (SWIFT_DIR ++ s) = SWIFT_DIR ++ replace (ext false) (ext true) s :=
    Replace.replace_append (outside_of_head (by decide) s)
  rw [get_conf_file_name, separate.run_dir, Replace.replace_prefix, Server.renamed]
  split_ifs with standalone
  · exact suffix _
  · have named : replace self.server self.type_server (SWIFT_DIR ++ self.suffixed rest) =
        SWIFT_DIR ++ replace self.server self.type_server (self.suffixed rest) := by
      by_cases same : self.type_server = self.server
      · rw [same, Replace.replace_self, Replace.replace_self]
      · exact Replace.replace_append (separate.swift same standalone)
    rw [named]
    exact suffix _

section Nonempty
variable (full : self.server ≠ [])
include full

/-- **One path** comes back exactly if its name is kept, and its first `.conf`. -/
theorem SeparateBack.round_trip_iff (separate : SeparateBack self rest) :
    get_conf_file_name self (get_pid_file_name self (SWIFT_DIR ++ rest)) = SWIFT_DIR ++ rest ↔
      NameKept self rest ∧ Kept (ext true) (ext false) rest := by
  have differ : ext true ≠ ext false := by decide
  have extension : replace (ext false) (ext true) (replace (ext true) (ext false) rest) = rest ↔ Kept (ext true) (ext false) rest := by
    rw [Replace.replace_replace_iff, or_iff_right differ]
  rw [separate.get_pid_file_name_eq, separate.get_conf_file_name_eq, List.append_cancel_left_eq, NameKept]
  by_cases same : self.type_server = self.server
  · have renamed : self.renamed rest = replace (ext true) (ext false) rest := by
      simp only [Server.renamed, Server.suffixed, Server.named, same, Replace.replace_self, ite_self]
    rw [renamed, extension]
    simp only [same, true_or, true_and]
  · have asked := separate.asked same
    have put := separate.put same
    by_cases standalone : self.server ∈ STANDALONE_SERVERS
    · rw [Server.renamed, if_pos standalone]
      simp only [same, false_or, standalone, not_true_eq_false, forall_const, false_imp_iff, and_true]
      rw [Server.suffixed, Server.named, replace_ext_only_iff (type_server_ne_nil self) asked put, extension,
        Replace.replace_eq_self_iff, or_iff_right same]
    · have found := separate.found same standalone
      have back := separate.back same standalone
      rw [Server.renamed, if_neg standalone] at back ⊢
      simp only [same, false_or, standalone, not_false_eq_true, forall_const, false_imp_iff, true_and]
      rw [Server.suffixed, Server.named, replace_both_iff (type_server_ne_nil self) full asked put found back, extension,
        Replace.replace_replace_iff, or_iff_right same]

end Nonempty

/-- **Two paths** have the same pid file exactly if they are the same but for an exchange of
names and one of extensions. -/
theorem get_pid_file_name_eq_iff (separate : Separate self rest) (separate' : Separate self rest') :
    get_pid_file_name self (SWIFT_DIR ++ rest) = get_pid_file_name self (SWIFT_DIR ++ rest') ↔
      Merged (self.type_server.map some) (self.server.map some) (blanks rest) (blanks rest') ∧
        Merged [true] [false] (exts rest) (exts rest') := by
  rw [separate.get_pid_file_name_eq, separate'.get_pid_file_name_eq, List.append_cancel_left_eq, Merged, Merged,
    ← Replace.replace_eq_replace_iff, ← Replace.replace_eq_replace_iff]
  by_cases same : self.type_server = self.server
  · simp only [Server.suffixed, Server.named, same, Replace.replace_self]
    obtain ⟨spelled, eq⟩ := text_tokens rest
    obtain ⟨spelled', eq'⟩ := text_tokens rest'
    have apart := @replace_ext_eq_iff _ _ true false spelled spelled'
    rwa [eq, eq'] at apart
  · exact replace_both_eq_iff (type_server_ne_nil self) (separate.asked same) (separate.put same) (separate'.asked same)
      (separate'.put same)

end Files

/-- Nothing runs into an extension where the server is given by its type. -/
theorem separate_init {server : Str} (dash : '-' ∉ server) (lower : server.map Char.toLower = server) (rest : Str) :
    SeparateBack (.init server RUN_DIR) rest := by
  have taken : ("-server".toList.reverse ++ server.reverse).dropWhile (· ≠ '-') = '-' :: server.reverse := rfl
  have type : rsplit (server ++ "-server".toList) = server := by
    rw [rsplit, if_pos (List.mem_append_right _ (by decide)), List.reverse_append, taken, List.tail_cons, List.reverse_reverse]
  have same : (Server.init server RUN_DIR).type_server = (Server.init server RUN_DIR).server := by
    rw [Server.init, if_pos dash, Server.type_server, type, List.map_append, lower]
    rfl
  have dir : normpath RUN_DIR = RUN_DIR := by decide
  have plain : '.' ∉ RUN_DIR := by decide
  exact {
    directory := outside_of_head plain _
    name := fun differ => absurd same differ
    asked := fun differ => absurd same differ
    put := fun differ => absurd same differ
    run_dir := dir
    swift := fun differ => absurd same differ
    found := fun differ => absurd same differ
    back := fun differ => absurd same differ }

/-- `Apart` in terms of places. -/
theorem apart_iff (name s : Str) :
    Apart name s ↔ ∀ b ∈ [true, false], ∀ i < s.length + 1, ∀ j < s.length + 1, ext b <+: s.drop i → name <+: s.drop j →
      i + (ext b).length ≤ j ∨ j + name.length ≤ i := by
  constructor
  · intro apart b _ i less j less' ⟨v, extension⟩ ⟨y, here⟩
    have sides := apart b (s.take i) v (s.take j) y (by rw [extension, List.take_append_drop])
      (by rw [here, List.take_append_drop])
    rwa [List.length_take_of_le (Nat.le_of_lt_succ less), List.length_take_of_le (Nat.le_of_lt_succ less')] at sides
  · intro places b u v x y extension here
    have inside : u.length < s.length + 1 := by
      rw [extension, List.length_append]
      omega
    have inside' : x.length < s.length + 1 := by
      rw [here, List.length_append]
      omega
    refine places b (by cases b <;> decide) u.length inside x.length inside' ⟨v, ?_⟩ ⟨y, ?_⟩
    · rw [extension, List.drop_left]
    · rw [here, List.drop_left]

instance (name s : Str) : Decidable (Apart name s) := decidable_of_iff _ (apart_iff name s).symm

theorem outside_iff (old dir s : Str) : Outside old dir s ↔ ∀ i < dir.length, ¬ old <+: (dir ++ s).drop i := by
  constructor
  · intro outside i less ⟨v, here⟩
    have le := outside ((dir ++ s).take i) v (by rw [here, List.take_append_drop])
    rw [List.length_take] at le
    omega
  · intro places u v same
    by_contra inside
    exact places u.length (by omega) ⟨v, by rw [same, List.drop_left]⟩

instance (old dir s : Str) : Decidable (Outside old dir s) := decidable_of_iff _ (outside_iff old dir s).symm

instance (server : Server) (rest : Str) : Decidable (SeparateBack server rest) :=
  decidable_of_iff
    ((Outside (ext true) server.run_dir (server.named rest) ∧
        (server.type_server ≠ server.server → Outside server.type_server server.run_dir rest ∧
          Apart server.type_server rest ∧ Apart server.server (server.named rest))) ∧
      normpath server.run_dir = server.run_dir ∧
      (server.type_server ≠ server.server → server.server ∉ STANDALONE_SERVERS →
        Outside server.server SWIFT_DIR (server.suffixed rest) ∧ Apart server.server (server.suffixed rest) ∧
          Apart server.type_server (server.renamed rest)))
    ⟨fun ⟨⟨directory, names⟩, run_dir, back⟩ => {
        directory := directory
        name := fun differ => (names differ).1
        asked := fun differ => (names differ).2.1
        put := fun differ => (names differ).2.2
        run_dir := run_dir
        swift := fun differ standalone => (back differ standalone).1
        found := fun differ standalone => (back differ standalone).2.1
        back := fun differ standalone => (back differ standalone).2.2 },
      fun separate => ⟨⟨separate.directory, fun differ => ⟨separate.name differ, separate.asked differ, separate.put differ⟩⟩,
        separate.run_dir, fun differ standalone =>
          ⟨separate.swift differ standalone, separate.found differ standalone, separate.back differ standalone⟩⟩⟩

/-- Servers with a name besides the type's; only where a `.pid` takes the `d` of the name do the
two run into each other. -/
example : SeparateBack (.init "account-replicator".toList RUN_DIR) "/account-server/1.conf".toList ∧
    SeparateBack (.init "v1.2-replicator".toList RUN_DIR) "/v1.2-server.conf".toList ∧
    ¬ SeparateBack (.init "data-replicator".toList RUN_DIR) "/old.pidata-server.conf".toList := by decide

/-- What does not begin with the first character is found behind it. -/
theorem first_behind {α : Type} [DecidableEq α] {c : α} {a v : List α} (other : a.head? ≠ some c) (full : a ≠ []) :
    Replace.First a [c] v := by
  intro u' v' same
  cases u' with
  | nil =>
    obtain ⟨d, a, rfl⟩ := List.exists_cons_of_ne_nil full
    exact absurd (congrArg some (List.cons.inj same).1.symm) other
  | cons d u' => exact Nat.succ_le_succ (Nat.zero_le _)

end CodeClips.Manager
