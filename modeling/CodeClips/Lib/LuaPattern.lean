import Mathlib.Data.List.Basic

/-!
# Patterns of Lua

The patterns of `string.match`, `string.find` and `string.gsub`, over the lists of characters
that strings are. A pattern is read into items, and the items are matched by backtracking:
`*` and `+` take as much as they can, `-` as little. `Matches` says what the items stand for,
whatever is tried first; a match that is found is one of these (`doMatch_sound`), and one is
found where there is any (`doMatch_complete`).

Read are the classes `%w` and `%s`, escaped characters, sets that do not begin with `^` or `]`,
and captures.
-/

namespace CodeClips.LuaPattern

abbrev Str := List Char

/-! ## Items -/

/-- What stands in a set or alone: a character, one after `%`, or a range. -/
inductive Elem
  | lit (c : Char)
  | cls (c : Char)
  | range (a b : Char)
deriving DecidableEq

/-- What matches one character. -/
inductive Single
  | any
  | elem (e : Elem)
  | set (es : List Elem)
deriving DecidableEq

inductive Quant
  | one
  | opt
  | star
  | plus
  | minus
deriving DecidableEq

inductive Item
  | opens
  | closes
  | fin
  | rep (x : Single) (q : Quant)
deriving DecidableEq

structure Pattern where
  anchor : Bool
  items : List Item
deriving DecidableEq

def isspace (c : Char) : Bool := c ∈ [' ', '\t', '\n', '\x0b', '\x0c', '\r']

def Elem.test : Elem → Char → Bool
  | lit d, c => d = c
  | cls d, c => if d = 'w' then c.isAlphanum else if d = 's' then isspace c else d = c
  | range a b, c => a ≤ c ∧ c ≤ b

def Single.test : Single → Char → Bool
  | any, _ => true
  | elem e, c => e.test c
  | set es, c => es.any (·.test c)

/-! ## Reading a pattern -/

/-- The elements up to the `]`, after those read before. A `-` makes a range only between two
characters; after a class it stands for itself. -/
def setElems (es : List Elem) : Str → Option (Single × Str)
  | [] => none
  | c :: p =>
    if c = ']' then some (.set es, p)
    else if c = '%' then
      match p with
      | [] => none
      | d :: p => setElems (es ++ [.cls d]) p
    else if p.head? = some '-' ∧ p.tail.head? ≠ none ∧ p.tail.head? ≠ some ']' then
      match p with
      | _ :: d :: p => setElems (es ++ [.range c d]) p
      | _ => none
    else setElems (es ++ [.lit c]) p

def single (c : Char) (p : Str) : Option (Single × Str) :=
  if c = '.' then some (.any, p)
  else if c = '%' then
    match p with
    | [] => none
    | d :: p => some (.elem (.cls d), p)
  else if c = '[' then setElems [] p
  else some (.elem (.lit c), p)

def quant : Str → Quant × Str
  | [] => (.one, [])
  | c :: p =>
    if c = '?' then (.opt, p)
    else if c = '*' then (.star, p)
    else if c = '+' then (.plus, p)
    else if c = '-' then (.minus, p)
    else (.one, c :: p)

/-- The fuel is the length of the pattern. -/
def items : Nat → Str → Option (List Item)
  | _, [] => some []
  | 0, _ :: _ => none
  | fuel + 1, c :: p =>
    if c = '(' then (items fuel p).map (.opens :: ·)
    else if c = ')' then (items fuel p).map (.closes :: ·)
    else if c = '$' ∧ p = [] then some [.fin]
    else
      match single c p with
      | none => none
      | some (x, p) =>
        match quant p with
        | (q, p) => (items fuel p).map (.rep x q :: ·)

def compile (p : Str) : Option Pattern :=
  match p with
  | '^' :: p => (items p.length p).map fun is => { anchor := true, items := is }
  | _ => (items p.length p).map fun is => { anchor := false, items := is }

/-! ## Matching -/

section Expand
variable {R : Type} (ok : Char → Bool) (k : Str → Option R)

/-- As many characters as possible, then what `k` does. -/
def maxExpand : Str → Option R
  | [] => k []
  | c :: s => if ok c then (maxExpand s).or (k (c :: s)) else k (c :: s)

/-- As few characters as possible. -/
def minExpand : Str → Option R
  | [] => k []
  | c :: s => (k (c :: s)).or (if ok c then minExpand s else none)

def Quant.expand (q : Quant) (s : Str) : Option R :=
  match q with
  | one =>
    match s with
    | [] => none
    | c :: s => if ok c then k s else none
  | opt =>
    match s with
    | [] => k []
    | c :: s => if ok c then (k s).or (k (c :: s)) else k (c :: s)
  | star => maxExpand ok k s
  | plus =>
    match s with
    | [] => none
    | c :: s => if ok c then maxExpand ok k s else none
  | minus => minExpand ok k s

end Expand

/-- A capture: where it begins, or its text. -/
inductive Cap
  | opened (start : Str)
  | closed (text : Str)
deriving DecidableEq

/-- The last capture that is open ends before `s`. -/
def closeCap (s : Str) : List Cap → List Cap
  | [] => []
  | .opened start :: cs => .closed (start.take (start.length - s.length)) :: cs
  | .closed text :: cs => .closed text :: closeCap s cs

/-- What is left of the string, and the captures, the last first. -/
def doMatch : List Item → Str → List Cap → Option (Str × List Cap)
  | [], s, cs => some (s, cs)
  | .opens :: is, s, cs => doMatch is s (.opened s :: cs)
  | .closes :: is, s, cs => doMatch is s (closeCap s cs)
  | .fin :: is, s, cs => if s = [] then doMatch is s cs else none
  | .rep x q :: is, s, cs => q.expand x.test (fun u => doMatch is u cs) s

/-- Where the first match begins, what is left after it, and its captures. -/
def search (p : Pattern) : Str → Option (Str × Str × List Cap)
  | [] => (doMatch p.items [] []).map fun r => ([], r)
  | c :: s =>
    match doMatch p.items (c :: s) [] with
    | some r => some (c :: s, r)
    | none => if p.anchor then none else search p s

def capture : Cap → Str
  | .opened start => start
  | .closed text => text

/-- The captures, or the whole match where there are none. -/
def captures (start rest : Str) (cs : List Cap) : List Str :=
  if cs = [] then [start.take (start.length - rest.length)] else (cs.map capture).reverse

/-- `string.match`. A pattern that cannot be read matches nothing. -/
def string_match (s pattern : Str) : Option (List Str) :=
  (compile pattern).bind fun p => (search p s).map fun r => captures r.1 r.2.1 r.2.2

/-- A replacement string for a match of a pattern without captures: `%0` and `%1` are the match,
and `%` before another character is that character; at the end it is a zero. -/
def add_s (whole : Str) : Str → Except String Str
  | [] => .ok []
  | ['%'] => .ok ['\x00']
  | '%' :: d :: news =>
    if d.isDigit then
      if d = '0' ∨ d = '1' then (add_s whole news).map (whole ++ ·) else .error "invalid capture index"
    else (add_s whole news).map (d :: ·)
  | c :: news => (add_s whole news).map (c :: ·)

/-- `string.gsub` for a pattern without `^`: after a match with characters the next search
begins behind it; `skip` counts those that are passed. -/
def gsub (p : Pattern) (repl : Str → Except String Str) : Nat → Str → Except String Str
  | _, [] => if (doMatch p.items [] []).isSome then repl [] else .ok []
  | skip + 1, _ :: s => gsub p repl skip s
  | 0, c :: s =>
    match doMatch p.items (c :: s) [] with
    | none => (gsub p repl 0 s).map (c :: ·)
    | some (r, _) =>
      let matched := (c :: s).take ((c :: s).length - r.length)
      match repl matched with
      | .error e => .error e
      | .ok v => (gsub p repl (matched.length - 1) s).map fun rest => if matched = [] then v ++ c :: rest else v ++ rest

def string_gsub (s pattern repl : Str) : Except String Str :=
  match compile pattern with
  | none => .error "malformed pattern"
  | some p => gsub p (fun matched => add_s matched repl) 0 s

/-! ## What a pattern stands for -/

/-- The numbers of characters that a quantifier takes. -/
def Quant.Count (n : Nat) : Quant → Prop
  | one => n = 1
  | opt => n ≤ 1
  | star => True
  | plus => 1 ≤ n
  | minus => True

def Quant.Allows (q : Quant) (ok : Char → Bool) (t : Str) : Prop := q.Count t.length ∧ ∀ c ∈ t, ok c

/-- The items match from `s` to what is left at `r`, in any way. -/
def Matches : List Item → Str → List Cap → Str → List Cap → Prop
  | [], s, cs, r, ds => r = s ∧ ds = cs
  | .opens :: is, s, cs, r, ds => Matches is s (.opened s :: cs) r ds
  | .closes :: is, s, cs, r, ds => Matches is s (closeCap s cs) r ds
  | .fin :: is, s, cs, r, ds => s = [] ∧ Matches is s cs r ds
  | .rep x q :: is, s, cs, r, ds => ∃ t u, s = t ++ u ∧ q.Allows x.test t ∧ Matches is u cs r ds

section Items
variable {x : Single} {is : List Item} {s r : Str} {cs ds : List Cap}

theorem matches_nil : Matches [] s cs r ds ↔ r = s ∧ ds = cs := Iff.rfl

theorem matches_opens : Matches (.opens :: is) s cs r ds ↔ Matches is s (.opened s :: cs) r ds := Iff.rfl

theorem matches_closes : Matches (.closes :: is) s cs r ds ↔ Matches is s (closeCap s cs) r ds := Iff.rfl

theorem matches_one : Matches (.rep x .one :: is) s cs r ds ↔ ∃ c u, s = c :: u ∧ x.test c ∧ Matches is u cs r ds := by
  constructor
  · rintro ⟨t, u, rfl, ⟨one, all⟩, rest⟩
    obtain ⟨c, rfl⟩ := List.length_eq_one_iff.mp one
    exact ⟨c, u, rfl, all c List.mem_cons_self, rest⟩
  · rintro ⟨c, u, rfl, test, rest⟩
    exact ⟨[c], u, rfl, ⟨rfl, List.forall_mem_singleton.mpr test⟩, rest⟩

/-- An element that is only one character. -/
theorem matches_char {c : Char} (only : ∀ d, x.test d ↔ c = d) :
    Matches (.rep x .one :: is) s cs r ds ↔ ∃ u, s = c :: u ∧ Matches is u cs r ds := by
  rw [matches_one]
  constructor
  · rintro ⟨d, u, split, test, rest⟩
    obtain rfl := (only d).mp test
    exact ⟨u, split, rest⟩
  · rintro ⟨u, split, rest⟩
    exact ⟨c, u, split, (only c).mpr rfl, rest⟩

theorem matches_plus :
    Matches (.rep x .plus :: is) s cs r ds ↔ ∃ t u, s = t ++ u ∧ t ≠ [] ∧ (∀ c ∈ t, x.test c) ∧ Matches is u cs r ds := by
  simp only [Matches, Quant.Allows, Quant.Count, Nat.one_le_iff_ne_zero, ne_eq, List.length_eq_zero_iff, and_assoc]

theorem matches_star :
    Matches (.rep x .star :: is) s cs r ds ↔ ∃ t u, s = t ++ u ∧ (∀ c ∈ t, x.test c) ∧ Matches is u cs r ds := by
  simp only [Matches, Quant.Allows, Quant.Count, true_and]

theorem matches_minus :
    Matches (.rep x .minus :: is) s cs r ds ↔ ∃ t u, s = t ++ u ∧ (∀ c ∈ t, x.test c) ∧ Matches is u cs r ds := by
  simp only [Matches, Quant.Allows, Quant.Count, true_and]

theorem matches_fin : Matches [.fin] s cs r ds ↔ s = [] ∧ r = [] ∧ ds = cs := by
  simp only [Matches]
  constructor
  · rintro ⟨rfl, done⟩
    exact ⟨rfl, done⟩
  · rintro ⟨rfl, done⟩
    exact ⟨rfl, done⟩

/-- The items of two patterns, one after the other. -/
theorem matches_append {is js : List Item} {s r : Str} {cs ds : List Cap} :
    Matches (is ++ js) s cs r ds ↔ ∃ u es, Matches is s cs u es ∧ Matches js u es r ds := by
  induction is generalizing s cs with
  | nil =>
    constructor
    · exact fun rest => ⟨s, cs, ⟨rfl, rfl⟩, rest⟩
    · rintro ⟨_, _, ⟨rfl, rfl⟩, rest⟩
      exact rest
  | cons i is ih =>
    cases i with
    | opens => exact ih
    | closes => exact ih
    | fin =>
      simp only [List.cons_append, Matches, ih]
      constructor
      · rintro ⟨done, u, es, first, second⟩
        exact ⟨u, es, ⟨done, first⟩, second⟩
      · rintro ⟨u, es, ⟨done, first⟩, second⟩
        exact ⟨done, u, es, first, second⟩
    | rep x q =>
      simp only [List.cons_append, Matches, ih]
      constructor
      · rintro ⟨t, v, split, allows, u, es, first, second⟩
        exact ⟨u, es, ⟨t, v, split, allows, first⟩, second⟩
      · rintro ⟨u, es, ⟨t, v, split, allows, first⟩, second⟩
        exact ⟨t, v, split, allows, u, es, first, second⟩

theorem lit_test {c d : Char} : (Single.elem (.lit c)).test d ↔ c = d := by simp [Single.test, Elem.test]

end Items

section Expand
variable {R : Type} {ok : Char → Bool} {k : Str → Option R}

theorem maxExpand_some {s : Str} {x : R} (found : maxExpand ok k s = some x) :
    ∃ t u, s = t ++ u ∧ (∀ c ∈ t, ok c) ∧ k u = some x := by
  induction s with
  | nil => exact ⟨[], [], rfl, List.forall_mem_nil _, found⟩
  | cons c s ih =>
    rw [maxExpand] at found
    by_cases here : ok c = true
    · rw [if_pos here, Option.or_eq_some_iff] at found
      obtain farther | ⟨-, found⟩ := found
      · obtain ⟨t, u, rfl, all, rest⟩ := ih farther
        exact ⟨c :: t, u, rfl, List.forall_mem_cons.mpr ⟨here, all⟩, rest⟩
      · exact ⟨[], c :: s, rfl, List.forall_mem_nil _, found⟩
    · rw [if_neg here] at found
      exact ⟨[], c :: s, rfl, List.forall_mem_nil _, found⟩

theorem minExpand_some {s : Str} {x : R} (found : minExpand ok k s = some x) :
    ∃ t u, s = t ++ u ∧ (∀ c ∈ t, ok c) ∧ k u = some x := by
  induction s with
  | nil => exact ⟨[], [], rfl, List.forall_mem_nil _, found⟩
  | cons c s ih =>
    rw [minExpand, Option.or_eq_some_iff] at found
    obtain found | ⟨-, farther⟩ := found
    · exact ⟨[], c :: s, rfl, List.forall_mem_nil _, found⟩
    · obtain ⟨here, farther⟩ := Option.ite_none_right_eq_some.mp farther
      obtain ⟨t, u, rfl, all, rest⟩ := ih farther
      exact ⟨c :: t, u, rfl, List.forall_mem_cons.mpr ⟨here, all⟩, rest⟩

theorem maxExpand_isSome {t u : Str} (all : ∀ c ∈ t, ok c) (rest : (k u).isSome) :
    (maxExpand ok k (t ++ u)).isSome := by
  induction t with
  | nil =>
    cases u with
    | nil => exact rest
    | cons c u =>
      rw [List.nil_append, maxExpand]
      split
      · rw [Option.isSome_or, rest, Bool.or_true]
      · exact rest
  | cons c t ih =>
    obtain ⟨here, all⟩ := List.forall_mem_cons.mp all
    rw [List.cons_append, maxExpand, if_pos here, Option.isSome_or, ih all, Bool.true_or]

theorem minExpand_isSome {t u : Str} (all : ∀ c ∈ t, ok c) (rest : (k u).isSome) :
    (minExpand ok k (t ++ u)).isSome := by
  induction t with
  | nil =>
    cases u with
    | nil => exact rest
    | cons c u => rw [List.nil_append, minExpand, Option.isSome_or, rest, Bool.true_or]
  | cons c t ih =>
    obtain ⟨here, all⟩ := List.forall_mem_cons.mp all
    rw [List.cons_append, minExpand, if_pos here, Option.isSome_or, ih all, Bool.or_true]

/-- All characters that are allowed are taken, if that succeeds. -/
theorem maxExpand_append {t u : Str} {x : R} (all : ∀ c ∈ t, ok c) (stop : ∀ c ∈ u.head?, ¬ ok c) (rest : k u = some x) :
    maxExpand ok k (t ++ u) = some x := by
  induction t with
  | nil =>
    cases u with
    | nil => exact rest
    | cons c u => rw [List.nil_append, maxExpand, if_neg (stop c rfl), rest]
  | cons c t ih =>
    obtain ⟨here, all⟩ := List.forall_mem_cons.mp all
    rw [List.cons_append, maxExpand, if_pos here, ih all, Option.some_or]

/-- Characters are taken for as long as it fails without them. -/
theorem minExpand_append {t u : Str} {x : R} (all : ∀ c ∈ t, ok c)
    (before : ∀ w, w <:+ t → w ≠ [] → k (w ++ u) = none) (rest : k u = some x) : minExpand ok k (t ++ u) = some x := by
  induction t with
  | nil =>
    cases u with
    | nil => exact rest
    | cons c u => rw [List.nil_append, minExpand, rest, Option.some_or]
  | cons c t ih =>
    obtain ⟨here, all⟩ := List.forall_mem_cons.mp all
    have fails := before (c :: t) List.suffix_rfl (List.cons_ne_nil c t)
    rw [List.cons_append] at fails ⊢
    rw [minExpand, fails, Option.none_or, if_pos here]
    exact ih all fun w suffix => before w (suffix.trans (List.suffix_cons c t))

theorem Quant.expand_some {q : Quant} {s : Str} {x : R} (found : q.expand ok k s = some x) :
    ∃ t u, s = t ++ u ∧ q.Allows ok t ∧ k u = some x := by
  have single (c : Char) (here : ok c = true) : ∀ d ∈ [c], ok d := List.forall_mem_singleton.mpr here
  cases q with
  | one =>
    cases s with
    | nil => cases found
    | cons c s =>
      obtain ⟨here, found⟩ := Option.ite_none_right_eq_some.mp found
      exact ⟨[c], s, rfl, ⟨rfl, single c here⟩, found⟩
  | opt =>
    cases s with
    | nil => exact ⟨[], [], rfl, ⟨Nat.zero_le 1, List.forall_mem_nil _⟩, found⟩
    | cons c s =>
      have without : k (c :: s) = some x → ∃ t u, c :: s = t ++ u ∧ Quant.opt.Allows ok t ∧ k u = some x :=
        fun found => ⟨[], c :: s, rfl, ⟨Nat.zero_le 1, List.forall_mem_nil _⟩, found⟩
      rw [expand] at found
      split at found
      · next here =>
        obtain found | ⟨-, found⟩ := Option.or_eq_some_iff.mp found
        · exact ⟨[c], s, rfl, ⟨Nat.le_refl 1, single c here⟩, found⟩
        · exact without found
      · exact without found
  | star =>
    obtain ⟨t, u, split, all, rest⟩ := maxExpand_some found
    exact ⟨t, u, split, ⟨trivial, all⟩, rest⟩
  | plus =>
    cases s with
    | nil => cases found
    | cons c s =>
      obtain ⟨here, found⟩ := Option.ite_none_right_eq_some.mp found
      obtain ⟨t, u, rfl, all, rest⟩ := maxExpand_some found
      exact ⟨c :: t, u, rfl, ⟨Nat.succ_pos _, List.forall_mem_cons.mpr ⟨here, all⟩⟩, rest⟩
  | minus =>
    obtain ⟨t, u, split, all, rest⟩ := minExpand_some found
    exact ⟨t, u, split, ⟨trivial, all⟩, rest⟩

theorem Quant.expand_isSome {q : Quant} {t u : Str} (allows : q.Allows ok t) (rest : (k u).isSome) :
    (q.expand ok k (t ++ u)).isSome := by
  obtain ⟨count, all⟩ := allows
  cases q with
  | one =>
    obtain ⟨c, rfl⟩ := List.length_eq_one_iff.mp count
    rw [List.singleton_append, expand, if_pos (all c List.mem_cons_self)]
    exact rest
  | opt =>
    cases t with
    | nil =>
      cases u with
      | nil => exact rest
      | cons c u =>
        rw [List.nil_append, expand]
        split
        · rw [Option.isSome_or, rest, Bool.or_true]
        · exact rest
    | cons c t =>
      obtain rfl := List.length_eq_zero_iff.mp (Nat.le_zero.mp (Nat.le_of_succ_le_succ count))
      rw [List.singleton_append, expand, if_pos (all c List.mem_cons_self), Option.isSome_or, rest, Bool.true_or]
  | star => exact maxExpand_isSome all rest
  | plus =>
    cases t with
    | nil => exact absurd count (Nat.not_succ_le_zero 0)
    | cons c t =>
      obtain ⟨here, all⟩ := List.forall_mem_cons.mp all
      rw [List.cons_append, expand, if_pos here]
      exact maxExpand_isSome all rest
  | minus => exact minExpand_isSome all rest

end Expand

/-- A match that is found is one that the items stand for. -/
theorem doMatch_sound {is : List Item} {s r : Str} {cs ds : List Cap} (found : doMatch is s cs = some (r, ds)) :
    Matches is s cs r ds := by
  induction is generalizing s cs with
  | nil =>
    cases found
    exact ⟨rfl, rfl⟩
  | cons i is ih =>
    cases i with
    | opens => exact ih found
    | closes => exact ih found
    | fin =>
      obtain ⟨done, found⟩ := Option.ite_none_right_eq_some.mp found
      exact ⟨done, ih found⟩
    | rep x q =>
      obtain ⟨t, u, split, allows, rest⟩ := Quant.expand_some found
      exact ⟨t, u, split, allows, ih rest⟩

/-- Where the items match in any way, a match is found. -/
theorem doMatch_complete {is : List Item} {s r : Str} {cs ds : List Cap} (matched : Matches is s cs r ds) :
    (doMatch is s cs).isSome := by
  induction is generalizing s cs with
  | nil => rfl
  | cons i is ih =>
    cases i with
    | opens => exact ih matched
    | closes => exact ih matched
    | fin =>
      obtain ⟨done, rest⟩ := matched
      rw [doMatch, if_pos done]
      exact ih rest
    | rep x q =>
      obtain ⟨t, u, rfl, allows, rest⟩ := matched
      exact Quant.expand_isSome allows (ih rest)

/-- An anchored pattern is tried at the beginning only. -/
theorem search_anchored {p : Pattern} (anchor : p.anchor = true) (s : Str) :
    search p s = (doMatch p.items s []).map fun r => (s, r) := by
  cases s with
  | nil => rfl
  | cons c s =>
    rw [search, anchor]
    cases doMatch p.items (c :: s) [] <;> rfl

/-- A match at the beginning is the first. -/
theorem search_here {p : Pattern} {s : Str} {r : Str × List Cap} (found : doMatch p.items s [] = some r) :
    search p s = some (s, r) := by
  cases s with
  | nil => rw [search, found, Option.map_some]
  | cons c s => rw [search, found]

theorem search_sound {p : Pattern} {s u r : Str} {ds : List Cap} (found : search p s = some (u, r, ds)) :
    ∃ t, s = t ++ u ∧ Matches p.items u [] r ds := by
  induction s with
  | nil =>
    rw [search, Option.map_eq_some_iff] at found
    obtain ⟨_, here, ⟨⟩⟩ := found
    exact ⟨[], rfl, doMatch_sound here⟩
  | cons c s ih =>
    rw [search] at found
    split at found
    · next here =>
      cases found
      exact ⟨[], rfl, doMatch_sound here⟩
    · split at found
      · cases found
      · obtain ⟨t, rfl, later⟩ := ih found
        exact ⟨c :: t, rfl, later⟩

theorem search_complete {p : Pattern} (free : p.anchor = false) (t : Str) {u r : Str} {ds : List Cap}
    (matched : Matches p.items u [] r ds) : (search p (t ++ u)).isSome := by
  have here : (search p u).isSome := by
    have found := doMatch_complete matched
    cases u with
    | nil => rwa [search, Option.isSome_map]
    | cons c u =>
      obtain ⟨r', found⟩ := Option.isSome_iff_exists.mp found
      rw [search, found]
      rfl
  induction t with
  | nil => exact here
  | cons c t ih =>
    rw [List.cons_append, search]
    split
    · rfl
    · rwa [if_neg (ne_true_of_eq_false free)]

/-- The text of a capture, or of a whole match. -/
@[simp] theorem take_before (t u : Str) : (t ++ u).take ((t ++ u).length - u.length) = t := by
  rw [List.length_append, Nat.add_sub_cancel, List.take_left]

section StringMatch
variable {pattern s : Str} {is : List Item}

/-- **`string.match` with `^`** succeeds exactly if the items match the string in some way. -/
theorem string_match_anchored (read : compile pattern = some { anchor := true, items := is }) :
    (string_match s pattern).isSome ↔ ∃ r ds, Matches is s [] r ds := by
  rw [string_match, read, Option.bind_some, search_anchored rfl, Option.isSome_map, Option.isSome_map]
  constructor
  · intro found
    obtain ⟨⟨r, ds⟩, found⟩ := Option.isSome_iff_exists.mp found
    exact ⟨r, ds, doMatch_sound found⟩
  · rintro ⟨r, ds, matched⟩
    exact doMatch_complete matched

theorem string_match_captures (read : compile pattern = some { anchor := true, items := is }) {caps : List Str}
    (found : string_match s pattern = some caps) : ∃ r ds, Matches is s [] r ds ∧ caps = captures s r ds := by
  rw [string_match, read, Option.bind_some, search_anchored rfl, Option.map_map, Option.map_eq_some_iff] at found
  obtain ⟨⟨r, ds⟩, found, rfl⟩ := found
  exact ⟨r, ds, doMatch_sound found, rfl⟩

/-- **`string.match` without `^`** succeeds exactly if the items match somewhere. -/
theorem string_match_free (read : compile pattern = some { anchor := false, items := is }) :
    (string_match s pattern).isSome ↔ ∃ t u r ds, s = t ++ u ∧ Matches is u [] r ds := by
  rw [string_match, read, Option.bind_some, Option.isSome_map]
  constructor
  · intro found
    obtain ⟨⟨u, r, ds⟩, found⟩ := Option.isSome_iff_exists.mp found
    obtain ⟨t, split, matched⟩ := search_sound found
    exact ⟨t, u, r, ds, split, matched⟩
  · rintro ⟨t, u, r, ds, rfl, matched⟩
    exact search_complete rfl t matched

end StringMatch

end CodeClips.LuaPattern
