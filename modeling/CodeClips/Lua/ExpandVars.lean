import CodeClips.Lib.LuaPattern
import CodeClips.Lua.Path
import Mathlib.Data.List.TakeWhile

/-!
# Environment variables in a path

`path:expand_vars` goes through the components. In each it looks for the first variable, and
puts that one's value in the place of every variable; a `%` in the value has a meaning of its
own there. `pieces` says where the variables are.
-/

namespace CodeClips.Lua

open LuaPattern (Single Item Cap compile string_match string_gsub add_s)

/-- `os.getenv` returns nil for what is not defined. -/
abbrev Env := Str → Option Str

def expand_component (env : Env) (k : Str) : Except String Str :=
  match string_match k "$\x7b([%w_]+)\x7d".toList with
  | some (m :: _) =>
    match env m with
    | some value => string_gsub k "$\x7b[%w_]+\x7d".toList value
    | none => .error "bad argument #3 to 'gsub' (string/function/table expected)"
  | _ => .ok k

def expand_vars (env : Env) (path : Str) : Except String Str :=
  ((split path '/').mapM (expand_component env)).map ['/'].intercalate

/-! ## Variables -/

/-- `[%w_]` -/
def varSet : Single := .set [.cls 'w', .lit '_']

/-- The name of the variable that the text begins with. -/
def varName : Str → Option Str
  | '$' :: '\x7b' :: s =>
    if s.takeWhile varSet.test ≠ [] ∧ (s.dropWhile varSet.test).head? = some '\x7d' then some (s.takeWhile varSet.test)
    else none
  | _ => none

/-- A variable as it stands in a path. -/
def varText (name : Str) : Str := '$' :: '\x7b' :: name ++ ['\x7d']

inductive Piece
  | lit (c : Char)
  | var (name : Str)
deriving DecidableEq

/-- A text as its variables and the characters between them; `skip` counts those that belong to
the variable before. -/
def pieces : Nat → Str → List Piece
  | _, [] => []
  | skip + 1, _ :: s => pieces skip s
  | 0, c :: s =>
    match varName (c :: s) with
    | some name => .var name :: pieces (name.length + 2) s
    | none => .lit c :: pieces 0 s

/-- The names of the variables, in their order. -/
def names : List Piece → List Str
  | [] => []
  | .lit _ :: ps => names ps
  | .var name :: ps => name :: names ps

/-- The text with `f name` in the place of each variable. -/
def fill (f : Str → Str) : List Piece → Str
  | [] => []
  | .lit c :: ps => c :: fill f ps
  | .var name :: ps => f name ++ fill f ps

/-- The same where the replacement may fail. -/
def rewrite (f : Str → Except String Str) : List Piece → Except String Str
  | [] => .ok []
  | .lit c :: ps => (rewrite f ps).map (c :: ·)
  | .var name :: ps => (f name).bind fun v => (rewrite f ps).map (v ++ ·)

/-- The path with each variable replaced by its value. -/
def substitute (env : Env) (p : Str) : Str := fill (fun name => (env name).getD []) (pieces 0 p)

section Names
variable {s name r : Str}

theorem varSet_brace : varSet.test '\x7d' = false := by decide

theorem varSet_slash : varSet.test '/' = false := by decide

theorem varName_iff : varName s = some name ↔ ∃ r, s = varText name ++ r ∧ name ≠ [] ∧ ∀ c ∈ name, varSet.test c := by
  constructor
  · intro found
    unfold varName at found
    split at found
    · next s =>
      obtain ⟨⟨some, brace⟩, ⟨⟩⟩ := Option.ite_none_right_eq_some.mp found
      refine ⟨(s.dropWhile varSet.test).tail, ?_, some, fun c => List.mem_takeWhile_imp⟩
      have rest : s.dropWhile varSet.test = '\x7d' :: (s.dropWhile varSet.test).tail :=
        (List.cons_head?_tail brace).symm
      simp only [varText, List.cons_append, List.append_assoc, List.nil_append]
      rw [← rest, List.takeWhile_append_dropWhile]
    · cases found
  · rintro ⟨r, rfl, some, all⟩
    have taken : (name ++ '\x7d' :: r).takeWhile varSet.test = name := by
      rw [List.takeWhile_append_of_pos all, List.takeWhile_cons_of_neg (by rw [varSet_brace]; decide), List.append_nil]
    have left : (name ++ '\x7d' :: r).dropWhile varSet.test = '\x7d' :: r := by
      rw [List.dropWhile_append_of_pos all, List.dropWhile_cons_of_neg (by rw [varSet_brace]; decide)]
    simp only [varText, List.cons_append, List.append_assoc, List.nil_append, varName, taken, left]
    exact if_pos ⟨some, rfl⟩

/-- A variable lies before a slash or behind it. -/
theorem varName_slash {k : Str} (inside : '/' ∉ k) (q : Str) : varName (k ++ '/' :: q) = varName k := by
  ext name
  rw [varName_iff, varName_iff]
  constructor
  · rintro ⟨r, same, some, all⟩
    have noSlash : '/' ∉ varText name := by
      have word : '/' ∉ name := fun slash => absurd (all _ slash) (by rw [varSet_slash]; decide)
      simp [varText, word]
    rcases List.append_eq_append_iff.mp same with ⟨as, text, rest⟩ | ⟨as, front, rest⟩
    · cases as with
      | nil =>
        rw [List.append_nil] at text
        exact ⟨[], by rw [text, List.append_nil], some, all⟩
      | cons c as =>
        rw [List.cons_append, List.cons.injEq] at rest
        exact absurd (text ▸ rest.1 ▸ by simp) noSlash
    · exact ⟨as, front, some, all⟩
  · rintro ⟨r, rfl, some, all⟩
    exact ⟨r ++ '/' :: q, List.append_assoc .., some, all⟩

theorem pieces_skip (skip : Nat) (k q : Str) (inside : skip ≤ k.length) :
    pieces skip (k ++ q) = pieces 0 (k.drop skip ++ q) := by
  induction skip generalizing k with
  | zero => rfl
  | succ skip ih =>
    cases k with
    | nil => exact absurd inside (Nat.not_succ_le_zero skip)
    | cons c k =>
      rw [List.cons_append, pieces, ih k (Nat.le_of_succ_le_succ inside), List.drop_succ_cons]

/-- The pieces of a component, a slash, and those of the rest. -/
theorem pieces_slash {k : Str} (inside : '/' ∉ k) (q : Str) :
    pieces 0 (k ++ '/' :: q) = pieces 0 k ++ .lit '/' :: pieces 0 q := by
  induction size : k.length using Nat.strongRecOn generalizing k with
  | _ n ih =>
    cases k with
    | nil => rfl
    | cons c k =>
      have whole := varName_slash inside q
      rw [List.cons_append] at whole ⊢
      rw [pieces, pieces, whole]
      cases found : varName (c :: k) with
      | none =>
        have rest := ih k.length (by rw [← size, List.length_cons]; omega)
          (fun slash => inside (List.mem_cons_of_mem c slash)) rfl
        dsimp only
        rw [rest, List.cons_append]
      | some name =>
        obtain ⟨r, text, -⟩ := varName_iff.mp found
        have short : name.length + 2 ≤ k.length := by
          have length := congrArg List.length text
          simp [varText] at length
          omega
        have rest := ih (k.drop (name.length + 2)).length (by rw [← size, List.length_cons, List.length_drop]; omega)
          (fun slash => inside (List.mem_cons_of_mem c (List.mem_of_mem_drop slash))) rfl
        have own := pieces_skip (name.length + 2) k [] short
        rw [List.append_nil, List.append_nil] at own
        dsimp only
        rw [pieces_skip _ _ _ short, rest, own, List.cons_append]

end Names

section Rendering
variable {f g : Str → Str} {ps qs : List Piece}

theorem fill_append (f : Str → Str) (ps qs : List Piece) : fill f (ps ++ qs) = fill f ps ++ fill f qs := by
  induction ps with
  | nil => rfl
  | cons piece ps ih =>
    cases piece with
    | lit c => rw [List.cons_append, fill, fill, ih, List.cons_append]
    | var name => rw [List.cons_append, fill, fill, ih, List.append_assoc]

/-- The components of a path are replaced one by one. -/
theorem fill_path (f : Str → Str) (p : Str) :
    fill f (pieces 0 p) = ['/'].intercalate ((split p '/').map fun k => fill f (pieces 0 k)) := by
  have noSlash : ∀ k ∈ split p '/', '/' ∉ k := fun k => not_mem_split
  conv_lhs => rw [← intercalate_split p]
  generalize split p '/' = ks at noSlash
  induction ks with
  | nil => rfl
  | cons k ks ih =>
    obtain ⟨first, others⟩ := List.forall_mem_cons.mp noSlash
    cases ks with
    | nil => simp
    | cons k' ks =>
      rw [List.intercalate_cons_cons, List.append_assoc, List.singleton_append, pieces_slash first, fill_append,
        fill, ih others, List.map_cons, List.map_cons, List.map_cons, List.intercalate_cons_cons, List.append_assoc,
        List.singleton_append]

theorem fill_congr (same : ∀ name ∈ names ps, f name = g name) : fill f ps = fill g ps := by
  induction ps with
  | nil => rfl
  | cons piece ps ih =>
    cases piece with
    | lit c => rw [fill, fill, ih same]
    | var name =>
      obtain ⟨first, others⟩ := List.forall_mem_cons.mp same
      rw [fill, fill, first, ih others]

theorem fill_le (short : ∀ name ∈ names ps, (g name).length ≤ (f name).length) :
    (fill g ps).length ≤ (fill f ps).length := by
  induction ps with
  | nil => exact Nat.le_refl _
  | cons piece ps ih =>
    cases piece with
    | lit c => exact Nat.succ_le_succ (ih short)
    | var name =>
      obtain ⟨first, others⟩ := List.forall_mem_cons.mp short
      rw [fill, fill, List.length_append, List.length_append]
      exact Nat.add_le_add first (ih others)

/-- One variable with a shorter value makes the text shorter. -/
theorem fill_lt (short : ∀ name ∈ names ps, (g name).length ≤ (f name).length) {name : Str} (inside : name ∈ names ps)
    (shorter : (g name).length < (f name).length) : (fill g ps).length < (fill f ps).length := by
  induction ps with
  | nil => cases inside
  | cons piece ps ih =>
    cases piece with
    | lit c => exact Nat.succ_lt_succ (ih short inside)
    | var first =>
      obtain ⟨here, others⟩ := List.forall_mem_cons.mp short
      rw [fill, fill, List.length_append, List.length_append]
      rcases List.mem_cons.mp inside with rfl | later
      · exact Nat.add_lt_add_of_lt_of_le shorter (fill_le others)
      · exact Nat.add_lt_add_of_le_of_lt here (ih others later)

/-- With the variables as they stand, the text is the same. -/
theorem fill_self (k : Str) : fill varText (pieces 0 k) = k := by
  induction size : k.length using Nat.strongRecOn generalizing k with
  | _ n ih =>
    cases k with
    | nil => rfl
    | cons c k =>
      rw [pieces]
      cases found : varName (c :: k) with
      | none => rw [fill, ih k.length (by rw [← size, List.length_cons]; omega) k rfl]
      | some name =>
        obtain ⟨r, text, -⟩ := varName_iff.mp found
        have short : name.length + 2 ≤ k.length := by
          have length := congrArg List.length text
          simp [varText] at length
          omega
        have own := pieces_skip (name.length + 2) k [] short
        have left : k.drop (name.length + 2) = r := by
          rw [← List.drop_succ_cons (a := c), text]
          simp [varText]
        rw [List.append_nil, List.append_nil, left] at own
        dsimp only
        rw [fill, own, ih r.length (by rw [← size, text]; simp [varText]; omega) r rfl, text]

theorem not_mem_fill {c : Char} (values : ∀ name ∈ names ps, c ∉ f name) (others : .lit c ∉ ps) : c ∉ fill f ps := by
  induction ps with
  | nil => exact List.not_mem_nil
  | cons piece ps ih =>
    rw [List.mem_cons, not_or] at others
    cases piece with
    | lit d =>
      rw [fill, List.mem_cons, not_or]
      exact ⟨fun same => others.1 (same ▸ rfl), ih values others.2⟩
    | var name =>
      obtain ⟨first, rest⟩ := List.forall_mem_cons.mp values
      rw [fill, List.mem_append, not_or]
      exact ⟨first, ih rest others.2⟩

theorem mem_of_lit {c : Char} {skip : Nat} {k : Str} (literal : .lit c ∈ pieces skip k) : c ∈ k := by
  induction k generalizing skip with
  | nil => cases skip <;> cases literal
  | cons d k ih =>
    cases skip with
    | succ skip => exact List.mem_cons_of_mem d (ih literal)
    | zero =>
      rw [pieces] at literal
      split at literal
      · rw [List.mem_cons] at literal
        exact List.mem_cons_of_mem d (ih (literal.resolve_left fun same => by cases same))
      · rcases List.mem_cons.mp literal with same | later
        · rw [Piece.lit.inj same]
          exact List.mem_cons_self
        · exact List.mem_cons_of_mem d (ih later)

theorem rewrite_ok {f : Str → Except String Str} (ok : ∀ name ∈ names ps, f name = .ok (g name)) :
    rewrite f ps = .ok (fill g ps) := by
  induction ps with
  | nil => rfl
  | cons piece ps ih =>
    cases piece with
    | lit c => rw [rewrite, fill, ih ok]; rfl
    | var name =>
      obtain ⟨first, others⟩ := List.forall_mem_cons.mp ok
      rw [rewrite, fill, first, ih others]
      rfl

end Rendering

/-! ## The two patterns -/

/-- `${[%w_]+}` -/
def varItems : List Item :=
  [.rep (.elem (.lit '$')) .one, .rep (.elem (.lit '\x7b')) .one, .rep varSet .plus, .rep (.elem (.lit '\x7d')) .one]

/-- `${([%w_]+)}` -/
def varCapture : List Item :=
  [.rep (.elem (.lit '$')) .one, .rep (.elem (.lit '\x7b')) .one, .opens, .rep varSet .plus, .closes,
    .rep (.elem (.lit '\x7d')) .one]

theorem compile_varItems : compile "$\x7b[%w_]+\x7d".toList = some { anchor := false, items := varItems } := by
  simp [compile, LuaPattern.items, LuaPattern.single, LuaPattern.setElems, LuaPattern.quant, varItems, varSet]

theorem compile_varCapture : compile "$\x7b([%w_]+)\x7d".toList = some { anchor := false, items := varCapture } := by
  simp [compile, LuaPattern.items, LuaPattern.single, LuaPattern.setElems, LuaPattern.quant, varCapture, varSet]

section Patterns
variable {s name r : Str} {ds : List Cap}

/-- A name between the braces. -/
def Named (name s r : Str) : Prop := s = varText name ++ r ∧ name ≠ [] ∧ ∀ c ∈ name, varSet.test c

theorem matches_varItems : LuaPattern.Matches varItems s [] r ds ↔ ∃ name, ds = [] ∧ Named name s r := by
  simp only [varItems, LuaPattern.matches_char (fun _ => LuaPattern.lit_test), LuaPattern.matches_plus,
    LuaPattern.matches_nil]
  constructor
  · rintro ⟨_, rfl, _, rfl, name, _, rfl, some, all, _, rfl, rfl, rfl⟩
    exact ⟨name, rfl, by simp [varText], some, all⟩
  · rintro ⟨name, rfl, rfl, some, all⟩
    exact ⟨_, rfl, name ++ '\x7d' :: r, by simp, name, '\x7d' :: r, rfl, some, all, r, rfl, rfl, rfl⟩

theorem matches_varCapture : LuaPattern.Matches varCapture s [] r ds ↔ ∃ name, ds = [.closed name] ∧ Named name s r := by
  simp only [varCapture, LuaPattern.matches_char (fun _ => LuaPattern.lit_test), LuaPattern.matches_plus,
    LuaPattern.matches_nil, LuaPattern.matches_opens, LuaPattern.matches_closes, LuaPattern.closeCap]
  constructor
  · rintro ⟨_, rfl, _, rfl, name, _, rfl, some, all, _, rfl, rfl, rfl⟩
    exact ⟨name, by rw [LuaPattern.take_before], by simp [varText], some, all⟩
  · rintro ⟨name, rfl, rfl, some, all⟩
    exact ⟨_, rfl, name ++ '\x7d' :: r, by simp, name, '\x7d' :: r, rfl, some, all, r, rfl, rfl,
      by rw [LuaPattern.take_before]⟩

/-- A variable that is found is the only way to match. -/
theorem doMatch_var {items : List Item} {caps : Str → List Cap}
    (reads : ∀ {s r ds}, LuaPattern.Matches items s [] r ds ↔ ∃ name, ds = caps name ∧ Named name s r) (s : Str) :
    LuaPattern.doMatch items s [] = (varName s).map fun name => (s.drop (name.length + 3), caps name) := by
  cases found : LuaPattern.doMatch items s [] with
  | some result =>
    obtain ⟨r, ds⟩ := result
    obtain ⟨name, rfl, text, some, all⟩ := reads.mp (LuaPattern.doMatch_sound found)
    rw [varName_iff.mpr ⟨r, text, some, all⟩, text]
    simp [varText]
  | none =>
    cases named : varName s with
    | none => rfl
    | some name =>
      obtain ⟨r, text, some, all⟩ := varName_iff.mp named
      have matched := LuaPattern.doMatch_complete (reads.mpr ⟨name, rfl, text, some, all⟩)
      rw [found] at matched
      cases matched

/-- `string.match` finds the first variable. -/
theorem string_match_var (k : Str) :
    string_match k "$\x7b([%w_]+)\x7d".toList = (names (pieces 0 k)).head?.map fun name => [name] := by
  rw [string_match, compile_varCapture, Option.bind_some]
  induction k with
  | nil => rfl
  | cons c k ih =>
    rw [LuaPattern.search, pieces, doMatch_var matches_varCapture]
    cases varName (c :: k) with
    | some name => rfl
    | none => exact ih

/-- `string.gsub` replaces each variable. -/
theorem gsub_var (repl : Str → Except String Str) (skip : Nat) (k : Str) :
    LuaPattern.gsub { anchor := false, items := varItems } repl skip k =
      rewrite (fun name => repl (varText name)) (pieces skip k) := by
  induction k generalizing skip with
  | nil =>
    cases skip with
    | zero => rfl
    | succ skip => rfl
  | cons c k ih =>
    cases skip with
    | succ skip => exact ih skip
    | zero =>
      rw [LuaPattern.gsub, pieces, doMatch_var matches_varItems]
      cases found : varName (c :: k) with
      | none =>
        dsimp only [Option.map_none]
        rw [ih, rewrite]
      | some name =>
        obtain ⟨r, text, -⟩ := varName_iff.mp found
        have matched : (c :: k).take ((c :: k).length - ((c :: k).drop (name.length + 3)).length) = varText name := by
          have left : (c :: k).drop (name.length + 3) = r := by
            rw [text]
            simp [varText]
          rw [left, text, LuaPattern.take_before]
        have long : (varText name).length - 1 = name.length + 2 := by simp [varText]
        have some : varText name ≠ [] := List.cons_ne_nil _ _
        dsimp only [Option.map_some]
        rw [matched, long, ih, rewrite]
        cases repl (varText name) with
        | error e => rfl
        | ok v => simp only [if_neg some]; rfl

end Patterns

/-! ## One component -/

/-- Every variable gets the value of the first. -/
theorem expand_component_eq (env : Env) (k : Str) :
    expand_component env k =
      match (names (pieces 0 k)).head? with
      | none => .ok k
      | some first =>
        match env first with
        | some value => rewrite (fun name => add_s (varText name) value) (pieces 0 k)
        | none => .error "bad argument #3 to 'gsub' (string/function/table expected)" := by
  rw [expand_component, string_match_var]
  cases (names (pieces 0 k)).head? with
  | none => rfl
  | some first =>
    dsimp only [Option.map_some]
    cases env first with
    | none => rfl
    | some value =>
      dsimp only
      rw [string_gsub, compile_varItems]
      exact gsub_var _ 0 k

/-! ## Values with a percent sign -/

section Percent
variable {whole : Str}

theorem ok_of_map {f : Str → Str} {x : Except String Str} {u : Str} (mapped : x.map f = .ok u) :
    ∃ u', x = .ok u' ∧ f u' = u := by
  cases x with
  | error e => cases mapped
  | ok u' => exact ⟨u', rfl, Except.ok.inj mapped⟩

/-- What comes first for a percent sign is another one only for `%%`. -/
theorem add_s_percent {d : Char} {news u : Str} (head : whole.head? ≠ some '%') (full : whole ≠ [])
    (added : add_s whole ('%' :: d :: news) = .ok u) :
    u.head? ≠ some '%' ∨ d = '%' ∧ ∃ u', add_s whole news = .ok u' ∧ u = '%' :: u' := by
  rw [add_s] at added
  split_ifs at added with digit known
  · obtain ⟨u', -, rfl⟩ := ok_of_map added
    rw [List.head?_append_of_ne_nil whole full]
    exact .inl head
  · obtain ⟨u', rest, rfl⟩ := ok_of_map added
    by_cases same : d = '%'
    · exact .inr ⟨same, u', rest, by rw [same]⟩
    · exact .inl fun first => same (Option.some.inj first)

/-- An ordinary character is put in. -/
theorem add_s_cons {c : Char} (other : c ≠ '%') (news : Str) : add_s whole (c :: news) = (add_s whole news).map (c :: ·) := by
  rw [add_s]
  · exact fun percent => absurd percent other
  · exact fun d news percent => absurd percent other

/-- Once behind by a percent sign, what is put in never catches up. -/
theorem add_s_behind {v u : Str} (head : whole.head? ≠ some '%') (full : whole ≠ []) (added : add_s whole v = .ok u)
    (n : Nat) : u ≠ List.replicate (n + 1) '%' ++ v := by
  induction size : v.length using Nat.strongRecOn generalizing v u n with
  | _ m ih =>
    rintro rfl
    cases v with
    | nil => cases added
    | cons c v =>
      by_cases percent : c = '%'
      · subst percent
        cases v with
        | nil => cases added
        | cons d news =>
          obtain first | ⟨rfl, u', rest, same⟩ := add_s_percent head full added
          · exact first rfl
          · have later := ih news.length (by rw [← size, List.length_cons, List.length_cons]; omega) rest (n + 1) rfl
            apply later
            rw [List.replicate_succ, List.cons_append, List.cons.injEq] at same
            rw [← same.2, List.replicate_succ', List.replicate_succ', List.append_assoc, List.append_assoc]
            rfl
      · rw [add_s_cons percent] at added
        obtain ⟨u', -, same⟩ := ok_of_map added
        rw [List.replicate_succ, List.cons_append, List.cons.injEq] at same
        exact percent same.1

/-- A value is put in as it is exactly if it has no percent sign. -/
theorem add_s_iff {v : Str} (head : whole.head? ≠ some '%') (full : whole ≠ []) : add_s whole v = .ok v ↔ '%' ∉ v := by
  induction v with
  | nil => exact iff_of_true rfl List.not_mem_nil
  | cons c v ih =>
    by_cases percent : c = '%'
    · subst percent
      refine iff_of_false ?_ (not_not_intro List.mem_cons_self)
      intro added
      cases v with
      | nil => cases added
      | cons d news =>
        obtain first | ⟨rfl, u', rest, same⟩ := add_s_percent head full added
        · exact first rfl
        · rw [List.cons.injEq] at same
          exact add_s_behind head full rest 0 same.2.symm
    · rw [add_s_cons percent, List.mem_cons, not_or, ← ih, and_iff_right (Ne.symm percent)]
      constructor
      · intro added
        obtain ⟨u, rest, same⟩ := ok_of_map added
        rw [rest, (List.cons.inj same).2]
      · intro added
        rw [added]
        rfl

theorem varText_head (name : Str) : (varText name).head? ≠ some '%' := by
  rw [varText, List.cons_append, List.head?_cons]
  decide

theorem varText_ne_nil (name : Str) : varText name ≠ [] := List.cons_ne_nil _ _

end Percent

/-! ## The whole path -/

/-- The variables of the path are defined. -/
def Defines (env : Env) (p : Str) : Prop := ∀ k ∈ split p '/', ∀ name ∈ names (pieces 0 k), (env name).isSome

/-- No value of a variable of the path has a percent sign. -/
def NoPercent (env : Env) (p : Str) : Prop :=
  ∀ k ∈ split p '/', ∀ name ∈ names (pieces 0 k), ∀ v, env name = some v → '%' ∉ v

/-- In every component the variables have one value, without a percent sign. -/
def OneValue (env : Env) (p : Str) : Prop :=
  ∀ k ∈ split p '/', ∀ first, (names (pieces 0 k)).head? = some first → ∀ v, env first = some v →
    '%' ∉ v ∧ ∀ name ∈ names (pieces 0 k), env name = some v

/-- What is put in the place of each variable is its value. -/
def EachOwn (env : Env) (p : Str) : Prop :=
  ∀ k ∈ split p '/', ∀ first, (names (pieces 0 k)).head? = some first → ∀ v, env first = some v →
    ∀ name ∈ names (pieces 0 k), add_s (varText name) v = .ok ((env name).getD [])

/-- No component has two variables with different names. -/
def OneName (p : Str) : Prop := ∀ k ∈ split p '/', ∀ m ∈ names (pieces 0 k), ∀ n ∈ names (pieces 0 k), m = n

def NoVariable (p : Str) : Prop := ∀ k ∈ split p '/', names (pieces 0 k) = []

section Whole
variable {env : Env} {p : Str}

theorem mem_of_head {ps : List Piece} {first : Str} (head : (names ps).head? = some first) : first ∈ names ps :=
  List.mem_of_mem_head? head

theorem eachOwn_iff (defined : Defines env p) : EachOwn env p ↔ OneValue env p := by
  constructor
  · intro own k member first head v value
    have plain : '%' ∉ v := by
      have same := own k member first head v value first (mem_of_head head)
      rw [value, Option.getD_some] at same
      exact (add_s_iff (varText_head first) (varText_ne_nil first)).mp same
    refine ⟨plain, ?_⟩
    intro name inside
    obtain ⟨w, here⟩ := Option.isSome_iff_exists.mp (defined k member name inside)
    have same := own k member first head v value name inside
    rw [here, Option.getD_some, (add_s_iff (varText_head name) (varText_ne_nil name)).mpr plain] at same
    rw [here, Except.ok.inj same]
  · intro one k member first head v value name inside
    obtain ⟨plain, all⟩ := one k member first head v value
    rw [all name inside, Option.getD_some]
    exact (add_s_iff (varText_head name) (varText_ne_nil name)).mpr plain

/-- Where the first variable is put in alike everywhere, the path is that with `f` put in. -/
theorem expand_vars_ok (f : Str → Str → Str)
    (ok : ∀ k ∈ split p '/', expand_component env k = .ok (fill (f k) (pieces 0 k))) :
    expand_vars env p = .ok (['/'].intercalate ((split p '/').map fun k => fill (f k) (pieces 0 k))) := by
  rw [expand_vars]
  have all : (split p '/').mapM (expand_component env) = .ok ((split p '/').map fun k => fill (f k) (pieces 0 k)) := by
    generalize split p '/' = ks at ok
    induction ks with
    | nil => rfl
    | cons k ks ih =>
      obtain ⟨first, others⟩ := List.forall_mem_cons.mp ok
      rw [List.mapM_cons, first, ih others]
      rfl
  rw [all]
  rfl

/-- A component where the first value, put in for each variable, gives what `g` says. -/
theorem expand_component_ok {k : Str} (defined : ∀ name ∈ names (pieces 0 k), (env name).isSome) (g : Str → Str)
    (added : ∀ first, (names (pieces 0 k)).head? = some first → ∀ v, env first = some v →
      ∀ name ∈ names (pieces 0 k), add_s (varText name) v = .ok (g name)) :
    expand_component env k = .ok (fill g (pieces 0 k)) := by
  rw [expand_component_eq]
  cases head : (names (pieces 0 k)).head? with
  | none =>
    have nothing := List.head?_eq_none_iff.mp head
    dsimp only
    conv_lhs => rw [← fill_self k]
    rw [fill_congr (g := g) (by simp [nothing])]
  | some first =>
    obtain ⟨v, value⟩ := Option.isSome_iff_exists.mp (defined first (mem_of_head head))
    dsimp only
    rw [value]
    exact rewrite_ok (added first head v value)

/-- The condition is enough. -/
theorem expand_vars_substitute (defined : Defines env p) (one : OneValue env p) :
    expand_vars env p = .ok (substitute env p) := by
  rw [substitute, fill_path]
  apply expand_vars_ok (fun _ name => (env name).getD [])
  intro k member
  exact expand_component_ok (defined k member) _ ((eachOwn_iff defined).mpr one k member)

/-- Paths that come out alike have components that do, where no value has a slash. -/
theorem components_eq {f : Str → Str → Str} {g : Str → Str} (noSlash : ∀ k ∈ split p '/', ∀ name, '/' ∉ f k name)
    (noSlash' : ∀ name, '/' ∉ g name)
    (same : ['/'].intercalate ((split p '/').map fun k => fill (f k) (pieces 0 k)) = fill g (pieces 0 p)) :
    ∀ k ∈ split p '/', fill (f k) (pieces 0 k) = fill g (pieces 0 k) := by
  intro k member
  have some : split p '/' ≠ [] := List.ne_nil_of_mem member
  have inside (k : Str) (member : k ∈ split p '/') (h : Str → Str) (values : ∀ name, '/' ∉ h name) :
      '/' ∉ fill h (pieces 0 k) :=
    not_mem_fill (fun name _ => values name) fun literal => not_mem_split member (mem_of_lit literal)
  rw [fill_path] at same
  have lists := congrArg (List.splitOn '/') same
  rw [List.splitOn_intercalate '/' ?_ (by simpa using some), List.splitOn_intercalate '/' ?_ (by simpa using some)] at lists
  · exact List.map_inj_left.mp lists k member
  · rw [List.forall_mem_map]
    exact fun k member => inside k member g noSlash'
  · rw [List.forall_mem_map]
    exact fun k member => inside k member (f k) (noSlash k member)

/-- `put` is what the code puts in for a value. -/
theorem components_of_right {value : Str → Str} {put : Str → Str} (noSlash : ∀ name, '/' ∉ value name)
    (noSlash' : ∀ name, '/' ∉ put name) (added : ∀ first name, add_s (varText name) (value first) = .ok (put first))
    (right : expand_vars (fun name => some (value name)) p = .ok (substitute (fun name => some (value name)) p))
    {k first : Str} (member : k ∈ split p '/') (head : (names (pieces 0 k)).head? = some first) :
    fill (fun _ => put first) (pieces 0 k) = fill value (pieces 0 k) := by
  let here (k : Str) (_ : Str) : Str := put ((names (pieces 0 k)).head?.getD [])
  have done : expand_vars (fun name => some (value name)) p =
      .ok (['/'].intercalate ((split p '/').map fun k => fill (here k) (pieces 0 k))) := by
    apply expand_vars_ok here
    intro k' _
    refine expand_component_ok (fun _ _ => rfl) _ ?_
    rintro first' head' v ⟨⟩ name -
    rw [added first' name]
    simp only [here, head', Option.getD_some]
  have alike := components_eq (f := here) (fun _ _ _ => noSlash' _) noSlash (Except.ok.inj (done.symm.trans right)) k member
  simpa only [here, head, Option.getD_some] using alike

/-- The value of one name is a character longer than those of the others. -/
theorem oneName_of_right
    (right : ∀ env, Defines env p → NoPercent env p → expand_vars env p = .ok (substitute env p)) : OneName p := by
  have isFirst : ∀ k ∈ split p '/', ∀ first, (names (pieces 0 k)).head? = some first →
      ∀ n ∈ names (pieces 0 k), n = first := by
    intro k member first head n inside
    by_contra other
    let value (name : Str) : Str := if name = first then ['x'] else []
    have without {c : Char} (other : c ≠ 'x') (name : Str) : c ∉ value name := by
      dsimp only [value]
      split_ifs
      · rw [List.mem_singleton]
        exact other
      · exact List.not_mem_nil
    have plain (name : Str) : '%' ∉ value name := without (by decide) name
    have slash (name : Str) : '/' ∉ value name := without (by decide) name
    have given := right (fun name => some (value name)) (fun _ _ _ _ => rfl) (by
      rintro k' - name - v ⟨⟩
      exact plain name)
    have alike := components_of_right slash slash
      (fun first name => (add_s_iff (varText_head name) (varText_ne_nil name)).mpr (plain first)) given member head
    have shorter : (value n).length < (value first).length := by simp [value, other]
    have le (name : Str) : (value name).length ≤ (value first).length := by
      by_cases same : name = first <;> simp [value, same]
    exact (fill_lt (fun name _ => le name) inside shorter).ne (congrArg List.length alike).symm
  intro k member m left n inside
  obtain ⟨first, head⟩ := Option.isSome_iff_exists.mp (List.isSome_head?.mpr (List.ne_nil_of_mem left))
  rw [isFirst k member first head m left, isFirst k member first head n inside]

theorem add_s_twice (whole : Str) : add_s whole ['%', '%'] = .ok ['%'] := rfl

/-- Each value is `%%`, for which the code puts `%`. -/
theorem noVariable_of_right (right : ∀ env, Defines env p → expand_vars env p = .ok (substitute env p)) : NoVariable p := by
  intro k member
  cases head : (names (pieces 0 k)).head? with
  | none => exact List.head?_eq_none_iff.mp head
  | some first =>
    have given := right (fun _ => some ['%', '%']) fun _ _ _ _ => rfl
    have put (_ : Str) (name : Str) : add_s (varText name) ['%', '%'] = .ok ['%'] := add_s_twice (varText name)
    have alike := components_of_right (fun _ => by decide) (fun _ => by decide) put given member head
    have shorter : ['%'].length < ['%', '%'].length := by decide
    exact absurd (congrArg List.length alike) (fill_lt (fun _ _ => shorter.le) (mem_of_head head) shorter).ne

/-- `expand_vars` is right if the variables of each component have one value without a percent
sign, and only then puts the own value in for each. A path is safe for all values without a
percent sign if no component has two names, and for all values only if it has no variable. -/
theorem expand_vars_iff (p : Str) :
    (∀ env, Defines env p → (EachOwn env p ↔ OneValue env p)) ∧
    (∀ env, Defines env p → OneValue env p → expand_vars env p = .ok (substitute env p)) ∧
    ((∀ env, Defines env p → NoPercent env p → expand_vars env p = .ok (substitute env p)) ↔ OneName p) ∧
    ((∀ env, Defines env p → expand_vars env p = .ok (substitute env p)) ↔ NoVariable p) := by
  refine ⟨fun _ => eachOwn_iff, fun _ => expand_vars_substitute, ⟨oneName_of_right, ?_⟩, noVariable_of_right, ?_⟩
  · intro one env defined plain
    refine expand_vars_substitute defined ?_
    intro k member first head v value
    refine ⟨plain k member first (mem_of_head head) v value, ?_⟩
    intro name inside
    rw [one k member name inside first (mem_of_head head), value]
  · intro nothing env defined
    refine expand_vars_substitute defined ?_
    intro k member first head
    rw [nothing k member] at head
    cases head

end Whole

/-- The second variable gets the value of the first: `${A}${B}` with `x` and `y`. -/
theorem expand_vars_twice :
    ¬ ∀ p env, Defines env p → expand_vars env p = .ok (substitute env p) := by
  intro right
  let value (name : Str) : Str := if name = ['A'] then ['x'] else ['y']
  have found : pieces 0 "$\x7bA\x7d$\x7bB\x7d".toList = [.var ['A'], .var ['B']] := by decide
  have whole : split "$\x7bA\x7d$\x7bB\x7d".toList '/' = ["$\x7bA\x7d$\x7bB\x7d".toList] := by decide
  have given := right "$\x7bA\x7d$\x7bB\x7d".toList (fun name => some (value name)) fun _ _ _ _ => rfl
  rw [expand_vars, whole, List.mapM_cons, expand_component_eq, substitute, found] at given
  revert given
  decide

end CodeClips.Lua
