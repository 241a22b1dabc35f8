import CodeClips.Lua.Path

/-!
# What `norm_path` keeps

The table of `norm_path` after some components: the entries that are not blanked are the `..`
that lead above the start and the names below, so that they are the way to the place the
components lead to (`holds_norm_component` for one component). From there the string that
`norm_path` returns is read off, and with it whether it begins with a slash, and where it leads.
-/

namespace CodeClips.Lua

/-- The move that a component is. -/
def moveOf (k : Str) : Move Str :=
  if k = dotdot then .up else if k = [] ∨ k = dot then .stay else .down k

def moves (p : Str) : List (Move Str) := (split p '/').map moveOf

/-- Where a path leads from its start. -/
def place (p : Str) : Place Str := Place.start.walk (moves p)

/-- The components of the way to a place. -/
def parts (P : Place Str) : List Str := List.replicate P.above dotdot ++ P.names

/-- Whether a move leaves a blank entry. -/
def blank (P : Place Str) : Move Str → Bool
  | .stay => true
  | .up => !P.names.isEmpty
  | .down _ => false

/-- Whether the last of the moves does. -/
def trails (ms : List (Move Str)) : Bool :=
  match ms.getLast? with
  | some m => blank (Place.start.walk ms.dropLast) m
  | none => false

def IsName (k : Str) : Prop := k ≠ [] ∧ k ≠ dot ∧ k ≠ dotdot

def live (s : Str) : Bool := !s.isEmpty

@[simp] theorem trails_concat (ms : List (Move Str)) (m : Move Str) :
    trails (ms ++ [m]) = blank (Place.start.walk ms) m := by
  simp [trails]

theorem moveOf_dotdot : moveOf dotdot = .up := if_pos rfl

theorem moveOf_name {k : Str} (name : IsName k) : moveOf k = .down k := by
  rw [moveOf, if_neg name.2.2, if_neg (not_or.mpr ⟨name.1, name.2.1⟩)]

theorem component_cases (k : Str) : k = dotdot ∨ k = [] ∨ k = dot ∨ IsName k := by
  simp only [IsName]
  tauto

/-! ## The table -/

/-- The table, kept backwards, after moves that lead to `P`. -/
structure Holds (P : Place Str) (str : List Str) : Prop where
  kept : str.filter live = P.names.reverse ++ List.replicate P.above dotdot
  names : ∀ name ∈ P.names, IsName name

section Table
variable {P : Place Str} {str : List Str}

theorem cancel_eq_none (ups : ∀ s ∈ str.filter live, s = dotdot) : cancel str = none := by
  induction str with
  | nil => rfl
  | cons s str ih =>
    have rest : ∀ s ∈ str.filter live, s = dotdot := by
      intro s member
      rw [List.mem_filter] at member
      exact ups s (List.mem_filter.mpr ⟨List.mem_cons_of_mem _ member.1, member.2⟩)
    have passed : s = [] ∨ s = dotdot := by
      cases s with
      | nil => exact .inl rfl
      | cons c s => exact .inr (ups _ (List.mem_filter.mpr ⟨List.mem_cons_self, rfl⟩))
    rw [cancel, if_pos passed, ih rest]
    rfl

/-- The name that was kept last is blanked. -/
theorem cancel_eq_some {name : Str} {rest : List Str} (nearest : str.filter live = name :: rest)
    (isName : IsName name) : ∃ str', cancel str = some str' ∧ str'.filter live = rest := by
  induction str with
  | nil => cases nearest
  | cons s str ih =>
    by_cases empty : s = []
    · subst empty
      rw [List.filter_cons_of_neg (by simp [live])] at nearest
      obtain ⟨str', found, kept⟩ := ih nearest
      refine ⟨[] :: str', ?_, ?_⟩
      · rw [cancel, if_pos (.inl rfl), found]
        rfl
      · rwa [List.filter_cons_of_neg (by simp [live])]
    · rw [List.filter_cons_of_pos (by simpa [live] using empty), List.cons.injEq] at nearest
      obtain ⟨rfl, nearest⟩ := nearest
      refine ⟨[] :: str, ?_, ?_⟩
      · rw [cancel, if_neg (not_or.mpr ⟨empty, isName.2.2⟩)]
      · rwa [List.filter_cons_of_neg (by simp [live])]

theorem Holds.cancel_none (holds : Holds P str) (top : P.names = []) : cancel str = none := by
  apply cancel_eq_none
  rw [holds.kept, top]
  exact fun s member => List.eq_of_mem_replicate member

theorem Holds.cancel_some (holds : Holds P str) (below : P.names ≠ []) :
    ∃ str', cancel str = some str' ∧ str'.filter live = P.names.dropLast.reverse ++ List.replicate P.above dotdot := by
  rcases List.eq_nil_or_concat' P.names with top | ⟨names, name, eq⟩
  · exact absurd top below
  · have kept := holds.kept
    rw [eq, List.reverse_concat] at kept
    obtain ⟨str', found, kept'⟩ := cancel_eq_some kept (holds.names name (by simp [eq]))
    refine ⟨str', found, ?_⟩
    rw [kept', eq, List.dropLast_concat]
    rfl

/-- **One component**: the table holds the place after the component's move, and its new entry
is blank exactly if the move leaves a blank. -/
theorem holds_norm_component (holds : Holds P str) (k : Str) :
    Holds (P.move (moveOf k)) (norm_component str k) ∧
      (norm_component str k).head? = some (if blank P (moveOf k) then [] else k) := by
  rcases component_cases k with rfl | rfl | rfl | name
  · rw [moveOf_dotdot]
    cases names : P.names with
    | nil =>
      rw [up_of_nil names]
      simp only [norm_component, if_true, holds.cancel_none names, blank, names]
      refine ⟨⟨?_, by simp⟩, rfl⟩
      rw [List.filter_cons_of_pos rfl, holds.kept, names]
      rfl
    | cons first rest =>
      have below : P.names ≠ [] := by simp [names]
      obtain ⟨str', found, kept⟩ := holds.cancel_some below
      rw [up_of_ne_nil below]
      simp only [norm_component, if_true, found, blank, names]
      refine ⟨⟨?_, ?_⟩, rfl⟩
      · rw [List.filter_cons_of_neg (by simp [live]), kept, names]
      · intro name member
        change name ∈ (first :: rest).dropLast at member
        rw [← names] at member
        exact holds.names name ((List.dropLast_sublist _).subset member)
  · exact ⟨⟨holds.kept, holds.names⟩, rfl⟩
  · exact ⟨⟨holds.kept, holds.names⟩, rfl⟩
  · rw [moveOf_name name]
    simp only [norm_component, if_neg name.2.2, if_neg name.2.1]
    refine ⟨⟨?_, ?_⟩, rfl⟩
    · rw [List.filter_cons_of_pos (by simpa [live] using name.1), holds.kept]
      simp [Place.move]
    · rw [Place.move, List.forall_mem_append, List.forall_mem_singleton]
      exact ⟨holds.names, name⟩

theorem holds_foldl (holds : Holds P str) (components : List Str) :
    Holds (P.walk (components.map moveOf)) (components.foldl norm_component str) := by
  induction components generalizing P str with
  | nil => exact holds
  | cons k components ih => exact ih (holds_norm_component holds k).1

theorem holds_start : Holds .start [] := ⟨rfl, fun _ member => (nomatch member)⟩

end Table

/-! ## The first entry -/

theorem cancel_append (l r : List Str) :
    cancel (l ++ r) = match cancel l with
      | some l' => some (l' ++ r)
      | none => (cancel r).map (l ++ ·) := by
  induction l with
  | nil =>
    rw [List.nil_append]
    cases cancel r <;> rfl
  | cons s l ih =>
    rw [List.cons_append, cancel, cancel, ih]
    split
    · cases cancel l <;> cases cancel r <;> rfl
    · rfl

/-- An entry that is no name is passed, and stays. -/
theorem norm_component_append (l : List Str) {s : Str} (passed : s = [] ∨ s = dotdot) (k : Str) :
    norm_component (l ++ [s]) k = norm_component l k ++ [s] := by
  have kept : cancel [s] = none := by
    rw [cancel, if_pos passed]
    rfl
  rw [norm_component, norm_component, cancel_append, kept]
  split_ifs
  · cases cancel l <;> rfl
  · rfl
  · rfl

theorem foldl_norm_component_append (l : List Str) {s : Str} (passed : s = [] ∨ s = dotdot) (components : List Str) :
    components.foldl norm_component (l ++ [s]) = components.foldl norm_component l ++ [s] := by
  induction components generalizing l with
  | nil => rfl
  | cons k components ih => rw [List.foldl_cons, norm_component_append l passed, ih, List.foldl_cons]

theorem above_le_walk (P : Place Str) (ms : List (Move Str)) : P.above ≤ (P.walk ms).above := by
  rw [walk_eq_comp]
  exact above_le_comp _ _

/-- A name at the start is not touched by a component that finds another before it. -/
theorem norm_component_name {P : Place Str} {l : List Str} {s k : Str} (holds : Holds P l)
    (below : k = dotdot → P.names ≠ []) : norm_component (l ++ [s]) k = norm_component l k ++ [s] := by
  rw [norm_component, norm_component, cancel_append]
  split_ifs with up
  · obtain ⟨l', found, -⟩ := holds.cancel_some (below up)
    rw [found]
    rfl
  · rfl
  · rfl

theorem norm_component_up {P : Place Str} {l : List Str} {s : Str} (holds : Holds P l) (name : IsName s)
    (top : P.names = []) : norm_component (l ++ [s]) dotdot = ([] :: l) ++ [[]] := by
  have found : cancel [s] = some [[]] := by rw [cancel, if_neg (not_or.mpr ⟨name.1, name.2.2⟩)]
  rw [norm_component, if_pos rfl, cancel_append, holds.cancel_none top, found]
  rfl

/-- A name at the start stays until the components after it lead above it. -/
theorem foldl_norm_component_name {P : Place Str} {l : List Str} {s : Str} (holds : Holds P l) (level : P.above = 0)
    (name : IsName s) (components : List Str) :
    ∃ l', components.foldl norm_component (l ++ [s]) =
      l' ++ [if (P.walk (components.map moveOf)).above = 0 then s else []] := by
  induction components generalizing P l with
  | nil => exact ⟨l, by simp [level]⟩
  | cons k components ih =>
    rw [List.foldl_cons, List.map_cons, walk_cons]
    by_cases leaves : k = dotdot ∧ P.names = []
    · obtain ⟨rfl, top⟩ := leaves
      rw [norm_component_up holds name top, foldl_norm_component_append _ (.inl rfl), moveOf_dotdot, up_of_nil top]
      have higher := above_le_walk { P with above := P.above + 1 } (components.map moveOf)
      rw [if_neg (by change P.above + 1 ≤ _ at higher; omega)]
      exact ⟨_, rfl⟩
    · have below : k = dotdot → P.names ≠ [] := fun up top => leaves ⟨up, top⟩
      rw [norm_component_name holds below]
      apply ih (holds_norm_component holds k).1
      rcases component_cases k with rfl | rfl | rfl | isName
      · rw [moveOf_dotdot, up_of_ne_nil (below rfl), level]
      · exact level
      · exact level
      · rw [moveOf_name isName]
        exact level

/-! ## The string -/

/-- Components each after a slash, and a slash at the end if `trailing`. -/
def render (components : List Str) (trailing : Bool) : Str :=
  components.flatMap ('/' :: ·) ++ if trailing then ['/'] else []

theorem squeeze_append {s : Str} (clean : '/' ∉ s) (rest : Str) : squeeze (s ++ rest) = s ++ squeeze rest := by
  induction s with
  | nil => rfl
  | cons c s ih =>
    rw [List.mem_cons, not_or] at clean
    rw [List.cons_append, squeeze, if_neg (fun both => clean.1 both.1.symm), ih clean.2]
    rfl

theorem squeeze_slash {rest : Str} (begins : rest.head? ≠ some '/') : squeeze ('/' :: rest) = '/' :: squeeze rest := by
  rw [squeeze, if_neg (fun both => begins both.2)]

theorem head_ne_slash {s : Str} (clean : '/' ∉ s) : s.head? ≠ some '/' :=
  fun slash => clean (List.mem_of_head? slash)

/-- From the first slash on: the blank entries leave nothing, except at the end. -/
theorem squeeze_intercalate {str : List Str} (clean : ∀ s ∈ str, '/' ∉ s) (entries : str ≠ []) :
    squeeze ('/' :: ['/'].intercalate str) = render (str.filter live) (str.getLast? = some []) := by
  induction str with
  | nil => exact absurd rfl entries
  | cons s str ih =>
    rw [List.forall_mem_cons] at clean
    cases str with
    | nil =>
      rw [List.intercalate_singleton]
      cases s with
      | nil => rfl
      | cons c s =>
        rw [squeeze_slash (head_ne_slash clean.1), ← List.append_nil (c :: s), squeeze_append clean.1]
        simp [render, live, squeeze]
    | cons t str =>
      have later := ih clean.2 (List.cons_ne_nil _ _)
      rw [List.intercalate_cons_cons, List.append_assoc, List.singleton_append, List.getLast?_cons_cons]
      cases s with
      | nil =>
        rw [List.nil_append, squeeze, if_pos ⟨rfl, rfl⟩, later]
        rfl
      | cons c s =>
        rw [squeeze_slash (by exact head_ne_slash (s := c :: s) clean.1), squeeze_append clean.1, later,
          List.filter_cons_of_pos (a := c :: s) rfl]
        simp [render]

/-- The string of a table of at least two entries. -/
theorem squeeze_table {s : Str} {str : List Str} (clean : ∀ t ∈ s :: str, '/' ∉ t) (entries : str ≠ []) :
    squeeze (['/'].intercalate (s :: str)) = s ++ render (str.filter live) (str.getLast? = some []) := by
  rw [List.forall_mem_cons] at clean
  rw [List.intercalate_cons_of_ne_nil entries, List.append_assoc, List.singleton_append, squeeze_append clean.1,
    squeeze_intercalate clean.2 entries]

/-- What `render` makes begins with a slash. -/
theorem render_head {str : List Str} (entries : str ≠ []) :
    (render (str.filter live) (str.getLast? = some [])).head? = some '/' := by
  rcases List.eq_nil_or_concat' str with rfl | ⟨front, last, rfl⟩
  · exact absurd rfl entries
  · cases kept : (front ++ [last]).filter live with
    | cons s rest => simp [render]
    | nil =>
      have blank : ¬ live last = true := List.filter_eq_nil_iff.mp kept last (by simp)
      have empty : last = [] := by simpa [live] using blank
      simp [render, empty]

/-! ## The entries of a table -/

theorem length_cancel {str str' : List Str} (found : cancel str = some str') : str'.length = str.length := by
  induction str generalizing str' with
  | nil => cases found
  | cons s str ih =>
    rw [cancel] at found
    split at found
    · obtain ⟨str'', found', rfl⟩ := Option.map_eq_some_iff.mp found
      rw [List.length_cons, List.length_cons, ih found']
    · cases found
      rfl

theorem length_norm_component (str : List Str) (k : Str) : (norm_component str k).length = str.length + 1 := by
  rw [norm_component]
  split_ifs
  · split
    · rename_i found
      rw [List.length_cons, length_cancel found]
    · rfl
  · rfl
  · rfl

theorem length_foldl (components str : List Str) :
    (components.foldl norm_component str).length = str.length + components.length := by
  induction components generalizing str with
  | nil => rfl
  | cons k components ih =>
    rw [List.foldl_cons, ih, length_norm_component, List.length_cons]
    omega

theorem mem_cancel {str str' : List Str} (found : cancel str = some str') {s : Str} (member : s ∈ str') :
    s = [] ∨ s ∈ str := by
  induction str generalizing str' with
  | nil => cases found
  | cons t str ih =>
    rw [cancel] at found
    split at found
    · obtain ⟨str'', found', rfl⟩ := Option.map_eq_some_iff.mp found
      rw [List.mem_cons] at member ⊢
      rcases member with here | later
      · exact .inr (.inl here)
      · exact (ih found' later).imp_right .inr
    · cases found
      rw [List.mem_cons] at member ⊢
      exact member.imp_right .inr

/-- Every entry is blank or a component. -/
theorem mem_foldl {components str : List Str} {s : Str} (member : s ∈ components.foldl norm_component str) :
    s = [] ∨ s ∈ components ∨ s ∈ str := by
  induction components generalizing str with
  | nil => exact .inr (.inr member)
  | cons k components ih =>
    rcases ih member with blank | later | entry
    · exact .inl blank
    · exact .inr (.inl (List.mem_cons_of_mem _ later))
    · rw [norm_component] at entry
      split_ifs at entry
      · split at entry
        · rename_i found
          rw [List.mem_cons] at entry
          rcases entry with blank | passed
          · exact .inl blank
          · exact (mem_cancel found passed).imp_right .inr
        · rw [List.mem_cons] at entry
          rcases entry with rfl | before
          · exact .inr (.inl List.mem_cons_self)
          · exact .inr (.inr before)
      · rw [List.mem_cons] at entry
        exact entry.imp_right .inr
      · rw [List.mem_cons] at entry
        rcases entry with rfl | before
        · exact .inr (.inl List.mem_cons_self)
        · exact .inr (.inr before)

theorem clean_foldl {components str : List Str} (clean : ∀ s ∈ components, '/' ∉ s) (before : ∀ s ∈ str, '/' ∉ s) :
    ∀ s ∈ components.foldl norm_component str, '/' ∉ s := by
  intro s member
  rcases mem_foldl member with rfl | component | entry
  · exact List.not_mem_nil
  · exact clean s component
  · exact before s entry

/-! ## The normalised string -/

section NormPath
variable {p first : Str} {rest : List Str}

/-- A path with a slash: the first entry, and the way from there. -/
theorem norm_path_table (eq : split p '/' = first :: rest) (more : rest ≠ []) {l : List Str} {e : Str}
    (table : rest.foldl norm_component (norm_component [] first) = l ++ [e]) :
    l.reverse ≠ [] ∧ '/' ∉ e ∧ norm_path p = e ++ render (l.reverse.filter live) (l.reverse.getLast? = some []) := by
  have whole : (split p '/').foldl norm_component [] = l ++ [e] := by rw [eq, List.foldl_cons, table]
  have clean : ∀ s ∈ e :: l.reverse, '/' ∉ s := by
    intro s member
    apply @clean_foldl (split p '/') [] (fun _ => not_mem_split) (List.forall_mem_nil _)
    rw [whole]
    rw [List.mem_cons, List.mem_reverse] at member
    rw [List.mem_append, List.mem_singleton]
    exact member.symm
  have entries : l.reverse ≠ [] := by
    have length := congrArg List.length whole
    have positive := List.length_pos_of_ne_nil more
    rw [length_foldl, eq, List.length_append, List.length_cons, List.length_nil, List.length_singleton] at length
    rw [ne_eq, ← List.length_eq_zero_iff, List.length_reverse]
    omega
  refine ⟨entries, clean e List.mem_cons_self, ?_⟩
  rw [norm_path, whole, List.reverse_concat, squeeze_table clean entries]

theorem norm_path_head (eq : split p '/' = first :: rest) (more : rest ≠ []) {l : List Str} {e : Str}
    (table : rest.foldl norm_component (norm_component [] first) = l ++ [e]) :
    (norm_path p).head? = some '/' ↔ e = [] := by
  obtain ⟨entries, clean, norm⟩ := norm_path_table eq more table
  rw [norm]
  cases e with
  | nil => exact iff_of_true (render_head entries) rfl
  | cons c e =>
    rw [List.mem_cons, not_or] at clean
    simp [Ne.symm clean.1]

/-! ## Absolute paths -/

theorem split_of_abs (absolute : p.head? = some '/') : ∃ rest, split p '/' = [] :: rest ∧ rest ≠ [] := by
  obtain ⟨rest, eq, rfl⟩ := splitOn_of_abs absolute
  exact ⟨_, (split_eq (List.cons_ne_nil _ _)).trans eq, List.splitOn_ne_nil _ _⟩

/-- The blank entry at the start stays. -/
theorem table_of_abs (rest : List Str) :
    rest.foldl norm_component (norm_component [] []) = rest.foldl norm_component [] ++ [[]] :=
  foldl_norm_component_append [] (.inl rfl) rest

theorem norm_path_abs (absolute : p.head? = some '/') : (norm_path p).head? = some '/' := by
  obtain ⟨rest, eq, more⟩ := split_of_abs absolute
  exact (norm_path_head eq more (table_of_abs rest)).mpr rfl

theorem parts_of_holds {P : Place Str} {str : List Str} (holds : Holds P str) : str.reverse.filter live = parts P := by
  rw [List.filter_reverse, holds.kept, parts]
  simp

/-- The last entry is blank exactly if the last move leaves a blank. -/
theorem getLast_table {components : List Str} (entries : components ≠ []) :
    ((components.foldl norm_component []).reverse.getLast? = some []) = (trails (components.map moveOf) = true) := by
  rcases List.eq_nil_or_concat' components with rfl | ⟨front, last, rfl⟩
  · exact absurd rfl entries
  · have head := (holds_norm_component (holds_foldl holds_start front) last).2
    rw [List.foldl_concat, List.getLast?_reverse, head, List.map_append, List.map_singleton, trails_concat]
    cases left : blank (Place.start.walk (front.map moveOf)) (moveOf last) with
    | true => simp
    | false =>
      have full : last ≠ [] := by
        rintro rfl
        cases left
      simp [full]

/-- `norm_path` returns the way to the place, with a slash at the end after a blank. -/
theorem norm_path_of_abs (absolute : p.head? = some '/') :
    norm_path p = render (parts (place p)) (trails (moves p)) := by
  obtain ⟨rest, eq, more⟩ := split_of_abs absolute
  have place_eq : place p = Place.start.walk (rest.map moveOf) := by
    rw [place, moves, eq]
    rfl
  have trails_eq : trails (moves p) = trails (rest.map moveOf) := by
    rcases List.eq_nil_or_concat' rest with rfl | ⟨front, last, rfl⟩
    · exact absurd rfl more
    · rw [moves, eq, List.map_cons, List.map_append, List.map_singleton, ← List.cons_append, trails_concat, trails_concat]
      rfl
  obtain ⟨-, -, norm⟩ := norm_path_table eq more (table_of_abs rest)
  rw [norm, parts_of_holds (holds_foldl holds_start rest), place_eq, trails_eq, List.nil_append]
  simp only [getLast_table more, Bool.decide_eq_true]

end NormPath

/-! ## The leading slash -/

/-- The first component keeps its place: it is a `..`, or a name and the path does not lead
above it again. -/
def FirstStays (p : Str) : Prop :=
  match split p '/' with
  | [] => True
  | first :: rest => first = dotdot ∨ (IsName first ∧ (Place.start.walk (rest.map moveOf)).above = 0)

section Relative
variable {p first : Str} {rest : List Str}

/-- The entry of the first component is blank in the end, unless it stays. -/
theorem first_table (full : first ≠ []) (eq : split p '/' = first :: rest) :
    ∃ l e, rest.foldl norm_component (norm_component [] first) = l ++ [e] ∧ (e = [] ↔ ¬ FirstStays p) := by
  rw [FirstStays, eq]
  rcases component_cases first with rfl | rfl | rfl | name
  · exact ⟨_, _, foldl_norm_component_append [] (.inr rfl) rest, iff_of_false full (not_not.mpr (.inl rfl))⟩
  · exact absurd rfl full
  · refine ⟨_, _, foldl_norm_component_append [] (.inl rfl) rest, iff_of_true rfl ?_⟩
    simp [IsName, dot, dotdot]
  · obtain ⟨l, table⟩ := foldl_norm_component_name holds_start rfl name rest
    have start : norm_component [] first = [] ++ [first] := by
      rw [norm_component, if_neg name.2.2, if_neg name.2.1]
      rfl
    refine ⟨l, _, by rw [start, table], ?_⟩
    simp [full, name, name.2.2]

/-- A path without a slash is a single component. -/
theorem split_of_not_mem (full : p ≠ []) (single : '/' ∉ p) : split p '/' = [p] := by
  rw [split_eq full, List.splitOn_eq_singleton single]

theorem norm_path_of_not_mem (single : '/' ∉ p) : (norm_path p).head? ≠ some '/' := by
  rcases eq_or_ne p [] with rfl | full
  · exact fun slash => nomatch slash
  · rw [norm_path, split_of_not_mem full single]
    have entry : norm_component [] p = [p] ∨ norm_component [] p = [[]] := by
      rw [norm_component]
      split_ifs
      · exact .inl rfl
      · exact .inr rfl
      · exact .inl rfl
    rw [List.foldl_cons, List.foldl_nil]
    rcases entry with kept | blank
    · rw [kept, List.reverse_singleton, List.intercalate_singleton, ← List.append_nil p, squeeze_append single]
      exact head_ne_slash (by simpa [squeeze] using single)
    · rw [blank]
      exact fun slash => nomatch slash

/-- A relative path with a slash has a first component, and more after it. -/
theorem split_of_relative (full : p ≠ []) (relative : p.head? ≠ some '/') (slash : '/' ∈ p) :
    ∃ first rest, split p '/' = first :: rest ∧ rest ≠ [] ∧ first ≠ [] := by
  obtain ⟨first, rest, eq⟩ := List.exists_cons_of_ne_nil (List.splitOn_ne_nil '/' p)
  have whole : p = ['/'].intercalate (first :: rest) := by rw [← eq, List.intercalate_splitOn]
  have more : rest ≠ [] := by
    rintro rfl
    rw [List.intercalate_singleton] at whole
    apply not_mem_splitOn p first (by simp [eq])
    rwa [← whole]
  refine ⟨first, rest, (split_eq full).trans eq, more, ?_⟩
  rintro rfl
  apply relative
  rw [whole, List.intercalate_cons_of_ne_nil more]
  rfl

end Relative

/-- `norm_path` keeps a path relative or absolute exactly if it is absolute, has no slash, or
its first component keeps its place. -/
theorem norm_path_abs_iff (p : Str) :
    ((norm_path p).head? = some '/' ↔ p.head? = some '/') ↔
      (p.head? = some '/' ∨ '/' ∉ p ∨ FirstStays p) := by
  by_cases absolute : p.head? = some '/'
  · exact iff_of_true (iff_of_true (norm_path_abs absolute) absolute) (.inl absolute)
  · by_cases single : '/' ∉ p
    · exact iff_of_true (iff_of_false (norm_path_of_not_mem single) absolute) (.inr (.inl single))
    · have full : p ≠ [] := by
        rintro rfl
        exact single List.not_mem_nil
      obtain ⟨first, rest, eq, more, named⟩ := split_of_relative full absolute (not_not.mp single)
      obtain ⟨l, e, table, stays⟩ := first_table named eq
      rw [norm_path_head eq more table, stays]
      simp [absolute, single]

/-- `a/../b` becomes `/b`. -/
theorem norm_path_becomes_abs : ¬ ∀ p : Str, (norm_path p).head? = some '/' ↔ p.head? = some '/' := by
  intro keeps
  have differ : ¬ ((norm_path ['a', '/', '.', '.', '/', 'b']).head? = some '/' ↔
      (['a', '/', '.', '.', '/', 'b'] : Str).head? = some '/') := by decide
  exact differ (keeps _)

/-! ## Where the normalised path leads -/

theorem render_eq_intercalate (components : List Str) (trailing : Bool) :
    render components trailing = ['/'].intercalate ([] :: (components ++ if trailing then [[]] else [])) := by
  have slashes : ∀ components : List Str, components.flatMap ('/' :: ·) = ['/'].intercalate ([] :: components) := by
    intro components
    induction components with
    | nil => rfl
    | cons s components ih =>
      rw [List.flatMap_cons, ih, List.intercalate_cons_cons]
      cases components with
      | nil => simp
      | cons t components => simp [List.intercalate_cons_cons]
  rw [← slashes, List.flatMap_append, render]
  cases trailing <;> rfl

/-- The components of what `render` makes. -/
theorem splitOn_render {components : List Str} (clean : ∀ s ∈ components, '/' ∉ s) (trailing : Bool) :
    (render components trailing).splitOn '/' = [] :: (components ++ if trailing then [[]] else []) := by
  rw [render_eq_intercalate, List.splitOn_intercalate _ _ (List.cons_ne_nil _ _)]
  rw [List.forall_mem_cons, List.forall_mem_append]
  refine ⟨List.not_mem_nil, clean, ?_⟩
  cases trailing with
  | true => exact List.forall_mem_singleton.mpr List.not_mem_nil
  | false => exact List.forall_mem_nil _

section Place
variable {p : Str}

theorem place_holds (p : Str) : Holds (place p) ((split p '/').foldl norm_component []) := holds_foldl holds_start _

theorem clean_parts (p : Str) : ∀ s ∈ parts (place p), '/' ∉ s := by
  intro s member
  rw [← parts_of_holds (place_holds p), List.mem_filter, List.mem_reverse] at member
  exact clean_foldl (fun _ => not_mem_split) (List.forall_mem_nil _) s member.1

theorem moves_parts (p : Str) : (parts (place p)).map moveOf = (place p).way := by
  rw [parts, List.map_append, List.map_replicate, moveOf_dotdot, Place.way]
  congr 1
  apply List.map_congr_left
  intro name member
  exact moveOf_name ((place_holds p).names name member)

theorem norm_path_ne_nil (absolute : p.head? = some '/') : norm_path p ≠ [] := by
  intro empty
  have head := norm_path_abs absolute
  rw [empty] at head
  cases head

theorem split_norm_path (absolute : p.head? = some '/') :
    split (norm_path p) '/' = [] :: (parts (place p) ++ if trails (moves p) then [[]] else []) := by
  rw [split_eq (norm_path_ne_nil absolute), norm_path_of_abs absolute, splitOn_render (clean_parts p)]

theorem moves_norm_path (absolute : p.head? = some '/') :
    moves (norm_path p) = .stay :: ((place p).way ++ if trails (moves p) then [.stay] else []) := by
  rw [moves, split_norm_path absolute, List.map_cons, List.map_append, moves_parts]
  cases trails (moves p) <;> rfl

theorem place_norm_path (absolute : p.head? = some '/') : place (norm_path p) = place p := by
  rw [place, moves_norm_path absolute, walk_cons, walk_append]
  have way : (Place.start.move .stay).walk (place p).way = place p := walk_way (place p)
  rw [way]
  cases trails (moves p) <;> rfl

end Place

/-- An absolute path and what `norm_path` makes of it lead to the same directory. -/
theorem root_walk_norm_path (p : Str) (absolute : p.head? = some '/') :
    rootWalk [] (moves (norm_path p)) = rootWalk [] (moves p) := by
  have stack : ∀ ms : List (Move Str), rootWalk [] ms = (Place.start.walk ms).names := root_walk Place.start
  rw [stack, stack]
  exact congrArg Place.names (place_norm_path absolute)

/-- `/a/../../b/.` and `/../b/`. -/
theorem root_walk_norm_path_above :
    rootWalk [] (moves (norm_path ['/', 'a', '/', '.', '.', '/', '.', '.', '/', 'b', '/', '.'])) =
      rootWalk [] (moves ['/', 'a', '/', '.', '.', '/', '.', '.', '/', 'b', '/', '.']) :=
  root_walk_norm_path _ rfl

end CodeClips.Lua
