import CodeClips.Lua.NormPath

/-!
# Absolute paths from `PWD`

`abs_path` puts `PWD` before every path, and so also before one that is absolute. What it
returns is the way to the place of the path seen from the place of `PWD`, and applying it
again sees that from `PWD` once more. `abs_path_laws_iff` says exactly when this changes
nothing; for all paths that is so only if `PWD` leads to the root.
-/

namespace CodeClips.Lua

section AbsPath
variable {PWD p : Str}

theorem join_abs (pwd : PWD.head? = some '/') (p : Str) : (join PWD p).head? = some '/' := by
  cases PWD with
  | nil => cases pwd
  | cons c rest => exact pwd

theorem ne_nil_of_abs (absolute : p.head? = some '/') : p ≠ [] := by
  rintro rfl
  cases absolute

/-- The components after `PWD`. An empty path is an empty component there. -/
def joined (p : Str) : List (Move Str) := (p.splitOn '/').map moveOf

theorem moves_join (pwd : PWD.head? = some '/') (p : Str) : moves (join PWD p) = moves PWD ++ joined p := by
  rw [moves, moves, joined, split_eq (join_ne_nil PWD p), split_eq (ne_nil_of_abs pwd), splitOn_join, List.map_append]

theorem joined_of_abs (absolute : p.head? = some '/') : joined p = moves p := by
  rw [joined, moves, split_eq (ne_nil_of_abs absolute)]

/-- Where a path leads, from wherever it starts. -/
theorem place_eq_walk_joined (p : Str) : place p = Place.start.walk (joined p) := by
  rcases eq_or_ne p [] with rfl | full
  · rfl
  · rw [place, moves, joined, split_eq full]

theorem place_join (pwd : PWD.head? = some '/') (p : Str) : place (join PWD p) = (place PWD).comp (place p) := by
  rw [place, moves_join pwd, walk_append, walk_eq_comp, ← place_eq_walk_joined]
  rfl

theorem abs_path_abs (pwd : PWD.head? = some '/') (p : Str) : (abs_path PWD p).head? = some '/' :=
  norm_path_abs (join_abs pwd p)

theorem place_abs_path (pwd : PWD.head? = some '/') (p : Str) :
    place (abs_path PWD p) = (place PWD).comp (place p) := by
  rw [abs_path, place_norm_path (join_abs pwd p), place_join pwd]

/-- The string of a normalised path is its place, and whether it ends with a slash. -/
theorem norm_path_inj {p q : Str} (hp : p.head? = some '/') (hq : q.head? = some '/') :
    norm_path p = norm_path q ↔ place p = place q ∧ trails (moves p) = trails (moves q) := by
  constructor
  · intro same
    have places : place p = place q := by rw [← place_norm_path hp, same, place_norm_path hq]
    refine ⟨places, ?_⟩
    rw [norm_path_of_abs hp, norm_path_of_abs hq, places] at same
    have length := congrArg List.length same
    simp only [render, List.length_append, Nat.add_left_cancel_iff] at length
    revert length
    cases trails (moves p) <;> cases trails (moves q) <;> simp
  · rintro ⟨places, trailing⟩
    rw [norm_path_of_abs hp, norm_path_of_abs hq, places, trailing]

/-! ## The slash at the end -/

/-- The components of a path end with a last one. -/
theorem joined_concat (p : Str) : ∃ ms m, joined p = ms ++ [m] := by
  obtain ⟨front, last, eq⟩ := (List.eq_nil_or_concat' (p.splitOn '/')).resolve_left (List.splitOn_ne_nil '/' p)
  exact ⟨front.map moveOf, moveOf last, by rw [joined, eq, List.map_append, List.map_singleton]⟩

theorem blank_up_eq_false {P : Place Str} : blank P .up = false ↔ P.names = [] := by
  simp [blank]

/-- A move that leaves no blank goes to the end of the way there. -/
theorem way_of_not_blank {P : Place Str} {m : Move Str} (entry : blank P m = false) :
    ∃ ms, (P.move m).way = ms ++ [m] ∧ (m = .up → ms = List.replicate P.above .up) := by
  cases m with
  | stay => cases entry
  | down name =>
    refine ⟨P.way, ?_, fun up => nomatch up⟩
    simp [Place.way, Place.move]
  | up =>
    have top := blank_up_eq_false.mp entry
    refine ⟨List.replicate P.above .up, ?_, fun _ => rfl⟩
    rw [up_of_nil top, Place.way, top, List.map_nil, List.append_nil, List.replicate_succ']

/-- Seen from a place as deep as it is high, the way to a normalised path ends as the path. -/
theorem trails_abs_path (pwd : PWD.head? = some '/') (level : (place PWD).above = (place PWD).names.length) (p : Str) :
    trails (moves (join PWD (abs_path PWD p))) = trails (moves (join PWD p)) := by
  rw [moves_join pwd (abs_path PWD p), joined_of_abs (abs_path_abs pwd p), abs_path, moves_norm_path (join_abs pwd p)]
  cases trailing : trails (moves (join PWD p)) with
  | true =>
    rw [if_pos rfl, ← List.cons_append, ← List.append_assoc, trails_concat]
    rfl
  | false =>
    obtain ⟨ms, m, last⟩ := joined_concat p
    rw [moves_join pwd p, last, ← List.append_assoc, trails_concat, walk_append] at trailing
    have arrives : place (join PWD p) = (((Place.start.walk (moves PWD)).walk ms).move m) := by
      rw [place, moves_join pwd p, last, walk_append, walk_append]
      rfl
    have higher : (place PWD).above ≤ ((Place.start.walk (moves PWD)).walk ms).above := above_le_walk _ _
    obtain ⟨front, way, ups⟩ := way_of_not_blank trailing
    rw [← arrives] at way
    rw [if_neg Bool.false_ne_true, List.append_nil, way, ← List.cons_append, ← List.append_assoc, trails_concat,
      walk_append]
    cases m with
    | stay => cases trailing
    | down name => rfl
    | up =>
      have climbs : Place.start.walk (.stay :: List.replicate ((Place.start.walk (moves PWD)).walk ms).above .up) =
          { above := ((Place.start.walk (moves PWD)).walk ms).above, names := ([] : List Str) } := by
        rw [walk_cons]
        exact (walk_ups 0 _).trans (by rw [Nat.zero_add])
      have deep : (place PWD).names.length ≤ ((Place.start.walk (moves PWD)).walk ms).above := level ▸ higher
      rw [ups rfl, blank_up_eq_false, walk_eq_comp, climbs, comp_names_eq_nil]
      exact ⟨rfl, deep⟩

/-! ## The laws -/

/-- A `..` that is kept at the end leads above the start. -/
theorem kept_above (absolute : p.head? = some '/') (top : (place p).names = []) (kept : trails (moves p) = false) :
    0 < (place p).above := by
  obtain ⟨ms, m, last⟩ := joined_concat p
  rw [← joined_of_abs absolute, last, trails_concat] at kept
  rw [place_eq_walk_joined, last, walk_append] at top ⊢
  cases m with
  | stay => cases kept
  | down name => exact absurd top (by simp [Place.move])
  | up =>
    rw [walk_cons, up_of_nil (blank_up_eq_false.mp kept)]
    exact Nat.succ_pos _

/-- A second application of `abs_path` changes nothing exactly if `PWD` goes up as far as down. -/
theorem abs_path_idempotent_iff (pwd : PWD.head? = some '/') (p : Str) :
    abs_path PWD (abs_path PWD p) = abs_path PWD p ↔ (place PWD).above = (place PWD).names.length := by
  rw [abs_path, abs_path, norm_path_inj (join_abs pwd _) (join_abs pwd p), ← abs_path, place_join pwd, place_abs_path pwd,
    place_join pwd, comp_eq_self_iff]
  constructor
  · exact fun same => same.1.1
  · exact fun level => ⟨⟨level, above_le_comp _ _⟩, trails_abs_path pwd level p⟩

/-- An absolute path is only normalised exactly if it goes up as far as `PWD` does, or farther
where it ends there. -/
theorem abs_path_eq_norm_path_iff (pwd : PWD.head? = some '/') (absolute : p.head? = some '/') :
    abs_path PWD p = norm_path p ↔
      (place PWD).above = (place PWD).names.length ∧ (place PWD).above ≤ (place p).above ∧
        ((place p).names = [] → trails (moves p) = false → (place PWD).above < (place p).above) := by
  rw [abs_path, norm_path_inj (join_abs pwd p) absolute, place_join pwd, comp_eq_self_iff, moves_join pwd, and_assoc]
  apply and_congr_right
  intro level
  apply and_congr_right
  intro higher
  obtain ⟨ms, m, last⟩ := joined_concat p
  have arrives : place p = (Place.start.walk ms).move m := by
    rw [place_eq_walk_joined, last, walk_append]
    rfl
  have seen : (Place.start.walk (moves PWD)).walk ms = (place PWD).comp (Place.start.walk ms) := walk_eq_comp _ _
  rw [← joined_of_abs absolute, last, ← List.append_assoc, trails_concat, trails_concat, walk_append, seen]
  rw [arrives] at higher ⊢
  cases m with
  | stay => simp [blank]
  | down name => simp [blank, Place.move]
  | up =>
    cases List.eq_nil_or_concat' (Place.start.walk ms).names with
    | inl top =>
      have kept : blank (Place.start.walk ms) .up = false := blank_up_eq_false.mpr top
      rw [kept, blank_up_eq_false, comp_names_eq_nil, up_of_nil top]
      constructor
      · rintro ⟨-, deep⟩ - -
        exact Nat.lt_succ_of_le (level ▸ deep)
      · intro ends
        exact ⟨top, level ▸ Nat.le_of_lt_succ (ends top rfl)⟩
    | inr below =>
      obtain ⟨names, name, eq⟩ := below
      have cancels : (Place.start.walk ms).names ≠ [] := by simp [eq]
      have blank_of {P : Place Str} (below : P.names ≠ []) : blank P .up = true := by simpa [blank] using below
      have seen_below : ((place PWD).comp (Place.start.walk ms)).names ≠ [] :=
        fun top => cancels (comp_names_eq_nil.mp top).1
      rw [blank_of cancels, blank_of seen_below]
      exact iff_of_true rfl (fun _ kept => absurd kept (by decide))

end AbsPath

/-- The two laws, for one `PWD` and one path. -/
def Laws (PWD p : Str) : Prop :=
  abs_path PWD (abs_path PWD p) = abs_path PWD p ∧ (p.head? = some '/' → abs_path PWD p = norm_path p)

/-- The laws hold exactly if `PWD` goes up as many levels as it has names below them, and an
absolute path goes up as far; they hold for all paths exactly if `PWD` leads to the root. -/
theorem abs_path_laws_iff (PWD : Str) (pwd : PWD.head? = some '/') :
    (∀ p, Laws PWD p ↔ (place PWD).above = (place PWD).names.length ∧
      (p.head? = some '/' → (place PWD).above ≤ (place p).above ∧
        ((place p).names = [] → trails (moves p) = false → (place PWD).above < (place p).above))) ∧
    ((∀ p, Laws PWD p) ↔ place PWD = .start) := by
  have pointwise (p : Str) : Laws PWD p ↔ (place PWD).above = (place PWD).names.length ∧
      (p.head? = some '/' → (place PWD).above ≤ (place p).above ∧
        ((place p).names = [] → trails (moves p) = false → (place PWD).above < (place p).above)) := by
    rw [Laws, abs_path_idempotent_iff pwd]
    apply and_congr_right
    intro level
    apply imp_congr_right
    intro absolute
    rw [abs_path_eq_norm_path_iff pwd absolute]
    exact and_iff_right level
  refine ⟨pointwise, ?_⟩
  constructor
  · intro laws
    obtain ⟨level, higher⟩ := (pointwise ['/']).mp (laws ['/'])
    have root : (place ['/']).above = 0 := by decide
    have top : (place PWD).above = 0 := Nat.le_zero.mp (root ▸ (higher rfl).1)
    rw [Place.ext_iff]
    exact ⟨top, List.length_eq_zero_iff.mp (level ▸ top)⟩
  · intro root p
    rw [pointwise, root]
    refine ⟨rfl, fun absolute => ⟨Nat.zero_le _, ?_⟩⟩
    exact kept_above absolute

/-- `/a/..` leads to the root, so that the laws hold for all paths. -/
theorem abs_path_laws_root : place ['/', 'a', '/', '.', '.'] = .start ∧
    ((∀ p, Laws ['/', 'a', '/', '.', '.'] p) ↔ place ['/', 'a', '/', '.', '.'] = .start) :=
  ⟨rfl, (abs_path_laws_iff ['/', 'a', '/', '.', '.'] rfl).2⟩

/-- From `/h`, `/a` becomes `/h/a`, and that `/h/h/a`. -/
theorem abs_path_repeats_pwd : ¬ ∀ PWD p : Str, PWD.head? = some '/' → Laws PWD p := by
  intro laws
  have same := (laws ['/', 'h'] ['/', 'a'] rfl).2 rfl
  have differ : abs_path ['/', 'h'] ['/', 'a'] ≠ norm_path ['/', 'a'] := by decide
  exact differ same

end CodeClips.Lua
