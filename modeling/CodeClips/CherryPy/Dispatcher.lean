import CodeClips.CherryPy.Request

/-!
# The dispatcher

`WSGIPathInfoDispatcher` calls the first application whose prefix the path has, in an order by length. The lengths
are compared before the slashes at the end are taken off; where there are none but the root's, the longest prefix is
found.
-/

namespace CodeClips.CherryPy
variable {α : Type} {apps : List (Bytes × α)} {path script : Bytes}

def rstripSlash (p : Bytes) : Bytes := (p.reverse.dropWhile (· = 47)).reverse

/-- The prefixes in the order in which they are tried. -/
def dispatcherApps (apps : List (Bytes × α)) : List (Bytes × α) :=
  ((apps.mergeSort fun x y => x.1.length ≤ y.1.length).reverse).map fun app => (rstripSlash app.1, app.2)

/-- The path is the prefix, or goes on behind it with a slash. -/
def Matches (p path : Bytes) : Prop := p ++ [47] <+: path ∨ path = p

instance (p path : Bytes) : Decidable (Matches p path) := inferInstanceAs (Decidable (_ ∨ _))

/-- The application that is called, with its `SCRIPT_NAME` and `PATH_INFO`. -/
def dispatch (apps : List (Bytes × α)) (script path : Bytes) : Option (α × Bytes × Bytes) :=
  let path := if path = [] then [47] else path
  ((dispatcherApps apps).find? fun app => Matches app.1 path).map fun app => (app.2, script ++ app.1, path.drop app.1.length)

/-- No prefix but the root's ends with a slash. -/
def Stripped (apps : List (Bytes × α)) : Prop := ∀ app ∈ apps, app.1 = [47] ∨ app.1.getLast? ≠ some 47

theorem rstripSlash_self {p : Bytes} (stripped : p.getLast? ≠ some 47) : rstripSlash p = p := by
  rw [rstripSlash]
  cases reversed : p.reverse with
  | nil => simpa using (List.reverse_eq_nil_iff.mp reversed).symm
  | cons b rest =>
    have last : p.getLast? = some b := by rw [← List.head?_reverse, reversed, List.head?_cons]
    rw [List.dropWhile_cons_of_neg (by rw [last] at stripped; simpa using stripped), ← reversed, List.reverse_reverse]

theorem rstripSlash_length (p : Bytes) : (rstripSlash p).length ≤ p.length := by
  rw [rstripSlash, List.length_reverse, ← p.length_reverse]
  exact (List.dropWhile_suffix _).length_le

theorem Matches.isPrefix {p : Bytes} (matched : Matches p path) : p <+: path := by
  rcases matched with front | rfl
  · exact (List.prefix_append p [47]).trans front
  · exact List.prefix_refl _

/-- What is left of the path is empty or begins with a slash. -/
theorem Matches.rest {p : Bytes} (matched : Matches p path) : path.drop p.length = [] ∨ (path.drop p.length).head? = some 47 := by
  rcases matched with ⟨rest, rfl⟩ | rfl
  · rw [List.append_assoc, List.drop_left]
    exact .inr rfl
  · exact .inl List.drop_length

/-- Where the longer of two prefixes is tried first, it is the longer one without its slash too. -/
theorem rstripSlash_le {p q : Bytes} (ends : p = [47] ∨ p.getLast? ≠ some 47) (ends' : q = [47] ∨ q.getLast? ≠ some 47)
    (matched : Matches (rstripSlash p) path) (matched' : Matches (rstripSlash q) path) (some : path ≠ [])
    (less : q.length ≤ p.length) : (rstripSlash q).length ≤ (rstripSlash p).length := by
  rcases ends with rfl | plain
  · have root : rstripSlash [47] = [] := rfl
    rw [root] at matched
    obtain ⟨rest, rfl⟩ : [47] <+: path := matched.resolve_right some
    rcases ends' with rfl | plain'
    · exact Nat.le_refl _
    · rw [rstripSlash_self plain'] at matched' ⊢
      match q, less with
      | [], _ => exact Nat.zero_le _
      | [b], _ =>
        have front := matched'.isPrefix
        rw [List.singleton_append, List.cons_prefix_cons] at front
        exact absurd (by rw [front.1]; rfl) plain'
  · rw [rstripSlash_self plain]
    exact (rstripSlash_length q).trans less

/-- The prefixes as they are written, in the order in which they are tried: the longer ones first. -/
theorem exists_order (apps : List (Bytes × α)) : ∃ order : List (Bytes × α),
    dispatcherApps apps = order.map (fun app => (rstripSlash app.1, app.2)) ∧ (∀ app, app ∈ order ↔ app ∈ apps) ∧
      order.Pairwise fun x y => y.1.length ≤ x.1.length := by
  refine ⟨_, rfl, fun app => by rw [List.mem_reverse, List.mem_mergeSort], ?_⟩
  have sorted : (apps.mergeSort fun x y => x.1.length ≤ y.1.length).Pairwise fun x y => decide (x.1.length ≤ y.1.length) = true :=
    List.pairwise_mergeSort (fun a b c => by simpa using Nat.le_trans) (fun a b => by simpa using Nat.le_total _ _) apps
  rw [List.pairwise_reverse]
  exact sorted.imp fun less => of_decide_eq_true less

/-- Of the prefixes that the path has the longest as written is found, which is the longest one where no prefix but the
root's ends with a slash: its application gets a `SCRIPT_NAME` and a `PATH_INFO` that make up the path again. -/
theorem dispatch_longest (apps : List (Bytes × α)) (script path : Bytes) :
    (∀ app script' path', dispatch apps script path = some (app, script', path') → ∃ p, (p, app) ∈ apps ∧
      Matches (rstripSlash p) (if path = [] then [47] else path) ∧ script' = script ++ rstripSlash p ∧
      script' ++ path' = script ++ (if path = [] then [47] else path) ∧ (path' = [] ∨ path'.head? = some 47) ∧
      ∀ other ∈ apps, Matches (rstripSlash other.1) (if path = [] then [47] else path) → other.1.length ≤ p.length ∧
        (Stripped apps → rstripSlash other.1 <+: rstripSlash p)) ∧
    (dispatch apps script path = none ↔ ∀ app ∈ apps, ¬ Matches (rstripSlash app.1) (if path = [] then [47] else path)) := by
  have some' : (if path = [] then [47] else path) ≠ [] := by
    split
    · exact List.cons_ne_nil _ _
    · assumption
  generalize full : (if path = [] then [47] else path) = whole at some'
  obtain ⟨order, tried, mem_order, sorted⟩ := exists_order apps
  rw [dispatch, full, tried, List.find?_map, Option.map_map]
  refine ⟨fun app script' path' found => ?_, ?_⟩
  · obtain ⟨⟨p, app'⟩, first, same⟩ := Option.map_eq_some_iff.mp found
    cases same
    obtain ⟨matched, before, after, split, none⟩ := List.find?_eq_some_iff_append.mp first
    have matches_ : Matches (rstripSlash p) whole := of_decide_eq_true matched
    have inside : (p, app') ∈ apps := (mem_order _).mp (split ▸ List.mem_append_right _ List.mem_cons_self)
    obtain ⟨rest, behind⟩ := matches_.isPrefix
    refine ⟨p, inside, matches_, rfl, ?_, matches_.rest, fun other mem matched' => ?_⟩
    · show script ++ rstripSlash p ++ whole.drop (rstripSlash p).length = script ++ whole
      rw [List.append_assoc, ← behind, List.drop_left]
    · have less : other.1.length ≤ p.length := by
        rw [split, List.pairwise_append, List.pairwise_cons] at sorted
        have place : other ∈ before ++ (p, app') :: after := split ▸ (mem_order _).mpr mem
        rcases List.mem_append.mp place with early | late
        · exact absurd matched' (by simpa using none other early)
        · rcases List.mem_cons.mp late with rfl | late
          · exact Nat.le_refl _
          · exact sorted.2.1.1 other late
      exact ⟨less, fun stripped => List.prefix_of_prefix_length_le matched'.isPrefix matches_.isPrefix
        (rstripSlash_le (stripped _ inside) (stripped _ mem) matches_ matched' some' less)⟩
  · rw [Option.map_eq_none_iff, List.find?_eq_none]
    constructor
    · intro none app mem matched
      exact none app ((mem_order _).mpr mem) (decide_eq_true matched)
    · intro none app mem matched
      exact none app ((mem_order _).mp mem) (of_decide_eq_true matched)

end CodeClips.CherryPy
