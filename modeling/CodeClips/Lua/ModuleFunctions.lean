import CodeClips.Lua.CommonPrefix

/-!
# The functions of the module

Beside the methods of a path there are functions on strings. `join` and `common_prefix` make
path objects of their arguments and call the method of the first on all of them, but have no
`return`: they hand no value back. The path that `join` makes and drops has the first path twice.
-/

namespace CodeClips.Lua

/-- `path:join`. A path object has no entries, so it is the table's paths or those of all arguments. -/
def path_join (self : Str) (args : List Arg) : Except String Str :=
  match args.head? with
  | none => .error "attempt to get length of local 't' (a nil value)"
  | some t =>
    if ¬ t.getmetatable ∧ t.size = 0 then .error "path of path:join illegal"
    else if t.getmetatable ∧ ¬ args.all Arg.getmetatable then .error "illegal variable of path:join "
    else .ok ((if 0 < t.size then t.get_paths else args.flatMap Arg.get_paths).foldl join self)

/-- The paths are the arguments, or they are in a table. -/
inductive Form
  | variadic
  | table
  deriving DecidableEq

/-- The body that the two functions share: a path object for each string, and the method of the
object for the first string with the table `t` of all of them. -/
def call_method {α : Type} (method : Str → List Arg → Except String α) (form : Form) (paths : List Str) :
    Except String α :=
  match paths, form with
  | [], .variadic => .error "bad argument #1 to 'type' (value expected)"
  | [], .table => .error "path is illegal"
  | p :: ps, _ => method p [.list (p :: ps)]

namespace Module

/-- What the method returns is dropped, and the function ends without a value. -/
def join (form : Form) (paths : List Str) : Except String (List Str) :=
  (call_method path_join form paths).map fun _ => []

def common_prefix (fuel : Nat) (form : Form) (paths : List Str) : Except String (Option (List Str)) :=
  (call_method ( Lua.common_prefix fuel) form paths).map (Option.map fun _ => [])

end Module

theorem path_join_objects (self p : Str) (ps : List Str) :
    path_join self ((p :: ps).map .object) = .ok ((p :: ps).foldl join self) := by
  have objects : ((p :: ps).map Arg.object).all Arg.getmetatable = true := by simp [Arg.getmetatable]
  have paths : ((p :: ps).map Arg.object).flatMap Arg.get_paths = p :: ps := by simp [List.flatMap_map, Arg.get_paths]
  rw [path_join, objects, paths]
  rfl

theorem path_join_list (self p : Str) (ps : List Str) : path_join self [.list (p :: ps)] = .ok ((p :: ps).foldl join self) := by
  simp [path_join, Arg.getmetatable, Arg.size, Arg.get_paths]

theorem foldl_join (self : Str) (ps : List Str) : ps.foldl join self = self ++ ps.flatMap fun p => '/' :: p := by
  induction ps generalizing self with
  | nil => rw [List.foldl_nil, List.flatMap_nil, List.append_nil]
  | cons p ps ih => rw [List.foldl_cons, ih, join, List.flatMap_cons, List.append_assoc]

/-- The path that is dropped would not be right either: the first path is in it twice. -/
theorem dropped_ne (p : Str) (ps : List Str) : (p :: ps).foldl join p ≠ ps.foldl join p := by
  intro same
  rw [foldl_join, foldl_join, List.append_cancel_left_eq, List.flatMap_cons] at same
  exact List.cons_ne_nil '/' p (List.append_left_eq_self.mp same)

section Nothing
variable {α : Type}

/-- No value is not the value of a method, whatever that returns. -/
theorem nothing_ne (r : Except String α) : (.ok [] : Except String (List α)) ≠ r.map ([·]) := by
  cases r with
  | error e => rintro ⟨⟩
  | ok a => rintro ⟨⟩

theorem some_nothing_ne (r : Except String (Option α)) :
    (.ok (some []) : Except String (Option (List α))) ≠ r.map (Option.map ([·])) := by
  rcases r with e | a | a
  · rintro ⟨⟩
  · rintro ⟨⟩
  · rintro ⟨⟩

end Nothing

theorem Module.join_eq (form : Form) (p : Str) (ps : List Str) : Module.join form (p :: ps) = .ok [] := by
  rw [Module.join, call_method, path_join_list]
  rfl

/-- The method of the first path does not do with all of them what it does with the others. -/
theorem call_join_ne (form : Form) (p : Str) (ps : List Str) :
    call_method path_join form (p :: ps) ≠ path_join p (ps.map .object) := by
  rw [call_method, path_join_list]
  cases ps with
  | nil => rintro ⟨⟩
  | cons q qs =>
    rw [path_join_objects]
    exact fun same => dropped_ne p (q :: qs) (Except.ok.inj same)

/-- **No value**: for no list of paths and in neither form does `join` return what the method
does, and the same for `common_prefix`, whose loop ends within the length of the first path.
For one path the method of `join` raises an error where the function does not. -/
theorem module_never_agrees (form : Form) (p : Str) (ps : List Str) :
    Module.join form (p :: ps) = .ok [] ∧
    Module.join form (p :: ps) ≠ (path_join p (ps.map .object)).map ([·]) ∧
    call_method path_join form (p :: ps) ≠ path_join p (ps.map .object) ∧
    ∃ s, IsLongest p (p :: ps) s ∧ ∀ fuel > p.length,
      common_prefix fuel p ((p :: ps).map .object) = .ok (some s) ∧
      Module.common_prefix fuel form (p :: ps) = .ok (some []) ∧
      Module.common_prefix fuel form (p :: ps) ≠
        ( common_prefix fuel p ((p :: ps).map .object)).map (Option.map ([·])) ∧
      Module.common_prefix fuel form (p :: ps) ≠
        ( common_prefix fuel p (ps.map .object)).map (Option.map ([·])) := by
  rw [Module.join_eq]
  refine ⟨rfl, nothing_ne _, call_join_ne form p ps, ?_⟩
  obtain ⟨s, longest, loop⟩ := common_loop_returns p p ps
  refine ⟨s, longest, ?_⟩
  intro fuel enough
  have method : common_prefix fuel p ((p :: ps).map .object) = .ok (some s) := by
    rw [common_prefix_objects, loop fuel enough]
  have nothing : Module.common_prefix fuel form (p :: ps) = .ok (some []) := by
    rw [ Module.common_prefix, call_method, common_prefix_list, loop fuel enough]
    rfl
  rw [nothing]
  exact ⟨method, rfl, some_nothing_ne _, some_nothing_ne _⟩

/-- `join("a", "b")`. -/
theorem join_returns_nothing :
    ¬ ∀ form p ps, Module.join form (p :: ps) = (path_join p (ps.map .object)).map ([·]) :=
  fun agree => absurd (agree .variadic ['a'] [['b']]) (by decide)

end CodeClips.Lua
