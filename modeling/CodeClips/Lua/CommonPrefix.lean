import CodeClips.Lua.Path

/-!
# The common prefix of paths

`path:common_prefix` compares ever longer prefixes of its own path with the other paths, until
one of them is too short or differs. `common_round` is one pass over the others, and
`common_loop` the loop over the lengths, to which the source sets no bound: the fuel says how
often it may go round. It stops before it has passed the end of the first of the paths.
-/

namespace CodeClips.Lua

/-- What `common_prefix` is called with: a path object, or a table of path objects. -/
inductive Arg
  | object (_path : Str)
  | list (paths : List Str)
  deriving DecidableEq

/-- Only the path objects have a metatable. -/
def Arg.getmetatable : Arg → Bool
  | object _ => true
  | list _ => false

/-- `#t`. A path object has its fields by name, and no entries. -/
def Arg.size : Arg → Nat
  | object _ => 0
  | list paths => paths.length

def Arg.get_paths : Arg → List Str
  | object _path => [_path]
  | list paths => paths

/-- One pass over the paths, with what it returns if it does. -/
def common_round (len : Nat) (str : Str) : List Str → Option Str
  | [] => none
  | p :: ps =>
    if p.length < len then some (str.take (len - 1))
    else if p.take len ≠ str then some (if str = [] then str else str.take (len - 1))
    else common_round len str ps

def common_loop (self : Str) (ps : List Str) : Nat → Nat → Option Str
  | 0, _ => none
  | fuel + 1, len =>
    match common_round (len + 1) (self.take (len + 1)) ps with
    | some str => some str
    | none => common_loop self ps fuel (len + 1)

/-- `none` is a loop that is still running. -/
def common_prefix (fuel : Nat) (self : Str) (args : List Arg) : Except String (Option Str) :=
  match args.head? with
  | none => .error "attempt to get length of local 't' (a nil value)"
  | some t =>
    if ¬ t.getmetatable ∧ t.size = 0 then .error "path of path:common_prefix illegal"
    else if t.getmetatable ∧ ¬ args.all Arg.getmetatable then .error "path of path:common_prefix illegal"
    else .ok (common_loop self (if 0 < t.size then t.get_paths else args.flatMap Arg.get_paths) fuel 0)

/-- A prefix of the own path and of all others. -/
structure IsCommonPrefix (path : Str) (ps : List Str) (s : Str) : Prop where
  own : s <+: path
  others : ∀ p ∈ ps, s <+: p

/-- The common prefix that all common prefixes are a prefix of. -/
structure IsLongest (path : Str) (ps : List Str) (s : Str) : Prop extends IsCommonPrefix path ps s where
  longest : ∀ s', IsCommonPrefix path ps s' → s' <+: s

/-- The paths are at least `len` long, and begin like the own path for so long. -/
def Agree (self : Str) (ps : List Str) (len : Nat) : Prop := ∀ p ∈ ps, len ≤ p.length ∧ p.take len = self.take len

section Rounds
variable {self : Str} {ps : List Str} {len : Nat}

theorem IsLongest.unique {s s' : Str} (longest : IsLongest self ps s) (longest' : IsLongest self ps s') : s = s' :=
  (longest'.longest s longest.toIsCommonPrefix).eq_of_length_le
    (longest.longest s' longest'.toIsCommonPrefix).length_le

/-- A common prefix that is longer than `len` makes the paths agree farther. -/
theorem IsCommonPrefix.agree {s : Str} (shared : IsCommonPrefix self ps s) (long : len ≤ s.length) :
    Agree self ps len := by
  intro p member
  obtain ⟨after, rfl⟩ := shared.own
  obtain ⟨after', rfl⟩ := shared.others p member
  refine ⟨?_, ?_⟩
  · rw [List.length_append]
    omega
  · rw [List.take_append_of_le_length long, List.take_append_of_le_length long]

theorem Agree.isCommonPrefix (agree : Agree self ps len) : IsCommonPrefix self ps (self.take len) := by
  refine ⟨List.take_prefix len self, ?_⟩
  intro p member
  rw [← (agree p member).2]
  exact List.take_prefix len p

/-- Where the paths agree for `len` and no longer, the longest common prefix ends. -/
theorem Agree.isLongest (agree : Agree self ps len) (ends : ¬ Agree self ps (len + 1)) :
    IsLongest self ps (self.take len) := by
  refine ⟨agree.isCommonPrefix, ?_⟩
  intro s shared
  have short : s.length ≤ len := Nat.le_of_not_lt fun long => ends (shared.agree long)
  exact List.prefix_of_prefix_length_le shared.own (List.take_prefix len self) (by
    rw [List.length_take]
    exact Nat.le_min.mpr ⟨short, shared.own.length_le⟩)

/-- **One round**: it goes on if all paths agree one character farther, and otherwise returns
what the round before had found. -/
theorem common_round_eq (self : Str) (ps : List Str) (len : Nat) :
    Agree self ps (len + 1) ∧ common_round (len + 1) (self.take (len + 1)) ps = none ∨
      ¬ Agree self ps (len + 1) ∧ common_round (len + 1) (self.take (len + 1)) ps = some (self.take len) := by
  have back : (self.take (len + 1)).take (len + 1 - 1) = self.take len := by
    rw [List.take_take, Nat.add_sub_cancel, Nat.min_eq_left (Nat.le_succ len)]
  induction ps with
  | nil => exact .inl ⟨List.forall_mem_nil _, rfl⟩
  | cons p ps ih =>
    have both : Agree self (p :: ps) (len + 1) ↔
        (len + 1 ≤ p.length ∧ p.take (len + 1) = self.take (len + 1)) ∧ Agree self ps (len + 1) := List.forall_mem_cons
    rw [both, common_round, back]
    by_cases short : p.length < len + 1
    · rw [if_pos short]
      exact .inr ⟨fun agree => Nat.not_le_of_lt short agree.1.1, rfl⟩
    · rw [if_neg short]
      by_cases differs : p.take (len + 1) = self.take (len + 1)
      · rw [if_neg (not_not_intro differs), and_iff_right (And.intro (Nat.le_of_not_lt short) differs)]
        exact ih
      · rw [if_pos differs]
        refine .inr ⟨fun agree => differs agree.1.2, ?_⟩
        split_ifs with empty
        · -- An own path of no characters has no longer prefix, nor a shorter one.
          rw [List.take_eq_nil_iff] at empty
          rw [empty.resolve_left (Nat.succ_ne_zero len), List.take_nil, List.take_nil]
        · rfl

/-- **The loop** returns the longest common prefix before it has passed the end of one path. -/
theorem common_loop_isLongest {p : Str} (member : p ∈ ps) (fuel : Nat) (agree : Agree self ps len)
    (enough : p.length < len + fuel) : ∃ s, IsLongest self ps s ∧ common_loop self ps fuel len = some s := by
  induction fuel generalizing len with
  | zero => exact absurd (agree p member).1 (Nat.not_le_of_lt enough)
  | succ fuel ih =>
    rw [common_loop]
    rcases common_round_eq self ps len with ⟨farther, round⟩ | ⟨ends, round⟩
    · rw [round]
      exact ih farther (by omega)
    · rw [round]
      exact ⟨self.take len, agree.isLongest ends, rfl⟩

/-- With more fuel it returns the same. -/
theorem common_loop_returns (self p : Str) (ps : List Str) :
    ∃ s, IsLongest self (p :: ps) s ∧ ∀ fuel > p.length, common_loop self (p :: ps) fuel 0 = some s := by
  have start : Agree self (p :: ps) 0 := fun _ _ => ⟨Nat.zero_le _, rfl⟩
  have returns (fuel : Nat) (enough : fuel > p.length) :=
    common_loop_isLongest List.mem_cons_self fuel start (by rwa [Nat.zero_add])
  obtain ⟨s, longest, -⟩ := returns (p.length + 1) (Nat.lt_succ_self _)
  refine ⟨s, longest, ?_⟩
  intro fuel enough
  obtain ⟨s', longest', loop⟩ := returns fuel enough
  rw [loop, longest'.unique longest]

end Rounds

theorem common_prefix_objects (fuel : Nat) (self p : Str) (ps : List Str) :
    common_prefix fuel self ((p :: ps).map .object) = .ok (common_loop self (p :: ps) fuel 0) := by
  have objects : ((p :: ps).map Arg.object).all Arg.getmetatable = true := by simp [Arg.getmetatable]
  have paths : ((p :: ps).map Arg.object).flatMap Arg.get_paths = p :: ps := by simp [List.flatMap_map, Arg.get_paths]
  rw [ common_prefix, objects, paths]
  rfl

theorem common_prefix_list (fuel : Nat) (self p : Str) (ps : List Str) :
    common_prefix fuel self [.list (p :: ps)] = .ok (common_loop self (p :: ps) fuel 0) := by
  simp [ common_prefix, Arg.getmetatable, Arg.size, Arg.get_paths]

/-- **The common prefix**: with the paths as arguments or in a table, `common_prefix` returns,
after at most as many rounds as the first of them has characters and one more, and what it
returns is the longest common prefix. -/
theorem common_prefix_isLongest (self p : Str) (ps : List Str) :
    ∃ s, IsLongest self (p :: ps) s ∧ ∀ fuel > p.length,
      common_prefix fuel self ((p :: ps).map .object) = .ok (some s) ∧
        common_prefix fuel self [.list (p :: ps)] = .ok (some s) := by
  obtain ⟨s, longest, loop⟩ := common_loop_returns self p ps
  refine ⟨s, longest, ?_⟩
  intro fuel enough
  rw [common_prefix_objects, common_prefix_list, loop fuel enough]
  exact ⟨rfl, rfl⟩

/-- A path that is a prefix of the own path, and the empty path. -/
example : common_prefix 4 ['a', '/', 'b'] [.object ['a', '/'], .object ['a', '/', 'c']] = .ok (some ['a', '/']) ∧
    common_prefix 2 ['a'] [.list [[], ['a']]] = .ok (some []) := by decide

end CodeClips.Lua
