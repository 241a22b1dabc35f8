import Mathlib.Data.List.Nodup
import Mathlib.Logic.Function.Basic

/-!
# Linked lists in memory

`next` gives the link of each node; `Segment next p l q` says that the links lead from the
pointer `p` through the nodes of `l` to the pointer `q`, and `nodes` are those a walk comes to. A
link changed outside of a segment leaves it (`Segment.congr`), a node is pushed in front of one
(`Segment.push`), and the link before a node, given the link behind it, takes the node out
(`Segment.unlink`).
-/

namespace CodeClips

section LinkedList
variable {N : Type*}

def Segment (next : N → Option N) : Option N → List N → Option N → Prop
  | p, [], q => p = q
  | p, a :: l, q => p = some a ∧ Segment next (next a) l q

/-- The nodes from `p` on, as many as there is fuel. -/
def nodes (next : N → Option N) : Nat → Option N → List N
  | 0, _ | _ + 1, none => []
  | fuel + 1, some a => a :: nodes next fuel (next a)

variable {next next' : N → Option N} {p q : Option N} {l l' : List N} {a : N}

theorem Segment.append (first : Segment next p l q) {r : Option N} (second : Segment next q l' r) :
    Segment next p (l ++ l') r := by
  induction l generalizing p with
  | nil =>
    obtain rfl : p = q := first
    exact second
  | cons a l ih => exact ⟨first.1, ih first.2⟩

theorem Segment.split {r : Option N} (whole : Segment next p (l ++ l') r) :
    ∃ q, Segment next p l q ∧ Segment next q l' r := by
  induction l generalizing p with
  | nil => exact ⟨p, rfl, whole⟩
  | cons a l ih =>
    obtain ⟨q, first, second⟩ := ih whole.2
    exact ⟨q, ⟨whole.1, first⟩, second⟩

theorem Segment.head? (list : Segment next p l none) : p = l.head? := by
  cases l with
  | nil => exact list
  | cons a l => exact list.1

theorem Segment.nodes {fuel : Nat} (list : Segment next p l none) (enough : l.length < fuel) : nodes next fuel p = l := by
  obtain ⟨fuel, rfl⟩ := Nat.exists_eq_add_one_of_ne_zero (Nat.ne_zero_of_lt enough)
  induction l generalizing p fuel with
  | nil =>
    obtain rfl : p = none := list
    rfl
  | cons a l ih =>
    obtain ⟨rfl, rest⟩ := list
    obtain ⟨fuel, rfl⟩ := Nat.exists_eq_add_one_of_ne_zero (Nat.ne_zero_of_lt (Nat.lt_of_succ_lt_succ enough))
    exact congrArg (a :: ·) (ih rest fuel (Nat.lt_of_succ_lt_succ enough))

/-- The links lead to nodes of the list only. -/
theorem Segment.mem (list : Segment next p l none) {front : List N} (leads : Segment next p front (some a)) : a ∈ l := by
  induction front generalizing p l with
  | nil =>
    obtain rfl : p = some a := leads
    cases l with
    | nil => cases list
    | cons b l =>
      obtain rfl := Option.some.inj list.1
      exact List.mem_cons_self
  | cons b front ih =>
    obtain ⟨rfl, leads⟩ := leads
    cases l with
    | nil => cases list
    | cons b' l =>
      obtain ⟨same, list⟩ := list
      obtain rfl := Option.some.inj same
      exact List.mem_cons_of_mem b (ih list leads)

/-- The nodes of the segment keep their links. -/
theorem Segment.congr (segment : Segment next p l q) (same : ∀ a ∈ l, next' a = next a) :
    Segment next' p l q := by
  induction l generalizing p with
  | nil => exact segment
  | cons a l ih =>
    refine ⟨segment.1, ?_⟩
    rw [same a List.mem_cons_self]
    exact ih segment.2 fun b later => same b (List.mem_cons_of_mem a later)

variable [DecidableEq N]

theorem Segment.update (segment : Segment next p l q) (outside : a ∉ l) (r : Option N) :
    Segment (Function.update next a r) p l q := by
  apply segment.congr
  intro b inside
  apply Function.update_of_ne
  rintro rfl
  exact outside inside

/-- The link of a node outside is set to the head. -/
theorem Segment.push (segment : Segment next p l q) (outside : a ∉ l) :
    Segment (Function.update next a p) (some a) (a :: l) q := by
  refine ⟨rfl, ?_⟩
  rw [Function.update_self]
  exact segment.update outside p

/-- The link before a node is set to the link behind it. -/
theorem Segment.unlink {before : N} {front back : List N}
    (segment : Segment next p (front ++ before :: a :: back) q) (nodup : (front ++ before :: a :: back).Nodup) :
    Segment (Function.update next before (next a)) p (front ++ before :: back) q := by
  obtain ⟨r, first, here, -, last⟩ := segment.split
  obtain ⟨-, unique, apart⟩ := List.nodup_append.mp nodup
  have notFirst : before ∉ front := fun inside => apart before inside before List.mem_cons_self rfl
  have notLast : before ∉ back := fun inside => (List.nodup_cons.mp unique).1 (List.mem_cons_of_mem a inside)
  refine (first.update notFirst _).append ⟨here, ?_⟩
  rw [Function.update_self]
  exact last.update notLast _

end LinkedList

end CodeClips
