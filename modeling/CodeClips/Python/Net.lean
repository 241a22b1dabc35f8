import CodeClips.Lib.Decimal
import Mathlib.Data.List.TakeWhile

/-!
# Addresses and ports

`validip` takes what is before the first colon for an address and what is after it for a port;
without a colon, it looks which of the two the whole is. `Denotes` is the grammar of endpoints.
Where both parts are there, the test before the conversion of the port is `not a and p` and not
`not (a and p)`: a port that is an integer out of range passes it (`validip_iff`).
-/

namespace CodeClips.Net

abbrev Str := List Char

/-- What a `ValueError` is about: the argument of `int`, or the text of `validip`. -/
inductive ValueError
  | invalid_literal (s : Str)
  | message (text : Str)
  deriving DecidableEq

/-- The blanks that `strip` takes away. -/
def isspace (c : Char) : Bool := c ∈ [' ', '\t', '\n', '\x0b', '\x0c', '\r']

/-- `s.strip()` -/
def strip (s : Str) : Str := ((s.dropWhile isspace).reverse.dropWhile isspace).reverse

/-- `int(s)`: blanks around the number do not count. -/
def int (s : Str) : Except ValueError Int :=
  match Decimal.integer (strip s) with
  | some n => .ok n
  | none => .error (.invalid_literal s)

/-- `0 <= int(x) <= limit`, and `False` for a `ValueError`. -/
def within (limit : Int) (x : Str) : Bool :=
  match int x with
  | .ok n => 0 ≤ n ∧ n ≤ limit
  | .error _ => false

def validipaddr (address : Str) : Bool :=
  let octets := address.splitOn '.'
  octets.length = 4 ∧ octets.all (within 255)

/-- A number that is a port. -/
def validipport (port : Str) : Bool := within 65535 port

/-- `s.split(sep, 1)` -/
def split1 (s : Str) (sep : Char) : List Str :=
  if sep ∈ s then [s.takeWhile (· ≠ sep), (s.dropWhile (· ≠ sep)).tail] else [s]

/-- The message of `validip`, with the parts joined again. -/
def not_valid (ip : List Str) : ValueError := .message ([':'].intercalate ip ++ " is not a valid IP address/port".toList)

def validip (ip defaultaddr : Str) (defaultport : Int) : Except ValueError (Str × Int) :=
  match split1 ip ':' with
  | [part] =>
    if part = [] then .ok (defaultaddr, defaultport)
    else if validipaddr part then .ok (part, defaultport)
    else if validipport part then do return (defaultaddr, ← int part)
    else .error (not_valid [part])
  | [addr, port] =>
    if ¬ validipaddr addr ∧ validipport port then .error (not_valid [addr, port])
    else do return (addr, ← int port)
  | ip => .error (not_valid ip)

/-! ## What an endpoint is -/

/-- The numbers that a port can have. -/
def ValidPort (port : Int) : Prop := 0 ≤ port ∧ port ≤ 65535

instance : DecidablePred ValidPort := fun _ => inferInstanceAs (Decidable (_ ∧ _))

/-- The endpoint that a string stands for: an address, a port, both with a colon, or nothing. -/
inductive Denotes (defaultaddr : Str) (defaultport : Int) : Str → Str × Int → Prop
  | none : Denotes defaultaddr defaultport [] (defaultaddr, defaultport)
  | address {addr : Str} (valid : validipaddr addr) : Denotes defaultaddr defaultport addr (addr, defaultport)
  | port {port : Str} {n : Int} (number : int port = .ok n) (valid : ValidPort n) :
      Denotes defaultaddr defaultport port (defaultaddr, n)
  | both {addr port : Str} {n : Int} (address : validipaddr addr) (number : int port = .ok n) (valid : ValidPort n) :
      Denotes defaultaddr defaultport (addr ++ ':' :: port) (addr, n)

/-- The code raises an error, or returns a valid endpoint, which is that of the string. -/
def Right (ip defaultaddr : Str) (defaultport : Int) : Prop :=
  (∃ e, validip ip defaultaddr defaultport = .error e) ∨
  ∃ addr port, validip ip defaultaddr defaultport = .ok (addr, port) ∧ validipaddr addr ∧ ValidPort port ∧
    Denotes defaultaddr defaultport ip (addr, port)

/-- An integer after the first colon is a port. -/
def PortInRange (ip : Str) : Prop :=
  ∀ addr port n, ip = addr ++ ':' :: port → ':' ∉ addr → int port = .ok n → ValidPort n

/-! ## Characters of numbers -/

section Numbers
variable {s : Str} {c : Char} {n limit : Int}

/-- What is dropped from the front fulfils the test. -/
theorem mem_dropWhile {p : Char → Bool} (member : c ∈ s) : p c ∨ c ∈ s.dropWhile p := by
  rw [← List.takeWhile_append_dropWhile (p := p) (l := s), List.mem_append] at member
  exact member.imp_left List.mem_takeWhile_imp

/-- Only blanks are lost. -/
theorem mem_strip (member : c ∈ s) : isspace c ∨ c ∈ strip s := by
  rcases mem_dropWhile (p := isspace) member with blank | inside
  · exact .inl blank
  · rw [strip, List.mem_reverse]
    exact mem_dropWhile (List.mem_reverse.mpr inside)

/-- What `int` takes is not empty, and has digits, blanks and a sign only. -/
theorem int_chars (number : int s = .ok n) : s ≠ [] ∧ ∀ c ∈ s, isspace c ∨ c.isDigit ∨ c = '+' ∨ c = '-' := by
  rw [int] at number
  cases read : Decimal.integer (strip s) with
  | none => rw [read] at number; cases number
  | some m =>
    obtain ⟨nonempty, chars⟩ := Decimal.integer_chars read
    refine ⟨?_, fun c member => (mem_strip member).imp_right (chars c)⟩
    rintro rfl
    exact nonempty rfl

/-- A number is written with digits, a sign and blanks around them. -/
theorem not_mem_of_int (number : int s = .ok n) (other : ¬ isspace c ∧ ¬ c.isDigit ∧ c ≠ '+' ∧ c ≠ '-') : c ∉ s := by
  intro member
  rcases (int_chars number).2 c member with blank | digit | plus | minus
  · exact other.1 blank
  · exact other.2.1 digit
  · exact other.2.2.1 plus
  · exact other.2.2.2 minus

/-- The text is a number, and the number is in the range. -/
theorem within_iff : within limit s ↔ ∃ n, int s = .ok n ∧ 0 ≤ n ∧ n ≤ limit := by
  rw [within]
  cases int s with
  | error e => simp
  | ok n => simp

/-- Four fields, and each a number up to 255. -/
theorem validipaddr_iff : validipaddr s ↔ (s.splitOn '.').length = 4 ∧ ∀ x ∈ s.splitOn '.', within 255 x := by
  simp [validipaddr]

/-- A character of the joined text is the separator or is in one of the parts. -/
theorem mem_intercalate {sep : Char} {parts : List Str} (member : c ∈ [sep].intercalate parts) :
    c = sep ∨ ∃ part ∈ parts, c ∈ part := by
  induction parts with
  | nil => cases member
  | cons part parts ih =>
    cases parts with
    | nil =>
      rw [List.intercalate_singleton] at member
      exact .inr ⟨part, List.mem_cons_self, member⟩
    | cons next parts =>
      rw [List.intercalate_cons_cons, List.append_assoc, List.mem_append, List.mem_append, List.mem_singleton] at member
      rcases member with here | rfl | later
      · exact .inr ⟨part, List.mem_cons_self, here⟩
      · exact .inl rfl
      · exact (ih later).imp_right fun ⟨part', inside, mem⟩ => ⟨part', List.mem_cons_of_mem _ inside, mem⟩

theorem colon_not_int : ¬ isspace ':' ∧ ¬ ':'.isDigit ∧ ':' ≠ '+' ∧ ':' ≠ '-' := by decide

theorem dot_not_int : ¬ isspace '.' ∧ ¬ '.'.isDigit ∧ '.' ≠ '+' ∧ '.' ≠ '-' := by decide

/-- An address has no colon. -/
theorem colon_not_mem (valid : validipaddr s) : ':' ∉ s := by
  intro member
  have joined : ['.'].intercalate (s.splitOn '.') = s := List.intercalate_splitOn '.'
  rw [← joined] at member
  rcases mem_intercalate member with dot | ⟨part, inside, here⟩
  · cases dot
  · obtain ⟨n, number, -⟩ := within_iff.mp ((validipaddr_iff.mp valid).2 part inside)
    exact not_mem_of_int number colon_not_int here

/-- An integer is no address: it has no dot. -/
theorem not_validipaddr (number : int s = .ok n) : ¬ validipaddr s := by
  rw [validipaddr_iff, List.splitOn_eq_singleton (not_mem_of_int number dot_not_int)]
  rintro ⟨⟨⟩, -⟩

/-- Of a text that is a number, the test looks at the number. -/
theorem validipport_of_int (number : int s = .ok n) : validipport s ↔ ValidPort n := by
  rw [validipport, within, number, ValidPort, decide_eq_true_iff]

end Numbers

/-! ## One part, or two -/

section Parts
variable {ip addr port defaultaddr : Str} {defaultport n : Int}

/-- Without the separator there is one part. -/
theorem split1_alone {sep : Char} (none : sep ∉ ip) : split1 ip sep = [ip] := if_neg none

/-- The first separator divides the text. -/
theorem split1_both {sep : Char} (first : sep ∉ addr) : split1 (addr ++ sep :: port) sep = [addr, port] := by
  have others : ∀ c ∈ addr, decide (c ≠ sep) := fun c member =>
    decide_eq_true fun same : c = sep => first (same ▸ member)
  have before : (addr ++ sep :: port).takeWhile (· ≠ sep) = addr := by
    rw [List.takeWhile_append_of_pos others, List.takeWhile_cons_of_neg (by simp), List.append_nil]
  have after : (addr ++ sep :: port).dropWhile (· ≠ sep) = sep :: port := by
    rw [List.dropWhile_append_of_pos others, List.dropWhile_cons_of_neg (by simp)]
  rw [split1, if_pos (List.mem_append_right addr List.mem_cons_self), before, after, List.tail_cons]

/-- An address or a port alone; the other value is the default. -/
theorem validip_alone (none : ':' ∉ ip) : validip ip defaultaddr defaultport =
    if ip = [] then .ok (defaultaddr, defaultport) else if validipaddr ip then .ok (ip, defaultport)
    else if validipport ip then (int ip).map (defaultaddr, ·) else .error (not_valid [ip]) := by
  rw [validip, split1_alone none]
  rfl

/-- An address and a port: a port that is an integer out of range is not refused. -/
theorem validip_both (first : ':' ∉ addr) : validip (addr ++ ':' :: port) defaultaddr defaultport =
    if ¬ validipaddr addr ∧ validipport port then .error (not_valid [addr, port]) else (int port).map (addr, ·) := by
  rw [validip, split1_both first]
  rfl

/-- What an endpoint denotes is returned. -/
theorem Denotes.returned {r : Str × Int} (denotes : Denotes defaultaddr defaultport ip r) :
    validip ip defaultaddr defaultport = .ok r := by
  cases denotes with
  | none => rfl
  | address valid =>
    have nonempty : ip ≠ [] := by
      rintro rfl
      exact absurd valid (by decide)
    rw [validip_alone (colon_not_mem valid), if_neg nonempty, if_pos valid]
  | port number valid =>
    rw [validip_alone (not_mem_of_int number colon_not_int), if_neg (int_chars number).1, if_neg (not_validipaddr number),
      if_pos ((validipport_of_int number).mpr valid), number]
    rfl
  | both address number valid =>
    rw [validip_both (colon_not_mem address), if_neg (fun wrong => wrong.1 address), number]
    rfl

/-- Without a colon the answer is right. -/
theorem right_alone (none : ':' ∉ ip) (valid : validipaddr defaultaddr) (valid' : ValidPort defaultport) :
    Right ip defaultaddr defaultport := by
  rw [Right, validip_alone none]
  split_ifs with empty address port
  · subst empty
    exact .inr ⟨_, _, rfl, valid, valid', .none⟩
  · exact .inr ⟨_, _, rfl, address, valid', .address address⟩
  · obtain ⟨n, number, range⟩ := within_iff.mp port
    rw [number]
    exact .inr ⟨_, _, rfl, valid, range, .port number range⟩
  · exact .inl ⟨_, rfl⟩

/-- With both parts, all goes well unless the port is an integer that is out of range. -/
theorem right_both (first : ':' ∉ addr) :
    Right (addr ++ ':' :: port) defaultaddr defaultport ↔ ∀ n, int port = .ok n → ValidPort n := by
  rw [Right, validip_both first]
  cases number : int port with
  | error e =>
    refine iff_of_true (.inl ?_) (fun n same => by cases same)
    split_ifs
    · exact ⟨_, rfl⟩
    · exact ⟨e, rfl⟩
  | ok n =>
    have port_iff := validipport_of_int number
    constructor
    · rintro (⟨e, error⟩ | ⟨addr', port', returned, -, valid, -⟩) m ⟨⟩
      · split_ifs at error with wrong
        · exact port_iff.mp wrong.2
        · cases error
      · split_ifs at returned with wrong
        cases returned
        exact valid
    · intro range
      have valid := range n rfl
      split_ifs with wrong
      · exact .inl ⟨_, rfl⟩
      · have address : validipaddr addr := by
          by_contra bad
          exact wrong ⟨bad, port_iff.mpr valid⟩
        exact .inr ⟨addr, n, rfl, address, valid, .both address number valid⟩

end Parts

/-- **Endpoints**: an error is raised or a valid endpoint returned, that of the string, exactly if
no integer out of range follows the first colon. What is an endpoint is returned as such. -/
theorem validip_iff (ip : Str) :
    (Right ip "0.0.0.0".toList 8080 ↔ PortInRange ip) ∧
    ∀ r, Denotes "0.0.0.0".toList 8080 ip r → validip ip "0.0.0.0".toList 8080 = .ok r := by
  refine ⟨?_, fun r => Denotes.returned⟩
  by_cases colon : ':' ∈ ip
  · obtain ⟨addr, port, rfl, first⟩ := List.eq_append_cons_of_mem colon
    rw [right_both first]
    constructor
    · intro range addr' port' n same first'
      have parts := congrArg (split1 · ':') same
      rw [split1_both first, split1_both first'] at parts
      cases parts
      exact range n
    · exact fun range n => range addr port n rfl first
  · refine iff_of_true (right_alone colon (by decide) (by decide)) ?_
    rintro addr port n rfl
    exact absurd (List.mem_append_right addr List.mem_cons_self) colon

/-- The port is out of range. -/
theorem validip_port_out_of_range : ¬ ∀ ip, Right ip "0.0.0.0".toList 8080 := by
  intro right
  have range := (validip_iff _).1.mp (right "1.2.3.4:70000".toList)
  exact absurd (range "1.2.3.4".toList "70000".toList 70000 rfl (by decide) rfl) (by decide)

end CodeClips.Net
