import CodeClips.CherryPy.Request

/-!
# The path of a request

A request line gives the path with its escapes decoded, segment by segment: what a client has put into a
segment comes out of it, and a slash in it remains `%2F`, so that it is no separator. It does so exactly
where the path as written has no `://`: with one, the path is taken for a URI with a scheme.
-/

namespace CodeClips.CherryPy
variable {s t path piece : Bytes} {b h l : UInt8} {x y : Nat}

/-- A segment `s` as a client may write it: a byte for itself, or by its escape. -/
inductive Quoted : Bytes → Bytes → Prop
  | nil : Quoted [] []
  | plain {b : UInt8} {s t : Bytes} (percent : b ≠ 37) (slash : b ≠ 47) (rest : Quoted s t) : Quoted (b :: s) (b :: t)
  | escape {h l : UInt8} {x y : Nat} {s t : Bytes} (high : hexValue h = some x) (low : hexValue l = some y) (rest : Quoted s t) :
    Quoted (UInt8.ofNat (16 * x + y) :: s) (37 :: h :: l :: t)

/-- A segment as it stands in the path. -/
def shown (s : Bytes) : Bytes := s.flatMap fun b => if b = 47 then ascii "%2F" else [b]

theorem shown_cons (b : UInt8) (s : Bytes) : shown (b :: s) = (if b = 47 then ascii "%2F" else [b]) ++ shown s := rfl

section Split

theorem splitQuotedSlash_ne (s : Bytes) : splitQuotedSlash s ≠ [] := by
  unfold splitQuotedSlash
  split
  · simp
  · simp
  · simp
  · split
    · simp
    · unfold inFront
      split <;> simp

/-- No escaped slash begins here. -/
theorem splitQuotedSlash_cons (other : ∀ d u, b :: s ≠ 37 :: 50 :: d :: u ∨ (d ≠ 70 ∧ d ≠ 102)) :
    splitQuotedSlash (b :: s) = inFront b (splitQuotedSlash s) := by
  match s with
  | [] => rfl
  | [c] => rfl
  | c :: d :: u =>
    rw [splitQuotedSlash, if_neg]
    rintro ⟨rfl, rfl, last⟩
    rcases other d u with differs | ⟨upper, lower⟩
    · exact differs rfl
    · exact last.elim upper lower

theorem unquote_plain (percent : b ≠ 37) (s : Bytes) : unquote (b :: s) = b :: unquote s := by
  match s with
  | [] => rfl
  | [c] => rfl
  | c :: d :: u =>
    rw [unquote]
    exact percent

theorem unquote_escape (high : hexValue h = some x) (low : hexValue l = some y) (s : Bytes) :
    unquote (37 :: h :: l :: s) = UInt8.ofNat (16 * x + y) :: unquote s := by
  simp only [unquote, high, low]

/-- The first piece has `piece` in front. -/
theorem intercalate_front (sep piece : Bytes) {pieces : List Bytes} (some_ : pieces ≠ []) (f : Bytes → Bytes)
    (front : ∀ u, f (s ++ u) = piece ++ f u) :
    sep.intercalate ((s.foldr inFront pieces).map f) = piece ++ sep.intercalate (pieces.map f) := by
  obtain ⟨first, rest, rfl⟩ := List.exists_cons_of_ne_nil some_
  have whole : ∀ s : Bytes, s.foldr inFront (first :: rest) = (s ++ first) :: rest := by
    intro s
    induction s with
    | nil => rfl
    | cons b s ih => rw [List.foldr_cons, ih, inFront, List.cons_append]
  rw [whole, List.map_cons, List.map_cons, front]
  cases rest with
  | nil => simp
  | cons second rest => simp only [List.map_cons, List.intercalate_cons_cons, List.append_assoc]

theorem decodePath_plain (percent : b ≠ 37) (s : Bytes) : decodePath (b :: s) = b :: decodePath s := by
  have split : splitQuotedSlash (b :: s) = [b].foldr inFront (splitQuotedSlash s) := splitQuotedSlash_cons fun d u => .inl (by simp [percent])
  rw [decodePath, split]
  exact intercalate_front _ [b] (splitQuotedSlash_ne s) unquote fun u => unquote_plain percent u

/-- The digit and its value. -/
theorem hexValue_cases (value : hexValue h = some x) :
    (48 ≤ h.toNat ∧ h.toNat ≤ 57 ∧ x = h.toNat - 48) ∨ (97 ≤ h.toNat ∧ h.toNat ≤ 102 ∧ x = h.toNat - 87) ∨
      (65 ≤ h.toNat ∧ h.toNat ≤ 70 ∧ x = h.toNat - 55) := by
  unfold hexValue at value
  split at value
  · rename_i range
    exact .inl ⟨UInt8.le_iff_toNat_le.mp range.1, UInt8.le_iff_toNat_le.mp range.2, (Option.some.inj value).symm⟩
  split at value
  · rename_i range
    exact .inr (.inl ⟨UInt8.le_iff_toNat_le.mp range.1, UInt8.le_iff_toNat_le.mp range.2, (Option.some.inj value).symm⟩)
  split at value
  · rename_i range
    exact .inr (.inr ⟨UInt8.le_iff_toNat_le.mp range.1, UInt8.le_iff_toNat_le.mp range.2, (Option.some.inj value).symm⟩)
  · cases value

/-- A slash has one escape, with the last digit in either case. -/
theorem escape_slash (high : hexValue h = some x) (low : hexValue l = some y) :
    UInt8.ofNat (16 * x + y) = 47 ↔ h = 50 ∧ (l = 70 ∨ l = 102) := by
  have small : 16 * x + y < 256 := by
    rcases hexValue_cases high with range | range | range <;> rcases hexValue_cases low with range' | range' | range' <;> omega
  have number : UInt8.ofNat (16 * x + y) = 47 ↔ 16 * x + y = 47 := by
    rw [← UInt8.toNat_inj, UInt8.toNat_ofNat_of_lt' small]
    rfl
  rw [number, ← UInt8.toNat_inj, ← UInt8.toNat_inj, ← UInt8.toNat_inj]
  show 16 * x + y = 47 ↔ h.toNat = 50 ∧ (l.toNat = 70 ∨ l.toNat = 102)
  rcases hexValue_cases high with range | range | range <;> rcases hexValue_cases low with range' | range' | range' <;> omega

theorem hexValue_ne_percent (value : hexValue h = some x) : h ≠ 37 := by
  rintro rfl
  cases value

theorem decodePath_slash (last : l = 70 ∨ l = 102) (s : Bytes) : decodePath (37 :: 50 :: l :: s) = ascii "%2F" ++ decodePath s := by
  obtain ⟨first, rest, pieces⟩ := List.exists_cons_of_ne_nil (splitQuotedSlash_ne s)
  rw [decodePath, splitQuotedSlash, if_pos ⟨rfl, rfl, last⟩, decodePath, pieces, List.map_cons, List.map_cons,
    List.intercalate_cons_cons]
  rfl

theorem decodePath_escape (high : hexValue h = some x) (low : hexValue l = some y)
    (other : ¬ (h = 50 ∧ (l = 70 ∨ l = 102))) (s : Bytes) :
    decodePath (37 :: h :: l :: s) = UInt8.ofNat (16 * x + y) :: decodePath s := by
  have first : splitQuotedSlash (37 :: h :: l :: s) = inFront 37 (splitQuotedSlash (h :: l :: s)) := by
    rw [splitQuotedSlash, if_neg fun slash => other slash.2]
  have second : splitQuotedSlash (h :: l :: s) = inFront h (splitQuotedSlash (l :: s)) :=
    splitQuotedSlash_cons fun d u => .inl (by simp [hexValue_ne_percent high])
  have third : splitQuotedSlash (l :: s) = inFront l (splitQuotedSlash s) :=
    splitQuotedSlash_cons fun d u => .inl (by simp [hexValue_ne_percent low])
  have split : splitQuotedSlash (37 :: h :: l :: s) = [37, h, l].foldr inFront (splitQuotedSlash s) := by
    rw [first, second, third]
    rfl
  rw [decodePath, split]
  exact intercalate_front _ [_] (splitQuotedSlash_ne s) unquote fun u => unquote_escape high low u

end Split

theorem decodePath_quoted (quoted : Quoted s t) (u : Bytes) : decodePath (t ++ u) = shown s ++ decodePath u := by
  induction quoted with
  | nil => rfl
  | plain percent slash rest ih =>
    rw [List.cons_append, decodePath_plain percent, ih, shown_cons, if_neg slash, List.singleton_append, List.cons_append]
  | @escape h l x y s t high low rest ih =>
    rw [List.cons_append, List.cons_append, List.cons_append, shown_cons]
    by_cases slash : h = 50 ∧ (l = 70 ∨ l = 102)
    · obtain ⟨rfl, last⟩ := slash
      rw [decodePath_slash last, ih, if_pos ((escape_slash high low).mpr ⟨rfl, last⟩), List.append_assoc]
    · rw [decodePath_escape high low slash, ih, if_neg fun same => slash ((escape_slash high low).mp same)]
      rfl

/-- The segments of a path, with the slashes between them. -/
def pathOf (segments : List Bytes) : Bytes := segments.flatMap fun s => 47 :: s

/-- A path decodes to its segments: an escaped slash remains escaped, and is no separator. -/
theorem decodePath_segments {segments written : List Bytes} (quoted : List.Forall₂ Quoted segments written) :
    decodePath (pathOf written) = pathOf (segments.map shown) := by
  induction quoted with
  | nil => rfl
  | @cons s t segments written first rest ih =>
    have step : pathOf (t :: written) = 47 :: (t ++ pathOf written) := rfl
    rw [step, decodePath_plain (by decide), decodePath_quoted first, ih]
    rfl

/-- A request line as a client writes it, with a path and a query. -/
structure RequestLine where
  method : Bytes
  path : List Bytes
  query : Option Bytes
  major : UInt8
  minor : UInt8

namespace RequestLine

def target (r : RequestLine) : Bytes := pathOf r.path ++ (r.query.map fun q => 63 :: q).getD []

def protocol (r : RequestLine) : Bytes := ascii "HTTP/" ++ [r.major, 46, r.minor]

def render (r : RequestLine) : Bytes := r.method ++ 32 :: (r.target ++ 32 :: r.protocol)

/-- The words of the line are words: no blank in them, no fragment and one query. -/
structure WellFormed (r : RequestLine) : Prop where
  method : 32 ∉ r.method
  starts : ∀ b ∈ r.method.head?, isSpace b = false
  some_ : r.method ≠ []
  path : r.path ≠ []
  space : 32 ∉ r.target
  fragment : 35 ∉ r.target
  question : 63 ∉ pathOf r.path

/-- What the line has set, if it is read as it was written. -/
structure ReadBack (r : RequestLine) (segments : List Bytes) (version : Nat × Nat) (ex ex' : Exchange) : Prop where
  wfile : ex'.wfile = ex.wfile
  scheme : ex'.req.scheme = ex.req.scheme
  method : ex'.req.method = some r.method
  uri : ex'.req.uri = some r.target
  path : ex'.req.path = some (pathOf (segments.map shown))
  qs : ex'.req.qs = some (r.query.getD [])
  request_protocol : ex'.req.request_protocol = some r.protocol
  response_protocol : ex'.req.response_protocol = ascii "HTTP/" ++ decimal version.1 ++ ascii "." ++ decimal version.2

end RequestLine

section Find

theorem find_spec {pattern : Bytes} {i : Nat} (found : find pattern s = some i) : ∃ rest, s = s.take i ++ (pattern ++ rest) := by
  induction s generalizing i with
  | nil =>
    rw [find] at found
    split at found
    · next empty => exact ⟨[], by simp [empty]⟩
    · cases found
  | cons b s ih =>
    rw [find] at found
    split at found
    · next here =>
      cases found
      obtain ⟨rest, split⟩ := here
      exact ⟨rest, split.symm⟩
    · obtain ⟨j, later, rfl⟩ := Option.map_eq_some_iff.mp found
      obtain ⟨rest, split⟩ := ih later
      exact ⟨rest, by rw [List.take_succ_cons, List.cons_append, ← split]⟩

/-- What is there is found, no later than there. -/
theorem find_le (pattern before rest : Bytes) : ∃ i ≤ before.length, find pattern (before ++ (pattern ++ rest)) = some i := by
  induction before with
  | nil =>
    refine ⟨0, le_rfl, ?_⟩
    rw [List.nil_append]
    cases whole : pattern ++ rest with
    | nil => rw [find, if_pos (List.append_eq_nil_iff.mp whole).1]
    | cons b s => rw [find, if_pos ⟨rest, whole⟩]
  | cons b before ih =>
    obtain ⟨i, within, found⟩ := ih
    rw [List.cons_append, find]
    split
    · exact ⟨0, Nat.zero_le _, rfl⟩
    · exact ⟨i + 1, Nat.succ_le_succ within, by rw [found, Option.map_some]⟩

/-- What has no `c` ends in front of it. -/
theorem prefix_of_not_mem {c : UInt8} (front : piece <+: s ++ c :: t) (none : c ∉ piece) : piece <+: s := by
  rcases List.prefix_or_prefix_of_prefix front (List.prefix_append s (c :: t)) with inside | ⟨v, rfl⟩
  · exact inside
  · cases v with
    | nil => rw [List.append_nil]
    | cons d v =>
      obtain ⟨rfl, -⟩ := List.cons_prefix_cons.mp ((List.prefix_append_right_inj s).mp front)
      exact absurd (by simp) none

/-- The test of `parse_request_uri` for an absolute URI, of a path and what stands behind it. -/
theorem absolute_iff (slash : path.head? = some 47) (question : 63 ∉ path) (behind : t = [] ∨ t.head? = some 63) :
    (0 < (find (ascii "://") (path ++ t)).getD 0 ∧
      63 ∉ (path ++ t).take ((find (ascii "://") (path ++ t)).getD 0)) ↔ ascii "://" <:+: path := by
  constructor
  · rintro ⟨later, unquestioned⟩
    cases found : find (ascii "://") (path ++ t) with
    | none => simp [found] at later
    | some i =>
      rw [found, Option.getD_some] at unquestioned
      obtain ⟨rest, split⟩ := find_spec found
      have front : (path ++ t).take i ++ ascii "://" <+: path ++ t := ⟨rest, by rw [List.append_assoc, ← split]⟩
      have none : 63 ∉ (path ++ t).take i ++ ascii "://" := by
        rw [List.mem_append, not_or]
        exact ⟨unquestioned, by decide⟩
      have inside : (path ++ t).take i ++ ascii "://" <+: path := by
        rcases behind with rfl | head
        · rwa [List.append_nil] at front ⊢
        · obtain ⟨q, rfl⟩ : ∃ q, t = 63 :: q := List.head?_eq_some_iff.mp head
          exact prefix_of_not_mem front none
      exact (List.suffix_append _ _).isInfix.trans inside.isInfix
  · rintro ⟨a, b, rfl⟩
    obtain ⟨i, within, found⟩ := find_le (ascii "://") a (b ++ t)
    have whole : a ++ ascii "://" ++ b ++ t = a ++ (ascii "://" ++ (b ++ t)) := by simp only [List.append_assoc]
    rw [whole, found, Option.getD_some]
    constructor
    · refine Nat.pos_of_ne_zero ?_
      rintro rfl
      obtain ⟨rest, split⟩ := find_spec found
      rw [← whole, List.take_zero, List.nil_append] at split
      have head := congrArg List.head? split
      rw [List.head?_append, slash, Option.some_or] at head
      cases head
    · rw [List.take_append_of_le_length within]
      intro mem
      exact question (List.mem_append_left _ (List.mem_append_left _ (List.mem_of_mem_take mem)))

end Find

section Line
variable {r : RequestLine} {srv : Server} {ex : Exchange} {major minor : Nat} {sp : Nat × Nat} {segments : List Bytes}

theorem splitOnce_found {sep : UInt8} (before : sep ∉ s) (t : Bytes) : splitOnce sep (s ++ sep :: t) = some (s, t) := by
  have found : (s ++ sep :: t).idxOf? sep = some s.length := by
    rw [List.idxOf?_eq_some_iff]
    refine ⟨by simp, by simp, fun j inside => ?_⟩
    rw [List.getElem_append_left inside]
    intro same
    exact before (same ▸ List.getElem_mem inside)
  rw [splitOnce, found, Option.map_some, List.take_left, ← List.singleton_append, ← List.append_assoc, List.drop_left' (by simp)]

theorem splitOnce_none {sep : UInt8} (nowhere : sep ∉ s) : splitOnce sep s = none := by
  rw [splitOnce, List.idxOf?_eq_none_iff.mpr nowhere, Option.map_none]

/-- A text that neither begins nor ends with white space. -/
theorem strip_self {a b : UInt8} (first : isSpace a = false) (last : isSpace b = false) (s : Bytes) :
    strip (a :: s ++ [b]) = a :: s ++ [b] := by
  have front : (a :: s ++ [b]).dropWhile isSpace = a :: s ++ [b] := by
    rw [List.cons_append, List.dropWhile_cons_of_neg (by simp [first])]
  rw [strip, front, List.reverse_append, List.reverse_singleton, List.singleton_append,
    List.dropWhile_cons_of_neg (by simp [last]), List.reverse_cons, List.reverse_reverse]

theorem digitValue_not_space (digit : digitValue b = some x) : isSpace b = false := by
  unfold digitValue at digit
  split at digit
  · rename_i range
    have low : 48 ≤ b.toNat := UInt8.le_iff_toNat_le.mp range.1
    simp only [isSpace, Bool.or_eq_false_iff, decide_eq_false_iff_not, Bool.and_eq_false_iff, UInt8.le_iff_toNat_le, ← UInt8.toNat_inj]
    exact ⟨by show b.toNat ≠ 32; omega, .inr (by show ¬ b.toNat ≤ 13; omega)⟩
  · cases digit

theorem requestWords_render (formed : r.WellFormed) (digit : digitValue r.major = some major) (digit' : digitValue r.minor = some minor) :
    requestWords (r.render ++ CRLF) = some (r.method, r.target, r.protocol, (major, minor)) := by
  obtain ⟨a, rest, front⟩ := List.exists_cons_of_ne_nil formed.some_
  have first : isSpace a = false := formed.starts a (by rw [front]; rfl)
  have whole : r.render = a :: (rest ++ 32 :: (r.target ++ 32 :: (ascii "HTTP/" ++ [r.major, 46]))) ++ [r.minor] := by
    simp [RequestLine.render, RequestLine.protocol, front]
  have stripped : strip (r.render ++ CRLF) = r.render := by
    rw [strip_CRLF, whole]
    exact strip_self first (digitValue_not_space digit') _
  have version : protocolVersion r.protocol = .ok (major, minor) := by
    have sixth : r.protocol[5]? = some r.major := rfl
    have eighth : r.protocol[7]? = some r.minor := rfl
    simp only [protocolVersion, sixth, eighth, digit, digit']
  rw [requestWords, stripped, RequestLine.render, splitOnce_found formed.method]
  simp only [splitOnce_found formed.space, version]

theorem target_absolute_iff (formed : r.WellFormed) :
    (0 < (find (ascii "://") r.target).getD 0 ∧ 63 ∉ r.target.take ((find (ascii "://") r.target).getD 0)) ↔
      ascii "://" <:+: pathOf r.path := by
  obtain ⟨t, written, front⟩ := List.exists_cons_of_ne_nil formed.path
  refine absolute_iff (by rw [front]; rfl) formed.question ?_
  cases r.query with
  | none => exact .inl rfl
  | some q => exact .inr rfl

theorem target_slash (formed : r.WellFormed) : ∃ rest, r.target = 47 :: rest := by
  obtain ⟨t, written, front⟩ := List.exists_cons_of_ne_nil formed.path
  exact ⟨_, by rw [RequestLine.target, front]; rfl⟩

theorem parseRequestUri_target (formed : r.WellFormed) (plain : ¬ ascii "://" <:+: pathOf r.path) :
    parseRequestUri r.target = .ok (none, none, some r.target) := by
  obtain ⟨rest, slash⟩ := target_slash formed
  have notStar : r.target ≠ ascii "*" := by
    rw [slash]
    intro same
    exact absurd (List.cons.inj same).1 (by decide)
  have abs_path : r.target.head? = some 47 := by rw [slash]; rfl
  rw [parseRequestUri, if_neg notStar]
  dsimp only
  rw [if_neg (mt (target_absolute_iff formed).mp plain), if_pos abs_path]

/-- The path is taken for a scheme and an authority. -/
theorem parseRequestUri_absolute (formed : r.WellFormed) (absolute : ascii "://" <:+: pathOf r.path) :
    parseRequestUri r.target = .error (.valueError "need more than 1 value to unpack" none) ∨
      ∃ scheme authority path, parseRequestUri r.target = .ok (some (47 :: scheme), some authority, some path) ∧
        path <:+ r.target := by
  obtain ⟨rest, slash⟩ := target_slash formed
  have notStar : r.target ≠ ascii "*" := by
    rw [slash]
    intro same
    exact absurd (List.cons.inj same).1 (by decide)
  have taken := (target_absolute_iff formed).mpr absolute
  rw [parseRequestUri, if_neg notStar]
  dsimp only
  rw [if_pos taken]
  split
  · exact .inl rfl
  · next authority path found =>
    refine .inr ⟨lower (rest.take ((find (ascii "://") r.target).getD 0 - 1)), authority, path, ?_, ?_⟩
    · obtain ⟨i, before⟩ := Nat.exists_eq_add_one.mpr taken.1
      rw [before, slash]
      rfl
    · obtain ⟨k, -, same⟩ := Option.map_eq_some_iff.mp found
      cases same
      exact (List.drop_suffix _ _).trans (List.drop_suffix _ _)

/-- The exchange behind the line, where the URI gives `scheme` and `path`. -/
def RequestLine.sets (r : RequestLine) (scheme : Option Bytes) (path : Bytes) (version : Nat × Nat) (ex : Exchange) : Exchange :=
  { ex with req := { ex.req with
    uri := some r.target
    method := some r.method
    scheme := scheme.getD ex.req.scheme
    path := some (decodePath ((splitOnce 63 path).getD (path, [])).1)
    qs := some ((splitOnce 63 path).getD (path, [])).2
    request_protocol := some r.protocol
    response_protocol := ascii "HTTP/" ++ decimal version.1 ++ ascii "." ++ decimal version.2 } }

theorem minVersion_same (same : sp.1 = major) : minVersion (major, minor) sp = (major, min minor sp.2) := by
  rw [minVersion, same]
  rcases Nat.le_total minor sp.2 with less | more
  · rw [if_pos (.inr ⟨rfl, less⟩), Nat.min_eq_left less]
  · by_cases equal : minor ≤ sp.2
    · rw [if_pos (.inr ⟨rfl, equal⟩), Nat.min_eq_left equal]
    · rw [if_neg (by omega), Nat.min_eq_right more, ← same]

theorem parseRequestLine_found (formed : r.WellFormed) (digit : digitValue r.major = some major)
    (digit' : digitValue r.minor = some minor) (speaks : protocolVersion srv.protocol = .ok sp) (same : sp.1 = major)
    {scheme authority : Option Bytes} (found : parseRequestUri r.target = .ok (scheme, authority, some path))
    (fragment : 35 ∉ path) (ex : Exchange) :
    parseRequestLine srv (r.render ++ CRLF) ex = .ok () (r.sets scheme path (major, min minor sp.2) ex) := by
  unfold parseRequestLine
  rw [if_neg (not_not.mpr (List.suffix_append r.render CRLF)), requestWords_render formed digit digit']
  dsimp only
  rw [setReq_bind, found, raiseOr_bind]
  dsimp only
  unfold readTarget
  rw [if_neg fragment]
  dsimp only
  rw [setReq_bind, speaks, raiseOr_bind, if_neg (by simp [same]), minVersion_same same]
  rfl

theorem parseRequestLine_raises (formed : r.WellFormed) (digit : digitValue r.major = some major)
    (digit' : digitValue r.minor = some minor) {e : Raised} (raises : parseRequestUri r.target = .error e) (srv : Server)
    (ex : Exchange) : ∃ ex', parseRequestLine srv (r.render ++ CRLF) ex = .error e ex' := by
  unfold parseRequestLine
  rw [if_neg (not_not.mpr (List.suffix_append r.render CRLF)), requestWords_render formed digit digit']
  dsimp only
  rw [setReq_bind, raises]
  exact ⟨_, rfl⟩

theorem read_back (formed : r.WellFormed) (digit : digitValue r.major = some major) (digit' : digitValue r.minor = some minor)
    (speaks : protocolVersion srv.protocol = .ok sp) (same : sp.1 = major) (quoted : List.Forall₂ Quoted segments r.path)
    (plain : ¬ ascii "://" <:+: pathOf r.path) (ex : Exchange) :
    ∃ ex', parseRequestLine srv (r.render ++ CRLF) ex = .ok () ex' ∧ r.ReadBack segments (major, min minor sp.2) ex ex' := by
  have split : (splitOnce 63 r.target).getD (r.target, []) = (pathOf r.path, r.query.getD []) := by
    rw [RequestLine.target]
    cases r.query with
    | none =>
      simp only [Option.map_none, Option.getD_none, List.append_nil, splitOnce_none formed.question]
    | some q => simp only [Option.map_some, Option.getD_some, splitOnce_found formed.question]
  refine ⟨_, parseRequestLine_found formed digit digit' speaks same (parseRequestUri_target formed plain) formed.fragment ex, ?_⟩
  rw [RequestLine.sets, split]
  exact ⟨rfl, rfl, rfl, rfl, congrArg some (decodePath_segments quoted), rfl, rfl, rfl⟩

/-- With `://` in its path the line gives a scheme that begins with a slash, or nothing. -/
theorem read_absolute (formed : r.WellFormed) (digit : digitValue r.major = some major)
    (digit' : digitValue r.minor = some minor) (speaks : protocolVersion srv.protocol = .ok sp) (same : sp.1 = major)
    (absolute : ascii "://" <:+: pathOf r.path) (ex : Exchange) :
    (∃ ex' scheme, parseRequestLine srv (r.render ++ CRLF) ex = .ok () ex' ∧ ex'.req.scheme = 47 :: scheme) ∨
      ∃ ex', parseRequestLine srv (r.render ++ CRLF) ex = .error (.valueError "need more than 1 value to unpack" none) ex' := by
  rcases parseRequestUri_absolute formed absolute with raises | ⟨scheme, authority, path, found, behind⟩
  · exact .inr (parseRequestLine_raises formed digit digit' raises srv ex)
  · have fragment : 35 ∉ path := fun mem => formed.fragment (behind.subset mem)
    exact .inl ⟨_, scheme, parseRequestLine_found formed digit digit' speaks same found fragment ex, rfl⟩

/-- `"GET /a%2fb?q HTTP/1.1"` -/
def quotedSlash : RequestLine := ⟨ascii "GET", [ascii "a%2fb"], some (ascii "q"), 49, 49⟩

/-- `"GET /a://b HTTP/1.1"` -/
def schemed : RequestLine := ⟨ascii "GET", [ascii "a:", [], ascii "b"], none, 49, 49⟩

def oldServer : Server := ⟨ascii "HTTP/1.0", 0, 0, [], [], [], fun _ => []⟩

end Line

end CodeClips.CherryPy
