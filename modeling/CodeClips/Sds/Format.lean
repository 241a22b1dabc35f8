import CodeClips.Lib.Buffer
import CodeClips.Lib.Outcome
import CodeClips.Sds.LongLong

/-!
# `sdscatfmt`

The formatter reads one byte of the format in a pass, or two for a directive, makes room for what
the pass writes, and keeps the place of the next byte in an `int`. A `%` in front of the NUL is read
as a directive with the NUL, and the next pass begins behind it (`loop_lone`). `Grown` is what the
passes keep as long as the `int` has place for the length; the run is right for the other formats
and these lengths only, and where `sdsll2str` is not given the number it cannot negate.
-/

namespace CodeClips.Sds

/-! ## The function -/

/-- An argument by its type; a pointer by the bytes it is for. -/
inductive Arg where
  | string (str : List Byte)
  | sds (str : List Byte)
  | int (num : BitVec 32)
  | longlong (num : BitVec 64)
  | unsigned (unum : BitVec 32)
  | ulonglong (unum : BitVec 64)

/-- The directive whose `va_arg` has the type of the argument. -/
def Arg.directive : Arg → Byte
  | .string _ => char 's'
  | .sds _ => char 'S'
  | .int _ => char 'i'
  | .longlong _ => char 'I'
  | .unsigned _ => char 'u'
  | .ulonglong _ => char 'U'

/-- `char buf[SDS_LLSTR_SIZE]`, which is not set. -/
def numberBuf (junk : Nat → Byte) : List Byte := (List.range SDS_LLSTR_SIZE).map junk

/-- The first `l` bytes of `buf`. -/
def numberText (result : Option (List Byte × Nat)) : Option (List Byte) := result.map fun (buf, l) => buf.take l

/-- What is copied for an argument. -/
def Arg.copied (junk : Nat → Byte) : Arg → Option (List Byte)
  | .string str => some str
  | .sds str => some str
  | .int num => numberText (sdsll2str (numberBuf junk) (num.signExtend 64))
  | .longlong num => numberText (sdsll2str (numberBuf junk) num)
  | .unsigned unum => numberText (sdsull2str (numberBuf junk) (unum.setWidth 64))
  | .ulonglong unum => numberText (sdsull2str (numberBuf junk) unum)

/-- The directives with an argument. -/
def takesArg (next : Byte) : Bool := next ∈ [char 's', char 'S', char 'i', char 'I', char 'u', char 'U']

/-- What a run must not do: read behind the NUL of the format, leave what is allocated for the string,
take an argument of another type, or write a number that is undefined. -/
inductive FormatFault where
  | pastFormat
  | outside
  | argument
  | number

/-- `struct sdshdr` with the count of the bytes left over; `buf` is all that is allocated for it. -/
structure Allocated extends sdshdr where
  free : BitVec 32

def SDS_MAX_PREALLOC : Nat := 1024 * 1024

/-- The string and the place of the next byte to write. -/
structure Cursor where
  s : Allocated
  i : BitVec 32

/-- More is allocated than is asked for. -/
def prealloc (newlen : Nat) : Nat := if newlen < SDS_MAX_PREALLOC then newlen * 2 else newlen + SDS_MAX_PREALLOC

section Memory
variable (junk : Nat → Byte)

/-- What is new after a `zrealloc` is not set. -/
def zrealloc (buf : List Byte) (size : Nat) : List Byte :=
  buf.take size ++ (List.range' buf.length (size - buf.length)).map junk

def sdsMakeRoomFor (s : Allocated) (addlen : Nat) : Allocated :=
  if addlen ≤ s.free.toNat then s
  else
    let len := sdslen s.tosdshdr
    let newlen := prealloc (len + addlen)
    { s with buf := zrealloc junk s.buf (newlen + 1), free := BitVec.ofNat 32 (newlen - len) }

/-- A copy to `s + i`. -/
def store (buf : List Byte) (i : BitVec 32) (t : List Byte) : Except FormatFault (List Byte) :=
  if 0 ≤ i.toInt ∧ i.toInt + t.length ≤ buf.length then .ok (blit buf i.toInt.toNat t) else .error .outside

/-- Writes the first `l` bytes, and counts them. -/
def Cursor.append (d : Cursor) (str : List Byte) (l : BitVec 32) : Except FormatFault Cursor := do
  let buf ← store d.s.buf d.i (str.take l.toNat)
  pure { s := { d.s with len := d.s.len + l, free := d.s.free - l, buf := buf }, i := d.i + l }

/-- What the branches with an argument do; `l` is an `unsigned int`. -/
def Cursor.copy (d : Cursor) (str : List Byte) : Except FormatFault Cursor :=
  let l := BitVec.ofNat 32 str.length
  let s := if d.s.free < l then sdsMakeRoomFor junk d.s l.toNat else d.s
  { d with s := s }.append str l

def directive (d : Cursor) (next : Byte) (ap : List Arg) : Except FormatFault (Cursor × List Arg) :=
  if takesArg next then
    match ap with
    | [] => .error .argument
    | arg :: ap =>
      if arg.directive = next then
        match arg.copied junk with
        | some str => (·, ap) <$> d.copy junk str
        | none => .error .number
      else .error .argument
  else (·, ap) <$> d.append [next] 1

/-- Space for at least 1 char. -/
def Cursor.space (d : Cursor) : Cursor := { d with s := if d.s.free = 0 then sdsMakeRoomFor junk d.s 1 else d.s }

/-- The passes over the rest of the format, up to its NUL. -/
def loop : List Byte → Cursor → List Arg → Except FormatFault Allocated
  | [], _, _ => .error .pastFormat
  | c :: f, d, ap =>
    if c = 0 then do
      let buf ← store d.s.buf d.i [0]
      pure { d.s with buf := buf }
    else if c = char '%' then
      match f with
      | [] => .error .pastFormat
      | next :: f => do
        let (d, ap) ← directive junk (d.space junk) next ap
        loop f d ap
    else do
      let d ← (d.space junk).append [c] 1
      loop f d ap

/-- `sdscatfmt(s, fmt, ...)`; the format is in memory with its NUL. -/
def sdscatfmt (s : Allocated) (fmt : List Byte) (ap : List Arg) : Except FormatFault Allocated :=
  loop junk (fmt ++ [0]) { s := s, i := BitVec.ofNat 32 (sdslen s.tosdshdr) } ap

end Memory

/-! ## What it is for -/

/-- The text of an argument. -/
def Arg.text : Arg → List Byte
  | .string str => str
  | .sds str => str
  | .int num => decimal num.toInt
  | .longlong num => decimal num.toInt
  | .unsigned unum => decimal unum.toNat
  | .ulonglong unum => decimal unum.toNat

/-- The expansion of a format, if the arguments match; more arguments do no harm. -/
def expansion : List Byte → List Arg → Option (List Byte)
  | [], _ => some []
  | c :: f, args =>
    if c = char '%' then
      match f, args with
      | [], _ => some []
      | next :: f, args =>
        if takesArg next then
          match args with
          | [] => none
          | arg :: args => if arg.directive = next then (arg.text ++ ·) <$> expansion f args else none
        else (next :: ·) <$> expansion f args
    else (c :: ·) <$> expansion f args

/-- The arguments that the directives of a format take. -/
def used : List Byte → List Arg → List Arg
  | [], _ => []
  | c :: f, args =>
    if c = char '%' then
      match f, args with
      | [], _ => []
      | next :: f, args =>
        if takesArg next then
          match args with
          | [] => []
          | arg :: args => arg :: used f args
        else used f args
    else used f args

/-- Behind each `%` that begins a directive, the format has its character. -/
def complete : List Byte → Bool
  | [] => true
  | c :: f =>
    if c = char '%' then
      match f with
      | [] => false
      | _ :: f => complete f
    else complete f

/-- The string holds the bytes, and what is counted as left over is allocated. -/
structure Allocated.Valid (s : Allocated) (bytes : List Byte) : Prop where
  holds : s.Holds bytes
  room : bytes.length + s.free.toNat < s.buf.length

/-- The run ends without a fault, and the string it returns holds the bytes. -/
def Expanded (run : Except FormatFault Allocated) (bytes : List Byte) : Prop := ∃ s, run = .ok s ∧ s.Valid bytes

/-- No argument that is taken is the number that cannot be negated. -/
def Writable (fmt : List Byte) (args : List Arg) : Prop := ∀ arg ∈ used fmt args, arg ≠ .longlong LLONG_MIN

theorem used_plain {c : Byte} (plain : c ≠ char '%') (f : List Byte) (args : List Arg) : used (c :: f) args = used f args := by
  rw [used.eq_def]
  dsimp only
  rw [if_neg plain]

theorem used_char {next : Byte} (plain : ¬ takesArg next = true) (f : List Byte) (args : List Arg) :
    used (char '%' :: next :: f) args = used f args := by
  rw [used.eq_def]
  dsimp only
  rw [if_pos rfl, if_neg plain]

theorem used_arg {next : Byte} (takes : takesArg next = true) (f : List Byte) (arg : Arg) (args : List Arg) :
    used (char '%' :: next :: f) (arg :: args) = arg :: used f args := by
  rw [used.eq_def]
  dsimp only
  rw [if_pos rfl, if_pos takes]

theorem complete_plain {c : Byte} (plain : c ≠ char '%') (f : List Byte) : complete (c :: f) = complete f := by
  rw [complete.eq_def]
  dsimp only
  rw [if_neg plain]

theorem expansion_plain {c : Byte} (plain : c ≠ char '%') (f : List Byte) (args : List Arg) :
    expansion (c :: f) args = (c :: ·) <$> expansion f args := by
  rw [expansion.eq_def]
  dsimp only
  rw [if_neg plain]

/-- A directive stands for the text of its argument or for its character. -/
theorem expansion_directive {next : Byte} {f : List Byte} {args : List Arg} {out : List Byte}
    (matching : expansion (char '%' :: next :: f) args = some out) :
    (¬ takesArg next = true ∧ ∃ more, expansion f args = some more ∧ out = [next] ++ more) ∨
      (takesArg next = true ∧ ∃ arg args' more, args = arg :: args' ∧ arg.directive = next ∧
        expansion f args' = some more ∧ out = arg.text ++ more) := by
  rw [expansion.eq_def] at matching
  dsimp only at matching
  rw [if_pos rfl] at matching
  split_ifs at matching with takes
  · cases args with
    | nil => cases matching
    | cons arg args =>
      dsimp only at matching
      split_ifs at matching with type
      obtain ⟨more, rest, rfl⟩ := Option.map_eq_some_iff.mp matching
      exact .inr ⟨takes, arg, args, more, rfl, type, rest, rfl⟩
  · obtain ⟨more, rest, rfl⟩ := Option.map_eq_some_iff.mp matching
    exact .inl ⟨takes, more, rest, rfl⟩

variable {junk : Nat → Byte} {d : Cursor} {bytes : List Byte}

/-! ## A pass -/

theorem loop_end (d : Cursor) (ap : List Arg) :
    loop junk [0] d ap = (store d.s.buf d.i [0]).map fun buf => { d.s with buf := buf } := by
  rw [loop, if_pos rfl]
  cases store d.s.buf d.i [0] <;> rfl

theorem loop_directive (next : Byte) (f : List Byte) (d : Cursor) (ap : List Arg) :
    loop junk (char '%' :: next :: f) d ap =
      directive junk (d.space junk) next ap >>= fun (d, ap) => loop junk f d ap := by
  rw [loop, if_neg (by decide), if_pos rfl]

theorem loop_plain {c : Byte} (noNul : c ≠ 0) (plain : c ≠ char '%') (f : List Byte) (d : Cursor) (ap : List Arg) :
    loop junk (c :: f) d ap = (d.space junk).append [c] 1 >>= fun d => loop junk f d ap := by
  rw [loop.eq_def]
  dsimp only
  rw [if_neg noNul, if_neg plain]

theorem directive_char {next : Byte} (plain : ¬ takesArg next = true) (d : Cursor) (ap : List Arg) :
    directive junk d next ap = (·, ap) <$> d.append [next] 1 := by
  rw [directive.eq_def, if_neg plain]

theorem directive_arg {next : Byte} (takes : takesArg next = true) (d : Cursor) {arg : Arg} (type : arg.directive = next)
    {str : List Byte} (copied : arg.copied junk = some str) (ap : List Arg) :
    directive junk d next (arg :: ap) = (·, ap) <$> d.copy junk str := by
  rw [directive, if_pos takes, if_pos type, copied]

/-- A `%` in front of the NUL: the NUL is appended, and the next pass begins behind it. -/
theorem loop_lone (d : Cursor) (ap : List Arg) (s : Allocated) : loop junk [char '%', 0] d ap ≠ .ok s := by
  rw [loop_directive, directive_char (by decide)]
  cases (d.space junk).append [0] 1 <;> rintro ⟨⟩

/-! ## What the passes keep -/

/-- The string begins with the bytes, and behind them is at least the room that is counted and one byte more. -/
structure Grown (d : Cursor) (bytes : List Byte) : Prop where
  len : sdslen d.s.tosdshdr = bytes.length
  place : d.i = d.s.len
  room : ∃ rest, d.s.buf = bytes ++ rest ∧ d.s.free.toNat < rest.length

theorem Grown.toInt_place (grown : Grown d bytes) (fits : bytes.length < 2 ^ 31) : d.i.toInt = bytes.length := by
  have len := grown.len
  rw [grown.place, BitVec.toInt_eq_toNat_of_lt (by rw [sdslen] at len; omega)]
  exact congrArg Int.ofNat len

theorem zrealloc_append {size : Nat} (inside : bytes.length ≤ size) (rest : List Byte) :
    ∃ rest', zrealloc junk (bytes ++ rest) size = bytes ++ rest' ∧ rest'.length = size - bytes.length :=
  resized_append junk inside rest

theorem prealloc_bounds {n : Nat} (fits : n ≤ 2 ^ 31) : n ≤ prealloc n ∧ prealloc n < 2 ^ 32 := by
  rw [prealloc, SDS_MAX_PREALLOC]
  split_ifs <;> omega

theorem Grown.makeRoom (grown : Grown d bytes) {addlen : Nat} (fits : bytes.length + addlen ≤ 2 ^ 31) :
    Grown { d with s := sdsMakeRoomFor junk d.s addlen } bytes ∧
      addlen ≤ (sdsMakeRoomFor junk d.s addlen).free.toNat := by
  obtain ⟨len, place, rest, buf, room⟩ := grown
  rw [sdsMakeRoomFor]
  split_ifs with enough
  · exact ⟨⟨len, place, rest, buf, room⟩, enough⟩
  · have bounds := prealloc_bounds fits
    have free : (BitVec.ofNat 32 (prealloc (bytes.length + addlen) - bytes.length)).toNat =
        prealloc (bytes.length + addlen) - bytes.length := by
      rw [BitVec.toNat_ofNat]
      omega
    obtain ⟨rest', grows, length⟩ := @zrealloc_append junk bytes (prealloc (bytes.length + addlen) + 1) (by omega) rest
    rw [len, buf]
    refine ⟨⟨len, place, rest', grows, ?_⟩, ?_⟩
    · dsimp only
      omega
    · rw [free]
      omega

theorem Grown.append (grown : Grown d bytes) {t : List Byte} (room : t.length ≤ d.s.free.toNat)
    (fits : bytes.length + t.length < 2 ^ 31) :
    ∃ d', d.append t (BitVec.ofNat 32 t.length) = .ok d' ∧ Grown d' (bytes ++ t) := by
  have index := grown.toInt_place (by omega)
  obtain ⟨len, place, rest, buf, free⟩ := grown
  have count : (BitVec.ofNat 32 t.length).toNat = t.length := by
    rw [BitVec.toNat_ofNat]
    omega
  rw [Cursor.append, count, List.take_length, store, index, buf, if_pos ⟨by omega, by rw [List.length_append]; omega⟩,
    Int.toNat_natCast, blit_append]
  refine ⟨_, rfl, ?_, ?_, _, rfl, ?_⟩
  · rw [sdslen, BitVec.toNat_add, count, List.length_append]
    rw [sdslen] at len
    omega
  · rw [place]
  · rw [BitVec.toNat_sub, count, List.length_drop]
    omega

theorem Grown.copy (grown : Grown d bytes) {t : List Byte} (fits : bytes.length + t.length < 2 ^ 31) :
    ∃ d', d.copy junk t = .ok d' ∧ Grown d' (bytes ++ t) := by
  have count : (BitVec.ofNat 32 t.length).toNat = t.length := by
    rw [BitVec.toNat_ofNat]
    omega
  rw [Cursor.copy]
  split_ifs with full
  · rw [count]
    obtain ⟨roomy, room⟩ := @Grown.makeRoom junk _ _ grown t.length (by omega)
    exact roomy.append room fits
  · rw [BitVec.lt_def, count] at full
    exact grown.append (by omega) fits

theorem Grown.space (grown : Grown d bytes) (fits : bytes.length < 2 ^ 31) :
    Grown (d.space junk) bytes ∧ 1 ≤ (d.space junk).s.free.toNat := by
  rw [Cursor.space]
  split_ifs with full
  · exact grown.makeRoom (by omega)
  · refine ⟨grown, ?_⟩
    exact Nat.pos_of_ne_zero fun none => full (BitVec.eq_of_toNat_eq none)

theorem numberText_written (s : List Byte) (n : Int) : numberText (some (written s n)) = some (decimal n) :=
  congrArg some List.take_left

/-- The text of an argument is copied, but for the number that `sdsll2str` cannot negate. -/
theorem Arg.copied_eq {arg : Arg} (other : arg ≠ .longlong LLONG_MIN) : arg.copied junk = some arg.text := by
  have room : SDS_LLSTR_SIZE ≤ (numberBuf junk).length := by rw [numberBuf, List.length_map, List.length_range]
  cases arg with
  | string str => rfl
  | sds str => rfl
  | int num =>
    have same : (num.signExtend 64).toInt = num.toInt := BitVec.toInt_signExtend_of_le (by decide)
    have small : num.signExtend 64 ≠ LLONG_MIN := by
      intro least
      have low := BitVec.le_toInt num
      rw [← same, least] at low
      exact absurd low (by decide)
    rw [copied, text, sdsll2str_eq room small, numberText_written, same]
  | longlong num =>
    have small : num ≠ LLONG_MIN := fun least => other (congrArg Arg.longlong least)
    rw [copied, text, sdsll2str_eq room small, numberText_written]
  | unsigned unum =>
    have same : (unum.setWidth 64).toNat = unum.toNat := by
      rw [BitVec.toNat_setWidth]
      omega
    rw [copied, text, sdsull2str_eq room, numberText_written, same]
  | ulonglong unum => rw [copied, text, sdsull2str_eq room, numberText_written]

theorem Arg.copied_min : Arg.copied junk (.longlong LLONG_MIN) = none := rfl

theorem Grown.put (grown : Grown d bytes) (c : Byte) (fits : bytes.length + 1 < 2 ^ 31) :
    ∃ d', (d.space junk).append [c] 1 = .ok d' ∧ Grown d' (bytes ++ [c]) := by
  obtain ⟨spaced, room⟩ := @Grown.space junk _ _ grown (by omega)
  exact spaced.append room fits

/-- A directive appends what it stands for. -/
theorem Grown.directive (grown : Grown d bytes) {next : Byte} {f : List Byte} {args : List Arg} {out : List Byte}
    (matching : expansion (char '%' :: next :: f) args = some out) (writable : Writable (char '%' :: next :: f) args)
    (fits : bytes.length + out.length < 2 ^ 31) :
    ∃ d' args' front more, directive junk (d.space junk) next args = .ok (d', args') ∧ Grown d' (bytes ++ front) ∧
      expansion f args' = some more ∧ Writable f args' ∧ out = front ++ more := by
  rcases expansion_directive matching with ⟨plain, more, rest, rfl⟩ | ⟨takes, arg, args', more, rfl, type, rest, rfl⟩
  · rw [List.length_append, List.length_singleton] at fits
    obtain ⟨d', put, grown'⟩ := @Grown.put junk _ _ grown next (by omega)
    rw [Writable, used_char plain] at writable
    refine ⟨d', args, [next], more, ?_, grown', rest, writable, rfl⟩
    rw [directive_char plain, put]
    rfl
  · rw [List.length_append] at fits
    obtain ⟨spaced, -⟩ := @Grown.space junk _ _ grown (by omega)
    obtain ⟨d', copied, grown'⟩ := @Grown.copy junk _ _ spaced arg.text (by omega)
    rw [Writable, used_arg takes, List.forall_mem_cons] at writable
    refine ⟨d', args', arg.text, more, ?_, grown', rest, writable.2, rfl⟩
    rw [directive_arg takes _ type (Arg.copied_eq writable.1), copied]
    rfl

/-- **The run**: as long as an `int` has place for the length, the passes append the expansion. -/
theorem Grown.expands {fmt : List Byte} (noNul : 0 ∉ fmt) (whole : complete fmt = true) {args : List Arg} {out : List Byte}
    (matching : expansion fmt args = some out) (writable : Writable fmt args) (grown : Grown d bytes)
    (fits : bytes.length + out.length < 2 ^ 31) : Expanded (loop junk (fmt ++ [0]) d args) (bytes ++ out) := by
  induction fmt using complete.induct generalizing d bytes args out with
  | case1 =>
    cases matching
    have index := grown.toInt_place (by omega)
    obtain ⟨len, -, rest, buf, free⟩ := grown
    have inside : 0 ≤ d.i.toInt ∧ d.i.toInt + [(0 : Byte)].length ≤ d.s.buf.length := by
      rw [index, buf, List.length_append, List.length_singleton]
      omega
    rw [List.nil_append, List.append_nil, loop_end, store, if_pos inside, index, Int.toNat_natCast, buf, blit_append]
    refine ⟨_, rfl, ⟨len, rest.drop 1, List.append_assoc _ _ _⟩, ?_⟩
    simp only [List.length_append, List.length_singleton, List.length_drop]
    omega
  | case2 => cases whole
  | case3 next f ih =>
    obtain ⟨d', args', front, more, pass, grown', rest, writable', rfl⟩ :=
      @Grown.directive junk _ _ grown _ _ _ _ matching writable fits
    have clean : 0 ∉ f := fun zero => noNul (List.mem_cons_of_mem _ (List.mem_cons_of_mem _ zero))
    rw [List.length_append] at fits
    rw [List.cons_append, List.cons_append, loop_directive, pass, ← List.append_assoc]
    exact ih clean whole rest writable' grown' (by rw [List.length_append]; omega)
  | case4 c f plain ih =>
    rw [expansion_plain plain] at matching
    obtain ⟨more, rest, rfl⟩ := Option.map_eq_some_iff.mp matching
    have some : c ≠ 0 := fun zero => noNul (zero ▸ List.mem_cons_self)
    have clean : 0 ∉ f := fun zero => noNul (List.mem_cons_of_mem c zero)
    rw [List.length_cons] at fits
    obtain ⟨d', put, grown'⟩ := @Grown.put junk _ _ grown c (by omega)
    rw [complete_plain plain] at whole
    rw [Writable, used_plain plain] at writable
    rw [List.cons_append, loop_plain some plain, put, List.append_cons bytes]
    exact ih clean whole rest writable grown' (by rw [List.length_append, List.length_singleton]; omega)

/-! ## What a run that returns has kept -/

theorem len_sdsMakeRoomFor (s : Allocated) (addlen : Nat) : (sdsMakeRoomFor junk s addlen).len = s.len := by
  rw [sdsMakeRoomFor]
  split_ifs <;> rfl

theorem place_append {d' : Cursor} {str : List Byte} {l : BitVec 32} (place : d.i = d.s.len)
    (ok : d.append str l = .ok d') : d'.i = d'.s.len := by
  obtain ⟨buf, -, same⟩ := bind_eq_ok ok
  cases same
  exact congrArg (· + l) place

theorem place_space (place : d.i = d.s.len) : (d.space junk).i = (d.space junk).s.len := by
  rw [Cursor.space]
  split_ifs
  · exact place.trans (len_sdsMakeRoomFor d.s 1).symm
  · exact place

theorem place_copy {d' : Cursor} {str : List Byte} (place : d.i = d.s.len) (ok : d.copy junk str = .ok d') :
    d'.i = d'.s.len := by
  rw [Cursor.copy] at ok
  apply place_append _ ok
  split_ifs
  · exact place.trans (len_sdsMakeRoomFor d.s _).symm
  · exact place

/-- A directive that has returned has taken its argument, if it has one, and has written it. -/
theorem directive_ok {d' : Cursor} {next : Byte} {ap ap' : List Arg} (place : d.i = d.s.len)
    (ok : directive junk d next ap = .ok (d', ap')) :
    d'.i = d'.s.len ∧ ((¬ takesArg next = true ∧ ap' = ap) ∨
      (takesArg next = true ∧ ∃ arg, ap = arg :: ap' ∧ arg ≠ .longlong LLONG_MIN)) := by
  by_cases takes : takesArg next = true
  · rw [directive.eq_def, if_pos takes] at ok
    cases ap with
    | nil => cases ok
    | cons arg ap =>
      dsimp only at ok
      split_ifs at ok
      cases written : arg.copied junk with
      | none =>
        rw [written] at ok
        cases ok
      | some str =>
        rw [written] at ok
        obtain ⟨d'', copied, same⟩ := bind_eq_ok ok
        cases same
        refine ⟨place_copy place copied, .inr ⟨takes, arg, rfl, ?_⟩⟩
        rintro rfl
        cases Arg.copied_min.symm.trans written
  · rw [directive_char takes] at ok
    obtain ⟨d'', put, same⟩ := bind_eq_ok ok
    cases same
    exact ⟨place_append place put, .inl ⟨takes, rfl⟩⟩

/-- What a run that returns has read, and where it has written the NUL. -/
theorem loop_ok {fmt : List Byte} (noNul : 0 ∉ fmt) {args : List Arg} {s : Allocated} (place : d.i = d.s.len)
    (ok : loop junk (fmt ++ [0]) d args = .ok s) :
    complete fmt = true ∧ sdslen s.tosdshdr < 2 ^ 31 ∧ Writable fmt args := by
  induction fmt using complete.induct generalizing d args with
  | case1 =>
    rw [List.nil_append, loop_end, store] at ok
    split_ifs at ok with inside
    · cases ok
      have positive := BitVec.toInt_eq_toNat_cond d.i
      have bound := d.i.isLt
      refine ⟨rfl, ?_, List.forall_mem_nil _⟩
      rw [sdslen, ← place]
      split_ifs at positive <;> omega
    · cases ok
  | case2 => exact absurd ok (loop_lone d args s)
  | case3 next f ih =>
    rw [List.cons_append, List.cons_append, loop_directive] at ok
    obtain ⟨⟨d', args'⟩, pass, ok⟩ := bind_eq_ok ok
    have clean : 0 ∉ f := fun zero => noNul (List.mem_cons_of_mem _ (List.mem_cons_of_mem _ zero))
    obtain ⟨place', taken⟩ := directive_ok (place_space place) pass
    obtain ⟨whole, short, writable⟩ := ih clean place' ok
    refine ⟨whole, short, ?_⟩
    obtain ⟨plain, rfl⟩ | ⟨takes, arg, rfl, other⟩ := taken
    · rwa [Writable, used_char plain]
    · rw [Writable, used_arg takes]
      exact List.forall_mem_cons.mpr ⟨other, writable⟩
  | case4 c f plain ih =>
    have some : c ≠ 0 := fun zero => noNul (zero ▸ List.mem_cons_self)
    have clean : 0 ∉ f := fun zero => noNul (List.mem_cons_of_mem c zero)
    rw [List.cons_append, loop_plain some plain] at ok
    obtain ⟨d', put, ok⟩ := bind_eq_ok ok
    rw [complete_plain plain, Writable, used_plain plain]
    exact ih clean (place_append (place_space place) put) ok

/-- **The formatter** stays inside of its format and its string and appends the expansion, exactly for the formats
whose last directive is complete, for the results whose length an `int` has place for and for the arguments that
can be written. -/
theorem sdscatfmt_right_iff (junk : Nat → Byte) {s : Allocated} {old fmt out : List Byte} {args : List Arg}
    (valid : s.Valid old) (noNul : 0 ∉ fmt) (matching : expansion fmt args = some out) :
    Expanded (sdscatfmt junk s fmt args) (old ++ out) ↔
      complete fmt = true ∧ old.length + out.length < 2 ^ 31 ∧ Writable fmt args := by
  have start : BitVec.ofNat 32 (sdslen s.tosdshdr) = s.len := by
    rw [sdslen, BitVec.ofNat_toNat, BitVec.setWidth_eq]
  constructor
  · rintro ⟨s', ok, valid'⟩
    obtain ⟨whole, short, writable⟩ := loop_ok noNul start ok
    rw [valid'.holds.len, List.length_append] at short
    exact ⟨whole, short, writable⟩
  · rintro ⟨whole, fits, writable⟩
    obtain ⟨rest, buf⟩ := valid.holds.buf
    have room := valid.room
    rw [buf, List.length_append] at room
    have grown : Grown { s := s, i := BitVec.ofNat 32 (sdslen s.tosdshdr) } old :=
      ⟨valid.holds.len, start, 0 :: rest, buf, Nat.lt_of_add_lt_add_left room⟩
    exact grown.expands noNul whole matching writable fits

theorem valid_sdsempty : Allocated.Valid { sdsempty with free := 0 } [] := ⟨holds_sdsempty, by decide⟩

/-- A number and a text behind an empty string. -/
theorem sdscatfmt_right_iff_number :
    Expanded (sdscatfmt (fun _ => 0) { sdsempty with free := 0 } [char '%', char 'i', char '%', char '%']
        [.int (-7)]) ([] ++ [char '-', char '7', char '%']) ↔
      complete [char '%', char 'i', char '%', char '%'] = true ∧
        ([] : List Byte).length + [char '-', char '7', char '%'].length < 2 ^ 31 ∧
          Writable [char '%', char 'i', char '%', char '%'] [.int (-7)] :=
  sdscatfmt_right_iff _ valid_sdsempty (by decide) (by decide)

/-- The format `%`: the second pass reads behind its NUL. -/
theorem sdscatfmt_reads_past :
    expansion [char '%'] [] = some [] ∧
      sdscatfmt (fun _ => 0) { sdsempty with free := 0 } [char '%'] [] = .error .pastFormat ∧
      ¬ Expanded (sdscatfmt (fun _ => 0) { sdsempty with free := 0 } [char '%'] []) ([] ++ []) := by
  refine ⟨rfl, rfl, ?_⟩
  rintro ⟨s, ⟨⟩, -⟩

end CodeClips.Sds
