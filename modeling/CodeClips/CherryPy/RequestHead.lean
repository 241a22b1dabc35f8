import CodeClips.CherryPy.Request
import CodeClips.CherryPy.SizeCheck
import CodeClips.Lib.Agreement

/-!
# The head of a request

What is done with a request line and with headers depends on them alone: on two connections with the same
head the parsing of a request comes to the same exchange, whatever is behind the head and whatever
has been sent before.
-/

namespace CodeClips.CherryPy
open Wrapped

section Framed

/-- The same exchange, behind what has been sent before; and a property of its request. -/
structure Along (earlier : Bytes) (K : HTTPRequest → Prop) (x₁ x₂ : Exchange) : Prop where
  req : x₁.req = x₂.req
  gateway : x₁.gateway = x₂.gateway
  wfile : x₁.wfile = earlier ++ x₂.wfile
  holds : K x₂.req

/-- A failure of the program, in the same exchange. -/
def Failed (earlier : Bytes) (K : HTTPRequest → Prop) (e : Raised) (x₁ x₂ : Exchange) : Prop := e ≠ .running ∧ Along earlier K x₁ x₂

/-- The program depends on the exchange alone, and not on what has been sent before. -/
def Framed {α : Type} (earlier : Bytes) (K : HTTPRequest → Prop) (x : ExchangeM α) : Prop :=
  Agree (Along earlier K) x x (fun _ => Along earlier K) (Failed earlier K)

variable {earlier : Bytes} {K K' : HTTPRequest → Prop} {α : Type} {x₁ x₂ : Exchange}

/-- Less may be known of the two requests. -/
theorem Along.weaken (along : Along earlier K x₁ x₂) (weaker : ∀ req, K req → K' req) : Along earlier K' x₁ x₂ :=
  ⟨along.req, along.gateway, along.wfile, weaker _ along.holds⟩

/-- A program that does nothing. -/
theorem framed_pure (a : α) : Framed earlier K (pure a) := Agree.pure fun _ _ along => along

/-- An exception that is raised whatever was sent before. -/
theorem framed_throw {e : Raised} (other : e ≠ .running) : Framed earlier K (throw e : ExchangeM α) :=
  Agree.throw fun _ _ along => ⟨other, along⟩

section Calls
variable {F : Raised → Exchange → Exchange → Prop}

theorem getReq_agree : Agree (Along earlier K) getReq getReq (fun a => Along earlier fun req => K req ∧ req = a) F := by
  intro x₁ x₂ along
  have run : getReq x₁ = .ok x₂.req x₁ := by rw [getReq, along.req]
  rw [run, getReq]
  exact .ok ⟨along.req, along.gateway, along.wfile, along.holds, rfl⟩

/-- The requests are changed in one way on both connections. -/
theorem setReq_agree (K' : HTTPRequest → Prop) {f : HTTPRequest → HTTPRequest} (keeps : ∀ req, K req → K' (f req)) :
    Agree (Along earlier K) (setReq f) (setReq f) (fun _ => Along earlier K') F := by
  intro x₁ x₂ along
  exact .ok ⟨congrArg f along.req, along.gateway, along.wfile, keeps _ along.holds⟩

/-- The same bytes are sent on both connections. -/
theorem sendall_agree (data : Bytes) : Agree (Along earlier K) (sendall data) (sendall data) (fun _ => Along earlier K) F := by
  intro x₁ x₂ along
  refine .ok ⟨along.req, along.gateway, ?_, along.holds⟩
  show x₁.wfile ++ data = earlier ++ (x₂.wfile ++ data)
  rw [along.wfile, List.append_assoc]

end Calls

theorem framed_getReq : Framed earlier K getReq :=
  getReq_agree.weaken (fun _ _ along => along) (fun _ _ _ along => along.weaken fun _ both => both.1) fun _ _ _ failed => failed

theorem framed_getGateway : Framed earlier K getGateway := by
  intro x₁ x₂ along
  have run : getGateway x₁ = .ok x₂.gateway x₁ := by rw [getGateway, along.gateway]
  rw [run, getGateway]
  exact .ok along

theorem framed_setGateway (gateway : WSGIGateway) : Framed earlier K (setGateway gateway) := fun _ _ along =>
  .ok ⟨along.req, rfl, along.wfile, along.holds⟩

/-- A computation that does not look at the exchange. -/
theorem framed_raiseOr {r : Except Raised α} (others : ∀ e, r = .error e → e ≠ .running) : Framed earlier K (raiseOr r) := by
  cases r with
  | error e => exact framed_throw (others e rfl)
  | ok a => exact framed_pure a

/-- One such program after another. -/
theorem Framed.bind {β : Type} {x : ExchangeM α} {k : α → ExchangeM β} (first : Framed earlier K x)
    (rest : ∀ a, Framed earlier K (k a)) : Framed earlier K (x >>= k) := Agree.bind first rest

end Framed

section Errors

/-- `int` raises an exception of its own, and its loop ends; so with the functions below. -/
theorem int_error {s : Bytes} {e : Raised} (error : int s = .error e) : e ≠ .running := by
  unfold int at error
  split at error <;> cases error
  nofun

theorem protocolVersion_error {s : Bytes} {e : Raised} (error : protocolVersion s = .error e) : e ≠ .running := by
  unfold protocolVersion at error
  repeat' split at error
  all_goals cases error
  all_goals nofun

theorem parseRequestUri_error {s : Bytes} {e : Raised} (error : parseRequestUri s = .error e) : e ≠ .running := by
  unfold parseRequestUri at error
  dsimp only at error
  repeat' split at error
  all_goals cases error
  nofun

theorem contentLength_error {h : HDict} {e : Raised} (error : contentLength h = .error e) : e ≠ .running := by
  unfold contentLength at error
  split at error
  · cases error
  · exact int_error error

theorem tooLong_error {srv : Server} {h : HDict} {e : Raised} (error : tooLong srv h = .error e) : e ≠ .running := by
  unfold tooLong at error
  split at error
  · cases error
  · cases length : contentLength h with
    | error e' =>
      rw [length] at error
      cases error
      exact contentLength_error length
    | ok n =>
      rw [length] at error
      cases error

theorem declaredLength_error {headers : List (Bytes × Bytes)} {e : Raised} {n : Option Int}
    (error : declaredLength n headers = .error e) : e ≠ .running := by
  induction headers generalizing n with
  | nil => cases error
  | cons header headers ih =>
    rw [declaredLength] at error
    split at error
    · split at error
      · cases error
        exact int_error ‹_›
      · exact ih error
    · exact ih error

/-- A missing attribute is an exception as well. -/
theorem getEnviron_error {req : HTTPRequest} {e : Raised} (error : getEnviron req = .error e) : e ≠ .running := by
  unfold getEnviron at error
  split at error <;> cases error <;> nofun

end Errors

section Steps
variable {earlier : Bytes} {K : HTTPRequest → Prop} {srv : Server}

/-- The property remains when the connection is to be closed. -/
def Closable (K : HTTPRequest → Prop) : Prop :=
  ∀ req more, K req → K { req with close_connection := req.close_connection || more }

/-- The same response goes to both clients. -/
theorem simpleResponse_agree {F : Raised → Exchange → Exchange → Prop} (closable : Closable K) (status msg : Bytes) :
    Agree (Along earlier K) (simpleResponse srv status msg) (simpleResponse srv status msg) (fun _ => Along earlier K) F := by
  refine Agree.bind (setReq_agree K fun req held => closable req _ held) fun _ => ?_
  refine Agree.bind getReq_agree fun req => ?_
  exact (sendall_agree _).weaken (fun _ _ along => along) (fun _ _ _ along => along.weaken fun _ both => both.1)
    fun _ _ _ failed => failed

/-- The request has not been read yet. -/
def Unready (req : HTTPRequest) : Prop := (req.ready, req.sent_headers) = (false, false)

/-- A refusal says the same on both connections. -/
theorem framed_refuse (status msg : Bytes) : Framed earlier Unready (simpleResponse srv status msg) :=
  simpleResponse_agree (fun _ _ unready => unready) status msg

/-- A change of the request that does not make it ready. -/
theorem framed_setReq {f : HTTPRequest → HTTPRequest} (same : ∀ req, ((f req).ready, (f req).sent_headers) = (req.ready, req.sent_headers)) :
    Framed earlier Unready (setReq f) :=
  setReq_agree Unready fun req unready => (same req).trans unready

/-- What comes of a target depends on the line alone. -/
theorem framed_readTarget (scheme : Option Bytes) (path req_protocol : Bytes) (rp : Nat × Nat) :
    Framed earlier Unready (readTarget srv scheme path req_protocol rp) := by
  unfold readTarget
  split
  · exact framed_refuse _ _
  · refine Framed.bind (framed_setReq (by intro _; rfl)) fun _ => ?_
    refine (framed_raiseOr fun e error => protocolVersion_error error).bind fun sp => ?_
    dsimp only
    split
    · exact framed_refuse _ _
    · exact framed_setReq (by intro _; rfl)

/-- And so does what comes of a request line. -/
theorem framed_parseRequestLine (request_line : Bytes) : Framed earlier Unready (parseRequestLine srv request_line) := by
  unfold parseRequestLine
  split
  · exact framed_refuse _ _
  split
  · exact framed_refuse _ _
  · refine Framed.bind (framed_setReq (by intro _; rfl)) fun _ => ?_
    refine (framed_raiseOr fun e error => parseRequestUri_error error).bind fun target => ?_
    split
    · exact framed_throw nofun
    · exact framed_readTarget _ _ _ _

/-- The headers of the request, and that its body is not chunked if they do not say so. -/
def Accepted (headers : HDict) (req : HTTPRequest) : Prop :=
  req.inheaders = headers ∧ (headers (ascii "Transfer-Encoding") = none → req.chunked_read = false)

/-- Without the header there are no codings. -/
theorem transferEncodings_none {req : HTTPRequest} (none_ : req.inheaders (ascii "Transfer-Encoding") = none) :
    transferEncodings req = [] := by
  unfold transferEncodings
  rw [none_]
  split <;> rfl

/-- Both clients are told to go on, or neither. -/
theorem expectContinue_agree {F : Raised → Exchange → Exchange → Prop} (headers : HDict) :
    Agree (Along earlier K) (expectContinue srv headers) (expectContinue srv headers) (fun _ => Along earlier K) F := by
  unfold expectContinue
  split
  · exact sendall_agree _
  · exact Agree.pure fun _ _ along => along

/-- The headers are accepted on both connections, or fail on both. -/
theorem acceptHeaders_agree (headers : HDict) : Agree (Along earlier Unready) (acceptHeaders srv headers)
    (acceptHeaders srv headers) (fun success => Along earlier fun req => Unready req ∧ (success → Accepted headers req))
    (Failed earlier Unready) := by
  have refused : ∀ {x : ExchangeM Unit}, Framed earlier Unready x → Agree (Along earlier Unready) (do x; pure false)
      (do x; pure false) (fun success => Along earlier fun req => Unready req ∧ (success → Accepted headers req))
      (Failed earlier Unready) :=
    fun framed => Agree.bind framed fun _ => Agree.pure fun _ _ along => along.weaken fun _ unready => ⟨unready, nofun⟩
  refine Agree.bind (setReq_agree (fun req => Unready req ∧ req.inheaders = headers) fun _ unready => ⟨unready, rfl⟩) fun _ => ?_
  have long : Agree (Along earlier fun req => Unready req ∧ req.inheaders = headers) (raiseOr (tooLong srv headers))
      (raiseOr (tooLong srv headers)) (fun _ => Along earlier fun req => Unready req ∧ req.inheaders = headers)
      (Failed earlier Unready) :=
    (framed_raiseOr fun e error => tooLong_error error).weaken (fun _ _ along => along) (fun _ _ _ along => along)
      fun _ _ _ failed => ⟨failed.1, failed.2.weaken fun _ both => both.1⟩
  refine Agree.bind long fun long => ?_
  cases long
  case true =>
    rw [if_pos rfl]
    exact (refused (framed_refuse _ _)).weaken (fun _ _ along => along.weaken fun _ both => both.1) (fun _ _ _ along => along)
      fun _ _ _ failed => failed
  case false =>
    rw [if_neg Bool.false_ne_true]
    refine Agree.bind (setReq_agree (fun req => Unready req ∧ req.inheaders = headers) fun _ both => both) fun _ => ?_
    refine Agree.bind getReq_agree fun a => ?_
    refine Agree.bind (setReq_agree (fun req => Unready req ∧ Accepted headers req) ?_) fun _ => ?_
    · rintro req ⟨⟨unready, same⟩, rfl⟩
      refine ⟨unready, same, fun none => ?_⟩
      have codings : transferEncodings req = [] := transferEncodings_none (same ▸ none)
      show decide ((transferEncodings req).head? = _) = false
      rw [codings]
      rfl
    split
    · refine Agree.bind (simpleResponse_agree (fun _ _ both => both) _ _) fun _ => ?_
      exact (refused (framed_setReq (by intro _; rfl))).weaken (fun _ _ along => Along.weaken along fun _ both => both.1)
        (fun _ _ _ along => along) fun _ _ _ failed => failed
    · have accepted : ∀ req, Unready req ∧ Accepted headers req → Unready req ∧ (true = true → Accepted headers req) :=
        fun _ both => ⟨both.1, fun _ => both.2⟩
      exact Agree.bind (expectContinue_agree headers) fun _ => Agree.pure fun _ _ along => Along.weaken along accepted

/-- A property that every request has. -/
abbrev Any : HTTPRequest → Prop := fun _ => True

/-- The handlers of `communicate` return, but for a program that still runs. -/
theorem handle_agree (seen : Bool) {e : Raised} (other : e ≠ .running) : Agree (Along earlier Any) (handle srv seen e)
    (handle srv seen e) (fun _ => Along earlier Any) fun _ _ _ => False := by
  have answered : ∀ (c : Prop) [Decidable c] (status msg : Bytes), Agree (Along earlier Any)
      (if c then pure () else simpleResponse srv status msg) (if c then pure () else simpleResponse srv status msg)
      (fun _ => Along earlier Any) fun _ _ _ => False := by
    intro c _ status msg
    split
    · exact Agree.pure fun _ _ along => along
    · exact simpleResponse_agree (fun _ _ _ => trivial) status msg
  have request : Agree (Along earlier Any) getReq getReq (fun _ => Along earlier Any) fun _ _ _ => False :=
    getReq_agree.weaken (fun _ _ along => along) (fun _ _ _ along => along.weaken fun _ _ => trivial) fun _ _ _ failed => failed
  cases e with
  | running => exact absurd rfl other
  | socketError errnum =>
    refine Agree.bind request fun req => ?_
    split
    · split
      · exact answered _ _ _
      · exact Agree.pure fun _ _ along => along
    · split
      · exact Agree.pure fun _ _ along => along
      · exact answered _ _ _
  | _ => exact Agree.bind request fun req => answered _ _ _

end Steps

section Parse
variable {σ₁ σ₂ : Type} {rfile₁ : FileReader Raised σ₁ UInt8} {rfile₂ : FileReader Raised σ₂ UInt8} {left₁ : σ₁ → Bytes} {left₂ : σ₂ → Bytes}
  {Good₁ : σ₁ → Prop} {Good₂ : σ₂ → Prop} {earlier rest₁ rest₂ H line : Bytes} {fuel : Nat} {K : HTTPRequest → Prop} {srv : Server}
  {lines : List HeaderLine}

/-- The text `H` is still to come on both connections. -/
abbrev BothAt (left₁ : σ₁ → Bytes) (left₂ : σ₂ → Bytes) (Good₁ : σ₁ → Prop) (Good₂ : σ₂ → Prop) (rest₁ rest₂ : Bytes)
    (fuel : Nat) (H : Bytes) (w₁ : Wrapped σ₁ SizeCheck) (w₂ : Wrapped σ₂ SizeCheck) : Prop :=
  LinesAt left₁ Good₁ rest₁ fuel H w₁ ∧ LinesAt left₂ Good₂ rest₂ fuel H w₂

/-- The same exchange on two connections. -/
abbrev Parsing (files : Wrapped σ₁ SizeCheck → Wrapped σ₂ SizeCheck → Prop) (earlier : Bytes) (K : HTTPRequest → Prop)
    (w₁ : Wrapped (Wrapped σ₁ SizeCheck) Exchange) (w₂ : Wrapped (Wrapped σ₂ SizeCheck) Exchange) : Prop :=
  Along earlier K w₁.own w₂.own ∧ files w₁.rfile w₂.rfile

abbrev FailedParse (earlier : Bytes) (e : Raised) (w₁ : Wrapped (Wrapped σ₁ SizeCheck) Exchange)
    (w₂ : Wrapped (Wrapped σ₂ SizeCheck) Exchange) : Prop := Failed earlier Unready e w₁.own w₂.own

variable (reads₁ : rfile₁.Reads newline left₁ Good₁) (reads₂ : rfile₂.Reads newline left₂ Good₂)
include reads₁ reads₂

/-- The next line is the same on both connections, whatever comes behind the head. -/
theorem nextLine_agree (before : newline ∉ line) :
    Agree (Parsing (BothAt left₁ left₂ Good₁ Good₂ rest₁ rest₂ fuel (line ++ newline :: H)) earlier Unready) (nextLine rfile₁ fuel)
      (nextLine rfile₂ fuel)
      (fun a w₁ w₂ => Parsing (BothAt left₁ left₂ Good₁ Good₂ rest₁ rest₂ fuel H) earlier Unready w₁ w₂ ∧ a = line ++ [newline])
      (FailedParse earlier) := by
  rintro w₁ w₂ ⟨along, at₁, at₂⟩
  obtain ⟨s₁, run₁, at₁'⟩ := sizeCheckReadline_readsLines reads₁ before at₁
  obtain ⟨s₂, run₂, at₂'⟩ := sizeCheckReadline_readsLines reads₂ before at₂
  rw [nextLine, nextLine, inner_ok run₁, inner_ok run₂]
  exact .ok ⟨⟨along, at₁', at₂'⟩, rfl⟩

/-- A request line is read in the same way on both connections. -/
theorem readRequestLine_agree (before : newline ∉ line) (some_ : line ≠ []) :
    Agree (Parsing (BothAt left₁ left₂ Good₁ Good₂ rest₁ rest₂ fuel (line ++ CRLF ++ H)) earlier Unready)
      (readRequestLine srv rfile₁ fuel) (readRequestLine srv rfile₂ fuel)
      (fun _ => Parsing (BothAt left₁ left₂ Good₁ Good₂ rest₁ rest₂ fuel H) earlier Unready) (FailedParse earlier) := by
  have ends : line ++ CRLF ++ H = (line ++ [13]) ++ newline :: H := by simp [CRLF, newline]
  have before' : newline ∉ line ++ [13] := by simpa [newline] using before
  rw [ends]
  refine Agree.bind (nextLine_agree reads₁ reads₂ before') fun a => Agree.of_and ?_
  rintro rfl
  have goesOn : ¬ (line ++ [13] ++ [newline] = CRLF) := by
    intro same
    exact some_ (by simpa [CRLF, newline] using same)
  refine Agree.bind ((framed_setReq (by intro _; rfl)).outer _) fun _ => ?_
  rw [if_neg (by simp), if_neg goesOn, if_neg (by simp), if_neg goesOn]
  exact (framed_parseRequestLine _).outer _

/-- And the headers are. -/
theorem readRequestHeaders_agree (formed : ∀ line ∈ lines, line.WellFormed) (starts : Starts lines) :
    Agree (Parsing (BothAt left₁ left₂ Good₁ Good₂ rest₁ rest₂ fuel (lines.flatMap HeaderLine.render ++ CRLF)) earlier Unready)
      (readRequestHeaders srv rfile₁ fuel) (readRequestHeaders srv rfile₂ fuel)
      (fun success => Parsing (BothAt left₁ left₂ Good₁ Good₂ rest₁ rest₂ fuel []) earlier
        fun req => Unready req ∧ (success → Accepted (headersOf lines) req)) (FailedParse earlier) := by
  have read : Agree
      (Parsing (BothAt left₁ left₂ Good₁ Good₂ rest₁ rest₂ fuel (lines.flatMap HeaderLine.render ++ CRLF)) earlier Unready)
      (attempt (Wrapped.inner (readHeaders (sizeCheckReadline rfile₁ fuel none) fuel fun _ => none)))
      (attempt (Wrapped.inner (readHeaders (sizeCheckReadline rfile₂ fuel none) fuel fun _ => none)))
      (fun r w₁ w₂ => Parsing (BothAt left₁ left₂ Good₁ Good₂ rest₁ rest₂ fuel []) earlier Unready w₁ w₂ ∧ r = .ok (headersOf lines))
      (FailedParse earlier) := by
    rintro w₁ w₂ ⟨along, at₁, at₂⟩
    have few : lines.length < fuel := Nat.lt_of_le_of_lt (length_le_render lines) at₁.enough
    obtain ⟨s₁, run₁, at₁'⟩ := readHeaders_reads (sizeCheckReadline_readsLines reads₁) formed starts at₁ few
    obtain ⟨s₂, run₂, at₂'⟩ := readHeaders_reads (sizeCheckReadline_readsLines reads₂) formed starts at₂ few
    rw [attempt, attempt, inner_ok run₁, inner_ok run₂]
    exact .ok ⟨⟨along, at₁', at₂'⟩, rfl⟩
  refine Agree.bind read fun r => Agree.of_and ?_
  rintro rfl
  exact (acceptHeaders_agree _).outer _

/-- The head of a request is read, whatever comes behind it. -/
theorem parseRequest_agree (rest₁ rest₂ : Bytes) (before : newline ∉ line) (some_ : line ≠ []) (formed : ∀ line ∈ lines, line.WellFormed)
    (starts : Starts lines) :
    Agree (Parsing (BothAt left₁ left₂ Good₁ Good₂ rest₁ rest₂ fuel (line ++ CRLF ++ (lines.flatMap HeaderLine.render ++ CRLF)))
        earlier Unready)
      (parseRequest srv rfile₁ fuel) (parseRequest srv rfile₂ fuel)
      (fun _ w₁ w₂ => Along earlier Any w₁.own w₂.own ∧ (w₂.own.req.ready → Accepted (headersOf lines) w₂.own.req ∧ w₂.own.req.sent_headers = false ∧
        BothAt left₁ left₂ Good₁ Good₂ rest₁ rest₂ fuel [] w₁.rfile w₂.rfile)) fun e w₁ w₂ => Failed earlier Any e w₁.own w₂.own := by
  -- a failure of the two parts, where no line has been read
  have failed : ∀ (e : Raised) (status msg : Bytes), Agree (FailedParse earlier e)
      (outer (simpleResponse srv status msg) : ParseM σ₁ Unit) (outer (simpleResponse srv status msg))
      (fun _ w₁ w₂ => Along earlier Any w₁.own w₂.own ∧ (w₂.own.req.ready → Accepted (headersOf lines) w₂.own.req ∧ w₂.own.req.sent_headers = false ∧
        BothAt left₁ left₂ Good₁ Good₂ rest₁ rest₂ fuel [] w₁.rfile w₂.rfile)) fun e w₁ w₂ => Failed earlier Any e w₁.own w₂.own := by
    intro e status msg
    refine ((framed_refuse status msg).outer fun _ _ => True).weaken (fun _ _ failed => ⟨failed.2, trivial⟩) ?_ ?_
    · rintro _ w₁ w₂ ⟨along, -⟩
      refine ⟨along.weaken fun _ _ => trivial, fun ready => ?_⟩
      have unready : w₂.own.req.ready = false := congrArg Prod.fst along.holds
      rw [unready] at ready
      exact nomatch ready
    · rintro e w₁ w₂ ⟨other, along⟩
      exact ⟨other, along.weaken fun _ _ => trivial⟩
  have rethrown : ∀ e : Raised, Agree (FailedParse earlier e) (throw e : ParseM σ₁ Unit) (throw e : ParseM σ₂ Unit)
      (fun _ w₁ w₂ => Along earlier Any w₁.own w₂.own ∧ (w₂.own.req.ready → Accepted (headersOf lines) w₂.own.req ∧ w₂.own.req.sent_headers = false ∧
        BothAt left₁ left₂ Good₁ Good₂ rest₁ rest₂ fuel [] w₁.rfile w₂.rfile)) fun e w₁ w₂ => Failed earlier Any e w₁.own w₂.own :=
    fun e => Agree.throw fun _ _ failed => ⟨failed.1, failed.2.weaken fun _ _ => trivial⟩
  refine Agree.bind (readRequestLine_agree reads₁ reads₂ before some_).attempt fun r => ?_
  cases r with
  | error e =>
    cases e with
    | maxSizeExceeded args => exact failed (.maxSizeExceeded args) _ _
    | _ => exact rethrown _
  | ok =>
    refine Agree.bind (readRequestHeaders_agree reads₁ reads₂ formed starts).attempt fun r => ?_
    cases r with
    | error e =>
      cases e with
      | maxSizeExceeded args => exact failed (.maxSizeExceeded args) _ _
      | _ => exact rethrown _
    | ok success =>
      cases success with
      | false =>
        refine Agree.pure ?_
        rintro w₁ w₂ ⟨along, -⟩
        refine ⟨along.weaken fun _ _ => trivial, fun ready => ?_⟩
        have unready : w₂.own.req.ready = false := congrArg Prod.fst along.holds.1
        rw [unready] at ready
        exact nomatch ready
      | true =>
        rintro w₁ w₂ ⟨along, both⟩
        have same := congrArg (fun req : HTTPRequest => { req with ready := true }) along.req
        exact .ok ⟨⟨same, along.gateway, along.wfile, trivial⟩, fun _ => ⟨along.holds.2 rfl, congrArg Prod.snd along.holds.1, both⟩⟩

/-- At the end of the connection the empty line is taken for a request, and the headers for malformed. -/
theorem parseEnd_agree :
    Agree (Parsing (BothAt left₁ left₂ Good₁ Good₂ [] [] fuel []) earlier Unready) (parseRequest srv rfile₁ fuel)
      (parseRequest srv rfile₂ fuel) (fun _ => Parsing (BothAt left₁ left₂ Good₁ Good₂ [] [] fuel []) earlier Unready)
      fun _ _ _ => False := by
  have line : Agree (Parsing (BothAt left₁ left₂ Good₁ Good₂ [] [] fuel []) earlier Unready) (nextLine rfile₁ fuel)
      (nextLine rfile₂ fuel)
      (fun a w₁ w₂ => Parsing (BothAt left₁ left₂ Good₁ Good₂ [] [] fuel []) earlier Unready w₁ w₂ ∧ a = []) fun _ _ _ => False := by
    rintro w₁ w₂ ⟨along, at₁, at₂⟩
    obtain ⟨s₁, run₁, at₁'⟩ := sizeCheckReadline_end reads₁ at₁
    obtain ⟨s₂, run₂, at₂'⟩ := sizeCheckReadline_end reads₂ at₂
    rw [nextLine, nextLine, inner_ok run₁, inner_ok run₂]
    exact .ok ⟨⟨along, at₁', at₂'⟩, rfl⟩
  have first : Agree (Parsing (BothAt left₁ left₂ Good₁ Good₂ [] [] fuel []) earlier Unready) (readRequestLine srv rfile₁ fuel)
      (readRequestLine srv rfile₂ fuel) (fun _ => Parsing (BothAt left₁ left₂ Good₁ Good₂ [] [] fuel []) earlier Unready)
      fun _ _ _ => False := by
    refine Agree.bind line fun a => Agree.of_and ?_
    rintro rfl
    refine Agree.bind ((setReq_agree Unready (by intro _ unready; exact unready)).outer_returns
      (BothAt left₁ left₂ Good₁ Good₂ [] [] fuel [])) fun _ => ?_
    rw [if_pos rfl, if_pos rfl]
    refine (setReq_agree Unready fun req unready => ?_).outer_returns (BothAt left₁ left₂ Good₁ Good₂ [] [] fuel [])
    exact congrArg (Prod.mk false) (congrArg Prod.snd unready)
  have headers : Agree (Parsing (BothAt left₁ left₂ Good₁ Good₂ [] [] fuel []) earlier Unready) (readRequestHeaders srv rfile₁ fuel)
      (readRequestHeaders srv rfile₂ fuel)
      (fun success w₁ w₂ => Parsing (BothAt left₁ left₂ Good₁ Good₂ [] [] fuel []) earlier Unready w₁ w₂ ∧ success = false)
      fun _ _ _ => False := by
    have read : Agree (Parsing (BothAt left₁ left₂ Good₁ Good₂ [] [] fuel []) earlier Unready)
        (attempt (Wrapped.inner (readHeaders (sizeCheckReadline rfile₁ fuel none) fuel fun _ => none)))
        (attempt (Wrapped.inner (readHeaders (sizeCheckReadline rfile₂ fuel none) fuel fun _ => none)))
        (fun r w₁ w₂ => Parsing (BothAt left₁ left₂ Good₁ Good₂ [] [] fuel []) earlier Unready w₁ w₂ ∧
          r = .error (.valueError "Illegal end of headers." none)) fun _ _ _ => False := by
      rintro w₁ w₂ ⟨along, at₁, at₂⟩
      obtain ⟨fuel, rfl⟩ := Nat.exists_eq_succ_of_ne_zero (Nat.ne_of_gt at₁.enough)
      obtain ⟨s₁, run₁, at₁'⟩ := sizeCheckReadline_end reads₁ at₁
      obtain ⟨s₂, run₂, at₂'⟩ := sizeCheckReadline_end reads₂ at₂
      rw [attempt, attempt, Wrapped.inner, Wrapped.inner, readHeaders, readHeaders, headerLoop, headerLoop, bind_of_ok run₁, bind_of_ok run₂,
        if_pos rfl, if_pos rfl]
      exact .ok ⟨⟨along, at₁', at₂'⟩, rfl⟩
    refine Agree.bind read fun r => Agree.of_and ?_
    rintro rfl
    refine Agree.bind ((simpleResponse_agree (fun _ _ unready => unready) _ _).outer_returns
      (BothAt left₁ left₂ Good₁ Good₂ [] [] fuel [])) fun _ => ?_
    exact Agree.pure fun _ _ parsing => ⟨parsing, rfl⟩
  refine Agree.bind first.attempt fun r => ?_
  cases r with
  | error e => exact fun _ _ impossible => impossible.elim
  | ok =>
    refine Agree.bind headers.attempt fun r => ?_
    cases r with
    | error e => exact fun _ _ impossible => impossible.elim
    | ok success =>
      refine Agree.of_and ?_
      rintro rfl
      exact Agree.pure fun _ _ parsing => parsing

end Parse

end CodeClips.CherryPy
