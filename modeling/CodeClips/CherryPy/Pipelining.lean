import CodeClips.CherryPy.RequestHead

/-!
# Requests one behind another

A connection on which several requests are sent, cut into pieces anyhow, gives each request the answer that it
gets by itself: what an application leaves of its body is not read as the next request, and what it is
given is never of the next one.
-/

namespace CodeClips.CherryPy
open Wrapped

/-- The text of a file that is all there. -/
def textFile : FileReader Raised Bytes UInt8 where
  read size := fun s => .ok (upTo size s) (s.drop (upTo size s).length)
  readline size := fun s => .ok (lineUpTo newline size s) (s.drop (lineUpTo newline size s).length)

/-- A text is a file that is faithful. -/
theorem textFile_reads : textFile.Reads newline id fun _ => True where
  read := fun {s} _ size => ⟨_, rfl, (append_drop_of_front (upTo_front size s)).symm, trivial⟩
  readline := fun {s} _ size => ⟨_, rfl, (append_drop_of_front (lineUpTo_front newline size s)).symm, trivial⟩

section Body
variable {σ₁ σ₂ : Type} {rfile₁ : FileReader Raised σ₁ UInt8} {rfile₂ : FileReader Raised σ₂ UInt8} {left₁ : σ₁ → Bytes} {left₂ : σ₂ → Bytes}
  {Good₁ : σ₁ → Prop} {Good₂ : σ₂ → Prop} {earlier rest₁ rest₂ b : Bytes} {srv : Server} {size : Option Int}

/-- The body `b` is still to come. -/
structure BodyAt {σ : Type} (left : σ → Bytes) (Good : σ → Prop) (rest b : Bytes) (w : Wrapped σ KnownLength) : Prop where
  good : Good w.rfile
  stream : left w.rfile = b ++ rest
  counted : w.own.remaining = b.length

/-- What is left of the body. -/
theorem BodyAt.bodyLeft {σ : Type} {left : σ → Bytes} {Good : σ → Prop} {rest : Bytes} {w : Wrapped σ KnownLength}
    (at_ : BodyAt left Good rest b w) : bodyLeft left w = b := by
  rw [CherryPy.bodyLeft, at_.stream, at_.counted, Int.toNat_natCast, List.take_left]

/-- Some of the body is read. -/
theorem BodyAt.taken {σ : Type} {left : σ → Bytes} {Good : σ → Prop} {rest r : Bytes} {w w' : Wrapped σ KnownLength}
    (at_ : BodyAt left Good rest b w) (taken : Taken left Good w r w') (front : r <+: b) :
    BodyAt left Good rest (b.drop r.length) w' := by
  obtain ⟨b', rfl⟩ := front
  have counted := taken.counted
  have both := taken.stream
  rw [at_.counted, List.length_append] at counted
  rw [at_.stream, List.append_assoc] at both
  rw [List.drop_left]
  exact ⟨taken.good, (List.append_cancel_left both).symm, by omega⟩

/-- The same body is still to come on both connections. -/
abbrev Bodies (left₁ : σ₁ → Bytes) (left₂ : σ₂ → Bytes) (Good₁ : σ₁ → Prop) (Good₂ : σ₂ → Prop) (rest₁ rest₂ b : Bytes)
    (w₁ : Wrapped σ₁ KnownLength) (w₂ : Wrapped σ₂ KnownLength) : Prop :=
  BodyAt left₁ Good₁ rest₁ b w₁ ∧ BodyAt left₂ Good₂ rest₂ b w₂

/-- A size that is not negative, or none. -/
def PoliteSize (size : Option Int) : Prop := ∃ n, size = BodyCall.size n

variable (reads₁ : rfile₁.Reads newline left₁ Good₁) (reads₂ : rfile₂.Reads newline left₂ Good₂)
include reads₁ reads₂

/-- `read` gives the same of the body on both connections. -/
theorem knownLengthRead_agree (polite : PoliteSize size) :
    Agree (Bodies left₁ left₂ Good₁ Good₂ rest₁ rest₂ b) (knownLengthRead rfile₁ size) (knownLengthRead rfile₂ size)
      (fun r => Bodies left₁ left₂ Good₁ Good₂ rest₁ rest₂ (b.drop r.length)) fun _ _ _ => False := by
  obtain ⟨n, rfl⟩ := polite
  rintro w₁ w₂ ⟨at₁, at₂⟩
  obtain ⟨w₁', run₁, taken₁⟩ := knownLengthRead_takes reads₁ at₁.good (by rw [at₁.counted]; omega) n
  obtain ⟨w₂', run₂, taken₂⟩ := knownLengthRead_takes reads₂ at₂.good (by rw [at₂.counted]; omega) n
  rw [at₁.bodyLeft] at run₁ taken₁
  rw [at₂.bodyLeft] at run₂ taken₂
  rw [run₁, run₂]
  exact .ok ⟨at₁.taken taken₁ (upTo_front _ b), at₂.taken taken₂ (upTo_front _ b)⟩

theorem knownLengthReadline_agree (polite : PoliteSize size) :
    Agree (Bodies left₁ left₂ Good₁ Good₂ rest₁ rest₂ b) (knownLengthReadline rfile₁ size) (knownLengthReadline rfile₂ size)
      (fun r => Bodies left₁ left₂ Good₁ Good₂ rest₁ rest₂ (b.drop r.length)) fun _ _ _ => False := by
  obtain ⟨n, rfl⟩ := polite
  rintro w₁ w₂ ⟨at₁, at₂⟩
  obtain ⟨w₁', run₁, taken₁⟩ := knownLengthReadline_takes reads₁ at₁.good (by rw [at₁.counted]; omega) n
  obtain ⟨w₂', run₂, taken₂⟩ := knownLengthReadline_takes reads₂ at₂.good (by rw [at₂.counted]; omega) n
  rw [at₁.bodyLeft] at run₁ taken₁
  rw [at₂.bodyLeft] at run₂ taken₂
  rw [run₁, run₂]
  exact .ok ⟨at₁.taken taken₁ (lineUpTo_front _ _ b), at₂.taken taken₂ (lineUpTo_front _ _ b)⟩

/-- The rest of the body is read on both connections. -/
theorem drain_agree :
    Agree (Bodies left₁ left₂ Good₁ Good₂ rest₁ rest₂ b) (drain rfile₁) (drain rfile₂)
      (fun _ => Bodies left₁ left₂ Good₁ Good₂ rest₁ rest₂ []) fun _ _ _ => False := by
  rintro w₁ w₂ ⟨at₁, at₂⟩
  obtain ⟨w₁', run₁, taken₁⟩ := drain_takes reads₁ at₁.good (by rw [at₁.counted]; omega)
  obtain ⟨w₂', run₂, taken₂⟩ := drain_takes reads₂ at₂.good (by rw [at₂.counted]; omega)
  rw [at₁.bodyLeft] at taken₁
  rw [at₂.bodyLeft] at taken₂
  have all₁ := at₁.taken taken₁ (List.prefix_refl b)
  have all₂ := at₂.taken taken₂ (List.prefix_refl b)
  rw [List.drop_length] at all₁ all₂
  rw [run₁, run₂]
  exact .ok ⟨all₁, all₂⟩

end Body

section Respond
variable {σ₁ σ₂ : Type} {rfile₁ : FileReader Raised σ₁ UInt8} {rfile₂ : FileReader Raised σ₂ UInt8} {left₁ : σ₁ → Bytes} {left₂ : σ₂ → Bytes}
  {Good₁ : σ₁ → Prop} {Good₂ : σ₂ → Prop} {earlier rest₁ rest₂ b chunk : Bytes} {srv : Server} {K : HTTPRequest → Prop}

/-- Once the headers are sent on a connection that stays open, nothing is left of the body. -/
def Drained (b : Bytes) (req : HTTPRequest) : Prop :=
  req.chunked_read = false ∧ (req.sent_headers → req.close_connection = false → b = [])

/-- The headers are sent, and nothing is left of the body if the connection stays open. -/
def Answered (b : Bytes) (req : HTTPRequest) : Prop :=
  req.chunked_read = false ∧ req.sent_headers ∧ (req.close_connection = false → b = [])

theorem Answered.drained {req : HTTPRequest} (answered : Answered b req) : Drained b req :=
  ⟨answered.1, fun _ => answered.2.2⟩

theorem closable_drained : Closable (Drained b) := by
  rintro req more ⟨known, drained⟩
  refine ⟨known, fun sent goesOn => drained sent ?_⟩
  exact (Bool.or_eq_false_iff.mp goesOn).1

/-- A chunk is sent on both, in the one framing or the other. -/
theorem framed_requestWrite (chunk : Bytes) : Framed earlier K (requestWrite chunk) :=
  framed_getReq.bind fun _ => sendall_agree _

theorem framed_lastChunk : Framed earlier K lastChunk := framed_getReq.bind fun _ => sendall_agree _

/-- The response is started on both, or fails on both. -/
theorem framed_startResponse (status : Bytes) (headers : List (Bytes × Bytes)) :
    Framed earlier (Drained b) (startResponse status headers) := by
  refine framed_getGateway.bind fun gateway => ?_
  split
  · exact framed_throw nofun
  · refine (framed_setGateway _).bind fun _ => ?_
    refine Agree.bind (setReq_agree (Drained b) fun _ drained => drained) fun _ => ?_
    refine (framed_raiseOr fun e error => declaredLength_error error).bind fun length => ?_
    exact (framed_setGateway _).bind fun _ => setReq_agree (Drained b) fun _ drained => drained

/-- The chunk is cut on both, or a response is sent to both. -/
theorem framed_fitChunk (chunk : Bytes) (rbo : Option Int) : Framed earlier (Drained b) (fitChunk srv chunk rbo) := by
  refine framed_getReq.bind fun req => ?_
  cases rbo with
  | none => exact framed_pure chunk
  | some n =>
    dsimp only
    split
    · split
      · exact framed_pure _
      · exact Agree.bind (simpleResponse_agree closable_drained _ _) fun _ => framed_pure chunk
    · exact framed_pure chunk

/-- The same exchange, and the same body still to come. -/
abbrev Answering (left₁ : σ₁ → Bytes) (left₂ : σ₂ → Bytes) (Good₁ : σ₁ → Prop) (Good₂ : σ₂ → Prop) (rest₁ rest₂ earlier : Bytes)
    (K : Bytes → HTTPRequest → Prop) (b : Bytes) (w₁ : Wrapped (Wrapped σ₁ KnownLength) Exchange)
    (w₂ : Wrapped (Wrapped σ₂ KnownLength) Exchange) : Prop :=
  Along earlier (K b) w₁.own w₂.own ∧ Bodies left₁ left₂ Good₁ Good₂ rest₁ rest₂ b w₁.rfile w₂.rfile

abbrev FailedAnswer (earlier : Bytes) (e : Raised) (w₁ : Wrapped (Wrapped σ₁ KnownLength) Exchange)
    (w₂ : Wrapped (Wrapped σ₂ KnownLength) Exchange) : Prop := Failed earlier Any e w₁.own w₂.own

/-- A part of the answer that leaves the body alone. -/
theorem answer_outer {α : Type} {K : Bytes → HTTPRequest → Prop} {x : ExchangeM α} (framed : Framed earlier (K b) x) :
    Agree (Answering left₁ left₂ Good₁ Good₂ rest₁ rest₂ earlier K b) (outer x) (outer x)
      (fun _ => Answering left₁ left₂ Good₁ Good₂ rest₁ rest₂ earlier K b) (FailedAnswer earlier) :=
  (framed.outer (Bodies left₁ left₂ Good₁ Good₂ rest₁ rest₂ b)).weaken (fun _ _ before => before) (fun _ _ _ after => after)
    fun _ _ _ failed => ⟨failed.1, failed.2.weaken fun _ _ => trivial⟩

theorem frameResponse_keeps (hkeys : List Bytes) (status : Int) (req : HTTPRequest) :
    (frameResponse hkeys status req).chunked_read = req.chunked_read ∧
      (frameResponse hkeys status req).sent_headers = req.sent_headers := by
  unfold frameResponse
  repeat' split
  all_goals exact ⟨rfl, rfl⟩

theorem tellConnection_keeps (hkeys : List Bytes) (req : HTTPRequest) :
    (tellConnection hkeys req).chunked_read = req.chunked_read ∧ (tellConnection hkeys req).sent_headers = req.sent_headers := by
  unfold tellConnection
  repeat' split
  all_goals exact ⟨rfl, rfl⟩

theorem addHeader_keeps (hkeys : List Bytes) (key k v : Bytes) (req : HTTPRequest) (answered : Answered b req) :
    Answered b (addHeader hkeys key k v req) := by
  unfold addHeader
  split <;> exact answered

/-- `sent_headers` is set, and the body has not been drained yet. -/
def Sending (_ : Bytes) (req : HTTPRequest) : Prop := req.chunked_read = false ∧ req.sent_headers

variable (reads₁ : rfile₁.Reads newline left₁ Good₁) (reads₂ : rfile₂.Reads newline left₂ Good₂)
include reads₁ reads₂

/-- Where the connection stays open, the body has been read on both. -/
theorem drainBody_agree :
    Agree (Answering left₁ left₂ Good₁ Good₂ rest₁ rest₂ earlier Sending b) (drainBody (knownLengthFile rfile₁))
      (drainBody (knownLengthFile rfile₂))
      (fun _ w₁ w₂ => ∃ b, Answering left₁ left₂ Good₁ Good₂ rest₁ rest₂ earlier Answered b w₁ w₂) (FailedAnswer earlier) := by
  refine Agree.bind ((getReq_agree).outer (Bodies left₁ left₂ Good₁ Good₂ rest₁ rest₂ b)) fun req => ?_
  split
  · refine ((drain_agree reads₁ reads₂).inner).weaken (fun _ _ before => before) ?_ fun _ _ _ failed => failed
    rintro _ w₁ w₂ ⟨along, bodies⟩
    exact ⟨[], along.weaken fun _ both => ⟨both.1.1, both.1.2, fun _ => rfl⟩, bodies⟩
  · rename_i closes
    refine Agree.pure ?_
    rintro w₁ w₂ ⟨along, bodies⟩
    refine ⟨b, along.weaken ?_, bodies⟩
    rintro req' ⟨⟨known, sent⟩, rfl⟩
    exact ⟨known, sent, fun goesOn => absurd ⟨by simp [goesOn], by simp [known]⟩ closes⟩

/-- The same headers are sent on both. -/
theorem sendHeaders_agree :
    Agree (Answering left₁ left₂ Good₁ Good₂ rest₁ rest₂ earlier Drained b) (sendHeaders srv (knownLengthFile rfile₁))
      (sendHeaders srv (knownLengthFile rfile₂))
      (fun _ w₁ w₂ => ∃ b, Answering left₁ left₂ Good₁ Good₂ rest₁ rest₂ earlier Answered b w₁ w₂) (FailedAnswer earlier) := by
  have sent : ∀ req, Drained b req → Sending b { req with sent_headers := true } := fun _ drained => ⟨drained.1, rfl⟩
  refine Agree.bind ((setReq_agree (Sending b) sent).outer (Bodies left₁ left₂ Good₁ Good₂ rest₁ rest₂ b)) fun _ => ?_
  refine Agree.bind (answer_outer framed_getReq) fun req => ?_
  refine Agree.bind (answer_outer (framed_raiseOr fun e error => int_error error)) fun status => ?_
  have framing : ∀ req', Sending b req' → Sending b (tellConnection (outKeys req) (frameResponse (outKeys req) status req')) := by
    rintro req' ⟨known, sent⟩
    obtain ⟨known', sent'⟩ := frameResponse_keeps (outKeys req) status req'
    obtain ⟨known'', sent''⟩ := tellConnection_keeps (outKeys req) (frameResponse (outKeys req) status req')
    exact ⟨by rw [known'', known', known], by rw [sent'', sent', sent]⟩
  refine Agree.bind ((setReq_agree (Sending b) framing).outer (Bodies left₁ left₂ Good₁ Good₂ rest₁ rest₂ b)) fun _ => ?_
  refine Agree.bind (drainBody_agree reads₁ reads₂) fun _ => Agree.of_exists fun b => ?_
  have adding : ∀ req', Answered b req' → Answered b (addHeader (outKeys req) (ascii "server") (ascii "Server") srv.server_name
      (addHeader (outKeys req) (ascii "date") (ascii "Date") srv.date req')) := fun req' answered =>
    addHeader_keeps _ _ _ _ _ (addHeader_keeps _ _ _ _ _ answered)
  refine Agree.bind ((setReq_agree (Answered b) adding).outer (Bodies left₁ left₂ Good₁ Good₂ rest₁ rest₂ b)) fun _ => ?_
  refine Agree.bind (answer_outer framed_getReq) fun req => ?_
  exact (answer_outer (sendall_agree _)).weaken (fun _ _ before => before) (fun _ _ _ after => ⟨b, after⟩) fun _ _ _ failed => failed

theorem sendHeadersOnce_agree :
    Agree (Answering left₁ left₂ Good₁ Good₂ rest₁ rest₂ earlier Drained b) (sendHeadersOnce srv (knownLengthFile rfile₁))
      (sendHeadersOnce srv (knownLengthFile rfile₂))
      (fun _ w₁ w₂ => ∃ b, Answering left₁ left₂ Good₁ Good₂ rest₁ rest₂ earlier Answered b w₁ w₂) (FailedAnswer earlier) := by
  refine Agree.bind (getReq_agree.outer (Bodies left₁ left₂ Good₁ Good₂ rest₁ rest₂ b)) fun req => ?_
  split
  · rename_i sent
    refine Agree.pure ?_
    rintro w₁ w₂ ⟨along, bodies⟩
    refine ⟨b, along.weaken ?_, bodies⟩
    rintro req' ⟨⟨known, drained⟩, rfl⟩
    exact ⟨known, sent, drained sent⟩
  · exact (sendHeaders_agree reads₁ reads₂).weaken
      (fun _ _ before => ⟨Along.weaken before.1 fun _ both => both.1, before.2⟩) (fun _ _ _ after => after) fun _ _ _ failed => failed

/-- A chunk of the application is sent on both. -/
theorem gatewayWrite_agree :
    Agree (Answering left₁ left₂ Good₁ Good₂ rest₁ rest₂ earlier Drained b) (gatewayWrite srv (knownLengthFile rfile₁) chunk)
      (gatewayWrite srv (knownLengthFile rfile₂) chunk)
      (fun _ w₁ w₂ => ∃ b, Answering left₁ left₂ Good₁ Good₂ rest₁ rest₂ earlier Drained b w₁ w₂) (FailedAnswer earlier) := by
  refine Agree.bind (answer_outer framed_getGateway) fun gateway => ?_
  split
  · exact Agree.throw fun _ _ before => ⟨nofun, Along.weaken before.1 fun _ _ => trivial⟩
  · refine Agree.bind (answer_outer (framed_fitChunk _ _)) fun fitted => ?_
    refine Agree.bind (sendHeadersOnce_agree reads₁ reads₂) fun _ => Agree.of_exists fun b => ?_
    refine Agree.bind (answer_outer (framed_requestWrite _)) fun _ => ?_
    have drained : ∀ w₁ w₂, Answering left₁ left₂ Good₁ Good₂ rest₁ rest₂ earlier Answered b w₁ w₂ →
        ∃ b, Answering left₁ left₂ Good₁ Good₂ rest₁ rest₂ earlier Drained b w₁ w₂ :=
      fun _ _ before => ⟨b, Along.weaken before.1 fun _ answered => answered.drained, before.2⟩
    split
    · exact Agree.pure drained
    · split
      · exact Agree.throw fun _ _ before => ⟨nofun, Along.weaken before.1 fun _ _ => trivial⟩
      · exact Agree.pure drained

end Respond

/-- The application reads the body with sizes that are not negative. -/
def App.Polite : App → Prop
  | .read size next => PoliteSize size ∧ ∀ data, (next data).Polite
  | .readline size next => PoliteSize size ∧ ∀ data, (next data).Polite
  | .start_response _ _ next => next.Polite
  | .write _ next => next.Polite
  | .yields _ next => next.Polite
  | .raises e => e ≠ .running
  | .returns => True

/-- A request as it is sent. -/
structure Message where
  line : Bytes
  lines : List HeaderLine
  body : Bytes

namespace Message

/-- A request up to its empty line. -/
def head (m : Message) : Bytes := m.line ++ CRLF ++ (m.lines.flatMap HeaderLine.render ++ CRLF)

/-- A request as it is sent. -/
def render (m : Message) : Bytes := m.head ++ m.body

/-- The lines end where they should and are within the limit, and the headers tell the length of the body. -/
structure WellFormed (srv : Server) (m : Message) : Prop where
  line : newline ∉ m.line
  some_ : m.line ≠ []
  lines : ∀ line ∈ m.lines, line.WellFormed
  starts : Starts m.lines
  within : srv.max_request_header_size = 0 ∨ m.head.length ≤ srv.max_request_header_size
  whole : headersOf m.lines (ascii "Transfer-Encoding") = none
  length : contentLength (headersOf m.lines) = .ok m.body.length

end Message

section Turns
variable {σ₁ σ₂ : Type} {rfile₁ : FileReader Raised σ₁ UInt8} {rfile₂ : FileReader Raised σ₂ UInt8} {left₁ : σ₁ → Bytes} {left₂ : σ₂ → Bytes}
  {Good₁ : σ₁ → Prop} {Good₂ : σ₂ → Prop} {earlier rest₁ rest₂ b : Bytes} {srv : Server} {wsgi_app : Environ → App} {fuel : Nat}
  (reads₁ : rfile₁.Reads newline left₁ Good₁) (reads₂ : rfile₂.Reads newline left₂ Good₂)
include reads₁ reads₂

/-- The application does the same on both connections. -/
theorem runApp_agree (app : App) (polite : app.Polite) :
    Agree (Answering left₁ left₂ Good₁ Good₂ rest₁ rest₂ earlier Drained b) (runApp srv (knownLengthFile rfile₁) app)
      (runApp srv (knownLengthFile rfile₂) app)
      (fun _ w₁ w₂ => ∃ b, Answering left₁ left₂ Good₁ Good₂ rest₁ rest₂ earlier Drained b w₁ w₂) (FailedAnswer earlier) := by
  -- less of the body is left
  have shorter : ∀ (b : Bytes) (n : Nat) (w₁ : Wrapped (Wrapped σ₁ KnownLength) Exchange)
      (w₂ : Wrapped (Wrapped σ₂ KnownLength) Exchange),
      Along earlier (Drained b) w₁.own w₂.own ∧ Bodies left₁ left₂ Good₁ Good₂ rest₁ rest₂ (b.drop n) w₁.rfile w₂.rfile →
      Answering left₁ left₂ Good₁ Good₂ rest₁ rest₂ earlier Drained (b.drop n) w₁ w₂ := by
    rintro b n w₁ w₂ ⟨along, bodies⟩
    refine ⟨along.weaken ?_, bodies⟩
    rintro req ⟨known, drained⟩
    exact ⟨known, fun sent goesOn => by rw [drained sent goesOn, List.drop_nil]⟩
  induction app generalizing b with
  | read size next ih =>
    refine Agree.bind ((knownLengthRead_agree reads₁ reads₂ polite.1).inner) fun data => ?_
    exact (ih data (polite.2 data)).weaken (shorter b data.length) (fun _ _ _ after => after) fun _ _ _ failed => failed
  | readline size next ih =>
    refine Agree.bind ((knownLengthReadline_agree reads₁ reads₂ polite.1).inner) fun data => ?_
    exact (ih data (polite.2 data)).weaken (shorter b data.length) (fun _ _ _ after => after) fun _ _ _ failed => failed
  | start_response status headers next ih => exact Agree.bind (answer_outer (framed_startResponse _ _)) fun _ => ih polite
  | write chunk next ih => exact Agree.bind (gatewayWrite_agree reads₁ reads₂) fun _ => Agree.of_exists fun b => ih polite
  | yields chunk next ih =>
    have item : Agree (Answering left₁ left₂ Good₁ Good₂ rest₁ rest₂ earlier Drained b)
        (writeItem srv (knownLengthFile rfile₁) chunk) (writeItem srv (knownLengthFile rfile₂) chunk)
        (fun _ w₁ w₂ => ∃ b, Answering left₁ left₂ Good₁ Good₂ rest₁ rest₂ earlier Drained b w₁ w₂) (FailedAnswer earlier) := by
      unfold writeItem
      split
      · exact Agree.pure fun _ _ before => ⟨b, before⟩
      · exact gatewayWrite_agree reads₁ reads₂
    exact Agree.bind item fun _ => Agree.of_exists fun b => ih polite
  | raises e => exact Agree.throw fun _ _ before => ⟨polite, Along.weaken before.1 fun _ _ => trivial⟩
  | returns => exact Agree.pure fun _ _ before => ⟨b, before⟩

/-- And the gateway, with what it makes of the request. -/
theorem runGateway_agree (polite : ∀ env, (wsgi_app env).Polite) :
    Agree (Answering left₁ left₂ Good₁ Good₂ rest₁ rest₂ earlier Drained b) (runGateway srv (knownLengthFile rfile₁) wsgi_app)
      (runGateway srv (knownLengthFile rfile₂) wsgi_app)
      (fun _ w₁ w₂ => ∃ b, Answering left₁ left₂ Good₁ Good₂ rest₁ rest₂ earlier Answered b w₁ w₂) (FailedAnswer earlier) := by
  refine Agree.bind (answer_outer framed_getReq) fun req => ?_
  refine Agree.bind (answer_outer (framed_raiseOr fun e error => getEnviron_error error)) fun env => ?_
  refine Agree.bind (runApp_agree reads₁ reads₂ _ (polite env)) fun _ => Agree.of_exists fun b => ?_
  refine Agree.bind (sendHeadersOnce_agree reads₁ reads₂) fun _ => Agree.of_exists fun b => ?_
  exact (answer_outer framed_lastChunk).weaken (fun _ _ before => before) (fun _ _ _ after => ⟨b, after⟩) fun _ _ _ failed => failed

/-- The texts still to come on two connections, `H` and what is behind it. -/
abbrev Streams (left₁ : σ₁ → Bytes) (left₂ : σ₂ → Bytes) (Good₁ : σ₁ → Prop) (Good₂ : σ₂ → Prop) (rest₁ rest₂ H : Bytes)
    (s₁ : σ₁) (s₂ : σ₂) : Prop :=
  (Good₁ s₁ ∧ left₁ s₁ = H ++ rest₁) ∧ (Good₂ s₂ ∧ left₂ s₂ = H ++ rest₂)

omit reads₁ reads₂ in
/-- A request that is too large closes the connection. -/
theorem tooLarge_agree {K : HTTPRequest → Prop} {F : Raised → Exchange → Exchange → Prop} (msg : Bytes) :
    Agree (Along earlier K) (simpleResponse srv (ascii "413 Request Entity Too Large") msg)
      (simpleResponse srv (ascii "413 Request Entity Too Large") msg)
      (fun _ => Along earlier fun req => req.close_connection = true) F := by
  have closes : ∀ req : HTTPRequest, (req.close_connection || tooLarge (ascii "413 Request Entity Too Large")) = true :=
    fun req => Bool.or_true req.close_connection
  refine Agree.bind (setReq_agree (fun req => req.close_connection = true) fun req _ => closes req) fun _ => ?_
  refine Agree.bind getReq_agree fun req => ?_
  exact (sendall_agree _).weaken (fun _ _ along => along) (fun _ _ _ along => along.weaken fun _ both => both.1)
    fun _ _ _ failed => failed

/-- The body is read through its length, and the connection stands behind it if it stays open. -/
theorem wrapBody_agree (polite : ∀ env, (wsgi_app env).Polite) :
    Agree (fun w₁ w₂ => Along earlier (Drained b) w₁.own w₂.own ∧ Streams left₁ left₂ Good₁ Good₂ rest₁ rest₂ b w₁.rfile w₂.rfile)
      (wrapping ⟨b.length⟩ (runGateway srv (knownLengthFile rfile₁) wsgi_app))
      (wrapping ⟨b.length⟩ (runGateway srv (knownLengthFile rfile₂) wsgi_app))
      (fun _ w₁ w₂ => Along earlier Any w₁.own w₂.own ∧
        (w₂.own.req.close_connection = false → Good₁ w₁.rfile ∧ left₁ w₁.rfile = rest₁))
      fun e w₁ w₂ => Failed earlier Any e w₁.own w₂.own := by
  have gateway : Agree (Answering left₁ left₂ Good₁ Good₂ rest₁ rest₂ earlier Drained b)
      (runGateway srv (knownLengthFile rfile₁) wsgi_app) (runGateway srv (knownLengthFile rfile₂) wsgi_app)
      (fun _ w₁ w₂ => ∃ b, Answering left₁ left₂ Good₁ Good₂ rest₁ rest₂ earlier Answered b w₁ w₂) (FailedAnswer earlier) :=
    runGateway_agree reads₁ reads₂ polite
  refine gateway.wrapping ?_ ?_
  · rintro w₁ w₂ ⟨along, ⟨good₁, stream₁⟩, good₂, stream₂⟩
    exact ⟨along, ⟨good₁, stream₁, rfl⟩, good₂, stream₂, rfl⟩
  · rintro _ w₁ w₂ ⟨b, along, at₁, at₂⟩
    refine ⟨along.weaken fun _ _ => trivial, fun goesOn => ⟨at₁.good, ?_⟩⟩
    have none : b = [] := along.holds.2.2 goesOn
    show left₁ w₁.rfile.rfile = rest₁
    rw [at₁.stream, none, List.nil_append]

theorem respond_agree (rest₁ rest₂ : Bytes) {headers : HDict} (polite : ∀ env, (wsgi_app env).Polite) (whole : headers (ascii "Transfer-Encoding") = none)
    (length : contentLength headers = .ok b.length) :
    Agree (fun w₁ w₂ => Along earlier (fun req => Accepted headers req ∧ req.sent_headers = false) w₁.own w₂.own ∧
        Streams left₁ left₂ Good₁ Good₂ rest₁ rest₂ b w₁.rfile w₂.rfile)
      (respond srv wsgi_app rfile₁ fuel) (respond srv wsgi_app rfile₂ fuel)
      (fun _ w₁ w₂ => Along earlier Any w₁.own w₂.own ∧
        (w₂.own.req.close_connection = false → Good₁ w₁.rfile ∧ left₁ w₁.rfile = rest₁))
      fun e w₁ w₂ => Failed earlier Any e w₁.own w₂.own := by
  refine Agree.bind (getReq_agree.outer (Streams left₁ left₂ Good₁ Good₂ rest₁ rest₂ b)) fun req => ?_
  rintro w₁ w₂ ⟨along, streams⟩
  obtain ⟨⟨⟨same, known⟩, sent⟩, rfl⟩ := along.holds
  by_cases long : srv.max_request_body_size ≠ 0 ∧ (srv.max_request_body_size : Int) < b.length
  · have found : bodyOf srv w₂.own.req = .ok none := by
      unfold bodyOf
      rw [known whole, if_neg Bool.false_ne_true, same, length]
      exact if_pos long
    have refused : Agree (fun w₁ w₂ => Along earlier Any w₁.own w₂.own ∧ True)
        (outer (simpleResponse srv (ascii "413 Request Entity Too Large")
          (ascii "The entity sent with the request exceeds the maximum allowed bytes.")) : ConnectionM σ₁ Unit)
        (outer (simpleResponse srv (ascii "413 Request Entity Too Large")
          (ascii "The entity sent with the request exceeds the maximum allowed bytes.")) : ConnectionM σ₂ Unit)
        (fun _ w₁ w₂ => Along earlier (fun req => req.close_connection = true) w₁.own w₂.own ∧ True)
        fun e w₁ w₂ => Failed earlier Any e w₁.own w₂.own := (tooLarge_agree _).outer fun _ _ => True
    rw [found, sent]
    refine refused.weaken (fun _ _ before => before) ?_ (fun _ _ _ failed => failed) ⟨along.weaken fun _ _ => trivial, trivial⟩
    rintro _ w₁ w₂ ⟨along, -⟩
    refine ⟨along.weaken fun _ _ => trivial, fun goesOn => ?_⟩
    rw [along.holds] at goesOn
    exact nomatch goesOn
  · have found : bodyOf srv w₂.own.req = .ok (some (.inr ⟨b.length⟩)) := by
      unfold bodyOf
      rw [known whole, if_neg Bool.false_ne_true, same, length]
      exact if_neg long
    have start : Drained b w₂.own.req := ⟨known whole, fun sent' => by rw [sent] at sent'; exact nomatch sent'⟩
    rw [found]
    exact wrapBody_agree reads₁ reads₂ polite ⟨⟨along.req, along.gateway, along.wfile, start⟩, streams⟩

omit reads₁ reads₂ in
/-- Both connections begin with a new request. -/
theorem newRequest_agree {F : Raised → Exchange → Exchange → Prop} :
    Agree (fun x₁ x₂ => x₁.wfile = earlier ++ x₂.wfile) newRequest newRequest (fun _ => Along earlier Unready) F := by
  intro x₁ x₂ before
  exact .ok ⟨rfl, rfl, before, rfl⟩

omit reads₁ reads₂ in
theorem outer_getReq_agree {ρ₁ ρ₂ : Type} {P : Wrapped ρ₁ Exchange → Wrapped ρ₂ Exchange → Prop}
    {F : Raised → Wrapped ρ₁ Exchange → Wrapped ρ₂ Exchange → Prop} (same : ∀ w₁ w₂, P w₁ w₂ → w₁.own.req = w₂.own.req) :
    Agree P (outer getReq) (outer getReq) (fun req w₁ w₂ => P w₁ w₂ ∧ w₂.own.req = req) F := by
  intro w₁ w₂ before
  have run : (outer getReq : ConnectionM ρ₁ HTTPRequest) w₁ = .ok w₂.own.req w₁ := by
    rw [← same w₁ w₂ before]
    rfl
  rw [run]
  exact .ok ⟨before, rfl⟩

/-- One turn reads one request, whatever comes behind it. -/
theorem turn_agree {m : Message} (polite : ∀ env, (wsgi_app env).Polite) (formed : m.WellFormed srv) (enough : m.head.length < fuel) :
    Agree (fun w₁ w₂ => w₁.own.wfile = earlier ++ w₂.own.wfile ∧ Streams left₁ left₂ Good₁ Good₂ rest₁ [] m.render w₁.rfile w₂.rfile)
      (turn srv wsgi_app rfile₁ fuel) (turn srv wsgi_app rfile₂ fuel)
      (fun goesOn w₁ w₂ => w₁.own.wfile = earlier ++ w₂.own.wfile ∧ (goesOn → Good₁ w₁.rfile ∧ left₁ w₁.rfile = rest₁))
      fun e w₁ w₂ => Failed earlier Any e w₁.own w₂.own := by
  refine Agree.bind (newRequest_agree.outer (Streams left₁ left₂ Good₁ Good₂ rest₁ [] m.render)) fun _ => ?_
  have parse : Agree
      (fun w₁ w₂ => Along earlier Unready w₁.own w₂.own ∧ Streams left₁ left₂ Good₁ Good₂ rest₁ [] m.render w₁.rfile w₂.rfile)
      (wrapping ⟨srv.max_request_header_size, 0⟩ (parseRequest srv rfile₁ fuel))
      (wrapping ⟨srv.max_request_header_size, 0⟩ (parseRequest srv rfile₂ fuel))
      (fun _ w₁ w₂ => Along earlier Any w₁.own w₂.own ∧ (w₂.own.req.ready →
        Accepted (headersOf m.lines) w₂.own.req ∧ w₂.own.req.sent_headers = false ∧
        Streams left₁ left₂ Good₁ Good₂ rest₁ [] m.body w₁.rfile w₂.rfile))
      fun e w₁ w₂ => Failed earlier Any e w₁.own w₂.own := by
    refine (parseRequest_agree reads₁ reads₂ (m.body ++ rest₁) m.body formed.line formed.some_ formed.lines
      formed.starts).wrapping ?_ ?_
    · rintro w₁ w₂ ⟨along, ⟨good₁, stream₁⟩, good₂, stream₂⟩
      have within : srv.max_request_header_size = 0 ∨ 0 + m.head.length ≤ srv.max_request_header_size := by
        rw [Nat.zero_add]
        exact formed.within
      refine ⟨along, ⟨good₁, ?_, within, enough⟩, good₂, ?_, within, enough⟩
      · rw [stream₁, Message.render, List.append_assoc]
        rfl
      · rw [stream₂, Message.render, List.append_nil]
        rfl
    · rintro _ w₁ w₂ ⟨along, rest⟩
      refine ⟨along, fun ready => ?_⟩
      obtain ⟨accepted, sent, at₁, at₂⟩ := rest ready
      refine ⟨accepted, sent, ⟨at₁.good, at₁.stream⟩, at₂.good, ?_⟩
      rw [List.append_nil]
      exact at₂.stream
  refine Agree.bind parse fun _ => Agree.bind (outer_getReq_agree fun _ _ before => before.1.req) fun req => ?_
  split
  · exact Agree.pure fun _ _ before => ⟨before.1.1.wfile, nofun⟩
  · rename_i ready
    refine Agree.bind ((respond_agree reads₁ reads₂ rest₁ [] polite formed.whole formed.length).weaken ?_ (fun _ _ _ after => after)
      fun _ _ _ failed => failed) fun _ => Agree.bind (outer_getReq_agree fun _ _ before => before.1.req) fun req' => ?_
    · rintro w₁ w₂ ⟨⟨along, rest⟩, rfl⟩
      obtain ⟨accepted, sent, streams⟩ := rest (by simpa using ready)
      exact ⟨⟨along.req, along.gateway, along.wfile, accepted, sent⟩, streams⟩
    · refine Agree.pure ?_
      rintro w₁ w₂ ⟨⟨along, rest⟩, rfl⟩
      exact ⟨along.wfile, fun goesOn => rest (by simpa using goesOn)⟩

/-- The turn at the end of the connection. -/
theorem turnEnd_agree (enough : 0 < fuel) :
    Agree (fun w₁ w₂ => w₁.own.wfile = earlier ++ w₂.own.wfile ∧ Streams left₁ left₂ Good₁ Good₂ [] [] [] w₁.rfile w₂.rfile)
      (turn srv wsgi_app rfile₁ fuel) (turn srv wsgi_app rfile₂ fuel)
      (fun goesOn w₁ w₂ => w₁.own.wfile = earlier ++ w₂.own.wfile ∧ goesOn = false)
      fun e w₁ w₂ => Failed earlier Any e w₁.own w₂.own := by
  refine Agree.bind (newRequest_agree.outer (Streams left₁ left₂ Good₁ Good₂ [] [] [])) fun _ => ?_
  have returns : Agree (Parsing (BothAt left₁ left₂ Good₁ Good₂ [] [] fuel []) earlier Unready) (parseRequest srv rfile₁ fuel)
      (parseRequest srv rfile₂ fuel) (fun _ => Parsing (BothAt left₁ left₂ Good₁ Good₂ [] [] fuel []) earlier Unready)
      fun e w₁ w₂ => Failed earlier Any e w₁.own w₂.own :=
    (parseEnd_agree reads₁ reads₂).weaken (fun _ _ before => before) (fun _ _ _ after => after) fun _ _ _ => False.elim
  have parse : Agree
      (fun w₁ w₂ => Along earlier Unready w₁.own w₂.own ∧ Streams left₁ left₂ Good₁ Good₂ [] [] [] w₁.rfile w₂.rfile)
      (wrapping ⟨srv.max_request_header_size, 0⟩ (parseRequest srv rfile₁ fuel))
      (wrapping ⟨srv.max_request_header_size, 0⟩ (parseRequest srv rfile₂ fuel))
      (fun _ w₁ w₂ => Along earlier Unready w₁.own w₂.own) fun e w₁ w₂ => Failed earlier Any e w₁.own w₂.own := by
    refine returns.wrapping ?_ fun _ _ _ parsing => parsing.1
    rintro w₁ w₂ ⟨along, ⟨good₁, stream₁⟩, good₂, stream₂⟩
    exact ⟨along, ⟨good₁, stream₁, .inr (Nat.zero_le _), enough⟩, good₂, stream₂, .inr (Nat.zero_le _), enough⟩
  refine Agree.bind parse fun _ => Agree.bind (outer_getReq_agree fun _ _ before => before.req) fun req => ?_
  rintro w₁ w₂ ⟨along, rfl⟩
  have unready : w₂.own.req.ready = false := congrArg Prod.fst along.holds
  rw [if_pos (by simp [unready]), if_pos (by simp [unready])]
  exact .ok ⟨along.wfile, rfl⟩

end Turns

section Connection
variable (srv : Server) (wsgi_app : Environ → App) (fuel : Nat)

/-- What a text by itself is answered, and whether the connection stays open. -/
def answer (request_seen : Bool) (text : Bytes) : Bytes × Bool :=
  match turn srv wsgi_app textFile fuel ⟨text, ⟨HTTPRequest.init, ⟨false, none⟩, []⟩⟩ with
  | .ok goesOn w => (w.own.wfile, goesOn)
  | .error e w =>
    match handle srv request_seen e w.own with
    | .ok _ x => (x.wfile, false)
    | .error _ x => (x.wfile, false)

/-- The answers to all requests up to one that closes the connection, or to its end. -/
def answers : Bool → List Message → Bytes
  | request_seen, [] => (answer srv wsgi_app fuel request_seen []).1
  | request_seen, m :: ms =>
    (answer srv wsgi_app fuel request_seen m.render).1 ++
      if (answer srv wsgi_app fuel request_seen m.render).2 then answers true ms else []

variable {srv wsgi_app fuel} {σ : Type} {rfile : FileReader Raised σ UInt8} {left : σ → Bytes} {Good : σ → Prop}
  {ms : List Message} {turns : Nat} {w : Wrapped σ Exchange}

/-- Of two turns that agree the answer is what the one by itself has sent. -/
theorem answer_of_agreed (request_seen : Bool) {text : Bytes} {P : Bool → Wrapped σ Exchange → Wrapped Bytes Exchange → Prop}
    (agreed : Agreed (fun goesOn w₁ w₂ => w₁.own.wfile = w.own.wfile ++ w₂.own.wfile ∧ P goesOn w₁ w₂)
      (fun e w₁ w₂ => Failed w.own.wfile Any e w₁.own w₂.own) (turn srv wsgi_app rfile fuel w)
      (turn srv wsgi_app textFile fuel ⟨text, ⟨HTTPRequest.init, ⟨false, none⟩, []⟩⟩)) :
    (∃ w' w₂, turn srv wsgi_app rfile fuel w = .ok (answer srv wsgi_app fuel request_seen text).2 w' ∧
      w'.own.wfile = w.own.wfile ++ (answer srv wsgi_app fuel request_seen text).1 ∧
      P (answer srv wsgi_app fuel request_seen text).2 w' w₂) ∨
    (∃ w' e x, turn srv wsgi_app rfile fuel w = .error e w' ∧ handle srv request_seen e w'.own = .ok () x ∧
      x.wfile = w.own.wfile ++ (answer srv wsgi_app fuel request_seen text).1 ∧
      (answer srv wsgi_app fuel request_seen text).2 = false) := by
  unfold answer
  generalize turn srv wsgi_app rfile fuel w = r₁ at agreed
  generalize turn srv wsgi_app textFile fuel ⟨text, ⟨HTTPRequest.init, ⟨false, none⟩, []⟩⟩ = r₂ at agreed
  cases agreed with
  | ok related => exact .inl ⟨_, _, rfl, related.1, related.2⟩
  | @error e w₁ w₂ failed =>
    have handled : Agreed (fun _ => Along w.own.wfile Any) (fun _ _ _ => False) (handle srv request_seen e w₁.own)
        (handle srv request_seen e w₂.own) := handle_agree request_seen failed.1 failed.2
    generalize run₁ : handle srv request_seen e w₁.own = h₁ at handled
    generalize run₂ : handle srv request_seen e w₂.own = h₂ at handled
    cases handled with
    | error impossible => exact impossible.elim
    | ok along =>
      refine .inr ⟨w₁, e, _, rfl, run₁, ?_, ?_⟩
      · simp only [run₂]
        exact along.wfile
      · simp only [run₂]

/-- A turn that has been gone through; the next one begins if the connection stays open. -/
theorem communicate_next {w' : Wrapped σ Exchange} {goesOn : Bool} (run : turn srv wsgi_app rfile fuel w = .ok goesOn w')
    (request_seen : Bool) (turns : Nat) : communicate srv wsgi_app rfile fuel (turns + 1) request_seen w =
      if goesOn then communicate srv wsgi_app rfile fuel turns true w' else .ok () w' := by
  have caught : attempt (turn srv wsgi_app rfile fuel) w = .ok (.ok goesOn) w' := by rw [attempt, run]
  rw [communicate, bind_of_ok caught]
  cases goesOn <;> rfl

/-- A turn that has failed ends the connection, once the exception is handled. -/
theorem communicate_failed {w' : Wrapped σ Exchange} {e : Raised} {x : Exchange} {request_seen : Bool}
    (run : turn srv wsgi_app rfile fuel w = .error e w') (handled : handle srv request_seen e w'.own = .ok () x) (turns : Nat) :
    communicate srv wsgi_app rfile fuel (turns + 1) request_seen w = .ok () ⟨w'.rfile, x⟩ := by
  have caught : attempt (turn srv wsgi_app rfile fuel) w = .ok (.error e) w' := by rw [attempt, run]
  rw [communicate, bind_of_ok caught]
  simp only [outer, handled]

/-- The answers are sent one after another. -/
theorem communicate_answers (reads : rfile.Reads newline left Good) (polite : ∀ env, (wsgi_app env).Polite)
    (formed : ∀ m ∈ ms, m.WellFormed srv) (enough : ∀ m ∈ ms, m.head.length < fuel) (some_ : 0 < fuel) (enough' : ms.length < turns)
    (request_seen : Bool) (good : Good w.rfile) (stream : left w.rfile = ms.flatMap Message.render) :
    ∃ w', communicate srv wsgi_app rfile fuel turns request_seen w = .ok () w' ∧
      w'.own.wfile = w.own.wfile ++ answers srv wsgi_app fuel request_seen ms := by
  induction ms generalizing turns request_seen w with
  | nil =>
    obtain ⟨turns, rfl⟩ := Nat.exists_eq_succ_of_ne_zero (Nat.ne_of_gt enough')
    have both : Agreed (fun goesOn w₁ w₂ => w₁.own.wfile = w.own.wfile ++ w₂.own.wfile ∧ goesOn = false)
        (fun e w₁ w₂ => Failed w.own.wfile Any e w₁.own w₂.own) (turn srv wsgi_app rfile fuel w)
        (turn srv wsgi_app textFile fuel ⟨[], ⟨HTTPRequest.init, ⟨false, none⟩, []⟩⟩) :=
      turnEnd_agree reads textFile_reads some_ ⟨(List.append_nil _).symm, ⟨good, by simpa using stream⟩, trivial, rfl⟩
    rcases answer_of_agreed request_seen both with ⟨w', w₂, run, sent, last⟩ | ⟨w', e, x, run, handled, sent, -⟩
    · refine ⟨w', ?_, sent⟩
      rw [communicate_next run, last]
      rfl
    · exact ⟨_, communicate_failed run handled turns, sent⟩
  | cons m ms ih =>
    obtain ⟨turns, rfl⟩ := Nat.exists_eq_succ_of_ne_zero (Nat.ne_of_gt (Nat.zero_lt_of_lt enough'))
    have formed' : ∀ m ∈ ms, m.WellFormed srv := fun m' inside => formed m' (List.mem_cons_of_mem m inside)
    have enough'' : ∀ m ∈ ms, m.head.length < fuel := fun m' inside => enough m' (List.mem_cons_of_mem m inside)
    have stream' : left w.rfile = m.render ++ ms.flatMap Message.render := stream
    have both : Agreed (fun (goesOn : Bool) (w₁ : Wrapped σ Exchange) (w₂ : Wrapped Bytes Exchange) =>
          w₁.own.wfile = w.own.wfile ++ w₂.own.wfile ∧ (goesOn → Good w₁.rfile ∧ left w₁.rfile = ms.flatMap Message.render))
        (fun e w₁ w₂ => Failed w.own.wfile Any e w₁.own w₂.own) (turn srv wsgi_app rfile fuel w)
        (turn srv wsgi_app textFile fuel ⟨m.render, ⟨HTTPRequest.init, ⟨false, none⟩, []⟩⟩) :=
      turn_agree reads textFile_reads polite (formed m List.mem_cons_self) (enough m List.mem_cons_self)
        ⟨(List.append_nil _).symm, ⟨good, stream'⟩, trivial, (List.append_nil _).symm⟩
    rw [answers]
    rcases answer_of_agreed request_seen both with ⟨w', w₂, run, sent, rest⟩ | ⟨w', e, x, run, handled, sent, last⟩
    · rw [communicate_next run]
      cases goesOn : (answer srv wsgi_app fuel request_seen m.render).2 with
      | false => exact ⟨w', rfl, by rw [sent, if_neg Bool.false_ne_true, List.append_nil]⟩
      | true =>
        obtain ⟨good', stream''⟩ := rest goesOn
        obtain ⟨w'', run', sent'⟩ := ih formed' enough'' (Nat.lt_of_succ_lt_succ enough') true good' stream''
        exact ⟨w'', by rw [if_pos rfl, run'], by rw [sent', sent, if_pos rfl, List.append_assoc]⟩
    · refine ⟨_, communicate_failed run handled turns, ?_⟩
      rw [last, if_neg Bool.false_ne_true, List.append_nil]
      exact sent

variable {S : Settings} {f : FileObject}

/-- A connection with requests one behind another, in whatever pieces they arrive and whatever each application
reads of its body, is sent the answers that the requests get one by one, each on a connection of its own. -/
theorem pipelined_requests (received : 1 ≤ S.rbufsize) (received' : 1 ≤ S.default_bufsize) {calls : Nat} (ready : Ready S calls f)
    (polite : ∀ env, (wsgi_app env).Polite) (formed : ∀ m ∈ ms, m.WellFormed srv) (enough : ∀ m ∈ ms, m.head.length < fuel)
    (some_ : 0 < fuel) (enough' : ms.length < turns) (stream : f.stream = ms.flatMap Message.render) (x : Exchange) :
    ∃ w', communicate srv wsgi_app (fileObject S calls) fuel turns false ⟨f, x⟩ = .ok () w' ∧
      w'.own.wfile = x.wfile ++ answers srv wsgi_app fuel false ms :=
  communicate_answers (fileObject_reads received received') polite formed enough some_ enough' false ready stream

/-- An application that does not read. -/
def greeting : Environ → App := fun _ => .start_response (ascii "200 OK") [] (.yields (ascii "hi") .returns)

def oneServer : Server := ⟨ascii "HTTP/1.1", 0, 0, ascii "s", [], ascii "d", fun _ => []⟩

def twoMessages : List Message :=
  [⟨ascii "GET / HTTP/1.1", [], []⟩, ⟨ascii "GET / HTTP/1.1", [.field (ascii "Content-Length") (ascii "1")], [97]⟩]

def twoRequests : FileObject where
  rbuf := []
  sock := [.data 71 ((twoMessages.flatMap Message.render).tail.take 20), .error (.number 4),
    .data 32 ((twoMessages.flatMap Message.render).drop 22)]
  bytes_read := 0

theorem pipelined_requests_two : ∃ w', communicate oneServer greeting (fileObject (threeBytes true) 100) 50 3 false
      ⟨twoRequests, ⟨HTTPRequest.init, ⟨false, none⟩, []⟩⟩ = .ok () w' ∧
    w'.own.wfile = [] ++ answers oneServer greeting 50 false twoMessages := by
  have ready : Ready (threeBytes true) 100 twoRequests := by
    refine ⟨fun e inside => ?_, fun _ => rfl, by decide⟩
    simp only [twoRequests, List.mem_cons, Arrival.error.injEq, reduceCtorEq, List.not_mem_nil, false_or, or_false] at inside
    subst inside
    exact .inr List.mem_cons_self
  have polite : ∀ env, (greeting env).Polite := fun _ => trivial
  refine pipelined_requests (by decide) (by decide) ready polite ?_ (by decide) (by decide) (by decide) (by decide) _
  simp only [twoMessages, List.mem_cons, List.not_mem_nil, or_false, forall_eq_or_imp, forall_eq]
  refine ⟨⟨by decide, by decide, ?_, ?_, .inl rfl, rfl, by decide⟩, ⟨by decide, by decide, ?_, ?_, .inl rfl, by decide, ?_⟩⟩
  · simp
  · simp [Starts]
  · simp only [List.mem_singleton, forall_eq, HeaderLine.WellFormed]
    decide
  · simp [Starts]
  · rfl

end Connection

end CodeClips.CherryPy
