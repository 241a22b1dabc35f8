import CodeClips.CherryPy.Pipelining

/-!
# A refused request line

`read_request_line` answers a line that it refuses and returns; `parse_request` goes on with the headers and
makes the request ready. The gateway then misses the attributes that the line would have set, and the
client is sent a second response.
-/

namespace CodeClips.CherryPy
open Wrapped
variable {srv : Server} {wsgi_app : Environ → App} {m : Message} {fuel : Nat} {x : Exchange} {status msg line : Bytes}

/-- The status and the text that a request line is refused with. -/
def refusal (srv : Server) (request_line : Bytes) : Option (Bytes × Bytes) :=
  match requestWords request_line with
  | none => some (ascii "400 Bad Request", ascii "Malformed Request-Line")
  | some (_, uri, _, rp) =>
    match parseRequestUri uri with
    | .ok (_, _, some path) =>
      if 35 ∈ path then some (ascii "400 Bad Request", ascii "Illegal #fragment in Request-URI.")
      else match protocolVersion srv.protocol with
        | .ok sp => if sp.1 ≠ rp.1 then some (ascii "505 HTTP Version Not Supported", []) else none
        | .error _ => none
    | _ => none

/-- The client is told to go on with the body. -/
def continueText (srv : Server) (headers : HDict) : Bytes :=
  if headers (ascii "Expect") = some (ascii "100-continue") then srv.protocol ++ ascii " 100 Continue\r\n\r\n" else []

/-- The request is as new, but for what a refused line sets. -/
structure AsNew (req : HTTPRequest) : Prop where
  sent_headers : req.sent_headers = false
  chunked_read : req.chunked_read = false
  response_protocol : req.response_protocol = ascii "HTTP/1.0"
  request_protocol : req.request_protocol = none

theorem readTarget_refused (scheme : Option Bytes) (req_protocol : Bytes) {path : Bytes} {rp : Nat × Nat}
    (refused : (if 35 ∈ path then some (ascii "400 Bad Request", ascii "Illegal #fragment in Request-URI.")
      else match protocolVersion srv.protocol with
        | .ok sp => if sp.1 ≠ rp.1 then some (ascii "505 HTTP Version Not Supported", []) else none
        | .error _ => none) = some (status, msg)) (new : AsNew x.req) :
    ∃ x', readTarget srv scheme path req_protocol rp x = .ok () x' ∧ x'.wfile = x.wfile ++ simpleText srv status msg ∧
      AsNew x'.req := by
  unfold readTarget
  by_cases fragment : 35 ∈ path
  · rw [if_pos fragment] at refused ⊢
    cases refused
    exact ⟨_, simpleResponse_run rfl _ x, rfl, new⟩
  · rw [if_neg fragment] at refused ⊢
    cases version : protocolVersion srv.protocol with
    | error e =>
      rw [version] at refused
      cases refused
    | ok sp =>
      rw [version] at refused
      dsimp only at refused
      split at refused
      · rename_i other
        cases refused
        dsimp only
        rw [setReq_bind, raiseOr_bind, if_pos other]
        exact ⟨_, simpleResponse_run rfl _ _, rfl, new.sent_headers, new.chunked_read, new.response_protocol, new.request_protocol⟩
      · cases refused

theorem parseRequestLine_refused (refused : refusal srv line = some (status, msg)) (terminated : CRLF <:+ line) (new : AsNew x.req) :
    ∃ x', parseRequestLine srv line x = .ok () x' ∧ x'.wfile = x.wfile ++ simpleText srv status msg ∧ AsNew x'.req := by
  unfold refusal at refused
  unfold parseRequestLine
  rw [if_neg (not_not.mpr terminated)]
  split at refused
  · rename_i none_
    cases refused
    rw [none_]
    exact ⟨_, simpleResponse_run rfl _ x, rfl, new⟩
  · rename_i method uri req_protocol rp words
    rw [words]
    split at refused
    · rename_i scheme authority path target
      have new' : AsNew { x.req with uri := some uri, method := some method } :=
        ⟨new.sent_headers, new.chunked_read, new.response_protocol, new.request_protocol⟩
      dsimp only
      rw [setReq_bind, target, raiseOr_bind]
      exact readTarget_refused scheme req_protocol refused new'
    · cases refused

theorem acceptHeaders_refused {headers : HDict} (takes : tooLong srv headers = .ok false) (new : AsNew x.req) :
    ∃ x', acceptHeaders srv headers x = .ok true x' ∧ x'.wfile = x.wfile ++ continueText srv headers ∧ AsNew x'.req ∧
      x'.req.inheaders = headers := by
  have old : ∀ req : HTTPRequest, req.response_protocol = ascii "HTTP/1.0" → transferEncodings req = [] := by
    intro req version
    unfold transferEncodings
    rw [version, if_neg (by decide)]
  unfold acceptHeaders
  rw [setReq_bind, takes, raiseOr_bind, if_neg Bool.false_ne_true, setReq_bind, getReq_bind, setReq_bind]
  rw [old _ (by exact new.response_protocol), if_neg (by simp)]
  unfold expectContinue continueText
  split
  · exact ⟨_, rfl, rfl, ⟨new.sent_headers, rfl, new.response_protocol, new.request_protocol⟩, rfl⟩
  · exact ⟨_, rfl, (List.append_nil _).symm, ⟨new.sent_headers, rfl, new.response_protocol, new.request_protocol⟩, rfl⟩

section Turn
variable {σ : Type} {rfile : FileReader Raised σ UInt8} {left : σ → Bytes} {Good : σ → Prop} {rest : Bytes} {lines : List HeaderLine}
  {w : Wrapped (Wrapped σ SizeCheck) Exchange}

theorem readRequestLine_refused (reads : rfile.Reads newline left Good) (before : newline ∉ line) (some_ : line ≠ [])
    (refused : refusal srv (line ++ CRLF) = some (status, msg)) {H : Bytes}
    (at_ : LinesAt left Good rest fuel (line ++ CRLF ++ H) w.rfile) (new : AsNew w.own.req) :
    ∃ w', readRequestLine srv rfile fuel w = .ok () w' ∧ w'.own.wfile = w.own.wfile ++ simpleText srv status msg ∧
      AsNew w'.own.req ∧ LinesAt left Good rest fuel H w'.rfile := by
  have ends : line ++ CRLF ++ H = (line ++ [13]) ++ newline :: H := by simp [CRLF, newline]
  have before' : newline ∉ line ++ [13] := by simpa [newline] using before
  have goesOn : ¬ (line ++ [13] ++ [newline] = CRLF) := by
    intro same
    exact some_ (by simpa [CRLF, newline] using same)
  have whole : line ++ [13] ++ [newline] = line ++ CRLF := by simp [CRLF, newline]
  rw [ends] at at_
  obtain ⟨s', run, at_'⟩ := sizeCheckReadline_readsLines reads before' at_
  have new' : AsNew { w.own.req with started_request := true } :=
    ⟨new.sent_headers, new.chunked_read, new.response_protocol, new.request_protocol⟩
  obtain ⟨x', parsed, sent, newer⟩ := parseRequestLine_refused (x := { w.own with req := { w.own.req with started_request := true } })
    refused (List.suffix_append line CRLF) new'
  rw [← whole] at parsed
  refine ⟨⟨s', x'⟩, ?_, sent, newer, at_'⟩
  rw [readRequestLine, nextLine, bind_of_ok (inner_ok run), outer_setReq_bind, if_neg (by simp), if_neg goesOn]
  exact outer_ok parsed

theorem readRequestHeaders_accepts (reads : rfile.Reads newline left Good) (formed : ∀ line ∈ lines, line.WellFormed)
    (starts : Starts lines) (takes : tooLong srv (headersOf lines) = .ok false)
    (at_ : LinesAt left Good rest fuel (lines.flatMap HeaderLine.render ++ CRLF) w.rfile) (new : AsNew w.own.req) :
    ∃ w', readRequestHeaders srv rfile fuel w = .ok true w' ∧
      w'.own.wfile = w.own.wfile ++ continueText srv (headersOf lines) ∧ AsNew w'.own.req ∧
      w'.own.req.inheaders = headersOf lines := by
  have few : lines.length < fuel := Nat.lt_of_le_of_lt (length_le_render lines) at_.enough
  obtain ⟨s', run, at_'⟩ := readHeaders_reads (sizeCheckReadline_readsLines reads) formed starts at_ few
  obtain ⟨x', accepted, sent, newer, same⟩ := acceptHeaders_refused takes new
  have caught : attempt (Wrapped.inner (readHeaders (sizeCheckReadline rfile fuel none) fuel fun _ => none)) w =
      .ok (.ok (headersOf lines)) { w with rfile := s' } := by
    rw [attempt, inner_ok run]
  refine ⟨⟨s', x'⟩, ?_, sent, newer, same⟩
  rw [readRequestHeaders, bind_of_ok caught]
  exact outer_ok accepted

/-- The whole head has been read, and the request is ready. -/
theorem parseRequest_refused (reads : rfile.Reads newline left Good) (before : newline ∉ line) (some_ : line ≠ [])
    (refused : refusal srv (line ++ CRLF) = some (status, msg)) (formed : ∀ line ∈ lines, line.WellFormed)
    (starts : Starts lines) (takes : tooLong srv (headersOf lines) = .ok false)
    (at_ : LinesAt left Good rest fuel (line ++ CRLF ++ (lines.flatMap HeaderLine.render ++ CRLF)) w.rfile) (new : AsNew w.own.req) :
    ∃ w', parseRequest srv rfile fuel w = .ok () w' ∧
      w'.own.wfile = w.own.wfile ++ simpleText srv status msg ++ continueText srv (headersOf lines) ∧ AsNew w'.own.req ∧
      w'.own.req.inheaders = headersOf lines ∧ w'.own.req.ready := by
  obtain ⟨w₁, run₁, sent₁, new₁, at₁⟩ := readRequestLine_refused reads before some_ refused at_ new
  obtain ⟨w₂, run₂, sent₂, new₂, same⟩ := readRequestHeaders_accepts reads formed starts takes at₁ new₁
  have caught₁ : attempt (readRequestLine srv rfile fuel) w = .ok (.ok ()) w₁ := by rw [attempt, run₁]
  have caught₂ : attempt (readRequestHeaders srv rfile fuel) w₁ = .ok (.ok true) w₂ := by rw [attempt, run₂]
  refine ⟨{ w₂ with own := { w₂.own with req := { w₂.own.req with ready := true } } }, ?_, ?_, ?_, same, rfl⟩
  · rw [parseRequest, bind_of_ok caught₁]
    dsimp only
    rw [bind_of_ok caught₂]
    rfl
  · rw [← sent₁]
    exact sent₂
  · exact ⟨new₂.sent_headers, new₂.chunked_read, new₂.response_protocol, new₂.request_protocol⟩

theorem getEnviron_missing {req : HTTPRequest} (missing : req.request_protocol = none) :
    ∃ name, getEnviron req = .error (.attributeError name) := by
  unfold getEnviron
  rw [missing]
  split
  · rename_i impossible
    cases impossible
  all_goals exact ⟨_, rfl⟩

theorem respond_missing {w : Wrapped σ Exchange} (new : AsNew w.own.req) {n : Int} (length : contentLength w.own.req.inheaders = .ok n)
    (takes : tooLong srv w.own.req.inheaders = .ok false) :
    ∃ name w', respond srv wsgi_app rfile fuel w = .error (.attributeError name) w' ∧ w'.own = w.own := by
  obtain ⟨name, missing⟩ := getEnviron_missing new.request_protocol
  have short : ¬ (srv.max_request_body_size ≠ 0 ∧ (srv.max_request_body_size : Int) < n) := by
    rintro ⟨limited, long⟩
    unfold tooLong at takes
    rw [if_neg limited, length] at takes
    simp [Except.map, long] at takes
  have found : bodyOf srv w.own.req = .ok (some (.inr ⟨n⟩)) := by
    unfold bodyOf
    rw [new.chunked_read, if_neg Bool.false_ne_true, length]
    exact if_neg short
  have run : runGateway srv (knownLengthFile rfile) wsgi_app ⟨⟨w.rfile, ⟨n⟩⟩, w.own⟩ =
      .error (.attributeError name) ⟨⟨w.rfile, ⟨n⟩⟩, w.own⟩ := by
    rw [runGateway, outer_getReq_bind, missing]
    rfl
  refine ⟨name, ⟨w.rfile, w.own⟩, ?_, rfl⟩
  rw [respond, outer_getReq_bind, found]
  exact wrapping_error run

end Turn

variable {S : Settings} {f : FileObject} {rest : Bytes} {lines : List HeaderLine}

/-- A request line that is refused is answered twice: the server goes on with the request, whose headers are read
and whose client may be told to go on, and sends a second response when it misses an attribute. -/
theorem refused_line_answered_twice (received : 1 ≤ S.rbufsize) (received' : 1 ≤ S.default_bufsize) {calls : Nat}
    (ready : Ready S calls f) (before : newline ∉ line) (some_ : line ≠ [])
    (refused : refusal srv (line ++ CRLF) = some (status, msg)) (formed : ∀ line ∈ lines, line.WellFormed)
    (starts : Starts lines) {n : Int} (length : contentLength (headersOf lines) = .ok n)
    (takes : tooLong srv (headersOf lines) = .ok false)
    (stream : f.stream = line ++ CRLF ++ (lines.flatMap HeaderLine.render ++ CRLF) ++ rest)
    (within : srv.max_request_header_size = 0 ∨
      (line ++ CRLF ++ (lines.flatMap HeaderLine.render ++ CRLF)).length ≤ srv.max_request_header_size)
    (enough : (line ++ CRLF ++ (lines.flatMap HeaderLine.render ++ CRLF)).length < fuel) (turns : Nat) (x : Exchange) :
    ∃ w' name, communicate srv wsgi_app (fileObject S calls) fuel (turns + 1) false ⟨f, x⟩ = .ok () w' ∧
      w'.own.wfile = x.wfile ++ simpleText srv status msg ++ continueText srv (headersOf lines) ++
        simpleText srv (ascii "500 Internal Server Error") (srv.format_exc (.attributeError name)) := by
  have reads : (fileObject S calls).Reads newline FileObject.stream (Ready S calls) := fileObject_reads received received'
  have at_ : LinesAt FileObject.stream (Ready S calls) rest fuel (line ++ CRLF ++ (lines.flatMap HeaderLine.render ++ CRLF))
      ⟨f, ⟨srv.max_request_header_size, 0⟩⟩ := ⟨ready, stream, by rwa [Nat.zero_add], enough⟩
  have new : AsNew HTTPRequest.init := ⟨rfl, rfl, rfl, rfl⟩
  obtain ⟨w₁, parsed, sent, new₁, same, ready₁⟩ := parseRequest_refused
    (w := ⟨⟨f, ⟨srv.max_request_header_size, 0⟩⟩, ⟨HTTPRequest.init, ⟨false, none⟩, x.wfile⟩⟩) reads before some_ refused formed
    starts takes at_ new
  have responds : ∃ name w', respond srv wsgi_app (fileObject S calls) fuel ⟨w₁.rfile.rfile, w₁.own⟩ =
      .error (.attributeError name) w' ∧ w'.own = w₁.own := respond_missing new₁ (same ▸ length) (same ▸ takes)
  obtain ⟨name, w₂, responded, own⟩ := responds
  have failed : turn srv wsgi_app (fileObject S calls) fuel ⟨f, x⟩ = .error (.attributeError name) w₂ := by
    rw [turn, outer_newRequest_bind, bind_of_ok (wrapping_ok parsed), outer_getReq_bind, if_neg (not_not.mpr ready₁),
      bind_of_error responded]
  have handled : handle srv false (.attributeError name) w₂.own = .ok () { w₁.own with
      wfile := w₁.own.wfile ++ simpleText srv (ascii "500 Internal Server Error") (srv.format_exc (.attributeError name)) } := by
    rw [own, handle, getReq_bind, if_neg (by rw [new₁.sent_headers]; exact Bool.false_ne_true)]
    exact simpleResponse_run rfl _ w₁.own
    all_goals nofun
  exact ⟨_, name, communicate_failed failed handled turns, by rw [sent]⟩

/-- A request line with a fragment, a client that waits, and the body that it was not to send. -/
def fragmentRequest : FileObject where
  rbuf := []
  sock := [.data 71 (ascii "ET /#a HTTP/1.1\r\nExpect: 100-cont"), .data 105 (ascii "nue\r\nContent-Length: 2\r\n\r\nab")]
  bytes_read := 0

theorem refused_line_answered_twice_one : ∃ w' name,
    communicate oneServer greeting (fileObject (threeBytes true) 80) 80 1 false
      ⟨fragmentRequest, ⟨HTTPRequest.init, ⟨false, none⟩, []⟩⟩ = .ok () w' ∧
    w'.own.wfile = [] ++ simpleText oneServer (ascii "400 Bad Request") (ascii "Illegal #fragment in Request-URI.") ++
      ascii "HTTP/1.1 100 Continue\r\n\r\n" ++
      simpleText oneServer (ascii "500 Internal Server Error") (oneServer.format_exc (.attributeError name)) := by
  let lines : List HeaderLine :=
    [.field (ascii "Expect") (ascii " 100-continue"), .field (ascii "Content-Length") (ascii " 2")]
  have ready : Ready (threeBytes true) 80 fragmentRequest :=
    ⟨fun e inside => by simp [fragmentRequest] at inside, fun _ => rfl, by decide⟩
  have before : newline ∉ ascii "GET /#a HTTP/1.1" := by decide
  have refused : refusal oneServer (ascii "GET /#a HTTP/1.1" ++ CRLF) =
      some (ascii "400 Bad Request", ascii "Illegal #fragment in Request-URI.") := by decide
  have stream : fragmentRequest.stream =
      ascii "GET /#a HTTP/1.1" ++ CRLF ++ (lines.flatMap HeaderLine.render ++ CRLF) ++ ascii "ab" := by decide
  have length : contentLength (headersOf lines) = .ok 2 := by decide
  have waits : continueText oneServer (headersOf lines) = ascii "HTTP/1.1 100 Continue\r\n\r\n" := by decide
  rw [← waits]
  exact refused_line_answered_twice (by decide) (by decide) ready before (by decide) refused (by decide) (by simp [lines, Starts])
    length rfl stream (.inl rfl) (by decide) 0 _

end CodeClips.CherryPy
