import CodeClips.CherryPy.Request

/-!
# The declared length of a response

`WSGIGateway.write` compares every chunk with the `Content-Length` that the application has declared, and
the comparison forgets the chunks before: the length bounds each chunk, and not what is sent in all. A first chunk
that does not fit is sent whole, behind a second response.
-/

namespace CodeClips.CherryPy
open Wrapped
variable {srv : Server} {β : Type} {body : BodyFile β} {s s' : β} {x : Exchange} {headers : List (Bytes × Bytes)} {status : Bytes}
  {n code : Int} {w : Wrapped β Exchange}

def writes (chunks : List Bytes) : App := chunks.foldr App.write App.returns

/-- The gateway has been told the length, and the response is not sent in chunks. -/
structure Declared (n : Int) (sent : Bool) (x : Exchange) : Prop where
  started : x.gateway = ⟨true, some n⟩
  sent_headers : x.req.sent_headers = sent
  whole : x.req.chunked_write = false

theorem declaredLength_mem {length : Option Int} (declared : declaredLength length headers = .ok (some n)) (none : length ≠ some n) :
    ascii "content-length" ∈ headers.map fun header => lower header.1 := by
  induction headers generalizing length with
  | nil =>
    cases declared
    exact absurd rfl none
  | cons header headers ih =>
    rw [declaredLength] at declared
    rw [List.map_cons]
    split at declared
    · rename_i same
      exact same ▸ List.mem_cons_self
    · exact List.mem_cons_of_mem _ (ih declared none)

theorem outer_getGateway_bind {α : Type} (k : WSGIGateway → RespondM β α) (w : Wrapped β Exchange) :
    (outer getGateway >>= k) w = k w.own.gateway w := rfl

/-- A chunk behind the headers: it is cut to the length. -/
theorem gatewayWrite_sent (declared : Declared n true w.own) (some_ : 0 ≤ n) (chunk : Bytes) :
    gatewayWrite srv body chunk w =
      if n < chunk.length then
        .error (.valueError "Response body exceeds the declared Content-Length." none)
          { w with own := { w.own with wfile := w.own.wfile ++ chunk.take n.toNat } }
      else .ok () { w with own := { w.own with wfile := w.own.wfile ++ chunk } } := by
  have written : ∀ data : Bytes, requestWrite data w.own = .ok () { w.own with wfile := w.own.wfile ++ data } := by
    intro data
    rw [requestWrite, getReq_bind, declared.whole]
    rfl
  have once : sendHeadersOnce srv body w = .ok () w := by
    rw [sendHeadersOnce, outer_getReq_bind, declared.sent_headers]
    rfl
  have fits : fitChunk srv chunk (some n) w.own = .ok (if n < chunk.length then chunk.take n.toNat else chunk) w.own := by
    rw [fitChunk, getReq_bind, declared.sent_headers]
    dsimp only
    split
    · rw [if_pos rfl, if_neg (by omega)]
      rfl
    · rfl
  rw [gatewayWrite, outer_getGateway_bind, declared.started, if_neg (by simp)]
  rw [bind_of_ok (outer_ok fits), bind_of_ok once, bind_of_ok (outer_ok (written _))]
  by_cases long : n < chunk.length
  · rw [if_pos long, if_pos long]
    dsimp only
    rw [if_pos (by omega)]
    rfl
  · rw [if_neg long, if_neg long]
    dsimp only
    rw [if_neg (by omega)]
    rfl

/-- All chunks behind the headers, up to the first that does not fit by itself. -/
theorem runApp_writes (srv : Server) (body : BodyFile β) (declared : Declared n true w.own) (some_ : 0 ≤ n) (chunks : List Bytes) :
    ((∀ chunk ∈ chunks, (chunk.length : Int) ≤ n) → runApp srv body (writes chunks) w =
      .ok () { w with own := { w.own with wfile := w.own.wfile ++ chunks.flatten } }) ∧
    ∀ fitting big rest, chunks = fitting ++ big :: rest → (∀ chunk ∈ fitting, (chunk.length : Int) ≤ n) → n < big.length →
      runApp srv body (writes chunks) w = .error (.valueError "Response body exceeds the declared Content-Length." none)
        { w with own := { w.own with wfile := w.own.wfile ++ fitting.flatten ++ big.take n.toNat } } := by
  induction chunks generalizing w with
  | nil =>
    refine ⟨fun _ => ?_, fun fitting big rest impossible => ?_⟩
    · rw [List.flatten_nil, List.append_nil]
      rfl
    · simp at impossible
  | cons chunk chunks ih =>
    have step : runApp srv body (writes (chunk :: chunks)) w =
        (gatewayWrite srv body chunk >>= fun _ => runApp srv body (writes chunks)) w := rfl
    have next : Declared n true { w.own with wfile := w.own.wfile ++ chunk } := ⟨declared.started, declared.sent_headers, declared.whole⟩
    refine ⟨fun fits => ?_, fun fitting big rest same fits long => ?_⟩
    · have short : ¬ n < chunk.length := Int.not_lt.mpr (fits chunk List.mem_cons_self)
      have first : gatewayWrite srv body chunk w = _ := gatewayWrite_sent declared some_ chunk
      rw [if_neg short] at first
      rw [step, bind_of_ok first, (ih next).1 fun c inside => fits c (List.mem_cons_of_mem chunk inside)]
      simp only [List.flatten_cons, List.append_assoc]
    · have first : gatewayWrite srv body chunk w = _ := gatewayWrite_sent declared some_ chunk
      cases fitting with
      | nil =>
        obtain ⟨rfl, rfl⟩ := List.cons_eq_cons.mp same
        rw [if_pos long] at first
        rw [step, bind_of_error first, List.flatten_nil, List.append_nil]
      | cons c fitting =>
        obtain ⟨rfl, same'⟩ := List.cons_eq_cons.mp same
        have short : ¬ n < chunk.length := Int.not_lt.mpr (fits chunk List.mem_cons_self)
        rw [if_neg short] at first
        rw [step, bind_of_ok first, (ih next).2 fitting big rest same'
          (fun c inside => fits c (List.mem_cons_of_mem chunk inside)) long]
        simp only [List.flatten_cons, List.append_assoc]

theorem tellConnection_declared {sent : Bool} (declared : Declared n sent x) (hkeys : List Bytes) :
    Declared n sent { x with req := tellConnection hkeys x.req } := by
  unfold tellConnection
  repeat' split
  all_goals exact ⟨declared.started, declared.sent_headers, declared.whole⟩

theorem addHeader_declared {sent : Bool} (declared : Declared n sent x) (hkeys : List Bytes) (key k v : Bytes) :
    Declared n sent { x with req := addHeader hkeys key k v x.req } := by
  unfold addHeader
  split
  · exact declared
  · exact ⟨declared.started, declared.sent_headers, declared.whole⟩

/-- With its length listed a response is not sent in chunks, whatever its status. -/
theorem frameResponse_declared {sent : Bool} (declared : Declared n sent x) {hkeys : List Bytes}
    (listed : ascii "content-length" ∈ hkeys) (code : Int) : Declared n sent { x with req := frameResponse hkeys code x.req } := by
  unfold frameResponse
  split
  · exact ⟨declared.started, declared.sent_headers, declared.whole⟩
  · rw [if_pos (List.contains_iff_mem.mpr listed)]
    exact declared

/-- The request when its headers are sent, with those of the server. -/
def sentRequest (srv : Server) (code : Int) (req : HTTPRequest) : HTTPRequest :=
  addHeader (outKeys req) (ascii "server") (ascii "Server") srv.server_name
    (addHeader (outKeys req) (ascii "date") (ascii "Date") srv.date
      (tellConnection (outKeys req) (frameResponse (outKeys req) code { req with sent_headers := true })))

theorem sentRequest_declared (declared : Declared n false x) (listed : ascii "content-length" ∈ outKeys x.req) :
    Declared n true { x with req := sentRequest srv code x.req } := by
  have sent : Declared n true { x with req := { x.req with sent_headers := true } } := ⟨declared.started, rfl, declared.whole⟩
  have framed := frameResponse_declared sent listed code
  have told := tellConnection_declared framed (outKeys x.req)
  have dated := addHeader_declared told (outKeys x.req) (ascii "date") (ascii "Date") srv.date
  exact addHeader_declared dated (outKeys x.req) (ascii "server") (ascii "Server") srv.server_name

/-- The headers of a response with a declared length are sent. -/
theorem sendHeaders_run (srv : Server) {x : Exchange} (code_ : int (x.req.status.take 3) = .ok code)
    (drains : ∃ s', body.drain s = .ok () s') :
    ∃ s', sendHeaders srv body ⟨s, x⟩ = .ok () ⟨s', { x with
      req := sentRequest srv code x.req
      wfile := x.wfile ++ responseHead srv (sentRequest srv code x.req) }⟩ := by
  let sent : Exchange := { x with req := { x.req with sent_headers := true } }
  let told : Exchange := { sent with req := tellConnection (outKeys x.req) (frameResponse (outKeys x.req) code sent.req) }
  have drained : ∃ s', drainBody body ⟨s, told⟩ = .ok () ⟨s', told⟩ := by
    obtain ⟨s', run⟩ := drains
    unfold drainBody
    rw [outer_getReq_bind]
    split
    · exact ⟨s', inner_ok run⟩
    · exact ⟨s, rfl⟩
  have number : (outer (raiseOr (int (x.req.status.take 3))) : RespondM β Int) ⟨s, sent⟩ = .ok code ⟨s, sent⟩ := by
    rw [code_]
    rfl
  obtain ⟨s', drained⟩ := drained
  refine ⟨s', ?_⟩
  rw [sendHeaders, outer_setReq_bind, outer_getReq_bind]
  show ((outer (raiseOr (int (x.req.status.take 3))) : RespondM β Int) >>= _) ⟨s, sent⟩ = _
  rw [bind_of_ok number, outer_setReq_bind]
  show (drainBody body >>= _) ⟨s, told⟩ = _
  rw [bind_of_ok drained, outer_setReq_bind, outer_getReq_bind]
  rfl

/-- The text of the first response, if the first chunk does not fit. -/
def tooMany (srv : Server) : Bytes :=
  simpleText srv (ascii "500 Internal Server Error")
    (ascii "The requested resource returned more bytes than the declared Content-Length.")

/-- The chunk that the headers are sent for: if it does not fit, another response is sent before them. -/
theorem gatewayWrite_first (srv : Server) (declared : Declared n false x) (code_ : int (x.req.status.take 3) = .ok code)
    (listed : ascii "content-length" ∈ outKeys x.req) (drains : ∃ s', body.drain s = .ok () s') (chunk : Bytes) :
    ∃ s', gatewayWrite srv body chunk ⟨s, x⟩ =
      if n < chunk.length then
        .error (.valueError "Response body exceeds the declared Content-Length." none) ⟨s', { x with
          req := sentRequest srv code x.req
          wfile := x.wfile ++ tooMany srv ++ responseHead srv (sentRequest srv code x.req) ++ chunk }⟩
      else .ok () ⟨s', { x with
        req := sentRequest srv code x.req
        wfile := x.wfile ++ responseHead srv (sentRequest srv code x.req) ++ chunk }⟩ := by
  have unsent : ∀ wfile : Bytes, (sendHeadersOnce srv body) ⟨s, { x with wfile := wfile }⟩ =
      sendHeaders srv body ⟨s, { x with wfile := wfile }⟩ := by
    intro wfile
    rw [sendHeadersOnce, outer_getReq_bind, declared.sent_headers]
    rfl
  have written : ∀ wfile : Bytes, requestWrite chunk { x with req := sentRequest srv code x.req, wfile := wfile } =
      .ok () { x with req := sentRequest srv code x.req, wfile := wfile ++ chunk } := by
    intro wfile
    have whole : (sentRequest srv code x.req).chunked_write = false := (sentRequest_declared declared listed).whole
    rw [requestWrite, getReq_bind, whole]
    rfl
  rw [gatewayWrite, outer_getGateway_bind, declared.started, if_neg (by simp)]
  by_cases long : n < chunk.length
  · have fits : fitChunk srv chunk (some n) x = .ok chunk { x with wfile := x.wfile ++ tooMany srv } := by
      rw [fitChunk, getReq_bind, declared.sent_headers]
      dsimp only
      rw [if_pos long, if_neg Bool.false_ne_true, bind_of_ok (simpleResponse_run rfl _ x)]
      rfl
    obtain ⟨s', run⟩ := sendHeaders_run srv (x := { x with wfile := x.wfile ++ tooMany srv }) code_ drains
    refine ⟨s', ?_⟩
    rw [bind_of_ok (outer_ok fits), bind_of_ok ((unsent _).trans run), bind_of_ok (outer_ok (written _)), if_pos long]
    dsimp only
    rw [if_pos (by omega), declared.started]
    rfl
  · have fits : fitChunk srv chunk (some n) x = .ok chunk x := by
      rw [fitChunk, getReq_bind]
      dsimp only
      rw [if_neg long]
      rfl
    obtain ⟨s', run⟩ := sendHeaders_run srv code_ drains
    refine ⟨s', ?_⟩
    rw [bind_of_ok (outer_ok fits), bind_of_ok ((unsent _).trans run), bind_of_ok (outer_ok (written _)), if_neg long]
    dsimp only
    rw [if_neg (by omega), declared.started]
    rfl

/-- The request when the response has been started. -/
def startedRequest (req : HTTPRequest) (status : Bytes) (headers : List (Bytes × Bytes)) : HTTPRequest :=
  { req with status := status, outheaders := headers }

/-- The length bounds every chunk by itself: chunks that fit are all sent, however many they are, a later one that
does not fit is cut, and a first one is sent whole, behind a response of its own. -/
theorem declared_length_bounds_each_chunk (fresh : x.gateway = ⟨false, none⟩) (empty : x.req.outheaders = [])
    (unsent : x.req.sent_headers = false) (whole : x.req.chunked_write = false) (some_ : 0 ≤ n)
    (declared : declaredLength none headers = .ok (some n)) (code_ : int (status.take 3) = .ok code)
    (drains : ∃ s', body.drain s = .ok () s') (first : Bytes) :
    ((first.length : Int) ≤ n →
      (∀ chunks, (∀ chunk ∈ chunks, (chunk.length : Int) ≤ n) → ∃ w',
        runApp srv body (.start_response status headers (writes (first :: chunks))) ⟨s, x⟩ = .ok () w' ∧
        w'.own.wfile = x.wfile ++ responseHead srv (sentRequest srv code (startedRequest x.req status headers)) ++ first ++ chunks.flatten) ∧
      ∀ fitting big rest, (∀ chunk ∈ fitting, (chunk.length : Int) ≤ n) → n < big.length → ∃ w',
        runApp srv body (.start_response status headers (writes (first :: (fitting ++ big :: rest)))) ⟨s, x⟩ =
          .error (.valueError "Response body exceeds the declared Content-Length." none) w' ∧
        w'.own.wfile = x.wfile ++ responseHead srv (sentRequest srv code (startedRequest x.req status headers)) ++ first ++
          fitting.flatten ++ big.take n.toNat) ∧
    (n < first.length → ∀ chunks, ∃ w',
      runApp srv body (.start_response status headers (writes (first :: chunks))) ⟨s, x⟩ =
        .error (.valueError "Response body exceeds the declared Content-Length." none) w' ∧
      w'.own.wfile = x.wfile ++ tooMany srv ++ responseHead srv (sentRequest srv code (startedRequest x.req status headers)) ++ first) := by
  let started : Exchange := { x with req := startedRequest x.req status headers, gateway := ⟨true, some n⟩ }
  have declared' : Declared n false started := ⟨rfl, unsent, whole⟩
  have listed : ascii "content-length" ∈ outKeys started.req := declaredLength_mem declared nofun
  have start : startResponse status headers x = .ok () started := by
    rw [startResponse, getGateway_bind, fresh, if_neg Bool.false_ne_true, setGateway_bind, setReq_bind, declared, raiseOr_bind,
      setGateway_bind]
    show EStateM.Result.ok () { x with
      req := { x.req with status := status, outheaders := x.req.outheaders ++ headers }, gateway := ⟨true, some n⟩ } = _
    rw [empty]
    rfl
  obtain ⟨s', run⟩ := gatewayWrite_first srv declared' code_ listed drains first
  have step : ∀ chunks, runApp srv body (.start_response status headers (writes (first :: chunks))) ⟨s, x⟩ =
      (gatewayWrite srv body first >>= fun _ => runApp srv body (writes chunks)) ⟨s, started⟩ := fun chunks => by
    rw [runApp, bind_of_ok (outer_ok start)]
    rfl
  refine ⟨fun short => ?_, fun long chunks => ?_⟩
  · rw [if_neg (Int.not_lt.mpr short)] at run
    have next : Declared n true { started with
        req := sentRequest srv code started.req
        wfile := started.wfile ++ responseHead srv (sentRequest srv code started.req) ++ first } :=
      ⟨rfl, (sentRequest_declared declared' listed).sent_headers, (sentRequest_declared declared' listed).whole⟩
    refine ⟨fun chunks fits => ?_, fun fitting big rest fits long => ?_⟩
    · have more := (runApp_writes srv body (w := ⟨s', _⟩) next some_ chunks).1 fits
      exact ⟨_, (step _).trans ((bind_of_ok run _).trans more), rfl⟩
    · have more := (runApp_writes srv body (w := ⟨s', _⟩) next some_ _).2 fitting big rest rfl fits long
      exact ⟨_, (step _).trans ((bind_of_ok run _).trans more), rfl⟩
  · rw [if_pos long] at run
    exact ⟨_, (step _).trans (bind_of_error run _), rfl⟩

def noBody : BodyFile Unit := ⟨fun _ => pure [], fun _ => pure [], pure ()⟩

/-- Of a response of 1 byte two are sent. -/
theorem declared_length_bounds_each_chunk_one : ∃ w',
    runApp (⟨ascii "HTTP/1.1", 0, 0, [], [], [], fun _ => []⟩ : Server) noBody
      (.start_response (ascii "200 OK") [(ascii "Content-Length", ascii "1")] (writes [[97], [98]]))
      ⟨(), ⟨HTTPRequest.init, ⟨false, none⟩, []⟩⟩ = .ok () w' ∧
    w'.own.wfile = [] ++ responseHead (⟨ascii "HTTP/1.1", 0, 0, [], [], [], fun _ => []⟩ : Server)
      (sentRequest (⟨ascii "HTTP/1.1", 0, 0, [], [], [], fun _ => []⟩ : Server) 200
        (startedRequest HTTPRequest.init (ascii "200 OK") [(ascii "Content-Length", ascii "1")])) ++ [97] ++ [[98]].flatten := by
  have declared : declaredLength none [(ascii "Content-Length", ascii "1")] = .ok (some 1) := rfl
  have code_ : int ((ascii "200 OK").take 3) = .ok 200 := rfl
  exact ((declared_length_bounds_each_chunk (x := ⟨HTTPRequest.init, ⟨false, none⟩, []⟩) rfl rfl rfl rfl (by decide) declared code_
    ⟨(), rfl⟩ [97]).1 (by decide)).1 [[98]] (by decide)

end CodeClips.CherryPy
