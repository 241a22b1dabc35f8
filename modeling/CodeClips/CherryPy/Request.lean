import CodeClips.CherryPy.Headers

/-!
# Requests and responses

`HTTPRequest`, `HTTPConnection.communicate` and `WSGIGateway` of `cherrPy-wsgi.py`. What a request and its
response have besides the file is an `Exchange`; what is sent always arrives. The application is a
tree of the calls it makes, each going on with what the call gives.
-/

namespace CodeClips.CherryPy
open Wrapped

section Text

/-- `split(sep, 1)`, if there is a separator. -/
def splitOnce (sep : UInt8) (s : Bytes) : Option (Bytes × Bytes) := (s.idxOf? sep).map fun i => (s.take i, s.drop (i + 1))

def find (pattern : Bytes) : Bytes → Option Nat
  | [] => if pattern = [] then some 0 else none
  | b :: s => if pattern <+: b :: s then some 0 else (find pattern s).map (· + 1)

def lower (s : Bytes) : Bytes := s.map fun b => if 65 ≤ b ∧ b ≤ 90 then b + 32 else b

def digitValue (b : UInt8) : Option Nat := if 48 ≤ b ∧ b ≤ 57 then some (b.toNat - 48) else none

/-- One digit or more. -/
def number (s : Bytes) : Option Nat := if s = [] then none else s.foldlM (fun n b => (10 * n + ·) <$> digitValue b) 0

/-- A number with its sign, and white space around it. -/
def signedNumber (s : Bytes) : Option Int :=
  match strip s with
  | 45 :: t => (number t).map fun n : Nat => -(n : Int)
  | 43 :: t => (number t).map fun n : Nat => (n : Int)
  | t => (number t).map fun n : Nat => (n : Int)

/-- `int(s)` -/
def int (s : Bytes) : Except Raised Int :=
  match signedNumber s with
  | none => .error (.valueError "invalid literal for int() with base 10: %r" (some s))
  | some n => .ok n

def decimal (n : Nat) : Bytes := (Nat.toDigits 10 n).map fun c => UInt8.ofNat c.toNat

/-- `unquote` of `urllib` -/
def unquote : Bytes → Bytes
  | [] => []
  | [b] => [b]
  | [b, c] => [b, c]
  | 37 :: b :: c :: s =>
    match hexValue b, hexValue c with
    | some high, some low => UInt8.ofNat (16 * high + low) :: unquote s
    | _, _ => 37 :: unquote (b :: c :: s)
  | b :: c :: d :: s => b :: unquote (c :: d :: s)

/-- The first piece has `b` in front. -/
def inFront (b : UInt8) : List Bytes → List Bytes
  | [] => [[b]]
  | piece :: pieces => (b :: piece) :: pieces

/-- `quoted_slash.split` -/
def splitQuotedSlash : Bytes → List Bytes
  | [] => [[]]
  | [b] => [[b]]
  | [b, c] => [[b, c]]
  | b :: c :: d :: s =>
    if b = 37 ∧ c = 50 ∧ (d = 70 ∨ d = 102) then [] :: splitQuotedSlash s else inFront b (splitQuotedSlash (c :: d :: s))

/-- The path with every escape decoded but that of a slash. -/
def decodePath (path : Bytes) : Bytes := (ascii "%2F").intercalate ((splitQuotedSlash path).map unquote)

end Text

structure Server where
  protocol : Bytes
  max_request_header_size : Nat
  max_request_body_size : Nat
  server_name : Bytes
  socket_errors_to_ignore : List ErrNum
  /-- `rfc822.formatdate()` -/
  date : Bytes
  format_exc : Raised → Bytes

structure HTTPRequest where
  ready : Bool
  started_request : Bool
  scheme : Bytes
  response_protocol : Bytes
  inheaders : HDict
  status : Bytes
  outheaders : List (Bytes × Bytes)
  sent_headers : Bool
  close_connection : Bool
  chunked_read : Bool
  chunked_write : Bool
  method : Option Bytes
  uri : Option Bytes
  path : Option Bytes
  qs : Option Bytes
  request_protocol : Option Bytes

/-- A new request. Its line has not set the last five attributes yet. -/
def HTTPRequest.init : HTTPRequest where
  ready := false
  started_request := false
  scheme := ascii "http"
  response_protocol := ascii "HTTP/1.0"
  inheaders := fun _ => none
  status := []
  outheaders := []
  sent_headers := false
  close_connection := false
  chunked_read := false
  chunked_write := false
  method := none
  uri := none
  path := none
  qs := none
  request_protocol := none

structure WSGIGateway where
  started_response : Bool
  remaining_bytes_out : Option Int

/-- The request, its gateway, and all that has been sent on the connection. -/
structure Exchange where
  req : HTTPRequest
  gateway : WSGIGateway
  wfile : Bytes

abbrev ExchangeM := EStateM Raised Exchange

def getReq : ExchangeM HTTPRequest := fun x => .ok x.req x

def setReq (f : HTTPRequest → HTTPRequest) : ExchangeM Unit := fun x => .ok () { x with req := f x.req }

def sendall (data : Bytes) : ExchangeM Unit := fun x => .ok () { x with wfile := x.wfile ++ data }

def getGateway : ExchangeM WSGIGateway := fun x => .ok x.gateway x

def setGateway (gateway : WSGIGateway) : ExchangeM Unit := fun x => .ok () { x with gateway := gateway }

/-- A request and a gateway of its own. -/
def newRequest : ExchangeM Unit := fun x => .ok () { x with req := HTTPRequest.init, gateway := ⟨false, none⟩ }

def raiseOr {α : Type} : Except Raised α → ExchangeM α
  | .error e => throw e
  | .ok a => pure a

def HTTP_1_1 : Bytes := ascii "HTTP/1.1"

section Parse
variable (srv : Server)

/-- The status is 413 or 414. -/
def tooLarge (status : Bytes) : Bool := status.take 3 = ascii "413" || status.take 3 = ascii "414"

def simpleResponse (status msg : Bytes) : ExchangeM Unit := do
  setReq fun req => { req with close_connection := req.close_connection || tooLarge status }
  let req ← getReq
  sendall (srv.protocol ++ ascii " " ++ status ++ CRLF ++ ascii "Content-Length: " ++ decimal msg.length ++ CRLF ++
    ascii "Content-Type: text/plain\r\n" ++
    (if tooLarge status ∧ req.response_protocol = HTTP_1_1 then ascii "Connection: close\r\n" else []) ++ CRLF ++ msg)

/-- The numbers of a protocol, of its sixth and eighth character. -/
def protocolVersion (protocol : Bytes) : Except Raised (Nat × Nat) :=
  match protocol[5]?, protocol[7]? with
  | some major, some minor =>
    match digitValue major, digitValue minor with
    | some major, some minor => .ok (major, minor)
    | _, _ => .error (.valueError "invalid literal for int() with base 10: %r" none)
  | _, _ => .error (.valueError "string index out of range" none)

/-- The three words of a request line, and the version. -/
def requestWords (request_line : Bytes) : Option (Bytes × Bytes × Bytes × (Nat × Nat)) :=
  match splitOnce 32 (strip request_line) with
  | none => none
  | some (method, rest) =>
    match splitOnce 32 rest with
    | none => none
    | some (uri, req_protocol) =>
      match protocolVersion req_protocol with
      | .error _ => none
      | .ok rp => some (method, uri, req_protocol, rp)

/-- The scheme, the authority and the path of a Request-URI. -/
def parseRequestUri (uri : Bytes) : Except Raised (Option Bytes × Option Bytes × Option Bytes) :=
  if uri = ascii "*" then .ok (none, none, some uri)
  else
    let i := (find (ascii "://") uri).getD 0
    if 0 < i ∧ 63 ∉ uri.take i then
      match splitOnce 47 (uri.drop (i + 3)) with
      | none => .error (.valueError "need more than 1 value to unpack" none)
      | some (authority, path) => .ok (some (lower (uri.take i)), some authority, some path)
    else if uri.head? = some 47 then .ok (none, none, some uri)
    else .ok (none, some uri, none)

def minVersion (v w : Nat × Nat) : Nat × Nat := if v.1 < w.1 ∨ v.1 = w.1 ∧ v.2 ≤ w.2 then v else w

/-- The rest of `read_request_line` where the path has been found. -/
def readTarget (scheme : Option Bytes) (path req_protocol : Bytes) (rp : Nat × Nat) : ExchangeM Unit := do
  if 35 ∈ path then simpleResponse srv (ascii "400 Bad Request") (ascii "Illegal #fragment in Request-URI.")
  else do
    let split := (splitOnce 63 path).getD (path, [])
    setReq fun req => { req with scheme := scheme.getD req.scheme, path := some (decodePath split.1), qs := some split.2 }
    let sp ← raiseOr (protocolVersion srv.protocol)
    if sp.1 ≠ rp.1 then simpleResponse srv (ascii "505 HTTP Version Not Supported") []
    else
      let version := minVersion rp sp
      setReq fun req => { req with
        request_protocol := some req_protocol
        response_protocol := ascii "HTTP/" ++ decimal version.1 ++ ascii "." ++ decimal version.2 }

/-- `read_request_line` behind the reading. -/
def parseRequestLine (request_line : Bytes) : ExchangeM Unit := do
  if ¬ CRLF <:+ request_line then simpleResponse srv (ascii "400 Bad Request") (ascii "HTTP requires CRLF terminators")
  else match requestWords request_line with
    | none => simpleResponse srv (ascii "400 Bad Request") (ascii "Malformed Request-Line")
    | some (method, uri, req_protocol, rp) => do
      setReq fun req => { req with uri := some uri, method := some method }
      match ← raiseOr (parseRequestUri uri) with
      | (_, _, none) => throw (.typeError "argument of type 'NoneType' is not iterable")
      | (scheme, _, some path) => readTarget srv scheme path req_protocol rp

/-- The `Content-Length`, or 0. -/
def contentLength (inheaders : HDict) : Except Raised Int :=
  match inheaders (ascii "Content-Length") with
  | none => .ok 0
  | some value => int value

/-- The body is longer than the server takes. -/
def tooLong (inheaders : HDict) : Except Raised Bool :=
  if srv.max_request_body_size = 0 then .ok false
  else (contentLength inheaders).map fun length => decide ((srv.max_request_body_size : Int) < length)

def persistent (req : HTTPRequest) : Bool :=
  let connection := (req.inheaders (ascii "Connection")).getD []
  if req.response_protocol = HTTP_1_1 then connection ≠ ascii "close" else connection = ascii "Keep-Alive"

/-- The codings of `Transfer-Encoding`. -/
def transferEncodings (req : HTTPRequest) : List Bytes :=
  if req.response_protocol = HTTP_1_1 then
    ((((req.inheaders (ascii "Transfer-Encoding")).getD []).splitOn 44).map strip |>.filter (· ≠ [])).map lower
  else []

/-- The client waits for it before it sends the body. -/
def expectContinue (inheaders : HDict) : ExchangeM Unit :=
  if inheaders (ascii "Expect") = some (ascii "100-continue") then sendall (srv.protocol ++ ascii " 100 Continue\r\n\r\n")
  else pure ()

/-- `read_request_headers` behind the reading. -/
def acceptHeaders (inheaders : HDict) : ExchangeM Bool := do
  setReq fun req => { req with inheaders := inheaders }
  if ← raiseOr (tooLong srv inheaders) then do
    simpleResponse srv (ascii "413 Request Entity Too Large")
      (ascii "The entity sent with the request exceeds the maximum allowed bytes.")
    pure false
  else do
    setReq fun req => { req with close_connection := req.close_connection || ! persistent req }
    let req ← getReq
    setReq fun req => { req with chunked_read := decide ((transferEncodings req).head? = some (ascii "chunked")) }
    if ∃ enc ∈ transferEncodings req, enc ≠ ascii "chunked" then do
      simpleResponse srv (ascii "501 Unimplemented") []
      setReq fun req => { req with close_connection := true }
      pure false
    else do
      expectContinue srv inheaders
      pure true

variable {σ : Type} (rfile : FileReader Raised σ UInt8) (fuel : Nat)

abbrev ParseM (σ : Type) := EStateM Raised (Wrapped (Wrapped σ SizeCheck) Exchange)

def nextLine : ParseM σ Bytes := Wrapped.inner (sizeCheckReadline rfile fuel none)

/-- One `CRLF` in front of the request is ignored. -/
def readRequestLine : ParseM σ Unit := do
  let request_line ← nextLine rfile fuel
  outer (setReq fun req => { req with started_request := true })
  if request_line = [] then outer (setReq fun req => { req with ready := false })
  else if request_line = CRLF then do
    let request_line ← nextLine rfile fuel
    if request_line = [] then outer (setReq fun req => { req with ready := false }) else outer (parseRequestLine srv request_line)
  else outer (parseRequestLine srv request_line)

/-- Only a `ValueError` of `read_headers` is answered. -/
def readRequestHeaders : ParseM σ Bool := do
  match ← attempt (Wrapped.inner (readHeaders (sizeCheckReadline rfile fuel none) fuel fun _ => none)) with
  | .ok inheaders => outer (acceptHeaders srv inheaders)
  | .error (.valueError text _) => do
    outer (simpleResponse srv (ascii "400 Bad Request") (ascii text))
    pure false
  | .error e => throw e

/-- The headers are read whatever `read_request_line` has answered. -/
def parseRequest : ParseM σ Unit := do
  match ← attempt (readRequestLine srv rfile fuel) with
  | .error (.maxSizeExceeded _) =>
    outer (simpleResponse srv (ascii "414 Request-URI Too Long")
      (ascii "The Request-URI sent with the request exceeds the maximum allowed bytes."))
  | .error e => throw e
  | .ok () =>
    match ← attempt (readRequestHeaders srv rfile fuel) with
    | .error (.maxSizeExceeded _) =>
      outer (simpleResponse srv (ascii "413 Request Entity Too Large")
        (ascii "The headers sent with the request exceed the maximum allowed bytes."))
    | .error e => throw e
    | .ok success => if success then outer (setReq fun req => { req with ready := true }) else pure ()

end Parse

structure Environ where
  PATH_INFO : Bytes
  QUERY_STRING : Bytes
  REQUEST_METHOD : Bytes
  REQUEST_URI : Bytes
  SERVER_PROTOCOL : Bytes
  url_scheme : Bytes
  headers : HDict

/-- `get_environ` of `WSGIGateway_10` -/
def getEnviron (req : HTTPRequest) : Except Raised Environ :=
  match req.path, req.qs, req.method, req.uri, req.request_protocol with
  | some path, some qs, some method, some uri, some request_protocol =>
    .ok ⟨path, qs, method, uri, request_protocol, req.scheme, req.inheaders⟩
  | none, _, _, _, _ => .error (.attributeError "path")
  | _, none, _, _, _ => .error (.attributeError "qs")
  | _, _, none, _, _ => .error (.attributeError "method")
  | _, _, _, none, _ => .error (.attributeError "uri")
  | _, _, _, _, none => .error (.attributeError "request_protocol")

/-- A WSGI application by its calls: `write` is the callable, `yields` an item of what it returns. What a call
raises ends the application: one that catches it and goes on is not modelled. -/
inductive App where
  | read (size : Option Int) (next : Bytes → App)
  | readline (size : Option Int) (next : Bytes → App)
  | start_response (status : Bytes) (headers : List (Bytes × Bytes)) (next : App)
  | write (chunk : Bytes) (next : App)
  | yields (chunk : Bytes) (next : App)
  | raises (e : Raised)
  | returns

/-- The file of the body, and what `send_headers` reads of it. -/
structure BodyFile (β : Type) where
  read : Option Int → EStateM Raised β Bytes
  readline : Option Int → EStateM Raised β Bytes
  drain : EStateM Raised β Unit

section Respond
variable (srv : Server)

/-- `send_headers` decides how the length of the response is told. -/
def frameResponse (hkeys : List Bytes) (status : Int) (req : HTTPRequest) : HTTPRequest :=
  if status = 413 then { req with close_connection := true }
  else if hkeys.contains (ascii "content-length") then req
  else if status < 200 ∨ status = 204 ∨ status = 205 ∨ status = 304 then req
  else if req.response_protocol = HTTP_1_1 ∧ req.method ≠ some (ascii "HEAD") then
    { req with chunked_write := true, outheaders := req.outheaders ++ [(ascii "Transfer-Encoding", ascii "chunked")] }
  else { req with close_connection := true }

def tellConnection (hkeys : List Bytes) (req : HTTPRequest) : HTTPRequest :=
  if hkeys.contains (ascii "connection") then req
  else if req.response_protocol = HTTP_1_1 then
    if req.close_connection then { req with outheaders := req.outheaders ++ [(ascii "Connection", ascii "close")] } else req
  else if req.close_connection then req
  else { req with outheaders := req.outheaders ++ [(ascii "Connection", ascii "Keep-Alive")] }

def addHeader (hkeys : List Bytes) (key k v : Bytes) (req : HTTPRequest) : HTTPRequest :=
  if hkeys.contains key then req else { req with outheaders := req.outheaders ++ [(k, v)] }

/-- The first line of the response and its headers. -/
def responseHead (req : HTTPRequest) : Bytes :=
  srv.protocol ++ ascii " " ++ req.status ++ CRLF ++
    (req.outheaders.flatMap fun header => header.1 ++ ascii ": " ++ header.2 ++ CRLF) ++ CRLF

def outKeys (req : HTTPRequest) : List Bytes := req.outheaders.map fun header => lower header.1

/-- `HTTPRequest.write` -/
def requestWrite (chunk : Bytes) : ExchangeM Unit := do
  let req ← getReq
  sendall (if req.chunked_write then writeChunk chunk else chunk)

/-- The value of `content-length`, the last one. -/
def declaredLength : Option Int → List (Bytes × Bytes) → Except Raised (Option Int)
  | length, [] => .ok length
  | length, (k, v) :: headers =>
    if lower k = ascii "content-length" then
      match int v with
      | .error e => .error e
      | .ok n => declaredLength (some n) headers
    else declaredLength length headers

def startResponse (status : Bytes) (headers : List (Bytes × Bytes)) : ExchangeM Unit := do
  let gateway ← getGateway
  if gateway.started_response then
    throw (.assertionError "WSGI start_response called a second time with no exc_info.")
  else do
    setGateway { gateway with started_response := true }
    setReq fun req => { req with status := status }
    let length ← raiseOr (declaredLength gateway.remaining_bytes_out headers)
    setGateway { started_response := true, remaining_bytes_out := length }
    setReq fun req => { req with outheaders := req.outheaders ++ headers }

variable {β : Type} (body : BodyFile β)

abbrev RespondM (β : Type) := EStateM Raised (Wrapped β Exchange)

/-- What is left of the body is read if the connection stays open. -/
def drainBody : RespondM β Unit := do
  let req ← outer getReq
  if ¬ req.close_connection ∧ ¬ req.chunked_read then Wrapped.inner body.drain else pure ()

/-- `send_headers`, and `sent_headers` set in front of it. -/
def sendHeaders : RespondM β Unit := do
  outer (setReq fun req => { req with sent_headers := true })
  let req ← outer getReq
  let status ← outer (raiseOr (int (req.status.take 3)))
  outer (setReq fun req' => tellConnection (outKeys req) (frameResponse (outKeys req) status req'))
  drainBody body
  outer (setReq fun req' => addHeader (outKeys req) (ascii "server") (ascii "Server") srv.server_name
    (addHeader (outKeys req) (ascii "date") (ascii "Date") srv.date req'))
  let req ← outer getReq
  outer (sendall (responseHead srv req))

def sendHeadersOnce : RespondM β Unit := do
  let req ← outer getReq
  if req.sent_headers then pure () else sendHeaders srv body

/-- The chunk does not fit, before the headers or behind them. -/
def fitChunk (chunk : Bytes) (rbo : Option Int) : ExchangeM Bytes := do
  let req ← getReq
  match rbo with
  | none => pure chunk
  | some n =>
    if n < chunk.length then
      if req.sent_headers then pure (if n < 0 then chunk.take (chunk.length - (-n).toNat) else chunk.take n.toNat)
      else do
        simpleResponse srv (ascii "500 Internal Server Error")
          (ascii "The requested resource returned more bytes than the declared Content-Length.")
        pure chunk
    else pure chunk

/-- `WSGIGateway.write` -/
def gatewayWrite (chunk : Bytes) : RespondM β Unit := do
  let gateway ← outer getGateway
  if ¬ gateway.started_response then throw (.assertionError "WSGI write called before start_response.")
  else do
    let fitted ← outer (fitChunk srv chunk gateway.remaining_bytes_out)
    sendHeadersOnce srv body
    outer (requestWrite fitted)
    match gateway.remaining_bytes_out with
    | none => pure ()
    | some n =>
      if n - chunk.length < 0 then throw (.valueError "Response body exceeds the declared Content-Length." none)
      else pure ()

/-- An item that the application yields, if it is not empty. -/
def writeItem (chunk : Bytes) : RespondM β Unit := if chunk = [] then pure () else gatewayWrite srv body chunk

def runApp : App → RespondM β Unit
  | .read size next => do
    let data ← Wrapped.inner (body.read size)
    runApp (next data)
  | .readline size next => do
    let data ← Wrapped.inner (body.readline size)
    runApp (next data)
  | .start_response status headers next => do
    outer (startResponse status headers)
    runApp next
  | .write chunk next => do
    gatewayWrite srv body chunk
    runApp next
  | .yields chunk next => do
    writeItem srv body chunk
    runApp next
  | .raises e => throw e
  | .returns => pure ()

/-- The end of a response that is sent in chunks. -/
def lastChunk : ExchangeM Unit := do
  let req ← getReq
  sendall (if req.chunked_write then ascii "0\r\n\r\n" else [])

/-- The gateway answers the request. -/
def runGateway (wsgi_app : Environ → App) : RespondM β Unit := do
  let req ← outer getReq
  let env ← outer (raiseOr (getEnviron req))
  runApp srv body (wsgi_app env)
  sendHeadersOnce srv body
  outer lastChunk

end Respond

section Communicate
variable (srv : Server) (wsgi_app : Environ → App) {σ : Type} (rfile : FileReader Raised σ UInt8) (fuel : Nat)

def knownLengthFile : BodyFile (Wrapped σ KnownLength) := ⟨knownLengthRead rfile, knownLengthReadline rfile, drain rfile⟩

/-- `send_headers` finds no attribute `remaining` there. -/
def chunkedFile : BodyFile (Wrapped σ Chunked) := ⟨chunkedRead rfile fuel, chunkedReadline rfile fuel, pure ()⟩

/-- The file of the body, if the server takes it: chunked, or of a known length. -/
def bodyOf (req : HTTPRequest) : Except Raised (Option (Chunked ⊕ KnownLength)) :=
  if req.chunked_read then .ok (some (.inl ⟨srv.max_request_body_size, 0, [], false⟩))
  else
    match contentLength req.inheaders with
    | .error e => .error e
    | .ok length =>
      if srv.max_request_body_size ≠ 0 ∧ (srv.max_request_body_size : Int) < length then .ok none
      else .ok (some (.inr ⟨length⟩))

/-- A connection: the file that is read, and the exchange. -/
abbrev ConnectionM (σ : Type) := EStateM Raised (Wrapped σ Exchange)

def respond : ConnectionM σ Unit := do
  let req ← outer getReq
  match ← outer (raiseOr (bodyOf srv req)) with
  | none =>
    if req.sent_headers then pure ()
    else outer (simpleResponse srv (ascii "413 Request Entity Too Large")
      (ascii "The entity sent with the request exceeds the maximum allowed bytes."))
  | some (.inl own) => wrapping own (runGateway srv (chunkedFile rfile fuel) wsgi_app)
  | some (.inr own) => wrapping own (runGateway srv (knownLengthFile rfile) wsgi_app)

/-- One turn of the loop of `communicate`; `request_seen`, and whether it goes on. -/
def turn : ConnectionM σ Bool := do
  outer newRequest
  wrapping ⟨srv.max_request_header_size, 0⟩ (parseRequest srv rfile fuel)
  let req ← outer getReq
  if ¬ req.ready then pure false
  else do
    respond srv wsgi_app rfile fuel
    let req ← outer getReq
    pure ! req.close_connection

/-- The handlers of `communicate`. -/
def handle (request_seen : Bool) : Raised → ExchangeM Unit
  | .running => throw .running
  | .socketError errnum => do
    let req ← getReq
    if errnum = .text "timed out" ∨ errnum = .text "The read operation timed out" then
      if ¬ (request_seen || req.ready) ∨ req.started_request then
        if req.sent_headers then pure () else simpleResponse srv (ascii "408 Request Timeout") []
      else pure ()
    else if errnum ∈ srv.socket_errors_to_ignore then pure ()
    else if req.sent_headers then pure ()
    else simpleResponse srv (ascii "500 Internal Server Error") (srv.format_exc (.socketError errnum))
  | e => do
    let req ← getReq
    if req.sent_headers then pure () else simpleResponse srv (ascii "500 Internal Server Error") (srv.format_exc e)

def communicate : Nat → Bool → ConnectionM σ Unit
  | 0, _ => throw .running
  | turns + 1, request_seen => do
    match ← attempt (turn srv wsgi_app rfile fuel) with
    | .ok true => communicate turns true
    | .ok false => pure ()
    | .error e => outer (handle srv request_seen e)

end Communicate

/-- What is sent with a status other than 413 and 414. -/
def simpleText (srv : Server) (status msg : Bytes) : Bytes :=
  srv.protocol ++ ascii " " ++ status ++ CRLF ++ ascii "Content-Length: " ++ decimal msg.length ++ CRLF ++
    ascii "Content-Type: text/plain\r\n" ++ [] ++ CRLF ++ msg

section Runs
variable {α : Type}

theorem setReq_bind (f : HTTPRequest → HTTPRequest) (k : Unit → ExchangeM α) (x : Exchange) :
    (setReq f >>= k) x = k () { x with req := f x.req } := rfl

theorem getReq_bind (k : HTTPRequest → ExchangeM α) (x : Exchange) : (getReq >>= k) x = k x.req x := rfl

theorem raiseOr_bind {β : Type} (a : β) (k : β → ExchangeM α) (x : Exchange) : (raiseOr (.ok a) >>= k) x = k a x := rfl

theorem getGateway_bind (k : WSGIGateway → ExchangeM α) (x : Exchange) : (getGateway >>= k) x = k x.gateway x := rfl

theorem setGateway_bind (gateway : WSGIGateway) (k : Unit → ExchangeM α) (x : Exchange) :
    (setGateway gateway >>= k) x = k () { x with gateway := gateway } := rfl

theorem outer_setReq_bind {ρ : Type} (f : HTTPRequest → HTTPRequest) (k : Unit → ConnectionM ρ α) (w : Wrapped ρ Exchange) :
    (outer (setReq f) >>= k) w = k () { w with own := { w.own with req := f w.own.req } } := rfl

theorem outer_getReq_bind {ρ : Type} (k : HTTPRequest → ConnectionM ρ α) (w : Wrapped ρ Exchange) :
    (outer getReq >>= k) w = k w.own.req w := rfl

theorem outer_newRequest_bind {ρ : Type} (k : Unit → ConnectionM ρ α) (w : Wrapped ρ Exchange) :
    (outer newRequest >>= k) w = k () { w with own := ⟨HTTPRequest.init, ⟨false, none⟩, w.own.wfile⟩ } := rfl

theorem simpleResponse_run {srv : Server} {status : Bytes} (small : tooLarge status = false) (msg : Bytes) (x : Exchange) :
    simpleResponse srv status msg x = .ok () { x with wfile := x.wfile ++ simpleText srv status msg } := by
  unfold simpleResponse
  simp only [small, Bool.or_false]
  rfl

end Runs

end CodeClips.CherryPy
