import Mathlib.Data.Prod.Lex
import WsEngine.Ws.Handshake

/-! # Which requests are accepted

`onHeaderComplete` answers a request with 101 or with 400. Which requests open a WebSocket
connection is stated over the headers as they were received: names in any case, the value of
`Connection` a list of tokens, the version a pair in lexicographic order. The checks of the code
look names up as they are spelled there, and compare the version digit by digit, so they agree
with that only on the requests of `answers_iff`. -/
set_option autoImplicit false

namespace WsEngine

/-! ## The specification -/

/-- The elements of a comma separated header value, without the blanks around them. -/
def tokens (value : Bytes) : List Bytes :=
  let blank (byte : UInt8) : Bool := byte == 32 || byte == 9
  (value.splitOn 44).map fun token =>
    ((token.dropWhile blank).reverse.dropWhile blank).reverse

/-- The token is among the elements, in any case. -/
def HasToken (value token : Bytes) : Prop := ∃ element ∈ tokens value, toLower element = token

instance (value token : Bytes) : Decidable (HasToken value token) :=
  inferInstanceAs (Decidable (∃ element ∈ tokens value, _))

/-- A header of that name, in any case, whose value is as `P` says. -/
def Has (headers : List (Bytes × Bytes)) (name : String) (P : Bytes → Prop) : Prop :=
  ∃ header ∈ headers, toLower header.1 = toLower (ascii name) ∧ P header.2

/-- A request that opens a WebSocket connection. -/
structure Acceptable (request : RequestLine) (headers : List (Bytes × Bytes)) : Prop where
  method : request.method = HTTP_GET
  version : toLex (1, 1) ≤ toLex (request.http_major, request.http_minor)
  host : Has headers "Host" (· ≠ [])
  upgrade : Has headers "Upgrade" (toLower · = ascii "websocket")
  connection : Has headers "Connection" (HasToken · (ascii "upgrade"))
  webSocketVersion : Has headers "Sec-WebSocket-Version" (· = ascii "13")
  key : Has headers "Sec-WebSocket-Key" (·.length = 24)

/-- The first header that is spelled exactly so has a value as `P` says. -/
def Finds (headers : List (Bytes × Bytes)) (name : String) (P : Bytes → Prop) : Prop :=
  ∃ value, headers.lookup (ascii name) = some value ∧ P value

/-- The five headers as the checks want them, letter by letter in the names and in `Upgrade` of
`Connection`. -/
structure Spelled (headers : List (Bytes × Bytes)) : Prop where
  host : Finds headers "Host" (· ≠ [])
  upgrade : Finds headers "Upgrade" (toLower · = ascii "websocket")
  connection : Finds headers "Connection" (· = ascii "Upgrade")
  webSocketVersion : Finds headers "Sec-WebSocket-Version" (· = ascii "13")
  key : Finds headers "Sec-WebSocket-Key" (·.length = 24)

instance (headers : List (Bytes × Bytes)) (name : String) (P : Bytes → Prop) [DecidablePred P] :
    Decidable (Has headers name P) :=
  inferInstanceAs (Decidable (∃ header ∈ headers, _ ∧ P header.2))

/-- A request line that the first two checks pass. -/
def RequestLine.Passes (request : RequestLine) : Prop :=
  request.method = HTTP_GET ∧ (1 < request.http_major ∨ 1 ≤ request.http_minor)

theorem Finds.has {headers : List (Bytes × Bytes)} {name : String} {P Q : Bytes → Prop}
    (h : Finds headers name P) (hPQ : ∀ value, P value → Q value) : Has headers name Q := by
  obtain ⟨value, hlookup, hvalue⟩ := h
  obtain ⟨before, after, heq, -⟩ := List.lookup_eq_some_iff.mp hlookup
  refine ⟨(ascii name, value), ?_, rfl, hPQ value hvalue⟩
  rw [heq]
  exact List.mem_append_right _ (List.mem_cons_self ..)

theorem version_iff (request : RequestLine) :
    toLex (1, 1) ≤ toLex (request.http_major, request.http_minor) ↔
      1 < request.http_major ∨ request.http_major = 1 ∧ 1 ≤ request.http_minor := by
  rw [Prod.Lex.toLex_le_toLex]
  simp only [eq_comm]

/-- What passes the checks is acceptable, but for versions below 1.0. -/
theorem Spelled.acceptable {request : RequestLine} {headers : List (Bytes × Bytes)}
    (h : Spelled headers) (hpass : request.Passes) (hmajor : request.http_major ≠ 0) :
    Acceptable request headers where
  method := hpass.1
  version := by
    obtain ⟨-, hversion⟩ := hpass
    rw [version_iff]
    omega
  host := h.host.has fun _ hvalue => hvalue
  upgrade := h.upgrade.has fun _ hvalue => hvalue
  connection := by
    apply h.connection.has
    rintro _ rfl
    decide
  webSocketVersion := h.webSocketVersion.has fun _ hvalue => hvalue
  key := h.key.has fun _ hvalue => hvalue

theorem Acceptable.passes {request : RequestLine} {headers : List (Bytes × Bytes)}
    (h : Acceptable request headers) : request.Passes ∧ request.http_major ≠ 0 := by
  have hversion := (version_iff request).mp h.version
  refine ⟨⟨h.method, ?_⟩, ?_⟩
  · omega
  · omega

/-! ## What the checks find -/

theorem check_iff {c : Prop} [Decidable c] {b : Bool} :
    (if c then false else b) = true ↔ ¬ c ∧ b = true := by
  by_cases h : c
  · simp [h]
  · simp [h]

theorem finds_of_lookup {headers : List (Bytes × Bytes)} {name : String} {P : Bytes → Prop}
    {value : Bytes} (h : headers.lookup (ascii name) = some value) :
    Finds headers name P ↔ P value := by
  constructor
  · rintro ⟨found, hfound, hP⟩
    cases h.symm.trans hfound
    exact hP
  · intro hP
    exact ⟨value, h, hP⟩

theorem not_finds {headers : List (Bytes × Bytes)} {name : String} {P : Bytes → Prop}
    (h : headers.lookup (ascii name) = none) : ¬ Finds headers name P := by
  rintro ⟨found, hfound, -⟩
  cases h.symm.trans hfound

theorem finds_eq {headers : List (Bytes × Bytes)} {name : String} {wanted : Bytes} :
    Finds headers name (· = wanted) ↔ headers.lookup (ascii name) = some wanted := by
  constructor
  · rintro ⟨found, hfound, rfl⟩
    exact hfound
  · intro h
    exact ⟨wanted, h, rfl⟩

/-- **The checks** of `onHeaderComplete`. -/
theorem verdict_iff (request : RequestLine) (headers : List (Bytes × Bytes)) :
    verdict request headers = true ↔ request.Passes ∧ Spelled headers := by
  have hspelled : Spelled headers ↔ Finds headers "Host" (· ≠ []) ∧
      Finds headers "Upgrade" (toLower · = ascii "websocket") ∧
      Finds headers "Connection" (· = ascii "Upgrade") ∧
      Finds headers "Sec-WebSocket-Version" (· = ascii "13") ∧
      Finds headers "Sec-WebSocket-Key" (·.length = 24) :=
    ⟨fun h => ⟨h.host, h.upgrade, h.connection, h.webSocketVersion, h.key⟩,
      fun ⟨hhost, hupgrade, hconnection, hversion, hkey⟩ =>
        ⟨hhost, hupgrade, hconnection, hversion, hkey⟩⟩
  have hversion : ¬ (request.http_major ≤ 1 ∧ request.http_minor < 1) ↔
      1 < request.http_major ∨ 1 ≤ request.http_minor := by
    omega
  have hhost : ¬ (headers.lookup (ascii "Host") = none ∨ headers.lookup (ascii "Host") = some []) ↔
      Finds headers "Host" (· ≠ []) := by
    cases hlookup : headers.lookup (ascii "Host") with
    | none => simp [not_finds hlookup]
    | some value => simp [finds_of_lookup hlookup]
  rw [hspelled, RequestLine.Passes]
  unfold verdict
  rw [check_iff, check_iff, check_iff, hversion, hhost, not_not, and_assoc]
  apply and_congr_right'
  apply and_congr_right'
  apply and_congr_right'
  cases hupgrade : headers.lookup (ascii "Upgrade") with
  | none => simp [not_finds hupgrade]
  | some upgrade =>
    simp only [check_iff, finds_of_lookup hupgrade, finds_eq, not_not]
    apply and_congr_right'
    apply and_congr_right'
    apply and_congr_right'
    cases hkey : headers.lookup (ascii "Sec-WebSocket-Key") with
    | none => simp [not_finds hkey]
    | some key => simp [finds_of_lookup hkey]

namespace WebSocketConnection

/-! ## The answer -/

def BAD_REQUEST : Bytes := ascii "HTTP/1.1 400 Bad Request\r\n\r\n"

def UPGRADE_RESPONSE : Bytes :=
  ascii "HTTP/1.1 101 Switching Protocols\r\nUpgrade: websocket\r\nConnection: Upgrade\r\n"

def MAGIC : Bytes := ascii "258EAFA5-E914-47DA-95CA-C5AB0DC85B11"

section
-- `sha1.get_digest`, five words, and `base64_encode`, both from boost
variable (sha1 : Bytes → Fin 5 → ℕ) (base64_encode : Bytes → Bytes)

def computeAcceptKey (nonce : Bytes) : Bytes :=
  base64_encode ((List.ofFn (sha1 (nonce ++ MAGIC))).flatMap Buffer.htonl)

/-- `connCb_`, which an application may have set and which can do anything to the connection. -/
abbrev WSConnectionCallback :=
  Option (WebSocketConnection → Except WebSocketConnection WebSocketConnection)

def connect (connCb_ : WSConnectionCallback) (ws : WebSocketConnection) :
    Except WebSocketConnection WebSocketConnection :=
  match connCb_ with
  | some callback => callback ws
  | none => .ok ws

def handleConnection (connCb_ : WSConnectionCallback) (ws : WebSocketConnection) :
    Except WebSocketConnection WebSocketConnection :=
  connect connCb_ { ws with status_ := .CONNECT }

/-- What is sent to accept a request. -/
def acceptance (headers : List (Bytes × Bytes)) : Bytes :=
  let key := (headers.lookup (ascii "Sec-WebSocket-Key")).getD []
  UPGRADE_RESPONSE ++ ascii "Sec-WebSocket-Accept: " ++ computeAcceptKey sha1 base64_encode key ++
    ascii "\r\n\r\n"

def onHeaderComplete (connCb_ : WSConnectionCallback) (ws : WebSocketConnection)
    (request : RequestLine) : Except WebSocketConnection WebSocketConnection :=
  if verdict request ws.headers_ then
    (ws.emit (.send (acceptance sha1 base64_encode ws.headers_))).handleConnection connCb_
  else .ok ((ws.emit (.send BAD_REQUEST)).emit .closeTcp)

/-- It is answered with 101, and the connection is in `CONNECT` when `connCb_` gets it. -/
def Accepts (ws : WebSocketConnection) (request : RequestLine) : Prop :=
  ∃ w : WebSocketConnection, w.status_ = .CONNECT ∧
    w.trace = ws.trace ++ [.send (acceptance sha1 base64_encode ws.headers_)] ∧
    ∀ connCb_, ws.onHeaderComplete sha1 base64_encode connCb_ request = connect connCb_ w

/-- It is answered with 400 and the TCP connection is closed, and nothing else happens. -/
def Rejects (ws : WebSocketConnection) (request : RequestLine) : Prop :=
  ∀ connCb_, ws.onHeaderComplete sha1 base64_encode connCb_ request =
    .ok { ws with trace := ws.trace ++ [.send BAD_REQUEST, .closeTcp] }

theorem accepts_of_verdict {ws : WebSocketConnection} {request : RequestLine}
    (h : verdict request ws.headers_ = true) : ws.Accepts sha1 base64_encode request := by
  refine ⟨{ ws.emit (.send (acceptance sha1 base64_encode ws.headers_)) with
    status_ := .CONNECT }, rfl, rfl, ?_⟩
  intro connCb_
  rw [onHeaderComplete, if_pos h, handleConnection]

theorem rejects_of_verdict {ws : WebSocketConnection} {request : RequestLine}
    (h : ¬ verdict request ws.headers_ = true) : ws.Rejects sha1 base64_encode request := by
  intro connCb_
  rw [onHeaderComplete, if_neg h]
  simp [emit]

theorem not_accepts_of_rejects {ws : WebSocketConnection} {request : RequestLine}
    (h : ws.Rejects sha1 base64_encode request) : ¬ ws.Accepts sha1 base64_encode request := by
  rintro ⟨w, -, htrace, hresult⟩
  have heq := (h none).symm.trans (hresult none)
  have hsame := congrArg WebSocketConnection.trace (Except.ok.inj heq)
  have hlength := congrArg List.length (hsame.trans htrace)
  simp at hlength

theorem accepts_iff (ws : WebSocketConnection) (request : RequestLine) :
    ws.Accepts sha1 base64_encode request ↔ verdict request ws.headers_ = true := by
  constructor
  · intro h
    by_contra hv
    exact not_accepts_of_rejects sha1 base64_encode (rejects_of_verdict sha1 base64_encode hv) h
  · exact accepts_of_verdict sha1 base64_encode

/-- **Handshake acceptance**, of a request with the headers `received`. -/
def AnswersRequest (ws : WebSocketConnection) (request : RequestLine)
    (received : List (Bytes × Bytes)) : Prop :=
  (ws.Accepts sha1 base64_encode request ↔ Acceptable request received) ∧
    (¬ Acceptable request received → ws.Rejects sha1 base64_encode request)

/-! ## The headers that were received -/

/-- The callbacks of a header in one piece. -/
def headerCallbacks (header : Bytes × Bytes) : List HeaderCallback :=
  [.field header.1, .value header.2]

theorem onHeaders_header {ws w : WebSocketConnection} {header : Bytes × Bytes}
    (h : ws.onHeaders (headerCallbacks header) = .ok w) :
    w.headers_ = insertHeader ws.headers_ header.1 header.2 := by
  simp only [headerCallbacks, onHeaders, onHeader, setHeaderValue, setLastHeaderField, bind,
    Except.bind] at h
  by_cases hname : header.1 = []
  · rw [if_pos hname] at h
    cases h
  · rw [if_neg hname] at h
    cases h
    rfl

/-- The map has the first value of each name. -/
theorem onHeaders_lookup {ws w : WebSocketConnection} {received : List (Bytes × Bytes)}
    (h : ws.onHeaders (received.flatMap headerCallbacks) = .ok w) (k : Bytes) :
    w.headers_.lookup k = (ws.headers_.lookup k).or (received.lookup k) := by
  induction received generalizing ws with
  | nil =>
    cases h
    simp
  | cons header received ih =>
    rw [List.flatMap_cons, onHeaders_append] at h
    cases hone : ws.onHeaders (headerCallbacks header) with
    | error e =>
      rw [hone] at h
      cases h
    | ok next =>
      rw [hone] at h
      rw [ih h, onHeaders_header hone, lookup_insertHeader, Option.or_assoc, ← List.lookup_append]
      rfl

/-- **Acceptance is as specified** exactly when the headers of an acceptable request are spelled as
the checks spell them, and a request of a version below 1.0 fails another check. -/
theorem answersRequest_iff {ws w : WebSocketConnection} (request : RequestLine)
    {received : List (Bytes × Bytes)} (hempty : ws.headers_ = [])
    (h : ws.onHeaders (received.flatMap headerCallbacks) = .ok w) :
    w.AnswersRequest sha1 base64_encode request received ↔
      (Acceptable request received → Spelled received) ∧
        (request.Passes → Spelled received → request.http_major ≠ 0) := by
  have hsame (k : Bytes) : w.headers_.lookup k = received.lookup k := by
    rw [onHeaders_lookup h k, hempty]
    simp
  have haccepts : w.Accepts sha1 base64_encode request ↔ request.Passes ∧ Spelled received := by
    rw [accepts_iff, verdict_congr request hsame, verdict_iff]
  constructor
  · rintro ⟨hiff, -⟩
    rw [haccepts] at hiff
    refine ⟨fun hacceptable => (hiff.mpr hacceptable).2, fun hpass hspelled => ?_⟩
    exact (hiff.mp ⟨hpass, hspelled⟩).passes.2
  · rintro ⟨hspelled, hmajor⟩
    have hiff : w.Accepts sha1 base64_encode request ↔ Acceptable request received := by
      rw [haccepts]
      constructor
      · rintro ⟨hpass, hs⟩
        exact hs.acceptable hpass (hmajor hpass hs)
      · intro hacceptable
        exact ⟨hacceptable.passes.1, hspelled hacceptable⟩
    refine ⟨hiff, fun hnot => ?_⟩
    apply rejects_of_verdict
    rw [← accepts_iff sha1 base64_encode, hiff]
    exact hnot

end

/-- The headers of a client, with the names in some case. -/
def clientHeaders (host upgrade connection version key : String) : List (Bytes × Bytes) :=
  [(ascii host, ascii "server.example.com"),
    (ascii upgrade, ascii "websocket"),
    (ascii connection, ascii "Upgrade"),
    (ascii key, ascii "dGhlIHNhbXBsZSBub25jZQ=="),
    (ascii version, ascii "13")]

/-- The names as the checks spell them. -/
theorem answersRequest_iff_spelled :
    let received := clientHeaders "Host" "Upgrade" "Connection" "Sec-WebSocket-Version"
      "Sec-WebSocket-Key"
    ∃ w, initial.onHeaders (received.flatMap headerCallbacks) = .ok w ∧
      w.AnswersRequest
        (fun _ => [0xb37a4f2c, 0xc0624f16, 0x90f64606, 0xcf385945, 0xb2bec4ea].get)
        (fun _ => ascii "s3pPLMBiTxaQ9kYGzzhZRbK+xOo=") ⟨HTTP_GET, 1, 1⟩ received := by
  intro received
  have hspelled : Spelled received :=
    ⟨⟨_, rfl, by decide⟩, ⟨_, rfl, by decide⟩, ⟨_, rfl, rfl⟩, ⟨_, rfl, rfl⟩, ⟨_, rfl, rfl⟩⟩
  have hrun : initial.onHeaders (received.flatMap headerCallbacks) = .ok
      { initial with headers_ := received } := by rfl
  refine ⟨_, hrun, (answersRequest_iff _ _ _ rfl hrun).mpr ⟨fun _ => hspelled, ?_⟩⟩
  intro _ _
  decide

/-- The same request with the names in lower case. -/
theorem not_answersRequest_lower :
    let received := clientHeaders "host" "upgrade" "connection" "sec-websocket-version"
      "sec-websocket-key"
    ∃ w, initial.onHeaders (received.flatMap headerCallbacks) = .ok w ∧
      ∀ sha1 base64_encode,
        ¬ w.AnswersRequest sha1 base64_encode ⟨HTTP_GET, 1, 1⟩ received := by
  intro received
  have hrun : initial.onHeaders (received.flatMap headerCallbacks) = .ok
      { initial with headers_ := received } := by rfl
  refine ⟨_, hrun, fun sha1 base64_encode => ?_⟩
  rintro ⟨hiff, -⟩
  have hacceptable : Acceptable ⟨HTTP_GET, 1, 1⟩ received := by
    constructor
    all_goals decide
  have hverdict := (accepts_iff sha1 base64_encode _ _).mp (hiff.mpr hacceptable)
  revert hverdict
  decide

end WebSocketConnection
end WsEngine
