import WsEngine.Ws.Upgrade

/-! # The answer to a request

A request in any reads is answered once, behind the last of them, as `verdict` says of the headers that
its fragments make, and what follows it in that read stays in the buffer, byte for byte. Where
the handlers refuse a fragment there is no answer. In one read every header is in one piece, so that the
answer is the one to the request as it was sent (`request_answered`). -/
set_option autoImplicit false

namespace WsEngine
open Http (Request http_parser_init executeAll max_header_size)

/-- The application only sets its callbacks. -/
def Greeting.Quiet (greeting : Greeting) : Prop := ∀ trace, greeting.calls trace = []

namespace WebSocketConnection

/-! ## What the handlers leave alone -/

theorem onHeader_eq {ws w : WebSocketConnection} {c : HeaderCallback} (h : ws.onHeader c = .ok w) :
    w = { ws with
      headers_ := w.headers_
      lastHeaderField_ := w.lastHeaderField_ } := by
  cases c with
  | field bytes =>
    cases h
    rfl
  | value bytes =>
    rw [onHeader, setHeaderValue] at h
    split at h
    · cases h
    · cases h
      rfl

theorem onHeaders_eq {ws w : WebSocketConnection} {cs : List HeaderCallback}
    (h : ws.onHeaders cs = .ok w) : w = { ws with
      headers_ := w.headers_
      lastHeaderField_ := w.lastHeaderField_ } := by
  induction cs generalizing ws with
  | nil =>
    cases h
    rfl
  | cons c cs ih =>
    obtain ⟨v, hv, hw⟩ := Except.bind_eq_ok.mp h
    rw [ih hw, onHeader_eq hv]

theorem onHeaders_input (ws : WebSocketConnection) (inputBuffer : Buffer) (cs : List HeaderCallback) :
    let put (ws : WebSocketConnection) : WebSocketConnection := { ws with inputBuffer := inputBuffer }
    (put ws).onHeaders cs = (ws.onHeaders cs).both put put := by
  intro put
  induction cs generalizing ws with
  | nil => rfl
  | cons c cs ih =>
    refine (Except.both_bind ?_ fun v _ => (ih v).symm).symm
    cases c with
    | field bytes => rfl
    | value bytes => exact Except.both_ite Iff.rfl rfl rfl

end WebSocketConnection

namespace Opening

section
variable {π : Type} {sha1 : Bytes → Fin 5 → ℕ} {base64_encode : Bytes → Bytes}
  {connCb_ : Option Greeting}

theorem reports_append (s : Opening π) (uv : ℕ → ℤ) (rs more : List Report) :
    s.reports sha1 base64_encode connCb_ uv (rs ++ more) =
      s.reports sha1 base64_encode connCb_ uv rs >>= fun s =>
        s.reports sha1 base64_encode connCb_ uv more := by
  induction rs generalizing s with
  | nil => rfl
  | cons r rs ih =>
    rw [List.cons_append, reports, reports]
    cases s.report sha1 base64_encode connCb_ uv r with
    | error f => rfl
    | ok a => exact ih a

theorem reports_headers (s : Opening π) (uv : ℕ → ℤ) (cs : List HeaderCallback) :
    s.reports sha1 base64_encode connCb_ uv (cs.map .header) =
      ((s.ws.onHeaders cs).mapError OpeningFault.ws).map fun ws => { s with ws := ws } := by
  induction cs generalizing s with
  | nil => rfl
  | cons c cs ih =>
    rw [List.map_cons, reports, report, WebSocketConnection.onHeaders]
    cases s.ws.onHeader c with
    | error w => rfl
    | ok w => exact ih { s with ws := w }

end

/-! ## One read -/

/-- The connection with the bytes that were read. -/
def received {π : Type} (s : Opening π) (bytes : Bytes) : Opening π := { s with
  tcp := { s.tcp with buf := s.tcp.buf.write bytes }.handleMessage bytes.length
  ws := s.ws.receive bytes }

/-- What `parse` does behind the callbacks. -/
def consumed (s : Opening Live) (e : Http.Executed) (h : e.parser.Lives) :
    Except OpeningFault (Opening Live) :=
  match s.ws.inputBuffer.retrieve e.nparsed with
  | some inputBuffer => .ok { s with
      ws := { s.ws with inputBuffer := inputBuffer }
      parser := ⟨e.parser, h⟩ }
  | none => .error (.ws s.ws)

theorem consumed_eq {s : Opening Live} {e : Http.Executed} (h : e.parser.Lives) (bytes rest : Bytes)
    (hs : s.ws.inputBuffer.readable = bytes ++ rest) (hnparsed : e.nparsed = bytes.length) :
    s.consumed e h = .ok { s with
      ws := { s.ws with inputBuffer := s.ws.inputBuffer.advance e.nparsed }
      parser := ⟨e.parser, h⟩ } := by
  have hle : e.nparsed ≤ s.ws.inputBuffer.readable.length := by
    rw [hs, hnparsed, List.length_append]
    omega
  rw [consumed, Buffer.retrieve_eq hle]

theorem reports_complete {π : Type} (sha1 : Bytes → Fin 5 → ℕ) (base64_encode : Bytes → Bytes)
    (connCb_ : Option Greeting) (s : Opening π) (uv : ℕ → ℤ) (request : RequestLine) :
    s.reports sha1 base64_encode connCb_ uv [.headersComplete request] =
      s.onHeaderComplete sha1 base64_encode connCb_ request (uv s.answers.length) := by
  rw [reports, report]
  cases s.onHeaderComplete sha1 base64_encode connCb_ request (uv s.answers.length) <;> rfl

/-- In `INITIAL` between two reads, all of it parsed. -/
structure Waiting (s : Opening Live) : Prop where
  status : s.ws.status_ = .INITIAL
  wanted : s.ws.wanted_ = 0
  input : s.ws.inputBuffer.readable = []
  reading : s.tcp.reading = true

theorem readable_received {s : Opening Live} (h : s.Waiting) (bytes : Bytes) :
    (s.received bytes).ws.inputBuffer.readable = bytes := by
  change (s.ws.inputBuffer.write bytes).readable = _
  rw [Buffer.readable_write, h.input, List.nil_append]

section
variable (sha1 : Bytes → Fin 5 → ℕ) (base64_encode : Bytes → Bytes) (connCb_ : Option Greeting)

theorem Waiting.step_read {s : Opening Live} (h : s.Waiting) {bytes : Bytes} (hb : bytes ≠ [])
    (uv : ℕ → ℤ) {e : Http.Executed} (he : Http.http_parser_execute s.parser.1 bytes = some e) :
    ∃ hlives, s.step httpParser sha1 base64_encode connCb_ (.read bytes uv) =
      (s.received bytes).reports sha1 base64_encode connCb_ uv (e.calls.filterMap Http.Call.report)
        >>= fun a => a.consumed e hlives := by
  have hexecute := Live.execute_eq he
  have hlives := s.parser.execute_lives bytes
  rw [hexecute] at hlives
  refine ⟨hlives, ?_⟩
  change ((s.tcp.step (.readData bytes)).mapError OpeningFault.tcp >>= _) = _
  rw [TcpConnection.step_readData s.tcp hb]
  change (s.received bytes).parse httpParser sha1 base64_encode connCb_ uv = _
  have hwanted : (s.received bytes).ws.wanted_ = 0 := h.wanted
  have hpeek : (s.received bytes).ws.inputBuffer.peek (s.received bytes).ws.inputBuffer.readableBytes =
      bytes := readable_received h bytes
  unfold parse
  rw [if_neg (by omega), hpeek]
  change (reports _ _ _ _ _ ((s.parser.execute bytes).calls.filterMap Http.Call.report) >>= _) = _
  rw [hexecute]
  refine congrArg _ (funext fun a => ?_)
  unfold consumed
  subst hexecute
  have hretrieve : a.ws.inputBuffer.retrieve (httpParser.execute (s.received bytes).parser bytes).2.1 =
      a.ws.inputBuffer.retrieve (s.parser.execute bytes).nparsed := rfl
  rw [hretrieve]
  cases a.ws.inputBuffer.retrieve (s.parser.execute bytes).nparsed <;> rfl

/-- The connection has heard headers, which made `ws` of the WebSocket connection. -/
structure Heard (s : Opening Live) (ws : WebSocketConnection) (s' : Opening Live) : Prop where
  ws : ∃ inputBuffer, s'.ws = { ws with inputBuffer := inputBuffer }
  tcp : ∃ buf bytesRead, s'.tcp = { s.tcp with
    buf := buf
    bytesRead_ := bytesRead }
  completed : s'.completed = s.completed
  answers : s'.answers = s.answers

/-- A read of headers alone. -/
theorem Waiting.hear {s : Opening Live} (h : s.Waiting) {bytes : Bytes} (hb : bytes ≠ [])
    (uv : ℕ → ℤ) {e : Http.Executed} (he : Http.http_parser_execute s.parser.1 bytes = some e)
    (hnparsed : e.nparsed = bytes.length) {cs : List HeaderCallback}
    (hcs : e.calls.filterMap Http.Call.report = cs.map .header) :
    (∀ w, s.ws.onHeaders cs = .ok w → ∃ s',
      s.step httpParser sha1 base64_encode connCb_ (.read bytes uv) = .ok s' ∧ s'.Waiting ∧
        s.Heard w s' ∧ s'.parser.1 = e.parser) ∧
      ∀ w, s.ws.onHeaders cs = .error w → ∃ w',
        s.step httpParser sha1 base64_encode connCb_ (.read bytes uv) = .error (.ws w') := by
  obtain ⟨hlives, hstep⟩ := h.step_read sha1 base64_encode connCb_ hb uv he
  have hinput := WebSocketConnection.onHeaders_input s.ws (s.received bytes).ws.inputBuffer cs
  change (s.received bytes).ws.onHeaders cs = _ at hinput
  rw [hstep, hcs, reports_headers, hinput]
  constructor
  · intro w hw
    have heq := WebSocketConnection.onHeaders_eq hw
    rw [hw]
    have hreadable : (s.received bytes).ws.inputBuffer.readable = bytes ++ [] := by
      rw [readable_received h, List.append_nil]
    refine ⟨_, consumed_eq hlives bytes [] hreadable hnparsed, ⟨?_, ?_, ?_, h.reading⟩,
      ⟨⟨_, rfl⟩, ⟨_, _, rfl⟩, rfl, rfl⟩, rfl⟩
    · change w.status_ = .INITIAL
      rw [heq]
      exact h.status
    · change w.wanted_ = 0
      rw [heq]
      exact h.wanted
    · change ((s.received bytes).ws.inputBuffer.advance e.nparsed).readable = []
      rw [Buffer.readable_advance, readable_received h, hnparsed, List.drop_length]
  · intro w hw
    rw [hw]
    exact ⟨_, rfl⟩

/-- Reads of headers alone. -/
theorem Waiting.hear_all {reads : List Bytes} (hreads : ∀ read ∈ reads, read ≠ []) (uv : ℕ → ℤ)
    {s : Opening Live} (h : s.Waiting) {e : Http.Executed}
    (he : executeAll reads s.parser.1 = some e) (hlen : e.returned = .len)
    {cs : List HeaderCallback} (hcs : e.calls.filterMap Http.Call.report = cs.map .header) :
    let M := system httpParser sha1 base64_encode connCb_
    let events : List OpeningEvent := reads.map fun read => .read read uv
    (∀ w, s.ws.onHeaders cs = .ok w →
      ∃ s', M.run s events = .ok s' ∧ s'.Waiting ∧ s.Heard w s' ∧ s'.parser.1 = e.parser) ∧
      ∀ w, s.ws.onHeaders cs = .error w → ∃ w', M.run s events = .error (.ws w') := by
  intro M events
  induction reads generalizing s e cs with
  | nil =>
    cases he
    cases cs with
    | nil =>
      refine ⟨fun w hw => ?_, nofun⟩
      cases hw
      exact ⟨s, rfl, h, ⟨⟨_, rfl⟩, ⟨_, _, rfl⟩, rfl, rfl⟩, rfl⟩
    | cons c cs => cases hcs
  | cons read reads ih =>
    obtain ⟨hread, hreads⟩ := List.forall_mem_cons.mp hreads
    obtain ⟨first, others, hfirst, hwhole, hothers, hlen', hcalls, hparser, -⟩ :=
      Http.executeAll_cons he hlen
    rw [hcalls, List.filterMap_append] at hcs
    obtain ⟨cs, cs', rfl, hcs, hcs'⟩ := List.map_eq_append_iff.mp hcs.symm
    obtain ⟨e', he', hreturns, -⟩ := Http.http_parser_execute_returns s.parser.2 read
    cases hfirst.symm.trans he'
    obtain ⟨hok, herror⟩ := h.hear sha1 base64_encode connCb_ hread uv hfirst (hreturns.whole hwhole)
      hcs.symm
    rw [WebSocketConnection.onHeaders_append]
    cases hv : s.ws.onHeaders cs with
    | error v =>
      refine ⟨nofun, fun w _ => ?_⟩
      obtain ⟨w', hstep⟩ := herror v hv
      refine ⟨w', ?_⟩
      change M.run s (.read read uv :: _) = _
      have hstep' : M.step s (.read read uv) = .error (.ws w') := hstep
      simp only [EventSystem.run, hstep']
    | ok v =>
      obtain ⟨s₁, hstep, hwaiting, hheard, hparser₁⟩ := hok v hv
      obtain ⟨inputBuffer, hws⟩ := hheard.ws
      have hput := WebSocketConnection.onHeaders_input v inputBuffer cs'
      dsimp only at hput
      rw [← hws] at hput
      rw [← hparser₁] at hothers
      obtain ⟨hok', herror'⟩ := ih hreads hwaiting hothers hlen' hcs'.symm
      have hrun : M.run s (.read read uv :: reads.map fun read => .read read uv) =
          M.run s₁ (reads.map fun read => .read read uv) := M.run_cons_ok _ hstep
      change (∀ w, v.onHeaders cs' = .ok w → _) ∧ ∀ w, v.onHeaders cs' = .error w → _
      refine ⟨fun w hw => ?_, fun w hw => ?_⟩
      · rw [hw] at hput
        obtain ⟨s₂, hrun₂, hwaiting₂, hheard₂, hparser₂⟩ := hok' _ hput
        obtain ⟨inputBuffer₂, hws₂⟩ := hheard₂.ws
        obtain ⟨buf, bytesRead, htcp⟩ := hheard.tcp
        obtain ⟨buf₂, bytesRead₂, htcp₂⟩ := hheard₂.tcp
        refine ⟨s₂, hrun.trans hrun₂, hwaiting₂, ⟨⟨inputBuffer₂, hws₂⟩, ⟨buf₂, bytesRead₂, ?_⟩, ?_, ?_⟩,
          hparser₂.trans hparser.symm⟩
        · rw [htcp₂, htcp]
        · rw [hheard₂.completed, hheard.completed]
        · rw [hheard₂.answers, hheard.answers]
      · rw [hw] at hput
        obtain ⟨w', hrun'⟩ := herror' _ hput
        exact ⟨w', hrun.trans hrun'⟩

end

/-! ## The answer -/

def greeted (connCb_ : Option Greeting) (ws : WebSocketConnection) : WebSocketConnection :=
  connCb_.elim ws fun greeting => { ws with
    wsMessageCallback_ := greeting.message
    pingCallback_ := greeting.ping
    pongCallback_ := greeting.pong }

/-- The request was answered once, and `tail` is left of the read. -/
structure Answered (sha1 : Bytes → Fin 5 → ℕ) (base64_encode : Bytes → Bytes)
    (connCb_ : Option Greeting) (s : Opening Live) (request : RequestLine)
    (headers : List (Bytes × Bytes)) (tail : Bytes) (s' : Opening Live) : Prop where
  input : s'.ws.inputBuffer.readable = tail
  completed : s'.completed = s.completed + 1
  answers : s'.answers = s.answers ++ [verdict request headers]
  accepted : verdict request headers = true →
    let bytes := WebSocketConnection.acceptance sha1 base64_encode headers
    (∃ inputBuffer headers_ lastHeaderField_, s'.ws = greeted connCb_ { s.ws with
      inputBuffer := inputBuffer
      headers_ := headers_
      lastHeaderField_ := lastHeaderField_
      status_ := .CONNECT
      trace := s.ws.trace ++ [.send bytes] }) ∧
      s'.tcp.state_ = .kWritting ∧ s'.tcp.accepted = s.tcp.accepted ++ bytes
  rejected : verdict request headers = false →
    let bytes := WebSocketConnection.BAD_REQUEST
    (∃ inputBuffer headers_ lastHeaderField_, s'.ws = { s.ws with
      inputBuffer := inputBuffer
      headers_ := headers_
      lastHeaderField_ := lastHeaderField_
      trace := s.ws.trace ++ [.send bytes, .closeTcp] }) ∧
      s'.tcp.state_ = .kDisconnecting ∧ s'.tcp.accepted = s.tcp.accepted ++ bytes

section
variable (sha1 : Bytes → Fin 5 → ℕ) (base64_encode : Bytes → Bytes) (connCb_ : Option Greeting)

theorem handleConnection_quiet {π : Type} (s : Opening π)
    (hquiet : ∀ greeting ∈ connCb_, greeting.Quiet) (uv : ℤ) :
    s.handleConnection connCb_ uv =
      .ok { s with ws := greeted connCb_ { s.ws with status_ := .CONNECT } } := by
  have hws : s.ws.handleConnection (connCb_.map Greeting.run) =
      .ok (greeted connCb_ { s.ws with status_ := .CONNECT }) := by
    cases connCb_ with
    | none => rfl
    | some greeting =>
      have hcalls : greeting.calls s.ws.trace = [] := hquiet greeting rfl _
      change WebSocketConnection.calls _ (greeting.calls s.ws.trace) = _
      rw [hcalls]
      rfl
  have htrace : (greeted connCb_ { s.ws with status_ := .CONNECT }).trace = s.ws.trace := by
    cases connCb_ <;> rfl
  unfold handleConnection
  rw [hws]
  change (s.tcp.replay uv ((greeted connCb_ _).trace.drop s.ws.trace.length)).mapError
    OpeningFault.tcp >>= _ = _
  rw [htrace, List.drop_length]
  rfl

theorem onHeaderComplete_accepted {π : Type} {s : Opening π}
    (hquiet : ∀ greeting ∈ connCb_, greeting.Quiet)
    (hconnected : s.tcp.state_ = .kConnected) {request : RequestLine}
    (hv : verdict request s.ws.headers_ = true) (uv : ℤ) :
    let bytes := WebSocketConnection.acceptance sha1 base64_encode s.ws.headers_
    ∃ tcp, s.onHeaderComplete sha1 base64_encode connCb_ request uv = .ok { s with
        ws := greeted connCb_ { s.ws.emit (.send bytes) with status_ := .CONNECT }
        tcp := tcp
        completed := s.completed + 1
        answers := s.answers ++ [true] } ∧
      tcp.state_ = .kWritting ∧ tcp.accepted = s.tcp.accepted ++ bytes := by
  intro bytes
  unfold onHeaderComplete
  simp only [if_pos hv, answer, TcpConnection.step_send_connected _ uv hconnected]
  refine ⟨_, handleConnection_quiet connCb_ _ hquiet uv, rfl, rfl⟩

theorem onHeaderComplete_rejected {π : Type} {s : Opening π} (hconnected : s.tcp.state_ = .kConnected)
    {request : RequestLine} (hv : ¬verdict request s.ws.headers_ = true) (uv : ℤ) :
    let bytes := WebSocketConnection.BAD_REQUEST
    ∃ tcp, s.onHeaderComplete sha1 base64_encode connCb_ request uv = .ok { s with
        ws := (s.ws.emit (.send bytes)).emit .closeTcp
        tcp := tcp
        completed := s.completed + 1
        answers := s.answers ++ [false] } ∧
      tcp.state_ = .kDisconnecting ∧ tcp.accepted = s.tcp.accepted ++ bytes := by
  intro bytes
  unfold onHeaderComplete
  simp only [if_neg hv, answer, TcpConnection.step_send_connected _ uv hconnected]
  exact ⟨_, rfl, rfl, rfl⟩

theorem greeted_input (ws : WebSocketConnection) : (greeted connCb_ ws).inputBuffer = ws.inputBuffer := by
  cases connCb_ <;> rfl

/-- The read in which the header section ends. -/
theorem Waiting.answer {s : Opening Live} (h : s.Waiting) (hconnected : s.tcp.state_ = .kConnected)
    (hquiet : ∀ greeting ∈ connCb_, greeting.Quiet) {bytes tail : Bytes} (hb : bytes ≠ [])
    (uv : ℕ → ℤ) {e : Http.Executed}
    (he : Http.http_parser_execute s.parser.1 (bytes ++ tail) = some e)
    (hnparsed : e.nparsed = bytes.length) {cs : List HeaderCallback} {request : RequestLine}
    (hcs : e.calls.filterMap Http.Call.report = cs.map .header ++ [.headersComplete request]) :
    (∀ w, s.ws.onHeaders cs = .ok w → ∃ s',
      s.step httpParser sha1 base64_encode connCb_ (.read (bytes ++ tail) uv) = .ok s' ∧
        Answered sha1 base64_encode connCb_ s request w.headers_ tail s') ∧
      ∀ w, s.ws.onHeaders cs = .error w → ∃ w',
        s.step httpParser sha1 base64_encode connCb_ (.read (bytes ++ tail) uv) = .error (.ws w') := by
  obtain ⟨hlives, hstep⟩ := h.step_read sha1 base64_encode connCb_
    (List.append_ne_nil_of_left_ne_nil hb tail) uv he
  have hreadable := readable_received h (bytes ++ tail)
  have hinput := WebSocketConnection.onHeaders_input s.ws (s.received (bytes ++ tail)).ws.inputBuffer cs
  change (s.received (bytes ++ tail)).ws.onHeaders cs = _ at hinput
  rw [hstep, hcs, reports_append, reports_headers, hinput]
  constructor
  · intro w hw
    have heq := WebSocketConnection.onHeaders_eq hw
    rw [hw]
    -- the connection when its header section is complete
    change ∃ s', reports sha1 base64_encode connCb_ { s.received (bytes ++ tail) with
      ws := { w with inputBuffer := (s.received (bytes ++ tail)).ws.inputBuffer } } uv
        [.headersComplete request] >>= _ = _ ∧ _
    generalize ha : ({ s.received (bytes ++ tail) with
      ws := { w with inputBuffer := (s.received (bytes ++ tail)).ws.inputBuffer } } : Opening Live) = a
    rw [reports_complete]
    have hdrop : (a.ws.inputBuffer.advance e.nparsed).readable = tail := by
      rw [Buffer.readable_advance, ← ha, hreadable, hnparsed, List.drop_left]
    have hunread : a.ws.inputBuffer.readable = bytes ++ tail := by
      rw [← ha, hreadable]
    have hheaders : a.ws.headers_ = w.headers_ := by rw [← ha]
    have hstate : a.tcp.state_ = .kConnected := by
      rw [← ha]
      exact hconnected
    by_cases hv : verdict request w.headers_ = true
    · have hva : verdict request a.ws.headers_ = true := by rw [hheaders, hv]
      obtain ⟨tcp, hcomplete, htcp, haccepted⟩ := onHeaderComplete_accepted sha1 base64_encode connCb_
        hquiet hstate hva (uv a.answers.length)
      rw [hcomplete]
      refine ⟨_, consumed_eq hlives bytes tail ?_ hnparsed, ⟨?_, ?_, ?_, ?_, ?_⟩⟩
      · rw [← hunread]
        exact congrArg Buffer.readable (greeted_input connCb_ _)
      · change ((greeted connCb_ _).inputBuffer.advance e.nparsed).readable = tail
        rw [greeted_input]
        exact hdrop
      · rw [← ha]
        rfl
      · rw [hv, ← ha]
        rfl
      · intro _ sent
        rw [hheaders] at haccepted
        refine ⟨⟨a.ws.inputBuffer.advance e.nparsed, w.headers_, w.lastHeaderField_, ?_⟩, htcp, ?_⟩
        · rw [hheaders]
          cases connCb_ with
          | none =>
            rw [← ha, heq]
            rfl
          | some greeting =>
            rw [← ha, heq]
            rfl
        · rw [haccepted, ← ha]
          rfl
      · rw [hv]
        nofun
    · have hva : ¬verdict request a.ws.headers_ = true := by rwa [hheaders]
      obtain ⟨tcp, hcomplete, htcp, haccepted⟩ := onHeaderComplete_rejected sha1 base64_encode connCb_
        hstate hva (uv a.answers.length)
      rw [hcomplete]
      refine ⟨_, consumed_eq hlives bytes tail hunread hnparsed,
        ⟨hdrop, ?_, ?_, ?_, ?_⟩⟩
      · rw [← ha]
        rfl
      · rw [Bool.eq_false_iff.mpr hv, ← ha]
        rfl
      · intro hv'
        exact absurd hv' hv
      · intro _ sent
        refine ⟨⟨a.ws.inputBuffer.advance e.nparsed, w.headers_, w.lastHeaderField_, ?_⟩, htcp, ?_⟩
        · rw [← ha, heq]
          simp [WebSocketConnection.emit, sent]
        · rw [haccepted, ← ha]
          rfl
  · intro w hw
    rw [hw]
    exact ⟨_, rfl⟩

/-! ## Requests -/

/-- As the server leaves a connection that it has accepted. -/
structure Untouched (s : Opening Live) : Prop extends s.Waiting where
  connected : s.tcp.state_ = .kConnected
  parser : s.parser.1 = http_parser_init
  headers : s.ws.headers_ = []

theorem answered_congr {s s' : Opening Live} {request : RequestLine} {headers headers' : List (Bytes × Bytes)}
    {tail : Bytes} (h : ∀ name, headers.lookup name = headers'.lookup name)
    (hs : Answered sha1 base64_encode connCb_ s request headers tail s') :
    Answered sha1 base64_encode connCb_ s request headers' tail s' := by
  have hverdict := verdict_congr request h
  have hbytes : WebSocketConnection.acceptance sha1 base64_encode headers =
      WebSocketConnection.acceptance sha1 base64_encode headers' := by
    unfold WebSocketConnection.acceptance
    rw [h]
  refine ⟨hs.input, hs.completed, ?_, ?_, ?_⟩
  · rw [hs.answers, hverdict]
  · rw [← hverdict, ← hbytes]
    exact hs.accepted
  · rw [← hverdict]
    exact hs.rejected

/-- What the handlers make of a header: its last name fragment with the value. -/
def kept (header : FragmentedHeader) : Bytes × Bytes := (header.lastPart, header.value)

/-- What was heard before changes nothing of the answer. -/
theorem Heard.answered {s s₁ s' : Opening Live} {w : WebSocketConnection} {cs : List HeaderCallback}
    (hw : s.ws.onHeaders cs = .ok w) (h : s.Heard w s₁) {request : RequestLine}
    {headers : List (Bytes × Bytes)} {tail : Bytes}
    (hs : Answered sha1 base64_encode connCb_ s₁ request headers tail s') :
    Answered sha1 base64_encode connCb_ s request headers tail s' := by
  obtain ⟨inputBuffer, hws⟩ := h.ws
  obtain ⟨buf, bytesRead, htcp⟩ := h.tcp
  rw [WebSocketConnection.onHeaders_eq hw] at hws
  have haccepted := hs.accepted
  have hrejected := hs.rejected
  rw [hws, htcp] at haccepted hrejected
  refine ⟨hs.input, ?_, ?_, haccepted, hrejected⟩
  · rw [hs.completed, h.completed]
  · rw [hs.answers, h.answers]

/-- The last of the reports is that the header section is complete. -/
theorem split_reports {rs more : List Report} {cs : List HeaderCallback} {request : RequestLine}
    (h : rs ++ more = cs.map .header ++ [.headersComplete request])
    (hnone : .headersComplete request ∉ rs) :
    ∃ before after, cs = before ++ after ∧ rs = before.map .header ∧
      more = after.map .header ++ [.headersComplete request] := by
  rcases List.append_eq_append_iff.mp h with ⟨after, hcs, rfl⟩ | ⟨ends, rfl, hends⟩
  · obtain ⟨before, after, rfl, rfl, rfl⟩ := List.map_eq_append_iff.mp hcs
    exact ⟨before, after, rfl, rfl, rfl⟩
  · cases ends with
    | nil => exact ⟨cs, [], (List.append_nil cs).symm, List.append_nil _, hends.symm⟩
    | cons r ends =>
      obtain ⟨rfl, -⟩ := List.cons.inj hends
      exact absurd (List.mem_append_right _ List.mem_cons_self) hnone

theorem not_mem_reports {calls : List Http.Call}
    (h : ∀ request, .notify (.headers_complete request) ∉ calls) (request : RequestLine) :
    .headersComplete request ∉ calls.filterMap Http.Call.report := by
  intro hmem
  obtain ⟨call, hcall, hreport⟩ := List.mem_filterMap.mp hmem
  unfold Http.Call.report at hreport
  split at hreport
  · cases hreport
  · cases hreport
  · cases hreport
    exact h _ hcall
  · cases hreport

/-- Reads of a request, whose reports are known. -/
theorem Untouched.answer {s : Opening Live} (h : s.Untouched)
    (hquiet : ∀ greeting ∈ connCb_, greeting.Quiet) (r : Request)
    (hlen : r.bytes.length ≤ max_header_size) {reads : List Bytes} {last tail : Bytes}
    (hreads : ∀ read ∈ reads, read ≠ [] ∧ read.length ≤ max_header_size) (hlast : last ≠ [])
    (hflatten : reads.flatten ++ last = r.bytes) (uv : ℕ → ℤ) {e : Http.Executed}
    (he : executeAll (reads ++ [last ++ tail]) http_parser_init = some e)
    (hnparsed : e.nparsed = r.bytes.length) {hs : List FragmentedHeader}
    (hreports : e.calls.filterMap Http.Call.report =
      (hs.flatMap FragmentedHeader.callbacks).map .header ++ [.headersComplete r.requestLine]) :
    let M := system httpParser sha1 base64_encode connCb_
    let events : List OpeningEvent :=
      (reads.map fun read => .read read uv) ++ [.read (last ++ tail) uv]
    ((∀ header ∈ hs, header.Accepted) → ∃ s', M.run s events = .ok s' ∧
      Answered sha1 base64_encode connCb_ s r.requestLine (hs.map kept) tail s') ∧
      ((¬ ∀ header ∈ hs, header.Accepted) → ∃ w, M.run s events = .error (.ws w)) := by
  intro M events
  obtain ⟨first, hfirst, hwhole, hnone⟩ := r.request_unfinished hlen hreads hflatten hlast
  rw [Http.executeAll_concat (last ++ tail) hfirst hwhole] at he
  obtain ⟨e', he', rfl⟩ := Option.map_eq_some_iff.mp he
  have hlast' : e'.nparsed = last.length := by
    have hsum : first.nparsed + e'.nparsed = r.bytes.length := hnparsed
    rw [Http.executeAll_whole Http.init_lives hfirst hwhole, ← hflatten, List.length_append] at hsum
    omega
  rw [List.filterMap_append] at hreports
  obtain ⟨before, after, hcallbacks, hbefore, hafter⟩ :=
    split_reports hreports (not_mem_reports hnone r.requestLine)
  rw [← h.parser] at hfirst
  obtain ⟨hok, herror⟩ := h.toWaiting.hear_all sha1 base64_encode connCb_
    (fun read hread => (hreads read hread).1) uv hfirst hwhole hbefore
  have hsplit := WebSocketConnection.onHeaders_append s.ws before after
  rw [← hcallbacks] at hsplit
  cases hv : s.ws.onHeaders before with
  | error v =>
    rw [hv] at hsplit
    constructor
    · intro haccepted
      obtain ⟨w, hw, -⟩ := WebSocketConnection.onHeaders_all s.ws haccepted
      rw [hsplit] at hw
      cases hw
    · intro _
      obtain ⟨w', hrun⟩ := herror v hv
      exact ⟨w', M.run_append_error _ hrun⟩
  | ok v =>
    rw [hv] at hsplit
    obtain ⟨s₁, hrun, hwaiting, hheard, hparser⟩ := hok v hv
    obtain ⟨inputBuffer, hws⟩ := hheard.ws
    obtain ⟨buf, bytesRead, htcp⟩ := hheard.tcp
    have hconnected : s₁.tcp.state_ = .kConnected := by
      rw [htcp]
      exact h.connected
    rw [← hparser] at he'
    obtain ⟨hok', herror'⟩ := hwaiting.answer sha1 base64_encode connCb_ hconnected hquiet hlast uv
      he' hlast' hafter
    have hput := WebSocketConnection.onHeaders_input v inputBuffer after
    dsimp only at hput
    rw [← hws] at hput
    have hevents : M.run s events = M.run s₁ [.read (last ++ tail) uv] := M.run_append _ hrun
    rw [hevents]
    constructor
    · intro haccepted
      obtain ⟨w, hw, hlookup⟩ := WebSocketConnection.onHeaders_all s.ws haccepted
      rw [hsplit] at hw
      change v.onHeaders after = _ at hw
      rw [hw] at hput
      obtain ⟨s', hstep, hanswered⟩ := hok' _ hput
      refine ⟨s', M.run_cons_ok [] hstep, ?_⟩
      apply answered_congr sha1 base64_encode connCb_ _
        (hheard.answered sha1 base64_encode connCb_ hv hanswered)
      intro name
      have hname := hlookup name
      rw [h.headers, List.lookup_nil, Option.none_or] at hname
      exact hname
    · intro hrefused
      obtain ⟨w, hw⟩ := WebSocketConnection.onHeaders_any s.ws hrefused
      rw [hsplit] at hw
      change v.onHeaders after = _ at hw
      rw [hw] at hput
      obtain ⟨w', hstep⟩ := herror' _ hput
      have hstep' : M.step s₁ (.read (last ++ tail) uv) = .error (.ws w') := hstep
      exact ⟨w', by simp only [EventSystem.run, hstep']⟩

/-- A header line in one piece. -/
def whole (line : Http.HeaderLine) : FragmentedHeader where
  nameParts := [line.name]
  valueParts := [line.value]
  nameParts_ne := List.cons_ne_nil _ _
  valueParts_ne := List.cons_ne_nil _ _
  name_ne := by
    rw [List.flatten_singleton]
    exact line.name_ne

theorem reports_whole (r : Request) : r.calls.filterMap Http.Call.report =
    ((r.lines.map whole).flatMap FragmentedHeader.callbacks).map .header ++
      [.headersComplete r.requestLine] := by
  have hlines (lines : List Http.HeaderLine) :
      (lines.flatMap Http.HeaderLine.calls).filterMap Http.Call.report =
        ((lines.map whole).flatMap FragmentedHeader.callbacks).map .header := by
    induction lines with
    | nil => rfl
    | cons line lines ih =>
      rw [List.flatMap_cons, List.filterMap_append, ih]
      rfl
  have hcalls : r.calls = [.notify .message_begin, .slice .url r.url] ++
      (r.lines.flatMap Http.HeaderLine.calls ++
        [.notify (.headers_complete r.requestLine), .notify .message_complete]) := rfl
  rw [hcalls, List.filterMap_append, List.filterMap_append, hlines]
  rfl

theorem whole_accepted (r : Request) : ∀ header ∈ r.lines.map whole, header.Accepted := by
  intro header hmem
  obtain ⟨line, -, rfl⟩ := List.mem_map.mp hmem
  exact ⟨rfl, line.name_ne⟩

theorem whole_kept (r : Request) : (r.lines.map whole).map kept = r.headers := by
  rw [List.map_map]
  apply List.map_congr_left
  intro line _
  simp [whole, kept, FragmentedHeader.lastPart, FragmentedHeader.value]

/-- The fragments in which the headers come: in one read, the lines as they were sent. -/
theorem request_fragments (r : Request) (hlen : r.bytes.length ≤ max_header_size)
    {reads : List Bytes} {last tail : Bytes}
    (hreads : ∀ read ∈ reads, read ≠ [] ∧ read.length ≤ max_header_size) (hlast : last ≠ [])
    (hmax : (last ++ tail).length ≤ max_header_size) (hflatten : reads.flatten ++ last = r.bytes)
    (htail : r.upgrades ∨ tail = []) :
    ∃ (e : Http.Executed) (hs : List FragmentedHeader),
      executeAll (reads ++ [last ++ tail]) http_parser_init = some e ∧ e.nparsed = r.bytes.length ∧
      e.calls.filterMap Http.Call.report =
        (hs.flatMap FragmentedHeader.callbacks).map .header ++ [.headersComplete r.requestLine] ∧
      hs.map (fun header => (header.name, header.value)) = r.headers ∧
      (reads = [] → hs = r.lines.map whole) := by
  by_cases hone : reads = []
  · subst hone
    have hbytes : last = r.bytes := hflatten
    subst hbytes
    obtain ⟨e, he, hcalls, hnparsed⟩ := r.request_whole hmax htail
    have hreports := reports_whole r
    rw [← hcalls] at hreports
    have hall : executeAll ([] ++ [r.bytes ++ tail]) http_parser_init = some e := by
      rw [Http.executeAll_concat (r.bytes ++ tail) (p := http_parser_init) rfl rfl, he]
      simp
    refine ⟨e, r.lines.map whole, hall, hnparsed, hreports, ?_, fun _ => rfl⟩
    rw [List.map_map]
    apply List.map_congr_left
    intro line _
    simp [whole, FragmentedHeader.name, FragmentedHeader.value]
  · have hall : ∀ read ∈ reads ++ [last ++ tail], read ≠ [] ∧ read.length ≤ max_header_size := by
      intro read hmem
      rcases List.mem_append.mp hmem with hmem | hmem
      · exact hreads read hmem
      · rw [List.mem_singleton.mp hmem]
        exact ⟨List.append_ne_nil_of_left_ne_nil hlast tail, hmax⟩
    have hjoined : (reads ++ [last ++ tail]).flatten = r.bytes ++ tail := by
      rw [List.flatten_append, List.flatten_singleton, ← List.append_assoc, hflatten]
    obtain ⟨e, he, hcuts, hnparsed, -, -⟩ := r.request_reported hlen hall hjoined htail
    obtain ⟨hs, hreports, hmap⟩ := Http.cuts_headers hcuts
    exact ⟨e, hs, he, hnparsed, hreports, hmap, fun hnil => absurd hnil hone⟩

/-- **The answer to a request**, in any reads. Its headers come in fragments. Where the handlers accept
all of them, it is answered once, by the verdict on what they have kept, and `tail` stays in the buffer;
where they refuse one, an assertion ends the process. In one read they are kept as they were sent. -/
theorem request_answered {s : Opening Live} (h : s.Untouched)
    (hquiet : ∀ greeting ∈ connCb_, greeting.Quiet) (r : Request)
    (hlen : r.bytes.length ≤ max_header_size) {reads : List Bytes} {last tail : Bytes}
    (hreads : ∀ read ∈ reads, read ≠ [] ∧ read.length ≤ max_header_size) (hlast : last ≠ [])
    (hmax : (last ++ tail).length ≤ max_header_size) (hflatten : reads.flatten ++ last = r.bytes)
    (htail : r.upgrades ∨ tail = []) (uv : ℕ → ℤ) :
    let M := system httpParser sha1 base64_encode connCb_
    let events : List OpeningEvent :=
      (reads.map fun read => .read read uv) ++ [.read (last ++ tail) uv]
    ∃ hs : List FragmentedHeader,
      hs.map (fun header => (header.name, header.value)) = r.headers ∧
      (reads = [] → (∀ header ∈ hs, header.Accepted) ∧ hs.map kept = r.headers) ∧
      ((∀ header ∈ hs, header.Accepted) → ∃ s', M.run s events = .ok s' ∧
        Answered sha1 base64_encode connCb_ s r.requestLine (hs.map kept) tail s') ∧
      ((¬ ∀ header ∈ hs, header.Accepted) → ∃ w, M.run s events = .error (.ws w)) := by
  intro M events
  obtain ⟨e, hs, he, hnparsed, hreports, hmap, hone⟩ :=
    request_fragments r hlen hreads hlast hmax hflatten htail
  refine ⟨hs, hmap, fun hnil => ?_, h.answer sha1 base64_encode connCb_ hquiet r hlen hreads hlast hflatten
    uv he hnparsed hreports⟩
  rw [hone hnil]
  exact ⟨whole_accepted r, whole_kept r⟩

end

/-- A connection that was accepted. -/
def opened : Opening Live where
  ws := .initial
  decoding := false
  tcp := .fresh
  parser := .initial
  completed := 0
  answers := []

theorem opened_untouched : opened.Untouched :=
  ⟨⟨rfl, rfl, Buffer.readable_ofSize _, rfl⟩, rfl, rfl, rfl⟩

/-- The request of a client with the first bytes of a frame, in one read. -/
theorem request_answered_client :
    let M := system httpParser
      (fun _ => [0xb37a4f2c, 0xc0624f16, 0x90f64606, 0xcf385945, 0xb2bec4ea].get)
      (fun _ => ascii "s3pPLMBiTxaQ9kYGzzhZRbK+xOo=") none
    ∃ s', M.run opened [.read (Http.clientRequest.bytes ++ [0x81, 0x05]) fun _ => 0] = .ok s' ∧
      s'.ws.status_ = .CONNECT ∧ s'.ws.inputBuffer.readable = [0x81, 0x05] ∧ s'.answers = [true] := by
  intro M
  have hbytes : Http.clientRequest.bytes ≠ [] := by decide +kernel
  have hmax : (Http.clientRequest.bytes ++ [0x81, 0x05]).length ≤ max_header_size := by decide +kernel
  obtain ⟨hs, -, hone, haccepted, -⟩ := request_answered
    (fun _ => [0xb37a4f2c, 0xc0624f16, 0x90f64606, 0xcf385945, 0xb2bec4ea].get)
    (fun _ => ascii "s3pPLMBiTxaQ9kYGzzhZRbK+xOo=") none opened_untouched nofun Http.clientRequest
    (by decide +kernel) (show ∀ read ∈ ([] : List Bytes), _ by simp) hbytes hmax (List.nil_append _)
    (.inl Http.clientRequest_upgrades) (fun _ => 0)
  obtain ⟨hall, hkept⟩ := hone rfl
  obtain ⟨s', hrun, hanswered⟩ := haccepted hall
  rw [hkept] at hanswered
  have hverdict : verdict Http.clientRequest.requestLine Http.clientRequest.headers = true := by
    decide +kernel
  obtain ⟨⟨inputBuffer, headers, lastHeader, hws⟩, -⟩ := hanswered.accepted hverdict
  refine ⟨s', hrun, ?_, hanswered.input, ?_⟩
  · rw [hws]
    rfl
  · rw [hanswered.answers, hverdict]
    rfl

end Opening
end WsEngine
