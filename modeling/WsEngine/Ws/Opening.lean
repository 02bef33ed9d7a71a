import WsEngine.Lib.EventSystem
import WsEngine.Tcp.System
import WsEngine.Ws.Acceptance
import WsEngine.Ws.Chunks

/-! # The opening handshake on its TCP connection

A connection in `INITIAL` gives every read to `http_parser`, and `onHeaderComplete` answers each header
section that the parser completes. Nothing in it remembers that an answer was sent: a rejected
connection stays in `INITIAL` and is only disconnecting, and a malformed request completes no
section. So there is one answer per connection exactly as long as the reads in `INITIAL` hold one
header section between them, which comes before anything malformed.

`http_parser` is a parameter: what it calls back for some bytes, how many of them it takes, and
whether it has found an error. An application appears by what `connCb_` does. After the handshake
the WebSocket connection goes on as in a session, and the TCP connection in any way whatever. -/
set_option autoImplicit false

namespace WsEngine

/-- What `http_parser_execute` calls back, apart from the callbacks that do nothing. -/
inductive Report
  | header (callback : HeaderCallback)
  | headersComplete (request : RequestLine)

/-- `http_parser` over its states: the calls it makes for some bytes and the number it returns, and
whether `HTTP_PARSER_ERRNO` is set. -/
structure HttpParser (π : Type) where
  execute : π → Bytes → List Report × ℕ × π
  failed : π → Bool

/-- The header sections among the reports. -/
def sections : List Report → ℕ
  | [] => 0
  | .header _ :: reports => sections reports
  | .headersComplete _ :: reports => sections reports + 1

/-- What an application does in `connCb_`: it sets callbacks and calls operations. -/
structure Greeting where
  message : Option Callback
  ping : Option Callback
  pong : Option Callback
  calls : Callback

def Greeting.run (greeting : Greeting) (ws : WebSocketConnection) :
    Except WebSocketConnection WebSocketConnection :=
  { ws with
    wsMessageCallback_ := greeting.message
    pingCallback_ := greeting.ping
    pongCallback_ := greeting.pong }.calls (greeting.calls ws.trace)

/-- What effects of the WebSocket connection do to the TCP connection. -/
def TcpConnection.replay (c : TcpConnection) (uv : ℤ) : List Effect → Except TcpFault TcpConnection
  | [] => .ok c
  | .send bytes :: effects => do
    let c ← c.step (.send bytes uv)
    c.replay uv effects
  | .stopRead :: effects => c.stopRead.replay uv effects
  | .closeTcp :: effects => do
    let c ← c.close
    c.replay uv effects
  | _ :: effects => c.replay uv effects

/-- The assertion of `conn_->send` where `onHeaderComplete` calls it, another assertion of the TCP
connection, or one of the WebSocket connection. -/
inductive OpeningFault
  | answer (fault : TcpFault)
  | tcp (fault : TcpFault)
  | ws (ended : WebSocketConnection)

structure Opening (π : Type) where
  ws : WebSocketConnection
  decoding : Bool
  tcp : TcpConnection
  parser : π
  -- for the specifications: the header sections that the parser has completed, and the answers that
  -- were given to `conn_->send`, with 101 as `true`
  completed : ℕ
  answers : List Bool

inductive OpeningEvent
  | read (bytes : Bytes) (uv : ℕ → ℤ)
  | readEnd (nread : ℤ)
  | writeDone (status uv : ℤ)
  -- after the handshake, with what becomes of the TCP connection
  | session (e : SessionEvent) (tcp : TcpConnection)
  | handleClose (tcp : TcpConnection)

namespace Opening

variable {π : Type} (P : HttpParser π) (sha1 : Bytes → Fin 5 → ℕ) (base64_encode : Bytes → Bytes)
  (connCb_ : Option Greeting)

/-! ## The code -/

/-- `conn_->send` of an answer. -/
def answer (s : Opening π) (bytes : Bytes) (accepted : Bool) (uv : ℤ) :
    Except OpeningFault (Opening π) := do
  let tcp ← (s.tcp.step (.send bytes uv)).mapError .answer
  return { s with
    tcp := tcp
    ws := s.ws.emit (.send bytes)
    answers := s.answers ++ [accepted] }

def handleConnection (s : Opening π) (uv : ℤ) : Except OpeningFault (Opening π) := do
  let ws ← (s.ws.handleConnection (connCb_.map Greeting.run)).mapError .ws
  let tcp ← (s.tcp.replay uv (ws.trace.drop s.ws.trace.length)).mapError .tcp
  return { s with
    tcp := tcp
    ws := ws }

def close (s : Opening π) : Except OpeningFault (Opening π) := do
  let tcp ← s.tcp.close.mapError .tcp
  return { s with
    tcp := tcp
    ws := s.ws.emit .closeTcp }

def onHeaderComplete (s : Opening π) (request : RequestLine) (uv : ℤ) :
    Except OpeningFault (Opening π) :=
  let s := { s with completed := s.completed + 1 }
  if verdict request s.ws.headers_ then do
    let s ← s.answer (WebSocketConnection.acceptance sha1 base64_encode s.ws.headers_) true uv
    s.handleConnection connCb_ uv
  else do
    let s ← s.answer WebSocketConnection.BAD_REQUEST false uv
    s.close

def report (s : Opening π) (uv : ℕ → ℤ) : Report → Except OpeningFault (Opening π)
  | .header callback => do
    let ws ← (s.ws.onHeader callback).mapError .ws
    return { s with ws := ws }
  | .headersComplete request =>
    s.onHeaderComplete sha1 base64_encode connCb_ request (uv s.answers.length)

def reports (s : Opening π) (uv : ℕ → ℤ) : List Report → Except OpeningFault (Opening π)
  | [] => .ok s
  | r :: rs => do
    let s ← s.report sha1 base64_encode connCb_ uv r
    s.reports uv rs

/-- `parse` in `INITIAL`. -/
def parse (s : Opening π) (uv : ℕ → ℤ) : Except OpeningFault (Opening π) :=
  if s.ws.inputBuffer.readableBytes < s.ws.wanted_ then .ok s
  else do
    let (rs, nparsed, parser) :=
      P.execute s.parser (s.ws.inputBuffer.peek s.ws.inputBuffer.readableBytes)
    let s ← s.reports sha1 base64_encode connCb_ uv rs
    match s.ws.inputBuffer.retrieve nparsed with
    | some inputBuffer => return { s with
        ws := { s.ws with inputBuffer := inputBuffer }
        parser := parser }
    | none => throw (.ws s.ws)

def session (s : Opening π) : Session := ⟨s.ws, s.decoding⟩

def step (s : Opening π) : OpeningEvent → Except OpeningFault (Opening π)
  | .read bytes uv => do
    let tcp ← (s.tcp.step (.readData bytes)).mapError .tcp
    { s with
      tcp := tcp
      ws := s.ws.receive bytes }.parse P sha1 base64_encode connCb_ uv
  | .readEnd nread => do
    let tcp ← (s.tcp.step (.readEnd nread)).mapError .tcp
    return { s with tcp := tcp }
  | .writeDone status uv => do
    let tcp ← (s.tcp.step (.writeDone status uv)).mapError .tcp
    return { s with tcp := tcp }
  | .session e tcp => do
    let session ← (s.session.step e).mapError .ws
    return { s with
      ws := session.ws
      decoding := session.decoding
      tcp := tcp }
  | .handleClose tcp => return { s with
      ws := { s.ws with status_ := .CLOSED }
      tcp := tcp }

def Possible (s : Opening π) : OpeningEvent → Prop
  | .read bytes _ => s.ws.status_ = .INITIAL ∧ s.tcp.Possible (.readData bytes)
  | .readEnd nread => s.tcp.Possible (.readEnd nread)
  | .writeDone status uv => s.tcp.Possible (.writeDone status uv)
  | .session e _ => s.ws.status_ ≠ .INITIAL ∧ s.session.Possible e
  | .handleClose _ => s.ws.status_ ≠ .INITIAL

def system : EventSystem (Opening π) OpeningEvent OpeningFault :=
  ⟨Possible, step P sha1 base64_encode connCb_⟩

/-- As the server leaves a connection: it has handed over no byte and heard none. -/
structure Established (s : Opening π) : Prop where
  status : s.ws.status_ = .INITIAL
  tcp : s.tcp.Established
  parser : P.failed s.parser = false
  completed : s.completed = 0
  answers : s.answers = []

/-! ## The specification -/

/-- There is at most one answer, and there is one as soon as a header section is complete or an
error is reported; after a 400 the connection is not opened, and after a 101 the handshake is over. -/
structure OneVerdict (s : Opening π) : Prop where
  atMost : s.answers.length ≤ 1
  once : 0 < s.completed ∨ P.failed s.parser = true → s.answers.length = 1
  rejected : false ∈ s.answers → s.ws.status_ ≠ .CONNECT
  accepted : true ∈ s.answers → s.ws.status_ ≠ .INITIAL

/-- No assertion of `conn_->send` failed on an answer. -/
def Fine (f : OpeningFault) : Prop := ∀ fault, f ≠ .answer fault

instance : DecidablePred Fine
  | .answer fault => isFalse fun h => h fault rfl
  | .tcp _ => isTrue fun _ => nofun
  | .ws _ => isTrue fun _ => nofun

/-- What the parser makes of a read, and of the bytes that the reads before have left. -/
def heard (s : Opening π) (bytes : Bytes) : List Report × ℕ × π :=
  P.execute s.parser (s.ws.receive bytes).inputBuffer.readable

/-- A read in `INITIAL` completes no second header section, and holds nothing malformed before the
first. -/
def Single (s : Opening π) : OpeningEvent → Prop
  | .read bytes _ => s.completed + sections (s.heard P bytes).1 ≤ 1 ∧
    (P.failed (s.heard P bytes).2.2 = true → 0 < s.completed + sections (s.heard P bytes).1)
  | .readEnd _ | .writeDone _ _ | .session _ _ | .handleClose _ => True

/-- What the callbacks of the parser keep. -/
structure Judged (s : Opening π) : Prop where
  counted : s.answers.length = s.completed
  once : s.completed ≤ 1
  waits : s.completed = 0 → s.ws.status_ = .INITIAL ∧ s.tcp.writes = [] ∧
    (s.tcp.reading = true → s.tcp.state_ = .kConnected)
  rejected : false ∈ s.answers → s.ws.status_ = .INITIAL
  accepted : true ∈ s.answers → s.ws.status_ ≠ .INITIAL

structure Inv (s : Opening π) : Prop extends Judged s where
  heard : P.failed s.parser = true → 0 < s.completed

variable {P}

theorem Established.inv {s : Opening π} (h : s.Established P) : s.Inv P where
  counted := by rw [h.answers, h.completed, List.length_nil]
  once := by rw [h.completed]; omega
  waits := fun _ => ⟨h.status, h.tcp.writes, fun _ => h.tcp.state⟩
  rejected := by rw [h.answers]; exact nofun
  accepted := by rw [h.answers]; exact nofun
  heard := by rw [h.parser]; exact nofun

theorem Inv.oneVerdict {s : Opening π} (h : s.Inv P) : s.OneVerdict P where
  atMost := by
    rw [h.counted]
    exact h.once
  once := by
    intro hheard
    have honce := h.once
    have hpos : 0 < s.completed := hheard.elim id h.heard
    rw [h.counted]
    omega
  rejected := by
    intro hmem
    rw [h.rejected hmem]
    exact nofun
  accepted := h.accepted

variable {sha1 base64_encode connCb_}

/-! ## Answering -/

theorem fine_tcp (fault : TcpFault) : Fine (.tcp fault) := fun _ => nofun

theorem fine_ws (ws : WebSocketConnection) : Fine (.ws ws) := fun _ => nofun

theorem greeting_past (greeting : Greeting) {ws w : WebSocketConnection} (h : ws.status_ ≠ .INITIAL)
    (hw : greeting.run ws = .ok w) : w.status_ ≠ .INITIAL := by
  unfold Greeting.run at hw
  have habs := WebSocketConnection.abs_calls { ws with
    wsMessageCallback_ := greeting.message
    pingCallback_ := greeting.ping
    pongCallback_ := greeting.pong } (greeting.calls ws.trace)
  rw [hw] at habs
  have hpast := (Decoder.orClosing_calls { ws with
    wsMessageCallback_ := greeting.message
    pingCallback_ := greeting.ping
    pongCallback_ := greeting.pong }.abs (greeting.calls ws.trace)).past h
  rw [← habs] at hpast
  exact hpast

theorem handleConnection_past {ws w : WebSocketConnection}
    (hw : ws.handleConnection (connCb_.map Greeting.run) = .ok w) : w.status_ ≠ .INITIAL := by
  have hconnect : ({ ws with status_ := .CONNECT } : WebSocketConnection).status_ ≠ .INITIAL := nofun
  cases hcb : connCb_ with
  | none =>
    rw [hcb] at hw
    cases hw
    exact hconnect
  | some greeting =>
    rw [hcb] at hw
    exact greeting_past greeting hconnect hw

theorem handleConnection_ends (s : Opening π) (uv : ℤ) :
    (s.handleConnection connCb_ uv).Ends (fun s' => s'.ws.status_ ≠ .INITIAL ∧
      s'.completed = s.completed ∧ s'.answers = s.answers) Fine := by
  have hws : (s.ws.handleConnection (connCb_.map Greeting.run)).Ends
      (fun w => w.status_ ≠ .INITIAL) (fun _ => True) :=
    .of_ok (fun _ hw => handleConnection_past hw) fun _ => trivial
  apply (hws.mapError fun w _ => fine_ws w).bind
  intro w hw
  have htcp := Except.Ends.any (s.tcp.replay uv (w.trace.drop s.ws.trace.length))
  apply (htcp.mapError fun fault _ => fine_tcp fault).bind
  intro tcp _
  exact .ok ⟨hw, rfl, rfl⟩

theorem close_ends (s : Opening π) :
    s.close.Ends (fun s' => s'.ws.status_ = s.ws.status_ ∧ s'.completed = s.completed ∧
      s'.answers = s.answers) Fine := by
  apply ((Except.Ends.any s.tcp.close).mapError fun fault _ => fine_tcp fault).bind
  intro tcp _
  exact .ok ⟨rfl, rfl, rfl⟩

theorem answer_counts (s : Opening π) (bytes : Bytes) (accepted : Bool) (uv : ℤ) :
    (s.answer bytes accepted uv).Ends (fun s' => s'.completed = s.completed ∧
      s'.answers = s.answers ++ [accepted]) fun _ => True := by
  unfold answer
  cases s.tcp.step (.send bytes uv) with
  | ok tcp => exact .ok ⟨rfl, rfl⟩
  | error fault => exact .error trivial

theorem answer_ends {s : Opening π} (bytes : Bytes) (accepted : Bool) (uv : ℤ)
    (h : s.tcp.state_ = .kConnected) :
    (s.answer bytes accepted uv).Ends (fun s' => s'.ws.status_ = s.ws.status_ ∧
      s'.completed = s.completed ∧ s'.answers = s.answers ++ [accepted]) Fine := by
  unfold answer
  rw [TcpConnection.step_send_connected bytes uv h]
  exact .ok ⟨rfl, rfl, rfl⟩

/-- The first header section is answered. -/
theorem Judged.onHeaderComplete {s : Opening π} (h : s.Judged) (hfirst : s.completed = 0)
    (hreading : s.tcp.reading = true) (request : RequestLine) (uv : ℤ) :
    (s.onHeaderComplete sha1 base64_encode connCb_ request uv).Ends
      (fun s' => s'.Judged ∧ s'.completed = 1) Fine := by
  obtain ⟨hstatus, -, hstate⟩ := h.waits hfirst
  have hnone : s.answers = [] := by
    apply List.length_eq_zero_iff.mp
    rw [h.counted, hfirst]
  have hconnected : ({ s with completed := s.completed + 1 } : Opening π).tcp.state_ = .kConnected :=
    hstate hreading
  unfold Opening.onHeaderComplete
  by_cases hv : verdict request s.ws.headers_ = true
  · simp only [if_pos hv]
    apply (answer_ends _ true uv hconnected).bind
    rintro a ⟨-, hcompleted, hanswers⟩
    apply (handleConnection_ends a uv).mono _ fun _ => id
    rintro s' ⟨hpast, hsame, hlist⟩
    have hone : s'.completed = 1 := by
      rw [hsame, hcompleted, hfirst]
    have htrue : s'.answers = [true] := by
      rw [hlist, hanswers, hnone]
      rfl
    refine ⟨⟨?_, ?_, ?_, ?_, fun _ => hpast⟩, hone⟩
    · rw [htrue, hone, List.length_singleton]
    · omega
    · omega
    · rw [htrue]
      intro hmem
      cases List.mem_singleton.mp hmem
  · simp only [if_neg hv]
    apply (answer_ends _ false uv hconnected).bind
    rintro a ⟨hsame, hcompleted, hanswers⟩
    apply (close_ends a).mono _ fun _ => id
    rintro s' ⟨hinitial, hcount, hlist⟩
    have hone : s'.completed = 1 := by
      rw [hcount, hcompleted, hfirst]
    have hfalse : s'.answers = [false] := by
      rw [hlist, hanswers, hnone]
      rfl
    refine ⟨⟨?_, ?_, ?_, ?_, ?_⟩, hone⟩
    · rw [hfalse, hone, List.length_singleton]
    · omega
    · omega
    · intro _
      rw [hinitial, hsame]
      exact hstatus
    · rw [hfalse]
      intro hmem
      cases List.mem_singleton.mp hmem

/-- Every header section is answered, where its answer does not end the process. -/
theorem onHeaderComplete_counts (s : Opening π) (request : RequestLine) (uv : ℤ) :
    (s.onHeaderComplete sha1 base64_encode connCb_ request uv).Ends
      (fun s' => s'.completed = s.completed + 1 ∧ s'.answers.length = s.answers.length + 1)
      fun _ => True := by
  have hanswered (a : Opening π) (accepted : Bool)
      (ha : a.completed = s.completed + 1 ∧ a.answers = s.answers ++ [accepted]) (s' : Opening π)
      (hs' : s'.completed = a.completed ∧ s'.answers = a.answers) :
      s'.completed = s.completed + 1 ∧ s'.answers.length = s.answers.length + 1 := by
    obtain ⟨hcompleted, hanswers⟩ := hs'
    rw [hcompleted, hanswers, ha.2]
    exact ⟨ha.1, List.length_append⟩
  unfold Opening.onHeaderComplete
  by_cases hv : verdict request s.ws.headers_ = true
  · simp only [if_pos hv]
    apply (answer_counts _ _ true uv).bind
    intro a ha
    exact (handleConnection_ends a uv).mono (fun s' hs' => hanswered a true ha s' hs'.2)
      fun _ _ => trivial
  · simp only [if_neg hv]
    apply (answer_counts _ _ false uv).bind
    intro a ha
    exact (close_ends a).mono (fun s' hs' => hanswered a false ha s' hs'.2) fun _ _ => trivial

/-- On the WebSocket connection it is the function that is called with the effects alone. -/
theorem onHeaderComplete_ws {s s' : Opening π} {request : RequestLine} {uv : ℤ}
    (h : s.onHeaderComplete sha1 base64_encode connCb_ request uv = .ok s') :
    s.ws.onHeaderComplete sha1 base64_encode (connCb_.map Greeting.run) request = .ok s'.ws := by
  unfold Opening.onHeaderComplete answer at h
  unfold WebSocketConnection.onHeaderComplete
  by_cases hv : verdict request s.ws.headers_ = true
  · simp only [if_pos hv] at h ⊢
    obtain ⟨a, ha, h⟩ := Except.bind_eq_ok.mp h
    obtain ⟨tcp, -, ha⟩ := Except.bind_eq_ok.mp ha
    cases ha
    obtain ⟨w, hw, h⟩ := Except.bind_eq_ok.mp h
    obtain ⟨tcp', -, h⟩ := Except.bind_eq_ok.mp h
    cases h
    exact Except.mapError_eq_ok.mp hw
  · simp only [if_neg hv] at h ⊢
    obtain ⟨a, ha, h⟩ := Except.bind_eq_ok.mp h
    obtain ⟨tcp, -, ha⟩ := Except.bind_eq_ok.mp ha
    cases ha
    obtain ⟨tcp', -, h⟩ := Except.bind_eq_ok.mp h
    cases h
    rfl

/-! ## The callbacks of the parser -/

theorem onHeader_status {ws w : WebSocketConnection} {callback : HeaderCallback}
    (h : ws.onHeader callback = .ok w) : w.status_ = ws.status_ := by
  cases callback with
  | field bytes =>
    cases h
    rfl
  | value bytes =>
    change ws.setHeaderValue bytes = _ at h
    unfold WebSocketConnection.setHeaderValue at h
    split at h
    · cases h
    · cases h
      rfl

theorem Judged.header {s : Opening π} (h : s.Judged) {w : WebSocketConnection}
    (hw : w.status_ = s.ws.status_) : ({ s with ws := w } : Opening π).Judged where
  counted := h.counted
  once := h.once
  waits := fun hfirst => by
    rw [show ({ s with ws := w } : Opening π).ws.status_ = s.ws.status_ from hw]
    exact h.waits hfirst
  rejected := fun hmem => hw.trans (h.rejected hmem)
  accepted := fun hmem => by
    rw [show ({ s with ws := w } : Opening π).ws.status_ = s.ws.status_ from hw]
    exact h.accepted hmem

/-- As long as no section is complete, nothing has happened to the TCP connection. -/
theorem Judged.reports {s : Opening π} (h : s.Judged) (uv : ℕ → ℤ) {rs : List Report}
    (hsingle : s.completed + sections rs ≤ 1) (hreading : s.completed = 0 → s.tcp.reading = true) :
    (s.reports sha1 base64_encode connCb_ uv rs).Ends
      (fun s' => s'.Judged ∧ s'.completed = s.completed + sections rs) Fine := by
  induction rs generalizing s with
  | nil => exact .ok ⟨h, rfl⟩
  | cons r rs ih =>
    cases r with
    | header callback =>
      have hws : (s.ws.onHeader callback).Ends (fun w => w.status_ = s.ws.status_) (fun _ => True) :=
        .of_ok (fun _ hw => onHeader_status hw) fun _ => trivial
      have hreport : (s.report sha1 base64_encode connCb_ uv (.header callback)).Ends
          (fun s' => s'.Judged ∧ s'.completed = s.completed ∧ s'.tcp = s.tcp) Fine :=
        (hws.mapError fun w _ => fine_ws w).bind fun w hw => .ok ⟨h.header hw, rfl, rfl⟩
      apply hreport.bind
      rintro a ⟨ha, hcompleted, htcp⟩
      rw [← hcompleted, ← htcp] at hreading
      rw [← hcompleted] at hsingle ⊢
      exact ih ha hsingle hreading
    | headersComplete request =>
      simp only [sections] at hsingle ⊢
      have hfirst : s.completed = 0 := by omega
      apply (h.onHeaderComplete hfirst (hreading hfirst) request _).bind
      rintro a ⟨ha, hone⟩
      apply (ih ha (by omega) (by omega)).mono _ fun _ => id
      rintro s' ⟨hs', hcompleted⟩
      exact ⟨hs', by omega⟩

theorem reports_counts (s : Opening π) (uv : ℕ → ℤ) (rs : List Report) :
    (s.reports sha1 base64_encode connCb_ uv rs).Ends
      (fun s' => s'.completed = s.completed + sections rs ∧
        s'.answers.length = s.answers.length + sections rs) fun _ => True := by
  induction rs generalizing s with
  | nil => exact .ok ⟨rfl, rfl⟩
  | cons r rs ih =>
    have hreport : (s.report sha1 base64_encode connCb_ uv r).Ends
        (fun s' => s'.completed = s.completed + sections [r] ∧
          s'.answers.length = s.answers.length + sections [r]) fun _ => True := by
      cases r with
      | header callback =>
        have hws : ((s.ws.onHeader callback).mapError OpeningFault.ws).Ends (fun _ => True)
            fun _ => True := .any _
        exact hws.bind fun w _ => .ok ⟨rfl, rfl⟩
      | headersComplete request => exact onHeaderComplete_counts s request _
    have hsections : sections (r :: rs) = sections [r] + sections rs := by
      cases r with
      | header callback => simp [sections]
      | headersComplete request => simp [sections, Nat.add_comm]
    apply hreport.bind
    rintro a ⟨hcompleted, hanswers⟩
    apply (ih a).mono _ fun _ => id
    rintro s' ⟨hcompleted', hanswers'⟩
    constructor
    · omega
    · omega

theorem Judged.parse {s : Opening π} (h : s.Judged) (hheard : P.failed s.parser = true → 0 < s.completed)
    (uv : ℕ → ℤ) (hreading : s.completed = 0 → s.tcp.reading = true)
    (hone : s.completed + sections (P.execute s.parser s.ws.inputBuffer.readable).1 ≤ 1)
    (hfailed : P.failed (P.execute s.parser s.ws.inputBuffer.readable).2.2 = true →
      0 < s.completed + sections (P.execute s.parser s.ws.inputBuffer.readable).1) :
    (s.parse P sha1 base64_encode connCb_ uv).Ends (Inv P) Fine := by
  have hpeek : s.ws.inputBuffer.peek s.ws.inputBuffer.readableBytes = s.ws.inputBuffer.readable := rfl
  unfold Opening.parse
  by_cases hw : s.ws.inputBuffer.readableBytes < s.ws.wanted_
  · rw [if_pos hw]
    exact .ok ⟨h, hheard⟩
  · rw [if_neg hw, hpeek]
    apply (h.reports uv hone hreading).bind
    rintro a ⟨ha, hcompleted⟩
    cases hr : a.ws.inputBuffer.retrieve (P.execute s.parser s.ws.inputBuffer.readable).2.1 with
    | none => exact .error (fine_ws _)
    | some inputBuffer =>
      refine .ok ⟨⟨ha.counted, ha.once, ha.waits, ha.rejected, ha.accepted⟩, fun hf => ?_⟩
      have hpos := hfailed hf
      rw [← hcompleted] at hpos
      exact hpos

theorem parse_counts {s s' : Opening π} {uv : ℕ → ℤ} (hwanted : s.ws.wanted_ = 0)
    (hs : s.parse P sha1 base64_encode connCb_ uv = .ok s') :
    let heard := P.execute s.parser s.ws.inputBuffer.readable
    s'.completed = s.completed + sections heard.1 ∧
      s'.answers.length = s.answers.length + sections heard.1 ∧ s'.parser = heard.2.2 := by
  intro heard
  have hpeek : s.ws.inputBuffer.peek s.ws.inputBuffer.readableBytes = s.ws.inputBuffer.readable := rfl
  have hcounts : (s.reports sha1 base64_encode connCb_ uv heard.1).Ends _ _ := reports_counts s uv heard.1
  unfold Opening.parse at hs
  rw [if_neg (by omega), hpeek] at hs
  obtain ⟨a, ha, hs⟩ := Except.bind_eq_ok.mp hs
  rw [ha, Except.ends_ok] at hcounts
  split at hs
  · cases hs
    exact ⟨hcounts.1, hcounts.2, rfl⟩
  · cases hs

/-- On the WebSocket connection it is `parse` with what the callbacks make of the connection. -/
theorem parse_ws {s s' : Opening π} {uv : ℕ → ℤ} (hinitial : s.ws.status_ = .INITIAL)
    (hs : s.parse P sha1 base64_encode connCb_ uv = .ok s') :
    ∃ a, (s.ws.wanted_ ≤ s.ws.inputBuffer.readableBytes →
        s.reports sha1 base64_encode connCb_ uv
          (P.execute s.parser s.ws.inputBuffer.readable).1 = .ok a) ∧
      s.ws.parse (fun _ bytes => ((P.execute s.parser bytes).2.1, a.ws)) = .returned s'.ws := by
  unfold Opening.parse at hs
  unfold WebSocketConnection.parse
  by_cases hw : s.ws.inputBuffer.readableBytes < s.ws.wanted_
  · rw [if_pos hw] at hs
    cases hs
    exact ⟨s, fun hle => absurd hw (Nat.not_lt.mpr hle), if_pos hw⟩
  · rw [if_neg hw] at hs
    obtain ⟨a, ha, hs⟩ := Except.bind_eq_ok.mp hs
    refine ⟨a, fun _ => ha, ?_⟩
    rw [if_neg hw, hinitial]
    dsimp only at hs ⊢
    split at hs
    · next hretrieve =>
      cases hs
      rw [hretrieve]
    · cases hs

/-! ## Runs -/

theorem handleClose_ends (c : TcpConnection) : c.handleClose.Ends
    (fun c' => c'.writes = c.writes ∧ (c'.reading = true → c.reading = true)) fun _ => True := by
  unfold TcpConnection.handleClose
  split
  · exact .ok ⟨rfl, id⟩
  · split
    · exact .ok ⟨rfl, nofun⟩
    · exact .error trivial

/-- Once there is an answer, it is the status that matters. -/
theorem Inv.answered {s s' : Opening π} (h : s.Inv P) (hpos : 0 < s.completed)
    (hcompleted : s'.completed = s.completed) (hanswers : s'.answers = s.answers)
    (hrejected : false ∈ s.answers → s'.ws.status_ = .INITIAL)
    (haccepted : true ∈ s.answers → s'.ws.status_ ≠ .INITIAL) : s'.Inv P where
  counted := by rw [hanswers, hcompleted, h.counted]
  once := hcompleted ▸ h.once
  waits := by omega
  rejected := hanswers ▸ hrejected
  accepted := hanswers ▸ haccepted
  heard := by
    rw [hcompleted]
    exact fun _ => hpos

/-- After the handshake it is enough that the status does not go back. -/
theorem Inv.past {s s' : Opening π} (h : s.Inv P) (hpast : s.ws.status_ ≠ .INITIAL)
    (hcompleted : s'.completed = s.completed) (hanswers : s'.answers = s.answers)
    (hpast' : s'.ws.status_ ≠ .INITIAL) : s'.Inv P := by
  have hpos : 0 < s.completed := by
    by_contra hzero
    exact hpast (h.waits (by omega)).1
  exact h.answered hpos hcompleted hanswers (fun hmem => absurd (h.rejected hmem) hpast)
    fun _ => hpast'

theorem Inv.readEnd {s : Opening π} (h : s.Inv P) {nread : ℤ} (hneg : nread < 0) :
    (s.step P sha1 base64_encode connCb_ (.readEnd nread)).Ends (Inv P) Fine := by
  have htcp := handleClose_ends { s.tcp with reading := false }
  rw [← TcpConnection.step_readEnd s.tcp hneg] at htcp
  apply (htcp.mapError fun fault _ => fine_tcp fault).bind
  rintro tcp ⟨hwrites, hreading⟩
  refine .ok ⟨⟨h.counted, h.once, fun hfirst => ?_, h.rejected, h.accepted⟩, h.heard⟩
  obtain ⟨hstatus, hnone, -⟩ := h.waits hfirst
  refine ⟨hstatus, hwrites.trans hnone, fun hr => ?_⟩
  cases hreading hr

theorem Inv.read {s : Opening π} (h : s.Inv P) {bytes : Bytes} (uv : ℕ → ℤ)
    (hr : s.tcp.reading = true) (hb : bytes ≠ []) (hsingle : s.Single P (.read bytes uv)) :
    (s.step P sha1 base64_encode connCb_ (.read bytes uv)).Ends (Inv P) Fine := by
  change ((s.tcp.step (.readData bytes)).mapError OpeningFault.tcp >>= _).Ends _ _
  rw [TcpConnection.step_readData s.tcp hb]
  have hjudged : ({ s with
      tcp := { s.tcp with buf := s.tcp.buf.write bytes }.handleMessage bytes.length
      ws := s.ws.receive bytes } : Opening π).Judged :=
    ⟨h.counted, h.once, h.waits, h.rejected, h.accepted⟩
  exact hjudged.parse h.heard uv (fun _ => hr) hsingle.1 hsingle.2

theorem Inv.step {s : Opening π} (h : s.Inv P) {e : OpeningEvent} (he : s.Possible e)
    (hsingle : s.Single P e) : (s.step P sha1 base64_encode connCb_ e).Ends (Inv P) Fine := by
  cases e with
  | read bytes uv => exact h.read uv he.2.1 he.2.2 hsingle
  | readEnd nread => exact h.readEnd he.2
  | writeDone status uv =>
    have hpos : 0 < s.completed := by
      by_contra hzero
      exact he (h.waits (by omega)).2.1
    have htcp := Except.Ends.any (s.tcp.step (.writeDone status uv))
    apply (htcp.mapError fun fault _ => fine_tcp fault).bind
    intro tcp _
    exact .ok (h.answered hpos rfl rfl h.rejected h.accepted)
  | session e tcp =>
    have hsession : (s.session.step e).Ends (fun session => session.ws.status_ ≠ .INITIAL)
        fun _ => True := .of_ok (fun _ hs => Session.past_step he.1 hs) fun _ => trivial
    apply (hsession.mapError fun w _ => fine_ws w).bind
    intro session hpast'
    exact .ok (h.past he.1 rfl rfl hpast')
  | handleClose tcp => exact .ok (h.past he rfl rfl nofun)

/-- **The condition is exact** for a read that returns. -/
theorem Inv.oneVerdict_iff {s s' : Opening π} (h : s.Inv P) (hwanted : s.ws.wanted_ = 0)
    {bytes : Bytes} {uv : ℕ → ℤ} (he : s.Possible (.read bytes uv))
    (hs : s.step P sha1 base64_encode connCb_ (.read bytes uv) = .ok s') :
    s'.OneVerdict P ↔ s.Single P (.read bytes uv) := by
  constructor
  · intro hv
    have hcounts : s'.completed = s.completed + sections (s.heard P bytes).1 ∧
        s'.answers.length = s.answers.length + sections (s.heard P bytes).1 ∧
        s'.parser = (s.heard P bytes).2.2 := by
      change ((s.tcp.step (.readData bytes)).mapError OpeningFault.tcp >>= _) = _ at hs
      rw [TcpConnection.step_readData s.tcp he.2.2] at hs
      have hsame : ({ s with
          tcp := { s.tcp with buf := s.tcp.buf.write bytes }.handleMessage bytes.length
          ws := s.ws.receive bytes } : Opening π).ws.wanted_ = 0 := hwanted
      exact parse_counts hsame hs
    obtain ⟨hcompleted, hanswers, hparser⟩ := hcounts
    have hatMost := hv.atMost
    have hcounted := h.counted
    refine ⟨by omega, fun hf => ?_⟩
    rw [← hparser] at hf
    have honce := hv.once (.inr hf)
    omega
  · intro hsingle
    have hends : (s.step P sha1 base64_encode connCb_ (.read bytes uv)).Ends (Inv P) Fine :=
      h.step he hsingle
    rw [hs, Except.ends_ok] at hends
    exact hends.oneVerdict

variable (sha1 base64_encode connCb_)

/-- **One verdict per connection.** No assertion of `conn_->send` fails on an answer, and where a run
has come to, there is one answer for all that was heard, as long as every read in `INITIAL` leaves
it at one header section, the first thing complete or malformed. -/
theorem oneVerdict_of_single {s : Opening π} (hs : s.Established P) {events : List OpeningEvent}
    (legal : (system P sha1 base64_encode connCb_).Legal s events)
    (single : ∀ p ∈ (system P sha1 base64_encode connCb_).steps s events, p.1.Single P p.2) :
    ((system P sha1 base64_encode connCb_).run s events).Ends (OneVerdict P) Fine :=
  ((system P sha1 base64_encode connCb_).run_ends (Inv P) (Single P) Fine
    (fun _ _ h he hg => h.step he hg) hs.inv legal single).mono (fun _ h => h.oneVerdict) fun _ => id

/-- `http_parser` on requests `POST / HTTP/1.1` without headers, one or more in a read. -/
def posts : HttpParser Unit where
  execute _ bytes := (List.replicate (bytes.length / 19) (.headersComplete ⟨3, 1, 1⟩), bytes.length, ())
  failed _ := false

def accepted : Opening Unit where
  ws := .initial
  decoding := false
  tcp := .fresh
  parser := ()
  completed := 0
  answers := []

theorem accepted_established : accepted.Established posts :=
  ⟨rfl, TcpConnection.fresh_established, rfl, rfl, rfl⟩

def post : Bytes := ascii "POST / HTTP/1.1\r\n\r\n"

theorem post_ne : post ≠ [] := by decide +kernel

/-- A request that is rejected. -/
theorem oneVerdict_of_single_post :
    ((system posts (fun _ _ => 0) id none).run accepted [.read post fun _ => 0]).Ends
      (OneVerdict posts) Fine := by
  have hsections : accepted.completed + sections (accepted.heard posts post).1 ≤ 1 := by
    decide +kernel
  have hfailed : posts.failed (accepted.heard posts post).2.2 = false := rfl
  have hsingle : accepted.Single posts (.read post fun _ => 0) := by
    unfold Single
    refine ⟨hsections, fun hf => ?_⟩
    rw [hfailed] at hf
    cases hf
  refine oneVerdict_of_single (fun _ _ => 0) id none accepted_established
    (EventSystem.legal_singleton _ ⟨rfl, rfl, post_ne⟩) ?_
  rw [EventSystem.steps_singleton]
  intro p hp
  rw [List.mem_singleton.mp hp]
  exact hsingle

/-- Two such requests in one read: the connection is disconnecting when the second is answered. -/
theorem not_oneVerdict_pipelined :
    let M := system posts (fun _ _ => 0) id none
    M.Legal accepted [.read (post ++ post) fun _ => 0] ∧
      ¬ (M.run accepted [.read (post ++ post) fun _ => 0]).Ends (OneVerdict posts) Fine := by
  intro M
  have hfails : ¬ (M.run accepted [.read (post ++ post) fun _ => 0]).Ends (fun _ => True) Fine := by
    decide +kernel
  refine ⟨EventSystem.legal_singleton _ ⟨rfl, rfl, ?_⟩, fun h => hfails ?_⟩
  · exact List.append_ne_nil_of_left_ne_nil post_ne post
  · exact h.mono (fun _ _ => trivial) fun _ => id

end Opening
end WsEngine
