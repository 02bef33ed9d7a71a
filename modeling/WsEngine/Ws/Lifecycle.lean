import WsEngine.Ws.Acceptance
import WsEngine.Ws.Chunks
import WsEngine.Ws.SendsStop
import WsEngine.Ws.Validation

/-! # The life of a connection

From the constructor on: reads and what `parse` makes of them, in `http_parser` or in `decode`, calls
of the application, and the notification that the TCP connection is closed. `status_` is assigned in
four places, and two of them do not look at what it was: `close` sets CLOSING and `handleConnection`
CONNECT. So the status goes forward exactly as long as nothing closes a connection that is closed
already, and no request is accepted on one that is closing. Only a status that went back lets `decode`
go on behind a close frame. -/
set_option autoImplicit false

namespace WsEngine

/-- The order in which a connection goes through them. -/
def Status.rank : Status → ℕ
  | INITIAL => 0
  | HANDSHAKE => 1
  | CONNECT => 2
  | CLOSING => 3
  | CLOSED => 4

theorem Status.rank_le (s : Status) : s.rank ≤ Status.CLOSED.rank := by
  cases s <;> decide

theorem Status.rank_le_closing {s : Status} (h : s ≠ .CLOSED) : s.rank ≤ Status.CLOSING.rank := by
  cases s with
  | CLOSED => exact absurd rfl h
  | INITIAL | HANDSHAKE | CONNECT | CLOSING => decide

/-- Where `parse` is: nowhere, in `http_parser_execute` or between two activations of `decode`. -/
inductive Phase
  | idle | parsing | decoding
  deriving DecidableEq, Repr

/-- Calls of the application in `connCb_` and `closeCb_` are events of their own, behind the one that
led to them. -/
inductive LifeEvent
  | receive (bytes : Bytes)
  | header (callback : HeaderCallback)
  | headersComplete (request : RequestLine)
  | parsed (nparsed : ℕ)
  | decode
  | call (c : ApiCall)
  | onMessage (callback : Option Callback)
  | onPing (callback : Option Callback)
  | onPong (callback : Option Callback)
  | handleClose

structure Lifecycle where
  ws : WebSocketConnection
  phase : Phase

namespace WebSocketConnection

def handleClose (ws : WebSocketConnection) : WebSocketConnection := { ws with status_ := .CLOSED }

/-- What `parse` begins with. -/
def parsePhase (ws : WebSocketConnection) : Phase :=
  if ws.inputBuffer.readableBytes < ws.wanted_ then .idle
  else
    match ws.status_ with
    | .INITIAL => .parsing
    | .CONNECT | .CLOSING => .decoding
    | .HANDSHAKE | .CLOSED => .idle

/-- What the application was told. -/
def told (ws : WebSocketConnection) : List Effect := ws.trace.filter Effect.isTold

theorem parsePhase_cases (ws : WebSocketConnection) :
    (ws.parsePhase = .idle ∧ (ws.inputBuffer.readableBytes < ws.wanted_ ∨
      ws.status_ = .HANDSHAKE ∨ ws.status_ = .CLOSED)) ∨
    (ws.parsePhase = .parsing ∧ ws.status_ = .INITIAL ∧
      ws.wanted_ ≤ ws.inputBuffer.readableBytes) ∨
    (ws.parsePhase = .decoding ∧ ws.Decodes) := by
  unfold parsePhase
  by_cases hw : ws.inputBuffer.readableBytes < ws.wanted_
  · rw [if_pos hw]
    exact .inl ⟨rfl, .inl hw⟩
  · have hle : ws.wanted_ ≤ ws.inputBuffer.readableBytes := Nat.not_lt.mp hw
    rw [if_neg hw]
    cases hs : ws.status_ with
    | INITIAL => exact .inr (.inl ⟨rfl, rfl, hle⟩)
    | HANDSHAKE => exact .inl ⟨rfl, .inr (.inl rfl)⟩
    | CONNECT => exact .inr (.inr ⟨rfl, hle, .inl hs⟩)
    | CLOSING => exact .inr (.inr ⟨rfl, hle, .inr hs⟩)
    | CLOSED => exact .inl ⟨rfl, .inr (.inr rfl)⟩

end WebSocketConnection

namespace Lifecycle

variable (sha1 : Bytes → Fin 5 → ℕ) (base64_encode : Bytes → Bytes)

def afterCall : Call WebSocketConnection → Except WebSocketConnection Lifecycle
  | .returned ws => .ok ⟨ws, .idle⟩
  | .again ws => .ok ⟨ws, .decoding⟩
  | .aborted ws => .error ws

def step (s : Lifecycle) : LifeEvent → Except WebSocketConnection Lifecycle
  | .receive bytes => .ok ⟨s.ws.receive bytes, (s.ws.receive bytes).parsePhase⟩
  | .header callback => (s.ws.onHeader callback).map fun ws => ⟨ws, s.phase⟩
  | .headersComplete request =>
    (s.ws.onHeaderComplete sha1 base64_encode none request).map fun ws => ⟨ws, s.phase⟩
  | .parsed nparsed =>
    match s.ws.inputBuffer.retrieve nparsed with
    | some inputBuffer => .ok ⟨{ s.ws with inputBuffer := inputBuffer }, .idle⟩
    | none => .error s.ws
  | .decode => afterCall s.ws.decodeCall
  | .call c => (s.ws.call c).map fun ws => ⟨ws, s.phase⟩
  | .onMessage callback => .ok ⟨{ s.ws with wsMessageCallback_ := callback }, s.phase⟩
  | .onPing callback => .ok ⟨{ s.ws with pingCallback_ := callback }, s.phase⟩
  | .onPong callback => .ok ⟨{ s.ws with pongCallback_ := callback }, s.phase⟩
  | .handleClose => .ok ⟨s.ws.handleClose, s.phase⟩

/-- In `decode` the application calls from its callbacks, which are part of an activation, and from
`closeCb_`, which runs where a close frame has made `decode` close the TCP connection. -/
def Possible (s : Lifecycle) : LifeEvent → Prop
  | .receive bytes => s.phase = .idle ∧ bytes ≠ []
  | .header _ | .headersComplete _ | .parsed _ => s.phase = .parsing
  | .decode => s.phase = .decoding
  | .call _ | .onMessage _ | .onPing _ | .onPong _ => True
  | .handleClose => s.phase = .decoding → s.ws.status_ = .CLOSED

instance (s : Lifecycle) : DecidablePred s.Possible
  | .receive _ => inferInstanceAs (Decidable (_ ∧ _))
  | .header _ | .headersComplete _ | .parsed _ | .decode => inferInstanceAs (Decidable (_ = _))
  | .call _ | .onMessage _ | .onPing _ | .onPong _ => isTrue trivial
  | .handleClose => inferInstanceAs (Decidable (_ → _))

def system : EventSystem Lifecycle LifeEvent WebSocketConnection :=
  ⟨Possible, step sha1 base64_encode⟩

instance (s : Lifecycle) (e : LifeEvent) :
    Decidable ((system sha1 base64_encode).enabled s e) :=
  inferInstanceAs (Decidable (s.Possible e))

def start (ws : WebSocketConnection) : Lifecycle := ⟨ws, .idle⟩

/-! ## `parse` and sessions as runs -/

def ofSession (s : Session) : Lifecycle := ⟨s.ws, if s.decoding then .decoding else .idle⟩

def ofSessionEvent : SessionEvent → LifeEvent
  | .receive bytes => .receive bytes
  | .decode => .decode
  | .call c => .call c

variable {sha1 base64_encode}

theorem possible_ofSession {s : Session} {e : SessionEvent} (he : s.Possible e) :
    (ofSession s).Possible (ofSessionEvent e) := by
  cases e with
  | receive bytes =>
    refine ⟨?_, he.2⟩
    rw [ofSession, he.1]
    rfl
  | decode =>
    change (ofSession s).phase = .decoding
    rw [ofSession, show s.decoding = true from he]
    rfl
  | call c => trivial

theorem step_ofSession {s s' : Session} {e : SessionEvent} (hpast : s.ws.status_ ≠ .INITIAL)
    (he : s.Possible e) (hs : s.step e = .ok s') :
    (ofSession s).step sha1 base64_encode (ofSessionEvent e) = .ok (ofSession s') := by
  cases e with
  | receive bytes =>
    cases hs
    change Except.ok _ = Except.ok _
    have hphase : (s.ws.receive bytes).parsePhase =
        if decide (s.ws.receive bytes).Decodes then .decoding else .idle := by
      obtain ⟨hidle, hnot⟩ | ⟨-, hinitial, -⟩ | ⟨hdecoding, hd⟩ :=
        (s.ws.receive bytes).parsePhase_cases
      · have hnd : ¬ (s.ws.receive bytes).Decodes := by
          rintro ⟨hle, hopen⟩
          obtain hw | hs | hs := hnot
          · omega
          · simp [hs] at hopen
          · simp [hs] at hopen
        rw [hidle, decide_eq_false hnd]
        rfl
      · exact absurd hinitial hpast
      · rw [hdecoding, decide_eq_true hd]
        rfl
    rw [show (ofSession s).ws = s.ws from rfl, hphase]
    rfl
  | decode =>
    change Session.afterCall s.ws.decodeCall = _ at hs
    change afterCall s.ws.decodeCall = _
    cases hc : s.ws.decodeCall with
    | returned w | again w =>
      rw [hc] at hs
      cases hs
      rfl
    | aborted w =>
      rw [hc] at hs
      cases hs
  | call c =>
    obtain ⟨w, hw, rfl⟩ := Except.map_eq_ok.mp hs
    change (s.ws.call c).map _ = _
    rw [hw, ofSession, show s.decoding = false from he]
    rfl

/-- After the handshake a session is a run. -/
theorem run_ofSession {s s' : Session} {es : List SessionEvent} (hpast : s.ws.status_ ≠ .INITIAL)
    (legal : Session.system.Legal s es) (hrun : Session.system.run s es = .ok s') :
    (system sha1 base64_encode).Legal (ofSession s) (es.map ofSessionEvent) ∧
      (system sha1 base64_encode).run (ofSession s) (es.map ofSessionEvent) =
        .ok (ofSession s') := by
  induction es generalizing s with
  | nil =>
    cases hrun
    exact ⟨trivial, rfl⟩
  | cons e es ih =>
    cases hs : Session.system.step s e with
    | error w => simp [EventSystem.run, hs] at hrun
    | ok u =>
      rw [Session.system.run_cons_ok es hs] at hrun
      have hstep : (system sha1 base64_encode).step (ofSession s) (ofSessionEvent e) =
          .ok (ofSession u) := step_ofSession hpast legal.1 hs
      obtain ⟨hlegal, hrest⟩ := ih (Session.past_step hpast hs) (legal.2 u hs) hrun
      rw [List.map_cons]
      exact ⟨(system sha1 base64_encode).legal_cons_ok (possible_ofSession legal.1) hstep hlegal,
        ((system sha1 base64_encode).run_cons_ok _ hstep).trans hrest⟩

/-- After the handshake `parse` is a read and the activations of `decode`. -/
theorem run_parse (httpParserExecute : WebSocketConnection → Bytes → ℕ × WebSocketConnection)
    {ws w : WebSocketConnection} {bytes : Bytes} (hpast : ws.status_ ≠ .INITIAL) (hb : bytes ≠ [])
    (h : (ws.receive bytes).parse httpParserExecute = .returned w) :
    ∃ k, let es := .receive bytes :: List.replicate k .decode
      (system sha1 base64_encode).Legal (start ws) es ∧
        (system sha1 base64_encode).run (start ws) es = .ok (start w) := by
  obtain ⟨k, hlegal, hrun⟩ := Session.run_parse httpParserExecute hpast hb h
  have hevents : (SessionEvent.receive bytes :: List.replicate k .decode).map ofSessionEvent =
      .receive bytes :: List.replicate k .decode := by
    rw [List.map_cons, List.map_replicate]
    rfl
  refine ⟨k, ?_⟩
  rw [← hevents]
  exact run_ofSession hpast hlegal hrun

/-- In `INITIAL` it is the callbacks that `http_parser` makes, and then what this has taken is
dropped. -/
theorem run_parse_initial {ws a w : WebSocketConnection} {bytes : Bytes} {nparsed : ℕ}
    {callbacks : List LifeEvent} (hinitial : ws.status_ = .INITIAL) (hb : bytes ≠ [])
    (hwanted : ws.wanted_ ≤ (ws.receive bytes).inputBuffer.readableBytes)
    (hlegal : (system sha1 base64_encode).Legal ⟨ws.receive bytes, .parsing⟩ callbacks)
    (hcallbacks : (system sha1 base64_encode).run ⟨ws.receive bytes, .parsing⟩ callbacks =
      .ok ⟨a, .parsing⟩)
    (h : (ws.receive bytes).parse (fun _ _ => (nparsed, a)) = .returned w) :
    let es := .receive bytes :: (callbacks ++ [.parsed nparsed])
    (system sha1 base64_encode).Legal (start ws) es ∧
      (system sha1 base64_encode).run (start ws) es = .ok (start w) := by
  have hstatus : (ws.receive bytes).status_ = .INITIAL := hinitial
  have hgate : ¬ (ws.receive bytes).inputBuffer.readableBytes < (ws.receive bytes).wanted_ :=
    Nat.not_lt.mpr hwanted
  have hphase : (ws.receive bytes).parsePhase = .parsing := by
    unfold WebSocketConnection.parsePhase
    rw [if_neg hgate, hstatus]
  have hreceive : (system sha1 base64_encode).step (start ws) (.receive bytes) =
      .ok ⟨ws.receive bytes, .parsing⟩ := by
    rw [← hphase]
    rfl
  have hparsed : (system sha1 base64_encode).step ⟨a, .parsing⟩ (.parsed nparsed) =
      .ok (start w) := by
    unfold WebSocketConnection.parse at h
    rw [if_neg hgate, hstatus] at h
    change step sha1 base64_encode ⟨a, .parsing⟩ (.parsed nparsed) = _
    unfold step
    dsimp only at h ⊢
    cases hr : a.inputBuffer.retrieve nparsed with
    | some inputBuffer =>
      rw [hr] at h
      cases h
      rfl
    | none =>
      rw [hr] at h
      cases h
  constructor
  · have hpossible : (system sha1 base64_encode).enabled (start ws) (.receive bytes) := ⟨rfl, hb⟩
    apply (system sha1 base64_encode).legal_cons_ok hpossible hreceive
    apply (system sha1 base64_encode).legal_append hlegal hcallbacks
    exact (system sha1 base64_encode).legal_singleton rfl
  · rw [(system sha1 base64_encode).run_cons_ok _ hreceive,
      (system sha1 base64_encode).run_append _ hcallbacks,
      (system sha1 base64_encode).run_cons_ok [] hparsed, EventSystem.run_nil]

/-! ## The specification -/

end Lifecycle

/-- The status has not gone back, and nothing was told on a closed connection. -/
structure WebSocketConnection.Advances (ws w : WebSocketConnection) : Prop where
  status : ws.status_.rank ≤ w.status_.rank
  silent : ws.status_ = .CLOSED → w.told = ws.told

namespace Lifecycle

variable (sha1 : Bytes → Fin 5 → ℕ) (base64_encode : Bytes → Bytes)

def Forward (s : Lifecycle) (e : LifeEvent) : Prop :=
  (s.step sha1 base64_encode e).Ends (fun s' => s.ws.Advances s'.ws) fun ws => s.ws.Advances ws

/-- A call that sends a close frame is not made on a closed connection, and a request is not accepted on
one that is closing or closed. -/
def Due (s : Lifecycle) : LifeEvent → Prop
  | .call c => c.closes = true → s.ws.status_ ≠ .CLOSED
  | .headersComplete request =>
    verdict request s.ws.headers_ = true → s.ws.status_ ≠ .CLOSING ∧ s.ws.status_ ≠ .CLOSED
  | .receive _ | .header _ | .parsed _ | .decode | .onMessage _ | .onPing _ | .onPong _
  | .handleClose => True

instance (s : Lifecycle) : DecidablePred s.Due
  | .call _ | .headersComplete _ => inferInstanceAs (Decidable (_ → _))
  | .receive _ | .header _ | .parsed _ | .decode | .onMessage _ | .onPing _ | .onPong _
  | .handleClose => isTrue trivial

/-- What is decoded on a closed connection is the payload of the close frame. -/
def Inv (s : Lifecycle) : Prop :=
  s.phase = .decoding → s.ws.status_ = .CLOSED →
    ∃ h, s.ws.abs.header = some h ∧ h.opcode = 8

end Lifecycle

namespace Decoder

/-! ## Activations -/

theorem status_call (d : Decoder) (c : ApiCall) :
    (ended (d.call c)).status = if c.closes then .CLOSING else d.status := by
  have hmessage (data : Bytes) (isBinary : Bool) :
      (ended (d.sendMessage data isBinary)).status = d.status := by
    unfold sendMessage
    split <;> rfl
  cases c with
  | sendMove data isBinary => exact hmessage data isBinary
  | sendMessage data isBinary => exact hmessage data isBinary
  | ping message =>
    change (d.ping message).status = _
    by_cases hl : 126 ≤ message.length
    · have hcloses : (ApiCall.ping message).closes = true := decide_eq_true hl
      rw [ping, if_pos hl, status_close, if_pos hcloses]
    · have hcloses : (ApiCall.ping message).closes ≠ true := by simpa [ApiCall.closes] using hl
      rw [ping, if_neg hl, if_neg hcloses]
      rfl
  | pong message =>
    change (d.pong message).status = _
    by_cases hl : 126 ≤ message.length
    · have hcloses : (ApiCall.pong message).closes = true := decide_eq_true hl
      rw [pong, if_pos hl, protocolError, status_close, if_pos hcloses]
    · have hcloses : (ApiCall.pong message).closes ≠ true := by simpa [ApiCall.closes] using hl
      rw [pong, if_neg hl, if_neg hcloses]
      rfl
  | close code => exact status_close d code

theorem told_call (d : Decoder) (c : ApiCall) :
    (ended (d.call c)).trace.filter Effect.isTold = d.trace.filter Effect.isTold := by
  obtain ⟨more, htrace, hmore, -⟩ := speaks_call d c
  have hnone : more.filter Effect.isTold = [] := by
    rw [List.filter_eq_nil_iff]
    intro e he htold
    have hdecoded := hmore e he
    cases e <;> simp_all [Effect.isTold, Effect.isDecoded]
  rw [htrace, List.filter_append, hnone, List.append_nil]

/-- Behind a close frame its payload is taken again and again, and ignored. -/
theorem outcome_closed {d : Decoder} {r : Call Decoder} (ho : d.Outcome r) {h : Header}
    (hs : d.status = .CLOSED) (hh : d.header = some h) (hop : h.opcode = 8) :
    r.state.status = .CLOSED ∧ r.state.header = some h ∧
      r.state.trace.filter Effect.isTold = d.trace.filter Effect.isTold := by
  have hread := readHeader_some hh
  have hheader {t : Taken} (ha : d.ahead = some t) : t.header = h := by
    obtain ⟨h', d', hr, -, rfl⟩ := ahead_some ha
    cases hread.symm.trans hr
    rfl
  cases ho with
  | empty hn => cases hn.symm.trans hh
  | reserved hr => cases hr.1.symm.trans hh
  | short wanted hn hf => cases hn.symm.trans hh
  | waits h' d' hr hl =>
    cases hread.symm.trans hr
    exact ⟨hs, hh, rfl⟩
  | refused t ha he =>
    rw [Erroneous, hheader ha, hop] at he
    exact he.elim
  | closed t ha hop' hs' =>
    rw [status_ahead ha, hs] at hs'
    cases hs'
  | ignored t ha hop' hs' =>
    rw [state_recurse]
    refine ⟨(status_ahead ha).trans hs, (header_ahead ha).trans (congrArg some (hheader ha)), ?_⟩
    rw [trace_ahead ha, List.filter_append]
    exact List.append_nil _
  | failed t x ha he hop' hx => exact absurd ((congrArg Header.opcode (hheader ha)).trans hop) hop'
  | told t x ha he hop' hx => exact absurd ((congrArg Header.opcode (hheader ha)).trans hop) hop'

end Decoder

namespace Lifecycle

/-! ## Steps -/

variable {sha1 : Bytes → Fin 5 → ℕ} {base64_encode : Bytes → Bytes}

theorem advances_of_eq {ws w : WebSocketConnection} (hstatus : w.status_ = ws.status_)
    (htold : w.told = ws.told) : ws.Advances w :=
  ⟨le_of_eq (congrArg Status.rank hstatus.symm), fun _ => htold⟩

theorem decodeCall_state (ws : WebSocketConnection) :
    ws.decodeCall.state.abs = ws.abs.activate.state := by
  rw [← WebSocketConnection.abs_decodeCall, Call.state_map]

/-- An activation goes forward, and ends in CLOSED with a close frame's header. -/
theorem Inv.decodeCall {s : Lifecycle} (h : s.Inv) (hphase : s.phase = .decoding) :
    s.ws.Advances s.ws.decodeCall.state ∧ (s.ws.decodeCall.state.status_ = .CLOSED →
      ∃ h, s.ws.decodeCall.state.abs.header = some h ∧ h.opcode = 8) := by
  have hstate := decodeCall_state s.ws
  have hstatus : s.ws.decodeCall.state.status_ = s.ws.abs.activate.state.status :=
    congrArg Decoder.status hstate
  have htrace : s.ws.decodeCall.state.trace = s.ws.abs.activate.state.trace :=
    congrArg Decoder.trace hstate
  by_cases hs : s.ws.status_ = .CLOSED
  · obtain ⟨header, hh, hop⟩ := h hphase hs
    obtain ⟨hclosed, hheader, htold⟩ := Decoder.outcome_closed s.ws.abs.outcome hs hh hop
    refine ⟨advances_of_eq ?_ ?_, fun _ => ⟨header, ?_, hop⟩⟩
    · rw [hstatus, hclosed, hs]
    · unfold WebSocketConnection.told
      rw [htrace]
      exact htold
    · rw [hstate, hheader]
  · obtain (hsame | hclosing) | ⟨-, hclosed, hheader⟩ := Decoder.status_outcome s.ws.abs.outcome
    · have hkept : s.ws.decodeCall.state.status_ = s.ws.status_ := hstatus.trans hsame
      refine ⟨⟨le_of_eq (congrArg Status.rank hkept.symm), fun hc => absurd hc hs⟩, fun hc => ?_⟩
      exact absurd (hkept.symm.trans hc) hs
    · rw [hstatus.trans hclosing]
      refine ⟨⟨?_, fun hc => absurd hc hs⟩, nofun⟩
      rw [hstatus.trans hclosing]
      exact Status.rank_le_closing hs
    · refine ⟨⟨?_, fun hc => absurd hc hs⟩, fun _ => ?_⟩
      · rw [hstatus.trans hclosed]
        exact Status.rank_le _
      · rw [hstate]
        exact hheader

/-- What a call does to the status, and that it tells nothing. -/
theorem call_ends (ws : WebSocketConnection) (c : ApiCall) :
    let P (w : WebSocketConnection) :=
      w.status_ = (if c.closes then .CLOSING else ws.status_) ∧ w.told = ws.told
    (ws.call c).Ends P P := by
  intro P
  have habs := WebSocketConnection.abs_call ws c
  have hstatus := Decoder.status_call ws.abs c
  have htold := Decoder.told_call ws.abs c
  rw [← habs] at hstatus htold
  cases hc : ws.call c with
  | ok w =>
    rw [hc] at hstatus htold
    exact .ok ⟨hstatus, htold⟩
  | error w =>
    rw [hc] at hstatus htold
    exact .error ⟨hstatus, htold⟩

theorem call_forward_iff (s : Lifecycle) (c : ApiCall) :
    s.Forward sha1 base64_encode (.call c) ↔ s.Due (.call c) := by
  have hcall := call_ends s.ws c
  have hadvances {w : WebSocketConnection}
      (hw : w.status_ = (if c.closes then .CLOSING else s.ws.status_) ∧ w.told = s.ws.told) :
      s.ws.Advances w ↔ s.Due (.call c) := by
    obtain ⟨hstatus, htold⟩ := hw
    constructor
    · rintro ⟨hrank, -⟩ hcloses hclosed
      rw [hstatus, if_pos hcloses, hclosed] at hrank
      exact absurd hrank (by decide)
    · intro hdue
      refine ⟨?_, fun _ => htold⟩
      rw [hstatus]
      split
      · next hcloses => exact Status.rank_le_closing (hdue hcloses)
      · exact le_refl _
  change ((s.ws.call c).map fun ws => (⟨ws, s.phase⟩ : Lifecycle)).Ends _ _ ↔ _
  cases hc : s.ws.call c with
  | ok w =>
    rw [hc, Except.ends_ok] at hcall
    exact Except.ends_ok.trans (hadvances hcall)
  | error w =>
    rw [hc, Except.ends_error] at hcall
    exact Except.ends_error.trans (hadvances hcall)

/-- What an answer to a request does to the status, and that it tells nothing. -/
theorem onHeaderComplete_eq (ws : WebSocketConnection) (request : RequestLine) :
    ∃ w, ws.onHeaderComplete sha1 base64_encode none request = .ok w ∧
      w.status_ = (if verdict request ws.headers_ then .CONNECT else ws.status_) ∧
      w.told = ws.told := by
  unfold WebSocketConnection.onHeaderComplete
  by_cases hv : verdict request ws.headers_ = true
  · rw [if_pos hv, if_pos hv]
    refine ⟨_, rfl, rfl, ?_⟩
    exact (List.filter_append ..).trans (List.append_nil _)
  · rw [if_neg hv, if_neg hv]
    refine ⟨_, rfl, rfl, ?_⟩
    change ((ws.trace ++ [Effect.send WebSocketConnection.BAD_REQUEST]) ++
      [Effect.closeTcp]).filter _ = _
    rw [List.append_assoc]
    exact (List.filter_append ..).trans (List.append_nil _)

theorem headersComplete_forward_iff (s : Lifecycle) (request : RequestLine) :
    s.Forward sha1 base64_encode (.headersComplete request) ↔ s.Due (.headersComplete request) := by
  obtain ⟨w, hw, hstatus, htold⟩ := @onHeaderComplete_eq sha1 base64_encode s.ws request
  change ((s.ws.onHeaderComplete sha1 base64_encode none request).map
    fun ws => (⟨ws, s.phase⟩ : Lifecycle)).Ends _ _ ↔ _
  rw [hw]
  refine Except.ends_ok.trans ?_
  constructor
  · rintro ⟨hrank, -⟩ hv
    change s.ws.status_.rank ≤ w.status_.rank at hrank
    rw [hstatus, if_pos hv] at hrank
    constructor <;> intro hs <;> rw [hs] at hrank <;> exact absurd hrank (by decide)
  · intro hdue
    refine ⟨?_, fun _ => htold⟩
    change s.ws.status_.rank ≤ w.status_.rank
    rw [hstatus]
    split
    · next hv =>
      obtain ⟨hclosing, hclosed⟩ := hdue hv
      cases hs : s.ws.status_ with
      | CLOSING => exact absurd hs hclosing
      | CLOSED => exact absurd hs hclosed
      | INITIAL | HANDSHAKE | CONNECT => decide
    · exact le_refl _

/-- **One step** goes forward iff it is due. -/
theorem Inv.forward_iff {s : Lifecycle} (h : s.Inv) {e : LifeEvent} (possible : s.Possible e) :
    s.Forward sha1 base64_encode e ↔ s.Due e := by
  cases e with
  | call c => exact call_forward_iff s c
  | headersComplete request => exact headersComplete_forward_iff s request
  | receive bytes => exact iff_of_true (.ok (advances_of_eq rfl rfl)) trivial
  | header callback =>
    refine iff_of_true ?_ trivial
    change ((s.ws.onHeader callback).map fun ws => (⟨ws, s.phase⟩ : Lifecycle)).Ends _ _
    cases callback with
    | field bytes => exact .ok (advances_of_eq rfl rfl)
    | value bytes =>
      unfold WebSocketConnection.onHeader WebSocketConnection.setHeaderValue
      dsimp only
      split
      · exact .error (advances_of_eq rfl rfl)
      · exact .ok (advances_of_eq rfl rfl)
  | parsed nparsed =>
    refine iff_of_true ?_ trivial
    unfold Forward step
    dsimp only
    split
    · exact .ok (advances_of_eq rfl rfl)
    · exact .error (advances_of_eq rfl rfl)
  | decode =>
    refine iff_of_true ?_ trivial
    have hadvances := (h.decodeCall possible).1
    change (afterCall s.ws.decodeCall).Ends _ _
    cases hc : s.ws.decodeCall with
    | returned w =>
      rw [hc] at hadvances
      exact .ok hadvances
    | again w =>
      rw [hc] at hadvances
      exact .ok hadvances
    | aborted w =>
      rw [hc] at hadvances
      exact .error hadvances
  | onMessage callback => exact iff_of_true (.ok (advances_of_eq rfl rfl)) trivial
  | onPing callback => exact iff_of_true (.ok (advances_of_eq rfl rfl)) trivial
  | onPong callback => exact iff_of_true (.ok (advances_of_eq rfl rfl)) trivial
  | handleClose => exact iff_of_true (.ok ⟨Status.rank_le _, fun _ => rfl⟩) trivial

theorem inv_of_phase {s : Lifecycle} (h : s.phase ≠ .decoding) : s.Inv :=
  fun hphase => absurd hphase h

/-- What `decode` goes by is left alone by all that is not part of it. -/
structure SameFrames (ws w : WebSocketConnection) : Prop where
  input : w.abs.input = ws.abs.input
  header : w.abs.header = ws.abs.header
  wanted : w.wanted_ = ws.wanted_

theorem sameFrames_header {ws w : WebSocketConnection} {callback : HeaderCallback}
    (hw : ws.onHeader callback = .ok w) : SameFrames ws w := by
  cases callback with
  | field bytes =>
    cases hw
    exact ⟨rfl, rfl, rfl⟩
  | value bytes =>
    change ws.setHeaderValue bytes = _ at hw
    unfold WebSocketConnection.setHeaderValue at hw
    split at hw
    · cases hw
    · cases hw
      exact ⟨rfl, rfl, rfl⟩

theorem sameFrames_headersComplete {ws w : WebSocketConnection} {request : RequestLine}
    (hw : ws.onHeaderComplete sha1 base64_encode none request = .ok w) : SameFrames ws w := by
  unfold WebSocketConnection.onHeaderComplete at hw
  split at hw
  · cases hw
    exact ⟨rfl, rfl, rfl⟩
  · cases hw
    exact ⟨rfl, rfl, rfl⟩

theorem sameFrames_call {ws w : WebSocketConnection} {c : ApiCall} (hw : ws.call c = .ok w) :
    SameFrames ws w := by
  have habs := WebSocketConnection.abs_call ws c
  have hsent := Decoder.sent_call ws.abs c
  rw [← habs, hw] at hsent
  obtain ⟨output, status, more, hsent⟩ := hsent
  change w.abs = _ at hsent
  refine ⟨?_, ?_, congrArg Decoder.wanted hsent⟩
  · rw [hsent]
  · rw [hsent]

theorem orClosing_call {ws w : WebSocketConnection} {c : ApiCall} (hw : ws.call c = .ok w) :
    w.status_ = ws.status_ ∨ w.status_ = .CLOSING := by
  have hclosing := Decoder.orClosing_call ws.abs c
  rw [← WebSocketConnection.abs_call ws c, hw] at hclosing
  exact hclosing

theorem Inv.same {s : Lifecycle} (h : s.Inv) {w : WebSocketConnection} (hw : SameFrames s.ws w)
    (hstatus : s.phase = .decoding → w.status_ = .CLOSED → s.ws.status_ = .CLOSED) :
    Inv ⟨w, s.phase⟩ := by
  intro hphase hclosed
  rw [show (⟨w, s.phase⟩ : Lifecycle).ws.abs.header = s.ws.abs.header from hw.header]
  exact h hphase (hstatus hphase hclosed)

theorem Inv.step {s s' : Lifecycle} (h : s.Inv) {e : LifeEvent} (possible : s.Possible e)
    (hstep : s.step sha1 base64_encode e = .ok s') : s'.Inv := by
  have hparsing {w : WebSocketConnection} (hphase : s.phase = .parsing) :
      s.phase = .decoding → w.status_ = .CLOSED → s.ws.status_ = .CLOSED := by
    intro hdecoding
    cases hphase.symm.trans hdecoding
  cases e with
  | receive bytes =>
    cases hstep
    intro hphase hclosed
    have hclosed : (s.ws.receive bytes).status_ = .CLOSED := hclosed
    obtain ⟨hidle, -⟩ | ⟨hparsing, -⟩ | ⟨-, -, hopen⟩ := (s.ws.receive bytes).parsePhase_cases
    · cases hidle.symm.trans hphase
    · cases hparsing.symm.trans hphase
    · rw [hclosed] at hopen
      obtain hconnect | hclosing := hopen
      · cases hconnect
      · cases hclosing
  | header callback =>
    obtain ⟨w, hw, rfl⟩ := Except.map_eq_ok.mp hstep
    exact h.same (sameFrames_header hw) (hparsing possible)
  | headersComplete request =>
    obtain ⟨w, hw, rfl⟩ := Except.map_eq_ok.mp hstep
    exact h.same (sameFrames_headersComplete hw) (hparsing possible)
  | parsed nparsed =>
    unfold Lifecycle.step at hstep
    dsimp only at hstep
    split at hstep
    · cases hstep
      exact inv_of_phase nofun
    · cases hstep
  | decode =>
    have hclosed := (h.decodeCall possible).2
    change afterCall s.ws.decodeCall = _ at hstep
    cases hc : s.ws.decodeCall with
    | returned w =>
      rw [hc] at hstep
      cases hstep
      exact inv_of_phase nofun
    | again w =>
      rw [hc] at hstep hclosed
      cases hstep
      exact fun _ => hclosed
    | aborted w =>
      rw [hc] at hstep
      cases hstep
  | call c =>
    obtain ⟨w, hw, rfl⟩ := Except.map_eq_ok.mp hstep
    refine h.same (sameFrames_call hw) fun _ hclosed => ?_
    obtain hsame | hclosing := orClosing_call hw
    · exact hsame.symm.trans hclosed
    · cases hclosing.symm.trans hclosed
  | onMessage callback | onPing callback | onPong callback =>
    cases hstep
    exact h.same ⟨rfl, rfl, rfl⟩ fun _ => id
  | handleClose =>
    cases hstep
    exact h.same ⟨rfl, rfl, rfl⟩ fun hphase _ => possible hphase

/-- **Status order.** -/
theorem status_forward_iff (ws : WebSocketConnection) {es : List LifeEvent}
    (legal : (system sha1 base64_encode).Legal (start ws) es) :
    (∀ p ∈ (system sha1 base64_encode).steps (start ws) es, p.1.Forward sha1 base64_encode p.2) ↔
      ∀ p ∈ (system sha1 base64_encode).steps (start ws) es, p.1.Due p.2 :=
  (system sha1 base64_encode).forall_steps_iff Inv Due (Forward sha1 base64_encode)
    (fun _ _ _ hinv possible _ hstep => hinv.step possible hstep)
    (fun _ _ hinv possible => hinv.forward_iff possible)
    (inv_of_phase (show Phase.idle ≠ .decoding from nofun)) legal

/-- A request that is refused, the notification of the close, and a message behind it. -/
theorem status_forward_iff_refused :
    let sha1 : Bytes → Fin 5 → ℕ := fun _ _ => 0
    let es : List LifeEvent := [.receive [71], .headersComplete ⟨0, 1, 1⟩, .parsed 1, .handleClose,
      .call (.sendMessage [1] true)]
    (system sha1 id).Legal (start .initial) es ∧
      ((∀ p ∈ (system sha1 id).steps (start .initial) es, p.1.Forward sha1 id p.2) ↔
        ∀ p ∈ (system sha1 id).steps (start .initial) es, p.1.Due p.2) := by
  intro sha1 es
  have legal : (system sha1 id).Legal (start .initial) es := by decide +kernel
  exact ⟨legal, status_forward_iff .initial legal⟩

/-- A close frame behind a message that was sent, and a call of `close` after it. -/
theorem not_status_forward_close :
    let sha1 : Bytes → Fin 5 → ℕ := fun _ _ => 0
    let es : List LifeEvent := [.call (.sendMessage [1] true), .receive [0x88, 0], .decode,
      .call (.close .NORMAL_CLOSE)]
    (system sha1 id).Legal (start (.connected none none none)) es ∧
      ¬ ∀ p ∈ (system sha1 id).steps (start (.connected none none none)) es,
        p.1.Forward sha1 id p.2 := by
  intro sha1 es
  have hrun : ((system sha1 id).run (start (.connected none none none))
      [.call (.sendMessage [1] true), .receive [0x88, 0], .decode]).Ends
        (fun s => s.ws.status_ = .CLOSED) fun _ => False := by decide +kernel
  refine ⟨by decide +kernel, fun hforward => ?_⟩
  obtain ⟨s, hs, hclosed⟩ := hrun.exists_ok
  have hlast := hforward (s, .call (.close .NORMAL_CLOSE)) ((system sha1 id).mem_steps_concat _ hs)
  exact (call_forward_iff s _).mp hlast rfl hclosed

end Lifecycle
end WsEngine
