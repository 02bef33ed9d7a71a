import WsEngine.Machine.Runs
import WsEngine.Ws.Output

/-! # An application that replies

Callbacks that send messages, pings and pongs, but close nothing. What such an application does to the
connection is to put its replies behind what it is told (`activate_replying`), up to the first close
frame: that leaves its bytes in `outputBuf_`, and what is sent behind it is something else. So the
replies do not depend on how the bytes are split into reads either. All this is so on the machine
while its indices have room for the bytes (`feed_replies`). -/
set_option autoImplicit false

namespace WsEngine

/-- What an application calls on the connection when it is told of something. -/
structure Application where
  onMessage : Bytes → Bool → List ApiCall
  onPing : Bytes → List ApiCall
  onPong : Bytes → List ApiCall
  message_open : ∀ payload isBinary, ∀ c ∈ onMessage payload isBinary, c.closes = false
  ping_open : ∀ payload, ∀ c ∈ onPing payload, c.closes = false
  pong_open : ∀ payload, ∀ c ∈ onPong payload, c.closes = false

namespace Application

def replies (app : Application) : Effect → List ApiCall
  | .message payload isBinary => app.onMessage payload isBinary
  | .ping payload => app.onPing payload
  | .pong payload => app.onPong payload
  | .send _ | .stopRead | .closeTcp | .frame | .protocolError => []

/-- No reply is too long for `outputBuf_`. -/
def Modest (app : Application) : Prop := ∀ e, ∀ c ∈ app.replies e, c.Modest

/-- Each of the three callbacks: it is called with what happened last. -/
def callback (app : Application) : Callback := fun trace => trace.getLast?.elim [] app.replies

/-- The trace with the replies behind what they reply to. -/
def replied (app : Application) (trace : List Effect) : List Effect :=
  trace.flatMap fun e => e :: (app.replies e).map fun c => .send c.frame

variable (app : Application)

theorem replies_open (e : Effect) : ∀ c ∈ app.replies e, c.closes = false := by
  cases e with
  | message payload isBinary => exact app.message_open payload isBinary
  | ping payload => exact app.ping_open payload
  | pong payload => exact app.pong_open payload
  | send bytes => simp [replies]
  | stopRead | closeTcp | frame | protocolError => simp [replies]

@[simp] theorem callback_concat (trace : List Effect) (e : Effect) :
    app.callback (trace ++ [e]) = app.replies e := by
  simp [callback]

@[simp] theorem replied_nil : app.replied [] = [] := rfl

theorem replied_cons (e : Effect) (trace : List Effect) :
    app.replied (e :: trace) =
      e :: ((app.replies e).map fun c => .send c.frame) ++ app.replied trace := rfl

theorem replied_append (trace more : List Effect) :
    app.replied (trace ++ more) = app.replied trace ++ app.replied more := List.flatMap_append

theorem replied_concat (trace : List Effect) (e : Effect) :
    app.replied (trace ++ [e]) =
      app.replied trace ++ [e] ++ (app.replies e).map fun c => .send c.frame := by
  simp [replied]

end Application

/-- The server of `main.cpp`: a message is sent back, and pings and pongs are not replied to. -/
def Application.echo : Application where
  onMessage payload isBinary := [.sendMove payload isBinary]
  onPing _ := []
  onPong _ := []
  message_open payload isBinary := by simp [ApiCall.closes]
  ping_open payload := by simp
  pong_open payload := by simp

theorem Application.echo_modest : Application.echo.Modest := by
  intro e c hc
  cases e with
  | message payload isBinary =>
    rw [List.mem_singleton.mp hc]
    trivial
  | ping | pong | send | stopRead | closeTcp | frame | protocolError => cases hc

theorem isClose_frame {c : ApiCall} (h : c.closes = false) : isClose c.frame = false := by
  cases c with
  | sendMove data isBinary => cases isBinary <;> rfl
  | sendMessage data isBinary => cases isBinary <;> rfl
  | ping message =>
    have hl : ¬ 126 ≤ message.length := of_decide_eq_false h
    rw [ApiCall.frame, if_neg hl]
    rfl
  | pong message =>
    have hl : ¬ 126 ≤ message.length := of_decide_eq_false h
    rw [ApiCall.frame, if_neg hl]
    rfl
  | close code => cases h

namespace Decoder

/-! ## Calls that do not close -/

theorem call_eq_emit {d : Decoder} (h : d.output = []) {c : ApiCall} (hc : c.closes = false) :
    d.call c = .ok (d.emit (.send c.frame)) := by
  have hcontrol (control : UInt8) (message : Bytes) : d.sendControl control message =
      d.emit (.send (control :: UInt8.ofNat message.length :: message)) := by
    obtain ⟨input, status, onMessage, onPing, onPong, output⟩ := d
    cases h
    rfl
  cases c with
  | sendMove data isBinary =>
    refine (if_pos h).trans ?_
    rw [ApiCall.frame, finalFrame_message]
  | sendMessage data isBinary =>
    refine (if_pos h).trans ?_
    rw [ApiCall.frame, finalFrame_message]
  | ping message =>
    have hl : ¬ 126 ≤ message.length := of_decide_eq_false hc
    rw [ApiCall.frame, if_neg hl, finalFrame_short (by omega)]
    exact congrArg Except.ok ((if_neg hl).trans (hcontrol 0x89 message))
  | pong message =>
    have hl : ¬ 126 ≤ message.length := of_decide_eq_false hc
    rw [ApiCall.frame, if_neg hl, finalFrame_short (by omega)]
    exact congrArg Except.ok ((if_neg hl).trans (hcontrol 0x8a message))
  | close code => cases hc

theorem calls_eq_emit {d : Decoder} (h : d.output = []) {cs : List ApiCall}
    (hc : ∀ c ∈ cs, c.closes = false) :
    d.calls cs = .ok { d with trace := d.trace ++ cs.map fun c => .send c.frame } := by
  induction cs generalizing d with
  | nil => simp [calls]
  | cons c cs ih =>
    have hrest := ih (d := d.emit (.send c.frame)) h fun c' hc' => hc c' (List.mem_cons_of_mem _ hc')
    rw [calls, call_eq_emit h (hc c List.mem_cons_self)]
    refine hrest.trans ?_
    simp [emit]

/-! ## The replies in one activation -/

/-- The application's callbacks in place of those that are set, and its replies in the trace. -/
def replying (app : Application) (d : Decoder) : Decoder :=
  { d with
    messageCallback := d.messageCallback.map fun _ => app.callback
    pingCallback := d.pingCallback.map fun _ => app.callback
    pongCallback := d.pongCallback.map fun _ => app.callback
    trace := app.replied d.trace }

section
variable (app : Application)

theorem emit_replying (d : Decoder) {e : Effect} (h : app.replies e = []) :
    (d.emit e).replying app = (d.replying app).emit e := by
  have htrace : app.replied (d.trace ++ [e]) = app.replied d.trace ++ [e] := by
    rw [app.replied_concat, h, List.map_nil, List.append_nil]
  simp [replying, emit, htrace]

theorem close_replying (d : Decoder) (code : StatusCode) :
    (d.close code).replying app = (d.replying app).close code := by
  unfold close
  dsimp only
  by_cases hcode : code ≠ .NORMAL_CLOSE
  · rw [if_pos hcode, if_pos hcode, emit_replying app _ rfl, emit_replying app _ rfl]
    rfl
  · rw [if_neg hcode, if_neg hcode, emit_replying app _ rfl]
    rfl

theorem protocolError_replying (d : Decoder) :
    d.protocolError.replying app = (d.replying app).protocolError := by
  unfold protocolError
  rw [close_replying, emit_replying app _ rfl]

theorem pong_replying (d : Decoder) (message : Bytes) :
    (d.pong message).replying app = (d.replying app).pong message := by
  unfold pong
  by_cases hl : 126 ≤ message.length
  · rw [if_pos hl, if_pos hl, protocolError_replying]
  · rw [if_neg hl, if_neg hl]
    unfold sendControl
    rw [emit_replying app _ rfl]
    rfl

variable {app} {d : Decoder}

/-- **One callback.** -/
theorem runCallback_replying (ho : d.output = []) {callback : Option Callback}
    (hl : Listens callback) (effect : Effect) :
    (d.runCallback callback effect).both (replying app) (replying app) =
      (d.replying app).runCallback (callback.map fun _ => app.callback) effect := by
  cases callback with
  | none => rfl
  | some answer =>
    have hsilent : answer (d.emit effect).trace = [] := hl answer rfl _
    have hreplies : app.callback ((d.replying app).emit effect).trace = app.replies effect :=
      app.callback_concat _ _
    have hout : ((d.replying app).emit effect).output = [] := ho
    simp only [runCallback, Option.map_some, hsilent, hreplies, calls,
      calls_eq_emit hout (app.replies_open effect)]
    simp [replying, emit, app.replied_concat]

theorem orAbort_replying (r : Except Decoder Decoder) :
    (orAbort r).both (Call.map (replying app)) (replying app) =
      orAbort (r.both (replying app) (replying app)) := by
  cases r <;> rfl

theorem fail_replying (d : Decoder) :
    (.error (.returned d.protocolError) : Except (Call Decoder) Decoder).both
      (Call.map (replying app)) (replying app) =
        .error (.returned (d.replying app).protocolError) := by
  rw [← protocolError_replying]
  rfl

theorem deliver_replying (hl : d.Listening) (ho : d.output = []) (isBinary : Bool) :
    (d.deliver isBinary).both (Call.map (replying app)) (replying app) =
      (d.replying app).deliver isBinary := by
  unfold deliver
  rw [orAbort_replying, runCallback_replying (d := { d with assembly := [] }) ho hl.message]
  rfl

theorem deliverFragments_replying (hl : d.Listening) (ho : d.output = []) :
    d.deliverFragments.both (Call.map (replying app)) (replying app) =
      (d.replying app).deliverFragments := by
  refine Except.both_ite ?_ (deliver_replying hl ho _) rfl
  simp [replying]

theorem onContinuation_replying (hl : d.Listening) (ho : d.output = []) (isFin : Bool) :
    (d.onContinuation isFin).both (Call.map (replying app)) (replying app) =
      (d.replying app).onContinuation isFin :=
  Except.both_ite Iff.rfl (fail_replying d) <|
    Except.both_ite Iff.rfl (Except.both_bind (deliverFragments_replying hl ho) fun _ _ => rfl) rfl

theorem onData_replying (hl : d.Listening) (ho : d.output = []) (isFin : Bool) (opcode : ℕ) :
    (d.onData isFin opcode).both (Call.map (replying app)) (replying app) =
      (d.replying app).onData isFin opcode :=
  Except.both_ite Iff.rfl (fail_replying d) <|
    Except.both_ite Iff.rfl (Except.both_bind (deliver_replying hl ho _) fun _ _ => rfl) rfl

theorem onClose_replying (d : Decoder) :
    d.onClose.both (Call.map (replying app)) (replying app) = (d.replying app).onClose := by
  refine Except.both_ite Iff.rfl ?_ rfl
  change Except.ok _ = Except.ok _
  rw [emit_replying app _ rfl, ← close_replying]
  rfl

theorem onPing_replying (hl : d.Listening) (ho : d.output = []) (isFin : Bool)
    (old payload : Bytes) :
    (d.onPing isFin old payload).both (Call.map (replying app)) (replying app) =
      (d.replying app).onPing isFin old payload := by
  refine Except.both_ite Iff.rfl (fail_replying d) (Except.both_bind (g := replying app) ?_ ?_)
  · rw [orAbort_replying, runCallback_replying ho hl.ping]
    rfl
  · intro x _
    rw [← pong_replying]
    rfl

theorem onPong_replying (hl : d.Listening) (ho : d.output = []) (isFin : Bool)
    (old payload : Bytes) :
    (d.onPong isFin old payload).both (Call.map (replying app)) (replying app) =
      (d.replying app).onPong isFin old payload := by
  refine Except.both_ite Iff.rfl (fail_replying d)
    (Except.both_bind (g := replying app) ?_ fun x _ => rfl)
  rw [orAbort_replying, runCallback_replying ho hl.pong]
  rfl

theorem onFrame_replying (hl : d.Listening) (ho : d.output = []) (h : Header)
    (old payload : Bytes) :
    (d.onFrame h old payload).both (Call.map (replying app)) (replying app) =
      (d.replying app).onFrame h old payload := by
  unfold onFrame
  split
  · exact onContinuation_replying hl ho _
  · exact onData_replying hl ho _ _
  · exact onData_replying hl ho _ _
  · exact onClose_replying d
  · exact onPing_replying hl ho _ _ _
  · exact onPong_replying hl ho _ _ _
  · exact fail_replying d

theorem body_replying (hl : d.Listening) (ho : d.output = []) (h : Header) :
    (d.body h).both (Call.map (replying app)) (replying app) = (d.replying app).body h := by
  refine Except.both_ite Iff.rfl rfl ?_
  have htake : (d.take h).replying app = (d.replying app).take h := emit_replying app _ rfl
  rw [onFrame_replying (d := d.take h) (hl.congr rfl rfl rfl) ho, htake]
  rfl

theorem readHeader_replying (d : Decoder) :
    d.readHeader.both (Call.map (replying app)) (fun p => (p.1, p.2.replying app)) =
      (d.replying app).readHeader := by
  cases hh : d.header with
  | some h =>
    have hh' : (d.replying app).header = some h := hh
    rw [readHeader_some hh, readHeader_some hh']
    rfl
  | none =>
    have hh' : (d.replying app).header = none := hh
    rw [readHeader_none hh, readHeader_none hh']
    unfold readFront
    cases hf : front d.input with
    | nothing =>
      have hf' : front (d.replying app).input = .nothing := hf
      rw [hf']
      rfl
    | reserved =>
      have hf' : front (d.replying app).input = .reserved := hf
      rw [hf']
      change Except.error _ = Except.error _
      rw [Call.map, protocolError_replying, emit_replying app _ rfl]
      rfl
    | short wanted =>
      have hf' : front (d.replying app).input = .short wanted := hf
      rw [hf']
      rfl
    | full h size code =>
      have hf' : front (d.replying app).input = .full h size code := hf
      rw [hf']
      rfl

/-- **One activation.** -/
theorem activate_replying (hl : d.Listening) (ho : d.output = []) :
    (d.replying app).activate = d.activate.map (replying app) := by
  have hread : d.read.both (Call.map (replying app)) (replying app) = (d.replying app).read := by
    refine Except.both_bind (readHeader_replying d) ?_
    rintro ⟨h, x⟩ hx
    obtain ⟨input, wanted, heq, -⟩ := readHeader_eq hx
    have hlisten : x.Listening := by
      rw [heq]
      exact hl.congr rfl rfl rfl
    have hout : x.output = [] := by
      rw [heq]
      exact ho
    exact body_replying hlisten hout h
  unfold activate
  rw [← hread]
  cases d.read with
  | error ended => rfl
  | ok x =>
    change (replying app x).recurse = x.recurse.map (replying app)
    unfold recurse
    by_cases hi : x.input = []
    · rw [if_pos hi, if_pos (show (x.replying app).input = [] from hi)]
      rfl
    · rw [if_neg hi, if_neg (show ¬ (x.replying app).input = [] from hi)]
      rfl

end

/-! ## Runs -/

theorem Calm.discreet {d : Decoder} (h : d.Calm) : d.Discreet := by
  refine ⟨fun _ => h.status, fun t ht => ⟨fun _ => h.status, fun _ _ => ?_⟩⟩
  have hsilent : t.answers = [] := by
    have hl : Listens (t.state.told t.header t.payload).1 :=
      listens_told (h.listening.ahead ht) t.header t.payload
    unfold Taken.answers answers
    cases hc : (t.state.told t.header t.payload).1 with
    | none => rfl
    | some answer => exact hl answer hc _
  rw [hsilent, decide_eq_true h.status]
  exact ⟨trivial, fun _ => by simp [ApiCall.after]⟩

/-- What a calm activation leaves calm is open as well. -/
theorem Calm.wire {d x : Decoder} (h : d.Calm) (hw : d.Wire true) (hx : d.activate.state = x)
    (hcalm : x.Calm) : x.Wire true := by
  obtain ⟨o, ho⟩ := wire_outcome hw h.discreet d.outcome
  rw [hx] at ho
  exact ho.open_of_connect hcalm.status

variable (app : Application)

/-- The replying application does what the silent one does, with its replies, up to a close frame. -/
def Mirrors (r r' : Call Decoder) : Prop :=
  (∃ t, Closed t ∧ t <+: r.state.trace ∧ app.replied t <+: r'.state.trace) ∨
    ∃ x : Decoder, x.Calm ∧ x.Wire true ∧ r = .returned x ∧ r' = .returned (x.replying app)

theorem mirrors_iterate {d : Decoder} (h : d.Calm) (hw : d.Wire true) (hi : d.input ≠ []) {n : ℕ}
    (hn : d.input.length < n) :
    Mirrors app (Call.iterate activate n d) (Call.iterate activate n (d.replying app)) := by
  induction n generalizing d with
  | zero => omega
  | succ n ih =>
    have hact : (d.replying app).activate = d.activate.map (replying app) :=
      activate_replying h.listening (hw.output.mpr rfl)
    obtain hclosed | ⟨x, hx, hcalm⟩ | ⟨x, hx, hcalm, hne, hlt⟩ := calm_activate h hi
    · refine .inl ⟨_, hclosed, grows_first (Nat.succ_pos n) d, ?_⟩
      have hgrows := grows_first (Nat.succ_pos n) (d.replying app)
      rw [hact, Call.state_map] at hgrows
      exact hgrows
    · rw [hx] at hact
      rw [Call.iterate_returned n hx, Call.iterate_returned n hact]
      exact .inr ⟨x, hcalm, h.wire hw (congrArg Call.state hx) hcalm, rfl, rfl⟩
    · rw [hx] at hact
      rw [Call.iterate_again n hx, Call.iterate_again n hact]
      exact ih hcalm (h.wire hw (congrArg Call.state hx) hcalm) hne (by omega)

theorem mirrors_parse {d : Decoder} (h : d.Calm) (hw : d.Wire true) (hi : d.input ≠ []) :
    Mirrors app d.parse (d.replying app).parse := by
  by_cases hwanted : d.input.length < d.wanted
  · have hshort : d.parse = .returned d := if_pos hwanted
    have hshort' : (d.replying app).parse = .returned (d.replying app) := if_pos hwanted
    rw [hshort, hshort']
    exact .inr ⟨d, h, hw, rfl, rfl⟩
  · have hstatus : (d.replying app).status = .CONNECT := h.status
    have hparse : (d.replying app).parse =
        Call.iterate activate (d.input.length + 2) (d.replying app) := by
      refine (if_neg hwanted).trans ?_
      rw [hstatus]
      rfl
    rw [parse_eq_iterate h (Nat.le_of_not_lt hwanted), hparse]
    exact mirrors_iterate app h hw hi (by omega)

theorem mirrors_feed {d : Decoder} (h : d.Calm) (hw : d.Wire true) {chunks : List Bytes}
    (hne : ∀ b ∈ chunks, b ≠ []) :
    Mirrors app (d.feed chunks) ((d.replying app).feed chunks) := by
  induction chunks generalizing d with
  | nil => exact .inr ⟨d, h, hw, rfl, rfl⟩
  | cons bytes chunks ih =>
    have hb : bytes ≠ [] := hne bytes List.mem_cons_self
    have hi : (d.receive bytes).input ≠ [] := fun hnil => hb (List.append_eq_nil_iff.mp hnil).2
    have hparse := mirrors_parse app (h.receive bytes) (hw.congr rfl rfl rfl) hi
    unfold feed
    change Mirrors app _ ((((d.receive bytes).replying app).parse).andThen _)
    obtain ⟨t, ht, hr, hr'⟩ | ⟨x, hx, hwx, hr, hr'⟩ := hparse
    · exact .inl ⟨t, ht, hr.trans (grows_andThen _ (grows_feed chunks)),
        hr'.trans (grows_andThen _ (grows_feed chunks))⟩
    · rw [hr, hr', Call.returned_andThen, Call.returned_andThen]
      exact ih hx hwx fun b hb' => hne b (List.mem_cons_of_mem _ hb')

end Decoder

/-! ## What is seen -/

namespace Application

variable (app : Application)

theorem observed_frames {cs : List ApiCall} (h : ∀ c ∈ cs, c.closes = false) (more : List Effect) :
    observed ((cs.map fun c => .send c.frame) ++ more) =
      (cs.map fun c => .send c.frame) ++ observed more := by
  induction cs with
  | nil => rfl
  | cons c cs ih =>
    have hc : (Effect.send c.frame).closes = false := isClose_frame (h c List.mem_cons_self)
    have hseen : (Effect.send c.frame).isSeen = true := rfl
    simp [observed, hc, hseen, ih fun c' hc' => h c' (List.mem_cons_of_mem _ hc')]

theorem observed_replied (trace : List Effect) :
    observed (app.replied trace) = app.replied (observed trace) := by
  induction trace with
  | nil => rfl
  | cons e trace ih =>
    have hrest := observed_frames (app.replies_open e) (app.replied trace)
    rw [replied_cons, List.cons_append, observed, observed, hrest, ih]
    by_cases hc : e.closes = true
    · have hnone : app.replies e = [] := by
        cases e with
        | send bytes => rfl
        | message _ _ | ping _ | pong _ | stopRead | closeTcp | frame | protocolError => cases hc
      simp [hc, replied_cons, hnone]
    · by_cases hs : e.isSeen = true
      · simp [hc, hs, replied_cons]
      · have hnone : app.replies e = [] := by
          cases e with
          | message _ _ | ping _ | pong _ | send _ => exact absurd rfl hs
          | stopRead | closeTcp | frame | protocolError => rfl
        simp [hc, hs, hnone]

theorem closed_replied (trace : List Effect) : Closed (app.replied trace) ↔ Closed trace := by
  constructor
  · rintro ⟨e, he, hc⟩
    obtain ⟨e', he', hmem⟩ := List.mem_flatMap.mp he
    rcases List.mem_cons.mp hmem with rfl | hmem
    · exact ⟨e, he', hc⟩
    · obtain ⟨c, hmem', rfl⟩ := List.mem_map.mp hmem
      rw [Effect.closes, isClose_frame (app.replies_open e' c hmem')] at hc
      cases hc
  · rintro ⟨e, he, hc⟩
    exact ⟨e, List.mem_flatMap.mpr ⟨e, he, List.mem_cons_self⟩, hc⟩

end Application

namespace Decoder

variable {app : Application} {r r' : Call Decoder}

theorem Mirrors.observed (h : Mirrors app r r') :
    observed r'.state.trace = app.replied (observed r.state.trace) := by
  obtain ⟨t, ht, hr, hr'⟩ | ⟨x, -, -, rfl, rfl⟩ := h
  · rw [observed_of_closed ((app.closed_replied t).mpr ht) hr', observed_of_closed ht hr,
      app.observed_replied]
  · exact app.observed_replied _

/-- Where no close frame was sent, both returned. -/
theorem Mirrors.open (h : Mirrors app r r') (hopen : ¬ Closed r'.state.trace) :
    ∃ x : Decoder, x.Wire true ∧ r = .returned x ∧ r' = .returned (x.replying app) := by
  obtain ⟨t, ht, -, hr'⟩ | ⟨x, -, hw, hr, hr'⟩ := h
  · exact absurd (((app.closed_replied t).mpr ht).mono hr') hopen
  · exact ⟨x, hw, hr, hr'⟩

end Decoder

namespace WebSocketConnection

/-- The callbacks that are set are the application's. -/
structure Runs (ws : WebSocketConnection) (app : Application) : Prop where
  message : ∀ callback ∈ ws.wsMessageCallback_, callback = app.callback
  ping : ∀ callback ∈ ws.pingCallback_, callback = app.callback
  pong : ∀ callback ∈ ws.pongCallback_, callback = app.callback

/-- The same connection, with callbacks that make no calls. -/
def silent (ws : WebSocketConnection) : WebSocketConnection :=
  { ws with
    wsMessageCallback_ := ws.wsMessageCallback_.map fun _ _ => []
    pingCallback_ := ws.pingCallback_.map fun _ _ => []
    pongCallback_ := ws.pongCallback_.map fun _ _ => [] }

theorem silent_listening (ws : WebSocketConnection) : ws.silent.Listening := by
  have hlistens (callback : Option Callback) : Listens (callback.map fun _ _ => []) := by
    rintro answer ha trace
    obtain ⟨_, -, rfl⟩ := Option.map_eq_some_iff.mp ha
    rfl
  exact ⟨hlistens _, hlistens _, hlistens _⟩

theorem Fresh.silent {ws : WebSocketConnection} (h : ws.Fresh) : ws.silent.Fresh :=
  ⟨h.status, h.output, h.decode, h.fragmented, h.header, h.wanted, h.trace⟩

theorem Fresh.past {ws : WebSocketConnection} (h : ws.Fresh) : ws.status_ ≠ .INITIAL := by
  rw [h.status]
  decide

variable {app : Application}

theorem Runs.modest {ws : WebSocketConnection} (h : ws.Runs app) (happ : app.Modest) :
    ws.Modest := by
  have hcallback {callback : Option Callback} (hc : ∀ c ∈ callback, c = app.callback) :
      Callback.Modest callback := by
    intro answer ha trace c hcall
    rw [hc answer ha] at hcall
    unfold Application.callback at hcall
    cases hlast : trace.getLast? with
    | none =>
      rw [hlast] at hcall
      cases hcall
    | some e =>
      rw [hlast] at hcall
      exact happ e c hcall
  exact ⟨hcallback h.message, hcallback h.ping, hcallback h.pong⟩

theorem Runs.abs {ws : WebSocketConnection} (h : ws.Runs app) (ht : app.replied ws.trace = ws.trace) :
    ws.abs = ws.silent.abs.replying app := by
  have hcallback {callback : Option Callback} (hc : ∀ c ∈ callback, c = app.callback) :
      callback = (callback.map fun _ _ => []).map fun (_ : Callback) => app.callback := by
    cases callback with
    | none => rfl
    | some c => rw [hc c rfl]; rfl
  have htrace : ws.trace = app.replied ws.trace := ht.symm
  unfold Decoder.replying
  change Decoder.mk .. = Decoder.mk ..
  congr 1
  · exact hcallback h.message
  · exact hcallback h.ping
  · exact hcallback h.pong

/-- The reads of a connection and of the silent one. -/
theorem Fresh.mirrors {ws : WebSocketConnection} (h : ws.Fresh) (hr : ws.Runs app)
    (httpParserExecute : WebSocketConnection → Bytes → ℕ × WebSocketConnection)
    {chunks : List Bytes} (hne : ∀ b ∈ chunks, b ≠ []) :
    Decoder.Mirrors app ((ws.silent.feed httpParserExecute chunks).map abs)
      ((ws.feed httpParserExecute chunks).map abs) := by
  have htrace : app.replied ws.trace = ws.trace := by
    rw [h.trace]
    rfl
  have hsilent : (ws.silent.feed httpParserExecute chunks).map abs = ws.silent.abs.feed chunks :=
    abs_feed httpParserExecute h.silent.past chunks
  rw [abs_feed httpParserExecute h.past, hsilent, hr.abs htrace]
  exact Decoder.mirrors_feed app (h.silent.calm ws.silent_listening) h.silent.wire hne

/-- Replies over naturals. -/
theorem Fresh.feed_mirrored {ws : WebSocketConnection} (h : ws.Fresh) (hr : ws.Runs app)
    (httpParserExecute : WebSocketConnection → Bytes → ℕ × WebSocketConnection)
    {chunks chunks' : List Bytes} (hne : ∀ b ∈ chunks, b ≠ []) (hne' : ∀ b ∈ chunks', b ≠ [])
    (hsame : chunks.flatten = chunks'.flatten) :
    observed (ws.feed httpParserExecute chunks).state.trace =
        app.replied (observed (ws.silent.feed httpParserExecute chunks).state.trace) ∧
      observed (ws.feed httpParserExecute chunks).state.trace =
        observed (ws.feed httpParserExecute chunks').state.trace ∧
      (¬ Closed (ws.feed httpParserExecute chunks).state.trace →
        ∃ w w', ws.feed httpParserExecute chunks = .returned w ∧
          ws.feed httpParserExecute chunks' = .returned w' ∧ w.SameState w') := by
  have hagree := Decoder.agree_chunks (h.silent.calm ws.silent_listening) hne hne' hsame
  rw [← abs_feed httpParserExecute h.silent.past, ← abs_feed httpParserExecute h.silent.past] at hagree
  have hmirrors := h.mirrors hr httpParserExecute hne
  have hmirrors' := h.mirrors hr httpParserExecute hne'
  have hseen := hmirrors.observed
  have hseen' := hmirrors'.observed
  have hopen := hmirrors.open
  have hopen' := hmirrors'.open
  rw [Call.state_map, Call.state_map] at hseen hseen'
  rw [Call.state_map] at hopen hopen'
  refine ⟨hseen, ?_, ?_⟩
  · refine hseen.trans (Eq.trans ?_ hseen'.symm)
    obtain ⟨t, ht, hr, hr'⟩ | ⟨x, -, hr, hr'⟩ := hagree
    · rw [Call.state_map] at hr hr'
      rw [observed_of_closed ht hr, observed_of_closed ht hr']
    · rw [← Call.state_map abs, ← Call.state_map abs, hr, hr']
  · intro hclosed
    obtain ⟨x, hw, hx, hx'⟩ := hopen hclosed
    rw [hx] at hagree
    obtain ⟨t, ht, hpre, -⟩ | ⟨y, -, hy, hy'⟩ := hagree
    · exact absurd (ht.mono hpre) (Decoder.not_closed_of_wire hw)
    · cases hy
      obtain ⟨t, ht, hpre, -⟩ | ⟨z, -, -, hz, hz'⟩ := hmirrors'
      · rw [hy'] at hpre
        exact absurd (ht.mono hpre) (Decoder.not_closed_of_wire hw)
      · rw [hy'] at hz
        cases hz
        obtain ⟨w, hw, hwx⟩ := Call.map_eq_returned hx'
        obtain ⟨w', hw', hwx'⟩ := Call.map_eq_returned hz'
        exact ⟨w, w', hw, hw', sameState_of_abs (hwx.trans hwx'.symm)⟩

theorem Small.silent {ws : WebSocketConnection} {output : ℕ} (h : ws.Small output) :
    ws.silent.Small output := ⟨h.input, h.decode, h.output⟩

theorem HasRoom.silent {ws : WebSocketConnection} {n : ℕ} (h : ws.HasRoom n) :
    ws.silent.HasRoom n := ⟨h.input, h.decode⟩

/-- **Replies.** Over bytes that the indices have room for: up to the first close frame, an application
that replies sees what a silent one sees and its replies stand behind it. So what is seen depends on the
bytes alone, and so does the state if no close frame is sent. -/
theorem feed_replies {ws : WebSocketConnection} (h : ws.Fresh) (hr : ws.Runs app)
    (hsmall : ws.Small 4) (happ : app.Modest)
    (httpParserExecute : Machine.WebSocketConnection → Bytes → ℕ × Machine.WebSocketConnection)
    {chunks chunks' : List Bytes} (hroom : ws.HasRoom chunks.flatten.length)
    (hne : ∀ b ∈ chunks, b ≠ []) (hne' : ∀ b ∈ chunks', b ≠ [])
    (hsame : chunks.flatten = chunks'.flatten) :
    observed (ws.machine.feed httpParserExecute chunks).state.trace =
        app.replied (observed (ws.silent.machine.feed httpParserExecute chunks).state.trace) ∧
      observed (ws.machine.feed httpParserExecute chunks).state.trace =
        observed (ws.machine.feed httpParserExecute chunks').state.trace ∧
      (¬ Closed (ws.machine.feed httpParserExecute chunks).state.trace →
        ∃ w w' : WebSocketConnection,
          ws.machine.feed httpParserExecute chunks = .returned w.machine ∧
          ws.machine.feed httpParserExecute chunks' = .returned w'.machine ∧ w.SameState w') := by
  have hmodest := hr.modest happ
  have hroom' : ws.HasRoom chunks'.flatten.length := hsame ▸ hroom
  have htrace := hsmall.feed_trace (fun ws _ => (0, ws)) httpParserExecute hmodest h.past hroom.roomFor
  have htrace' :=
    hsmall.feed_trace (fun ws _ => (0, ws)) httpParserExecute hmodest h.past hroom'.roomFor
  have hsilent := hsmall.silent.feed_trace (fun ws _ => (0, ws)) httpParserExecute
    ws.silent_listening.modest h.silent.past hroom.silent.roomFor
  obtain ⟨hseen, hagree, hopen⟩ := h.feed_mirrored hr (fun ws _ => (0, ws)) hne hne' hsame
  rw [htrace, htrace', hsilent]
  refine ⟨hseen, hagree, fun hclosed => ?_⟩
  obtain ⟨w, w', hw, hw', hstate⟩ := hopen hclosed
  exact ⟨w, w', hsmall.feed_returned _ httpParserExecute hmodest h.past hroom.roomFor hw,
    hsmall.feed_returned _ httpParserExecute hmodest h.past hroom'.roomFor hw', hstate⟩

theorem connected_runs (app : Application) :
    (connected (some app.callback) (some app.callback) (some app.callback)).Runs app := by
  constructor <;> rintro callback ⟨⟩ <;> rfl

/-- A masked text frame that is sent back, in one read and in three. -/
theorem feed_replies_echo :
    let ws := connected (some Application.echo.callback) (some Application.echo.callback)
      (some Application.echo.callback)
    let execute : Machine.WebSocketConnection → Bytes → ℕ × Machine.WebSocketConnection :=
      fun ws _ => (0, ws)
    let one : List Bytes := [[0x81, 0x82, 0x01, 0x02, 0x03, 0x04, 0x60, 0x60]]
    let three : List Bytes := [[0x81], [0x82, 0x01, 0x02, 0x03, 0x04, 0x60], [0x60]]
    observed (ws.machine.feed execute three).state.trace =
        [.message [0x61, 0x62] false, .send [0x81, 0x02, 0x61, 0x62]] ∧
      ∃ w w' : WebSocketConnection, ws.machine.feed execute one = .returned w.machine ∧
        ws.machine.feed execute three = .returned w'.machine ∧ w.SameState w' := by
  intro ws execute one three
  have hroom : ws.HasRoom one.flatten.length := connected_hasRoom _ _ _ (by decide)
  obtain ⟨-, hsame, hopen⟩ := feed_replies (connected_fresh _ _ _) (connected_runs .echo)
    (connected_small _ _ _) Application.echo_modest execute hroom
    (show ∀ b ∈ one, b ≠ [] by decide) (show ∀ b ∈ three, b ≠ [] by decide) rfl
  refine ⟨hsame.symm.trans ?_, hopen ?_⟩
  · decide +kernel
  · decide +kernel

end WebSocketConnection
end WsEngine
