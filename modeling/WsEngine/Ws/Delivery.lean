import WsEngine.Machine.Endpoint
import WsEngine.Tcp.Fifo
import WsEngine.Ws.Meaning

/-! # From what is read to what is written

Both connections over a whole run: reads, each of them parsed at once, and completions of writes, in any
order. As long as no close frame was sent, the bytes that went to libuv and the bytes that are still
queued are together the frames that the stream makes the connection send. They are handed over in any
way, by any of the overloads of `send`. The machine goes the same way, as long as its indices have room
for what is read and for what is sent. -/
set_option autoImplicit false

namespace WsEngine
open WebSocketConnection (Fresh Runs abs)

/-! ## The TCP connection before a close -/

namespace TcpConnection

/-- It is open, what was accepted is on its way in order, and while something is queued a write is in
flight. -/
structure Going (c : TcpConnection) : Prop where
  fifo : c.FifoInv
  state : c.state_ = .kConnected ∨ c.state_ = .kWritting
  last : c.isLastWrite = false
  busy : c.state_ = .kWritting → c.writes ≠ []

theorem Established.going {c : TcpConnection} (h : c.Established) : c.Going where
  fifo := h.fifoInv
  state := .inl h.state
  last := h.last
  busy := fun hs => by
    rw [h.state] at hs
    cases hs

theorem Going.drained {c : TcpConnection} (h : c.Going) (hw : c.writes = []) :
    c.outputBuf.readable = [] :=
  h.fifo.queue (h.state.resolve_right fun hs => h.busy hs hw)

theorem Going.delivered {c : TcpConnection} (h : c.Going) :
    c.submitted ++ c.outputBuf.readable = c.accepted := h.fifo.fifo

/-- `c'` goes on where `c` was, and has accepted `bytes`. -/
structure Takes (c c' : TcpConnection) (bytes : Bytes) : Prop where
  going : c'.Going
  accepted : c'.accepted = c.accepted ++ bytes
  reading : c'.reading = c.reading

theorem Going.send {c : TcpConnection} (h : c.Going) (bytes : Bytes) {uv : ℤ} (huv : 0 ≤ uv) :
    ∃ c', c.step (.send bytes uv) = .ok c' ∧ c.Takes c' bytes := by
  obtain hs | hs := h.state
  · have hstep := step_send_connected bytes uv hs
    refine ⟨_, hstep, ⟨send_fifoInv huv h.fifo hstep, .inr rfl, h.last, fun _ => ?_⟩, rfl, rfl⟩
    simp [accept, submit, huv]
  · have hstep := step_send_writting bytes uv hs
    exact ⟨_, hstep, ⟨send_fifoInv huv h.fifo hstep, .inr hs, h.last, h.busy⟩, rfl, rfl⟩

theorem Going.sendScatter {c : TcpConnection} (h : c.Going) (header : Buffer) (body : Bytes) {uv : ℤ}
    (huv : 0 ≤ uv) : ∃ c', c.step (.sendScatter header body uv) = .ok c' ∧
      c.Takes c' (header.readable ++ body) := by
  have hpossible : c.PossibleHealthy (.sendScatter header body uv) := ⟨trivial, huv⟩
  have hguard : c.KeepsOrder (.sendScatter header body uv) := by
    intro hs
    rw [h.fifo.queue (h.state.resolve_right hs), List.append_nil, List.nil_append]
  obtain hs | hs := h.state
  · have hstep := step_sendScatter (c := c) header body uv (by rw [hs]; decide)
    refine ⟨_, hstep, ⟨fifo_step h.fifo hpossible hguard hstep, .inl hs, h.last, fun hw => ?_⟩, rfl,
      rfl⟩
    cases hs.symm.trans hw
  · have hstep := step_sendScatter_writting (c := c) header body uv hs
    exact ⟨_, hstep, ⟨fifo_step h.fifo hpossible hguard hstep, .inr hs, h.last, h.busy⟩, rfl, rfl⟩

theorem Going.hand {c : TcpConnection} (h : c.Going) {bytes : Bytes} {e : TcpEvent}
    (he : e.Hands bytes) : ∃ c', c.step e = .ok c' ∧ c.Takes c' bytes := by
  cases e with
  | send sent uv =>
    obtain ⟨rfl, huv⟩ := he
    exact h.send sent huv
  | sendBuffer buf uv =>
    obtain ⟨rfl, -, huv⟩ := he
    rw [step_sendBuffer]
    exact h.send buf.readable huv
  | sendScatter header body uv =>
    obtain ⟨rfl, -, huv⟩ := he
    exact h.sendScatter header body huv
  | close | readData _ | readEnd _ | writeDone _ _ => exact he.elim

/-- All that is sent in a read. -/
theorem Going.perform {c : TcpConnection} (h : c.Going) {hand : ℕ → Bytes → TcpEvent}
    (hhand : ∀ n bytes, (hand n bytes).Hands bytes) {effects : List Effect}
    (hplain : Decoder.Plain effects) (n : ℕ) :
    ∃ c', c.perform hand n effects = .ok c' ∧ c.Takes c' (sends effects).flatten := by
  induction effects generalizing c n with
  | nil => exact ⟨c, rfl, h, (List.append_nil _).symm, rfl⟩
  | cons e effects ih =>
    have hrest : Decoder.Plain effects := fun e' he' => hplain e' (List.mem_cons_of_mem e he')
    have hhead := hplain e List.mem_cons_self
    cases e with
    | send bytes =>
      obtain ⟨d, hd, htakes⟩ := h.hand (hhand n bytes)
      obtain ⟨c', hc', htakes'⟩ := ih htakes.going hrest (n + 1)
      refine ⟨c', ?_, htakes'.going, ?_, htakes'.reading.trans htakes.reading⟩
      · unfold TcpConnection.perform
        rw [hd]
        exact hc'
      · rw [htakes'.accepted, htakes.accepted, List.append_assoc]
        rfl
    | message _ _ | ping _ | pong _ | frame => exact ih h hrest n
    | stopRead | closeTcp | protocolError =>
      obtain hseen | hframe := hhead
      · cases hseen
      · cases hframe

theorem Going.readData {c : TcpConnection} (h : c.Going) {bytes : Bytes} (hb : bytes ≠ []) :
    ∃ c', c.step (.readData bytes) = .ok c' ∧ c.Takes c' [] :=
  ⟨_, step_readData c hb, ⟨⟨h.fifo.fifo, h.fifo.queue⟩, h.state, h.last, h.busy⟩,
    (List.append_nil _).symm, rfl⟩

theorem Going.writeDone {c : TcpConnection} (h : c.Going) {status uv : ℤ} (hstatus : 0 ≤ status)
    (huv : 0 ≤ uv) : ∃ c', c.step (.writeDone status uv) = .ok c' ∧ c.Takes c' [] := by
  have hstep := step_writeDone_ok c uv hstatus
  have hfifo := writeDone_fifoInv hstatus huv h.fifo hstep
  have hstate : ¬ c.state_ = .kDisconnecting := by
    obtain hs | hs := h.state
    · rw [hs]
      decide
    · rw [hs]
      decide
  refine ⟨_, hstep, ?_⟩
  dsimp only at hfifo ⊢
  rw [if_neg (by rw [h.last]; decide)] at hfifo ⊢
  by_cases hq : c.outputBuf.readable = []
  · rw [if_pos hq, if_neg hstate] at hfifo ⊢
    exact ⟨⟨hfifo, .inl rfl, h.last, fun hs => by cases hs⟩, (List.append_nil _).symm, rfl⟩
  · rw [if_neg hq, if_neg hstate] at hfifo ⊢
    refine ⟨⟨hfifo, .inr rfl, h.last, fun _ => ?_⟩, (List.append_nil _).symm, rfl⟩
    simp [flushed, huv]

end TcpConnection

/-! ## Runs -/

namespace WebSocketConnection

variable (httpParserExecute : WebSocketConnection → Bytes → ℕ × WebSocketConnection)

theorem parse_grows {ws : WebSocketConnection} (h : ws.status_ ≠ .INITIAL) (bytes : Bytes) :
    ws.trace <+: ((ws.receive bytes).parse httpParserExecute).state.trace := by
  have hgrows := Decoder.grows_receive bytes ws.abs
  rw [← abs_receive, ← abs_parse httpParserExecute (ws.receive bytes) h, Call.state_map] at hgrows
  exact hgrows

theorem feed_grows {ws : WebSocketConnection} (h : ws.status_ ≠ .INITIAL) (chunks : List Bytes) :
    ws.trace <+: (ws.feed httpParserExecute chunks).state.trace := by
  have hgrows := Decoder.grows_feed chunks ws.abs
  rw [← abs_feed httpParserExecute h, Call.state_map] at hgrows
  exact hgrows

variable {httpParserExecute}

/-- Where reading comes back, each read was parsed to its end. -/
theorem feed_cons {ws w : WebSocketConnection} {bytes : Bytes} {chunks : List Bytes}
    (h : ws.feed httpParserExecute (bytes :: chunks) = .returned w) :
    ∃ x, (ws.receive bytes).parse httpParserExecute = .returned x ∧
      x.feed httpParserExecute chunks = .returned w := by
  unfold feed at h
  cases hx : (ws.receive bytes).parse httpParserExecute with
  | returned x =>
    rw [hx] at h
    exact ⟨x, rfl, h⟩
  | again x =>
    rw [hx] at h
    cases h
  | aborted x =>
    rw [hx] at h
    cases h

end WebSocketConnection

theorem sends_observed {trace : List Effect} (h : ¬ Closed trace) :
    sends (observed trace) = sends trace := by
  induction trace with
  | nil => rfl
  | cons e trace ih =>
    have hopen : ¬ Closed trace := fun ⟨e', he', hc⟩ => h ⟨e', List.mem_cons_of_mem e he', hc⟩
    have he : ¬ e.closes = true := fun hc => h ⟨e, List.mem_cons_self, hc⟩
    rw [observed, if_neg he]
    have htail := ih hopen
    unfold sends at htail ⊢
    cases e with
    | send _ | message _ _ | ping _ | pong _ | stopRead | closeTcp | frame | protocolError =>
      simp [Effect.isSeen, htail]

namespace Endpoint

variable {httpParserExecute : WebSocketConnection → Bytes → ℕ × WebSocketConnection}

/-- What the WebSocket connection sent is what the TCP connection accepted. -/
structure Sync (e : Endpoint) : Prop where
  past : e.ws.status_ ≠ .INITIAL
  going : e.tcp.Going
  accepted : e.tcp.accepted = (sends e.ws.trace).flatten

theorem Sync.read {e : Endpoint} (h : e.Sync) {bytes : Bytes} {hand : ℕ → Bytes → TcpEvent}
    (hp : e.Possible (.read bytes hand)) {x : WebSocketConnection}
    (hx : (e.ws.receive bytes).parse httpParserExecute = .returned x)
    (hplain : Decoder.Plain x.trace) :
    ∃ e', e.step httpParserExecute (.read bytes hand) = .ok e' ∧ e'.ws = x ∧ e'.Sync := by
  have hgrows := WebSocketConnection.parse_grows httpParserExecute h.past bytes
  have hpast := WebSocketConnection.parse_past httpParserExecute
    (e.ws.receive bytes) h.past
  rw [hx] at hgrows hpast
  obtain ⟨more, hmore : e.ws.trace ++ more = x.trace⟩ := hgrows
  have hdrop : x.trace.drop e.ws.trace.length = more := by rw [← hmore, List.drop_left]
  obtain ⟨c, hc, htakes⟩ := h.going.readData hp.1.2
  obtain ⟨c', hc', htakes'⟩ := htakes.going.perform hp.2
    (show Decoder.Plain more from fun e' he' => hplain e' (hmore ▸ List.mem_append_right _ he')) 0
  refine ⟨⟨x, c'⟩, ?_, rfl, hpast, htakes'.going, ?_⟩
  · simp only [step, parsed, hc, hx, hdrop, hc', Except.mapError, bind, Except.bind, pure,
      Except.pure]
  · change c'.accepted = (sends x.trace).flatten
    rw [htakes'.accepted, htakes.accepted, List.append_nil, h.accepted, ← hmore, sends_append,
      List.flatten_append]

theorem Sync.writeDone {e : Endpoint} (h : e.Sync)
    (httpParserExecute : WebSocketConnection → Bytes → ℕ × WebSocketConnection) {status uv : ℤ}
    (hp : e.Possible (.writeDone status uv)) :
    ∃ e', e.step httpParserExecute (.writeDone status uv) = .ok e' ∧ e'.ws = e.ws ∧ e'.Sync := by
  obtain ⟨c, hc, htakes⟩ := h.going.writeDone hp.2.1 hp.2.2
  refine ⟨⟨e.ws, c⟩, ?_, rfl, h.past, htakes.going, ?_⟩
  · simp only [step, hc, Except.mapError, bind, Except.bind, pure, Except.pure]
  · change c.accepted = (sends e.ws.trace).flatten
    rw [htakes.accepted, List.append_nil, h.accepted]

/-- The run goes through whenever the WebSocket connection alone gets through the reads, on the machine
too where there is room for them and for what is sent. -/
theorem Sync.run {e : Endpoint} (h : e.Sync) {m : Machine.Endpoint} (htracked : e.Tracked m)
    {machineExecute : Machine.WebSocketConnection → Bytes → ℕ × Machine.WebSocketConnection}
    {events : List EndpointEvent} (legal : (Machine.Endpoint.system machineExecute).Legal m events)
    {w : WebSocketConnection}
    (hw : e.ws.feed httpParserExecute (EndpointEvent.reads events) = .returned w)
    (hplain : Decoder.Plain w.trace)
    (hroom : e.HasRoom (EndpointEvent.reads events).flatten.length
      (sends (w.trace.drop e.ws.trace.length)).flatten.length) :
    ∃ (e' : Endpoint) (m' : Machine.Endpoint),
      (Machine.Endpoint.system machineExecute).run m events = .ok m' ∧ e'.Tracked m' ∧
        e'.ws = w ∧ e'.Sync := by
  induction events generalizing e m with
  | nil =>
    cases hw
    exact ⟨e, m, rfl, htracked, rfl, h⟩
  | cons event events ih =>
    have hp := (htracked.possible_iff event).mp legal.1
    cases event with
    | read bytes hand =>
      rw [EndpointEvent.reads_read] at hw hroom
      obtain ⟨x, hx, hrest⟩ := WebSocketConnection.feed_cons hw
      have hpast := WebSocketConnection.parse_past httpParserExecute (e.ws.receive bytes) h.past
      have hfirst := WebSocketConnection.parse_grows httpParserExecute h.past bytes
      rw [hx] at hpast hfirst
      have hgrows := WebSocketConnection.feed_grows httpParserExecute
        (show x.status_ ≠ .INITIAL from hpast) (EndpointEvent.reads events)
      rw [hrest] at hgrows
      -- what is sent behind this read, and then behind the others
      have hsent : (sends (w.trace.drop e.ws.trace.length)).flatten.length =
          (sends (x.trace.drop e.ws.trace.length)).flatten.length +
            (sends (w.trace.drop x.trace.length)).flatten.length := by
        obtain ⟨more, hmore : e.ws.trace ++ more = x.trace⟩ := hfirst
        obtain ⟨others, hothers : x.trace ++ others = w.trace⟩ := hgrows
        rw [← hothers, List.drop_left, ← hmore, List.append_assoc, List.drop_left, List.drop_left,
          sends_append, List.flatten_append, List.length_append]
      rw [List.flatten_cons, List.length_append, hsent] at hroom
      obtain ⟨e', he', rfl, hsync⟩ := h.read hp hx fun _ hmem => hplain _ (hgrows.subset hmem)
      obtain ⟨m', hm', htracked', hroom'⟩ :=
        (htracked.read httpParserExecute machineExecute h.past hp hx hroom).of_ok he'
      rw [EventSystem.run_cons_ok _ events
        (show (Machine.Endpoint.system machineExecute).step m (.read bytes hand) = _ from hm')]
      exact ih hsync htracked' (legal.2 m' hm') hrest hroom'
    | writeDone status uv =>
      rw [EndpointEvent.reads_writeDone] at hw hroom
      obtain ⟨e', he', hws, hsync⟩ := h.writeDone httpParserExecute hp
      obtain ⟨m', hm', htracked', hroom'⟩ :=
        (htracked.writeDone httpParserExecute machineExecute status uv hroom).of_ok he'
      rw [EventSystem.run_cons_ok _ events
        (show (Machine.Endpoint.system machineExecute).step m (.writeDone status uv) = _ from hm')]
      rw [← hws] at hw hroom'
      exact ih hsync htracked' (legal.2 m' hm') hw hroom'

variable {app : Application}

/-- **Delivery.** The two connections start after the handshake, with nothing received, queued or in
flight, and their indices have room for all that is read and for all that is sent. When the stream that
is read is one of frames that the connection takes and of the beginning of another, every run over it
goes through, however the reads and the completions of writes lie between each other. What went to libuv
and what is queued are together the frames that this stream calls for, in order, and nothing is queued
with no write in flight. -/
theorem run_delivers {e : Endpoint} (h : e.ws.Fresh) (hr : e.ws.Runs app) (ht : e.tcp.Established)
    (hsmall : e.Small) (happ : app.Modest)
    {httpParserExecute : Machine.WebSocketConnection → Bytes → ℕ × Machine.WebSocketConnection}
    {events : List EndpointEvent}
    (legal : (Machine.Endpoint.system httpParserExecute).Legal e.machine events)
    (hreads : EndpointEvent.reads events ≠ []) (hne : ∀ b ∈ EndpointEvent.reads events, b ≠ [])
    {es : List Effect} {held : Held} {rest : Bytes}
    (hm : Means ⟨[], none⟩ (e.ws.inputBuffer.readable ++ (EndpointEvent.reads events).flatten) es
      (some (held, rest)))
    (hroom : e.HasRoom (EndpointEvent.reads events).flatten.length
      (sends (app.replied (es.filter e.ws.abs.hears))).flatten.length) :
    ∃ e', (Machine.Endpoint.system httpParserExecute).run e.machine events = .ok e' ∧
      e'.tcp.submitted ++ e'.tcp.outputBuf.readable =
        (sends (app.replied (es.filter e.ws.abs.hears))).flatten ∧
      (e'.tcp.writes = [] → e'.tcp.outputBuf.readable = []) ∧ e'.ws.abs.Rests held rest := by
  obtain ⟨w, hw, hopen, hplain, hseen, hrests⟩ :=
    WebSocketConnection.feed_open h hr (fun ws _ => (0, ws)) hreads hne hm
  have hsends : sends w.trace = sends (app.replied (es.filter e.ws.abs.hears)) := by
    rw [← sends_observed hopen, hseen]
  have hsync : e.Sync := by
    refine ⟨h.past, ht.going, ?_⟩
    rw [ht.accepted, h.trace]
    rfl
  have hsent : (sends (w.trace.drop e.ws.trace.length)).flatten.length =
      (sends (app.replied (es.filter e.ws.abs.hears))).flatten.length := by
    rw [h.trace, ← hsends]
    rfl
  obtain ⟨e', m', hrun, htracked, rfl, hsync'⟩ := hsync.run (hsmall.tracked (hr.modest happ)) legal hw
    hplain (hsent ▸ hroom)
  refine ⟨m', hrun, ?_, ?_, ?_⟩
  · rw [htracked.tcp.readable, htracked.tcp.same, ← hsends, ← hsync'.accepted]
    exact hsync'.going.delivered
  · rw [htracked.tcp.readable, htracked.tcp.same]
    exact hsync'.going.drained
  · rw [htracked.ws.abs]
    exact hrests

/-- A masked text frame in two reads, a ping behind it while the echo of the text is written, and after
the completion the first byte of another frame. -/
theorem run_delivers_echo :
    let e : Endpoint := ⟨WebSocketConnection.connected (some Application.echo.callback)
      (some Application.echo.callback) (some Application.echo.callback), .fresh⟩
    let execute : Machine.WebSocketConnection → Bytes → ℕ × Machine.WebSocketConnection :=
      fun ws _ => (0, ws)
    let hand : ℕ → Bytes → TcpEvent := fun _ bytes => .send bytes 0
    let events : List EndpointEvent := [.read [0x81, 0x82, 0x01, 0x02, 0x03] hand,
      .read [0x04, 0x60, 0x60, 0x89, 0x00] hand, .writeDone 0 0, .read [0x81] hand]
    ∃ e', (Machine.Endpoint.system execute).run e.machine events = .ok e' ∧
      e'.tcp.submitted ++ e'.tcp.outputBuf.readable = [0x81, 0x02, 0x61, 0x62, 0x8a, 0x00] ∧
      (e'.tcp.writes = [] → e'.tcp.outputBuf.readable = []) ∧ e'.ws.abs.Rests ⟨[], none⟩ [0x81] := by
  intro e execute hand events
  let f : RawFrame :=
    ⟨⟨true, 0, 1, some [1, 2, 3, 4], .short, 2, by decide, by decide, by simp, by decide⟩,
      [0x61, 0x62], rfl⟩
  let g : RawFrame :=
    ⟨⟨true, 0, 9, none, .short, 0, by decide, by decide, by simp, by decide⟩, [], rfl⟩
  let next : RawFrame :=
    ⟨⟨true, 0, 1, none, .short, 0, by decide, by decide, by simp, by decide⟩, [], rfl⟩
  have hrest : Means ⟨[], none⟩ [0x81] [] (some (⟨[], none⟩, [0x81])) :=
    .waits ⟨next, rfl, [0x00], by decide, by decide⟩
  have hping : Means ⟨[], none⟩ (g.encode ++ [0x81]) ([.ping [], .send [0x8a, 0x00]] ++ [])
      (some (⟨[], none⟩, [0x81])) := .next rfl rfl hrest
  have hm : Means ⟨[], none⟩ (f.encode ++ (g.encode ++ [0x81]))
      ([.message [0x61, 0x62] false] ++ ([.ping [], .send [0x8a, 0x00]] ++ []))
      (some (⟨[], none⟩, [0x81])) := .next rfl rfl hping
  have hstream : e.ws.inputBuffer.readable ++ (EndpointEvent.reads events).flatten =
      f.encode ++ (g.encode ++ [0x81]) := by
    decide +kernel
  have hhand : ∀ n bytes, (hand n bytes).Hands bytes := fun _ _ => ⟨rfl, le_refl 0⟩
  have hlegal : ∀ e₁, (Machine.Endpoint.system execute).step e.machine
        (.read [0x81, 0x82, 0x01, 0x02, 0x03] hand) = .ok e₁ → e₁.tcp.reading = true ∧
      ∀ e₂, (Machine.Endpoint.system execute).step e₁
          (.read [0x04, 0x60, 0x60, 0x89, 0x00] hand) = .ok e₂ → e₂.tcp.writes ≠ [] ∧
        ∀ e₃, (Machine.Endpoint.system execute).step e₂ (.writeDone 0 0) = .ok e₃ →
          e₃.tcp.reading = true := by
    decide +kernel
  have legal : (Machine.Endpoint.system execute).Legal e.machine events := by
    refine ⟨⟨⟨rfl, by decide⟩, hhand⟩, fun e₁ h₁ => ?_⟩
    obtain ⟨hreading, hlegal⟩ := hlegal e₁ h₁
    refine ⟨⟨⟨hreading, by decide⟩, hhand⟩, fun e₂ h₂ => ?_⟩
    obtain ⟨hwrites, hlegal⟩ := hlegal e₂ h₂
    refine ⟨⟨hwrites, le_refl 0, le_refl 0⟩, fun e₃ h₃ => ?_⟩
    exact ⟨⟨⟨hlegal e₃ h₃, by decide⟩, hhand⟩, fun _ _ => trivial⟩
  have hsmall : e.Small :=
    ⟨WebSocketConnection.connected_small _ _ _, Buffer.small_ofSize (by decide)⟩
  obtain ⟨e', he', hbytes, hdrained, hrests⟩ := run_delivers
    (WebSocketConnection.connected_fresh _ _ _) (WebSocketConnection.connected_runs .echo)
    TcpConnection.fresh_established hsmall Application.echo_modest legal (by decide) (by decide)
    (hstream ▸ hm) ⟨WebSocketConnection.connected_hasRoom _ _ _ (by decide), by decide +kernel⟩
  refine ⟨e', he', hbytes.trans ?_, hdrained, hrests⟩
  decide +kernel

end Endpoint
end WsEngine
