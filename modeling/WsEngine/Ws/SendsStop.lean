import WsEngine.Ws.Session

/-! # Sending stops at the close frame

A close frame should be the last thing handed to `conn_->send`. A connection in CONNECT has sent none
and its `outputBuf_` is empty; once it has sent one, four bytes are left in `outputBuf_`, which makes
`sendMessage` fail its assertion and everything else send them again. So the property is kept as
long as nothing but `sendMessage` is called after a close frame, neither by the application nor by
`decode`. -/
set_option autoImplicit false

namespace WsEngine

def sends (trace : List Effect) : List Bytes :=
  trace.filterMap fun
    | .send bytes => some bytes
    | _ => none

/-- No close frame but the last thing that was handed over. -/
def StopsAtClose (handed : List Bytes) : Prop := ∀ b ∈ handed.dropLast, isClose b = false

instance (handed : List Bytes) : Decidable (StopsAtClose handed) :=
  inferInstanceAs (Decidable (∀ b ∈ handed.dropLast, _ = _))

theorem sends_append (trace more : List Effect) :
    sends (trace ++ more) = sends trace ++ sends more := List.filterMap_append

theorem stopsAtClose_of_open {handed : List Bytes} (h : ∀ b ∈ handed, isClose b = false) :
    StopsAtClose handed := fun b hb => h b ((List.dropLast_sublist _).subset hb)

theorem stopsAtClose_concat {handed : List Bytes} (b : Bytes) (h : ∀ b ∈ handed, isClose b = false) :
    StopsAtClose (handed ++ [b]) := by
  unfold StopsAtClose
  rwa [List.dropLast_concat]

namespace ApiCall

def closes : ApiCall → Bool
  | close _ => true
  | ping message | pong message => 126 ≤ message.length
  | sendMove _ _ | sendMessage _ _ => false

def checks : ApiCall → Bool
  | sendMove _ _ | sendMessage _ _ => true
  | ping _ | pong _ | close _ => false

/-- Whether no close frame was sent, after calls that a callback makes; `none` where an assertion
failed. -/
def after : Bool → List ApiCall → Option Bool
  | o, [] => some o
  | true, c :: cs => after (!c.closes) cs
  | false, c :: cs => if c.checks then none else after false cs

/-- The call that follows one that sends a close frame is a `sendMessage`. -/
def Polite : Bool → List ApiCall → Prop
  | _, [] => True
  | true, c :: cs => Polite (!c.closes) cs
  | false, c :: _ => c.checks = true

instance decidablePolite : (o : Bool) → (cs : List ApiCall) → Decidable (Polite o cs)
  | _, [] => isTrue trivial
  | true, c :: cs => decidablePolite (!c.closes) cs
  | false, c :: _ => inferInstanceAs (Decidable (c.checks = true))

end ApiCall

namespace Decoder

/-- With `o`, no close frame was sent; without it, one was, and it was the last thing sent. -/
structure Wire (d : Decoder) (o : Bool) : Prop where
  status : d.status = .CONNECT ↔ o = true
  output : d.output = [] ↔ o = true
  handed : if o then ∀ b ∈ sends d.trace, isClose b = false else StopsAtClose (sends d.trace)

theorem Wire.stops {d : Decoder} {o : Bool} (h : d.Wire o) : StopsAtClose (sends d.trace) := by
  have hh := h.handed
  cases o with
  | true => exact stopsAtClose_of_open hh
  | false => exact hh

theorem Wire.emit {d : Decoder} {o : Bool} (h : d.Wire o) (effect : Effect)
    (hne : ∀ bytes, effect ≠ .send bytes) : (d.emit effect).Wire o := by
  have hs : sends (d.emit effect).trace = sends d.trace := by
    change sends (d.trace ++ [effect]) = _
    rw [sends_append]
    cases effect with
    | send bytes => exact absurd rfl (hne bytes)
    | message _ _ | ping _ | pong _ | stopRead | closeTcp | frame | protocolError =>
      exact List.append_nil _
  refine ⟨h.status, h.output, ?_⟩
  rw [hs]
  exact h.handed

theorem Wire.close {d : Decoder} (h : d.Wire true) (code : StatusCode) : (d.close code).Wire false := by
  have hs : sends (d.close code).trace = sends d.trace ++ [closeFrame code] := by
    unfold Decoder.close
    by_cases hc : code ≠ .NORMAL_CLOSE
    · simp only [if_pos hc]
      change sends (d.trace ++ [.stopRead] ++ [.send (closeFrame code)]) = _
      rw [sends_append, sends_append, List.append_assoc]
      rfl
    · simp only [if_neg hc]
      change sends (d.trace ++ [.send (closeFrame code)]) = _
      rw [sends_append]
      rfl
  have hstate : (d.close code).status = .CLOSING ∧ (d.close code).output = closeFrame code := by
    unfold Decoder.close
    by_cases hc : code ≠ .NORMAL_CLOSE
    · simp only [if_pos hc]
      exact ⟨rfl, rfl⟩
    · simp only [if_neg hc]
      exact ⟨rfl, rfl⟩
  constructor
  · simp [hstate.1]
  · simp [hstate.2, closeFrame]
  · rw [hs]
    exact stopsAtClose_concat _ h.handed

theorem Wire.protocolError {d : Decoder} (h : d.Wire true) : d.protocolError.Wire false :=
  (h.emit .protocolError fun _ => nofun).close _

theorem Wire.sendControl {d : Decoder} (h : d.Wire true) {control : UInt8} (message : Bytes)
    (hc : control ≠ 0x88) : (d.sendControl control message).Wire true := by
  have hout : d.output = [] := h.output.mpr rfl
  have hs : sends (d.sendControl control message).trace =
      sends d.trace ++ [control :: UInt8.ofNat message.length :: message] := by
    unfold Decoder.sendControl
    change sends (d.trace ++ [_]) = _
    rw [sends_append, hout]
    rfl
  refine ⟨h.status, by simp [Decoder.sendControl, Decoder.emit], ?_⟩
  rw [hs]
  intro b hb
  rcases List.mem_append.mp hb with hb | hb
  · exact h.handed b hb
  · rw [List.mem_singleton.mp hb]
    simp [isClose, hc]

theorem Wire.sendMessage {d : Decoder} (h : d.Wire true) (data : Bytes) (isBinary : Bool) :
    ∃ x, d.sendMessage data isBinary = .ok x ∧ x.Wire true := by
  have hout : d.output = [] := h.output.mpr rfl
  refine ⟨_, if_pos hout, h.status, h.output, ?_⟩
  change ∀ b ∈ sends (d.trace ++ [_]), isClose b = false
  rw [sends_append]
  intro b hb
  rcases List.mem_append.mp hb with hb | hb
  · exact h.handed b hb
  · rw [List.mem_singleton.mp hb]
    have hhead := head_messageHeader data.length isBinary data
    unfold isClose
    rw [hhead]
    cases isBinary <;> rfl

theorem Wire.ping {d : Decoder} (h : d.Wire true) (message : Bytes) :
    (d.ping message).Wire (!(126 ≤ message.length : Bool)) := by
  unfold Decoder.ping
  by_cases hl : 126 ≤ message.length
  · rw [if_pos hl, decide_eq_true hl]
    exact h.close _
  · rw [if_neg hl, decide_eq_false hl]
    exact h.sendControl _ (by decide)

theorem Wire.pong {d : Decoder} (h : d.Wire true) (message : Bytes) :
    (d.pong message).Wire (!(126 ≤ message.length : Bool)) := by
  unfold Decoder.pong
  by_cases hl : 126 ≤ message.length
  · rw [if_pos hl, decide_eq_true hl]
    exact h.protocolError
  · rw [if_neg hl, decide_eq_false hl]
    exact h.sendControl _ (by decide)

theorem Wire.call {d : Decoder} (h : d.Wire true) (c : ApiCall) :
    ∃ x, d.call c = .ok x ∧ x.Wire (!c.closes) := by
  cases c with
  | sendMove data isBinary => exact h.sendMessage data isBinary
  | sendMessage data isBinary => exact h.sendMessage data isBinary
  | ping message => exact ⟨_, rfl, h.ping message⟩
  | pong message => exact ⟨_, rfl, h.pong message⟩
  | close code => exact ⟨_, rfl, h.close code⟩

theorem Wire.call_checks {d : Decoder} (h : d.Wire false) {c : ApiCall} (hc : c.checks = true) :
    d.call c = .error d := by
  have hout : d.output ≠ [] := fun ho => Bool.false_ne_true (h.output.mp ho)
  cases c with
  | sendMove data isBinary => exact if_neg hout
  | sendMessage data isBinary => exact if_neg hout
  | ping message => cases hc
  | pong message => cases hc
  | close code => cases hc

def WireAfter (r : Except Decoder Decoder) (o : Option Bool) : Prop :=
  match r with
  | .ok x => ∃ o', o = some o' ∧ x.Wire o'
  | .error x => o = none ∧ x.Wire false

theorem Wire.calls {d : Decoder} {o : Bool} (h : d.Wire o) {cs : List ApiCall}
    (hp : ApiCall.Polite o cs) : WireAfter (d.calls cs) (ApiCall.after o cs) := by
  induction cs generalizing d o with
  | nil => exact ⟨o, by cases o <;> rfl, h⟩
  | cons c cs ih =>
    cases o with
    | true =>
      obtain ⟨x, hx, hw⟩ := h.call c
      rw [Decoder.calls, hx]
      exact ih hw hp
    | false =>
      have hc : c.checks = true := hp
      rw [Decoder.calls, h.call_checks hc]
      exact ⟨if_pos hc, h⟩

theorem Wire.runCallback {d : Decoder} {o : Bool} (h : d.Wire o) (callback : Option Callback)
    {effect : Effect} (hne : ∀ bytes, effect ≠ .send bytes)
    (hp : ApiCall.Polite o (d.answers callback effect)) :
    WireAfter (d.runCallback callback effect) (ApiCall.after o (d.answers callback effect)) := by
  cases callback with
  | none => exact ⟨o, by cases o <;> rfl, h⟩
  | some answer => exact (h.emit effect hne).calls hp

/-! ## Activations -/

/-- The next activation sends nothing after a close frame. -/
def Discreet (d : Decoder) : Prop :=
  (d.Reserved → d.status = .CONNECT) ∧
  ∀ t ∈ d.ahead,
    (t.state.Erroneous t.header → d.status = .CONNECT) ∧
    (¬ t.state.Erroneous t.header → t.header.opcode ≠ 8 →
      ApiCall.Polite (d.status = .CONNECT) t.answers ∧
      (t.header.opcode = 9 → ApiCall.after (d.status = .CONNECT) t.answers ≠ some false))

instance (d : Decoder) : Decidable d.Discreet :=
  inferInstanceAs (Decidable (_ ∧ ∀ t ∈ d.ahead, _))

theorem told_ne_send (d : Decoder) (h : Header) (payload bytes : Bytes) :
    (d.told h payload).2 ≠ .send bytes := by
  unfold told
  split <;> exact nofun

theorem Wire.congr {d d' : Decoder} {o : Bool} (h : d.Wire o) (hs : d'.status = d.status)
    (ho : d'.output = d.output) (ht : d'.trace = d.trace) : d'.Wire o := by
  constructor
  · rw [hs]
    exact h.status
  · rw [ho]
    exact h.output
  · rw [ht]
    exact h.handed

theorem Wire.ahead {d : Decoder} {o : Bool} (h : d.Wire o) {t : Taken} (ha : d.ahead = some t) :
    t.state.Wire o := by
  obtain ⟨input, wanted, ht, -⟩ := ahead_eq ha
  rw [ht]
  exact (h.emit .frame fun _ => nofun).congr rfl rfl rfl

theorem Wire.finish {x : Decoder} {o : Bool} (h : x.Wire o) (header : Header) (old payload : Bytes)
    (hping : header.opcode = 9 → o = true) : ∃ o', (x.finish header old payload).Wire o' := by
  unfold Decoder.finish
  split
  · next hop =>
    cases hping hop
    exact ⟨_, (h.pong payload).congr rfl rfl rfl⟩
  · exact ⟨o, h.congr rfl rfl rfl⟩
  · exact ⟨o, h.congr rfl rfl rfl⟩

theorem Wire.connect_eq {d : Decoder} {o : Bool} (h : d.Wire o) :
    decide (d.status = .CONNECT) = o := by
  cases o with
  | true => exact decide_eq_true (h.status.mpr rfl)
  | false => exact decide_eq_false fun hs => Bool.false_ne_true (h.status.mp hs)

theorem Wire.open_of_connect {d : Decoder} {o : Bool} (h : d.Wire o) (hs : d.status = .CONNECT) :
    d.Wire true := by
  have ho : o = true := h.status.mp hs
  rwa [ho] at h

/-- **One activation** of a discreet state. -/
theorem wire_outcome {d : Decoder} {o : Bool} (h : d.Wire o) (hd : d.Discreet) {r : Call Decoder}
    (ho : d.Outcome r) : ∃ o', r.state.Wire o' := by
  have hconnect := h.connect_eq
  have htold (t : Taken) (ha : d.ahead = some t) (he : ¬ t.state.Erroneous t.header)
      (hop : t.header.opcode ≠ 8) :
      WireAfter ((t.state.handOver t.header).runCallback (t.state.told t.header t.payload).1
        (t.state.told t.header t.payload).2) (ApiCall.after o t.answers) := by
    have hp := ((hd.2 t ha).2 he hop).1
    rw [hconnect] at hp
    have hw : (t.state.handOver t.header).Wire o := (h.ahead ha).congr rfl rfl rfl
    exact hw.runCallback _ (told_ne_send _ _ _) hp
  cases ho with
  | empty hh hi => exact ⟨o, h⟩
  | reserved hr =>
    have hw := h.open_of_connect (hd.1 hr)
    have hframe : ({ d with input := d.input.drop 1 }.emit .frame).Wire true :=
      (hw.emit .frame fun _ => nofun).congr rfl rfl rfl
    exact ⟨false, hframe.protocolError⟩
  | short wanted hh hf => exact ⟨o, h.congr rfl rfl rfl⟩
  | waits header d' hr hl =>
    obtain ⟨input, wanted, rfl, -⟩ := readHeader_eq hr
    exact ⟨o, h.congr rfl rfl rfl⟩
  | refused t ha he =>
    have hw := (h.open_of_connect ((hd.2 t ha).1 he)).ahead ha
    exact ⟨false, hw.protocolError⟩
  | closed t ha hop hs =>
    have hw := ((h.ahead ha).open_of_connect hs).close .NORMAL_CLOSE
    have hclosed : { t.state.close .NORMAL_CLOSE with status := .CLOSED }.Wire false := by
      refine ⟨?_, hw.output, hw.handed⟩
      simp
    rw [state_recurse]
    exact ⟨false, hclosed.emit .closeTcp fun _ => nofun⟩
  | ignored t ha hop hs =>
    rw [state_recurse]
    exact ⟨o, h.ahead ha⟩
  | failed t x ha he hop hx =>
    have hw := htold t ha he hop
    rw [hx] at hw
    exact ⟨false, hw.2⟩
  | told t x ha he hop hx =>
    have hw := htold t ha he hop
    rw [hx] at hw
    obtain ⟨o', hafter, hw⟩ := hw
    rw [state_recurse]
    apply hw.finish t.header d.assembly t.payload
    intro hping
    have hne := ((hd.2 t ha).2 he hop).2 hping
    rw [hconnect, hafter] at hne
    cases o' with
    | true => rfl
    | false => exact absurd rfl hne

end Decoder

namespace WebSocketConnection

/-- The next activation sends nothing after a close frame. -/
def Discreet (ws : WebSocketConnection) : Prop := ws.abs.Discreet

instance (ws : WebSocketConnection) : Decidable ws.Discreet :=
  inferInstanceAs (Decidable ws.abs.Discreet)

end WebSocketConnection

namespace Session

/-- After a close frame the application calls nothing but `sendMessage`, and `decode` meets no
frame that is answered. -/
def SpeaksBeforeClose (s : Session) : SessionEvent → Prop
  | .receive _ => True
  | .decode => s.ws.Discreet
  | .call c => s.ws.status_ = .CONNECT ∨ c.checks = true

instance (s : Session) : (e : SessionEvent) → Decidable (s.SpeaksBeforeClose e)
  | .receive _ => isTrue trivial
  | .decode => inferInstanceAs (Decidable s.ws.Discreet)
  | .call c => inferInstanceAs (Decidable (s.ws.status_ = .CONNECT ∨ c.checks = true))

theorem wire_meet {s : Session} {o : Bool} (h : s.ws.abs.Wire o) (e : SessionEvent)
    (hg : s.SpeaksBeforeClose e) : ∃ o', (s.ws.abs.meet e).Wire o' := by
  cases e with
  | receive bytes => exact ⟨o, h.congr rfl rfl rfl⟩
  | decode => exact Decoder.wire_outcome h hg s.ws.abs.outcome
  | call c =>
    change ∃ o', (Decoder.ended (s.ws.abs.call c)).Wire o'
    cases o with
    | true =>
      obtain ⟨x, hx, hw⟩ := h.call c
      rw [hx]
      exact ⟨_, hw⟩
    | false =>
      have hc : c.checks = true := hg.resolve_left fun hs => Bool.false_ne_true (h.status.mp hs)
      rw [h.call_checks hc]
      exact ⟨false, h⟩

end Session

namespace WebSocketConnection

theorem Fresh.wire {ws : WebSocketConnection} (h : ws.Fresh) : ws.abs.Wire true := by
  refine ⟨iff_of_true h.status rfl, iff_of_true h.output rfl, ?_⟩
  have ht : ws.abs.trace = [] := h.trace
  rw [ht]
  intro b hb
  exact absurd hb List.not_mem_nil

/-- **Sending stops at the close frame**, in every run that speaks before it only. -/
theorem stopsAtClose_of_speaksBeforeClose {ws : WebSocketConnection} (h : ws.Fresh)
    {es : List SessionEvent} (legal : Session.system.Legal (.start ws) es)
    (guarded : ∀ p ∈ Session.system.steps (.start ws) es, p.1.SpeaksBeforeClose p.2) :
    ∀ p ∈ Session.system.steps (.start ws) es,
      StopsAtClose (sends (Session.traceAfter (p.1.step p.2))) := by
  intro p hp
  have hkeep (s : Session) (e : SessionEvent) (s' : Session) (hi : ∃ o, s.ws.abs.Wire o)
      (hg : s.SpeaksBeforeClose e) (hs : s.step e = .ok s') : ∃ o, s'.ws.abs.Wire o := by
    obtain ⟨o, hw⟩ := hi
    rw [Session.step_meet hs]
    exact Session.wire_meet hw e hg
  have hinv := Session.system.invariant_of_guard (fun s => ∃ o, s.ws.abs.Wire o)
    Session.SpeaksBeforeClose (fun s e s' hi _ hg hs => hkeep s e s' hi hg hs) ⟨true, h.wire⟩ legal
    guarded
  obtain ⟨⟨o, hw⟩, -⟩ := hinv p hp
  obtain ⟨o', hw'⟩ := Session.wire_meet hw p.2 (guarded p hp)
  rw [Session.traceAfter_step]
  exact hw'.stops

/-- A message is answered with one, then a close frame arrives. -/
theorem stopsAtClose_of_message_close :
    let start := Session.start (connected (some fun _ => [.sendMessage [0x62] false]) none none)
    let events : List SessionEvent :=
      [.receive [0x81, 0x01, 0x61, 0x88, 0x00], .decode, .decode]
    Session.system.Legal start events ∧
      ∀ p ∈ Session.system.steps start events,
        StopsAtClose (sends (Session.traceAfter (p.1.step p.2))) :=
  ⟨by decide +kernel, stopsAtClose_of_speaksBeforeClose (connected_fresh _ _ _)
    (by decide +kernel) (by decide +kernel)⟩

/-- The application closes, then an empty ping arrives: the answer takes the close frame along. -/
theorem not_stopsAtClose_ping :
    let events : List SessionEvent := [.call (.close .NORMAL_CLOSE), .receive [0x89, 0x00], .decode]
    Session.system.Legal (.start (connected none none none)) events ∧
      (∃ p ∈ Session.system.steps (.start (connected none none none)) events,
        sends (Session.traceAfter (p.1.step p.2)) =
          [[0x88, 0x02, 0x03, 0xe8], [0x88, 0x02, 0x03, 0xe8, 0x8a, 0x00]]) ∧
      ¬ ∀ p ∈ Session.system.steps (.start (connected none none none)) events,
        StopsAtClose (sends (Session.traceAfter (p.1.step p.2))) := by
  decide +kernel

end WebSocketConnection
end WsEngine
