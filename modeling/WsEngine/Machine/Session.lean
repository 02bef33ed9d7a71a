import WsEngine.Machine.Runs

/-! # Sessions of the machine

The reads, activations and calls of a session (`Session`) over the machine's buffers. As long as every
event has room (`Roomy`) the two systems agree, and a bound on the bytes that are received beforehand
is enough for that. -/
set_option autoImplicit false

namespace WsEngine
namespace Machine

namespace WebSocketConnection

def lastHeader (ws : WebSocketConnection) : Header where
  isFin := ws.isFin_
  opcode := ws.opcode_
  mask := if ws.masked_ then some ws.maskKey_ else none
  length := ws.payloadLength_

/-- The connection as byte lists. -/
def abs (ws : WebSocketConnection) : Decoder where
  input := ws.inputBuffer.readable
  status := ws.status_
  messageCallback := ws.wsMessageCallback_
  pingCallback := ws.pingCallback_
  pongCallback := ws.pongCallback_
  output := ws.outputBuf_.readable
  assembly := ws.decodeBuf_.readable
  fragmentedOpCode := ws.fragmentedOpCode_
  header := if ws.headerRead_ then some ws.lastHeader else none
  wanted := ws.wanted_
  trace := ws.trace

def Decodes (ws : WebSocketConnection) : Prop :=
  ws.wanted_ ≤ ws.inputBuffer.readableBytes ∧ (ws.status_ = .CONNECT ∨ ws.status_ = .CLOSING)

instance (ws : WebSocketConnection) : Decidable ws.Decodes := inferInstanceAs (Decidable (_ ∧ _))

end WebSocketConnection

/-- A connection after the handshake, and whether `decode` is being called. -/
structure Session where
  ws : WebSocketConnection
  decoding : Bool

namespace Session

def afterCall : Call WebSocketConnection → Except WebSocketConnection Session
  | .returned ws => .ok ⟨ws, false⟩
  | .again ws => .ok ⟨ws, true⟩
  | .aborted ws => .error ws

def step (s : Session) : SessionEvent → Except WebSocketConnection Session
  | .receive bytes =>
    match s.ws.inputBuffer.write bytes with
    | some inputBuffer =>
      let ws := { s.ws with inputBuffer := inputBuffer }
      .ok ⟨ws, ws.Decodes⟩
    | none => .error s.ws
  | .decode => afterCall s.ws.decodeCall
  | .call c => (s.ws.call c).map fun ws => ⟨ws, false⟩

def Possible (s : Session) : SessionEvent → Prop
  | .receive bytes => s.decoding = false ∧ bytes ≠ []
  | .decode => s.decoding = true
  | .call _ => s.decoding = false

def system : EventSystem Session SessionEvent WebSocketConnection := ⟨Possible, step⟩

/-- A connection as the handshake leaves it, before the first read. -/
def start (ws : WebSocketConnection) : Session := ⟨ws, false⟩

/-- All that has happened when a step has ended, in an assertion or not. -/
def traceAfter : Except WebSocketConnection Session → List Effect
  | .ok s => s.ws.trace
  | .error ws => ws.trace

end Session
end Machine

namespace WebSocketConnection

theorem Tracked.abs {output : ℕ} {ws : WebSocketConnection} {m : Machine.WebSocketConnection}
    (h : Tracked output ws m) : m.abs = ws.abs := by
  obtain ⟨rfl, ⟨hinput, hdecode, hout⟩, -⟩ := h
  unfold Machine.WebSocketConnection.abs WebSocketConnection.abs
  rw [show ws.machine.inputBuffer.readable = _ from Buffer.readable_machine hinput,
    show ws.machine.decodeBuf_.readable = _ from Buffer.readable_machine hdecode,
    show ws.machine.outputBuf_.readable = _ from Buffer.readable_machine hout.small]
  rfl

theorem Tracked.readable_output {output : ℕ} {ws : WebSocketConnection}
    {m : Machine.WebSocketConnection} (h : Tracked output ws m) :
    m.outputBuf_.readable = ws.outputBuf_.readable := by
  rw [h.outputBuf]
  exact Buffer.readable_machine h.small.output.small

theorem Tracked.decodes_iff {ws : WebSocketConnection} {m : Machine.WebSocketConnection}
    (h : Tracked 4 ws m) : m.Decodes ↔ ws.Decodes := by
  unfold Machine.WebSocketConnection.Decodes WebSocketConnection.Decodes
  rw [h.readableBytes, h.wanted, h.status]

end WebSocketConnection

namespace Session

/-- What the event appends has room below `2^31`. -/
def Roomy (s : Session) : SessionEvent → Prop
  | .receive bytes => s.ws.inputBuffer.start bytes.length + bytes.length < 2 ^ 31
  | .decode => s.ws.RoomAhead
  | .call c => c.Modest

/-- The machine is where the session is, and can go on from there. -/
structure Tracked (s : Session) (t : Machine.Session) : Prop where
  ws : WebSocketConnection.Tracked 4 s.ws t.ws
  decoding : t.decoding = s.decoding

theorem Tracked.start {ws : WebSocketConnection} (h : ws.Small 4) (hmodest : ws.Modest) :
    Tracked (.start ws) (.start ws.machine) := ⟨⟨rfl, h, hmodest⟩, rfl⟩

/-- **One event.** -/
theorem Tracked.step {s : Session} {t : Machine.Session} (h : s.Tracked t) {e : SessionEvent}
    (hroom : s.Roomy e) : (s.step e).Related WebSocketConnection.Same Tracked (t.step e) := by
  cases e with
  | receive bytes =>
    obtain ⟨inputBuffer, hwrite, htracked⟩ := h.ws.receive hroom
    have hdecodes : decide ({ t.ws with inputBuffer := inputBuffer } :
        Machine.WebSocketConnection).Decodes = decide (s.ws.receive bytes).Decodes :=
      decide_eq_decide.mpr htracked.decodes_iff
    unfold Machine.Session.step
    dsimp only
    rw [hwrite]
    exact .ok ⟨htracked, hdecodes⟩
  | decode =>
    have hcall := h.ws.decodeCall hroom
    change (afterCall s.ws.decodeCall).Related _ _ (Machine.Session.afterCall t.ws.decodeCall)
    generalize s.ws.decodeCall = r at hcall
    generalize t.ws.decodeCall = r' at hcall
    cases hcall with
    | returned htracked => exact .ok ⟨htracked, rfl⟩
    | again htracked => exact .ok ⟨htracked, rfl⟩
    | aborted hsame => exact .error hsame
  | call c => exact (h.ws.call hroom).map fun w m htracked => ⟨htracked, rfl⟩

/-- **A run.** -/
theorem Tracked.run {s : Session} {t : Machine.Session} (h : s.Tracked t) {es : List SessionEvent}
    (hroom : ∀ p ∈ system.steps s es, p.1.Roomy p.2) :
    (system.run s es).Related WebSocketConnection.Same Tracked (Machine.Session.system.run t es) :=
  system.run_related Machine.Session.system Tracked WebSocketConnection.Same Roomy
    (fun _ _ _ h hroom => h.step hroom) h hroom

/-- Where the machine gets through a run with room for it and for the event behind it, so does the
session. -/
theorem Tracked.exists_run {s : Session} {t t' : Machine.Session} (h : s.Tracked t)
    {es : List SessionEvent} {e : SessionEvent}
    (hroom : ∀ p ∈ system.steps s (es ++ [e]), p.1.Roomy p.2)
    (hrun : Machine.Session.system.run t es = .ok t') :
    ∃ s', system.run s es = .ok s' ∧ s'.Tracked t' ∧ s'.Roomy e := by
  have hrelated := h.run fun p hp => hroom p (system.mem_steps_append [e] hp)
  rw [hrun] at hrelated
  generalize hs : system.run s es = r at hrelated
  cases hrelated with
  | ok htracked => exact ⟨_, rfl, htracked, hroom _ (system.mem_steps_concat e hs)⟩

theorem Tracked.traceAfter {s : Session} {t : Machine.Session} (h : s.Tracked t) {e : SessionEvent}
    (hroom : s.Roomy e) : Machine.Session.traceAfter (t.step e) = traceAfter (s.step e) := by
  have hstep := h.step hroom
  generalize s.step e = r at hstep
  generalize t.step e = r' at hstep
  cases hstep with
  | ok htracked => exact htracked.ws.trace
  | error hsame => exact congrArg Machine.WebSocketConnection.trace hsame

/-! ## Room beforehand -/

/-- The bytes of the reads. -/
def received (es : List SessionEvent) : Bytes :=
  es.flatMap fun
    | .receive bytes => bytes
    | .decode | .call _ => []

theorem length_received (es : List SessionEvent) :
    (received es).length = (es.map fun e => (received [e]).length).sum := by
  unfold received
  rw [List.length_flatMap]
  simp only [List.flatMap_cons, List.flatMap_nil, List.append_nil]

theorem roomy_step {s : Session} {e : SessionEvent} (h : s.ws.HasRoom (received [e]).length)
    (hmodest : ∀ c, e = .call c → c.Modest) : s.Roomy e := by
  cases e with
  | receive bytes =>
    have hbytes : received [.receive bytes] = bytes := List.append_nil bytes
    rw [hbytes] at h
    exact (WebSocketConnection.HasRoom.receive (n := 0) h).1
  | decode => exact h.ahead
  | call c => exact hmodest c rfl

theorem hasRoom_step {s s' : Session} {e : SessionEvent} {n : ℕ}
    (h : s.ws.HasRoom ((received [e]).length + n)) (hs : s.step e = .ok s') : s'.ws.HasRoom n := by
  cases e with
  | receive bytes =>
    have hbytes : received [.receive bytes] = bytes := List.append_nil bytes
    rw [hbytes] at h
    cases hs
    exact h.receive.2
  | decode =>
    have hcall := (h.mono (Nat.le_add_left n _)).decodeCall
    change afterCall s.ws.decodeCall = _ at hs
    generalize s.ws.decodeCall = r at hcall hs
    cases r with
    | returned w =>
      cases hs
      exact hcall
    | again w =>
      cases hs
      exact hcall
    | aborted w => cases hs
  | call c =>
    obtain ⟨hinput, hdecode⟩ := h.mono (Nat.le_add_left n _)
    have hquiet := WebSocketConnection.quiet_call s.ws c
    obtain ⟨hcall, -⟩ := step_call hs
    have hsame : s'.ws.abs.input = s.ws.abs.input := by
      have hsent := (Decoder.sent_call s.ws.abs c).input
      rw [hcall] at hsent
      exact hsent
    have hlen := congrArg List.length hsame
    change s'.ws.inputBuffer.readable.length = s.ws.inputBuffer.readable.length at hlen
    rw [Buffer.length_readable, Buffer.length_readable] at hlen
    obtain ⟨w, hw, rfl⟩ := Except.map_eq_ok.mp hs
    rw [hw, Except.ends_ok] at hquiet
    constructor
    · rw [hquiet.input]
      exact hinput
    · rw [hquiet.decode, hlen]
      exact hdecode

/-- A session that receives not too much, and whose application is modest, has room for all of it. -/
theorem roomy_of_hasRoom {s : Session} {es : List SessionEvent}
    (h : s.ws.HasRoom (received es).length) (hcalls : ∀ c, .call c ∈ es → c.Modest) :
    ∀ p ∈ system.steps s es, p.1.Roomy p.2 := by
  rw [length_received] at h
  have hguarded := system.guarded_of_budget (fun s n => s.ws.HasRoom n)
    (fun e => (received [e]).length) (fun s e => (∀ c, e = .call c → c.Modest) → s.Roomy e)
    (fun _ _ hroom hmodest => roomy_step hroom hmodest)
    (fun _ _ _ _ hroom hs => hasRoom_step hroom hs) (fun _ _ _ hle hroom => hroom.mono hle) h
  refine fun p hp => hguarded p hp fun c hc => hcalls c ?_
  rw [← hc]
  exact system.mem_of_mem_steps hp

end Session
end WsEngine
