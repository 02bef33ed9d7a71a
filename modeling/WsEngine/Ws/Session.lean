import WsEngine.Lib.EventSystem
import WsEngine.Ws.Refinement
import WsEngine.Ws.Activation

/-! # What happens to a WebSocket connection

Reads, calls of the application, and the activations of `decode`, one at a time: a read that passes
the gate of `parse` is followed by activations until one returns, and nothing else happens in
between but what the callbacks do. -/
set_option autoImplicit false

namespace WsEngine

inductive SessionEvent
  | receive (bytes : Bytes)
  | decode
  | call (c : ApiCall)

/-- A connection after the handshake, and whether `decode` is being called. -/
structure Session where
  ws : WebSocketConnection
  decoding : Bool

namespace WebSocketConnection

def Decodes (ws : WebSocketConnection) : Prop :=
  ws.wanted_ ≤ ws.inputBuffer.readableBytes ∧ (ws.status_ = .CONNECT ∨ ws.status_ = .CLOSING)

instance (ws : WebSocketConnection) : Decidable ws.Decodes := inferInstanceAs (Decidable (_ ∧ _))

theorem parse_eq (httpParserExecute : WebSocketConnection → Bytes → ℕ × WebSocketConnection)
    {ws : WebSocketConnection} (h : ws.status_ ≠ .INITIAL) :
    ws.parse httpParserExecute = if ws.Decodes then ws.decode else .returned ws := by
  unfold parse
  by_cases hw : ws.inputBuffer.readableBytes < ws.wanted_
  · have hd : ¬ ws.Decodes := fun hd => Nat.not_le_of_lt hw hd.1
    rw [if_pos hw, if_neg hd]
  · have hle : ws.wanted_ ≤ ws.inputBuffer.readableBytes := by omega
    have hd : ws.Decodes ↔ ws.status_ = .CONNECT ∨ ws.status_ = .CLOSING :=
      and_iff_right hle
    rw [if_neg hw]
    simp only [hd]
    cases hs : ws.status_ with
    | INITIAL => exact absurd hs h
    | HANDSHAKE => rfl
    | CONNECT => rfl
    | CLOSING => rfl
    | CLOSED => rfl

end WebSocketConnection

namespace Session

def afterCall : Call WebSocketConnection → Except WebSocketConnection Session
  | .returned ws => .ok ⟨ws, false⟩
  | .again ws => .ok ⟨ws, true⟩
  | .aborted ws => .error ws

def step (s : Session) : SessionEvent → Except WebSocketConnection Session
  | .receive bytes =>
    let ws := s.ws.receive bytes
    .ok ⟨ws, ws.Decodes⟩
  | .decode => afterCall s.ws.decodeCall
  | .call c => (s.ws.call c).map fun ws => ⟨ws, false⟩

def Possible (s : Session) : SessionEvent → Prop
  | .receive bytes => s.decoding = false ∧ bytes ≠ []
  | .decode => s.decoding = true
  | .call _ => s.decoding = false

instance (s : Session) : (e : SessionEvent) → Decidable (s.Possible e)
  | .receive bytes => inferInstanceAs (Decidable (s.decoding = false ∧ bytes ≠ []))
  | .decode => inferInstanceAs (Decidable (s.decoding = true))
  | .call _ => inferInstanceAs (Decidable (s.decoding = false))

def system : EventSystem Session SessionEvent WebSocketConnection := ⟨Possible, step⟩

instance (s : Session) (e : SessionEvent) : Decidable (system.enabled s e) :=
  inferInstanceAs (Decidable (s.Possible e))

/-- A connection as the handshake leaves it, before the first read. -/
def start (ws : WebSocketConnection) : Session := ⟨ws, false⟩

/-- All that has happened when a step has ended, in an assertion or not. -/
def traceAfter : Except WebSocketConnection Session → List Effect
  | .ok s => s.ws.trace
  | .error ws => ws.trace

/-! ## Steps over byte lists -/

theorem step_receive (s : Session) (bytes : Bytes) :
    s.step (.receive bytes) = .ok ⟨s.ws.receive bytes, (s.ws.receive bytes).Decodes⟩ := rfl

theorem step_decode {s s' : Session} (h : s.step .decode = .ok s') :
    s.ws.abs.activate = .returned s'.ws.abs ∧ s'.decoding = false ∨
      s.ws.abs.activate = .again s'.ws.abs ∧ s'.decoding = true := by
  have habs := WebSocketConnection.abs_decodeCall s.ws
  change afterCall s.ws.decodeCall = _ at h
  cases hc : s.ws.decodeCall with
  | returned ws =>
    rw [hc] at h habs
    cases h
    exact .inl ⟨habs.symm, rfl⟩
  | again ws =>
    rw [hc] at h habs
    cases h
    exact .inr ⟨habs.symm, rfl⟩
  | aborted ws =>
    rw [hc] at h
    cases h

theorem step_call {s s' : Session} {c : ApiCall} (h : s.step (.call c) = .ok s') :
    s.ws.abs.call c = .ok s'.ws.abs ∧ s'.decoding = false := by
  have habs := WebSocketConnection.abs_call s.ws c
  obtain ⟨ws, hc, rfl⟩ := Except.map_eq_ok.mp h
  rw [hc] at habs
  exact ⟨habs.symm, rfl⟩

end Session

def Decoder.meet (d : Decoder) : SessionEvent → Decoder
  | .receive bytes => d.receive bytes
  | .decode => d.activate.state
  | .call c => ended (d.call c)

namespace Session

theorem step_meet {s s' : Session} {e : SessionEvent} (h : s.step e = .ok s') :
    s'.ws.abs = s.ws.abs.meet e := by
  cases e with
  | receive bytes =>
    rw [step_receive] at h
    cases h
    exact WebSocketConnection.abs_receive _ _
  | decode =>
    obtain ⟨h, -⟩ | ⟨h, -⟩ := step_decode h
    · exact (congrArg Call.state h).symm
    · exact (congrArg Call.state h).symm
  | call c =>
    obtain ⟨h, -⟩ := step_call h
    exact (congrArg Decoder.ended h).symm

theorem traceAfter_step (s : Session) (e : SessionEvent) :
    traceAfter (s.step e) = (s.ws.abs.meet e).trace := by
  cases hs : s.step e with
  | ok s' =>
    rw [← step_meet hs]
    rfl
  | error ws =>
    cases e with
    | receive bytes => cases hs
    | decode =>
      have habs := WebSocketConnection.abs_decodeCall s.ws
      change afterCall s.ws.decodeCall = _ at hs
      cases hc : s.ws.decodeCall with
      | returned w =>
        rw [hc] at hs
        cases hs
      | again w =>
        rw [hc] at hs
        cases hs
      | aborted w =>
        rw [hc] at hs habs
        cases hs
        exact congrArg (fun r => r.state.trace) habs
    | call c =>
      have habs := WebSocketConnection.abs_call s.ws c
      change (s.ws.call c).map _ = _ at hs
      cases hc : s.ws.call c with
      | error w =>
        rw [hc] at hs habs
        cases hs
        exact congrArg (fun r => (Decoder.ended r).trace) habs
      | ok w =>
        rw [hc] at hs
        cases hs

/-! ## A read and its activations -/

/-- The activations that `decode` makes are events of a session. -/
theorem run_decode {ws w : WebSocketConnection} {n : ℕ} (h : ws.decodeWithin n = .returned w) :
    ∃ k, system.Legal ⟨ws, true⟩ (List.replicate k .decode) ∧
      system.run ⟨ws, true⟩ (List.replicate k .decode) = .ok ⟨w, false⟩ := by
  induction n generalizing ws with
  | zero => cases h
  | succ n ih =>
    change Call.iterate WebSocketConnection.decodeCall (n + 1) ws = _ at h
    cases hc : ws.decodeCall with
    | returned w' =>
      rw [Call.iterate_returned n hc] at h
      cases h
      have hstep : system.step ⟨ws, true⟩ .decode = .ok ⟨w, false⟩ := congrArg afterCall hc
      exact ⟨1, system.legal_singleton rfl, system.run_cons_ok [] hstep⟩
    | again w' =>
      rw [Call.iterate_again n hc] at h
      have hstep : system.step ⟨ws, true⟩ .decode = .ok ⟨w', true⟩ := congrArg afterCall hc
      obtain ⟨k, hlegal, hrun⟩ := ih h
      refine ⟨k + 1, system.legal_cons_ok rfl hstep hlegal, ?_⟩
      rw [List.replicate_succ, system.run_cons_ok _ hstep, hrun]
    | aborted w' =>
      rw [Call.iterate_aborted n hc] at h
      cases h

/-- **A read** that is followed by `parse`, where that returns, is a run of the session. -/
theorem run_parse (httpParserExecute : WebSocketConnection → Bytes → ℕ × WebSocketConnection)
    {ws w : WebSocketConnection} {bytes : Bytes} (hs : ws.status_ ≠ .INITIAL) (hb : bytes ≠ [])
    (h : (ws.receive bytes).parse httpParserExecute = .returned w) :
    ∃ k, system.Legal (start ws) (.receive bytes :: List.replicate k .decode) ∧
      system.run (start ws) (.receive bytes :: List.replicate k .decode) = .ok (start w) := by
  have hstep : system.step (start ws) (.receive bytes) =
      .ok ⟨ws.receive bytes, (ws.receive bytes).Decodes⟩ := rfl
  have henabled : system.enabled (start ws) (.receive bytes) := ⟨rfl, hb⟩
  have hpast : (ws.receive bytes).status_ ≠ .INITIAL := hs
  rw [WebSocketConnection.parse_eq httpParserExecute hpast] at h
  by_cases hd : (ws.receive bytes).Decodes
  · rw [if_pos hd] at h
    rw [decide_eq_true hd] at hstep
    obtain ⟨k, hlegal, hrun⟩ := run_decode h
    exact ⟨k, system.legal_cons_ok henabled hstep hlegal, (system.run_cons_ok _ hstep).trans hrun⟩
  · rw [if_neg hd] at h
    cases h
    rw [decide_eq_false hd] at hstep
    exact ⟨0, system.legal_cons_ok henabled hstep trivial, system.run_cons_ok [] hstep⟩

end Session
end WsEngine
