import WsEngine.Ws.Session

/-! # The recursion of `decode`

An activation calls `decode` again with fewer bytes whenever it read a header or took a payload. The
exception is a close frame: its branch leaves `headerRead_` set, so the frame is met again, and where
it has no payload nothing is consumed. In every other case a header that is left behind waits for
payload bytes, or is refused again. -/
set_option autoImplicit false

namespace WsEngine
namespace Decoder

/-- The header of an empty close frame is there, with bytes behind it. -/
def EmptyCloseAhead (d : Decoder) : Prop :=
  ∃ t ∈ d.ahead, t.header.opcode = 8 ∧ t.header.length = 0 ∧ t.state.input ≠ []

instance (d : Decoder) : Decidable d.EmptyCloseAhead :=
  inferInstanceAs (Decidable (∃ t ∈ d.ahead, _ ∧ _))

/-- A header that was left behind has a payload to come, is a close, or is refused. -/
def HeaderInv (d : Decoder) : Prop :=
  ∀ h, d.header = some h → 0 < h.length ∨ h.opcode = 8 ∨ d.Erroneous h

theorem HeaderInv.of_none {d : Decoder} (h : d.header = none) : d.HeaderInv := by
  intro h' hh
  rw [h] at hh
  cases hh

theorem HeaderInv.sent {d d' : Decoder} (hi : d.HeaderInv) (hs : d.Sent d') : d'.HeaderInv := by
  obtain ⟨output, status, more, rfl⟩ := hs
  exact hi

theorem headerInv_ahead {d : Decoder} {t : Taken} (ha : d.ahead = some t)
    (h : t.header.opcode = 8 ∨ t.state.Erroneous t.header) : t.state.HeaderInv := by
  intro h' hh
  rw [header_ahead ha] at hh
  cases hh
  exact .inr h

theorem headerInv_outcome {d : Decoder} {r : Call Decoder} (ho : d.Outcome r)
    (hr : ∀ x, r ≠ .aborted x) : r.state.HeaderInv := by
  cases ho with
  | empty hh hi => exact absurd rfl (hr d)
  | reserved hres =>
    have hnone : HeaderInv { d with input := d.input.drop 1 } := .of_none hres.1
    exact (hnone.sent (sent_emit _ _)).sent (sent_protocolError _)
  | short wanted hh hf => exact .of_none hh
  | waits h d' hread hl =>
    obtain ⟨input, wanted, rfl, -⟩ := readHeader_eq hread
    intro h' hh
    cases hh
    exact .inl (Nat.lt_of_le_of_lt (Nat.zero_le _) hl)
  | refused t ha he => exact (headerInv_ahead ha (.inr he)).sent (sent_protocolError _)
  | closed t ha hop hs =>
    have hc := (headerInv_ahead ha (.inl hop)).sent (sent_close t.state .NORMAL_CLOSE)
    rw [state_recurse]
    intro h' hh
    exact hc h' hh
  | ignored t ha hop hs =>
    rw [state_recurse]
    exact headerInv_ahead ha (.inl hop)
  | failed t x ha he hop hx => exact absurd rfl (hr x)
  | told t x ha he hop hx =>
    rw [state_recurse]
    exact .of_none (finish_eq x t.header d.assembly t.payload).1

/-- **One activation.** What `decode` is called with again is shorter than what it was called with,
unless an empty close frame is ahead. -/
theorem activate_shorter {d d' : Decoder} (hi : d.HeaderInv) (hempty : ¬ d.EmptyCloseAhead)
    (h : d.activate = .again d') : d'.input.length < d.input.length := by
  have ho := d.outcome
  rw [h] at ho
  obtain ⟨hne, t, ha, hinput, hcase⟩ := again_outcome ho
  obtain ⟨input, wanted, ht, hsize⟩ := ahead_eq ha
  have hpos (hh : d.header = some t.header) : 0 < t.header.length := by
    by_cases hop : t.header.opcode = 8
    · apply Nat.pos_of_ne_zero
      intro hlen
      rw [hinput] at hne
      exact hempty ⟨t, ha, hop, hlen, hne⟩
    · have he := hcase.resolve_left hop
      obtain hpos | h8 | hbad := hi t.header hh
      · exact hpos
      · exact absurd h8 hop
      · rw [ht] at he
        exact absurd hbad he
  rw [hinput, ht]
  change input.length < d.input.length
  obtain ⟨hh, hlen⟩ | ⟨-, hlen⟩ := hsize
  · have hlength := hpos hh
    omega
  · omega

theorem activate_close {d : Decoder} {t : Taken} (ha : d.ahead = some t)
    (hop : t.header.opcode = 8) :
    ∃ x : Decoder, d.activate = x.recurse ∧ x.header = some t.header ∧
      x.input = t.state.input := by
  have hhead := header_ahead ha
  rw [activate_ahead ha, onFrame_close _ _ hop, onClose]
  by_cases hs : t.state.status = .CONNECT
  · rw [if_pos hs]
    obtain ⟨output, status, more, hclose⟩ := sent_close t.state .NORMAL_CLOSE
    refine ⟨_, rfl, ?_, ?_⟩
    · rw [hclose]
      exact hhead
    · rw [hclose]
      rfl
  · rw [if_neg hs]
    exact ⟨_, rfl, hhead, rfl⟩

theorem ahead_again {d : Decoder} {h : Header} (hh : d.header = some h) (hlen : h.length = 0) :
    ∃ t, d.ahead = some t ∧ t.header = h ∧ t.state.input = d.input := by
  have hread := readHeader_some hh
  refine ⟨⟨h, h.unmask (d.input.take h.length), d.take h⟩, ?_, rfl, ?_⟩
  · unfold ahead
    rw [hread]
    exact if_neg (by omega)
  · change d.input.drop h.length = d.input
    rw [hlen, List.drop_zero]

/-- With an empty close frame ahead `decode` is called again, and then with the same bytes. -/
theorem activate_emptyClose {d : Decoder} (h : d.EmptyCloseAhead) :
    ∃ d', d.activate = .again d' ∧ d'.EmptyCloseAhead ∧
      ∃ d'', d'.activate = .again d'' ∧ d''.input = d'.input := by
  obtain ⟨t, ha, hop, hlen, hne⟩ := h
  obtain ⟨x, hact, hh, hinput⟩ := activate_close ha hop
  have hagain (y : Decoder) (hy : y.input = t.state.input) : y.recurse = .again y :=
    if_neg (by rwa [hy])
  obtain ⟨t', ha', hheader, hstate⟩ := ahead_again hh hlen
  obtain ⟨y, hact', -, hinput'⟩ := activate_close ha' (by rwa [hheader])
  have hy : y.input = t.state.input := by rw [hinput', hstate, hinput]
  refine ⟨x, hact.trans (hagain x hinput), ⟨t', ha', by rwa [hheader], by rwa [hheader], ?_⟩,
    y, hact'.trans (hagain y hy), by rw [hy, hinput]⟩
  rwa [hstate, hinput]

end Decoder

namespace WebSocketConnection

def EmptyCloseAhead (ws : WebSocketConnection) : Prop := ws.abs.EmptyCloseAhead

instance (ws : WebSocketConnection) : Decidable ws.EmptyCloseAhead :=
  inferInstanceAs (Decidable ws.abs.EmptyCloseAhead)

/-- The states with which `decode` is called from `ws` on. -/
inductive Activated (ws : WebSocketConnection) : WebSocketConnection → Prop
  | first : Activated ws ws
  | next {w w' : WebSocketConnection} (h : Activated ws w) (hc : w.decodeCall = .again w') :
    Activated ws w'

/-- Every recursive call starts with fewer readable bytes than the call that made it. -/
def Shrinks (ws : WebSocketConnection) : Prop :=
  ∀ w, ws.Activated w → ∀ w', w.decodeCall = .again w' →
    w'.inputBuffer.readableBytes < w.inputBuffer.readableBytes

def Ends (ws : WebSocketConnection) : Prop := ∃ n, ∀ w, ws.decodeWithin n ≠ .again w

theorem activate_of_again {w w' : WebSocketConnection} (h : w.decodeCall = .again w') :
    w.abs.activate = .again w'.abs := by
  rw [← abs_decodeCall, h]
  rfl

theorem again_of_activate {w : WebSocketConnection} {d : Decoder} (h : w.abs.activate = .again d) :
    ∃ w', w.decodeCall = .again w' ∧ w'.abs = d := by
  rw [← abs_decodeCall] at h
  cases hc : w.decodeCall with
  | returned w' =>
    rw [hc] at h
    cases h
  | again w' =>
    rw [hc] at h
    exact ⟨w', rfl, Call.again.inj h⟩
  | aborted w' =>
    rw [hc] at h
    cases h

theorem Activated.headerInv {ws w : WebSocketConnection} (h : ws.Activated w)
    (hi : ws.abs.HeaderInv) : w.abs.HeaderInv := by
  induction h with
  | first => exact hi
  | @next w w' h hc ih =>
    have ho := w.abs.outcome
    rw [activate_of_again hc] at ho
    exact Decoder.headerInv_outcome ho fun x => nofun

theorem shrinks_iff {ws : WebSocketConnection} (hi : ws.abs.HeaderInv) :
    ws.Shrinks ∧ ws.Ends ↔ ∀ w, ws.Activated w → ¬ w.EmptyCloseAhead := by
  constructor
  · rintro ⟨hshrink, -⟩ w hw hempty
    obtain ⟨d', h', hempty', d'', h'', hsame⟩ := Decoder.activate_emptyClose hempty
    obtain ⟨w', hw', rfl⟩ := again_of_activate h'
    obtain ⟨w'', hw'', rfl⟩ := again_of_activate h''
    have hlt := hshrink w' (hw.next hw') w'' hw''
    rw [Buffer.readableBytes_eq, Buffer.readableBytes_eq] at hlt
    change w''.abs.input.length < w'.abs.input.length at hlt
    rw [hsame] at hlt
    exact lt_irrefl _ hlt
  · intro hall
    have hshrink : ws.Shrinks := by
      intro w hw w' hc
      have hlt := Decoder.activate_shorter (hw.headerInv hi) (hall w hw) (activate_of_again hc)
      rw [Buffer.readableBytes_eq, Buffer.readableBytes_eq]
      exact hlt
    refine ⟨hshrink, ws.inputBuffer.readableBytes + 1, ?_⟩
    exact Call.iterate_ends ws.Activated (fun w => w.inputBuffer.readableBytes)
      (fun w w' hw hc => ⟨hw.next hc, hshrink w hw w' hc⟩) .first (Nat.lt_succ_self _)

end WebSocketConnection

namespace Session

theorem headerInv_step {s s' : Session} {e : SessionEvent} (hi : s.ws.abs.HeaderInv)
    (h : s.step e = .ok s') : s'.ws.abs.HeaderInv := by
  cases e with
  | receive bytes =>
    rw [step_receive] at h
    cases h
    rw [WebSocketConnection.abs_receive]
    exact hi
  | decode =>
    have ho := s.ws.abs.outcome
    obtain ⟨h, -⟩ | ⟨h, -⟩ := step_decode h
    · rw [h] at ho
      exact Decoder.headerInv_outcome ho fun x => nofun
    · rw [h] at ho
      exact Decoder.headerInv_outcome ho fun x => nofun
  | call c =>
    obtain ⟨h, -⟩ := step_call h
    have hs := Decoder.sent_call s.ws.abs c
    rw [h] at hs
    exact hi.sent hs

end Session

namespace WebSocketConnection

/-- **Termination.** In every state that a run reaches and for every content of the input buffer,
`decode` makes finitely many calls, each with fewer bytes, iff none of them meets an empty close
frame with bytes behind it. -/
theorem decode_shrinks_iff {ws : WebSocketConnection} (h : ws.Fresh) {es : List SessionEvent}
    {s : Session} (legal : Session.system.Legal (.start ws) es)
    (run : Session.system.run (.start ws) es = .ok s) (inputBuffer : Buffer) :
    let w := { s.ws with inputBuffer := inputBuffer }
    w.Shrinks ∧ w.Ends ↔ ∀ w', w.Activated w' → ¬ w'.EmptyCloseAhead := by
  have hnone : ws.abs.header = none := if_neg (by rw [h.header]; decide)
  have hstart : (Session.start ws).ws.abs.HeaderInv := .of_none hnone
  have hi : s.ws.abs.HeaderInv :=
    Session.system.run_invariant_of_guard (fun s => s.ws.abs.HeaderInv) (fun _ _ => True)
      (fun s e s' hi _ _ hs => Session.headerInv_step hi hs) hstart legal (fun _ _ => trivial) run
  exact shrinks_iff hi

theorem Activated.eq_of_not_again {ws w : WebSocketConnection} (h : ws.decodeCall.isAgain = false)
    (hw : ws.Activated w) : w = ws := by
  induction hw with
  | first => rfl
  | @next w w' hw hc ih =>
    rw [← ih, hc] at h
    cases h

/-- An empty ping alone in the buffer: one call, which returns. -/
theorem decode_shrinks_iff_ping :
    let w := { connected none none none with inputBuffer := (Buffer.ofSize 0).write [0x89, 0x00] }
    w.Shrinks ∧ w.Ends := by
  intro w
  have legal : Session.system.Legal (.start (connected none none none)) [] := trivial
  apply (decode_shrinks_iff (connected_fresh none none none) legal rfl _).mpr
  intro w' hw'
  rw [hw'.eq_of_not_again (by decide +kernel)]
  decide +kernel

/-- An empty close frame and one more byte. -/
theorem decode_diverges_emptyClose :
    Session.system.Legal (.start (connected none none none)) [.receive [0x88, 0x00, 0x00]] ∧
    ∃ s, Session.system.run (.start (connected none none none)) [.receive [0x88, 0x00, 0x00]] =
        .ok s ∧ s.decoding = true ∧ ¬ (s.ws.Shrinks ∧ s.ws.Ends) := by
  refine ⟨by decide +kernel, _, rfl, by decide +kernel, fun h => ?_⟩
  exact (shrinks_iff (.of_none rfl)).mp h _ .first (by decide +kernel)

end WebSocketConnection
end WsEngine
