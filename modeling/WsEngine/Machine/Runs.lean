import WsEngine.Machine.Refinement
import WsEngine.Ws.Room

/-! # Runs of the machine

From one activation to `decode`, `parse` and a whole stream of reads: as long as every append has room
the machine goes where the connection over naturals goes. So what is proved of that one holds of the
machine, on every stream that its indices have room for. -/
set_option autoImplicit false

namespace WsEngine
namespace WebSocketConnection

/-- Up to `n` activations. -/
theorem Tracked.iterate {ws : WebSocketConnection} {m : Machine.WebSocketConnection} (h : Tracked 4 ws m)
    {n : ℕ} (hroom : RoomWithin n ws) :
    EndsAlike (Call.iterate WebSocketConnection.decodeCall n ws)
      (Call.iterate Machine.WebSocketConnection.decodeCall n m) := by
  induction n generalizing ws m with
  | zero => exact .again h
  | succ n ih =>
    have hcall := h.decodeCall hroom.1
    have hnext := hroom.2
    cases hw : ws.decodeCall with
    | returned w =>
      rw [hw] at hcall
      generalize hm : m.decodeCall = r at hcall
      cases hcall with
      | returned htracked =>
        rw [Call.iterate_returned n hw, Call.iterate_returned n hm]
        exact .returned htracked
    | again w =>
      rw [hw] at hcall
      generalize hm : m.decodeCall = r at hcall
      cases hcall with
      | again htracked =>
        rw [Call.iterate_again n hw, Call.iterate_again n hm]
        exact ih htracked (hnext w hw)
    | aborted w =>
      rw [hw] at hcall
      generalize hm : m.decodeCall = r at hcall
      cases hcall with
      | aborted hsame =>
        rw [Call.iterate_aborted n hw, Call.iterate_aborted n hm]
        exact .aborted hsame

theorem Tracked.decode {ws : WebSocketConnection} {m : Machine.WebSocketConnection} (h : Tracked 4 ws m)
    (hroom : RoomWithin (ws.inputBuffer.readableBytes + 2) ws) : EndsAlike ws.decode m.decode := by
  have hiterate := h.iterate hroom
  rw [← h.readableBytes] at hiterate
  unfold WebSocketConnection.decode decodeWithin
  rw [← h.readableBytes]
  exact hiterate

variable (httpParserExecute : WebSocketConnection → Bytes → ℕ × WebSocketConnection)
  (machineExecute : Machine.WebSocketConnection → Bytes → ℕ × Machine.WebSocketConnection)

/-- Behind the handshake the parser is not asked any more. -/
theorem Tracked.parse {ws : WebSocketConnection} {m : Machine.WebSocketConnection} (h : Tracked 4 ws m)
    (hpast : ws.status_ ≠ .INITIAL)
    (hroom : ws.Decodes → RoomWithin (ws.inputBuffer.readableBytes + 2) ws) :
    EndsAlike (ws.parse httpParserExecute) (m.parse machineExecute) := by
  unfold WebSocketConnection.parse Machine.WebSocketConnection.parse
  rw [h.readableBytes, h.wanted, h.status]
  by_cases hwait : ws.inputBuffer.readableBytes < ws.wanted_
  · rw [if_pos hwait, if_pos hwait]
    exact .returned h
  · rw [if_neg hwait, if_neg hwait]
    have hall : ws.wanted_ ≤ ws.inputBuffer.readableBytes := Nat.le_of_not_lt hwait
    cases hs : ws.status_ with
    | INITIAL => exact absurd hs hpast
    | HANDSHAKE => exact .returned h
    | CONNECT => exact h.decode (hroom ⟨hall, .inl hs⟩)
    | CLOSING => exact h.decode (hroom ⟨hall, .inr hs⟩)
    | CLOSED => exact .returned h

theorem Tracked.receive {ws : WebSocketConnection} {m : Machine.WebSocketConnection} (h : Tracked 4 ws m)
    {bytes : Bytes} (hroom : ws.inputBuffer.start bytes.length + bytes.length < 2 ^ 31) :
    ∃ inputBuffer, m.inputBuffer.write bytes = some inputBuffer ∧
      Tracked 4 (ws.receive bytes) { m with inputBuffer := inputBuffer } := by
  obtain ⟨hwrite, hsmall⟩ := Buffer.write_machine h.small.input hroom
  rw [← h.inputBuffer] at hwrite
  obtain ⟨rfl, ⟨-, hdecode, hout⟩, hmodest⟩ := h
  exact ⟨_, hwrite, rfl, ⟨hsmall, hdecode, hout⟩, hmodest.message, hmodest.ping, hmodest.pong⟩

/-- **A stream.** Over reads that have room the machine and the connection end alike. -/
theorem Tracked.feed {ws : WebSocketConnection} {m : Machine.WebSocketConnection} (h : Tracked 4 ws m)
    (hpast : ws.status_ ≠ .INITIAL) {chunks : List Bytes} (hroom : ws.RoomFor chunks) :
    EndsAlike (ws.feed httpParserExecute chunks) (m.feed machineExecute chunks) := by
  induction chunks generalizing ws m with
  | nil => exact .returned h
  | cons bytes chunks ih =>
    obtain ⟨hread, hbehind⟩ := hroom
    obtain ⟨inputBuffer, hwrite, htracked⟩ := h.receive hread
    have hpast' : (ws.receive bytes).status_ ≠ .INITIAL := hpast
    have hafter := parse_past httpParserExecute (ws.receive bytes) hpast
    have hparse := htracked.parse httpParserExecute machineExecute hpast fun hd => by
      rw [if_pos hd] at hbehind
      exact hbehind.1
    have hnext (w : WebSocketConnection)
        (hw : (ws.receive bytes).parse httpParserExecute = .returned w) : w.RoomFor chunks := by
      rw [parse_eq httpParserExecute hpast'] at hw
      by_cases hd : (ws.receive bytes).Decodes
      · rw [if_pos hd] at hw hbehind
        exact hbehind.2 w hw
      · rw [if_neg hd] at hw hbehind
        cases hw
        exact hbehind
    unfold WebSocketConnection.feed Machine.WebSocketConnection.feed
    rw [hwrite]
    dsimp only
    generalize ({ m with inputBuffer := inputBuffer } : Machine.WebSocketConnection).parse
      machineExecute = r at hparse ⊢
    cases hw : (ws.receive bytes).parse httpParserExecute with
    | returned w =>
      rw [hw] at hparse hafter
      cases hparse with
      | returned htracked' => exact ih htracked' hafter (hnext w hw)
    | again w =>
      rw [hw] at hparse
      cases hparse with
      | again htracked' => exact .again htracked'
    | aborted w =>
      rw [hw] at hparse
      cases hparse with
      | aborted hsame => exact .aborted hsame

/-- The stream returns on the machine where it does over naturals. -/
theorem Small.feed_returned {ws w : WebSocketConnection} (h : ws.Small 4) (hmodest : ws.Modest)
    (hpast : ws.status_ ≠ .INITIAL) {chunks : List Bytes} (hroom : ws.RoomFor chunks)
    (hw : ws.feed httpParserExecute chunks = .returned w) :
    ws.machine.feed machineExecute chunks = .returned w.machine := by
  have hfeed := Tracked.feed httpParserExecute machineExecute ⟨rfl, h, hmodest⟩ hpast hroom
  rw [hw] at hfeed
  generalize ws.machine.feed machineExecute chunks = r at hfeed ⊢
  cases hfeed with
  | returned htracked => rw [htracked.same]

/-- However it ends, the same has happened. -/
theorem Small.feed_trace {ws : WebSocketConnection} (h : ws.Small 4) (hmodest : ws.Modest)
    (hpast : ws.status_ ≠ .INITIAL) {chunks : List Bytes} (hroom : ws.RoomFor chunks) :
    (ws.machine.feed machineExecute chunks).state.trace =
      (ws.feed httpParserExecute chunks).state.trace := by
  have hfeed := Tracked.feed httpParserExecute machineExecute ⟨rfl, h, hmodest⟩ hpast hroom
  generalize ws.feed httpParserExecute chunks = r at hfeed ⊢
  generalize ws.machine.feed machineExecute chunks = r' at hfeed ⊢
  cases hfeed with
  | returned htracked => exact htracked.trace
  | again htracked => exact htracked.trace
  | aborted hsame => exact congrArg Machine.WebSocketConnection.trace hsame

/-! ## Where a connection starts -/

theorem Listening.modest {ws : WebSocketConnection} (h : ws.Listening) : ws.Modest := by
  have hsilent {callback : Option Callback} (hl : Listens callback) : Callback.Modest callback := by
    intro answer hanswer trace c hc
    rw [hl answer hanswer trace] at hc
    cases hc
  exact ⟨hsilent h.message, hsilent h.ping, hsilent h.pong⟩

theorem connected_small (message ping pong : Option Callback) :
    (connected message ping pong).Small 4 := by
  refine ⟨Buffer.small_ofSize (by decide), Buffer.small_ofSize (by decide),
    Buffer.small_ofSize (by decide), ?_, ?_⟩
  · change (List.replicate _ (0 : UInt8)).length < _
    rw [List.length_replicate]
    decide
  · exact Nat.zero_le _

theorem connected_hasRoom (message ping pong : Option Callback) {n : ℕ} (h : n < 2 ^ 31) :
    (connected message ping pong).HasRoom n := by
  constructor
  · change 0 + n < _
    omega
  · change 0 + 0 + n < _
    omega

end WebSocketConnection
end WsEngine
