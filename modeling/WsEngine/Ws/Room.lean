import WsEngine.Ws.Chunks
import WsEngine.Ws.Indices

/-! # Streams that the indices have room for

Every append of a run has room below `2^31` when each read and each activation of `decode` has
(`RoomFor`, and `Roomy` at an event of a session). `HasRoom` is a bound that says so beforehand: a
byte that is received goes through `inputBuffer` once and through `decodeBuf_` at most once, and no
write index goes up by more. -/
set_option autoImplicit false

namespace WsEngine
namespace Decoder

theorem Sent.input {d d' : Decoder} (h : d.Sent d') : d'.input = d.input := by
  obtain ⟨output, status, more, rfl⟩ := h
  rfl

/-- What an activation leaves of the input, where it takes no payload. -/
theorem length_input_none {d : Decoder} {r : Call Decoder} (ho : d.Outcome r)
    (hnone : d.ahead = none) : r.state.input.length ≤ d.input.length := by
  cases ho with
  | empty hh hi => exact le_refl _
  | reserved hres =>
    change ({ d with input := d.input.drop 1 }.emit .frame).protocolError.input.length ≤ _
    rw [(sent_protocolError _).input]
    change (d.input.drop 1).length ≤ d.input.length
    rw [List.length_drop]
    exact Nat.sub_le _ _
  | short wanted hh hf => exact le_refl _
  | waits h d' hread hl =>
    obtain ⟨input, wanted, rfl, hsize⟩ := readHeader_eq hread
    change input.length ≤ d.input.length
    obtain ⟨-, rfl⟩ | ⟨-, hlen⟩ := hsize
    · exact le_refl _
    · omega
  | refused t ha he => cases hnone.symm.trans ha
  | closed t ha hop hs => cases hnone.symm.trans ha
  | ignored t ha hop hs => cases hnone.symm.trans ha
  | failed t x ha he hop hx => cases hnone.symm.trans ha
  | told t x ha he hop hx => cases hnone.symm.trans ha

/-- And where it takes one. -/
theorem input_outcome {d : Decoder} {r : Call Decoder} (ho : d.Outcome r) {t : Taken}
    (hahead : d.ahead = some t) : r.state.input = t.state.input := by
  cases ho with
  | empty hh hi =>
    obtain ⟨input, wanted, ht, hsize⟩ := ahead_eq hahead
    have hlen : d.input.length = 0 := List.length_eq_zero_iff.mpr hi
    obtain ⟨hh', -⟩ | ⟨-, hlong⟩ := hsize
    · cases hh.symm.trans hh'
    · omega
  | reserved hres => cases hres.ahead.symm.trans hahead
  | short wanted hh hf => cases (ahead_short hh hf).1.symm.trans hahead
  | waits h d' hread hl => cases (ahead_waits hread hl).1.symm.trans hahead
  | refused t' ha he =>
    cases ha.symm.trans hahead
    exact (sent_protocolError _).input
  | closed t' ha hop hs =>
    cases ha.symm.trans hahead
    rw [state_recurse]
    exact (sent_close t.state .NORMAL_CLOSE).input
  | ignored t' ha hop hs =>
    cases ha.symm.trans hahead
    rw [state_recurse]
  | failed t' x ha he hop hx =>
    cases ha.symm.trans hahead
    have hs := sent_runCallback (t.state.handOver t.header) (t.state.told t.header t.payload).1
      (t.state.told t.header t.payload).2
    rw [hx] at hs
    exact hs.input
  | told t' x ha he hop hx =>
    cases ha.symm.trans hahead
    rw [state_recurse, (finish_eq x _ _ _).2.2]
    exact input_told hx

end Decoder

namespace WebSocketConnection

/-! ## Room beforehand -/

/-- Room for what is held and for `n` bytes more, wherever they go. -/
structure HasRoom (ws : WebSocketConnection) (n : ℕ) : Prop where
  input : ws.inputBuffer.writeIndex_ + n < 2 ^ 31
  decode : ws.decodeBuf_.writeIndex_ + ws.inputBuffer.readableBytes + n < 2 ^ 31

theorem HasRoom.mono {ws : WebSocketConnection} {n n' : ℕ} (h : ws.HasRoom n) (hle : n' ≤ n) :
    ws.HasRoom n' :=
  ⟨Nat.lt_of_le_of_lt (Nat.add_le_add_left hle _) h.input,
    Nat.lt_of_le_of_lt (Nat.add_le_add_left hle _) h.decode⟩

theorem HasRoom.inRange {ws : WebSocketConnection} {n : ℕ} (h : ws.HasRoom n) : ws.InRange := by
  obtain ⟨hinput, hdecode⟩ := h
  constructor
  · rw [Buffer.inRange_iff]
    omega
  · rw [Buffer.inRange_iff]
    omega

theorem HasRoom.receive {ws : WebSocketConnection} {bytes : Bytes} {n : ℕ}
    (h : ws.HasRoom (bytes.length + n)) :
    ws.inputBuffer.start bytes.length + bytes.length < 2 ^ 31 ∧ (ws.receive bytes).HasRoom n := by
  obtain ⟨hinput, hdecode⟩ := h
  have hstart := ws.inputBuffer.start_le bytes.length
  have hindex := ws.inputBuffer.writeIndex_write bytes
  have hreadable : (ws.inputBuffer.write bytes).readableBytes =
      ws.inputBuffer.readableBytes + bytes.length := by
    rw [Buffer.readableBytes_eq, Buffer.readable_write, List.length_append, Buffer.length_readable]
  refine ⟨by omega, ?_, ?_⟩
  · change (ws.inputBuffer.write bytes).writeIndex_ + n < _
    omega
  · change ws.decodeBuf_.writeIndex_ + (ws.inputBuffer.write bytes).readableBytes + n < _
    omega

/-- The payload ahead is part of what is held. -/
theorem HasRoom.ahead {ws : WebSocketConnection} {n : ℕ} (h : ws.HasRoom n) : ws.RoomAhead := by
  intro t ht
  obtain ⟨input, wanted, -, hsize⟩ := Decoder.ahead_eq ht
  have hstart := ws.decodeBuf_.start_le t.header.length
  have hheld : ws.abs.input.length = ws.inputBuffer.readableBytes := ws.inputBuffer.length_readable
  obtain ⟨hinput, hdecode⟩ := h
  omega

theorem HasRoom.decodeCall {ws : WebSocketConnection} {n : ℕ} (h : ws.HasRoom n) :
    ws.decodeCall.state.HasRoom n := by
  have habs : ws.decodeCall.state.abs = ws.abs.activate.state := by
    rw [← abs_decodeCall, Call.state_map]
  have hheld : ws.abs.input.length = ws.inputBuffer.readableBytes := ws.inputBuffer.length_readable
  have hleft : ws.abs.activate.state.input.length = ws.decodeCall.state.inputBuffer.readableBytes := by
    rw [← habs]
    exact Buffer.length_readable _
  obtain ⟨hinput, hdecode⟩ := h
  obtain ⟨hnone, hbehind⟩ | ⟨w, hsome, hbehind⟩ := ws.decodeCall_behind
  · have hlen := Decoder.length_input_none ws.abs.outcome (moved_none hnone)
    have hin := hbehind.input
    have hout := hbehind.decode
    constructor <;> omega
  · obtain ⟨t, ht, hin, hout⟩ := moved_some hsome
    have hin' := hbehind.input
    have hout' := hbehind.decode
    have hstate := Decoder.input_outcome ws.abs.outcome ht
    obtain ⟨input, wanted, htaken, hsize⟩ := Decoder.ahead_eq ht
    have hlen : ws.abs.activate.state.input.length = input.length := by
      rw [hstate, htaken]
    have hstart := ws.decodeBuf_.start_le t.header.length
    constructor <;> omega

/-! ## Reads and the activations behind them -/

/-- Each of up to `n` activations has room for what it appends. -/
def RoomWithin : ℕ → WebSocketConnection → Prop
  | 0, _ => True
  | n + 1, ws => ws.RoomAhead ∧ ∀ w, ws.decodeCall = .again w → RoomWithin n w

/-- What is read, and what `decode` moves behind each read, has room. -/
def RoomFor (ws : WebSocketConnection) : List Bytes → Prop
  | [] => True
  | bytes :: chunks =>
    ws.inputBuffer.start bytes.length + bytes.length < 2 ^ 31 ∧
      if (ws.receive bytes).Decodes then
        RoomWithin ((ws.receive bytes).inputBuffer.readableBytes + 2) (ws.receive bytes) ∧
          ∀ w, (ws.receive bytes).decode = .returned w → w.RoomFor chunks
      else (ws.receive bytes).RoomFor chunks

theorem HasRoom.within {ws : WebSocketConnection} {n : ℕ} (h : ws.HasRoom n) (k : ℕ) :
    RoomWithin k ws := by
  induction k generalizing ws with
  | zero => trivial
  | succ k ih =>
    refine ⟨h.ahead, fun w hw => ih ?_⟩
    have hcall := h.decodeCall
    rw [hw] at hcall
    exact hcall

theorem HasRoom.decoded {ws : WebSocketConnection} {n : ℕ} (h : ws.HasRoom n) :
    ws.decode.state.HasRoom n :=
  Call.iterate_rel (fun w w' => w.HasRoom n → w'.HasRoom n) (fun _ => id)
    (fun _ _ _ h h' hw => h' (h hw)) (fun _ hw => hw.decodeCall) _ ws h

theorem HasRoom.parse {ws : WebSocketConnection} {n : ℕ} (h : ws.HasRoom n)
    (httpParserExecute : WebSocketConnection → Bytes → ℕ × WebSocketConnection)
    (hpast : ws.status_ ≠ .INITIAL) : (ws.parse httpParserExecute).state.HasRoom n := by
  rw [parse_eq httpParserExecute hpast]
  split
  · exact h.decoded
  · exact h

/-- **Room for a stream.** A stream that is not too long never leaves the range. -/
theorem HasRoom.roomFor {ws : WebSocketConnection} {chunks : List Bytes}
    (h : ws.HasRoom chunks.flatten.length) : ws.RoomFor chunks := by
  induction chunks generalizing ws with
  | nil => trivial
  | cons bytes chunks ih =>
    rw [List.flatten_cons, List.length_append] at h
    obtain ⟨hread, hroom⟩ := h.receive
    refine ⟨hread, ?_⟩
    split
    · refine ⟨hroom.within _, fun w hw => ih ?_⟩
      have hdecoded := hroom.decoded
      rw [hw] at hdecoded
      exact hdecoded
    · exact ih hroom

end WebSocketConnection
end WsEngine
