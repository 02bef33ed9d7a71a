import WsEngine.Machine.Runs
import WsEngine.Ws.Encode

/-! # What the machine does beyond the range

A frame of `2^31` bytes waits in `inputBuffer` until the last of its payload is read. That read leaves
a negative write index, `readableBytes` wraps to nearly `2^64`, and `decode` finds the payload
complete; but `retrieve` compares with the negative index, and its assertion fails. -/
set_option autoImplicit false

namespace WsEngine
open Words

namespace Machine.Buffer

/-- With `2^31` bytes between the indices the difference is no `int`. -/
theorem readableBytes_wrapped {b : Buffer} (h : b.writeIndex_ - b.readIndex_ = -2 ^ 31) :
    b.readableBytes = 2 ^ 64 - 2 ^ 31 := by
  unfold readableBytes
  rw [h]
  decide

theorem retrieve_wrapped {b : Buffer} (h : b.writeIndex_ - b.readIndex_ = -2 ^ 31)
    (hread : 0 ≤ b.readIndex_ ∧ b.readIndex_ < 2 ^ 31) {len : ℕ} (hlen : len = 2 ^ 31) :
    b.retrieve (ssize_t len) = none := by
  subst hlen
  refine if_neg (Int.not_le.mpr ?_)
  have hlen : ssize_t ((2 ^ 31 : ℕ) : ℤ) = 2 ^ 31 := by decide
  rw [hlen, ssize_t_eq (by omega)]
  omega

end Machine.Buffer

namespace Machine.WebSocketConnection

/-- The payload cannot be retrieved, so the activation is aborted. -/
theorem decodeCall_aborted {m : Machine.WebSocketConnection} (hread : m.headerRead_ = true)
    (hall : m.payloadLength_ ≤ m.inputBuffer.readableBytes)
    (hfail : m.inputBuffer.retrieve (ssize_t m.payloadLength_) = none) :
    m.decodeCall = .aborted { m with headerRead_ := true } := by
  have hmove : { m with headerRead_ := true }.movePayload = none := by
    have hfrom : m.decodeBuf_.writeFrom m.inputBuffer m.payloadLength_ = none := by
      unfold Buffer.writeFrom
      rw [hfail]
      cases m.inputBuffer.peek m.payloadLength_ with
      | none => rfl
      | some bytes =>
        cases hw : m.decodeBuf_.write bytes with
        | none => simp only [Option.bind_eq_bind, Option.bind_some, hw, Option.bind_none]
        | some b => simp only [Option.bind_eq_bind, Option.bind_some, hw, Option.bind_none]
    unfold movePayload
    rw [hfrom]
    rfl
  have hpayload : { m with headerRead_ := true }.readPayload =
      .error (.aborted { m with headerRead_ := true }) := by
    unfold readPayload
    rw [if_neg (Nat.not_lt.mpr hall), hmove]
    rfl
  unfold decodeCall decodeHeader
  rw [if_pos hread]
  simp only [pure_bind, decodeBody, hpayload]
  rfl

end Machine.WebSocketConnection

namespace WebSocketConnection

variable (httpParserExecute : Machine.WebSocketConnection → Bytes → ℕ × Machine.WebSocketConnection)

/-- **Overflow.** The read that completes a payload of `2^31` bytes ends in an assertion that fails,
with nothing told or sent. -/
theorem Small.feed_overflow {ws : WebSocketConnection} (h : ws.Small 4)
    (hread : ws.headerRead_ = true) (hstatus : ws.status_ = .CONNECT)
    (hwanted : ws.wanted_ ≤ 2 ^ 31) (hlength : ws.payloadLength_ = 2 ^ 31) {bytes : Bytes}
    (hbytes : bytes.length ≤ 2 ^ 20) (hall : ws.inputBuffer.readableBytes + bytes.length = 2 ^ 31)
    (chunks : List Bytes) :
    ∃ m, ws.machine.feed httpParserExecute (bytes :: chunks) = .aborted m ∧ m.trace = ws.trace := by
  have hbounds := h.input.bounds
  have hstart := ws.inputBuffer.start_le bytes.length
  have hindex : (ws.inputBuffer.write bytes).writeIndex_ =
      ws.inputBuffer.start bytes.length + bytes.length := by
    rw [← Buffer.writeIndex_ensureSpace_eq]
    rfl
  have hreadable : (ws.inputBuffer.write bytes).writeIndex_ -
      (ws.inputBuffer.write bytes).readIndex_ = 2 ^ 31 := by
    rw [← hall]
    change (ws.inputBuffer.write bytes).readableBytes = _
    rw [Buffer.readableBytes_eq, Buffer.readable_write, List.length_append, Buffer.length_readable]
  have horder := (ws.inputBuffer.write bytes).read_le_write
  have hroom : ws.inputBuffer.start bytes.length + bytes.length + Buffer.kExpandSize < 2 ^ 32 := by
    unfold Buffer.kExpandSize
    omega
  have hwrite := Buffer.write_wraps h.input hroom (by omega)
  have hover : ((ws.inputBuffer.write bytes).writeIndex_ : ℤ) < 2 ^ 32 := by omega
  generalize ws.inputBuffer.write bytes = b at *
  -- the write index behind the read, with as much in front of it as it is negative
  let m : Machine.WebSocketConnection := { ws.machine with
    inputBuffer := { b.machine with writeIndex_ := b.writeIndex_ - 2 ^ 32 } }
  have hwrapped : m.inputBuffer.writeIndex_ - m.inputBuffer.readIndex_ = -2 ^ 31 := by
    change ((b.writeIndex_ : ℤ) - 2 ^ 32) - b.readIndex_ = _
    omega
  have hcount := Machine.Buffer.readableBytes_wrapped hwrapped
  have hcall : m.decodeCall = .aborted { m with headerRead_ := true } := by
    refine Machine.WebSocketConnection.decodeCall_aborted hread ?_ ?_
    · rw [hcount]
      exact hlength.trans_le (by decide)
    · refine Machine.Buffer.retrieve_wrapped hwrapped ?_ hlength
      change (0 : ℤ) ≤ b.readIndex_ ∧ (b.readIndex_ : ℤ) < 2 ^ 31
      omega
  have htrace : { m with headerRead_ := true }.trace = ws.trace := rfl
  generalize { m with headerRead_ := true } = m' at hcall htrace
  have hparse : m.parse httpParserExecute = .aborted m' := by
    have hdecode : m.decode = .aborted m' := Call.iterate_aborted _ hcall
    have hgo : ¬ m.inputBuffer.readableBytes < m.wanted_ := by
      rw [hcount, Nat.not_lt]
      exact hwanted.trans (by decide)
    have hconnect : m.status_ = .CONNECT := hstatus
    unfold Machine.WebSocketConnection.parse
    rw [if_neg hgo, hconnect]
    exact hdecode
  refine ⟨m', ?_, htrace⟩
  unfold Machine.WebSocketConnection.feed
  rw [show ws.machine.inputBuffer.write bytes = _ from hwrite]
  change (m.parse httpParserExecute).andThen _ = _
  rw [hparse]
  rfl

end WebSocketConnection

/-! ## A frame that waits -/

namespace Decoder

theorem parse_header {d : Decoder} (h : d.Calm) (hheader : d.header = none) (hwanted : d.wanted = 0)
    {f : Frame} (hinput : d.input = f.encodeHeader) (hf : f.payload ≠ []) :
    d.parse = .returned { d with
      input := []
      header := some f.header
      wanted := f.payload.length } := by
  have hfront : front d.input =
      .full f.header f.encodeHeader.length (f.form.code f.payload.length) := by
    rw [hinput, ← List.append_nil f.encodeHeader, Frame.front_encode, List.append_nil]
  have hread : d.readHeader = .ok (f.header, { d with
      input := []
      header := some f.header
      wanted := f.form.code f.payload.length }) := by
    rw [readHeader_none hheader, readFront, hfront, hinput]
    simp only [List.drop_length]
    rfl
  rw [parse_eq_iterate h (by omega)]
  exact Call.iterate_returned _ (activate_waits hread (List.length_pos_iff.mpr hf))

/-- Reads that do not complete what is awaited are kept. -/
theorem feed_waits {d : Decoder} {chunks : List Bytes}
    (h : d.input.length + chunks.flatten.length < d.wanted) :
    d.feed chunks = .returned (d.receive chunks.flatten) := by
  induction chunks generalizing d with
  | nil => exact congrArg Call.returned (receive_nil d).symm
  | cons bytes chunks ih =>
    rw [List.flatten_cons, List.length_append] at h
    have hlen : (d.receive bytes).input.length = d.input.length + bytes.length :=
      List.length_append
    have hparse : (d.receive bytes).parse = .returned (d.receive bytes) := by
      refine if_pos ?_
      change (d.receive bytes).input.length < d.wanted
      omega
    have hnext : (d.receive bytes).input.length + chunks.flatten.length <
        (d.receive bytes).wanted := by
      change _ < d.wanted
      omega
    unfold feed
    rw [hparse, Call.returned_andThen, ih hnext, List.flatten_cons, receive_receive]

end Decoder

namespace Machine.WebSocketConnection

theorem feed_append
    (httpParserExecute : Machine.WebSocketConnection → Bytes → ℕ × Machine.WebSocketConnection)
    (m : Machine.WebSocketConnection) (chunks more : List Bytes) :
    m.feed httpParserExecute (chunks ++ more) =
      (m.feed httpParserExecute chunks).andThen fun m => m.feed httpParserExecute more := by
  induction chunks generalizing m with
  | nil => rfl
  | cons bytes chunks ih =>
    rw [List.cons_append, feed, feed]
    cases m.inputBuffer.write bytes with
    | none => rfl
    | some inputBuffer =>
      dsimp only
      cases ({ m with inputBuffer := inputBuffer } : Machine.WebSocketConnection).parse
          httpParserExecute with
      | returned m' => exact ih m'
      | again m' => rfl
      | aborted m' => rfl

end Machine.WebSocketConnection

namespace WebSocketConnection

/-- **A frame of `2^31` bytes** aborts the connection with the last read of its payload. -/
theorem Small.feed_aborted {ws : WebSocketConnection} (h : ws.Small 4) (hfresh : ws.Fresh)
    (hl : ws.Listening) (hinput : ws.inputBuffer.readable = []) {f : Frame}
    (hlength : f.payload.length = 2 ^ 31) {chunks : List Bytes} {last : Bytes}
    (hchunks : chunks.flatten ++ last = f.header.unmask f.payload) (hne : last ≠ [])
    (hlast : last.length ≤ 2 ^ 20) (hroom : ws.RoomFor (f.encodeHeader :: chunks))
    (httpParserExecute : Machine.WebSocketConnection → Bytes → ℕ × Machine.WebSocketConnection)
    (more : List Bytes) :
    ∃ m, ws.machine.feed httpParserExecute (f.encodeHeader :: chunks ++ last :: more) =
      .aborted m ∧ m.trace = [] := by
  have hpast : ws.status_ ≠ .INITIAL := by
    rw [hfresh.status]
    exact nofun
  have hsize : chunks.flatten.length + last.length = 2 ^ 31 := by
    rw [← List.length_append, hchunks, Header.length_unmask, hlength]
  have hpos := List.length_pos_iff.mpr hne
  have hf : f.payload ≠ [] := by
    rw [ne_eq, ← List.length_eq_zero_iff, hlength]
    decide
  have hheader : ws.abs.header = none := if_neg (by rw [hfresh.header]; decide)
  have hread : (ws.abs.receive f.encodeHeader).parse = .returned
      { ws.abs.receive f.encodeHeader with
        input := []
        header := some f.header
        wanted := f.payload.length } := by
    refine Decoder.parse_header ((hfresh.calm hl).receive _) hheader hfresh.wanted ?_ hf
    exact (congrArg (· ++ f.encodeHeader) hinput).trans (List.nil_append _)
  have hwaits : ws.abs.feed (f.encodeHeader :: chunks) = .returned
      ({ ws.abs.receive f.encodeHeader with
        input := []
        header := some f.header
        wanted := f.payload.length }.receive chunks.flatten) := by
    unfold Decoder.feed
    rw [hread, Call.returned_andThen]
    refine Decoder.feed_waits ?_
    change 0 + chunks.flatten.length < f.payload.length
    omega
  rw [← abs_feed (fun ws _ => (0, ws)) hpast] at hwaits
  obtain ⟨w, hw, habs⟩ := Call.map_eq_returned hwaits
  have htracked := Tracked.feed (fun ws _ => (0, ws)) httpParserExecute ⟨rfl, h, hl.modest⟩ hpast hroom
  rw [hw] at htracked
  generalize hm : ws.machine.feed httpParserExecute (f.encodeHeader :: chunks) = r at htracked
  cases htracked with
  | returned htracked =>
    have hlen : w.inputBuffer.readableBytes = chunks.flatten.length := by
      rw [Buffer.readableBytes_eq]
      exact congrArg (fun d => d.input.length) habs
    have hsome : w.abs.header = some f.header := congrArg Decoder.header habs
    have hpayload : w.headerRead_ = true ∧ w.payloadLength_ = 2 ^ 31 := by
      unfold abs at hsome
      dsimp only at hsome
      split at hsome
      · next hr => exact ⟨hr, (congrArg Header.length (Option.some.inj hsome)).trans hlength⟩
      · cases hsome
    have hwanted : w.wanted_ = f.payload.length := congrArg Decoder.wanted habs
    obtain ⟨m, haborted, htrace⟩ := htracked.small.feed_overflow httpParserExecute hpayload.1
      ((congrArg Decoder.status habs).trans hfresh.status) (hwanted.trans hlength).le hpayload.2 hlast
      (by rw [hlen, hsize]) more
    refine ⟨m, ?_, htrace.trans ((congrArg Decoder.trace habs).trans hfresh.trace)⟩
    rw [Machine.WebSocketConnection.feed_append, hm, Call.returned_andThen, htracked.same]
    exact haborted

end WebSocketConnection
end WsEngine
