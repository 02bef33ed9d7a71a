import WsEngine.Ws.Decoder

/-! # The code refines the decoder over byte lists

`abs` forgets where bytes lie in memory and the fields that a later header overwrites. Every
operation of the connection then computes what its counterpart over lists computes: the sends, the
callbacks with all they call, each stage of `decode`, and so `decode` and `parse`. -/
set_option autoImplicit false

namespace WsEngine
open Window

theorem Buffer.readable_unmaskFrom {b : Buffer} {originSize : ℕ} (maskKey : Bytes)
    (h : originSize ≤ b.readable.length) :
    (b.unmaskFrom originSize maskKey).readable =
      b.readable.take originSize ++ unmask maskKey (b.readable.drop originSize) := by
  obtain ⟨h1, h2, h3⟩ := b.index_bounds
  have hlen : (unmask maskKey (b.readable.drop originSize)).length =
      b.readable.length - originSize := by
    rw [length_unmask, List.length_drop]
  have hall : b.writeIndex_ - b.readIndex_ =
      originSize + (unmask maskKey (b.readable.drop originSize)).length := by omega
  have hfirst : window b.readIndex_ originSize b.buf_ = b.readable.take originSize := by
    rw [Buffer.readable, Buffer.peek, take_window _ _ _ _ (by rw [Buffer.readableBytes]; omega)]
  rw [← hfirst]
  change window b.readIndex_ (b.writeIndex_ - b.readIndex_) _ = _
  rw [hall]
  exact window_overwrite_extend (by omega)

namespace WebSocketConnection

def lastHeader (ws : WebSocketConnection) : Header :=
  ⟨ws.isFin_, ws.opcode_, if ws.masked_ then some ws.maskKey_ else none, ws.payloadLength_⟩

def abs (ws : WebSocketConnection) : Decoder where
  input := ws.inputBuffer.readable
  status := ws.status_
  messageCallback := ws.wsMessageCallback_
  pingCallback := ws.pingCallback_
  pongCallback := ws.pongCallback_
  output := ws.outputBuf_.readable
  assembly := ws.decodeBuf_.readable
  fragmentedOpCode := ws.fragmentedOpCode_
  header := if ws.headerRead_ then some ws.lastHeader else none
  wanted := ws.wanted_
  trace := ws.trace

theorem abs_emit (ws : WebSocketConnection) (effect : Effect) :
    (ws.emit effect).abs = ws.abs.emit effect := rfl

theorem abs_outputBuf (ws : WebSocketConnection) (outputBuf : Buffer) :
    { ws with outputBuf_ := outputBuf }.abs = { ws.abs with output := outputBuf.readable } := rfl

/-! ## Sending -/

theorem abs_sendOutput (ws : WebSocketConnection) (body : Bytes) :
    (ws.sendOutput body).both abs abs =
      .ok ({ ws.abs with output := [] }.emit (.send (ws.abs.output ++ body))) := by
  unfold sendOutput
  rw [Buffer.readableBytes_eq, Buffer.retrieve_eq (le_refl _), Buffer.peek_eq_take (le_refl _),
    List.take_length]
  simp only [Except.both_ok]
  rw [abs_emit, abs_outputBuf, Buffer.readable_advance, List.drop_length]
  rfl

theorem writeHeader_eq {ws : WebSocketConnection} (length : ℕ) (isBinary : Bool)
    (h : ws.outputBuf_.readable = []) :
    ∃ outputBuf, ws.writeHeader length (if isBinary then 2 else 1) =
        .ok { ws with outputBuf_ := outputBuf } ∧
      outputBuf.readable = Decoder.messageHeader length isBinary := by
  have hcontrol : UInt8.ofNat (0x8f &&& (0x80 ||| if isBinary then 2 else 1)) =
      if isBinary then 0x82 else 0x81 := by
    cases isBinary <;> rfl
  refine ⟨_, if_pos ((Buffer.empty_iff _).mpr h), ?_⟩
  unfold Decoder.messageHeader
  by_cases h1 : length < 126
  · simp only [if_pos h1, Buffer.readable_putByte, h, hcontrol]
    rfl
  · by_cases h2 : length ≤ 0xffff
    · simp only [if_neg h1, if_pos h2, Buffer.readable_putUInt16, Buffer.readable_putByte, h,
        hcontrol]
      rfl
    · simp only [if_neg h1, if_neg h2, if_pos (by omega : 0xfff < length),
        Buffer.readable_putUInt64, Buffer.readable_putByte, h, hcontrol]
      rfl

theorem writeHeader_error {ws : WebSocketConnection} (length opcode : ℕ)
    (h : ws.outputBuf_.readable ≠ []) : ws.writeHeader length opcode = .error ws :=
  if_neg fun he => h ((Buffer.empty_iff _).mp he)

theorem abs_sendMessage (ws : WebSocketConnection) (data : Bytes) (isBinary : Bool) :
    (ws.sendMessage data isBinary).both abs abs = ws.abs.sendMessage data isBinary := by
  unfold sendMessage Decoder.sendMessage
  by_cases h : ws.abs.output = []
  · obtain ⟨outputBuf, hw, hr⟩ := writeHeader_eq data.length isBinary h
    rw [hw, if_pos h]
    refine (abs_sendOutput _ []).trans (congrArg Except.ok ?_)
    rw [abs_outputBuf, Buffer.readable_write, hr, List.append_nil]
    change { ws.abs with output := [] }.emit _ = _
    rw [← h]
  · rw [writeHeader_error _ _ h, if_neg h]
    rfl

theorem abs_sendMove (ws : WebSocketConnection) (data : Bytes) (isBinary : Bool) :
    (ws.sendMove data isBinary).both abs abs = ws.abs.sendMessage data isBinary := by
  unfold sendMove Decoder.sendMessage
  by_cases h : ws.abs.output = []
  · obtain ⟨outputBuf, hw, hr⟩ := writeHeader_eq data.length isBinary h
    rw [if_pos ((Buffer.empty_iff _).mpr h), hw, if_pos h]
    refine (abs_sendOutput _ data).trans (congrArg Except.ok ?_)
    rw [abs_outputBuf, hr]
    change { ws.abs with output := [] }.emit _ = _
    rw [← h]
  · rw [if_neg fun he => h ((Buffer.empty_iff _).mp he), if_neg h]
    rfl

theorem readable_putClose (outputBuf : Buffer) (code : StatusCode) :
    (putClose outputBuf code).readable = Decoder.closeFrame code := by
  have hclear : (if 0 < outputBuf.readableBytes then outputBuf.clear else outputBuf).readable =
      [] := by
    split
    · exact Buffer.readable_clear _
    · rw [← List.length_eq_zero_iff, Buffer.length_readable]
      omega
  unfold putClose
  rw [Buffer.readable_putUInt16, Buffer.readable_putByte, Buffer.readable_putByte, hclear]
  rfl

theorem peek_putClose (outputBuf : Buffer) (code : StatusCode) :
    (putClose outputBuf code).peek 4 = Decoder.closeFrame code := by
  have hlen : (Decoder.closeFrame code).length = 4 := rfl
  rw [Buffer.peek_eq_take (by rw [readable_putClose, hlen]), readable_putClose, ← hlen,
    List.take_length]

theorem abs_close (ws : WebSocketConnection) (code : StatusCode) :
    (ws.close code).abs = ws.abs.close code := by
  have hstate : { ws with
      outputBuf_ := putClose ws.outputBuf_ code
      status_ := .CLOSING }.abs = { ws.abs with
      output := Decoder.closeFrame code
      status := .CLOSING } := by
    rw [← readable_putClose ws.outputBuf_ code]
    rfl
  have hpeek (w : WebSocketConnection) (hw : w.outputBuf_ = putClose ws.outputBuf_ code) :
      w.outputBuf_.peek 4 = Decoder.closeFrame code := by
    rw [hw, peek_putClose]
  unfold close Decoder.close
  dsimp only
  by_cases hcode : code ≠ .NORMAL_CLOSE
  · rw [if_pos hcode, if_pos hcode, abs_emit, abs_emit]
    exact congrArg₂ Decoder.emit (congrArg (Decoder.emit · .stopRead) hstate)
      (congrArg Effect.send (hpeek _ rfl))
  · rw [if_neg hcode, if_neg hcode, abs_emit]
    exact congrArg₂ Decoder.emit hstate (congrArg Effect.send (hpeek _ rfl))

theorem abs_protocolError (ws : WebSocketConnection) :
    ws.protocolError.abs = ws.abs.protocolError := abs_close _ _

theorem abs_sendControl (ws : WebSocketConnection) (control : ℕ) (message : Bytes) :
    (ws.sendControl control message).both abs abs =
      .ok (ws.abs.sendControl (UInt8.ofNat control) message) := by
  unfold sendControl
  refine (abs_sendOutput _ []).trans (congrArg Except.ok ?_)
  rw [abs_outputBuf, Buffer.readable_write, Buffer.readable_putByte, Buffer.readable_putByte,
    List.append_nil, List.append_assoc, List.append_assoc]
  rfl

theorem abs_ping (ws : WebSocketConnection) (message : Bytes) :
    (ws.ping message).both abs abs = .ok (ws.abs.ping message) := by
  unfold ping Decoder.ping
  split
  · exact congrArg Except.ok (abs_close _ _)
  · exact abs_sendControl _ _ _

theorem abs_pong (ws : WebSocketConnection) (message : Bytes) :
    (ws.pong message).both abs abs = .ok (ws.abs.pong message) := by
  unfold pong Decoder.pong
  split
  · exact congrArg Except.ok (abs_protocolError _)
  · exact abs_sendControl _ _ _

/-! ## Calls from the application -/

theorem abs_call (ws : WebSocketConnection) (c : ApiCall) :
    (ws.call c).both abs abs = ws.abs.call c := by
  cases c with
  | sendMove data isBinary => exact abs_sendMove ws data isBinary
  | sendMessage data isBinary => exact abs_sendMessage ws data isBinary
  | ping message => exact abs_ping ws message
  | pong message => exact abs_pong ws message
  | close code => exact congrArg Except.ok (abs_close ws code)

theorem abs_calls (ws : WebSocketConnection) (cs : List ApiCall) :
    (ws.calls cs).both abs abs = ws.abs.calls cs := by
  induction cs generalizing ws with
  | nil => rfl
  | cons c cs ih => exact Except.both_bind (abs_call ws c) fun w _ => ih w

theorem abs_runCallback (ws : WebSocketConnection) (callback : Option Callback) (effect : Effect) :
    (ws.runCallback callback effect).both abs abs = ws.abs.runCallback callback effect := by
  cases callback with
  | none => rfl
  | some answer => exact abs_calls (ws.emit effect) _

/-! ## The header -/

/-- What reading a header leaves alone. -/
def idle (ws : WebSocketConnection) : Decoder :=
  { ws.abs with
    input := []
    header := none
    wanted := 0 }

theorem abs_eq_idle {ws : WebSocketConnection} (h : ws.headerRead_ = true) :
    ws.abs = { ws.idle with
      input := ws.inputBuffer.readable
      header := some ws.lastHeader
      wanted := ws.wanted_ } := by
  unfold idle abs
  rw [if_pos h]

theorem abs_waitFor {ws : WebSocketConnection} {b : Buffer} {readSize : ℕ} (wanted : ℕ)
    (hb : ws.inputBuffer = b.advance readSize) (h : readSize ≤ b.readable.length) :
    (ws.waitFor wanted readSize).map abs = .returned { ws.idle with
      input := b.readable
      wanted := wanted } := by
  rw [waitFor, hb, Buffer.unread_advance h]
  rfl

theorem readNumber_eq {ws : WebSocketConnection} {b : Buffer} {n : ℕ} (size : ℕ)
    (hb : ws.inputBuffer = b.advance n) (h : size ≤ (b.readable.drop n).length) :
    ws.readNumber size = .ok (Buffer.typedNumber size ((b.readable.drop n).take size),
      { ws with inputBuffer := b.advance (n + size) }) := by
  have hr : size ≤ (b.advance n).readable.length := by rwa [Buffer.readable_advance]
  rw [readNumber, hb, Buffer.readTypedNumber_eq hr, Buffer.readable_advance, Buffer.advance_advance]

theorem readNumber_first {ws : WebSocketConnection} {first : UInt8} {rest : Bytes}
    (hr : ws.inputBuffer.readable = first :: rest) :
    ws.readNumber 1 = .ok (first.toNat, { ws with inputBuffer := ws.inputBuffer.advance 1 }) := by
  have hnum : ws.readNumber 1 = _ :=
    readNumber_eq 1 (Buffer.advance_zero ws.inputBuffer).symm (by simp [hr])
  have hbyte : Buffer.typedNumber 1 ((ws.inputBuffer.readable.drop 0).take 1) = first.toNat := by
    rw [hr]
    exact Buffer.typedNumber_byte first
  rw [hnum, hbyte, Nat.zero_add]

theorem readFirstByte_reserved {ws : WebSocketConnection} {first : UInt8} {rest : Bytes}
    (hr : ws.inputBuffer.readable = first :: rest) (h : first.toNat &&& 0x70 ≠ 0) :
    ws.readFirstByte.both (Call.map abs) abs =
      .error (.returned ({ ws.abs with input := rest }.emit .frame).protocolError) := by
  have hrest : (ws.inputBuffer.advance 1).readable = rest := by
    rw [Buffer.readable_advance, hr, List.drop_succ_cons, List.drop_zero]
  simp only [readFirstByte, readNumber_first hr, bind, Except.bind, if_pos h]
  simp only [throw, throwThe, MonadExceptOf.throw, Except.both_error, Call.map, abs_protocolError,
    ← hrest]
  rfl

theorem readFirstByte_eq {ws : WebSocketConnection} {first : UInt8} {rest : Bytes}
    (hr : ws.inputBuffer.readable = first :: rest) (h : ¬ first.toNat &&& 0x70 ≠ 0) :
    ∃ w, ws.readFirstByte = .ok w ∧ w.inputBuffer = ws.inputBuffer.advance 1 ∧
      w.isFin_ = (first.toNat >>> 7 ≠ 0 : Bool) ∧ w.opcode_ = first.toNat &&& 0x0f ∧
      w.idle = ws.idle := by
  simp only [readFirstByte, readNumber_first hr, bind, Except.bind, if_neg h]
  exact ⟨_, rfl, rfl, rfl, rfl, rfl⟩

theorem readSecondByte_eq {w : WebSocketConnection} {b : Buffer} {first second : UInt8}
    {rest : Bytes} (hb : w.inputBuffer = b.advance 1) (hr : b.readable = first :: second :: rest) :
    ∃ w', w.readSecondByte = .ok w' ∧ w'.inputBuffer = b.advance 2 ∧ w'.isFin_ = w.isFin_ ∧
      w'.opcode_ = w.opcode_ ∧ w'.masked_ = (second.toNat >>> 7 = 1 : Bool) ∧
      w'.payloadLength_ = second.toNat &&& 0x7f ∧ w'.wanted_ = second.toNat &&& 0x7f ∧
      w'.idle = w.idle := by
  have hnum := readNumber_eq 1 hb (by simp [hr])
  have hbyte : Buffer.typedNumber 1 ((b.readable.drop 1).take 1) = second.toNat := by
    rw [hr]
    exact Buffer.typedNumber_byte second
  rw [hbyte] at hnum
  have hmore : ¬ w.inputBuffer.readableBytes < 1 := by
    rw [hb, Buffer.readableBytes_eq, Buffer.readable_advance, hr]
    simp
  simp only [readSecondByte, if_neg hmore, hnum, bind, Except.bind]
  exact ⟨_, rfl, rfl, rfl, rfl, rfl, rfl, rfl, rfl⟩

theorem readSecondByte_short {w : WebSocketConnection} {b : Buffer} {first : UInt8}
    (hb : w.inputBuffer = b.advance 1) (hr : b.readable = [first]) :
    w.readSecondByte = .error (w.waitFor 2 1) := by
  have hmore : w.inputBuffer.readableBytes < 1 := by
    rw [hb, Buffer.readableBytes_eq, Buffer.readable_advance, hr]
    exact Nat.zero_lt_one
  exact if_pos hmore

theorem readLength_short {w : WebSocketConnection} {b : Buffer} {first second : UInt8}
    {rest : Bytes} (hb : w.inputBuffer = b.advance 2) (hr : b.readable = first :: second :: rest)
    (h : rest.length < extension w.payloadLength_) :
    w.readLength = .error (w.waitFor (2 + extension w.payloadLength_) 2) := by
  have hmore : w.inputBuffer.readableBytes = rest.length := by
    rw [hb, Buffer.readableBytes_eq, Buffer.readable_advance, hr]
    rfl
  unfold extension at h ⊢
  unfold readLength
  rw [hmore]
  by_cases h1 : w.payloadLength_ = 126
  · simp only [if_pos h1] at h ⊢
    rw [if_pos h]
    rfl
  · by_cases h2 : w.payloadLength_ = 127
    · simp only [if_neg h1, if_pos h2] at h ⊢
      rw [if_pos h]
      rfl
    · rw [if_neg h1, if_neg h2] at h
      omega

theorem readLength_eq {w : WebSocketConnection} {b : Buffer} {first second : UInt8}
    {rest : Bytes} (hb : w.inputBuffer = b.advance 2) (hr : b.readable = first :: second :: rest)
    (h : extension w.payloadLength_ ≤ rest.length) :
    ∃ w', w.readLength = .ok (2 + extension w.payloadLength_, w') ∧
      w'.inputBuffer = b.advance (2 + extension w.payloadLength_) ∧ w'.isFin_ = w.isFin_ ∧
      w'.opcode_ = w.opcode_ ∧ w'.masked_ = w.masked_ ∧
      w'.payloadLength_ = extendedLength w.payloadLength_ rest ∧ w'.wanted_ = w.wanted_ ∧
      w'.idle = w.idle := by
  have hmore : w.inputBuffer.readableBytes = rest.length := by
    rw [hb, Buffer.readableBytes_eq, Buffer.readable_advance, hr]
    rfl
  have hdrop : b.readable.drop 2 = rest := by rw [hr]; rfl
  have hnum (size : ℕ) (hs : size ≤ rest.length) := readNumber_eq size hb (by rwa [hdrop])
  rw [hdrop] at hnum
  unfold extension at h
  unfold extendedLength extension readLength
  rw [hmore]
  by_cases h1 : w.payloadLength_ = 126
  · simp only [if_pos h1] at h ⊢
    simp only [if_neg (Nat.not_lt.mpr h), hnum 2 h]
    exact ⟨_, rfl, rfl, rfl, rfl, rfl, rfl, rfl, rfl⟩
  · by_cases h2 : w.payloadLength_ = 127
    · simp only [if_neg h1, if_pos h2] at h ⊢
      simp only [if_neg (Nat.not_lt.mpr h), hnum 8 h]
      exact ⟨_, rfl, rfl, rfl, rfl, rfl, rfl, rfl, rfl⟩
    · simp only [if_neg h1, if_neg h2, Nat.add_zero, if_true]
      exact ⟨w, rfl, hb, rfl, rfl, rfl, rfl, rfl, rfl⟩

theorem readMaskKey_short {w : WebSocketConnection} {b : Buffer} {n : ℕ} {bytes : Bytes}
    (hb : w.inputBuffer = b.advance n) (hr : b.readable.drop n = bytes) (hm : w.masked_ = true)
    (h : bytes.length < 4) : w.readMaskKey n = .error (w.waitFor (n + 4) n) := by
  have hmore : w.inputBuffer.readableBytes = bytes.length := by
    rw [hb, Buffer.readableBytes_eq, Buffer.readable_advance, hr]
  rw [readMaskKey, if_pos hm, hmore, if_pos h]
  rfl

theorem readMaskKey_eq {w : WebSocketConnection} {b : Buffer} {n : ℕ} {bytes : Bytes}
    (hb : w.inputBuffer = b.advance n) (hr : b.readable.drop n = bytes) (hm : w.masked_ = true)
    (h : 4 ≤ bytes.length) :
    ∃ w', w.readMaskKey n = .ok w' ∧ w'.inputBuffer = b.advance (n + 4) ∧
      w'.lastHeader = ⟨w.isFin_, w.opcode_, some (bytes.take 4), w.payloadLength_⟩ ∧
      w'.wanted_ = w.wanted_ ∧ w'.idle = w.idle := by
  have hread : (b.advance n).readable = bytes := by rw [Buffer.readable_advance, hr]
  rw [readMaskKey, if_pos hm, hb, Buffer.readableBytes_eq, hread, if_neg (by omega),
    Buffer.read_eq (by rw [hread]; exact h), hread, Buffer.advance_advance]
  exact ⟨_, rfl, rfl, by rw [lastHeader, hm]; rfl, rfl, rfl⟩

theorem readMaskKey_unmasked {w : WebSocketConnection} (n : ℕ) (hm : w.masked_ = false) :
    w.readMaskKey n = .ok w ∧
      w.lastHeader = ⟨w.isFin_, w.opcode_, none, w.payloadLength_⟩ := by
  rw [readMaskKey, lastHeader, hm]
  exact ⟨rfl, rfl⟩

theorem readFirstByte_empty {ws : WebSocketConnection} (hr : ws.inputBuffer.readable = []) :
    ws.readFirstByte = .error (.aborted ws) := by
  have hnone : ws.inputBuffer.readTypedNumber 1 = none := by
    rw [Buffer.readTypedNumber, Buffer.readableBytes_eq, hr]
    rfl
  simp only [readFirstByte, readNumber, hnone]
  rfl

/-- The stages after the second byte, which read what `frontAfter` sees. -/
theorem readRest {w : WebSocketConnection} {b : Buffer} {first second : UInt8} {rest : Bytes}
    (hb : w.inputBuffer = b.advance 2) (hr : b.readable = first :: second :: rest)
    (hf : w.isFin_ = (first.toNat >>> 7 ≠ 0 : Bool)) (ho : w.opcode_ = first.toNat &&& 0x0f)
    (hm : w.masked_ = (second.toNat >>> 7 = 1 : Bool))
    (hl : w.payloadLength_ = second.toNat &&& 0x7f) (hw : w.wanted_ = second.toNat &&& 0x7f) :
    match frontAfter first.toNat second.toNat rest with
    | .short wanted =>
      ∃ ended, (w.readLength >>= fun (readSize, w) => w.readMaskKey readSize) = .error ended ∧
        ended.map abs = .returned { w.idle with
          input := b.readable
          wanted := wanted }
    | .full h size code =>
      ∃ w', (w.readLength >>= fun (readSize, w) => w.readMaskKey readSize) = .ok w' ∧
        w'.inputBuffer = b.advance size ∧ w'.lastHeader = h ∧ w'.wanted_ = code ∧ w'.idle = w.idle
    | _ => False := by
  have htwo : 2 ≤ b.readable.length := by
    rw [hr]
    exact Nat.le_add_left 2 rest.length
  unfold frontAfter
  simp only [← hl]
  by_cases h1 : rest.length < extension w.payloadLength_
  · simp only [if_pos h1]
    refine ⟨_, by rw [readLength_short hb hr h1]; rfl, abs_waitFor _ hb htwo⟩
  · simp only [if_neg h1]
    obtain ⟨w2, hlen, hb2, hf2, ho2, hm2, hl2, hw2, hidle2⟩ := readLength_eq hb hr (by omega)
    have hdrop : b.readable.drop (2 + extension w.payloadLength_) =
        rest.drop (extension w.payloadLength_) := by
      rw [hr, Nat.add_comm]
      rfl
    have hsize : 2 + extension w.payloadLength_ ≤ b.readable.length := by
      rw [hr, List.length_cons, List.length_cons]
      omega
    simp only [hlen, bind, Except.bind]
    by_cases h2 : second.toNat >>> 7 = 1
    · have hmask : w2.masked_ = true := by rw [hm2, hm, decide_eq_true h2]
      simp only [if_pos h2]
      by_cases h3 : rest.length < extension w.payloadLength_ + 4
      · simp only [if_pos h3]
        refine ⟨_, readMaskKey_short hb2 hdrop hmask (by rw [List.length_drop]; omega), ?_⟩
        rw [abs_waitFor _ hb2 hsize, hidle2]
      · simp only [if_neg h3]
        obtain ⟨w', hkey, hb', hl', hw', hidle'⟩ :=
          readMaskKey_eq hb2 hdrop hmask (by rw [List.length_drop]; omega)
        refine ⟨w', hkey, hb', ?_, by rw [hw', hw2, hw, hl], hidle'.trans hidle2⟩
        rw [hl', hf2, ho2, hl2, hf, ho]
    · have hmask : w2.masked_ = false := by rw [hm2, hm, decide_eq_false h2]
      simp only [if_neg h2]
      obtain ⟨hkey, hl'⟩ := readMaskKey_unmasked (2 + extension w.payloadLength_) hmask
      refine ⟨w2, hkey, hb2, ?_, by rw [hw2, hw, hl], hidle2⟩
      rw [hl', hf2, ho2, hl2, hf, ho]

theorem readHeader_front {ws : WebSocketConnection} (h : ws.headerRead_ = false) :
    match front ws.inputBuffer.readable with
    | .nothing => ∃ ended, ws.readHeader = .error ended ∧ ended.map abs = .aborted ws.abs
    | .reserved =>
      ∃ ended, ws.readHeader = .error ended ∧ ended.map abs =
        .returned ({ ws.abs with input := ws.abs.input.drop 1 }.emit .frame).protocolError
    | .short wanted =>
      ∃ ended, ws.readHeader = .error ended ∧
        ended.map abs = .returned { ws.abs with wanted := wanted }
    | .full h size code =>
      ∃ w, ws.readHeader = .ok w ∧ w.inputBuffer = ws.inputBuffer.advance size ∧
        w.lastHeader = h ∧ w.wanted_ = code ∧ w.idle = ws.idle := by
  have hshort (wanted : ℕ) : { ws.idle with
      input := ws.inputBuffer.readable
      wanted := wanted } = { ws.abs with wanted := wanted } := by
    unfold idle abs
    rw [h]
    rfl
  unfold readHeader
  cases hr : ws.inputBuffer.readable with
  | nil => exact ⟨_, by rw [readFirstByte_empty hr]; rfl, rfl⟩
  | cons first rest =>
    by_cases h1 : first.toNat &&& 0x70 ≠ 0
    · have hfront : front (first :: rest) = .reserved := by
        cases rest with
        | nil => exact if_pos h1
        | cons second rest => exact if_pos h1
      have habs := readFirstByte_reserved hr h1
      have hrest : ws.abs.input.drop 1 = rest := by
        change ws.inputBuffer.readable.drop 1 = rest
        rw [hr, List.drop_succ_cons, List.drop_zero]
      rw [hfront]
      dsimp only
      rw [hrest]
      cases hfirst : ws.readFirstByte with
      | ok w =>
        rw [hfirst] at habs
        cases habs
      | error ended =>
        rw [hfirst] at habs
        exact ⟨ended, rfl, Except.error.inj habs⟩
    · obtain ⟨w, hw, hb, hf, ho, hidle⟩ := readFirstByte_eq hr h1
      rw [hw]
      cases rest with
      | nil =>
        have hfront : front [first] = .short 2 := if_neg h1
        rw [hfront]
        refine ⟨_, by simp only [bind, Except.bind, readSecondByte_short hb hr]; rfl, ?_⟩
        rw [abs_waitFor 2 hb (by rw [hr]; exact le_refl 1), hidle, hshort]
      | cons second rest =>
        have hfront : front (first :: second :: rest) = frontAfter first.toNat second.toNat rest :=
          if_neg h1
        obtain ⟨w2, hw2, hb2, hf2, ho2, hm2, hl2, hwant2, hidle2⟩ := readSecondByte_eq hb hr
        have hrest := readRest hb2 hr (hf2.trans hf) (ho2.trans ho) hm2 hl2 hwant2
        rw [hfront]
        simp only [bind, Except.bind, hw2] at hrest ⊢
        cases hcase : frontAfter first.toNat second.toNat rest with
        | nothing =>
          rw [hcase] at hrest
          exact hrest.elim
        | reserved =>
          rw [hcase] at hrest
          exact hrest.elim
        | short wanted =>
          rw [hcase] at hrest
          obtain ⟨ended, he, habs⟩ := hrest
          exact ⟨ended, he, by rw [habs, hidle2, hidle, hshort]⟩
        | full header size code =>
          rw [hcase] at hrest
          obtain ⟨w3, he, hb3, hl3, hw3, hidle3⟩ := hrest
          exact ⟨w3, he, hb3, hl3, hw3, by rw [hidle3, hidle2, hidle]⟩

theorem abs_decodeHeader (ws : WebSocketConnection) :
    ws.decodeHeader.both (Call.map abs) (fun w => (w.lastHeader, w.abs)) = ws.abs.readHeader := by
  unfold Decoder.readHeader
  by_cases h : ws.headerRead_ = true
  · have hhead : ws.abs.header = some ws.lastHeader := if_pos h
    have hsame : { ws with headerRead_ := true } = ws := by rw [← h]
    have hdecode : ws.decodeHeader = .ok { ws with headerRead_ := true } := by
      rw [decodeHeader, if_pos h]
      rfl
    rw [hdecode, hsame, hhead]
    rfl
  · have hfront := readHeader_front (by simpa using h)
    have hhead : ws.abs.header = none := if_neg h
    have hinput : ws.abs.input = ws.inputBuffer.readable := rfl
    have hdecode : ws.decodeHeader = ws.readHeader >>= fun w => .ok { w with headerRead_ := true } := by
      rw [decodeHeader, if_neg h]
      rfl
    rw [hhead, hdecode]
    simp only [Decoder.readFront, hinput]
    cases hcase : front ws.inputBuffer.readable with
    | nothing | reserved | short _ =>
      rw [hcase] at hfront
      obtain ⟨ended, he, habs⟩ := hfront
      rw [he]
      exact congrArg Except.error habs
    | full header size code =>
      rw [hcase] at hfront
      obtain ⟨w, he, hb, rfl, rfl, hidle⟩ := hfront
      have habs : { w with headerRead_ := true }.abs = { ws.abs with
          input := ws.inputBuffer.readable.drop size
          header := some w.lastHeader
          wanted := w.wanted_ } := by
        rw [abs_eq_idle rfl, ← Buffer.readable_advance, ← hb]
        change { w.idle with
          input := w.inputBuffer.readable
          header := some w.lastHeader
          wanted := w.wanted_ } = _
        rw [hidle]
        rfl
      rw [he]
      exact congrArg Except.ok (Prod.ext rfl habs)

/-! ## The frame -/

theorem abs_orAbort {r : Except WebSocketConnection WebSocketConnection}
    {r' : Except Decoder Decoder} (h : r.both abs abs = r') :
    (orAbort r).both (Call.map abs) abs = Decoder.orAbort r' := by
  rw [← h]
  cases r <;> rfl

theorem abs_clearDecodeStatus (ws : WebSocketConnection) :
    ws.clearDecodeStatus.abs = ws.abs.cleared := by
  unfold clearDecodeStatus abs Decoder.cleared
  rfl

theorem abs_decodeBuf (ws : WebSocketConnection) (decodeBuf : Buffer) :
    { ws with decodeBuf_ := decodeBuf }.abs = { ws.abs with assembly := decodeBuf.readable } := rfl

theorem abs_deliver (ws : WebSocketConnection) (isBinary : Bool) :
    (ws.deliver isBinary).both (Call.map abs) abs = ws.abs.deliver isBinary := by
  have hempty : (ws.decodeBuf_.advance ws.decodeBuf_.readable.length).readable = [] := by
    rw [Buffer.readable_advance, List.drop_length]
  unfold deliver Decoder.deliver
  rw [Buffer.readString_eq]
  refine abs_orAbort ((abs_runCallback _ _ _).trans ?_)
  rw [abs_decodeBuf, hempty]
  rfl

theorem abs_fail (ws : WebSocketConnection) :
    (throw (.returned ws.protocolError) : Except (Call WebSocketConnection) WebSocketConnection).both
      (Call.map abs) abs = throw (.returned ws.abs.protocolError) :=
  congrArg (fun d => Except.error (Call.returned d)) (abs_protocolError ws)

theorem abs_cleared (ws : WebSocketConnection) :
    (pure ws.clearDecodeStatus : Except (Call WebSocketConnection) WebSocketConnection).both
      (Call.map abs) abs = pure ws.abs.cleared :=
  congrArg Except.ok (abs_clearDecodeStatus ws)

theorem abs_deliverFragments (ws : WebSocketConnection) :
    ws.deliverFragments.both (Call.map abs) abs = ws.abs.deliverFragments :=
  Except.both_ite Iff.rfl (abs_deliver ws _) rfl

theorem abs_onContinuation (ws : WebSocketConnection) :
    ws.onContinuation.both (Call.map abs) abs = ws.abs.onContinuation ws.isFin_ := by
  refine Except.both_ite Iff.rfl (abs_fail ws) (Except.both_ite Iff.rfl ?_ (abs_cleared ws))
  exact Except.both_bind (abs_deliverFragments ws) fun w _ =>
    abs_cleared { w with fragmentedOpCode_ := 0 }

theorem abs_onData (ws : WebSocketConnection) :
    ws.onData.both (Call.map abs) abs = ws.abs.onData ws.isFin_ ws.opcode_ := by
  refine Except.both_ite Iff.rfl (abs_fail ws) (Except.both_ite Iff.rfl ?_ ?_)
  · exact Except.both_bind (abs_deliver ws _) fun w _ => abs_cleared w
  · exact abs_cleared { ws with fragmentedOpCode_ := ws.opcode_ }

theorem abs_onClose (ws : WebSocketConnection) :
    ws.onClose.both (Call.map abs) abs = ws.abs.onClose := by
  refine Except.both_ite Iff.rfl (congrArg Except.ok ?_) rfl
  rw [abs_emit, ← abs_close]
  rfl

/-- What a control frame's handler sees: the frame's payload behind what was there before. -/
structure Holds (ws : WebSocketConnection) (h : Header) (old payload : Bytes) : Prop where
  header : ws.abs.header = some h
  bytes : ws.abs.assembly = old ++ payload
  length : h.length = payload.length

theorem lastHeader_eq {ws : WebSocketConnection} {h : Header} (hh : ws.abs.header = some h) :
    ws.lastHeader = h := by
  unfold abs at hh
  split at hh
  · exact Option.some.inj hh
  · cases hh

theorem Holds.payloadLength {ws : WebSocketConnection} {h : Header} {old payload : Bytes}
    (hold : ws.Holds h old payload) : ws.payloadLength_ = payload.length := by
  rw [← hold.length, ← lastHeader_eq hold.header]
  rfl

theorem Holds.sent {ws w : WebSocketConnection} {h : Header} {old payload : Bytes}
    (hold : ws.Holds h old payload) (hs : ws.abs.Sent w.abs) : w.Holds h old payload := by
  obtain ⟨output, status, more, hw⟩ := hs
  constructor
  · rw [hw]
    exact hold.header
  · rw [hw]
    exact hold.bytes
  · exact hold.length

theorem Holds.controlPayload {ws : WebSocketConnection} {h : Header} {old payload : Bytes}
    (hold : ws.Holds h old payload) : ws.controlPayload old.length = payload := by
  have hbytes : ws.decodeBuf_.readable = old ++ payload := hold.bytes
  have hlen : ws.decodeBuf_.readable.length = old.length + ws.payloadLength_ := by
    rw [hbytes, hold.payloadLength, List.length_append]
  unfold WebSocketConnection.controlPayload
  rw [← hlen, Buffer.peek_eq_take (le_refl _), List.take_length, hbytes, List.drop_left]

theorem abs_dropControl {ws : WebSocketConnection} {h : Header} {old payload : Bytes}
    (hold : ws.Holds h old payload) :
    (ws.dropControl old.length).both (Call.map abs) abs = pure (ws.abs.dropControl old payload) := by
  unfold dropControl Decoder.dropControl
  by_cases ho : old = []
  · rw [if_neg (by simp [ho]), if_pos ho, abs_cleared]
    have hb : ws.abs.assembly = payload := by
      rw [← List.nil_append payload, ← ho]
      exact hold.bytes
    rw [← hb]
  · have hbytes : ws.decodeBuf_.readable = old ++ payload := hold.bytes
    obtain ⟨b, hb, hr⟩ := ws.decodeBuf_.unwrite_eq ws.payloadLength_
    have hback : b.readable = old := by
      rw [hr, hbytes, hold.payloadLength, List.length_append, Nat.add_sub_cancel, List.take_left]
    rw [if_pos (by simp [ho]), if_neg ho, hb]
    dsimp only
    rw [abs_cleared, abs_decodeBuf, hback]

theorem Holds.orAbort {ws w : WebSocketConnection} {h : Header} {old payload : Bytes}
    (hold : ws.Holds h old payload) {r : Except WebSocketConnection WebSocketConnection}
    {r' : Except Decoder Decoder} (habs : r.both abs abs = r')
    (hs : ws.abs.Sent (Decoder.ended r')) (hw : WebSocketConnection.orAbort r = .ok w) :
    w.Holds h old payload := by
  cases r with
  | error e => cases hw
  | ok w' =>
    cases hw
    rw [← habs] at hs
    exact hold.sent hs

theorem abs_onPing {ws : WebSocketConnection} {h : Header} {old payload : Bytes}
    (hold : ws.Holds h old payload) :
    (ws.onPing old.length).both (Call.map abs) abs = ws.abs.onPing ws.isFin_ old payload := by
  apply Except.both_ite Iff.rfl (abs_fail ws)
  rw [hold.controlPayload]
  have hping := abs_runCallback ws ws.pingCallback_ (.ping payload)
  apply Except.both_bind (abs_orAbort hping)
  intro w hw
  have hw := hold.orAbort hping (Decoder.sent_runCallback _ _ _) hw
  rw [hw.controlPayload]
  have hpong := abs_pong w payload
  change _ = Decoder.orAbort (.ok (w.abs.pong payload)) >>= fun d => pure (d.dropControl old payload)
  exact Except.both_bind (abs_orAbort hpong) fun w' hw' =>
    abs_dropControl (hw.orAbort hpong (Decoder.sent_pong _ _) hw')

theorem abs_onPong {ws : WebSocketConnection} {h : Header} {old payload : Bytes}
    (hold : ws.Holds h old payload) :
    (ws.onPong old.length).both (Call.map abs) abs = ws.abs.onPong ws.isFin_ old payload := by
  apply Except.both_ite Iff.rfl (abs_fail ws)
  rw [hold.controlPayload]
  have hpong := abs_runCallback ws ws.pongCallback_ (.pong payload)
  exact Except.both_bind (abs_orAbort hpong) fun w hw =>
    abs_dropControl (hold.orAbort hpong (Decoder.sent_runCallback _ _ _) hw)

theorem abs_onFrame {ws : WebSocketConnection} {h : Header} {old payload : Bytes}
    (hold : ws.Holds h old payload) :
    (ws.onFrame old.length).both (Call.map abs) abs = ws.abs.onFrame h old payload := by
  have hlast := lastHeader_eq hold.header
  have hop : ws.opcode_ = h.opcode := by rw [← hlast]; rfl
  have hfin : ws.isFin_ = h.isFin := by rw [← hlast]; rfl
  unfold onFrame
  split
  · next hcase =>
    simp only [Decoder.onFrame, ← hop, hcase, ← hfin]
    exact abs_onContinuation ws
  · next hcase =>
    simp only [Decoder.onFrame, ← hop, hcase, ← hfin]
    exact hcase ▸ abs_onData ws
  · next hcase =>
    simp only [Decoder.onFrame, ← hop, hcase, ← hfin]
    exact hcase ▸ abs_onData ws
  · next hcase =>
    simp only [Decoder.onFrame, ← hop, hcase]
    exact abs_onClose ws
  · next hcase =>
    simp only [Decoder.onFrame, ← hop, hcase, ← hfin]
    exact abs_onPing hold
  · next hcase =>
    simp only [Decoder.onFrame, ← hop, hcase, ← hfin]
    exact abs_onPong hold
  · unfold Decoder.onFrame
    rw [← hop]
    split
    all_goals first | exact abs_fail ws | contradiction

/-- The payload stage, as `body` starts: it returns early, or it leaves what `onFrame` looks at. -/
theorem readPayload_cases {ws : WebSocketConnection} {h : Header} (hh : ws.abs.header = some h) :
    (ws.abs.input.length < h.length ∧ ∃ ended, ws.readPayload = .error ended ∧
        ended.map abs = .returned { ws.abs with wanted := h.length }) ∨
    (h.length ≤ ws.abs.input.length ∧ ∃ w, ws.readPayload = .ok w ∧
        (w.emit .frame).abs = ws.abs.take h ∧
        (w.emit .frame).Holds h ws.abs.assembly (h.unmask (ws.abs.input.take h.length))) := by
  have hlast := lastHeader_eq hh
  have hlen : ws.payloadLength_ = h.length := by rw [← hlast]; rfl
  have hmask : (if ws.masked_ then some ws.maskKey_ else none) = h.mask := by rw [← hlast]; rfl
  have hinput : ws.inputBuffer.readableBytes = ws.abs.input.length := Buffer.readableBytes_eq _
  unfold readPayload
  by_cases hmore : ws.abs.input.length < h.length
  · refine .inl ⟨hmore, _, if_pos (by rwa [hinput, hlen]), ?_⟩
    rw [← hlen]
    rfl
  · refine .inr ⟨by omega, ?_⟩
    have hfit : ws.payloadLength_ ≤ ws.inputBuffer.readable.length := by
      rw [← Buffer.readableBytes_eq, hinput, hlen]
      omega
    rw [if_neg (by rwa [hinput, hlen]), Buffer.writeFrom_eq _ hfit]
    have hbuf : (if ws.masked_ then (ws.decodeBuf_.write (ws.inputBuffer.readable.take
          ws.payloadLength_)).unmaskFrom ws.decodeBuf_.readableBytes ws.maskKey_
        else ws.decodeBuf_.write (ws.inputBuffer.readable.take ws.payloadLength_)).readable =
        ws.abs.assembly ++ h.unmask (ws.abs.input.take h.length) := by
      rw [hlen]
      unfold Header.unmask
      rw [← hmask]
      by_cases hm : ws.masked_ = true
      · rw [if_pos hm, if_pos hm, Buffer.readableBytes_eq,
          Buffer.readable_unmaskFrom _ (by simp), Buffer.readable_write, List.take_left,
          List.drop_left]
        rfl
      · rw [if_neg hm, if_neg hm, Buffer.readable_write]
        rfl
    have hdrop : (ws.inputBuffer.advance ws.payloadLength_).readable =
        ws.abs.input.drop h.length := by
      rw [Buffer.readable_advance, hlen]
      rfl
    refine ⟨_, rfl, ?_, ?_, hbuf, ?_⟩
    · unfold Decoder.take
      rw [← hbuf, ← hdrop]
      rfl
    · exact hh
    · rw [Header.length_unmask, List.length_take]
      omega

theorem abs_decodeBody {ws : WebSocketConnection} {h : Header} (hh : ws.abs.header = some h) :
    ws.decodeBody.both (Call.map abs) abs = ws.abs.body h := by
  unfold decodeBody Decoder.body
  obtain ⟨hmore, ended, he, habs⟩ | ⟨hmore, w, hw, habs, hold⟩ := readPayload_cases hh
  · rw [if_pos hmore, he]
    exact congrArg Except.error habs
  · rw [if_neg (by omega), hw, Buffer.readableBytes_eq, ← habs]
    exact abs_onFrame hold

/-! ## The functions -/

theorem headerRead_decodeHeader {ws w : WebSocketConnection} (h : ws.decodeHeader = .ok w) :
    w.headerRead_ = true := by
  unfold decodeHeader at h
  by_cases hread : ws.headerRead_ = true
  · rw [if_pos hread] at h
    cases h
    rfl
  · rw [if_neg hread] at h
    cases hr : ws.readHeader with
    | error ended =>
      rw [hr] at h
      cases h
    | ok w' =>
      rw [hr] at h
      cases h
      rfl

/-- **One activation.** -/
theorem abs_decodeCall (ws : WebSocketConnection) :
    ws.decodeCall.map abs = ws.abs.activate := by
  have hread : (ws.decodeHeader >>= decodeBody).both (Call.map abs) abs = ws.abs.read := by
    refine Except.both_bind (abs_decodeHeader ws) fun w hw => abs_decodeBody ?_
    exact if_pos (headerRead_decodeHeader hw)
  unfold decodeCall Decoder.activate
  rw [← hread]
  cases ws.decodeHeader >>= decodeBody with
  | error ended => rfl
  | ok w =>
    have hinput : 0 < w.inputBuffer.readableBytes ↔ ¬ w.abs.input = [] := by
      rw [Buffer.readableBytes_eq, List.length_pos_iff]
      rfl
    by_cases hmore : w.abs.input = []
    · simp only [Except.both_ok, if_pos hmore, if_neg (fun h => hinput.mp h hmore)]
      rfl
    · simp only [Except.both_ok, if_neg hmore, if_pos (hinput.mpr hmore)]
      rfl

theorem abs_decode (ws : WebSocketConnection) : ws.decode.map abs = ws.abs.decode := by
  unfold decode decodeWithin Decoder.decode
  rw [Call.iterate_map abs abs_decodeCall, Buffer.readableBytes_eq]
  rfl

theorem abs_receive (ws : WebSocketConnection) (bytes : Bytes) :
    (ws.receive bytes).abs = ws.abs.receive bytes := by
  unfold Decoder.receive
  change { ws.abs with input := (ws.inputBuffer.write bytes).readable } = _
  rw [Buffer.readable_write]
  rfl

/-- **`parse`** after the handshake. -/
theorem abs_parse (httpParserExecute : WebSocketConnection → Bytes → ℕ × WebSocketConnection)
    (ws : WebSocketConnection) (h : ws.status_ ≠ .INITIAL) :
    (ws.parse httpParserExecute).map abs = ws.abs.parse := by
  unfold parse Decoder.parse
  have hstatus : ws.abs.status = ws.status_ := rfl
  have hinput : ws.inputBuffer.readableBytes = ws.abs.input.length := Buffer.readableBytes_eq _
  have hwanted : ws.abs.wanted = ws.wanted_ := rfl
  rw [hinput, hwanted, hstatus]
  by_cases hshort : ws.abs.input.length < ws.wanted_
  · rw [if_pos hshort, if_pos hshort]
    rfl
  · rw [if_neg hshort, if_neg hshort]
    cases hs : ws.status_ with
    | INITIAL => exact absurd hs h
    | HANDSHAKE => rfl
    | CONNECT => exact abs_decode ws
    | CLOSING => exact abs_decode ws
    | CLOSED => rfl

end WebSocketConnection
end WsEngine
