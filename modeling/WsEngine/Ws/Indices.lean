import WsEngine.Buffer.Operations
import WsEngine.Ws.Session

/-! # How far the buffer indices go

`readIndex_` and `writeIndex_` are `int`, while the sizes that the buffers grow by are `size_t` and a
payload may be announced with 64 bits. Nothing bounds what is held: an incomplete frame stays in
`inputBuffer` while its bytes come in, fragments stay in `decodeBuf_`, and the write index only goes
back when an append moves the bytes that are held to the front. So the indices are in range exactly as
long as no append reaches `2^31` from where it starts. -/
set_option autoImplicit false

namespace WsEngine

/-! ## Reads and activations -/

namespace Session

def kMinWritableSize : ℕ := 512

/-- `on_uv_alloc`, the bytes that arrive and `updateWriteIndex` in `on_uv_read`. -/
def onRead (s : Session) (bytes : Bytes) : Except WebSocketConnection Session :=
  match s.ws.inputBuffer.receive kMinWritableSize bytes with
  | some inputBuffer =>
    let ws := { s.ws with inputBuffer := inputBuffer }
    .ok ⟨ws, ws.Decodes⟩
  | none => .error s.ws

/-- As `step`, with the read as the TCP connection does it. -/
def readStep (s : Session) : SessionEvent → Except WebSocketConnection Session
  | .receive bytes => s.onRead bytes
  | .decode => s.step .decode
  | .call c => s.step (.call c)

/-- A read brings something, and no more than there is room for. -/
def Readable (s : Session) : SessionEvent → Prop
  | .receive bytes => s.Possible (.receive bytes) ∧
    bytes.length ≤ (s.ws.inputBuffer.ensureSpace kMinWritableSize).1
  | .decode => s.Possible .decode
  | .call c => s.Possible (.call c)

instance (s : Session) : (e : SessionEvent) → Decidable (s.Readable e)
  | .receive _ => inferInstanceAs (Decidable (_ ∧ _))
  | .decode => inferInstanceAs (Decidable (s.Possible .decode))
  | .call c => inferInstanceAs (Decidable (s.Possible (.call c)))

def reading : EventSystem Session SessionEvent WebSocketConnection := ⟨Readable, readStep⟩

instance (s : Session) (e : SessionEvent) : Decidable (reading.enabled s e) :=
  inferInstanceAs (Decidable (s.Readable e))

end Session

/-! ## The specification -/

namespace WebSocketConnection

def InRange (ws : WebSocketConnection) : Prop := ws.inputBuffer.InRange ∧ ws.decodeBuf_.InRange

/-- The connection within `decode`, when the payload was moved and nothing was taken out yet. -/
def moved (ws : WebSocketConnection) : Option WebSocketConnection :=
  match ws.decodeHeader >>= readPayload with
  | .ok ws => some ws
  | .error _ => none

/-- No byte of the frame ahead goes to `2^31`. -/
def RoomAhead (ws : WebSocketConnection) : Prop :=
  ∀ t, ws.abs.ahead = some t → ws.decodeBuf_.start t.header.length + t.header.length < 2 ^ 31

end WebSocketConnection

namespace Session

/-- The indices are in range whenever they have changed. -/
def KeepsRange (s : Session) (e : SessionEvent) : Prop :=
  (s.readStep e).Ends (fun s' => s'.ws.InRange) (fun ws => ws.InRange) ∧
    (e = .decode → ∀ ws, s.ws.moved = some ws → ws.InRange)

/-- What is appended ends below `2^31`. -/
def Room (s : Session) : SessionEvent → Prop
  | .receive bytes => s.ws.inputBuffer.start kMinWritableSize + bytes.length < 2 ^ 31
  | .decode => s.ws.RoomAhead
  | .call _ => True

end Session

namespace WebSocketConnection

/-! ## Stages that append nothing -/

/-- The write index of the input is where it was, and so is all of `decodeBuf_`. -/
structure Quiet (ws w : WebSocketConnection) : Prop where
  input : w.inputBuffer.writeIndex_ = ws.inputBuffer.writeIndex_
  decode : w.decodeBuf_ = ws.decodeBuf_

theorem Quiet.refl (ws : WebSocketConnection) : ws.Quiet ws := ⟨rfl, rfl⟩

theorem Quiet.trans {ws w w' : WebSocketConnection} (h : ws.Quiet w) (h' : w.Quiet w') :
    ws.Quiet w' := ⟨h'.input.trans h.input, h'.decode.trans h.decode⟩

theorem quiet_bind {ws : WebSocketConnection} {α β : Type} {state : α → WebSocketConnection}
    {state' : β → WebSocketConnection} {r : Except (Call WebSocketConnection) α}
    {k : α → Except (Call WebSocketConnection) β} (h : Call.Leaves Quiet ws state r)
    (hk : ∀ a, Call.Leaves Quiet (state a) state' (k a)) : Call.Leaves Quiet ws state' (r >>= k) :=
  Call.Leaves.bind (fun _ _ _ h h' => h.trans h') h hk

theorem quiet_waitFor (ws : WebSocketConnection) (wanted readSize : ℕ) :
    ws.Quiet (ws.waitFor wanted readSize).state := by
  unfold waitFor
  cases hb : ws.inputBuffer.unread readSize with
  | none => exact .refl ws
  | some b =>
    refine ⟨?_, rfl⟩
    unfold Buffer.unread at hb
    split at hb
    · cases hb
      rfl
    · cases hb

theorem quiet_readNumber (ws : WebSocketConnection) (size : ℕ) :
    Call.Leaves Quiet ws Prod.snd (ws.readNumber size) := by
  unfold readNumber
  cases hb : ws.inputBuffer.readTypedNumber size with
  | none => exact .error (.refl ws)
  | some p =>
    refine .ok ⟨?_, rfl⟩
    unfold Buffer.readTypedNumber at hb
    split at hb
    · obtain ⟨b, hr, rfl⟩ := Option.map_eq_some_iff.mp hb
      exact Buffer.writeIndex_retrieve hr
    · cases hb

theorem quiet_readFirstByte (ws : WebSocketConnection) :
    Call.Leaves Quiet ws id ws.readFirstByte := by
  refine quiet_bind (quiet_readNumber ws 1) fun p => ?_
  dsimp only
  split
  · exact .error ⟨rfl, rfl⟩
  · exact .ok ⟨rfl, rfl⟩

theorem quiet_readSecondByte (ws : WebSocketConnection) :
    Call.Leaves Quiet ws id ws.readSecondByte := by
  unfold readSecondByte
  split
  · exact .error (quiet_waitFor ws 2 1)
  · exact quiet_bind (quiet_readNumber ws 1) fun _ => .ok ⟨rfl, rfl⟩

theorem quiet_readLength (ws : WebSocketConnection) :
    Call.Leaves Quiet ws Prod.snd ws.readLength := by
  unfold readLength
  split
  · split
    · exact .error (quiet_waitFor ws 4 2)
    · exact quiet_bind (quiet_readNumber ws 2) fun _ => .ok ⟨rfl, rfl⟩
  · split
    · split
      · exact .error (quiet_waitFor ws 10 2)
      · exact quiet_bind (quiet_readNumber ws 8) fun _ => .ok ⟨rfl, rfl⟩
    · exact .ok (.refl ws)

theorem quiet_readMaskKey (ws : WebSocketConnection) (readSize : ℕ) :
    Call.Leaves Quiet ws id (ws.readMaskKey readSize) := by
  unfold readMaskKey
  split
  · split
    · exact .error (quiet_waitFor ws (readSize + 4) readSize)
    · cases hb : ws.inputBuffer.read 4 with
      | none => exact .error (.refl ws)
      | some p => exact .ok ⟨Buffer.writeIndex_read hb, rfl⟩
  · exact .ok (.refl ws)

theorem quiet_decodeHeader (ws : WebSocketConnection) :
    Call.Leaves Quiet ws id ws.decodeHeader := by
  unfold decodeHeader
  split
  · exact .ok ⟨rfl, rfl⟩
  · have hheader : Call.Leaves Quiet ws id ws.readHeader :=
      quiet_bind (quiet_readFirstByte ws) fun w => quiet_bind (quiet_readSecondByte w) fun w' =>
        quiet_bind (quiet_readLength w') fun p => quiet_readMaskKey p.2 p.1
    exact quiet_bind hheader fun _ => .ok ⟨rfl, rfl⟩

/-! ## Calls of the application -/

theorem quiet_sendOutput (ws : WebSocketConnection) (body : Bytes) :
    (ws.sendOutput body).Ends ws.Quiet ws.Quiet := by
  unfold sendOutput
  dsimp only
  split
  · exact .ok ⟨rfl, rfl⟩
  · exact .error (.refl ws)

theorem quiet_writeHeader (ws : WebSocketConnection) (payLoadLength opcode : ℕ) :
    (ws.writeHeader payLoadLength opcode).Ends ws.Quiet ws.Quiet := by
  unfold writeHeader
  split
  · exact .ok ⟨rfl, rfl⟩
  · exact .error (.refl ws)

theorem quiet_andThen {ws : WebSocketConnection} {r : Except WebSocketConnection WebSocketConnection}
    {k : WebSocketConnection → Except WebSocketConnection WebSocketConnection}
    (h : r.Ends ws.Quiet ws.Quiet) (hk : ∀ w, (k w).Ends w.Quiet w.Quiet) :
    (r >>= k).Ends ws.Quiet ws.Quiet :=
  h.bind fun w hw => (hk w).mono (fun _ h' => hw.trans h') fun _ h' => hw.trans h'

theorem quiet_sendControl (ws : WebSocketConnection) (control : ℕ) (message : Bytes) :
    (ws.sendControl control message).Ends ws.Quiet ws.Quiet := by
  have hput (outputBuf : Buffer) : ws.Quiet { ws with outputBuf_ := outputBuf } := ⟨rfl, rfl⟩
  exact (quiet_sendOutput _ []).mono (fun _ h => (hput _).trans h) fun _ h => (hput _).trans h

theorem quiet_close (ws : WebSocketConnection) (code : StatusCode) : ws.Quiet (ws.close code) := by
  unfold close
  dsimp only
  split <;> exact ⟨rfl, rfl⟩

theorem quiet_protocolError (ws : WebSocketConnection) : ws.Quiet ws.protocolError := by
  have hemit : ws.Quiet (ws.emit .protocolError) := ⟨rfl, rfl⟩
  exact hemit.trans (quiet_close _ _)

theorem quiet_pong (ws : WebSocketConnection) (message : Bytes) :
    (ws.pong message).Ends ws.Quiet ws.Quiet := by
  unfold pong
  split
  · exact .ok (quiet_protocolError ws)
  · exact quiet_sendControl _ _ _

theorem quiet_call (ws : WebSocketConnection) (c : ApiCall) :
    (ws.call c).Ends ws.Quiet ws.Quiet := by
  cases c with
  | sendMove data isBinary =>
    change (ws.sendMove data isBinary).Ends _ _
    unfold sendMove
    split
    · exact quiet_andThen (quiet_writeHeader _ _ _) fun w => quiet_sendOutput w data
    · exact .error (.refl ws)
  | sendMessage data isBinary =>
    refine quiet_andThen (quiet_writeHeader ws _ _) fun w => ?_
    have hput (outputBuf : Buffer) : w.Quiet { w with outputBuf_ := outputBuf } := ⟨rfl, rfl⟩
    exact (quiet_sendOutput _ []).mono (fun _ h => (hput _).trans h) fun _ h => (hput _).trans h
  | ping message =>
    change (ws.ping message).Ends _ _
    unfold ping
    split
    · exact .ok (quiet_close _ _)
    · exact quiet_sendControl _ _ _
  | pong message => exact quiet_pong ws message
  | close code => exact .ok (quiet_close ws code)

theorem quiet_calls (ws : WebSocketConnection) (cs : List ApiCall) :
    (ws.calls cs).Ends ws.Quiet ws.Quiet := by
  induction cs generalizing ws with
  | nil => exact .ok (.refl ws)
  | cons c cs ih => exact quiet_andThen (quiet_call ws c) ih

theorem quiet_runCallback (ws : WebSocketConnection) (callback : Option Callback) (effect : Effect) :
    (ws.runCallback callback effect).Ends ws.Quiet ws.Quiet := by
  cases callback with
  | none => exact .ok (.refl ws)
  | some answer =>
    have hemit : ws.Quiet (ws.emit effect) := ⟨rfl, rfl⟩
    exact (quiet_calls _ _).mono (fun _ h => hemit.trans h) fun _ h => hemit.trans h

/-! ## What is done with a frame -/

/-- No write index has gone up. -/
structure Behind (ws w : WebSocketConnection) : Prop where
  input : w.inputBuffer.writeIndex_ = ws.inputBuffer.writeIndex_
  decode : w.decodeBuf_.writeIndex_ ≤ ws.decodeBuf_.writeIndex_

theorem Behind.trans {ws w w' : WebSocketConnection} (h : ws.Behind w) (h' : w.Behind w') :
    ws.Behind w' := ⟨h'.input.trans h.input, le_trans h'.decode h.decode⟩

theorem Quiet.behind {ws w : WebSocketConnection} (h : ws.Quiet w) : ws.Behind w :=
  ⟨h.input, by rw [h.decode]⟩

theorem Behind.inRange {ws w : WebSocketConnection} (h : ws.Behind w) (hr : ws.InRange) :
    w.InRange := by
  obtain ⟨hinput, hdecode⟩ := hr
  rw [Buffer.inRange_iff] at hinput hdecode
  constructor
  · rw [Buffer.inRange_iff, h.input]
    exact hinput
  · rw [Buffer.inRange_iff]
    exact Nat.lt_of_le_of_lt h.decode hdecode

theorem behind_bind {ws : WebSocketConnection} {α β : Type} {state : α → WebSocketConnection}
    {state' : β → WebSocketConnection} {r : Except (Call WebSocketConnection) α}
    {k : α → Except (Call WebSocketConnection) β} (h : Call.Leaves Behind ws state r)
    (hk : ∀ a, Call.Leaves Behind (state a) state' (k a)) :
    Call.Leaves Behind ws state' (r >>= k) :=
  Call.Leaves.bind (fun _ _ _ h h' => h.trans h') h hk

theorem behind_orAbort {ws : WebSocketConnection}
    {r : Except WebSocketConnection WebSocketConnection} (h : r.Ends ws.Quiet ws.Quiet) :
    Call.Leaves Behind ws id (orAbort r) :=
  (h.mono (fun _ => Quiet.behind) fun _ => Quiet.behind).mapError fun _ h => h

theorem behind_runCallback (ws : WebSocketConnection) (callback : Option Callback)
    (effect : Effect) : Call.Leaves Behind ws id (orAbort (ws.runCallback callback effect)) :=
  behind_orAbort (quiet_runCallback ws callback effect)

theorem behind_refused (ws : WebSocketConnection) :
    Call.Leaves Behind ws id
      (throw (.returned ws.protocolError) : Except (Call WebSocketConnection) WebSocketConnection) :=
  .error (quiet_protocolError ws).behind

theorem behind_deliver (ws : WebSocketConnection) (isBinary : Bool) :
    Call.Leaves Behind ws id (ws.deliver isBinary) := by
  unfold deliver
  cases hb : ws.decodeBuf_.readString with
  | none => exact .error (Quiet.refl ws).behind
  | some p =>
    obtain ⟨b, hr, rfl⟩ := Option.map_eq_some_iff.mp hb
    have htaken : ws.Behind { ws with decodeBuf_ := b } :=
      ⟨rfl, le_of_eq (Buffer.writeIndex_retrieve hr)⟩
    exact (behind_runCallback _ _ _).mono (fun _ h => htaken.trans h) fun _ h => htaken.trans h

theorem behind_onContinuation (ws : WebSocketConnection) :
    Call.Leaves Behind ws id ws.onContinuation := by
  have hfragments : Call.Leaves Behind ws id ws.deliverFragments := by
    unfold deliverFragments
    split
    · exact behind_deliver ws _
    · exact .ok (Quiet.refl ws).behind
  unfold onContinuation
  split
  · exact behind_refused ws
  · split
    · exact behind_bind hfragments fun _ => .ok ⟨rfl, le_refl _⟩
    · exact .ok ⟨rfl, le_refl _⟩

theorem behind_onData (ws : WebSocketConnection) : Call.Leaves Behind ws id ws.onData := by
  unfold onData
  split
  · exact behind_refused ws
  · split
    · exact behind_bind (behind_deliver ws _) fun _ => .ok ⟨rfl, le_refl _⟩
    · exact .ok ⟨rfl, le_refl _⟩

theorem behind_onClose (ws : WebSocketConnection) : Call.Leaves Behind ws id ws.onClose := by
  unfold onClose
  split
  · have hclosed : (ws.close .NORMAL_CLOSE).Behind
        ({ ws.close .NORMAL_CLOSE with status_ := .CLOSED }.emit .closeTcp) := ⟨rfl, le_refl _⟩
    exact .ok ((quiet_close ws _).behind.trans hclosed)
  · exact .ok (Quiet.refl ws).behind

theorem behind_dropControl (ws : WebSocketConnection) (originSize : ℕ) :
    Call.Leaves Behind ws id (ws.dropControl originSize) := by
  unfold dropControl
  split
  · cases hb : ws.decodeBuf_.unwrite ws.payloadLength_ with
    | none => exact .error (Quiet.refl ws).behind
    | some b => exact .ok ⟨rfl, (Buffer.unwrite_back hb).1⟩
  · exact .ok ⟨rfl, le_refl _⟩

theorem behind_onFrame (ws : WebSocketConnection) (originSize : ℕ) :
    Call.Leaves Behind ws id (ws.onFrame originSize) := by
  unfold onFrame
  split
  · exact behind_onContinuation ws
  · exact behind_onData ws
  · exact behind_onData ws
  · exact behind_onClose ws
  · unfold onPing
    split
    · exact behind_refused ws
    · exact behind_bind (behind_runCallback ws _ _) fun w =>
        behind_bind (behind_orAbort (quiet_pong _ _)) fun w' => behind_dropControl w' originSize
  · unfold onPong
    split
    · exact behind_refused ws
    · exact behind_bind (behind_runCallback ws _ _) fun w => behind_dropControl w originSize
  · exact behind_refused ws

/-! ## One activation -/

/-- The header stage has read `h`, and the input is what `d` says. -/
theorem decodeHeader_ok {ws w : WebSocketConnection} (h : ws.decodeHeader = .ok w) :
    ws.abs.readHeader = .ok (w.lastHeader, w.abs) ∧ w.abs.header = some w.lastHeader ∧
      ws.Quiet w := by
  have habs := abs_decodeHeader ws
  have hquiet := quiet_decodeHeader ws
  rw [h] at habs hquiet
  cases hquiet with
  | ok hq => exact ⟨habs.symm, if_pos (headerRead_decodeHeader h), hq⟩

/-- A header is read and all of its payload is there: then the frame is ahead. -/
theorem exists_ahead_of_header {ws w : WebSocketConnection} (h : ws.decodeHeader = .ok w)
    (hall : w.payloadLength_ ≤ w.inputBuffer.readableBytes) :
    ∃ t, ws.abs.ahead = some t ∧ t.header.length = w.payloadLength_ := by
  obtain ⟨hread, -, -⟩ := decodeHeader_ok h
  have hahead : ws.abs.ahead = some ⟨w.lastHeader,
      w.lastHeader.unmask (w.abs.input.take w.lastHeader.length), w.abs.take w.lastHeader⟩ := by
    unfold Decoder.ahead
    rw [hread]
    refine if_neg (Nat.not_lt_of_le ?_)
    rw [Buffer.readableBytes_eq] at hall
    exact hall
  exact ⟨_, hahead, rfl⟩

theorem readPayload_ok {ws w : WebSocketConnection} (h : ws.readPayload = .ok w) :
    w.inputBuffer.writeIndex_ = ws.inputBuffer.writeIndex_ ∧
      w.decodeBuf_.writeIndex_ = ws.decodeBuf_.start ws.payloadLength_ + ws.payloadLength_ := by
  unfold readPayload at h
  split at h
  · cases h
  · cases hb : ws.decodeBuf_.writeFrom ws.inputBuffer ws.payloadLength_ with
    | none =>
      rw [hb] at h
      cases h
    | some p =>
      rw [hb] at h
      cases h
      obtain ⟨hdecode, hinput⟩ := Buffer.writeIndex_writeFrom_eq hb
      refine ⟨hinput, ?_⟩
      dsimp only
      split
      · exact hdecode
      · exact hdecode

theorem readPayload_error {ws : WebSocketConnection} {ended : Call WebSocketConnection}
    (h : ws.readPayload = .error ended) : ws.Quiet ended.state := by
  unfold readPayload at h
  split at h
  · cases h
    exact ⟨rfl, rfl⟩
  · split at h
    · cases h
    · cases h
      exact .refl ws

theorem moved_none {ws : WebSocketConnection} (h : ws.moved = none) : ws.abs.ahead = none := by
  unfold moved at h
  cases hw : ws.decodeHeader with
  | error ended =>
    have habs := abs_decodeHeader ws
    rw [hw] at habs
    exact Decoder.ahead_none habs.symm
  | ok w =>
    obtain ⟨hread, hheader, -⟩ := decodeHeader_ok hw
    obtain ⟨hmore, -⟩ | ⟨-, w', hw', -⟩ := readPayload_cases hheader
    · exact (Decoder.ahead_waits hread hmore).1
    · rw [hw] at h
      simp only [bind, Except.bind, hw'] at h
      cases h

theorem moved_some {ws w : WebSocketConnection} (h : ws.moved = some w) :
    ∃ t, ws.abs.ahead = some t ∧ w.inputBuffer.writeIndex_ = ws.inputBuffer.writeIndex_ ∧
      w.decodeBuf_.writeIndex_ = ws.decodeBuf_.start t.header.length + t.header.length := by
  unfold moved at h
  cases hw : ws.decodeHeader with
  | error ended =>
    rw [hw] at h
    cases h
  | ok w' =>
    rw [hw] at h
    simp only [bind, Except.bind] at h
    cases hp : w'.readPayload with
    | error ended =>
      rw [hp] at h
      cases h
    | ok w'' =>
      rw [hp] at h
      cases h
      obtain ⟨-, -, hquiet⟩ := decodeHeader_ok hw
      obtain ⟨hinput, hdecode⟩ := readPayload_ok hp
      have hall : w'.payloadLength_ ≤ w'.inputBuffer.readableBytes := by
        unfold readPayload at hp
        split at hp
        · cases hp
        · next hle => exact Nat.le_of_not_lt hle
      obtain ⟨t, hahead, hlength⟩ := exists_ahead_of_header hw hall
      refine ⟨t, hahead, hinput.trans hquiet.input, ?_⟩
      rw [hdecode, hquiet.decode, hlength]

/-- Behind the append of an activation nothing goes up any more. -/
theorem decodeCall_behind (ws : WebSocketConnection) :
    (ws.moved = none ∧ ws.Behind ws.decodeCall.state) ∨
      ∃ w, ws.moved = some w ∧ w.Behind ws.decodeCall.state := by
  unfold moved decodeCall
  cases hw : ws.decodeHeader with
  | error ended =>
    have hquiet := quiet_decodeHeader ws
    rw [hw] at hquiet
    cases hquiet with
    | error hq => exact .inl ⟨rfl, hq.behind⟩
  | ok w =>
    obtain ⟨-, -, hquiet⟩ := decodeHeader_ok hw
    simp only [bind, Except.bind, decodeBody]
    cases hp : w.readPayload with
    | error ended => exact .inl ⟨rfl, (hquiet.trans (readPayload_error hp)).behind⟩
    | ok w' =>
      refine .inr ⟨w', rfl, ?_⟩
      have hemit : w'.Behind (w'.emit .frame) := ⟨rfl, le_refl _⟩
      have hframe := behind_onFrame (w'.emit .frame) w.decodeBuf_.readableBytes
      cases hr : (w'.emit .frame).onFrame w.decodeBuf_.readableBytes with
      | error ended =>
        rw [hr] at hframe
        simp only [hr]
        cases hframe with
        | error h => exact hemit.trans h
      | ok w'' =>
        rw [hr] at hframe
        simp only [hr]
        cases hframe with
        | ok h =>
          have hbehind : w'.Behind w'' := hemit.trans h
          split
          · exact hbehind
          · exact hbehind

theorem moved_inRange {ws w : WebSocketConnection} (hr : ws.InRange) (h : ws.moved = some w) :
    w.InRange ↔ ws.RoomAhead := by
  obtain ⟨t, ht, hinput, hdecode⟩ := moved_some h
  have hsame : w.inputBuffer.InRange := by
    rw [Buffer.inRange_iff, hinput]
    exact hr.1.2
  unfold InRange RoomAhead
  rw [Buffer.inRange_iff w.decodeBuf_, hdecode, ht]
  constructor
  · rintro ⟨-, hroom⟩ t' ht'
    cases ht'
    exact hroom
  · intro hroom
    exact ⟨hsame, hroom t rfl⟩

end WebSocketConnection

namespace Session

/-! ## Runs -/

theorem keepsRange_receive {s : Session} {bytes : Bytes} (hr : s.ws.InRange)
    (possible : s.Readable (.receive bytes)) :
    s.KeepsRange (.receive bytes) ↔ s.Room (.receive bytes) := by
  obtain ⟨b, hb, -, hindex⟩ := Buffer.exists_receive possible.2
  rw [Buffer.writeIndex_ensureSpace_eq] at hindex
  have hstep : s.readStep (.receive bytes) = .ok ⟨{ s.ws with inputBuffer := b },
      { s.ws with inputBuffer := b }.Decodes⟩ := by
    change s.onRead bytes = _
    unfold onRead
    rw [hb]
  change _ ↔ s.ws.inputBuffer.start kMinWritableSize + bytes.length < 2 ^ 31
  rw [KeepsRange, hstep, Except.ends_ok, ← hindex, ← Buffer.inRange_iff]
  constructor
  · rintro ⟨hafter, -⟩
    exact hafter.1
  · intro hroom
    refine ⟨⟨hroom, hr.2⟩, fun h => ?_⟩
    cases h

theorem keepsRange_decode {s : Session} (hr : s.ws.InRange) :
    s.KeepsRange .decode ↔ s.Room .decode := by
  have hafter {w : WebSocketConnection} (hw : w.Behind s.ws.decodeCall.state) (hin : w.InRange) :
      (s.readStep .decode).Ends (fun s' => s'.ws.InRange) fun ws => ws.InRange := by
    change (afterCall s.ws.decodeCall).Ends _ _
    have hstate := hw.inRange hin
    cases hc : s.ws.decodeCall with
    | returned w =>
      rw [hc] at hstate
      exact .ok hstate
    | again w =>
      rw [hc] at hstate
      exact .ok hstate
    | aborted w =>
      rw [hc] at hstate
      exact .error hstate
  obtain ⟨hnone, hbehind⟩ | ⟨w, hsome, hbehind⟩ := s.ws.decodeCall_behind
  · have hroom : s.ws.RoomAhead := by
      intro t ht
      rw [WebSocketConnection.moved_none hnone] at ht
      cases ht
    refine iff_of_true ⟨hafter hbehind hr, fun _ w hw => ?_⟩ hroom
    rw [hnone] at hw
    cases hw
  · have hiff := WebSocketConnection.moved_inRange hr hsome
    constructor
    · rintro ⟨-, hmoved⟩
      exact hiff.mp (hmoved rfl w hsome)
    · intro hroom
      have hin := hiff.mpr hroom
      refine ⟨hafter hbehind hin, fun _ w' hw' => ?_⟩
      cases hsome.symm.trans hw'
      exact hin

theorem keepsRange_call {s : Session} (hr : s.ws.InRange) (c : ApiCall) :
    s.KeepsRange (.call c) := by
  constructor
  · change ((s.ws.call c).map fun ws => (⟨ws, false⟩ : Session)).Ends _ _
    have hquiet := WebSocketConnection.quiet_call s.ws c
    cases hc : s.ws.call c with
    | ok w =>
      rw [hc] at hquiet
      exact .ok ((Except.ends_ok.mp hquiet).behind.inRange hr)
    | error w =>
      rw [hc] at hquiet
      exact .error ((Except.ends_error.mp hquiet).behind.inRange hr)
  · intro h
    cases h

/-- **One step** keeps the indices in range iff what it appends has room below `2^31`. -/
theorem keepsRange_iff {s : Session} {e : SessionEvent} (hr : s.ws.InRange)
    (possible : s.Readable e) : s.KeepsRange e ↔ s.Room e := by
  cases e with
  | receive bytes => exact keepsRange_receive hr possible
  | decode => exact keepsRange_decode hr
  | call c => exact iff_of_true (keepsRange_call hr c) trivial

/-- **Index range.** -/
theorem indices_inRange_iff {ws : WebSocketConnection} (hstart : ws.InRange) {es : List SessionEvent}
    (legal : reading.Legal (start ws) es) :
    (∀ p ∈ reading.steps (start ws) es, p.1.KeepsRange p.2) ↔
      ∀ p ∈ reading.steps (start ws) es, p.1.Room p.2 := by
  refine reading.forall_steps_iff (fun s => s.ws.InRange) Room KeepsRange ?_
    (fun _ _ hr possible => keepsRange_iff hr possible) hstart legal
  intro s e s' hr possible hroom hstep
  have hkeeps := ((keepsRange_iff hr possible).mpr hroom).1
  have hok : s.readStep e = .ok s' := hstep
  rwa [hok, Except.ends_ok] at hkeeps

/-- A frame of one byte and a ping. -/
theorem indices_inRange_iff_frame :
    (WebSocketConnection.connected none none none).InRange ∧
      reading.Legal (start (.connected none none none))
        [.receive [0x82, 1, 7], .decode, .call (.ping [])] ∧
      ((∀ p ∈ reading.steps (start (.connected none none none))
            [.receive [0x82, 1, 7], .decode, .call (.ping [])], p.1.KeepsRange p.2) ↔
        ∀ p ∈ reading.steps (start (.connected none none none))
            [.receive [0x82, 1, 7], .decode, .call (.ping [])], p.1.Room p.2) := by
  have hstart : (WebSocketConnection.connected none none none).InRange :=
    ⟨⟨by decide, by decide⟩, by decide, by decide⟩
  have legal : reading.Legal (start (.connected none none none))
      [.receive [0x82, 1, 7], .decode, .call (.ping [])] := by decide +kernel
  exact ⟨hstart, legal, indices_inRange_iff hstart legal⟩

/-- While the payload is not all there, its bytes pile up. -/
theorem run_waiting {bytes : Bytes} (hlen : bytes.length = 512) {s : Session}
    (hidle : s.decoding = false) (k : ℕ)
    (hwait : s.ws.inputBuffer.readable.length + 512 * k < s.ws.wanted_) :
    reading.Legal s (List.replicate k (.receive bytes)) ∧
      ∃ s', reading.run s (List.replicate k (.receive bytes)) = .ok s' ∧
        s'.ws.inputBuffer.readable.length = s.ws.inputBuffer.readable.length + 512 * k := by
  induction k generalizing s with
  | zero => exact ⟨trivial, s, rfl, rfl⟩
  | succ k ih =>
    have hfits : bytes.length ≤ (s.ws.inputBuffer.ensureSpace kMinWritableSize).1 := by
      rw [hlen]
      exact (Buffer.ensureSpace_bounds _ _).1
    have hne : bytes ≠ [] := by
      rintro rfl
      cases hlen
    obtain ⟨b, hb, hreadable, -⟩ := Buffer.exists_receive hfits
    have hheld : b.readable.length = s.ws.inputBuffer.readable.length + 512 := by
      rw [hreadable, List.length_append, hlen]
    have hwaits : ¬ { s.ws with inputBuffer := b }.Decodes := by
      rintro ⟨hle, -⟩
      change s.ws.wanted_ ≤ b.readableBytes at hle
      rw [← b.length_readable] at hle
      omega
    have hstep : reading.step s (.receive bytes) =
        .ok ⟨{ s.ws with inputBuffer := b }, false⟩ := by
      change s.onRead bytes = _
      unfold onRead
      rw [hb, ← decide_eq_false hwaits]
    have hmore : b.readable.length + 512 * k < s.ws.wanted_ := by omega
    obtain ⟨hlegal, s', hrun, hlast⟩ :=
      @ih ⟨{ s.ws with inputBuffer := b }, false⟩ rfl hmore
    refine ⟨reading.legal_cons_ok ⟨⟨hidle, hne⟩, hfits⟩ hstep hlegal, s', ?_, ?_⟩
    · rw [List.replicate_succ, reading.run_cons_ok _ hstep, hrun]
    · rw [hlast]
      change b.readable.length + 512 * k = _
      omega

/-- The header of a frame of `2 ^ 62` bytes, and half of the `2 ^ 32` first ones. -/
theorem not_inRange_payload :
    let es := [.receive [0x82, 127, 64, 0, 0, 0, 0, 0, 0, 0], .decode] ++
      List.replicate 4194304 (.receive (List.replicate 512 0))
    (WebSocketConnection.connected none none none).InRange ∧
      reading.Legal (start (.connected none none none)) es ∧
      ¬ ∀ p ∈ reading.steps (start (.connected none none none)) es, p.1.KeepsRange p.2 := by
  intro es
  have hstart : (WebSocketConnection.connected none none none).InRange :=
    ⟨⟨by decide, by decide⟩, by decide, by decide⟩
  have hheader : reading.Legal (start (.connected none none none))
      [.receive [0x82, 127, 64, 0, 0, 0, 0, 0, 0, 0], .decode] := by decide +kernel
  have hwaiting : (reading.run (start (.connected none none none))
      [.receive [0x82, 127, 64, 0, 0, 0, 0, 0, 0, 0], .decode]).Ends (fun s => s.decoding = false ∧
        s.ws.inputBuffer.readable.length = 0 ∧ s.ws.wanted_ = 2 ^ 62) fun _ => False := by
    decide +kernel
  obtain ⟨s, hs, hidle, hempty, hwanted⟩ := hwaiting.exists_ok
  have hwait : s.ws.inputBuffer.readable.length + 512 * 4194304 < s.ws.wanted_ := by
    rw [hempty, hwanted]
    decide
  obtain ⟨hlegal, s', hs', hheld⟩ := run_waiting List.length_replicate hidle 4194304 hwait
  refine ⟨hstart, reading.legal_append hheader hs hlegal, fun hkeeps => ?_⟩
  have hends := reading.ends_of_steps (P := fun s => s.ws.InRange) hstart
    fun p hp => (hkeeps p hp).1
  rw [reading.run_append _ hs, hs', Except.ends_ok] at hends
  have hlen := s'.ws.inputBuffer.length_readable
  have hindex := hends.1.2
  unfold Buffer.readableBytes at hlen
  omega

end Session
end WsEngine
