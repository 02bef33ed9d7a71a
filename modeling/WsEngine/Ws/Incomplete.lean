import WsEngine.Ws.Encode
import WsEngine.Ws.Refinement

/-! # Headers that have not arrived whole

Four returns in the header stage put back what was read and wait for more. They are taken exactly where
the input is a proper prefix of a header, and what they wait for is more than there is and no more than
the header (`front_incomplete`). What is read on the way goes to fields that the next header
overwrites, and the rest of the connection is left alone (`kept_readHeader`). -/
set_option autoImplicit false

namespace WsEngine

/-! ## The front of a prefix -/

theorem frontAfter_short_length {first second : ℕ} {rest : Bytes} {wanted : ℕ}
    (hf : frontAfter first second rest = .short wanted) : rest.length + 2 < wanted := by
  unfold frontAfter at hf
  dsimp only at hf
  by_cases h1 : rest.length < extension (second &&& 0x7f)
  · rw [if_pos h1] at hf
    cases hf
    omega
  · rw [if_neg h1] at hf
    by_cases h2 : second >>> 7 = 1
    · rw [if_pos h2] at hf
      by_cases h3 : rest.length < extension (second &&& 0x7f) + 4
      · rw [if_pos h3] at hf
        cases hf
        omega
      · rw [if_neg h3] at hf
        cases hf
    · rw [if_neg h2] at hf
      cases hf

/-- A header is waited for with more bytes than there are. -/
theorem front_short_length {input : Bytes} {wanted : ℕ} (hf : front input = .short wanted) :
    input.length < wanted := by
  match input with
  | [] => cases hf
  | [first] =>
    simp only [front] at hf
    split at hf
    · cases hf
    · cases hf
      exact Nat.one_lt_two
  | first :: second :: rest =>
    simp only [front] at hf
    split at hf
    · cases hf
    · exact frontAfter_short_length hf

/-- **A proper prefix of a header.** -/
theorem front_incomplete {h : FrameHeader} (hr : h.rsv = 0) {input : Bytes}
    (hinput : input <+: h.encode) (hne : input ≠ []) (hlt : input.length < h.encode.length) :
    ∃ wanted, front input = .short wanted ∧ input.length < wanted ∧ wanted ≤ h.encode.length := by
  obtain ⟨rest, happend⟩ := hinput
  have hfull : front (input ++ rest) = .full h.header h.encode.length (h.form.code h.length) := by
    rw [happend, ← List.append_nil h.encode, h.front_encode hr [], List.append_nil]
  cases hf : front input with
  | nothing => exact absurd (front_nothing hf) hne
  | reserved =>
    rw [front_append_reserved hf rest] at hfull
    cases hfull
  | full h' size code =>
    -- the header would already be there, in fewer bytes than it has
    obtain ⟨-, hsize⟩ := front_size hf
    rw [front_append_full hf rest] at hfull
    cases hfull
    omega
  | short wanted =>
    refine ⟨wanted, rfl, front_short_length hf, ?_⟩
    by_contra hmore
    have hlen : (input ++ rest).length < wanted := by
      rw [happend]
      omega
    have hshort := front_append_short hf hlen
    rw [hshort] at hfull
    cases hfull

namespace WebSocketConnection

/-! ## What reading a header leaves alone -/

/-- The connection without the input and the fields that a header is read into. -/
def kept (ws : WebSocketConnection) : WebSocketConnection :=
  { ws with
    inputBuffer := .ofSize 0
    headerRead_ := false
    wanted_ := 0
    masked_ := false
    payloadLength_ := 0
    opcode_ := 0
    isFin_ := false
    maskKey_ := [] }

/-- However a stage ends, it has kept the connection. -/
def Keeps (ws : WebSocketConnection) {α : Type} (state : α → WebSocketConnection)
    (r : Except (Call WebSocketConnection) α) : Prop :=
  Call.Leaves (fun ws w => w.kept = ws.kept) ws state r

theorem kept_waitFor (ws : WebSocketConnection) (wanted readSize : ℕ) :
    (ws.waitFor wanted readSize).state.kept = ws.kept := by
  unfold waitFor
  split <;> rfl

theorem keeps_readNumber (ws : WebSocketConnection) (size : ℕ) :
    ws.Keeps Prod.snd (ws.readNumber size) := by
  unfold readNumber
  split
  · exact .ok rfl
  · exact .error rfl

theorem keeps_bind {ws : WebSocketConnection} {α β : Type} {state : α → WebSocketConnection}
    {state' : β → WebSocketConnection} {r : Except (Call WebSocketConnection) α}
    {k : α → Except (Call WebSocketConnection) β} (h : ws.Keeps state r)
    (hk : ∀ a, (state a).Keeps state' (k a)) : ws.Keeps state' (r >>= k) :=
  Call.Leaves.bind (fun _ _ _ h h' => h'.trans h) h hk

theorem keeps_readSecondByte (ws : WebSocketConnection) : ws.Keeps id ws.readSecondByte := by
  unfold readSecondByte
  split
  · exact .error (kept_waitFor ws 2 1)
  · exact keeps_bind (keeps_readNumber ws 1) fun _ => .ok rfl

theorem keeps_readLength (ws : WebSocketConnection) : ws.Keeps Prod.snd ws.readLength := by
  unfold readLength
  split
  · split
    · exact .error (kept_waitFor ws 4 2)
    · exact keeps_bind (keeps_readNumber ws 2) fun _ => .ok rfl
  · split
    · split
      · exact .error (kept_waitFor ws 10 2)
      · exact keeps_bind (keeps_readNumber ws 8) fun _ => .ok rfl
    · exact .ok rfl

theorem keeps_readMaskKey (ws : WebSocketConnection) (readSize : ℕ) :
    ws.Keeps id (ws.readMaskKey readSize) := by
  unfold readMaskKey
  split
  · split
    · exact .error (kept_waitFor ws (readSize + 4) readSize)
    · split
      · exact .ok rfl
      · exact .error rfl
  · exact .ok rfl

/-- A byte with a reserved bit is answered, and nothing else of the header is. -/
theorem keeps_readHeader {ws : WebSocketConnection} {first : UInt8} {rest : Bytes}
    (hr : ws.inputBuffer.readable = first :: rest) (h : ¬ first.toNat &&& 0x70 ≠ 0) :
    ws.Keeps id ws.readHeader := by
  have hfirst : ws.Keeps id ws.readFirstByte := by
    simp only [readFirstByte, readNumber_first hr, bind, Except.bind, if_neg h]
    exact .ok rfl
  exact keeps_bind hfirst fun w => keeps_bind (keeps_readSecondByte w) fun w' =>
    keeps_bind (keeps_readLength w') fun p => keeps_readMaskKey p.2 p.1

/-! ## The header stage -/

/-- Nothing was consumed, told or sent, and no part of a message was touched. -/
structure Untouched (ws w : WebSocketConnection) : Prop where
  input : w.inputBuffer.readable = ws.inputBuffer.readable
  header : w.headerRead_ = false
  trace : w.trace = ws.trace
  output : w.outputBuf_ = ws.outputBuf_
  decode : w.decodeBuf_ = ws.decodeBuf_
  fragmented : w.fragmentedOpCode_ = ws.fragmentedOpCode_
  status : w.status_ = ws.status_

theorem front_cons_short {first : UInt8} {rest : Bytes} {wanted : ℕ}
    (hf : front (first :: rest) = .short wanted) : ¬ first.toNat &&& 0x70 ≠ 0 := by
  intro hbits
  cases rest with
  | nil =>
    simp only [front, if_pos hbits] at hf
    cases hf
  | cons second rest =>
    simp only [front, if_pos hbits] at hf
    cases hf

theorem decodeCall_short {ws : WebSocketConnection} (hread : ws.headerRead_ = false) {wanted : ℕ}
    (hf : front ws.inputBuffer.readable = .short wanted) :
    ∃ w, ws.decodeCall = .returned w ∧ ws.Untouched w ∧ w.wanted_ = wanted := by
  have hfront := readHeader_front hread
  rw [hf] at hfront
  obtain ⟨ended, he, habs⟩ := hfront
  obtain ⟨w, rfl, hw⟩ := Call.map_eq_returned habs
  have hkept : w.kept = ws.kept := by
    cases hr : ws.inputBuffer.readable with
    | nil =>
      rw [hr] at hf
      cases hf
    | cons first rest =>
      rw [hr] at hf
      have hkeeps := keeps_readHeader hr (front_cons_short hf)
      rw [he] at hkeeps
      cases hkeeps with
      | error h => exact h
  have hheader : w.headerRead_ = false := by
    have hnone : (if w.headerRead_ then some w.lastHeader else none) = none := by
      have hh := congrArg Decoder.header hw
      exact hh.trans (if_neg (by rw [hread]; decide))
    by_contra htrue
    rw [if_pos (by simpa using htrue)] at hnone
    cases hnone
  have huntouched : ws.Untouched w :=
    ⟨congrArg Decoder.input hw, hheader, (congrArg trace hkept :), (congrArg outputBuf_ hkept :),
      (congrArg decodeBuf_ hkept :), (congrArg fragmentedOpCode_ hkept :),
      (congrArg status_ hkept :)⟩
  refine ⟨w, ?_, huntouched, congrArg Decoder.wanted hw⟩
  have hdecode : ws.decodeHeader = .error (.returned w) := by
    rw [decodeHeader, if_neg (by rw [hread]; decide), he]
    rfl
  unfold decodeCall
  rw [hdecode]
  rfl

/-- **Incomplete headers.** -/
theorem decode_incomplete {ws : WebSocketConnection} (hread : ws.headerRead_ = false)
    {h : FrameHeader} (hr : h.rsv = 0) (hinput : ws.inputBuffer.readable <+: h.encode)
    (hne : ws.inputBuffer.readable ≠ [])
    (hlt : ws.inputBuffer.readable.length < h.encode.length) :
    ∃ w, ws.decode = .returned w ∧ ws.Untouched w ∧
      ws.inputBuffer.readable.length < w.wanted_ ∧ w.wanted_ ≤ h.encode.length := by
  obtain ⟨wanted, hf, hmore, hle⟩ := front_incomplete hr hinput hne hlt
  obtain ⟨w, hw, huntouched, hwanted⟩ := decodeCall_short hread hf
  refine ⟨w, Call.iterate_returned _ hw, huntouched, ?_, ?_⟩
  · rwa [hwanted]
  · rwa [hwanted]

/-- Three bytes of the header of a masked frame with a 64 bit length. -/
theorem decode_incomplete_three :
    let h : FrameHeader := ⟨true, 0, 2, some [1, 2, 3, 4], .long, 70000, by decide, by decide,
      fun key hk => by cases hk; rfl, by decide⟩
    let ws := { connected none none none with inputBuffer := (Buffer.ofSize 0).write [0x82, 0xff, 0] }
    ∃ w, ws.decode = .returned w ∧ ws.Untouched w ∧
      ws.inputBuffer.readable.length < w.wanted_ ∧ w.wanted_ ≤ h.encode.length := by
  intro h ws
  have hinput : ws.inputBuffer.readable <+: h.encode := by decide +kernel
  exact decode_incomplete rfl rfl hinput (by decide +kernel) (by decide +kernel)

end WebSocketConnection
end WsEngine
