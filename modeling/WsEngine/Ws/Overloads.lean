import WsEngine.Machine.Endpoint

/-! # The overloads of `sendMessage`

They send the same bytes, but leave the TCP connection in different states unless it is writing
(`sendsAgree_iff`), on the machine as over naturals. -/
set_option autoImplicit false

namespace WsEngine
namespace Endpoint

/-- What both overloads should leave behind. -/
@[mk_iff]
structure SameSend (e e₁ e₂ : Endpoint) (frame : Bytes) : Prop where
  submitted : e.tcp.state_ = .kConnected → e₁.tcp.submitted = e.tcp.submitted ++ frame ∧
    e₂.tcp.submitted = e.tcp.submitted ++ frame
  queued : e.tcp.state_ = .kWritting → e₁.tcp.outputBuf.readable = e.tcp.outputBuf.readable ++ frame ∧
    e₂.tcp.outputBuf.readable = e.tcp.outputBuf.readable ++ frame
  stream : e₁.tcp.submitted = e₂.tcp.submitted
  queue : e₁.tcp.outputBuf.readable = e₂.tcp.outputBuf.readable
  state : e₁.tcp.state_ = e₂.tcp.state_
  lastWrite : e₁.tcp.lastWrite_ = e₂.tcp.lastWrite_
  output : e₁.ws.outputBuf_.readable = [] ∧ e₂.ws.outputBuf_.readable = []

/-- Both overloads return, and agree. -/
def SendsAgree (e : Endpoint) (data : Bytes) (isBinary : Bool) (uv : ℤ) : Prop :=
  ∃ ret₁ e₁ ret₂ e₂, e.sendMove data isBinary uv = .ok (ret₁, e₁) ∧
    e.sendMessage data isBinary uv = .ok (ret₂, e₂) ∧
    e.SameSend e₁ e₂ (Decoder.messageHeader data.length isBinary ++ data)

theorem sendMove_eq {e : Endpoint} (data : Bytes) (isBinary : Bool) (uv : ℤ)
    (h : e.ws.outputBuf_.readable = []) :
    ∃ header : Buffer, header.readable = Decoder.messageHeader data.length isBinary ∧
      e.sendMove data isBinary uv =
        ((e.tcp.sendScatter header data uv).mapError .tcp).map fun r => (r.1, ⟨{ e.ws with
          outputBuf_ := r.2.1 }.emit (.send (header.readable ++ data)), r.2.2⟩) := by
  obtain ⟨header, hw, hr⟩ := WebSocketConnection.writeHeader_eq data.length isBinary h
  refine ⟨header, hr, ?_⟩
  unfold sendMove
  rw [if_pos ((Buffer.empty_iff _).mpr h), hw]
  simp only [Except.mapError, bind, Except.bind]
  cases e.tcp.sendScatter header data uv with
  | ok r => rfl
  | error f => rfl

theorem sendMessage_eq {e : Endpoint} (data : Bytes) (isBinary : Bool) (uv : ℤ)
    (h : e.ws.outputBuf_.readable = []) :
    ∃ frame : Buffer, frame.readable = Decoder.messageHeader data.length isBinary ++ data ∧
      e.sendMessage data isBinary uv =
        ((e.tcp.sendBuffer frame uv).mapError .tcp).map fun r => (r.1, ⟨{ e.ws with
          outputBuf_ := r.2.1 }.emit (.send frame.readable), r.2.2⟩) := by
  obtain ⟨header, hw, hr⟩ := WebSocketConnection.writeHeader_eq data.length isBinary h
  refine ⟨header.write data, by rw [Buffer.readable_write, hr], ?_⟩
  unfold sendMessage
  rw [hw]
  simp only [Except.mapError, bind, Except.bind]
  cases e.tcp.sendBuffer (header.write data) uv with
  | ok r => rfl
  | error f => rfl

/-- **The difference.** In `kConnected` both overloads submit the frame, but the one that hands over
two buffers leaves `state_` and `lastWrite_` as they were. -/
theorem sends_differ {e : Endpoint} (data : Bytes) (isBinary : Bool) {uv : ℤ} (huv : 0 ≤ uv)
    (h : e.ws.outputBuf_.readable = []) (hs : e.tcp.state_ = .kConnected) :
    ∃ ret₁ e₁ ret₂ e₂, e.sendMove data isBinary uv = .ok (ret₁, e₁) ∧
      e.sendMessage data isBinary uv = .ok (ret₂, e₂) ∧
      e₁.tcp.submitted = e.tcp.submitted ++ (Decoder.messageHeader data.length isBinary ++ data) ∧
      e₂.tcp.submitted = e.tcp.submitted ++ (Decoder.messageHeader data.length isBinary ++ data) ∧
      e₁.tcp.state_ = .kConnected ∧ e₂.tcp.state_ = .kWritting ∧
      e₁.tcp.lastWrite_ = e.tcp.lastWrite_ ∧
      e₂.tcp.lastWrite_ = (Decoder.messageHeader data.length isBinary ++ data).length := by
  obtain ⟨header, hheader, hmove⟩ := sendMove_eq data isBinary uv h
  obtain ⟨frame, hframe, hcopy⟩ := sendMessage_eq data isBinary uv h
  rw [TcpConnection.sendScatter_eq _ _ _ (by simp [hs])] at hmove
  rw [TcpConnection.sendBuffer_eq, TcpConnection.send_connected _ _ hs,
    TcpConnection.writeToUv_eq] at hcopy
  refine ⟨_, _, _, _, hmove, hcopy, ?_, ?_, hs, rfl, rfl, ?_⟩
  · simp [TcpConnection.submit, huv, hheader]
  · simp [TcpConnection.submit, huv, hframe]
  · simp [TcpConnection.submit, hframe]

theorem sendsAgree_iff_kWritting {e : Endpoint} (data : Bytes) (isBinary : Bool) {uv : ℤ} (huv : 0 ≤ uv)
    (h : e.ws.outputBuf_.readable = [])
    (hs : e.tcp.state_ = .kConnected ∨ e.tcp.state_ = .kWritting) :
    e.SendsAgree data isBinary uv ↔ e.tcp.state_ = .kWritting := by
  constructor
  · rintro ⟨ret₁, e₁, ret₂, e₂, h₁, h₂, same⟩
    by_contra hw
    obtain ⟨_, _, _, _, h₁', h₂', -, -, hc, hw', -⟩ :=
      sends_differ data isBinary huv h (hs.resolve_right hw)
    cases h₁.symm.trans h₁'
    cases h₂.symm.trans h₂'
    have hstate := same.state
    rw [hc, hw'] at hstate
    cases hstate
  · intro hw
    obtain ⟨header, hheader, hmove⟩ := sendMove_eq data isBinary uv h
    obtain ⟨frame, hframe, hcopy⟩ := sendMessage_eq data isBinary uv h
    rw [TcpConnection.sendScatter_writting _ _ _ hw] at hmove
    rw [TcpConnection.sendBuffer_eq, TcpConnection.send_writting _ _ hw] at hcopy
    refine ⟨_, _, _, _, hmove, hcopy, ?_⟩
    constructor
    · intro hc
      rw [hw] at hc
      cases hc
    · intro _
      simp [hheader, hframe]
    · rfl
    · simp [hheader, hframe]
    · rfl
    · rfl
    · simp [WebSocketConnection.emit]

end Endpoint

/-! ## In machine words -/

namespace Machine.Endpoint

@[mk_iff]
structure SameSend (e e₁ e₂ : Endpoint) (frame : Bytes) : Prop where
  submitted : e.tcp.state_ = .kConnected → e₁.tcp.submitted = e.tcp.submitted ++ frame ∧
    e₂.tcp.submitted = e.tcp.submitted ++ frame
  queued : e.tcp.state_ = .kWritting → e₁.tcp.outputBuf.readable = e.tcp.outputBuf.readable ++ frame ∧
    e₂.tcp.outputBuf.readable = e.tcp.outputBuf.readable ++ frame
  stream : e₁.tcp.submitted = e₂.tcp.submitted
  queue : e₁.tcp.outputBuf.readable = e₂.tcp.outputBuf.readable
  state : e₁.tcp.state_ = e₂.tcp.state_
  lastWrite : e₁.tcp.lastWrite_ = e₂.tcp.lastWrite_
  output : e₁.ws.outputBuf_.readable = [] ∧ e₂.ws.outputBuf_.readable = []

def SendsAgree (e : Endpoint) (data : Bytes) (isBinary : Bool) (uv : ℤ) : Prop :=
  ∃ ret₁ e₁ ret₂ e₂, e.sendMove data isBinary uv = .ok (ret₁, e₁) ∧
    e.sendMessage data isBinary uv = .ok (ret₂, e₂) ∧
    e.SameSend e₁ e₂ (Decoder.messageHeader data.length isBinary ++ data)

end Machine.Endpoint

namespace Endpoint

theorem Tracked.sameSend_iff_sameSend {e e₁ e₂ : Endpoint} {m m₁ m₂ : Machine.Endpoint} (h : e.Tracked m)
    (h₁ : e₁.Tracked m₁) (h₂ : e₂.Tracked m₂) (frame : Bytes) :
    e.SameSend e₁ e₂ frame ↔ m.SameSend m₁ m₂ frame := by
  have hsubmitted {e : Endpoint} {m : Machine.Endpoint} (h : e.Tracked m) :
      m.tcp.submitted = e.tcp.submitted := congrArg Machine.TcpConnection.submitted h.tcp.same
  have hlast {e : Endpoint} {m : Machine.Endpoint} (h : e.Tracked m) :
      m.tcp.lastWrite_ = e.tcp.lastWrite_ := congrArg Machine.TcpConnection.lastWrite_ h.tcp.same
  rw [sameSend_iff, Machine.Endpoint.sameSend_iff]
  rw [hsubmitted h, hsubmitted h₁, hsubmitted h₂, hlast h₁, hlast h₂, h.tcp.state, h₁.tcp.state,
    h₂.tcp.state, h.tcp.readable, h₁.tcp.readable, h₂.tcp.readable, h₁.ws.readable_output,
    h₂.ws.readable_output]

theorem Tracked.sendsAgree_iff_sendsAgree {e : Endpoint} {m : Machine.Endpoint} (h : e.Tracked m)
    {data : Bytes} (hdata : data.length ≤ 2 ^ 29) (isBinary : Bool) (uv : ℤ)
    (hout : e.ws.outputBuf_.readable = [])
    (hroom : e.tcp.HasRoom (Decoder.messageHeader data.length isBinary ++ data).length) :
    e.SendsAgree data isBinary uv ↔ m.SendsAgree data isBinary uv := by
  have hmove := h.sendMove data isBinary uv hout hroom
  have hcopy := h.sendMessage hdata isBinary uv hout hroom
  unfold SendsAgree Machine.Endpoint.SendsAgree
  generalize e.sendMove data isBinary uv = r₁ at hmove ⊢
  generalize m.sendMove data isBinary uv = r₁' at hmove ⊢
  generalize e.sendMessage data isBinary uv = r₂ at hcopy ⊢
  generalize m.sendMessage data isBinary uv = r₂' at hcopy ⊢
  cases hmove with
  | error _ => simp
  | ok hm =>
    cases hcopy with
    | error _ => simp
    | ok hc =>
      have hsame := h.sameSend_iff_sameSend hm.2 hc.2 (Decoder.messageHeader data.length isBinary ++ data)
      constructor
      · rintro ⟨_, _, _, _, h₁, h₂, hs⟩
        cases h₁
        cases h₂
        exact ⟨_, _, _, _, rfl, rfl, hsame.mp hs⟩
      · rintro ⟨_, _, _, _, h₁, h₂, hs⟩
        cases h₁
        cases h₂
        exact ⟨_, _, _, _, rfl, rfl, hsame.mpr hs⟩

/-- **The overloads of `sendMessage` agree** exactly while the TCP connection is writing. So they do on
the machine, where the `String` is not too long for `outputBuf_` and the frame has room in
`outputBuf`. -/
theorem sendsAgree_iff {e : Endpoint} (data : Bytes) (isBinary : Bool) {uv : ℤ} (huv : 0 ≤ uv)
    (h : e.ws.outputBuf_.readable = [])
    (hs : e.tcp.state_ = .kConnected ∨ e.tcp.state_ = .kWritting) :
    (e.SendsAgree data isBinary uv ↔ e.tcp.state_ = .kWritting) ∧
    (e.Small → e.ws.Modest → data.length ≤ 2 ^ 29 →
      e.tcp.HasRoom (Decoder.messageHeader data.length isBinary ++ data).length →
      (e.machine.SendsAgree data isBinary uv ↔ e.tcp.state_ = .kWritting)) := by
  have hiff := sendsAgree_iff_kWritting data isBinary huv h hs
  refine ⟨hiff, fun hsmall hmodest hdata hroom => ?_⟩
  rw [← (hsmall.tracked hmodest).sendsAgree_iff_sendsAgree hdata isBinary uv h hroom]
  exact hiff

/-- Two messages, the second while the first is written. -/
theorem sendsAgree_iff_writting :
    let e : Endpoint := ⟨WebSocketConnection.connected none none none,
      { TcpConnection.fresh with state_ := .kWritting }⟩
    e.SendsAgree [0x61] false 0 ∧ e.machine.SendsAgree [0x61] false 0 := by
  intro e
  obtain ⟨hiff, hmachine⟩ := sendsAgree_iff (e := e) [0x61] false (le_refl 0)
    (WebSocketConnection.connected_fresh none none none).output (.inr rfl)
  have hsmall : e.Small :=
    ⟨WebSocketConnection.connected_small _ _ _, Buffer.small_ofSize (by decide)⟩
  have hroom : e.tcp.HasRoom (Decoder.messageHeader 1 false ++ [0x61]).length := by decide +kernel
  exact ⟨hiff.mpr rfl, (hmachine hsmall ⟨nofun, nofun, nofun⟩ (by decide) hroom).mpr rfl⟩

/-- The first message on a connection. -/
theorem not_sendsAgree_connected :
    let e : Endpoint := ⟨WebSocketConnection.connected none none none, .fresh⟩
    e.ws.outputBuf_.readable = [] ∧ e.tcp.state_ = .kConnected ∧ ¬ e.SendsAgree [0x61] false 0 := by
  have hempty := (WebSocketConnection.connected_fresh none none none).output
  refine ⟨hempty, rfl, ?_⟩
  rintro ⟨ret₁, e₁, ret₂, e₂, h₁, h₂, same⟩
  obtain ⟨_, _, _, _, h₁', h₂', -, -, hc, hw, -⟩ :=
    sends_differ (e := ⟨WebSocketConnection.connected none none none, .fresh⟩) [0x61] false
      (le_refl 0) hempty rfl
  cases h₁.symm.trans h₁'
  cases h₂.symm.trans h₂'
  have hstate := same.state
  rw [hc, hw] at hstate
  cases hstate

end Endpoint
end WsEngine
