import WsEngine.Machine.Tcp
import WsEngine.Ws.Refinement

/-! # A WebSocket connection on its TCP connection

Both connections together: the two overloads of `sendMessage`, which take different ways into the TCP
connection, one buffer copied or two buffers handed over, and the system of reads, each of them parsed
at once, and of completions of writes. -/
set_option autoImplicit false

namespace WsEngine

structure Endpoint where
  ws : WebSocketConnection
  tcp : TcpConnection

/-- An assertion of the WebSocket connection, or one of the TCP connection. -/
inductive EndpointFault
  | ws (ended : WebSocketConnection)
  | tcp (fault : TcpFault)

namespace Endpoint

/-! ## Sending a message -/

/-- `sendMessage(String &&data, bool isBinary)`: `conn_->send(outputBuf_, std::move(data))`. -/
def sendMove (e : Endpoint) (data : Bytes) (isBinary : Bool) (uv : ℤ) :
    Except EndpointFault (ℤ × Endpoint) :=
  if e.ws.outputBuf_.empty then do
    let ws ← (e.ws.writeHeader data.length (if isBinary then 2 else 1)).mapError .ws
    let (ret, outputBuf, tcp) ← (e.tcp.sendScatter ws.outputBuf_ data uv).mapError .tcp
    let effect := Effect.send (ws.outputBuf_.readable ++ data)
    return (ret, ⟨{ ws with outputBuf_ := outputBuf }.emit effect, tcp⟩)
  else throw (.ws e.ws)

/-- `sendMessage(const String& data, bool isBinary)`: `conn_->send(outputBuf_)`. -/
def sendMessage (e : Endpoint) (data : Bytes) (isBinary : Bool) (uv : ℤ) :
    Except EndpointFault (ℤ × Endpoint) := do
  let ws ← (e.ws.writeHeader data.length (if isBinary then 2 else 1)).mapError .ws
  let ws := { ws with outputBuf_ := ws.outputBuf_.write data }
  let (ret, outputBuf, tcp) ← (e.tcp.sendBuffer ws.outputBuf_ uv).mapError .tcp
  let effect := Effect.send ws.outputBuf_.readable
  return (ret, ⟨{ ws with outputBuf_ := outputBuf }.emit effect, tcp⟩)

/-- What an overload does to the WebSocket connection is what the WebSocket connection does alone. -/
theorem sendMove_ws {e e' : Endpoint} {data : Bytes} {isBinary : Bool} {uv ret : ℤ}
    (h : e.sendMove data isBinary uv = .ok (ret, e')) :
    e.ws.sendMove data isBinary = .ok e'.ws := by
  unfold sendMove at h
  by_cases hempty : e.ws.outputBuf_.empty = true
  · rw [if_pos hempty] at h
    obtain ⟨ws, hw, h⟩ := Except.bind_eq_ok.mp h
    obtain ⟨⟨ret', outputBuf, tcp⟩, hs, h⟩ := Except.bind_eq_ok.mp h
    cases h
    rw [Except.mapError_eq_ok] at hw hs
    rw [TcpConnection.sendScatter_header hs]
    unfold WebSocketConnection.sendMove
    rw [if_pos hempty, hw]
    simp only [bind, Except.bind, WebSocketConnection.sendOutput, Buffer.readableBytes_eq,
      Buffer.retrieve_eq (le_refl _)]
    rw [Buffer.peek_eq_take (le_refl _), List.take_length]
  · rw [if_neg hempty] at h
    cases h

theorem sendMessage_ws {e e' : Endpoint} {data : Bytes} {isBinary : Bool} {uv ret : ℤ}
    (h : e.sendMessage data isBinary uv = .ok (ret, e')) :
    e.ws.sendMessage data isBinary = .ok e'.ws := by
  obtain ⟨ws, hw, h⟩ := Except.bind_eq_ok.mp h
  obtain ⟨⟨ret', outputBuf, tcp⟩, hs, h⟩ := Except.bind_eq_ok.mp h
  cases h
  rw [Except.mapError_eq_ok] at hw hs
  rw [TcpConnection.sendBuffer_eq, Except.map_eq_ok] at hs
  obtain ⟨r, -, hr⟩ := hs
  cases hr
  unfold WebSocketConnection.sendMessage
  rw [hw]
  simp only [bind, Except.bind, WebSocketConnection.sendOutput, Buffer.readableBytes_eq,
    Buffer.retrieve_eq (le_refl _)]
  rw [Buffer.peek_eq_take (le_refl _), List.take_length, List.append_nil]

end Endpoint

/-! ## Reads and completions -/

/-- The calls of `send` that hand over these bytes, in a buffer that the machine holds where it is one,
and of which libuv takes the request. -/
def TcpEvent.Hands (bytes : Bytes) : TcpEvent → Prop
  | .send sent uv => sent = bytes ∧ 0 ≤ uv
  | .sendBuffer buf uv => buf.readable = bytes ∧ buf.Small ∧ 0 ≤ uv
  | .sendScatter header body uv => header.readable ++ body = bytes ∧ header.Small ∧ 0 ≤ uv
  | .close | .readData _ | .readEnd _ | .writeDone _ _ => False

theorem TcpEvent.Hands.bytes {bytes : Bytes} {e : TcpEvent} (h : e.Hands bytes) :
    e.bytes = bytes := by
  cases e with
  | send _ _ | sendBuffer _ _ | sendScatter _ _ _ => exact h.1
  | close | readData _ | readEnd _ | writeDone _ _ => exact h.elim

theorem TcpEvent.Hands.small {bytes : Bytes} {e : TcpEvent} (h : e.Hands bytes) : e.Small := by
  cases e with
  | sendBuffer _ _ | sendScatter _ _ _ => exact h.2.1
  | send _ _ | close | readData _ | readEnd _ | writeDone _ _ => trivial

/-- What effects of the WebSocket connection do to the TCP connection, where `hand` says how each thing
that is sent is handed over. -/
def TcpConnection.perform (hand : ℕ → Bytes → TcpEvent) :
    ℕ → List Effect → TcpConnection → Except TcpFault TcpConnection
  | _, [], c => .ok c
  | n, .send bytes :: effects, c => do
    let c ← c.step (hand n bytes)
    TcpConnection.perform hand (n + 1) effects c
  | n, .stopRead :: effects, c => TcpConnection.perform hand n effects c.stopRead
  | n, .closeTcp :: effects, c => do
    let c ← c.close
    TcpConnection.perform hand n effects c
  | n, .message _ _ :: effects, c | n, .ping _ :: effects, c | n, .pong _ :: effects, c
  | n, .frame :: effects, c | n, .protocolError :: effects, c => TcpConnection.perform hand n effects c

inductive EndpointEvent
  | read (bytes : Bytes) (hand : ℕ → Bytes → TcpEvent)
  | writeDone (status uv : ℤ)

/-- The bytes of the reads. -/
def EndpointEvent.reads (events : List EndpointEvent) : List Bytes :=
  events.filterMap fun
    | .read bytes _ => some bytes
    | .writeDone _ _ => none

theorem EndpointEvent.reads_read (bytes : Bytes) (hand : ℕ → Bytes → TcpEvent)
    (events : List EndpointEvent) : reads (.read bytes hand :: events) = bytes :: reads events := rfl

theorem EndpointEvent.reads_writeDone (status uv : ℤ) (events : List EndpointEvent) :
    reads (.writeDone status uv :: events) = reads events := rfl

namespace Endpoint

variable (httpParserExecute : WebSocketConnection → Bytes → ℕ × WebSocketConnection)

/-- What the effects of `parse` do to the TCP connection. -/
def parsed (e : Endpoint) (hand : ℕ → Bytes → TcpEvent) (tcp : TcpConnection) :
    Call WebSocketConnection → Except EndpointFault Endpoint
  | .returned ws => do
    let tcp ← (tcp.perform hand 0 (ws.trace.drop e.ws.trace.length)).mapError .tcp
    return ⟨ws, tcp⟩
  | .again ws | .aborted ws => throw (.ws ws)

/-- `on_uv_read`, down to what `parse` sends, and the callback of `uv_write`. -/
def step (e : Endpoint) : EndpointEvent → Except EndpointFault Endpoint
  | .read bytes hand => do
    let tcp ← (e.tcp.step (.readData bytes)).mapError .tcp
    e.parsed hand tcp ((e.ws.receive bytes).parse httpParserExecute)
  | .writeDone status uv => do
    let tcp ← (e.tcp.step (.writeDone status uv)).mapError .tcp
    return { e with tcp := tcp }

/-- libuv takes every request and completes it successfully. -/
def Possible (e : Endpoint) : EndpointEvent → Prop
  | .read bytes hand => e.tcp.Possible (.readData bytes) ∧ ∀ n bytes, (hand n bytes).Hands bytes
  | .writeDone status uv => e.tcp.Possible (.writeDone status uv) ∧ 0 ≤ status ∧ 0 ≤ uv

def system : EventSystem Endpoint EndpointEvent EndpointFault := ⟨Possible, step httpParserExecute⟩

end Endpoint
end WsEngine
