import WsEngine.Lib.ControlFlow
import WsEngine.Ws.Connection

/-! # Decoding

`WebSocketConnection::decode` and `parse`, stage by stage in the order of the source. One activation
of `decode` is `decodeCall`; the recursion at its end is left to `Call.iterate`. Inside an activation
an error is the way it ended early: it returned, or an assertion failed. -/
set_option autoImplicit false

namespace WsEngine
open Window

/-- The payload under its mask: byte `i` with byte `i % 4` of the key. -/
def unmask (maskKey payload : Bytes) : Bytes :=
  payload.mapIdx fun i byte => byte ^^^ maskKey.getD (i % 4) 0

@[simp] theorem length_unmask (maskKey payload : Bytes) :
    (unmask maskKey payload).length = payload.length := List.length_mapIdx

namespace Buffer

/-- The bytes from offset `originSize` of the readable ones on, unmasked in place. -/
def unmaskFrom (b : Buffer) (originSize : ℕ) (maskKey : Bytes) : Buffer :=
  { b with
    buf_ := overwrite b.buf_ (b.readIndex_ + originSize)
      (unmask maskKey (b.readable.drop originSize))
    write_le_size := by
      have h1 := b.read_le_write
      have h2 := b.write_le_size
      have h3 := b.length_readable
      unfold readableBytes at h3
      unfold overwrite
      simp only [List.length_append, List.length_take, List.length_drop, length_unmask]
      omega }

end Buffer

namespace WebSocketConnection

/-! ## The header -/

/-- `inputBuffer.readTypedNumber` of `size` bytes. -/
def readNumber (ws : WebSocketConnection) (size : ℕ) :
    Except (Call WebSocketConnection) (ℕ × WebSocketConnection) :=
  match ws.inputBuffer.readTypedNumber size with
  | some (number, inputBuffer) => .ok (number, { ws with inputBuffer := inputBuffer })
  | none => .error (.aborted ws)

/-- The return that puts the `readSize` bytes back and waits for `wanted` of them. -/
def waitFor (ws : WebSocketConnection) (wanted readSize : ℕ) : Call WebSocketConnection :=
  match ws.inputBuffer.unread readSize with
  | some inputBuffer =>
    .returned { ws with
      headerRead_ := false
      wanted_ := wanted
      inputBuffer := inputBuffer }
  | none => .aborted ws

def readFirstByte (ws : WebSocketConnection) :
    Except (Call WebSocketConnection) WebSocketConnection := do
  let (firstByte, ws) ← ws.readNumber 1
  if firstByte &&& 0x70 ≠ 0 then
    throw (.returned (ws.emit .frame).protocolError)
  else
    return { ws with
      isFin_ := firstByte >>> 7 ≠ 0
      opcode_ := firstByte &&& 0x0f }

def readSecondByte (ws : WebSocketConnection) :
    Except (Call WebSocketConnection) WebSocketConnection :=
  if ws.inputBuffer.readableBytes < 1 then
    throw (ws.waitFor 2 1)
  else do
    let (secondByte, ws) ← ws.readNumber 1
    return { ws with
      masked_ := secondByte >>> 7 = 1
      payloadLength_ := secondByte &&& 0x7f
      wanted_ := secondByte &&& 0x7f }

/-- The extended length, where the second byte announces one, and `readSize` after it. -/
def readLength (ws : WebSocketConnection) :
    Except (Call WebSocketConnection) (ℕ × WebSocketConnection) :=
  if ws.payloadLength_ = 126 then
    if ws.inputBuffer.readableBytes < 2 then
      throw (ws.waitFor 4 2)
    else do
      let (payloadLength, ws) ← ws.readNumber 2
      return (4, { ws with payloadLength_ := payloadLength })
  else if ws.payloadLength_ = 127 then
    if ws.inputBuffer.readableBytes < 8 then
      throw (ws.waitFor 10 2)
    else do
      let (payloadLength, ws) ← ws.readNumber 8
      return (10, { ws with payloadLength_ := payloadLength })
  else return (2, ws)

def readMaskKey (ws : WebSocketConnection) (readSize : ℕ) :
    Except (Call WebSocketConnection) WebSocketConnection :=
  if ws.masked_ then
    if ws.inputBuffer.readableBytes < 4 then
      throw (ws.waitFor (readSize + 4) readSize)
    else
      match ws.inputBuffer.read 4 with
      | some (maskKey, inputBuffer) =>
        return { ws with
          maskKey_ := maskKey
          inputBuffer := inputBuffer }
      | none => throw (.aborted ws)
  else return ws

def readHeader (ws : WebSocketConnection) :
    Except (Call WebSocketConnection) WebSocketConnection := do
  let ws ← ws.readFirstByte
  let ws ← ws.readSecondByte
  let (readSize, ws) ← ws.readLength
  ws.readMaskKey readSize

/-! ## The frame -/

def clearDecodeStatus (ws : WebSocketConnection) : WebSocketConnection :=
  { ws with
    wanted_ := 0
    headerRead_ := false }

/-- The assertion of a callback's calls ends the activation too. -/
def orAbort (r : Except WebSocketConnection WebSocketConnection) :
    Except (Call WebSocketConnection) WebSocketConnection := r.mapError .aborted

/-- `wsMessageCallback_(decodeBuf_.readString(), isBinary)`, or the bytes dropped without one. -/
def deliver (ws : WebSocketConnection) (isBinary : Bool) :
    Except (Call WebSocketConnection) WebSocketConnection :=
  match ws.decodeBuf_.readString with
  | some (payload, decodeBuf) =>
    orAbort ({ ws with decodeBuf_ := decodeBuf }.runCallback ws.wsMessageCallback_
      (.message payload isBinary))
  | none => throw (.aborted ws)

/-- The message of the fragments. -/
def deliverFragments (ws : WebSocketConnection) :
    Except (Call WebSocketConnection) WebSocketConnection :=
  if ws.wsMessageCallback_.isNone ∨ ws.fragmentedOpCode_ = 0x01 ∨ ws.fragmentedOpCode_ = 0x02 then
    ws.deliver (ws.fragmentedOpCode_ = 0x02)
  else return ws

def onContinuation (ws : WebSocketConnection) :
    Except (Call WebSocketConnection) WebSocketConnection :=
  if ws.fragmentedOpCode_ = 0 then throw (.returned ws.protocolError)
  else if ws.isFin_ then do
    let ws ← ws.deliverFragments
    return { ws with fragmentedOpCode_ := 0 }.clearDecodeStatus
  else return ws.clearDecodeStatus

def onData (ws : WebSocketConnection) : Except (Call WebSocketConnection) WebSocketConnection :=
  if ws.fragmentedOpCode_ ≠ 0 then throw (.returned ws.protocolError)
  else if ws.isFin_ then do
    let ws ← ws.deliver (ws.opcode_ = 2)
    return ws.clearDecodeStatus
  else return { ws with fragmentedOpCode_ := ws.opcode_ }.clearDecodeStatus

/-- `headerRead_` and `wanted_` stay as they are. -/
def onClose (ws : WebSocketConnection) : Except (Call WebSocketConnection) WebSocketConnection :=
  if ws.status_ = .CONNECT then
    return { ws.close .NORMAL_CLOSE with status_ := .CLOSED }.emit .closeTcp
  else return ws

/-- `String(decodeBuf_.peek() + originSize, payloadLength_)`. -/
def controlPayload (ws : WebSocketConnection) (originSize : ℕ) : Bytes :=
  (ws.decodeBuf_.peek (originSize + ws.payloadLength_)).drop originSize

/-- The payload of a control frame taken out of `decodeBuf_`, but only when it is not alone there. -/
def dropControl (ws : WebSocketConnection) (originSize : ℕ) :
    Except (Call WebSocketConnection) WebSocketConnection :=
  if originSize ≠ 0 then
    match ws.decodeBuf_.unwrite ws.payloadLength_ with
    | some decodeBuf => return { ws with decodeBuf_ := decodeBuf }.clearDecodeStatus
    | none => throw (.aborted ws)
  else return ws.clearDecodeStatus

def onPing (ws : WebSocketConnection) (originSize : ℕ) :
    Except (Call WebSocketConnection) WebSocketConnection :=
  if ¬ ws.isFin_ then throw (.returned ws.protocolError)
  else do
    let ws ← orAbort (ws.runCallback ws.pingCallback_ (.ping (ws.controlPayload originSize)))
    let ws ← orAbort (ws.pong (ws.controlPayload originSize))
    ws.dropControl originSize

def onPong (ws : WebSocketConnection) (originSize : ℕ) :
    Except (Call WebSocketConnection) WebSocketConnection :=
  if ¬ ws.isFin_ then throw (.returned ws.protocolError)
  else do
    let ws ← orAbort (ws.runCallback ws.pongCallback_ (.pong (ws.controlPayload originSize)))
    ws.dropControl originSize

/-- The switch over `opcode_`. -/
def onFrame (ws : WebSocketConnection) (originSize : ℕ) :
    Except (Call WebSocketConnection) WebSocketConnection :=
  match ws.opcode_ with
  | 0 => ws.onContinuation
  | 1 => ws.onData
  | 2 => ws.onData
  | 0x08 => ws.onClose
  | 0x09 => ws.onPing originSize
  | 0x0a => ws.onPong originSize
  | _ => throw (.returned ws.protocolError)

/-- The payload moved to `decodeBuf_` once all of it is there. -/
def readPayload (ws : WebSocketConnection) :
    Except (Call WebSocketConnection) WebSocketConnection :=
  if ws.inputBuffer.readableBytes < ws.payloadLength_ then
    throw (.returned { ws with
      split_ := true
      wanted_ := ws.payloadLength_ })
  else
    match ws.decodeBuf_.writeFrom ws.inputBuffer ws.payloadLength_ with
    | some (decodeBuf, inputBuffer) =>
      return { ws with
        inputBuffer := inputBuffer
        decodeBuf_ :=
          if ws.masked_ then decodeBuf.unmaskFrom ws.decodeBuf_.readableBytes ws.maskKey_
          else decodeBuf }
    | none => throw (.aborted ws)

/-! ## The function -/

/-- What `decode` does after the header. -/
def decodeBody (ws : WebSocketConnection) :
    Except (Call WebSocketConnection) WebSocketConnection := do
  let originSize := ws.decodeBuf_.readableBytes
  let ws ← ws.readPayload
  (ws.emit .frame).onFrame originSize

def decodeHeader (ws : WebSocketConnection) :
    Except (Call WebSocketConnection) WebSocketConnection :=
  if ws.headerRead_ then return { ws with headerRead_ := true }
  else do
    let ws ← ws.readHeader
    return { ws with headerRead_ := true }

/-- One activation of `decode`. -/
def decodeCall (ws : WebSocketConnection) : Call WebSocketConnection :=
  match ws.decodeHeader >>= decodeBody with
  | .ok ws => if 0 < ws.inputBuffer.readableBytes then .again ws else .returned ws
  | .error ended => ended

/-- `decode`, with up to `n` activations. -/
def decodeWithin (n : ℕ) (ws : WebSocketConnection) : Call WebSocketConnection :=
  Call.iterate decodeCall n ws

/-- `decode`. More activations than this are only made when it never ends. -/
def decode (ws : WebSocketConnection) : Call WebSocketConnection :=
  ws.decodeWithin (ws.inputBuffer.readableBytes + 2)

/-- `parse`, with what `http_parser_execute` does to the connection and the number it returns. -/
def parse (httpParserExecute : WebSocketConnection → Bytes → ℕ × WebSocketConnection)
    (ws : WebSocketConnection) : Call WebSocketConnection :=
  if ws.inputBuffer.readableBytes < ws.wanted_ then .returned ws
  else
    match ws.status_ with
    | .INITIAL =>
      let (nparsed, ws) := httpParserExecute ws (ws.inputBuffer.peek ws.inputBuffer.readableBytes)
      match ws.inputBuffer.retrieve nparsed with
      | some inputBuffer => .returned { ws with inputBuffer := inputBuffer }
      | none => .aborted ws
    | .CONNECT | .CLOSING => ws.decode
    | .HANDSHAKE | .CLOSED => .returned ws

/-- A read: the bytes are appended to the buffer. -/
def receive (ws : WebSocketConnection) (bytes : Bytes) : WebSocketConnection :=
  { ws with inputBuffer := ws.inputBuffer.write bytes }

end WebSocketConnection
end WsEngine
