import WsEngine.Machine.Buffer
import WsEngine.Ws.Decode

/-! # The WebSocket connection in machine words

`ws::WebSocketConnection` over the machine's buffers: the operations that an application calls,
`decode` and `parse`, stage by stage as in the model over naturals. Wherever a buffer is touched the
operation can fail here, by an assertion or by an access outside of its memory. -/
set_option autoImplicit false

namespace WsEngine
namespace Machine
open Words

/-- The loop of `decode` from `peek() + originSize` to the end of the readable bytes. -/
def Buffer.unmaskFrom (b : Buffer) (originSize : ℕ) (maskKey : Bytes) : Option Buffer :=
  if originSize ≤ b.readableBytes then do
    let payload ← b.load (b.readIndex_ + originSize) (b.readableBytes - originSize)
    b.store (b.readIndex_ + originSize) (unmask maskKey payload)
  else none

structure WebSocketConnection where
  inputBuffer : Buffer
  status_ : Status
  headers_ : List (Bytes × Bytes)
  lastHeaderField_ : Bytes
  wsMessageCallback_ : Option Callback
  pingCallback_ : Option Callback
  pongCallback_ : Option Callback
  outputBuf_ : Buffer
  decodeBuf_ : Buffer
  fragmentedOpCode_ : ℕ
  headerRead_ : Bool
  wanted_ : ℕ
  split_ : Bool
  masked_ : Bool
  payloadLength_ : ℕ
  opcode_ : ℕ
  isFin_ : Bool
  maskKey_ : Bytes
  trace : List Effect

namespace WebSocketConnection

def emit (ws : WebSocketConnection) (effect : Effect) : WebSocketConnection :=
  { ws with trace := ws.trace ++ [effect] }

/-! ## Sending -/

/-- What was done to `outputBuf_`, if it could be done. -/
def withOutput (ws : WebSocketConnection) :
    Option Buffer → Except WebSocketConnection WebSocketConnection
  | some outputBuf => .ok { ws with outputBuf_ := outputBuf }
  | none => .error ws

/-- `outputBuf_` with the header, as `writeHeader` puts it there. -/
def putHeader (outputBuf : Buffer) (payLoadLength opcode : ℕ) : Option Buffer := do
  let outputBuf ← outputBuf.putByte (0x8f &&& (0x80 ||| opcode))
  if payLoadLength < 126 then outputBuf.putByte payLoadLength
  else if payLoadLength ≤ 0xffff then do
    let outputBuf ← outputBuf.putByte 126
    outputBuf.putUInt16 payLoadLength
  else if 0xfff < payLoadLength then do
    let outputBuf ← outputBuf.putByte 127
    outputBuf.putUInt64 payLoadLength
  else return outputBuf

def writeHeader (ws : WebSocketConnection) (payLoadLength opcode : ℕ) :
    Except WebSocketConnection WebSocketConnection :=
  if ws.outputBuf_.empty then ws.withOutput (putHeader ws.outputBuf_ payLoadLength opcode)
  else .error ws

/-- `conn_->send` of all that `outputBuf_` holds and then of `body`. -/
def sendOutput (ws : WebSocketConnection) (body : Bytes) :
    Except WebSocketConnection WebSocketConnection :=
  match ws.outputBuf_.readString with
  | some (bytes, outputBuf) => .ok ({ ws with outputBuf_ := outputBuf }.emit (.send (bytes ++ body)))
  | none => .error ws

def sendMove (ws : WebSocketConnection) (data : Bytes) (isBinary : Bool) :
    Except WebSocketConnection WebSocketConnection :=
  if ws.outputBuf_.empty then do
    let ws ← ws.writeHeader data.length (if isBinary then 2 else 1)
    ws.sendOutput data
  else .error ws

def sendMessage (ws : WebSocketConnection) (data : Bytes) (isBinary : Bool) :
    Except WebSocketConnection WebSocketConnection := do
  let ws ← ws.writeHeader data.length (if isBinary then 2 else 1)
  let ws ← ws.withOutput (ws.outputBuf_.write data)
  ws.sendOutput []

def putClose (outputBuf : Buffer) (code : StatusCode) : Option Buffer := do
  let outputBuf := if 0 < outputBuf.readableBytes then outputBuf.clear else outputBuf
  let outputBuf ← outputBuf.putByte 0x88
  let outputBuf ← outputBuf.putByte 0x02
  outputBuf.putUInt16 code.value

/-- `conn_->send(outputBuf_.peek(), 4)`, which takes nothing out. -/
def sendClose (ws : WebSocketConnection) : Except WebSocketConnection WebSocketConnection :=
  match ws.outputBuf_.peek 4 with
  | some bytes => .ok (ws.emit (.send bytes))
  | none => .error ws

def close (ws : WebSocketConnection) (code : StatusCode) :
    Except WebSocketConnection WebSocketConnection := do
  let ws ← ws.withOutput (putClose ws.outputBuf_ code)
  let ws := { ws with status_ := .CLOSING }
  (if code ≠ .NORMAL_CLOSE then ws.emit .stopRead else ws).sendClose

def sendControl (ws : WebSocketConnection) (control : ℕ) (message : Bytes) :
    Except WebSocketConnection WebSocketConnection := do
  let ws ← ws.withOutput (do
    let outputBuf ← ws.outputBuf_.putByte control
    let outputBuf ← outputBuf.putByte message.length
    outputBuf.write message)
  ws.sendOutput []

def ping (ws : WebSocketConnection) (message : Bytes) :
    Except WebSocketConnection WebSocketConnection :=
  if 126 ≤ message.length then ws.close .PROTOCOL_ERROR
  else ws.sendControl (0xff &&& 0x8f &&& 0xf9) message

/-- `close(PROTOCOL_ERROR)` where `decode` or `pong` calls it. -/
def protocolError (ws : WebSocketConnection) : Except WebSocketConnection WebSocketConnection :=
  (ws.emit .protocolError).close .PROTOCOL_ERROR

def pong (ws : WebSocketConnection) (message : Bytes) :
    Except WebSocketConnection WebSocketConnection :=
  if 126 ≤ message.length then ws.protocolError
  else ws.sendControl (0xff &&& 0x8f &&& 0xfa) message

/-! ## Calls from the application -/

def call (ws : WebSocketConnection) : ApiCall → Except WebSocketConnection WebSocketConnection
  | .sendMove data isBinary => ws.sendMove data isBinary
  | .sendMessage data isBinary => ws.sendMessage data isBinary
  | .ping message => ws.ping message
  | .pong message => ws.pong message
  | .close code => ws.close code

def calls (ws : WebSocketConnection) : List ApiCall → Except WebSocketConnection WebSocketConnection
  | [] => .ok ws
  | c :: cs => do
    let ws ← ws.call c
    ws.calls cs

def runCallback (ws : WebSocketConnection) (callback : Option Callback) (effect : Effect) :
    Except WebSocketConnection WebSocketConnection :=
  match callback with
  | some answer => (ws.emit effect).calls (answer (ws.emit effect).trace)
  | none => .ok ws

/-! ## The header -/

def orAbort (r : Except WebSocketConnection WebSocketConnection) :
    Except (Call WebSocketConnection) WebSocketConnection := r.mapError .aborted

/-- The return behind `close(PROTOCOL_ERROR)`. -/
def refuse (ws : WebSocketConnection) : Except (Call WebSocketConnection) WebSocketConnection := do
  let ws ← orAbort ws.protocolError
  throw (.returned ws)

def readNumber (ws : WebSocketConnection) (size : ℕ) :
    Except (Call WebSocketConnection) (ℕ × WebSocketConnection) :=
  match ws.inputBuffer.readTypedNumber size with
  | some (number, inputBuffer) => .ok (number, { ws with inputBuffer := inputBuffer })
  | none => .error (.aborted ws)

def waitFor (ws : WebSocketConnection) (wanted readSize : ℕ) : Call WebSocketConnection :=
  match ws.inputBuffer.unread readSize with
  | some inputBuffer =>
    .returned { ws with
      headerRead_ := false
      wanted_ := wanted
      inputBuffer := inputBuffer }
  | none => .aborted ws

def readFirstByte (ws : WebSocketConnection) :
    Except (Call WebSocketConnection) WebSocketConnection := do
  let (firstByte, ws) ← ws.readNumber 1
  if firstByte &&& 0x70 ≠ 0 then
    (ws.emit .frame).refuse
  else
    return { ws with
      isFin_ := firstByte >>> 7 ≠ 0
      opcode_ := firstByte &&& 0x0f }

def readSecondByte (ws : WebSocketConnection) :
    Except (Call WebSocketConnection) WebSocketConnection :=
  if ws.inputBuffer.readableBytes < 1 then
    throw (ws.waitFor 2 1)
  else do
    let (secondByte, ws) ← ws.readNumber 1
    return { ws with
      masked_ := secondByte >>> 7 = 1
      payloadLength_ := secondByte &&& 0x7f
      wanted_ := secondByte &&& 0x7f }

def readLength (ws : WebSocketConnection) :
    Except (Call WebSocketConnection) (ℕ × WebSocketConnection) :=
  if ws.payloadLength_ = 126 then
    if ws.inputBuffer.readableBytes < 2 then
      throw (ws.waitFor 4 2)
    else do
      let (payloadLength, ws) ← ws.readNumber 2
      return (4, { ws with payloadLength_ := payloadLength })
  else if ws.payloadLength_ = 127 then
    if ws.inputBuffer.readableBytes < 8 then
      throw (ws.waitFor 10 2)
    else do
      let (payloadLength, ws) ← ws.readNumber 8
      return (10, { ws with payloadLength_ := payloadLength })
  else return (2, ws)

def readMaskKey (ws : WebSocketConnection) (readSize : ℕ) :
    Except (Call WebSocketConnection) WebSocketConnection :=
  if ws.masked_ then
    if ws.inputBuffer.readableBytes < 4 then
      throw (ws.waitFor (readSize + 4) readSize)
    else
      match ws.inputBuffer.read 4 with
      | some (maskKey, inputBuffer) =>
        return { ws with
          maskKey_ := maskKey
          inputBuffer := inputBuffer }
      | none => throw (.aborted ws)
  else return ws

def readHeader (ws : WebSocketConnection) :
    Except (Call WebSocketConnection) WebSocketConnection := do
  let ws ← ws.readFirstByte
  let ws ← ws.readSecondByte
  let (readSize, ws) ← ws.readLength
  ws.readMaskKey readSize

/-! ## The frame -/

def clearDecodeStatus (ws : WebSocketConnection) : WebSocketConnection :=
  { ws with
    wanted_ := 0
    headerRead_ := false }

/-- `decodeBuf_.retrieve(decodeBuf_.readableBytes())`. -/
def dropAssembly (ws : WebSocketConnection) :
    Except (Call WebSocketConnection) WebSocketConnection :=
  match ws.decodeBuf_.retrieve (ssize_t ws.decodeBuf_.readableBytes) with
  | some decodeBuf => return { ws with decodeBuf_ := decodeBuf }
  | none => throw (.aborted ws)

/-- `wsMessageCallback_(decodeBuf_.readString(), isBinary)`, or the bytes dropped without one. -/
def deliver (ws : WebSocketConnection) (isBinary : Bool) :
    Except (Call WebSocketConnection) WebSocketConnection :=
  if ws.wsMessageCallback_.isSome then
    match ws.decodeBuf_.readString with
    | some (payload, decodeBuf) =>
      orAbort ({ ws with decodeBuf_ := decodeBuf }.runCallback ws.wsMessageCallback_
        (.message payload isBinary))
    | none => throw (.aborted ws)
  else ws.dropAssembly

def deliverFragments (ws : WebSocketConnection) :
    Except (Call WebSocketConnection) WebSocketConnection :=
  if ws.wsMessageCallback_.isNone ∨ ws.fragmentedOpCode_ = 0x01 ∨ ws.fragmentedOpCode_ = 0x02 then
    ws.deliver (ws.fragmentedOpCode_ = 0x02)
  else return ws

def onContinuation (ws : WebSocketConnection) :
    Except (Call WebSocketConnection) WebSocketConnection :=
  if ws.fragmentedOpCode_ = 0 then ws.refuse
  else if ws.isFin_ then do
    let ws ← ws.deliverFragments
    return { ws with fragmentedOpCode_ := 0 }.clearDecodeStatus
  else return ws.clearDecodeStatus

def onData (ws : WebSocketConnection) : Except (Call WebSocketConnection) WebSocketConnection :=
  if ws.fragmentedOpCode_ ≠ 0 then ws.refuse
  else if ws.isFin_ then do
    let ws ← ws.deliver (ws.opcode_ = 2)
    return ws.clearDecodeStatus
  else return { ws with fragmentedOpCode_ := ws.opcode_ }.clearDecodeStatus

def onClose (ws : WebSocketConnection) : Except (Call WebSocketConnection) WebSocketConnection :=
  if ws.status_ = .CONNECT then do
    let ws ← orAbort (ws.close .NORMAL_CLOSE)
    return { ws with status_ := .CLOSED }.emit .closeTcp
  else return ws

/-- `String(decodeBuf_.peek() + originSize, payloadLength_)`. -/
def controlPayload (ws : WebSocketConnection) (originSize : ℕ) :
    Except (Call WebSocketConnection) Bytes :=
  match ws.decodeBuf_.load (ws.decodeBuf_.readIndex_ + originSize) ws.payloadLength_ with
  | some payload => return payload
  | none => throw (.aborted ws)

/-- A callback that is set is told the payload. -/
def tellControl (ws : WebSocketConnection) (callback : Option Callback) (effect : Bytes → Effect)
    (originSize : ℕ) : Except (Call WebSocketConnection) WebSocketConnection :=
  if callback.isSome then do
    let payload ← ws.controlPayload originSize
    orAbort (ws.runCallback callback (effect payload))
  else return ws

def dropControl (ws : WebSocketConnection) (originSize : ℕ) :
    Except (Call WebSocketConnection) WebSocketConnection :=
  if originSize ≠ 0 then
    match ws.decodeBuf_.unwrite ws.payloadLength_ with
    | some decodeBuf => return { ws with decodeBuf_ := decodeBuf }.clearDecodeStatus
    | none => throw (.aborted ws)
  else return ws.clearDecodeStatus

def onPing (ws : WebSocketConnection) (originSize : ℕ) :
    Except (Call WebSocketConnection) WebSocketConnection :=
  if ¬ ws.isFin_ then ws.refuse
  else do
    let ws ← ws.tellControl ws.pingCallback_ .ping originSize
    let payload ← ws.controlPayload originSize
    let ws ← orAbort (ws.pong payload)
    ws.dropControl originSize

def onPong (ws : WebSocketConnection) (originSize : ℕ) :
    Except (Call WebSocketConnection) WebSocketConnection :=
  if ¬ ws.isFin_ then ws.refuse
  else do
    let ws ← ws.tellControl ws.pongCallback_ .pong originSize
    ws.dropControl originSize

/-- The switch over `opcode_`. -/
def onFrame (ws : WebSocketConnection) (originSize : ℕ) :
    Except (Call WebSocketConnection) WebSocketConnection :=
  match ws.opcode_ with
  | 0 => ws.onContinuation
  | 1 => ws.onData
  | 2 => ws.onData
  | 0x08 => ws.onClose
  | 0x09 => ws.onPing originSize
  | 0x0a => ws.onPong originSize
  | _ => ws.refuse

/-- `decodeBuf_` with the payload, unmasked where it is masked, and what is left of the input. -/
def movePayload (ws : WebSocketConnection) : Option (Buffer × Buffer) := do
  let (decodeBuf, inputBuffer) ← ws.decodeBuf_.writeFrom ws.inputBuffer ws.payloadLength_
  if ws.masked_ then do
    let decodeBuf ← decodeBuf.unmaskFrom ws.decodeBuf_.readableBytes ws.maskKey_
    return (decodeBuf, inputBuffer)
  else return (decodeBuf, inputBuffer)

def readPayload (ws : WebSocketConnection) :
    Except (Call WebSocketConnection) WebSocketConnection :=
  if ws.inputBuffer.readableBytes < ws.payloadLength_ then
    throw (.returned { ws with
      split_ := true
      wanted_ := ws.payloadLength_ })
  else
    match ws.movePayload with
    | some (decodeBuf, inputBuffer) =>
      return { ws with
        inputBuffer := inputBuffer
        decodeBuf_ := decodeBuf }
    | none => throw (.aborted ws)

/-! ## The function -/

def decodeBody (ws : WebSocketConnection) :
    Except (Call WebSocketConnection) WebSocketConnection := do
  let originSize := ws.decodeBuf_.readableBytes
  let ws ← ws.readPayload
  (ws.emit .frame).onFrame originSize

def decodeHeader (ws : WebSocketConnection) :
    Except (Call WebSocketConnection) WebSocketConnection :=
  if ws.headerRead_ then return { ws with headerRead_ := true }
  else do
    let ws ← ws.readHeader
    return { ws with headerRead_ := true }

/-- One activation of `decode`. -/
def decodeCall (ws : WebSocketConnection) : Call WebSocketConnection :=
  match ws.decodeHeader >>= decodeBody with
  | .ok ws => if 0 < ws.inputBuffer.readableBytes then .again ws else .returned ws
  | .error ended => ended

/-- `decode`. -/
def decode (ws : WebSocketConnection) : Call WebSocketConnection :=
  Call.iterate decodeCall (ws.inputBuffer.readableBytes + 2) ws

/-- `parse`, with what `http_parser_execute` does to the connection and the number it returns. -/
def parse (httpParserExecute : WebSocketConnection → Bytes → ℕ × WebSocketConnection)
    (ws : WebSocketConnection) : Call WebSocketConnection :=
  if ws.inputBuffer.readableBytes < ws.wanted_ then .returned ws
  else
    match ws.status_ with
    | .INITIAL =>
      match ws.inputBuffer.peek ws.inputBuffer.readableBytes with
      | some bytes =>
        let (nparsed, ws) := httpParserExecute ws bytes
        match ws.inputBuffer.retrieve (ssize_t nparsed) with
        | some inputBuffer => .returned { ws with inputBuffer := inputBuffer }
        | none => .aborted ws
      | none => .aborted ws
    | .CONNECT | .CLOSING => ws.decode
    | .HANDSHAKE | .CLOSED => .returned ws

/-- A read for each of the chunks, each followed by `parse`. -/
def feed (httpParserExecute : WebSocketConnection → Bytes → ℕ × WebSocketConnection)
    (ws : WebSocketConnection) : List Bytes → Call WebSocketConnection
  | [] => .returned ws
  | bytes :: chunks =>
    match ws.inputBuffer.write bytes with
    | some inputBuffer =>
      ({ ws with inputBuffer := inputBuffer }.parse httpParserExecute).andThen fun ws =>
        ws.feed httpParserExecute chunks
    | none => .aborted ws

end WebSocketConnection
end Machine
end WsEngine
