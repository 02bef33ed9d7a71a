import WsEngine.Buffer.Queue

/-! # The WebSocket connection and what it sends

The data of `ws::WebSocketConnection` (`include/ws/WebSocketConnection.h`) and the operations of
`src/WebSocketConnection.cpp` that an application calls. The TCP connection below appears by what
is handed to it, in the trace of effects; it takes everything it is handed. Application callbacks
are arbitrary: one is a function from all that happened so far to the calls it makes on the
connection. An operation whose assertion fails, which ends the process, is an error that carries
the state it was reached in. -/
set_option autoImplicit false

namespace WsEngine

inductive Status
  | INITIAL | HANDSHAKE | CONNECT | CLOSING | CLOSED
  deriving DecidableEq, Repr

inductive StatusCode
  | NORMAL_CLOSE | GOING_AWAY | PROTOCOL_ERROR | UNEXPECT_PAYLOAD
  deriving DecidableEq, Repr

def StatusCode.value : StatusCode → ℕ
  | NORMAL_CLOSE => 1000
  | GOING_AWAY => 1001
  | PROTOCOL_ERROR => 1002
  | UNEXPECT_PAYLOAD => 1003

inductive Effect
  -- the callbacks, with their arguments
  | message (payload : Bytes) (isBinary : Bool)
  | ping (payload : Bytes)
  | pong (payload : Bytes)
  -- `conn_->send`, `conn_->stopRead` and `conn_->close`
  | send (bytes : Bytes)
  | stopRead
  | closeTcp
  -- for the specifications: `decode` took up a frame that is complete or has a reserved bit set,
  -- and `decode` or `pong` found a protocol error
  | frame
  | protocolError
  deriving DecidableEq, Repr

/-- The public operations: `sendMessage` of a `String &&` or a `const String&`, `ping`, `pong` and
`close`. -/
inductive ApiCall
  | sendMove (data : Bytes) (isBinary : Bool)
  | sendMessage (data : Bytes) (isBinary : Bool)
  | ping (message : Bytes)
  | pong (message : Bytes)
  | close (code : StatusCode)
  deriving DecidableEq, Repr

abbrev Callback := List Effect → List ApiCall

structure WebSocketConnection where
  -- the buffer of the TCP connection, which `parse` and `decode` are given
  inputBuffer : Buffer
  status_ : Status
  headers_ : List (Bytes × Bytes)
  lastHeaderField_ : Bytes
  wsMessageCallback_ : Option Callback
  pingCallback_ : Option Callback
  pongCallback_ : Option Callback
  outputBuf_ : Buffer
  decodeBuf_ : Buffer
  fragmentedOpCode_ : ℕ
  headerRead_ : Bool
  wanted_ : ℕ
  split_ : Bool
  masked_ : Bool
  payloadLength_ : ℕ
  opcode_ : ℕ
  isFin_ : Bool
  maskKey_ : Bytes
  trace : List Effect

namespace WebSocketConnection

def emit (ws : WebSocketConnection) (effect : Effect) : WebSocketConnection :=
  { ws with trace := ws.trace ++ [effect] }

/-! ## Sending -/

def writeHeader (ws : WebSocketConnection) (payLoadLength opcode : ℕ) :
    Except WebSocketConnection WebSocketConnection :=
  if ws.outputBuf_.empty then
    let outputBuf := ws.outputBuf_.putByte (0x8f &&& (0x80 ||| opcode))
    .ok { ws with
      outputBuf_ :=
        if payLoadLength < 126 then outputBuf.putByte payLoadLength
        else if payLoadLength ≤ 0xffff then (outputBuf.putByte 126).putUInt16 payLoadLength
        else if 0xfff < payLoadLength then (outputBuf.putByte 127).putUInt64 payLoadLength
        else outputBuf }
  else .error ws

/-- `conn_->send` of all that `outputBuf_` holds and then of `body`. -/
def sendOutput (ws : WebSocketConnection) (body : Bytes) :
    Except WebSocketConnection WebSocketConnection :=
  let bytes := ws.outputBuf_.peek ws.outputBuf_.readableBytes
  match ws.outputBuf_.retrieve ws.outputBuf_.readableBytes with
  | some outputBuf => .ok ({ ws with outputBuf_ := outputBuf }.emit (.send (bytes ++ body)))
  | none => .error ws

/-- `sendMessage(String &&data, bool isBinary)`, which sends header and data as two buffers. -/
def sendMove (ws : WebSocketConnection) (data : Bytes) (isBinary : Bool) :
    Except WebSocketConnection WebSocketConnection :=
  if ws.outputBuf_.empty then do
    let ws ← ws.writeHeader data.length (if isBinary then 2 else 1)
    ws.sendOutput data
  else .error ws

/-- `sendMessage(const String& data, bool isBinary)`, which copies the data behind the header. -/
def sendMessage (ws : WebSocketConnection) (data : Bytes) (isBinary : Bool) :
    Except WebSocketConnection WebSocketConnection := do
  let ws ← ws.writeHeader data.length (if isBinary then 2 else 1)
  { ws with outputBuf_ := ws.outputBuf_.write data }.sendOutput []

/-- `outputBuf_` with the close frame alone. -/
def putClose (outputBuf : Buffer) (code : StatusCode) : Buffer :=
  let outputBuf := if 0 < outputBuf.readableBytes then outputBuf.clear else outputBuf
  ((outputBuf.putByte 0x88).putByte 0x02).putUInt16 code.value

def close (ws : WebSocketConnection) (code : StatusCode) : WebSocketConnection :=
  let ws := { ws with
    outputBuf_ := putClose ws.outputBuf_ code
    status_ := .CLOSING }
  let ws := if code ≠ .NORMAL_CLOSE then ws.emit .stopRead else ws
  ws.emit (.send (ws.outputBuf_.peek 4))

/-- The part that `ping` and `pong` share: a control frame through `outputBuf_`. -/
def sendControl (ws : WebSocketConnection) (control : ℕ) (message : Bytes) :
    Except WebSocketConnection WebSocketConnection :=
  let outputBuf := (ws.outputBuf_.putByte control).putByte message.length
  { ws with outputBuf_ := outputBuf.write message }.sendOutput []

def ping (ws : WebSocketConnection) (message : Bytes) :
    Except WebSocketConnection WebSocketConnection :=
  if 126 ≤ message.length then .ok (ws.close .PROTOCOL_ERROR)
  else ws.sendControl (0xff &&& 0x8f &&& 0xf9) message

/-- `close(PROTOCOL_ERROR)` where `decode` or `pong` calls it. -/
def protocolError (ws : WebSocketConnection) : WebSocketConnection :=
  (ws.emit .protocolError).close .PROTOCOL_ERROR

def pong (ws : WebSocketConnection) (message : Bytes) :
    Except WebSocketConnection WebSocketConnection :=
  if 126 ≤ message.length then .ok ws.protocolError
  else ws.sendControl (0xff &&& 0x8f &&& 0xfa) message

/-! ## Calls from the application -/

def call (ws : WebSocketConnection) : ApiCall → Except WebSocketConnection WebSocketConnection
  | .sendMove data isBinary => ws.sendMove data isBinary
  | .sendMessage data isBinary => ws.sendMessage data isBinary
  | .ping message => ws.ping message
  | .pong message => ws.pong message
  | .close code => .ok (ws.close code)

def calls (ws : WebSocketConnection) : List ApiCall → Except WebSocketConnection WebSocketConnection
  | [] => .ok ws
  | c :: cs => do
    let ws ← ws.call c
    ws.calls cs

/-- A callback that is set is told of `effect` and makes its calls. -/
def runCallback (ws : WebSocketConnection) (callback : Option Callback) (effect : Effect) :
    Except WebSocketConnection WebSocketConnection :=
  match callback with
  | some answer => (ws.emit effect).calls (answer (ws.emit effect).trace)
  | none => .ok ws

/-! ## Where a connection starts -/

/-- As the constructor leaves it. -/
def initial : WebSocketConnection where
  inputBuffer := .ofSize 4096
  status_ := .INITIAL
  headers_ := []
  lastHeaderField_ := []
  wsMessageCallback_ := none
  pingCallback_ := none
  pongCallback_ := none
  outputBuf_ := .ofSize Buffer.kInitialSize
  decodeBuf_ := .ofSize 64
  fragmentedOpCode_ := 0
  headerRead_ := false
  wanted_ := 0
  split_ := false
  masked_ := false
  payloadLength_ := 0
  opcode_ := 0
  isFin_ := false
  maskKey_ := []
  trace := []

/-- What the handshake leaves of the fields that frames are decoded with. -/
structure Fresh (ws : WebSocketConnection) : Prop where
  status : ws.status_ = .CONNECT
  output : ws.outputBuf_.readable = []
  decode : ws.decodeBuf_.readable = []
  fragmented : ws.fragmentedOpCode_ = 0
  header : ws.headerRead_ = false
  wanted : ws.wanted_ = 0
  trace : ws.trace = []

/-- A connection after the handshake, with the callbacks its application has set. -/
def connected (message ping pong : Option Callback) : WebSocketConnection :=
  { initial with
    status_ := .CONNECT
    wsMessageCallback_ := message
    pingCallback_ := ping
    pongCallback_ := pong }

theorem connected_fresh (message ping pong : Option Callback) :
    (connected message ping pong).Fresh where
  status := rfl
  output := Buffer.readable_ofSize _
  decode := Buffer.readable_ofSize _
  fragmented := rfl
  header := rfl
  wanted := rfl
  trace := rfl

end WebSocketConnection
end WsEngine
