import Mathlib.Data.List.AList
import WsEngine.Lib.EventSystem
import WsEngine.Tcp.System
import WsEngine.Ws.Decode

/-! # The server and its registries

`ws::TcpServer` (`src/TcpServer.cpp`) and `ws::WebSocketServer` (`src/WebSocketServer.cpp`) with one
thread. Two maps go by the id of a connection: `connectionMap_` from the accept on, `wsConns_` from the
first bytes on. They are cleaned up by different callbacks of the TCP connection: `wsConns_` by the
connection callback, `connectionMap_` by the close callback, which `WebSocketConnection::onClose`
replaces.

A pointer to a connection is its position among all that were made. What `parse` and the callbacks of
the application do on a TCP connection are events of their own, behind the one that led to them. -/
set_option autoImplicit false

namespace WsEngine

/-- What `closeCallback_` is bound to: the function of the server, or `handleClose` of the WebSocket
connection. -/
inductive CloseCallback
  | closeConnection | handleClose
  deriving DecidableEq, Repr

/-- A `TcpConnection` with the fields that the server gives it. The id is an `int` in the source, which
`getNextId` counts up from zero: it is this number for the first `2^31` accepts. -/
structure ServerConnection where
  id_ : ℕ
  tcp : TcpConnection
  closeCallback_ : CloseCallback

/-- A `WebSocketConnection` with the pointer to its TCP connection, which is taken to be alive. -/
structure WebSocketPeer where
  conn_ : ℕ
  ws : WebSocketConnection

structure Server where
  id_ : ℕ
  connectionMap_ : AList fun _ : ℕ => ℕ
  wsConns_ : AList fun _ : ℕ => WebSocketPeer
  -- all connections that were made
  conns : List ServerConnection

/-- The assertion of `closeConnection`, or one of a connection. -/
inductive ServerFault
  | closeConnection
  | tcp (fault : TcpFault)
  | ws (ended : WebSocketConnection)

inductive ServerEvent
  | connection (status : ℤ)
  | receive (conn : ℕ) (bytes : Bytes)
  | tcp (conn : ℕ) (e : TcpEvent)
  -- calls of the application on a connection that it was told of
  | onClose (id : ℕ)
  | onMessage (id : ℕ) (callback : Callback)

/-- Bytes come in through the message callback. -/
def TcpEvent.isRead : TcpEvent → Bool
  | readData _ => true
  | send _ _ | sendBuffer _ _ | sendScatter _ _ _ | close | readEnd _ | writeDone _ _ => false

namespace Server

def initial : Server := ⟨0, ∅, ∅, []⟩

/-- `on_uv_connection`. -/
def onUvConnection (s : Server) (status : ℤ) : Server :=
  if status < 0 then s
  else { s with
    id_ := s.id_ + 1
    connectionMap_ := s.connectionMap_.insert s.id_ s.conns.length
    conns := s.conns ++ [⟨s.id_, .fresh, .closeConnection⟩] }

/-- `connectionCallback_`. -/
def handleConnection (s : Server) (conn : ServerConnection) : Server :=
  if conn.tcp.state_ = .kDisconnected then
    { s with wsConns_ := s.wsConns_.erase conn.id_ }
  else s

def closeConnection (s : Server) (conn : ServerConnection) : Except ServerFault Server :=
  if conn.id_ ∈ s.connectionMap_ then
    .ok { s with connectionMap_ := s.connectionMap_.erase conn.id_ }
  else .error .closeConnection

/-- The callbacks that `TcpConnection::handleClose` runs. The second may be `handleClose` of a WebSocket
connection that `wsConns_` has no more. -/
def tell (s : Server) (conn : ServerConnection) : Except ServerFault Server :=
  let s := s.handleConnection conn
  match conn.closeCallback_ with
  | .closeConnection => s.closeConnection conn
  | .handleClose => .ok s

def setConn (s : Server) (p : ℕ) (conn : ServerConnection) : Server :=
  { s with conns := s.conns.set p conn }

/-- An event of a TCP connection, with its callbacks when it disconnects. -/
def onTcp (s : Server) (p : ℕ) (conn : ServerConnection) (e : TcpEvent) :
    Except ServerFault Server := do
  let tcp ← (conn.tcp.step e).mapError .tcp
  let s := s.setConn p { conn with tcp := tcp }
  if conn.tcp.notified < tcp.notified then s.tell { conn with tcp := tcp }
  else return s

variable (httpParserExecute : WebSocketConnection → Bytes → ℕ × WebSocketConnection)

/-- The message callback, with the bytes that are new in the buffer of the connection. -/
def handleMessage (s : Server) (p : ℕ) (conn : ServerConnection) (bytes : Bytes) :
    Except ServerFault Server :=
  let peer := (s.wsConns_.lookup conn.id_).getD ⟨p, .initial⟩
  match (peer.ws.receive bytes).parse httpParserExecute with
  | .returned ws => .ok { s with
      wsConns_ := s.wsConns_.insert conn.id_ { peer with ws := ws } }
  | .again ws | .aborted ws => .error (.ws ws)

def onReceive (s : Server) (p : ℕ) (conn : ServerConnection) (bytes : Bytes) :
    Except ServerFault Server := do
  let s ← s.onTcp p conn (.readData bytes)
  s.handleMessage httpParserExecute p conn bytes

/-- `conn_->setCloseCallback` in `WebSocketConnection::onClose`. -/
def onClose (s : Server) (peer : WebSocketPeer) : Server :=
  match s.conns[peer.conn_]? with
  | some conn => s.setConn peer.conn_ { conn with closeCallback_ := .handleClose }
  | none => s

def onMessage (s : Server) (id : ℕ) (peer : WebSocketPeer) (callback : Callback) : Server :=
  { s with
    wsConns_ := s.wsConns_.insert id { peer with
      ws := { peer.ws with wsMessageCallback_ := some callback } } }

def step (s : Server) : ServerEvent → Except ServerFault Server
  | .connection status => .ok (s.onUvConnection status)
  | .receive p bytes =>
    match s.conns[p]? with
    | some conn => s.onReceive httpParserExecute p conn bytes
    | none => .ok s
  | .tcp p e =>
    match s.conns[p]? with
    | some conn => s.onTcp p conn e
    | none => .ok s
  | .onClose id =>
    match s.wsConns_.lookup id with
    | some peer => .ok (s.onClose peer)
    | none => .ok s
  | .onMessage id callback =>
    match s.wsConns_.lookup id with
    | some peer => .ok (s.onMessage id peer callback)
    | none => .ok s

/-- The application is told of a connection when its handshake is done. -/
def Possible (s : Server) : ServerEvent → Prop
  | .connection _ => True
  | .receive p bytes => ∃ conn, s.conns[p]? = some conn ∧ conn.tcp.Possible (.readData bytes)
  | .tcp p e => e.isRead = false ∧ ∃ conn, s.conns[p]? = some conn ∧ conn.tcp.Possible e
  | .onClose id | .onMessage id _ =>
    ∃ peer, s.wsConns_.lookup id = some peer ∧ peer.ws.status_ ≠ .INITIAL

def system : EventSystem Server ServerEvent ServerFault := ⟨Possible, step httpParserExecute⟩

instance decidableFound {α : Type} {P : α → Prop} [DecidablePred P] :
    (found : Option α) → Decidable (∃ a, found = some a ∧ P a)
  | some a => decidable_of_iff (P a) (by simp)
  | none => isFalse nofun

instance (s : Server) : (e : ServerEvent) → Decidable (s.Possible e)
  | .connection _ => isTrue trivial
  | .receive p bytes =>
    inferInstanceAs (Decidable (∃ conn, s.conns[p]? = some conn ∧ conn.tcp.Possible (.readData bytes)))
  | .tcp p e => inferInstanceAs (Decidable (e.isRead = false ∧
      ∃ conn, s.conns[p]? = some conn ∧ conn.tcp.Possible e))
  | .onClose id | .onMessage id _ => inferInstanceAs (Decidable (∃ peer,
      s.wsConns_.lookup id = some peer ∧ peer.ws.status_ ≠ .INITIAL))

instance (s : Server) (e : ServerEvent) : Decidable ((system httpParserExecute).enabled s e) :=
  inferInstanceAs (Decidable (s.Possible e))

end Server
end WsEngine
