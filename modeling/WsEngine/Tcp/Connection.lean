import WsEngine.Buffer.Queue

/-! # The TCP connection

`ws::TcpConnection` (`src/TcpConnection.cpp`, `include/ws/TcpConnection.h`) together with its side
of libuv. `uv_write` takes a request or refuses it: the number it returned is an argument of
everything that calls it, at least zero when the request was taken. A request taken waits in
`writes` for its completion. An assertion that fails ends the process and is an error here.

`writeCompleteCallback_` is set nowhere in the repository and is left out; the other callbacks of
the connection run code of the layers above and change nothing here. -/
set_option autoImplicit false

namespace WsEngine

inductive StateE
  | kConnecting | kConnected | kDisconnected | kDisconnecting | kWritting
  deriving DecidableEq, Repr

/-- The assertions of `send`, of `handleClose`, and those inside `Buffer`. -/
inductive TcpFault
  | sendNotConnected | closeNotConnected | buffer
  deriving DecidableEq, Repr

/-- A `uv_buf_t`: its bytes, and its offset and length in `outputBuf` where it points there. -/
structure UvBuf where
  bytes : Bytes
  region : Option (ℕ × ℕ)

structure TcpConnection where
  buf : Buffer
  outputBuf : Buffer
  isLastWrite : Bool
  state_ : StateE
  bytesRead_ : ℤ
  bytesWritten_ : ℤ
  lastWrite_ : ℕ
  -- the libuv handle: is it reading, and the requests taken and not completed, oldest first
  reading : Bool
  writes : List (List UvBuf)
  -- for the specifications: the bytes given to `uv_write` so far, the bytes of the sends that
  -- returned, and how often the callbacks were told of the disconnect
  submitted : Bytes
  accepted : Bytes
  notified : ℕ

namespace TcpConnection

/-- `+=` on an `int`. -/
def addInt (x : ℤ) (len : ℕ) : ℤ := Int.bmod (x + len) (2 ^ 32)

def setState (c : TcpConnection) (state : StateE) : TcpConnection := { c with state_ := state }

def stopRead (c : TcpConnection) : TcpConnection := { c with reading := false }

def handleMessage (c : TcpConnection) (len : ℕ) : TcpConnection :=
  { c with bytesRead_ := addInt c.bytesRead_ len }

def handleWrite (c : TcpConnection) (len : ℕ) : TcpConnection :=
  { c with bytesWritten_ := addInt c.bytesWritten_ len }

def resetLastWrite (c : TcpConnection) : TcpConnection := { c with lastWrite_ := 0 }

def writeToUv (c : TcpConnection) (bufs : List UvBuf) (uv : ℤ) : ℤ × TcpConnection :=
  if 0 ≤ uv then
    (uv, { c with
      writes := c.writes ++ [bufs]
      submitted := c.submitted ++ bufs.flatMap UvBuf.bytes })
  else (uv, c)

/-- `send(const char *, size_t)`. -/
def send (c : TcpConnection) (sendBuf : UvBuf) (uv : ℤ) : Except TcpFault (ℤ × TcpConnection) :=
  if c.state_ = .kWritting then
    .ok (0, { c with outputBuf := c.outputBuf.write sendBuf.bytes })
  else if c.state_ = .kConnected then
    .ok ({ c with
      lastWrite_ := sendBuf.bytes.length
      state_ := .kWritting }.writeToUv [sendBuf] uv)
  else .error .sendNotConnected

/-- `send(Buffer& buf)`; also returns `buf`. -/
def sendBuffer (c : TcpConnection) (buf : Buffer) (uv : ℤ) :
    Except TcpFault (ℤ × Buffer × TcpConnection) := do
  let readable := buf.readableBytes
  let (ret, c) ← c.send ⟨buf.peek buf.readableBytes, none⟩ uv
  match buf.retrieve readable with
  | some buf => return (ret, buf, c)
  | none => throw .buffer

/-- `send(Buffer& header, String&& body)`; also returns `header`. -/
def sendScatter (c : TcpConnection) (header : Buffer) (body : Bytes) (uv : ℤ) :
    Except TcpFault (ℤ × Buffer × TcpConnection) :=
  if c.state_ = .kWritting then
    match c.outputBuf.writeAll header with
    | some (outputBuf, header) => .ok (0, header, { c with outputBuf := outputBuf.write body })
    | none => .error .buffer
  else
    let uvBuf : List UvBuf := [⟨header.peek header.readableBytes, none⟩, ⟨body, none⟩]
    match header.retrieve header.readableBytes with
    | some header =>
      let (ret, c) := c.writeToUv uvBuf uv
      .ok (ret, header, c)
    | none => .error .buffer

def handleClose (c : TcpConnection) : Except TcpFault TcpConnection :=
  if c.state_ = .kWritting then .ok (c.setState .kDisconnecting)
  else if c.state_ = .kConnected ∨ c.state_ = .kConnecting then
    let c := (c.setState .kDisconnected).stopRead
    -- connectionCallback_ and closeCallback_
    .ok { c with notified := c.notified + 1 }
  else .error .closeNotConnected

def close (c : TcpConnection) : Except TcpFault TcpConnection := c.handleClose

/-- `on_uv_read`, with the bytes that libuv put at `writeStart()` when `nread` is positive. -/
def onUvRead (c : TcpConnection) (nread : ℤ) (bytes : Bytes) : Except TcpFault TcpConnection :=
  if nread < 0 then c.handleClose
  else if nread = 0 then c.close
  else .ok ({ c with buf := c.buf.write bytes }.handleMessage nread.toNat)

/-- The end of the completion callback: what waits in `outputBuf` is sent. -/
def flush (c : TcpConnection) (uv : ℤ) : Except TcpFault TcpConnection :=
  if 0 < c.outputBuf.readableBytes then do
    let (_, c) ← c.send ⟨c.outputBuf.peek c.outputBuf.readableBytes,
      some (c.outputBuf.readIndex_, c.outputBuf.readableBytes)⟩ uv
    match c.outputBuf.retrieve c.outputBuf.readableBytes with
    | some outputBuf => return { c with outputBuf := outputBuf }
    | none => throw .buffer
  else return c

/-- The completion callback that `writeToUv` gives to `uv_write`. -/
def onUvWrite (c : TcpConnection) (status uv : ℤ) : Except TcpFault TcpConnection :=
  if status < 0 then c.handleClose
  else
    let c := (c.handleWrite c.lastWrite_).resetLastWrite
    if c.isLastWrite then do
      let c ← (c.setState .kConnected).handleClose
      return { c with isLastWrite := false }
    else if c.state_ = .kDisconnecting then
      let c := c.setState .kConnected
      if 0 < c.outputBuf.readableBytes then
        ({ c with isLastWrite := true }.setState .kConnected).flush uv
      else c.handleClose
    else (c.setState .kConnected).flush uv

/-! ## What the functions do, in closed form -/

def disconnected (c : TcpConnection) : TcpConnection :=
  { c with
    state_ := .kDisconnected
    reading := false
    notified := c.notified + 1 }

def pending (c : TcpConnection) : UvBuf :=
  ⟨c.outputBuf.readable, some (c.outputBuf.readIndex_, c.outputBuf.readable.length)⟩

def flushed (c : TcpConnection) (uv : ℤ) : TcpConnection :=
  { c with
    state_ := .kWritting
    lastWrite_ := c.outputBuf.readable.length
    outputBuf := c.outputBuf.advance c.outputBuf.readable.length
    writes := if 0 ≤ uv then c.writes ++ [[c.pending]] else c.writes
    submitted := if 0 ≤ uv then c.submitted ++ c.outputBuf.readable else c.submitted }

theorem handleClose_writting {c : TcpConnection} (h : c.state_ = .kWritting) :
    c.handleClose = .ok { c with state_ := .kDisconnecting } := if_pos h

theorem handleClose_connected {c : TcpConnection} (h : c.state_ = .kConnected) :
    c.handleClose = .ok c.disconnected := by
  rw [handleClose, if_neg (by rw [h]; decide), if_pos (.inl h)]
  rfl

theorem handleClose_closed {c : TcpConnection}
    (h : c.state_ = .kDisconnecting ∨ c.state_ = .kDisconnected) :
    c.handleClose = .error .closeNotConnected := by
  rcases h with h | h
  · rw [handleClose, if_neg (by rw [h]; decide), if_neg (by rw [h]; decide)]
  · rw [handleClose, if_neg (by rw [h]; decide), if_neg (by rw [h]; decide)]

/-- What `handleClose` does where it does not fail. -/
theorem handleClose_cases {c c' : TcpConnection} (h : c.handleClose = .ok c') :
    c.state_ = .kWritting ∧ c' = { c with state_ := .kDisconnecting } ∨
      (c.state_ = .kConnected ∨ c.state_ = .kConnecting) ∧ c' = c.disconnected := by
  unfold handleClose at h
  by_cases hw : c.state_ = .kWritting
  · rw [if_pos hw] at h
    cases h
    exact .inl ⟨hw, rfl⟩
  · rw [if_neg hw] at h
    by_cases ho : c.state_ = .kConnected ∨ c.state_ = .kConnecting
    · rw [if_pos ho] at h
      cases h
      exact .inr ⟨ho, rfl⟩
    · rw [if_neg ho] at h
      cases h

theorem send_writting {c : TcpConnection} (sendBuf : UvBuf) (uv : ℤ) (h : c.state_ = .kWritting) :
    c.send sendBuf uv = .ok (0, { c with outputBuf := c.outputBuf.write sendBuf.bytes }) := if_pos h

theorem send_connected {c : TcpConnection} (sendBuf : UvBuf) (uv : ℤ) (h : c.state_ = .kConnected) :
    c.send sendBuf uv = .ok ({ c with
      lastWrite_ := sendBuf.bytes.length
      state_ := .kWritting }.writeToUv [sendBuf] uv) := by
  rw [send, if_neg (by rw [h]; decide), if_pos h]

theorem flush_eq {c : TcpConnection} (uv : ℤ) (h : c.state_ = .kConnected) :
    c.flush uv = .ok (if c.outputBuf.readable = [] then c else c.flushed uv) := by
  unfold flush
  rw [Buffer.readableBytes_eq]
  by_cases hq : c.outputBuf.readable = []
  · rw [if_neg (by rw [hq]; decide), if_pos hq]
    rfl
  · have hpos : 0 < c.outputBuf.readable.length := List.length_pos_iff.mpr hq
    have hpeek : c.outputBuf.peek c.outputBuf.readable.length = c.outputBuf.readable := by
      rw [Buffer.peek_eq_take (le_refl _), List.take_length]
    rw [if_pos hpos, if_neg hq, hpeek, send_connected _ uv h]
    by_cases huv : 0 ≤ uv
    · simp only [writeToUv, if_pos huv, bind, Except.bind, Buffer.readableBytes_eq,
        Buffer.retrieve_eq (le_refl _), flushed, pending, List.flatMap_cons, List.flatMap_nil,
        List.append_nil]
      rfl
    · simp only [writeToUv, if_neg huv, bind, Except.bind, Buffer.readableBytes_eq,
        Buffer.retrieve_eq (le_refl _), flushed]
      rfl

def written (c : TcpConnection) : TcpConnection := (c.handleWrite c.lastWrite_).resetLastWrite

/-- **A failed completion** is a call of `handleClose`. -/
theorem onUvWrite_failed {c : TcpConnection} {status : ℤ} (uv : ℤ) (h : status < 0) :
    c.onUvWrite status uv = c.handleClose := if_pos h

/-- **A successful completion** disconnects after the last write or when a close waits and nothing
is queued, and else flushes what is queued. -/
theorem onUvWrite_ok {c : TcpConnection} {status : ℤ} (uv : ℤ) (h : 0 ≤ status) :
    c.onUvWrite status uv = .ok (
      if c.isLastWrite then { c.written.disconnected with isLastWrite := false }
      else if c.outputBuf.readable = [] then
        if c.state_ = .kDisconnecting then c.written.disconnected
        else c.written.setState .kConnected
      else if c.state_ = .kDisconnecting then
        { c.written with
          isLastWrite := true
          state_ := .kConnected }.flushed uv
      else (c.written.setState .kConnected).flushed uv) := by
  have hlast : c.written.isLastWrite = c.isLastWrite := rfl
  have hstate : c.written.state_ = c.state_ := rfl
  have hout : c.written.outputBuf = c.outputBuf := rfl
  rw [onUvWrite, if_neg (by omega)]
  change (if c.written.isLastWrite then _ else if c.written.state_ = .kDisconnecting then _ else _) = _
  rw [hlast, hstate]
  by_cases h1 : c.isLastWrite = true
  · rw [if_pos h1, if_pos h1, handleClose_connected (by rfl)]
    rfl
  · rw [if_neg h1, if_neg h1]
    by_cases h2 : c.state_ = .kDisconnecting
    · rw [if_pos h2, if_pos h2, if_pos h2]
      by_cases h3 : c.outputBuf.readable = []
      · rw [if_pos h3, if_neg, handleClose_connected (by rfl)]
        · rfl
        · change ¬ 0 < c.outputBuf.readableBytes
          rw [Buffer.readableBytes_eq, h3]
          decide
      · rw [if_neg h3, if_pos, flush_eq uv (by rfl), if_neg (by exact h3)]
        · rfl
        · change 0 < c.outputBuf.readableBytes
          rw [Buffer.readableBytes_eq]
          exact List.length_pos_iff.mpr h3
    · rw [if_neg h2, if_neg h2, if_neg h2, flush_eq uv (by rfl)]
      by_cases h3 : c.outputBuf.readable = []
      · rw [if_pos h3, if_pos (by exact h3)]
        rfl
      · rw [if_neg h3, if_neg (by exact h3)]
        rfl

end TcpConnection
end WsEngine
