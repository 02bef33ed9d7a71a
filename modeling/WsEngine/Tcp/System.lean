import WsEngine.Lib.EventSystem
import WsEngine.Tcp.Connection

/-! # What happens to a TCP connection

The calls its owner makes and the callbacks libuv makes, as events. libuv delivers reads while the
handle is reading, until one that reports the end of the stream or an error, and completes the
requests it took in order. An owner may call at any time; the restrictions that a specification
puts on the events are added to `Possible` where it is stated. -/
set_option autoImplicit false

namespace WsEngine

inductive TcpEvent
  | send (bytes : Bytes) (uv : ℤ)
  | sendBuffer (buf : Buffer) (uv : ℤ)
  | sendScatter (header : Buffer) (body : Bytes) (uv : ℤ)
  | close
  | readData (bytes : Bytes)
  | readEnd (nread : ℤ)
  | writeDone (status uv : ℤ)

def TcpEvent.bytes : TcpEvent → Bytes
  | .send bytes _ => bytes
  | .sendBuffer buf _ => buf.readable
  | .sendScatter header body _ => header.readable ++ body
  | _ => []

namespace TcpConnection

/-- A connection as `connectionEstablished()` leaves it. -/
structure Established (c : TcpConnection) : Prop where
  state : c.state_ = .kConnected
  queue : c.outputBuf.readable = []
  last : c.isLastWrite = false
  writes : c.writes = []
  submitted : c.submitted = []
  accepted : c.accepted = []
  notified : c.notified = 0

def kBufferLen : ℕ := 4096

/-- The connection that the constructor and `connectionEstablished()` make, reading. -/
def fresh : TcpConnection where
  buf := .ofSize kBufferLen
  outputBuf := .ofSize Buffer.kInitialSize
  isLastWrite := false
  state_ := .kConnected
  bytesRead_ := 0
  bytesWritten_ := 0
  lastWrite_ := 0
  reading := true
  writes := []
  submitted := []
  accepted := []
  notified := 0

theorem fresh_established : fresh.Established :=
  ⟨rfl, Buffer.readable_ofSize _, rfl, rfl, rfl, rfl, rfl⟩

def accept (c : TcpConnection) (bytes : Bytes) : TcpConnection :=
  { c with accepted := c.accepted ++ bytes }

def step (c : TcpConnection) : TcpEvent → Except TcpFault TcpConnection
  | .send bytes uv => (c.send ⟨bytes, none⟩ uv).map fun r => r.2.accept bytes
  | .sendBuffer buf uv => (c.sendBuffer buf uv).map fun r => r.2.2.accept buf.readable
  | .sendScatter header body uv =>
    (c.sendScatter header body uv).map fun r => r.2.2.accept (header.readable ++ body)
  | .close => c.close
  | .readData bytes => c.onUvRead bytes.length bytes
  | .readEnd nread => { c with reading := false }.onUvRead nread []
  | .writeDone status uv => { c with writes := c.writes.tail }.onUvWrite status uv

def Possible (c : TcpConnection) : TcpEvent → Prop
  | .readData bytes => c.reading = true ∧ bytes ≠ []
  | .readEnd nread => c.reading = true ∧ nread < 0
  | .writeDone _ _ => c.writes ≠ []
  | _ => True

instance (c : TcpConnection) : (e : TcpEvent) → Decidable (c.Possible e)
  | .readData bytes => inferInstanceAs (Decidable (c.reading = true ∧ bytes ≠ []))
  | .readEnd nread => inferInstanceAs (Decidable (c.reading = true ∧ nread < 0))
  | .writeDone _ _ => decidable_of_iff (c.writes.isEmpty = false) (by simp [Possible])
  | .send _ _ | .sendBuffer _ _ | .sendScatter _ _ _ | .close => isTrue trivial

/-! ## What each event does -/

def submit (c : TcpConnection) (bufs : List UvBuf) (uv : ℤ) : TcpConnection :=
  { c with
    writes := if 0 ≤ uv then c.writes ++ [bufs] else c.writes
    submitted := if 0 ≤ uv then c.submitted ++ bufs.flatMap UvBuf.bytes else c.submitted }

theorem writeToUv_eq (c : TcpConnection) (bufs : List UvBuf) (uv : ℤ) :
    c.writeToUv bufs uv = (uv, c.submit bufs uv) := by
  unfold writeToUv submit
  by_cases h : 0 ≤ uv
  · simp only [if_pos h]
  · simp only [if_neg h]

theorem step_send_writting {c : TcpConnection} (bytes : Bytes) (uv : ℤ) (h : c.state_ = .kWritting) :
    c.step (.send bytes uv) =
      .ok ({ c with outputBuf := c.outputBuf.write bytes }.accept bytes) := by
  rw [step, send_writting _ _ h]
  rfl

theorem step_send_connected {c : TcpConnection} (bytes : Bytes) (uv : ℤ)
    (h : c.state_ = .kConnected) :
    c.step (.send bytes uv) = .ok (({ c with
      lastWrite_ := bytes.length
      state_ := .kWritting }.submit [⟨bytes, none⟩] uv).accept bytes) := by
  rw [step, send_connected _ _ h, writeToUv_eq]
  rfl

theorem step_send_closed {c : TcpConnection} (bytes : Bytes) (uv : ℤ) (hw : c.state_ ≠ .kWritting)
    (hc : c.state_ ≠ .kConnected) : c.step (.send bytes uv) = .error .sendNotConnected := by
  rw [step, send, if_neg hw, if_neg hc]
  rfl

theorem sendBuffer_eq (c : TcpConnection) (buf : Buffer) (uv : ℤ) :
    c.sendBuffer buf uv = (c.send ⟨buf.readable, none⟩ uv).map fun r =>
      (r.1, buf.advance buf.readable.length, r.2) := by
  have hpeek : buf.peek buf.readableBytes = buf.readable := rfl
  simp only [sendBuffer, hpeek]
  rw [Buffer.readableBytes_eq, Buffer.retrieve_eq (le_refl _)]
  cases c.send ⟨buf.readable, none⟩ uv with
  | ok r => rfl
  | error f => rfl

theorem step_sendBuffer (c : TcpConnection) (buf : Buffer) (uv : ℤ) :
    c.step (.sendBuffer buf uv) = c.step (.send buf.readable uv) := by
  simp only [step, sendBuffer_eq]
  cases c.send ⟨buf.readable, none⟩ uv with
  | ok r => rfl
  | error f => rfl

theorem sendScatter_writting {c : TcpConnection} (header : Buffer) (body : Bytes) (uv : ℤ)
    (h : c.state_ = .kWritting) :
    c.sendScatter header body uv = .ok (0, header.advance header.readable.length,
      { c with outputBuf := (c.outputBuf.write header.readable).write body }) := by
  rw [sendScatter, if_pos h, Buffer.writeAll_eq]

theorem step_sendScatter_writting {c : TcpConnection} (header : Buffer) (body : Bytes) (uv : ℤ)
    (h : c.state_ = .kWritting) :
    c.step (.sendScatter header body uv) =
      .ok ({ c with outputBuf := (c.outputBuf.write header.readable).write body }.accept
        (header.readable ++ body)) := by
  rw [step, sendScatter_writting _ _ _ h]
  rfl

theorem sendScatter_eq {c : TcpConnection} (header : Buffer) (body : Bytes) (uv : ℤ)
    (h : c.state_ ≠ .kWritting) :
    c.sendScatter header body uv = .ok (uv, header.advance header.readable.length,
      c.submit [⟨header.readable, none⟩, ⟨body, none⟩] uv) := by
  have hpeek : header.peek header.readableBytes = header.readable := rfl
  rw [sendScatter, if_neg h, hpeek, Buffer.readableBytes_eq, Buffer.retrieve_eq (le_refl _)]
  simp only [writeToUv_eq]

theorem sendScatter_header {c c' : TcpConnection} {header header' : Buffer} {body : Bytes}
    {uv ret : ℤ} (h : c.sendScatter header body uv = .ok (ret, header', c')) :
    header' = header.advance header.readable.length := by
  by_cases hw : c.state_ = .kWritting
  · rw [sendScatter_writting _ _ _ hw] at h
    cases h
    rfl
  · rw [sendScatter_eq _ _ _ hw] at h
    cases h
    rfl

theorem step_sendScatter {c : TcpConnection} (header : Buffer) (body : Bytes) (uv : ℤ)
    (h : c.state_ ≠ .kWritting) :
    c.step (.sendScatter header body uv) =
      .ok ((c.submit [⟨header.readable, none⟩, ⟨body, none⟩] uv).accept
        (header.readable ++ body)) := by
  rw [step, sendScatter_eq _ _ _ h]
  rfl

theorem step_readEnd (c : TcpConnection) {nread : ℤ} (h : nread < 0) :
    c.step (.readEnd nread) = { c with reading := false }.handleClose := if_pos h

theorem step_readData (c : TcpConnection) {bytes : Bytes} (h : bytes ≠ []) :
    c.step (.readData bytes) =
      .ok ({ c with buf := c.buf.write bytes }.handleMessage bytes.length) := by
  have hpos : 0 < bytes.length := List.length_pos_iff.mpr h
  rw [step, onUvRead, if_neg (by omega), if_neg (by omega)]
  rfl

theorem step_writeDone_failed (c : TcpConnection) {status : ℤ} (uv : ℤ) (h : status < 0) :
    c.step (.writeDone status uv) = { c with writes := c.writes.tail }.handleClose :=
  onUvWrite_failed uv h

theorem step_writeDone_ok (c : TcpConnection) {status : ℤ} (uv : ℤ) (h : 0 ≤ status) :
    c.step (.writeDone status uv) = .ok (
      let c := { c with writes := c.writes.tail }
      if c.isLastWrite then { c.written.disconnected with isLastWrite := false }
      else if c.outputBuf.readable = [] then
        if c.state_ = .kDisconnecting then c.written.disconnected
        else c.written.setState .kConnected
      else if c.state_ = .kDisconnecting then
        { c.written with
          isLastWrite := true
          state_ := .kConnected }.flushed uv
      else (c.written.setState .kConnected).flushed uv) :=
  onUvWrite_ok uv h

end TcpConnection
end WsEngine
