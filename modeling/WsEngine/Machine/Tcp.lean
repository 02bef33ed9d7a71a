import WsEngine.Machine.Buffer
import WsEngine.Tcp.System

/-! # The TCP connection in machine words

`ws::TcpConnection` with the machine's `outputBuf`. Its other buffer, `buf`, is the `inputBuffer` of
the WebSocket connection and stands there. `uv_buf_init` takes the length of what is sent as an
`unsigned int`.

As long as each event fits (`Roomy`) the machine goes where the connection over naturals goes, and a
bound on the bytes that are sent is enough for that (`HasRoom`). -/
set_option autoImplicit false

namespace WsEngine
namespace Machine
open Words

structure TcpConnection where
  outputBuf : Buffer
  isLastWrite : Bool
  state_ : StateE
  bytesRead_ : ℤ
  bytesWritten_ : ℤ
  lastWrite_ : ℕ
  reading : Bool
  writes : List (List UvBuf)
  submitted : Bytes
  accepted : Bytes
  notified : ℕ

namespace TcpConnection

def setState (c : TcpConnection) (state : StateE) : TcpConnection := { c with state_ := state }

def stopRead (c : TcpConnection) : TcpConnection := { c with reading := false }

def handleMessage (c : TcpConnection) (len : ℕ) : TcpConnection :=
  { c with bytesRead_ := WsEngine.TcpConnection.addInt c.bytesRead_ len }

def handleWrite (c : TcpConnection) (len : ℕ) : TcpConnection :=
  { c with bytesWritten_ := WsEngine.TcpConnection.addInt c.bytesWritten_ len }

def resetLastWrite (c : TcpConnection) : TcpConnection := { c with lastWrite_ := 0 }

/-- What a buffer did, or an assertion in it. -/
def checked {α : Type} : Option α → Except TcpFault α
  | some a => .ok a
  | none => .error .buffer

/-- `uv_buf_init`. -/
def uvBufInit (sendBuf : UvBuf) : UvBuf :=
  { sendBuf with bytes := sendBuf.bytes.take (sendBuf.bytes.length % 2 ^ 32) }

def writeToUv (c : TcpConnection) (bufs : List UvBuf) (uv : ℤ) : ℤ × TcpConnection :=
  if 0 ≤ uv then
    (uv, { c with
      writes := c.writes ++ [bufs]
      submitted := c.submitted ++ bufs.flatMap UvBuf.bytes })
  else (uv, c)

/-- `send(const char *, size_t)`. -/
def send (c : TcpConnection) (sendBuf : UvBuf) (uv : ℤ) : Except TcpFault (ℤ × TcpConnection) :=
  if c.state_ = .kWritting then do
    let outputBuf ← checked (c.outputBuf.write sendBuf.bytes)
    return (0, { c with outputBuf := outputBuf })
  else if c.state_ = .kConnected then
    .ok ({ c with
      lastWrite_ := sendBuf.bytes.length
      state_ := .kWritting }.writeToUv [uvBufInit sendBuf] uv)
  else .error .sendNotConnected

/-- `send(Buffer& buf)`; also returns `buf`. -/
def sendBuffer (c : TcpConnection) (buf : Buffer) (uv : ℤ) :
    Except TcpFault (ℤ × Buffer × TcpConnection) := do
  let readable := buf.readableBytes
  let bytes ← checked (buf.peek buf.readableBytes)
  let (ret, c) ← c.send ⟨bytes, none⟩ uv
  let buf ← checked (buf.retrieve (ssize_t readable))
  return (ret, buf, c)

/-- `send(Buffer& header, String&& body)`; also returns `header`. -/
def sendScatter (c : TcpConnection) (header : Buffer) (body : Bytes) (uv : ℤ) :
    Except TcpFault (ℤ × Buffer × TcpConnection) :=
  if c.state_ = .kWritting then do
    let (outputBuf, header) ← checked (c.outputBuf.writeAll header)
    let outputBuf ← checked (outputBuf.write body)
    return (0, header, { c with outputBuf := outputBuf })
  else do
    let bytes ← checked (header.peek header.readableBytes)
    let header ← checked (header.retrieve (ssize_t header.readableBytes))
    let (ret, c) := c.writeToUv [⟨bytes, none⟩, ⟨body, none⟩] uv
    return (ret, header, c)

def handleClose (c : TcpConnection) : Except TcpFault TcpConnection :=
  if c.state_ = .kWritting then .ok (c.setState .kDisconnecting)
  else if c.state_ = .kConnected ∨ c.state_ = .kConnecting then
    let c := (c.setState .kDisconnected).stopRead
    .ok { c with notified := c.notified + 1 }
  else .error .closeNotConnected

def close (c : TcpConnection) : Except TcpFault TcpConnection := c.handleClose

/-- `on_uv_read`. -/
def onUvRead (c : TcpConnection) (nread : ℤ) : Except TcpFault TcpConnection :=
  if nread < 0 then c.handleClose
  else if nread = 0 then c.close
  else .ok (c.handleMessage nread.toNat)

/-- The end of the completion callback: what waits in `outputBuf` is sent. -/
def flush (c : TcpConnection) (uv : ℤ) : Except TcpFault TcpConnection :=
  if 0 < c.outputBuf.readableBytes then do
    let bytes ← checked (c.outputBuf.peek c.outputBuf.readableBytes)
    let (_, c) ← c.send ⟨bytes,
      some (c.outputBuf.readIndex_.toNat, c.outputBuf.readableBytes)⟩ uv
    let outputBuf ← checked (c.outputBuf.retrieve (ssize_t c.outputBuf.readableBytes))
    return { c with outputBuf := outputBuf }
  else return c

/-- The completion callback that `writeToUv` gives to `uv_write`. -/
def onUvWrite (c : TcpConnection) (status uv : ℤ) : Except TcpFault TcpConnection :=
  if status < 0 then c.handleClose
  else
    let c := (c.handleWrite c.lastWrite_).resetLastWrite
    if c.isLastWrite then do
      let c ← (c.setState .kConnected).handleClose
      return { c with isLastWrite := false }
    else if c.state_ = .kDisconnecting then
      let c := c.setState .kConnected
      if 0 < c.outputBuf.readableBytes then
        ({ c with isLastWrite := true }.setState .kConnected).flush uv
      else c.handleClose
    else (c.setState .kConnected).flush uv

def accept (c : TcpConnection) (bytes : Bytes) : TcpConnection :=
  { c with accepted := c.accepted ++ bytes }

/-- The buffers that are sent are the machine's too. -/
def step (c : TcpConnection) : TcpEvent → Except TcpFault TcpConnection
  | .send bytes uv => (c.send ⟨bytes, none⟩ uv).map fun r => r.2.accept bytes
  | .sendBuffer buf uv => (c.sendBuffer buf.machine uv).map fun r => r.2.2.accept buf.readable
  | .sendScatter header body uv =>
    (c.sendScatter header.machine body uv).map fun r => r.2.2.accept (header.readable ++ body)
  | .close => c.close
  | .readData bytes => c.onUvRead bytes.length
  | .readEnd nread => { c with reading := false }.onUvRead nread
  | .writeDone status uv => { c with writes := c.writes.tail }.onUvWrite status uv

def Possible (c : TcpConnection) : TcpEvent → Prop
  | .readData bytes => c.reading = true ∧ bytes ≠ []
  | .readEnd nread => c.reading = true ∧ nread < 0
  | .writeDone _ _ => c.writes ≠ []
  | _ => True

def system : EventSystem TcpConnection TcpEvent TcpFault := ⟨Possible, step⟩

theorem uvBufInit_eq {sendBuf : UvBuf} (h : sendBuf.bytes.length < 2 ^ 32) :
    uvBufInit sendBuf = sendBuf := by
  unfold uvBufInit
  rw [Nat.mod_eq_of_lt h, List.take_length]

end TcpConnection
end Machine

namespace TcpConnection

/-- The connection as the machine holds it. -/
def machine (c : TcpConnection) : Machine.TcpConnection where
  outputBuf := c.outputBuf.machine
  isLastWrite := c.isLastWrite
  state_ := c.state_
  bytesRead_ := c.bytesRead_
  bytesWritten_ := c.bytesWritten_
  lastWrite_ := c.lastWrite_
  reading := c.reading
  writes := c.writes
  submitted := c.submitted
  accepted := c.accepted
  notified := c.notified

/-- The machine is where the connection is, and can go on from there. -/
structure Tracked (c : TcpConnection) (t : Machine.TcpConnection) : Prop where
  same : t = c.machine
  small : c.outputBuf.Small

/-- What is sent has room: below `2^31` where it is queued, and else in an `unsigned int`. -/
def Fits (c : TcpConnection) (bytes : Bytes) : Prop :=
  bytes.length < 2 ^ 32 ∧
    (c.state_ = .kWritting → c.outputBuf.start bytes.length + bytes.length < 2 ^ 31)

/-- And so has what is sent in an event. -/
def Roomy (c : TcpConnection) : TcpEvent → Prop
  | .send bytes _ => c.Fits bytes
  | .sendBuffer buf _ => buf.Small ∧ c.Fits buf.readable
  | .sendScatter header body _ => header.Small ∧ (c.state_ = .kWritting →
      c.outputBuf.start header.readableBytes + header.readableBytes < 2 ^ 31 ∧
        (c.outputBuf.write header.readable).start body.length + body.length < 2 ^ 31)
  | .close | .readData _ | .readEnd _ | .writeDone _ _ => True

/-! ## Each function -/

section

variable {c : TcpConnection} {t : Machine.TcpConnection} (h : c.Tracked t)
include h

theorem Tracked.setState (state : StateE) : Tracked (c.setState state) (t.setState state) := by
  obtain ⟨rfl, hsmall⟩ := h
  exact ⟨rfl, hsmall⟩

theorem Tracked.stopRead : Tracked c.stopRead t.stopRead := by
  obtain ⟨rfl, hsmall⟩ := h
  exact ⟨rfl, hsmall⟩

theorem Tracked.accept (bytes : Bytes) : Tracked (c.accept bytes) (t.accept bytes) := by
  obtain ⟨rfl, hsmall⟩ := h
  exact ⟨rfl, hsmall⟩

theorem Tracked.state : t.state_ = c.state_ := congrArg Machine.TcpConnection.state_ h.same

theorem Tracked.possible_iff (e : TcpEvent) : t.Possible e ↔ c.Possible e := by
  rw [h.same]
  exact Iff.rfl

theorem Tracked.outputBuf : t.outputBuf = c.outputBuf.machine :=
  congrArg Machine.TcpConnection.outputBuf h.same

theorem Tracked.readable : t.outputBuf.readable = c.outputBuf.readable := by
  rw [h.outputBuf]
  exact Buffer.readable_machine h.small

theorem Tracked.readableBytes : t.outputBuf.readableBytes = c.outputBuf.readableBytes := by
  rw [h.outputBuf]
  exact Buffer.readableBytes_machine h.small

theorem Tracked.writeToUv (bufs : List UvBuf) (uv : ℤ) :
    (t.writeToUv bufs uv).1 = (c.writeToUv bufs uv).1 ∧
      Tracked (c.writeToUv bufs uv).2 (t.writeToUv bufs uv).2 := by
  obtain ⟨rfl, hsmall⟩ := h
  unfold TcpConnection.writeToUv Machine.TcpConnection.writeToUv
  by_cases huv : 0 ≤ uv
  · rw [if_pos huv, if_pos huv]
    exact ⟨rfl, rfl, hsmall⟩
  · rw [if_neg huv, if_neg huv]
    exact ⟨rfl, rfl, hsmall⟩

theorem Tracked.send (sendBuf : UvBuf) (uv : ℤ) (hfits : c.Fits sendBuf.bytes) :
    (c.send sendBuf uv).Related Eq (fun r r' => r'.1 = r.1 ∧ Tracked r.2 r'.2)
      (t.send sendBuf uv) := by
  obtain ⟨hlen, hroom⟩ := hfits
  unfold TcpConnection.send Machine.TcpConnection.send
  rw [h.state, Machine.TcpConnection.uvBufInit_eq hlen]
  refine .ite Iff.rfl (fun hs => ?_) fun _ => .ite Iff.rfl (fun _ => ?_) fun _ => .error rfl
  · obtain ⟨hwrite, hsmall⟩ := Buffer.write_machine h.small (hroom hs)
    rw [h.outputBuf, hwrite]
    obtain ⟨rfl, -⟩ := h
    exact .ok ⟨rfl, rfl, hsmall⟩
  · obtain ⟨rfl, hsmall⟩ := h
    have htracked : Tracked { c with
        lastWrite_ := sendBuf.bytes.length
        state_ := .kWritting } { c.machine with
        lastWrite_ := sendBuf.bytes.length
        state_ := .kWritting } := ⟨rfl, hsmall⟩
    exact .ok (htracked.writeToUv [sendBuf] uv)

theorem Tracked.sendBuffer {buf : Buffer} (uv : ℤ) (hbuf : buf.Small) (hfits : c.Fits buf.readable) :
    (c.sendBuffer buf uv).Related Eq
      (fun r r' => r'.1 = r.1 ∧ r'.2.1 = r.2.1.machine ∧ Tracked r.2.2 r'.2.2)
      (t.sendBuffer buf.machine uv) := by
  have hlen : buf.readableBytes < 2 ^ 62 := by
    rw [Buffer.readableBytes_eq]
    exact Nat.lt_trans hfits.1 (by decide)
  unfold TcpConnection.sendBuffer Machine.TcpConnection.sendBuffer
  dsimp only
  rw [Buffer.readableBytes_machine hbuf, Buffer.peek_machine hbuf (le_refl _),
    Buffer.retrieve_machine hbuf hlen]
  refine (h.send ⟨buf.peek buf.readableBytes, none⟩ uv hfits).bind ?_
  rintro ⟨ret, c'⟩ ⟨_, t'⟩ - ⟨rfl, htracked⟩
  dsimp only
  rw [Buffer.readableBytes_eq, Buffer.retrieve_eq (le_refl _)]
  exact .ok ⟨rfl, rfl, htracked⟩

theorem Tracked.sendScatter {header : Buffer} (body : Bytes) (uv : ℤ) (hheader : header.Small)
    (hroom : c.state_ = .kWritting →
      c.outputBuf.start header.readableBytes + header.readableBytes < 2 ^ 31 ∧
        (c.outputBuf.write header.readable).start body.length + body.length < 2 ^ 31) :
    (c.sendScatter header body uv).Related Eq
      (fun r r' => r'.1 = r.1 ∧ r'.2.1 = r.2.1.machine ∧ Tracked r.2.2 r'.2.2)
      (t.sendScatter header.machine body uv) := by
  have hlen : header.readableBytes < 2 ^ 62 := by
    have hbounds := hheader.bounds
    unfold Buffer.readableBytes
    omega
  unfold TcpConnection.sendScatter Machine.TcpConnection.sendScatter
  rw [h.state]
  refine .ite Iff.rfl (fun hs => ?_) fun _ => ?_
  · obtain ⟨hhead, hbody⟩ := hroom hs
    have hhead' : c.outputBuf.start header.readable.length + header.readable.length < 2 ^ 31 := by
      rwa [← Buffer.readableBytes_eq]
    obtain ⟨-, hsmall⟩ := Buffer.write_machine h.small hhead'
    obtain ⟨hwrite, hsmall'⟩ := Buffer.write_machine hsmall hbody
    rw [h.outputBuf, Buffer.writeAll_machine h.small hheader hhead, Buffer.writeAll_eq]
    change Except.Related _ _ _ (Machine.TcpConnection.checked
      ((c.outputBuf.write header.readable).machine.write body) >>= _)
    rw [hwrite]
    obtain ⟨rfl, -⟩ := h
    exact .ok ⟨rfl, rfl, rfl, hsmall'⟩
  · rw [Buffer.readableBytes_machine hheader, Buffer.peek_machine hheader (le_refl _),
      Buffer.retrieve_machine hheader hlen]
    obtain ⟨hret, htracked⟩ :=
      h.writeToUv [⟨header.peek header.readableBytes, none⟩, ⟨body, none⟩] uv
    rw [Buffer.readableBytes_eq] at hret htracked ⊢
    dsimp only
    rw [Buffer.retrieve_eq (le_refl _)]
    exact .ok ⟨hret, rfl, htracked⟩

theorem Tracked.handleClose : c.handleClose.Related Eq Tracked t.handleClose := by
  unfold TcpConnection.handleClose Machine.TcpConnection.handleClose
  rw [h.state]
  refine .ite Iff.rfl (fun _ => .ok (h.setState _)) fun _ => .ite Iff.rfl (fun _ => ?_) fun _ =>
    .error rfl
  obtain ⟨rfl, hsmall⟩ := h
  exact .ok ⟨rfl, hsmall⟩

theorem Tracked.onUvRead (nread : ℤ) (bytes : Bytes) :
    (c.onUvRead nread bytes).Related Eq Tracked (t.onUvRead nread) := by
  unfold TcpConnection.onUvRead Machine.TcpConnection.onUvRead
  refine .ite Iff.rfl (fun _ => h.handleClose) fun _ => .ite Iff.rfl (fun _ => h.handleClose)
    fun _ => ?_
  obtain ⟨rfl, hsmall⟩ := h
  exact .ok ⟨rfl, hsmall⟩

theorem Tracked.flush (uv : ℤ) (hs : c.state_ = .kConnected) :
    (c.flush uv).Related Eq Tracked (t.flush uv) := by
  have hlen : c.outputBuf.readableBytes < 2 ^ 32 := by
    have hbounds := h.small.bounds
    unfold Buffer.readableBytes
    omega
  have hpeek : (c.outputBuf.peek c.outputBuf.readableBytes).length = c.outputBuf.readableBytes :=
    c.outputBuf.length_readable
  have hfits : c.Fits (c.outputBuf.peek c.outputBuf.readableBytes) :=
    ⟨by rwa [hpeek], fun hw => nomatch hs.symm.trans hw⟩
  unfold TcpConnection.flush Machine.TcpConnection.flush
  rw [h.readableBytes, h.outputBuf, Buffer.peek_machine h.small (le_refl _)]
  refine .ite Iff.rfl (fun _ => ?_) fun _ => .ok h
  refine (h.send ⟨c.outputBuf.peek c.outputBuf.readableBytes,
    some (c.outputBuf.readIndex_, c.outputBuf.readableBytes)⟩ uv hfits).bind ?_
  rintro ⟨ret, c'⟩ ⟨ret', t'⟩ - ⟨-, htracked⟩
  change Tracked c' t' at htracked
  have hlen' : c'.outputBuf.readableBytes < 2 ^ 62 := by
    have hbounds := htracked.small.bounds
    unfold Buffer.readableBytes
    omega
  dsimp only
  rw [htracked.readableBytes, htracked.outputBuf, Buffer.retrieve_machine htracked.small hlen',
    Buffer.readableBytes_eq, Buffer.retrieve_eq (le_refl _)]
  obtain ⟨rfl, hsmall⟩ := htracked
  exact .ok ⟨rfl, hsmall.of_le (le_refl _) rfl rfl⟩

theorem Tracked.onUvWrite (status uv : ℤ) :
    (c.onUvWrite status uv).Related Eq Tracked (t.onUvWrite status uv) := by
  have hwritten : Tracked c.written (t.handleWrite t.lastWrite_).resetLastWrite := by
    obtain ⟨rfl, hsmall⟩ := h
    exact ⟨rfl, hsmall⟩
  have hlast : (t.handleWrite t.lastWrite_).resetLastWrite.isLastWrite = c.written.isLastWrite :=
    congrArg Machine.TcpConnection.isLastWrite hwritten.same
  unfold TcpConnection.onUvWrite Machine.TcpConnection.onUvWrite
  refine .ite Iff.rfl (fun _ => h.handleClose) fun _ => ?_
  dsimp only
  rw [hlast, hwritten.state]
  refine .ite Iff.rfl (fun _ => ?_) fun _ => .ite Iff.rfl (fun _ => ?_) fun _ => ?_
  · refine (hwritten.setState .kConnected).handleClose.bind fun c' t' _ htracked => ?_
    obtain ⟨rfl, hsmall⟩ := htracked
    exact .ok ⟨rfl, hsmall⟩
  · have hconnected := hwritten.setState .kConnected
    rw [hconnected.readableBytes]
    refine .ite Iff.rfl (fun _ => ?_) fun _ => hconnected.handleClose
    have hfinal : Tracked { c.written.setState .kConnected with isLastWrite := true }
        { (t.handleWrite t.lastWrite_).resetLastWrite.setState .kConnected with
          isLastWrite := true } := by
      obtain ⟨hsame, hsmall⟩ := hconnected
      rw [hsame]
      exact ⟨rfl, hsmall⟩
    exact (hfinal.setState .kConnected).flush uv rfl
  · exact (hwritten.setState .kConnected).flush uv rfl

end

/-! ## Events -/

/-- **One event.** -/
theorem Tracked.step {c : TcpConnection} {t : Machine.TcpConnection} (h : c.Tracked t) {e : TcpEvent}
    (hroom : c.Roomy e) : (c.step e).Related Eq Tracked (t.step e) := by
  cases e with
  | send bytes uv => exact (h.send ⟨bytes, none⟩ uv hroom).map fun r r' hr => hr.2.accept bytes
  | sendBuffer buf uv =>
    exact (h.sendBuffer uv hroom.1 hroom.2).map fun r r' hr => hr.2.2.accept buf.readable
  | sendScatter header body uv =>
    exact (h.sendScatter body uv hroom.1 hroom.2).map fun r r' hr =>
      hr.2.2.accept (header.readable ++ body)
  | close => exact h.handleClose
  | readData bytes => exact h.onUvRead bytes.length bytes
  | readEnd nread =>
    have htracked : Tracked { c with reading := false } { t with reading := false } := by
      obtain ⟨rfl, hsmall⟩ := h
      exact ⟨rfl, hsmall⟩
    exact htracked.onUvRead nread []
  | writeDone status uv =>
    have htracked : Tracked { c with writes := c.writes.tail } { t with writes := t.writes.tail } := by
      obtain ⟨rfl, hsmall⟩ := h
      exact ⟨rfl, hsmall⟩
    exact htracked.onUvWrite status uv

/-! ## Room beforehand -/

end TcpConnection

/-- A buffer that is sent is one that the machine holds. -/
def TcpEvent.Small : TcpEvent → Prop
  | .sendBuffer buf _ => buf.Small
  | .sendScatter header _ _ => header.Small
  | .send _ _ | .close | .readData _ | .readEnd _ | .writeDone _ _ => True

namespace TcpConnection

/-- Room for `n` bytes more in `outputBuf`. -/
def HasRoom (c : TcpConnection) (n : ℕ) : Prop := c.outputBuf.writeIndex_ + n < 2 ^ 31

instance (c : TcpConnection) (n : ℕ) : Decidable (c.HasRoom n) :=
  inferInstanceAs (Decidable (_ < _))

theorem HasRoom.mono {c : TcpConnection} {n n' : ℕ} (h : c.HasRoom n) (hle : n' ≤ n) :
    c.HasRoom n' := Nat.lt_of_le_of_lt (Nat.add_le_add_left hle _) h

theorem HasRoom.fits {c : TcpConnection} {bytes : Bytes} (h : c.HasRoom bytes.length) :
    c.Fits bytes := by
  have hstart := c.outputBuf.start_le bytes.length
  unfold HasRoom at h
  exact ⟨by omega, fun _ => by omega⟩

theorem HasRoom.roomy {c : TcpConnection} {e : TcpEvent} (h : c.HasRoom e.bytes.length)
    (he : e.Small) : c.Roomy e := by
  cases e with
  | send bytes uv => exact h.fits
  | sendBuffer buf uv => exact ⟨he, h.fits⟩
  | sendScatter header body uv =>
    have hlen : c.outputBuf.writeIndex_ + (header.readable ++ body).length < 2 ^ 31 := h
    have hstart := c.outputBuf.start_le header.readableBytes
    have hbody := (c.outputBuf.write header.readable).start_le body.length
    have hwrite := c.outputBuf.writeIndex_write header.readable
    rw [List.length_append, ← Buffer.readableBytes_eq] at hlen
    rw [← Buffer.readableBytes_eq] at hwrite
    exact ⟨he, fun _ => ⟨by omega, by omega⟩⟩
  | close | readData _ | readEnd _ | writeDone _ _ => trivial

theorem handleClose_outputBuf {c c' : TcpConnection} (h : c.handleClose = .ok c') :
    c'.outputBuf = c.outputBuf := by
  obtain ⟨-, rfl⟩ | ⟨-, rfl⟩ := handleClose_cases h
  · rfl
  · rfl

theorem onUvRead_outputBuf {c c' : TcpConnection} {nread : ℤ} {bytes : Bytes}
    (h : c.onUvRead nread bytes = .ok c') : c'.outputBuf = c.outputBuf := by
  unfold onUvRead at h
  by_cases hneg : nread < 0
  · rw [if_pos hneg] at h
    exact handleClose_outputBuf h
  · rw [if_neg hneg] at h
    by_cases hzero : nread = 0
    · rw [if_pos hzero] at h
      exact handleClose_outputBuf h
    · rw [if_neg hzero] at h
      cases h
      rfl

/-- No event moves the write index by more than the bytes that are sent in it. -/
theorem writeIndex_step {c c' : TcpConnection} {e : TcpEvent} (h : c.step e = .ok c') :
    c'.outputBuf.writeIndex_ ≤ c.outputBuf.writeIndex_ + e.bytes.length := by
  have hsend {bytes : Bytes} {uv : ℤ} (hs : c.step (.send bytes uv) = .ok c') :
      c'.outputBuf.writeIndex_ ≤ c.outputBuf.writeIndex_ + bytes.length := by
    by_cases hw : c.state_ = .kWritting
    · rw [step_send_writting _ _ hw] at hs
      cases hs
      exact c.outputBuf.writeIndex_write bytes
    · by_cases hc : c.state_ = .kConnected
      · rw [step_send_connected _ _ hc] at hs
        cases hs
        exact Nat.le_add_right _ _
      · rw [step_send_closed _ _ hw hc] at hs
        cases hs
  cases e with
  | send bytes uv => exact hsend h
  | sendBuffer buf uv =>
    rw [step_sendBuffer] at h
    exact hsend h
  | sendScatter header body uv =>
    by_cases hw : c.state_ = .kWritting
    · rw [step_sendScatter_writting _ _ _ hw] at h
      cases h
      have hhead := c.outputBuf.writeIndex_write header.readable
      have hbody := (c.outputBuf.write header.readable).writeIndex_write body
      change ((c.outputBuf.write header.readable).write body).writeIndex_ ≤
        c.outputBuf.writeIndex_ + (header.readable ++ body).length
      rw [List.length_append]
      omega
    · rw [step_sendScatter _ _ _ hw] at h
      cases h
      exact Nat.le_add_right _ _
  | close =>
    rw [handleClose_outputBuf h]
    exact Nat.le_add_right _ _
  | readData bytes =>
    rw [onUvRead_outputBuf h]
    exact Nat.le_add_right _ _
  | readEnd nread =>
    rw [onUvRead_outputBuf h]
    exact Nat.le_add_right _ _
  | writeDone status uv =>
    by_cases hs : status < 0
    · rw [step_writeDone_failed _ _ hs] at h
      rw [handleClose_outputBuf h]
      exact Nat.le_add_right _ _
    · rw [step_writeDone_ok _ _ (by omega)] at h
      cases h
      dsimp only
      split
      · exact Nat.le_add_right _ _
      · split
        · split <;> exact Nat.le_add_right _ _
        · split <;> exact Nat.le_add_right _ _

theorem HasRoom.step {c c' : TcpConnection} {e : TcpEvent} {n : ℕ}
    (h : c.HasRoom (e.bytes.length + n)) (hs : c.step e = .ok c') : c'.HasRoom n := by
  have hindex := writeIndex_step hs
  unfold HasRoom at h ⊢
  omega

theorem HasRoom.quiet {c c' : TcpConnection} {e : TcpEvent} {n : ℕ} (h : c.HasRoom n)
    (he : e.bytes = []) (hs : c.step e = .ok c') : c'.HasRoom n := by
  have hindex := writeIndex_step hs
  rw [he, List.length_nil] at hindex
  unfold HasRoom at h ⊢
  omega

end TcpConnection
end WsEngine
