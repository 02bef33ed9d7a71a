import WsEngine.Machine.Connection
import WsEngine.Ws.Indices

/-! # The machine runs what the model over naturals runs

A connection is held by the machine as it is (`WebSocketConnection.machine`) while its buffers are
small. Every stage of `decode` and every call of the application then does the same to both, as long
as what is appended to `decodeBuf_` has room below `2^31` (`RoomAhead`) and the application copies no
`String` into `outputBuf_` that is longer than half a gigabyte (`Modest`). -/
set_option autoImplicit false

namespace WsEngine
open Window Words

/-! ## The output buffer -/

namespace Buffer

/-- A buffer with at most `held` bytes in it, and a memory that the indices reach all over. -/
structure Slack (b : Buffer) (held : ℕ) : Prop where
  small : b.Small
  size : b.buf_.length < 2 ^ 31
  held : b.readableBytes ≤ held

theorem start_lt {b : Buffer} {len : ℕ} (hsize : b.buf_.length < 2 ^ 31)
    (hlen : 2 * len + b.readableBytes < 2 ^ 31) : b.start len + len < 2 ^ 31 := by
  obtain ⟨h1, h2, -⟩ := b.index_bounds
  unfold start
  unfold readableBytes at hlen ⊢
  split
  · omega
  · next hc =>
    unfold remaining available at hc
    omega

theorem length_ensureSpace {b : Buffer} {len : ℕ} (hsize : b.buf_.length < 2 ^ 31)
    (hlen : 2 * len + b.readableBytes + kExpandSize < 2 ^ 31) :
    (b.ensureSpace len).2.buf_.length < 2 ^ 31 := by
  obtain ⟨h1, h2, hread⟩ := b.index_bounds
  have hresize (more n : ℕ) : (b.resize more n).buf_.length = b.buf_.length + more := by
    change (b.buf_ ++ List.replicate more 0).length = _
    rw [List.length_append, List.length_replicate]
  unfold ensureSpace
  by_cases hfits : len ≤ b.remaining
  · rw [if_pos hfits]
    exact hsize
  · rw [if_neg hfits]
    by_cases hcompact : len ≤ b.available
    · rw [if_pos hcompact]
      change (overwrite b.buf_ 0 b.readable).length < _
      rw [length_overwrite (by omega)]
      exact hsize
    · rw [if_neg hcompact]
      have hpos : 0 < len - b.remaining := by omega
      unfold readableBytes at hlen
      unfold available at hcompact
      dsimp only
      rw [if_pos hpos]
      by_cases hexpand : kExpandThreshold < b.lastExpand_ + 1
      · rw [if_pos hexpand, hresize]
        unfold remaining
        omega
      · rw [if_neg hexpand, hresize]
        unfold remaining
        omega

theorem Slack.write {b : Buffer} {held : ℕ} (h : b.Slack held) {bytes : Bytes}
    (hlen : bytes.length ≤ 2 ^ 29) (htracked : held ≤ 2 ^ 29) :
    b.machine.write bytes = some (b.write bytes).machine ∧
      (b.write bytes).Slack (held + bytes.length) := by
  obtain ⟨hsmall, hsize, hreadable⟩ := h
  have hspace : (b.ensureSpace bytes.length).2.buf_.length < 2 ^ 31 :=
    length_ensureSpace hsize (by unfold kExpandSize; omega)
  obtain ⟨hsame, hafter⟩ := write_machine hsmall
    (start_lt hsize (show 2 * bytes.length + b.readableBytes < 2 ^ 31 by omega))
  refine ⟨hsame, hafter, ?_, ?_⟩
  · have hbounds := le_remaining_ensureSpace b bytes.length
    have hindex := (b.ensureSpace bytes.length).2.write_le_size
    unfold remaining at hbounds
    change (overwrite _ _ bytes).length < _
    rw [length_overwrite (by omega)]
    exact hspace
  · rw [readableBytes_eq, readable_write, List.length_append, ← readableBytes_eq]
    omega

theorem Slack.mono {b : Buffer} {held held' : ℕ} (h : b.Slack held) (hle : held ≤ held') :
    b.Slack held' := ⟨h.small, h.size, le_trans h.held hle⟩

theorem Slack.putByte {b : Buffer} {held : ℕ} (h : b.Slack held) (htracked : held ≤ 2 ^ 29)
    (byte : ℕ) : b.machine.putByte byte = some (b.putByte byte).machine ∧
      (b.putByte byte).Slack (held + 1) :=
  h.write (show 1 ≤ 2 ^ 29 by decide) htracked

theorem Slack.putUInt16 {b : Buffer} {held : ℕ} (h : b.Slack held) (htracked : held ≤ 2 ^ 29)
    (word : ℕ) : b.machine.putUInt16 word = some (b.putUInt16 word).machine ∧
      (b.putUInt16 word).Slack (held + 2) :=
  h.write (show 2 ≤ 2 ^ 29 by decide) htracked

theorem Slack.putUInt32 {b : Buffer} {held : ℕ} (h : b.Slack held) (htracked : held ≤ 2 ^ 29)
    (integer : ℕ) : b.machine.putUInt32 integer = some (b.putUInt32 integer).machine ∧
      (b.putUInt32 integer).Slack (held + 4) :=
  h.write (show 4 ≤ 2 ^ 29 by decide) htracked

theorem Slack.putUInt64 {b : Buffer} {held : ℕ} (h : b.Slack held) (htracked : held ≤ 2 ^ 28)
    (bigInt : ℕ) : b.machine.putUInt64 bigInt = some (b.putUInt64 bigInt).machine ∧
      (b.putUInt64 bigInt).Slack (held + 8) := by
  obtain ⟨hhigh, h4⟩ := h.putUInt32 (by omega) ((bigInt >>> 32) % 2 ^ 32)
  obtain ⟨hlow, h8⟩ := h4.putUInt32 (by omega) ((bigInt &&& 0xfffffffff) % 2 ^ 32)
  refine ⟨?_, h8⟩
  unfold Machine.Buffer.putUInt64
  simp only [Option.bind_eq_bind, hhigh, Option.bind_some, hlow]
  rfl

theorem Slack.readString {b : Buffer} {held : ℕ} (h : b.Slack held) :
    b.machine.readString = some (b.readable, (b.advance b.readable.length).machine) ∧
      (b.advance b.readable.length).Slack 0 := by
  have hread := b.readString_eq
  rw [readString_machine h.small, hread]
  refine ⟨rfl, h.small.readString hread, h.size, ?_⟩
  rw [readableBytes_eq, readable_advance, List.drop_length]
  exact le_refl 0

/-! ## Unmasking -/

theorem unmaskFrom_machine {b : Buffer} (h : b.Small) {originSize : ℕ} (maskKey : Bytes)
    (hle : originSize ≤ b.readableBytes) :
    b.machine.unmaskFrom originSize maskKey = some (b.unmaskFrom originSize maskKey).machine ∧
      (b.unmaskFrom originSize maskKey).Small := by
  have hbounds := h.bounds
  have hlen := b.length_readable
  have hpayload : window (b.readIndex_ + originSize) (b.readableBytes - originSize) b.buf_ =
      b.readable.drop originSize := by
    rw [readable, peek, drop_window]
  have hfits : b.readIndex_ + originSize +
      (unmask maskKey (b.readable.drop originSize)).length ≤ b.buf_.length := by
    rw [length_unmask, List.length_drop]
    unfold readableBytes at hlen hle
    omega
  have hload := b.load_machine originSize (b.readableBytes - originSize) (by
    unfold readableBytes at hle ⊢
    omega)
  rw [hpayload] at hload
  have hstore : b.machine.store (b.machine.readIndex_ + originSize)
      (unmask maskKey (b.readable.drop originSize)) = some (b.unmaskFrom originSize maskKey).machine := by
    rw [readIndex_machine, ← Int.natCast_add]
    refine if_pos ⟨Int.natCast_nonneg _, ?_⟩
    rw [buf_machine]
    omega
  constructor
  · unfold Machine.Buffer.unmaskFrom
    rw [readableBytes_machine h, if_pos hle, hload]
    exact hstore
  · refine ⟨h.index, ?_, h.lastExpand⟩
    change (overwrite _ _ _).length < _
    rw [length_overwrite hfits]
    exact h.size

end Buffer

/-- A `String` that is copied into `outputBuf_` has at most half a gigabyte. -/
def ApiCall.Modest : ApiCall → Prop
  | .sendMessage data _ => data.length ≤ 2 ^ 29
  | .sendMove _ _ | .ping _ | .pong _ | .close _ => True

/-- So has what a callback answers. -/
def Callback.Modest (callback : Option Callback) : Prop :=
  ∀ answer ∈ callback, ∀ trace, ∀ c ∈ answer trace, c.Modest

namespace WebSocketConnection

/-- The connection as the machine holds it. -/
def machine (ws : WebSocketConnection) : Machine.WebSocketConnection where
  inputBuffer := ws.inputBuffer.machine
  status_ := ws.status_
  headers_ := ws.headers_
  lastHeaderField_ := ws.lastHeaderField_
  wsMessageCallback_ := ws.wsMessageCallback_
  pingCallback_ := ws.pingCallback_
  pongCallback_ := ws.pongCallback_
  outputBuf_ := ws.outputBuf_.machine
  decodeBuf_ := ws.decodeBuf_.machine
  fragmentedOpCode_ := ws.fragmentedOpCode_
  headerRead_ := ws.headerRead_
  wanted_ := ws.wanted_
  split_ := ws.split_
  masked_ := ws.masked_
  payloadLength_ := ws.payloadLength_
  opcode_ := ws.opcode_
  isFin_ := ws.isFin_
  maskKey_ := ws.maskKey_
  trace := ws.trace

/-- The machine has room for the buffers, and `outputBuf_` holds at most `output` bytes. -/
structure Small (ws : WebSocketConnection) (output : ℕ) : Prop where
  input : ws.inputBuffer.Small
  decode : ws.decodeBuf_.Small
  output : ws.outputBuf_.Slack output

structure Modest (ws : WebSocketConnection) : Prop where
  message : Callback.Modest ws.wsMessageCallback_
  ping : Callback.Modest ws.pingCallback_
  pong : Callback.Modest ws.pongCallback_

/-- The machine is where the connection is. -/
def Same (ws : WebSocketConnection) (m : Machine.WebSocketConnection) : Prop := m = ws.machine

/-- And can go on from there. -/
structure Tracked (output : ℕ) (ws : WebSocketConnection) (m : Machine.WebSocketConnection) :
    Prop where
  same : m = ws.machine
  small : ws.Small output
  modest : ws.Modest

theorem Tracked.mono {output output' : ℕ} {ws : WebSocketConnection} {m : Machine.WebSocketConnection}
    (h : Tracked output ws m) (hle : output ≤ output') : Tracked output' ws m :=
  ⟨h.same, ⟨h.small.input, h.small.decode, h.small.output.mono hle⟩, h.modest⟩

section

variable {output : ℕ} {ws : WebSocketConnection} {m : Machine.WebSocketConnection}
  (h : Tracked output ws m)
include h

theorem Tracked.inputBuffer : m.inputBuffer = ws.inputBuffer.machine :=
  congrArg Machine.WebSocketConnection.inputBuffer h.same

theorem Tracked.decodeBuf : m.decodeBuf_ = ws.decodeBuf_.machine :=
  congrArg Machine.WebSocketConnection.decodeBuf_ h.same

theorem Tracked.outputBuf : m.outputBuf_ = ws.outputBuf_.machine :=
  congrArg Machine.WebSocketConnection.outputBuf_ h.same

theorem Tracked.status : m.status_ = ws.status_ :=
  congrArg Machine.WebSocketConnection.status_ h.same

theorem Tracked.trace : m.trace = ws.trace :=
  congrArg Machine.WebSocketConnection.trace h.same

theorem Tracked.wsMessageCallback : m.wsMessageCallback_ = ws.wsMessageCallback_ :=
  congrArg Machine.WebSocketConnection.wsMessageCallback_ h.same

theorem Tracked.pingCallback : m.pingCallback_ = ws.pingCallback_ :=
  congrArg Machine.WebSocketConnection.pingCallback_ h.same

theorem Tracked.pongCallback : m.pongCallback_ = ws.pongCallback_ :=
  congrArg Machine.WebSocketConnection.pongCallback_ h.same

theorem Tracked.fragmentedOpCode : m.fragmentedOpCode_ = ws.fragmentedOpCode_ :=
  congrArg Machine.WebSocketConnection.fragmentedOpCode_ h.same

theorem Tracked.headerRead : m.headerRead_ = ws.headerRead_ :=
  congrArg Machine.WebSocketConnection.headerRead_ h.same

theorem Tracked.wanted : m.wanted_ = ws.wanted_ :=
  congrArg Machine.WebSocketConnection.wanted_ h.same

theorem Tracked.masked : m.masked_ = ws.masked_ :=
  congrArg Machine.WebSocketConnection.masked_ h.same

theorem Tracked.payloadLength : m.payloadLength_ = ws.payloadLength_ :=
  congrArg Machine.WebSocketConnection.payloadLength_ h.same

theorem Tracked.opcode : m.opcode_ = ws.opcode_ :=
  congrArg Machine.WebSocketConnection.opcode_ h.same

theorem Tracked.isFin : m.isFin_ = ws.isFin_ :=
  congrArg Machine.WebSocketConnection.isFin_ h.same

theorem Tracked.maskKey : m.maskKey_ = ws.maskKey_ :=
  congrArg Machine.WebSocketConnection.maskKey_ h.same

end

theorem Tracked.emit {output : ℕ} {ws : WebSocketConnection} {m : Machine.WebSocketConnection}
    (h : Tracked output ws m) (effect : Effect) : Tracked output (ws.emit effect) (m.emit effect) := by
  obtain ⟨rfl, ⟨hinput, hdecode, hout⟩, hmodest⟩ := h
  exact ⟨rfl, ⟨hinput, hdecode, hout⟩, hmodest.message, hmodest.ping, hmodest.pong⟩

/-! ## Sending -/

/-- What the machine puts into `outputBuf_` is what is put there. -/
theorem Tracked.withOutput {output output' : ℕ} {ws : WebSocketConnection}
    {m : Machine.WebSocketConnection} (h : Tracked output ws m) {r : Option Machine.Buffer}
    {outputBuf : Buffer} (hr : r = some outputBuf.machine) (hout : outputBuf.Slack output') :
    ∃ m', m.withOutput r = .ok m' ∧ Tracked output' { ws with outputBuf_ := outputBuf } m' := by
  obtain ⟨rfl, ⟨hinput, hdecode, -⟩, hmodest⟩ := h
  rw [hr]
  exact ⟨_, rfl, rfl, ⟨hinput, hdecode, hout⟩, hmodest.message, hmodest.ping, hmodest.pong⟩

theorem Tracked.sendOutput {output : ℕ} {ws : WebSocketConnection} {m : Machine.WebSocketConnection}
    (h : Tracked output ws m) (body : Bytes) :
    (ws.sendOutput body).Related Same (Tracked 0) (m.sendOutput body) := by
  obtain ⟨rfl, ⟨hinput, hdecode, hout⟩, hmodest⟩ := h
  obtain ⟨hread, hempty⟩ := hout.readString
  have hmachine : ws.machine.sendOutput body = .ok ({ ws.machine with
      outputBuf_ := (ws.outputBuf_.advance ws.outputBuf_.readable.length).machine }.emit
      (.send (ws.outputBuf_.readable ++ body))) := by
    unfold Machine.WebSocketConnection.sendOutput
    rw [show ws.machine.outputBuf_.readString = _ from hread]
  unfold WebSocketConnection.sendOutput
  rw [hmachine, Buffer.readableBytes_eq, Buffer.retrieve_eq (le_refl _),
    Buffer.peek_eq_take (le_refl _), List.take_length]
  have htracked : Tracked 0 { ws with
      outputBuf_ := ws.outputBuf_.advance ws.outputBuf_.readable.length } _ :=
    ⟨rfl, ⟨hinput, hdecode, hempty⟩, hmodest.message, hmodest.ping, hmodest.pong⟩
  exact .ok (htracked.emit _)

/-- `outputBuf_` behind `writeHeader`. -/
def putHeader (outputBuf : Buffer) (payLoadLength opcode : ℕ) : Buffer :=
  let outputBuf := outputBuf.putByte (0x8f &&& (0x80 ||| opcode))
  if payLoadLength < 126 then outputBuf.putByte payLoadLength
  else if payLoadLength ≤ 0xffff then (outputBuf.putByte 126).putUInt16 payLoadLength
  else if 0xfff < payLoadLength then (outputBuf.putByte 127).putUInt64 payLoadLength
  else outputBuf

theorem putHeader_machine {outputBuf : Buffer} (h : outputBuf.Slack 4) (payLoadLength opcode : ℕ) :
    Machine.WebSocketConnection.putHeader outputBuf.machine payLoadLength opcode =
        some (putHeader outputBuf payLoadLength opcode).machine ∧
      (putHeader outputBuf payLoadLength opcode).Slack 14 := by
  obtain ⟨hcontrol, h5⟩ := h.putByte (by decide) (0x8f &&& (0x80 ||| opcode))
  unfold Machine.WebSocketConnection.putHeader putHeader
  simp only [Option.bind_eq_bind, hcontrol, Option.bind_some]
  by_cases hshort : payLoadLength < 126
  · obtain ⟨hsize, h6⟩ := h5.putByte (by decide) payLoadLength
    rw [if_pos hshort, if_pos hshort]
    exact ⟨hsize, h6.mono (by decide)⟩
  · rw [if_neg hshort, if_neg hshort]
    by_cases hmedium : payLoadLength ≤ 0xffff
    · obtain ⟨hmark, h6⟩ := h5.putByte (by decide) 126
      obtain ⟨hsize, h8⟩ := h6.putUInt16 (by decide) payLoadLength
      rw [if_pos hmedium, if_pos hmedium, hmark]
      exact ⟨hsize, h8.mono (by decide)⟩
    · obtain ⟨hmark, h6⟩ := h5.putByte (by decide) 127
      obtain ⟨hsize, h14⟩ := h6.putUInt64 (by decide) payLoadLength
      have hlong : 0xfff < payLoadLength := by omega
      rw [if_neg hmedium, if_neg hmedium, if_pos hlong, if_pos hlong, hmark]
      exact ⟨hsize, h14.mono (by decide)⟩

theorem Tracked.empty_iff {output : ℕ} {ws : WebSocketConnection} {m : Machine.WebSocketConnection}
    (h : Tracked output ws m) : ws.outputBuf_.empty = true ↔ m.outputBuf_.empty = true := by
  rw [h.same]
  exact iff_of_eq (congrArg (· = true) (Buffer.empty_machine h.small.output.small).symm)

theorem Tracked.writeHeader {ws : WebSocketConnection} {m : Machine.WebSocketConnection}
    (h : Tracked 4 ws m) (payLoadLength opcode : ℕ) :
    (ws.writeHeader payLoadLength opcode).Related Same (Tracked 14)
      (m.writeHeader payLoadLength opcode) := by
  obtain ⟨hput, hslack⟩ := putHeader_machine h.small.output payLoadLength opcode
  rw [← h.outputBuf] at hput
  obtain ⟨m', hm, htracked⟩ := h.withOutput hput hslack
  unfold WebSocketConnection.writeHeader Machine.WebSocketConnection.writeHeader
  refine .ite h.empty_iff (fun _ => ?_) fun _ => .error h.same
  rw [hm]
  exact .ok htracked

theorem Tracked.sendMove {ws : WebSocketConnection} {m : Machine.WebSocketConnection}
    (h : Tracked 4 ws m) (data : Bytes) (isBinary : Bool) :
    (ws.sendMove data isBinary).Related Same (Tracked 4) (m.sendMove data isBinary) := by
  unfold WebSocketConnection.sendMove Machine.WebSocketConnection.sendMove
  refine .ite h.empty_iff (fun _ => ?_) fun _ => .error h.same
  refine (h.writeHeader _ _).bind fun w m' _ hw => ?_
  exact (hw.sendOutput data).mono (fun _ _ h' => h'.mono (Nat.zero_le _)) fun _ _ h' => h'

theorem Tracked.sendMessage {ws : WebSocketConnection} {m : Machine.WebSocketConnection}
    (h : Tracked 4 ws m) {data : Bytes} (hdata : data.length ≤ 2 ^ 29) (isBinary : Bool) :
    (ws.sendMessage data isBinary).Related Same (Tracked 4) (m.sendMessage data isBinary) := by
  refine (h.writeHeader _ _).bind fun w m' _ hw => ?_
  obtain ⟨hwrite, hslack⟩ := hw.small.output.write hdata (by decide)
  rw [← hw.outputBuf] at hwrite
  obtain ⟨m'', hm, htracked⟩ := hw.withOutput hwrite hslack
  rw [hm]
  exact (htracked.sendOutput []).mono (fun _ _ h' => h'.mono (Nat.zero_le _)) fun _ _ h' => h'

theorem putClose_machine {outputBuf : Buffer} (h : outputBuf.Slack 4) (code : StatusCode) :
    Machine.WebSocketConnection.putClose outputBuf.machine code =
        some (putClose outputBuf code).machine ∧ (putClose outputBuf code).Slack 4 := by
  have hclear : (if 0 < outputBuf.machine.readableBytes then outputBuf.machine.clear
      else outputBuf.machine) =
        (if 0 < outputBuf.readableBytes then outputBuf.clear else outputBuf).machine := by
    rw [Buffer.readableBytes_machine h.small]
    split <;> rfl
  have hslack : (if 0 < outputBuf.readableBytes then outputBuf.clear else outputBuf).Slack 0 := by
    split
    · refine ⟨h.small.of_le (Nat.zero_le _) rfl rfl, h.size, ?_⟩
      rw [Buffer.readableBytes_eq, Buffer.readable_clear]
      exact le_refl 0
    · exact ⟨h.small, h.size, by omega⟩
  obtain ⟨hcontrol, h1⟩ := hslack.putByte (by decide) 0x88
  obtain ⟨hsize, h2⟩ := h1.putByte (by decide) 0x02
  obtain ⟨hcode, h4⟩ := h2.putUInt16 (by decide) code.value
  unfold Machine.WebSocketConnection.putClose putClose
  simp only [hclear, Option.bind_eq_bind, hcontrol, hsize, hcode, Option.bind_some]
  exact ⟨trivial, h4⟩

theorem Tracked.sendClose {ws : WebSocketConnection} {m : Machine.WebSocketConnection} (h : Tracked 4 ws m)
    (hfull : 4 ≤ ws.outputBuf_.readableBytes) :
    ∃ m', m.sendClose = .ok m' ∧ Tracked 4 (ws.emit (.send (ws.outputBuf_.peek 4))) m' := by
  have hpeek : m.outputBuf_.peek 4 = some (ws.outputBuf_.peek 4) := by
    rw [h.outputBuf]
    exact Buffer.peek_machine h.small.output.small hfull
  unfold Machine.WebSocketConnection.sendClose
  rw [hpeek]
  exact ⟨_, rfl, h.emit _⟩

theorem Tracked.close {ws : WebSocketConnection} {m : Machine.WebSocketConnection} (h : Tracked 4 ws m)
    (code : StatusCode) : ∃ m', m.close code = .ok m' ∧ Tracked 4 (ws.close code) m' := by
  obtain ⟨hput, hslack⟩ := putClose_machine h.small.output code
  rw [← h.outputBuf] at hput
  obtain ⟨m', hm, htracked⟩ := h.withOutput hput hslack
  have hmachine : m.close code = (if code ≠ StatusCode.NORMAL_CLOSE then
      { m' with status_ := .CLOSING }.emit .stopRead else { m' with status_ := .CLOSING }).sendClose := by
    unfold Machine.WebSocketConnection.close
    rw [hm]
    rfl
  obtain ⟨rfl, ⟨hinput, hdecode, hout⟩, hmodest⟩ := htracked
  have hclosing : Tracked 4 { ws with
      outputBuf_ := putClose ws.outputBuf_ code
      status_ := .CLOSING } { { ws with
      outputBuf_ := putClose ws.outputBuf_ code }.machine with status_ := .CLOSING } :=
    ⟨rfl, ⟨hinput, hdecode, hout⟩, hmodest.message, hmodest.ping, hmodest.pong⟩
  have hfull : 4 ≤ (putClose ws.outputBuf_ code).readableBytes := by
    rw [Buffer.readableBytes_eq, readable_putClose]
    exact le_refl 4
  rw [hmachine]
  unfold WebSocketConnection.close
  generalize putClose ws.outputBuf_ code = outputBuf at hclosing hfull ⊢
  by_cases hcode : code ≠ StatusCode.NORMAL_CLOSE
  · simp only [if_pos hcode]
    exact (hclosing.emit .stopRead).sendClose hfull
  · simp only [if_neg hcode]
    exact hclosing.sendClose hfull

theorem Tracked.protocolError {ws : WebSocketConnection} {m : Machine.WebSocketConnection}
    (h : Tracked 4 ws m) : ∃ m', m.protocolError = .ok m' ∧ Tracked 4 ws.protocolError m' :=
  (h.emit .protocolError).close _

theorem Tracked.sendControl {ws : WebSocketConnection} {m : Machine.WebSocketConnection}
    (h : Tracked 4 ws m) (control : ℕ) {message : Bytes} (hlen : message.length < 126) :
    (ws.sendControl control message).Related Same (Tracked 4) (m.sendControl control message) := by
  obtain ⟨hcontrol, h5⟩ := h.small.output.putByte (by decide) control
  obtain ⟨hsize, h6⟩ := h5.putByte (by decide) message.length
  have hfits : message.length ≤ 2 ^ 29 := by omega
  obtain ⟨hwrite, hslack⟩ := h6.write hfits (by decide)
  rw [← h.outputBuf] at hcontrol
  have hput : (do
      let outputBuf ← m.outputBuf_.putByte control
      let outputBuf ← outputBuf.putByte message.length
      outputBuf.write message) =
        some (((ws.outputBuf_.putByte control).putByte message.length).write message).machine := by
    simp only [Option.bind_eq_bind, hcontrol, hsize, hwrite, Option.bind_some]
  obtain ⟨m', hm, htracked⟩ := h.withOutput hput hslack
  unfold WebSocketConnection.sendControl Machine.WebSocketConnection.sendControl
  rw [hm]
  exact (htracked.sendOutput []).mono (fun _ _ h' => h'.mono (Nat.zero_le _)) fun _ _ h' => h'

theorem Tracked.ping {ws : WebSocketConnection} {m : Machine.WebSocketConnection} (h : Tracked 4 ws m)
    (message : Bytes) : (ws.ping message).Related Same (Tracked 4) (m.ping message) := by
  unfold WebSocketConnection.ping Machine.WebSocketConnection.ping
  by_cases hlong : 126 ≤ message.length
  · obtain ⟨m', hm, htracked⟩ := h.close .PROTOCOL_ERROR
    rw [if_pos hlong, if_pos hlong, hm]
    exact .ok htracked
  · rw [if_neg hlong, if_neg hlong]
    exact h.sendControl _ (by omega)

theorem Tracked.pong {ws : WebSocketConnection} {m : Machine.WebSocketConnection} (h : Tracked 4 ws m)
    (message : Bytes) : (ws.pong message).Related Same (Tracked 4) (m.pong message) := by
  unfold WebSocketConnection.pong Machine.WebSocketConnection.pong
  by_cases hlong : 126 ≤ message.length
  · obtain ⟨m', hm, htracked⟩ := h.protocolError
    rw [if_pos hlong, if_pos hlong, hm]
    exact .ok htracked
  · rw [if_neg hlong, if_neg hlong]
    exact h.sendControl _ (by omega)

/-! ## Calls from the application -/

theorem Tracked.call {ws : WebSocketConnection} {m : Machine.WebSocketConnection} (h : Tracked 4 ws m)
    {c : ApiCall} (hc : c.Modest) : (ws.call c).Related Same (Tracked 4) (m.call c) := by
  cases c with
  | sendMove data isBinary => exact h.sendMove data isBinary
  | sendMessage data isBinary => exact h.sendMessage hc isBinary
  | ping message => exact h.ping message
  | pong message => exact h.pong message
  | close code =>
    obtain ⟨m', hm, htracked⟩ := h.close code
    change (Except.ok (ws.close code)).Related _ _ (m.close code)
    rw [hm]
    exact .ok htracked

theorem Tracked.calls {ws : WebSocketConnection} {m : Machine.WebSocketConnection} (h : Tracked 4 ws m)
    {cs : List ApiCall} (hcs : ∀ c ∈ cs, c.Modest) :
    (ws.calls cs).Related Same (Tracked 4) (m.calls cs) := by
  induction cs generalizing ws m with
  | nil => exact .ok h
  | cons c cs ih =>
    refine (h.call (hcs c List.mem_cons_self)).bind fun w m' _ hw => ?_
    exact ih hw fun c' hc' => hcs c' (List.mem_cons_of_mem _ hc')

theorem Tracked.runCallback {ws : WebSocketConnection} {m : Machine.WebSocketConnection}
    (h : Tracked 4 ws m) {callback callback' : Option Callback} (hmodest : Callback.Modest callback)
    (hset : callback' = callback) (effect : Effect) :
    (ws.runCallback callback effect).Related Same (Tracked 4) (m.runCallback callback' effect) := by
  rw [hset]
  cases callback with
  | none => exact .ok h
  | some answer =>
    unfold WebSocketConnection.runCallback Machine.WebSocketConnection.runCallback
    rw [(h.emit effect).trace]
    exact (h.emit effect).calls (hmodest answer rfl _)

/-! ## The header -/

/-- An activation has ended on the machine as it has here. -/
abbrev EndsAlike : Call WebSocketConnection → Call Machine.WebSocketConnection → Prop :=
  Call.Related (Tracked 4) Same

section

variable {ws : WebSocketConnection} {m : Machine.WebSocketConnection} (h : Tracked 4 ws m)
include h

theorem Tracked.refuse : (throw (.returned ws.protocolError) :
    Except (Call WebSocketConnection) WebSocketConnection).Related EndsAlike (Tracked 4) m.refuse := by
  obtain ⟨m', hm, htracked⟩ := h.protocolError
  unfold Machine.WebSocketConnection.refuse
  rw [hm]
  exact .error (.returned htracked)

theorem Tracked.readNumber (size : ℕ) : (ws.readNumber size).Related EndsAlike
    (fun p q => q.1 = p.1 ∧ Tracked 4 p.2 q.2) (m.readNumber size) := by
  obtain ⟨rfl, ⟨hinput, hdecode, hout⟩, hmodest⟩ := h
  have hread := Buffer.readTypedNumber_machine hinput size
  unfold WebSocketConnection.readNumber Machine.WebSocketConnection.readNumber
  rw [show ws.machine.inputBuffer.readTypedNumber size = _ from hread]
  cases hb : ws.inputBuffer.readTypedNumber size with
  | none => exact .error (.aborted rfl)
  | some p =>
    exact .ok ⟨rfl, rfl, ⟨hinput.readTypedNumber hb, hdecode, hout⟩, hmodest.message, hmodest.ping,
      hmodest.pong⟩

theorem Tracked.waitFor (wanted : ℕ) {readSize : ℕ} (hsize : readSize < 2 ^ 62) :
    EndsAlike (ws.waitFor wanted readSize) (m.waitFor wanted readSize) := by
  obtain ⟨rfl, ⟨hinput, hdecode, hout⟩, hmodest⟩ := h
  have hunread := Buffer.unread_machine hinput hsize
  unfold WebSocketConnection.waitFor Machine.WebSocketConnection.waitFor
  rw [show ws.machine.inputBuffer.unread readSize = _ from hunread]
  cases hb : ws.inputBuffer.unread readSize with
  | none => exact .aborted rfl
  | some b =>
    exact .returned ⟨rfl, ⟨hinput.unread hb, hdecode, hout⟩, hmodest.message, hmodest.ping,
      hmodest.pong⟩

theorem Tracked.readableBytes : m.inputBuffer.readableBytes = ws.inputBuffer.readableBytes := by
  rw [h.inputBuffer]
  exact Buffer.readableBytes_machine h.small.input

theorem Tracked.readFirstByte :
    ws.readFirstByte.Related EndsAlike (Tracked 4) m.readFirstByte := by
  refine (h.readNumber 1).bind fun p q _ hpq => ?_
  obtain ⟨hnumber, htracked⟩ := hpq
  dsimp only
  rw [hnumber]
  refine .ite Iff.rfl (fun _ => (htracked.emit .frame).refuse) fun _ => ?_
  obtain ⟨hsame, hsmall, hmodest⟩ := htracked
  rw [hsame]
  exact .ok ⟨rfl, ⟨hsmall.input, hsmall.decode, hsmall.output⟩, hmodest.message, hmodest.ping,
    hmodest.pong⟩

theorem Tracked.readSecondByte :
    ws.readSecondByte.Related EndsAlike (Tracked 4) m.readSecondByte := by
  unfold WebSocketConnection.readSecondByte Machine.WebSocketConnection.readSecondByte
  rw [h.readableBytes]
  refine .ite Iff.rfl (fun _ => .error (h.waitFor 2 (by decide))) fun _ => ?_
  refine (h.readNumber 1).bind fun p q _ hpq => ?_
  obtain ⟨hnumber, hsame, hsmall, hmodest⟩ := hpq
  dsimp only
  rw [hnumber, hsame]
  exact .ok ⟨rfl, ⟨hsmall.input, hsmall.decode, hsmall.output⟩, hmodest.message, hmodest.ping,
    hmodest.pong⟩

theorem Tracked.readLength : ws.readLength.Related EndsAlike
    (fun p q => q.1 = p.1 ∧ p.1 ≤ 10 ∧ Tracked 4 p.2 q.2) m.readLength := by
  have hput {p : ℕ × WebSocketConnection} {q : ℕ × Machine.WebSocketConnection}
      (hpq : q.1 = p.1 ∧ Tracked 4 p.2 q.2) :
      Tracked 4 { p.2 with payloadLength_ := p.1 } { q.2 with payloadLength_ := q.1 } := by
    obtain ⟨hnumber, hsame, hsmall, hmodest⟩ := hpq
    rw [hnumber, hsame]
    exact ⟨rfl, ⟨hsmall.input, hsmall.decode, hsmall.output⟩, hmodest.message, hmodest.ping,
      hmodest.pong⟩
  unfold WebSocketConnection.readLength Machine.WebSocketConnection.readLength
  rw [h.readableBytes, h.payloadLength]
  refine .ite Iff.rfl (fun _ => ?_) fun _ => .ite Iff.rfl (fun _ => ?_) fun _ =>
    .ok ⟨rfl, show 2 ≤ 10 by decide, h⟩
  · refine .ite Iff.rfl (fun _ => .error (h.waitFor 4 (by decide))) fun _ => ?_
    exact (h.readNumber 2).bind fun p q _ hpq => .ok ⟨rfl, show 4 ≤ 10 by decide, hput hpq⟩
  · refine .ite Iff.rfl (fun _ => .error (h.waitFor 10 (by decide))) fun _ => ?_
    exact (h.readNumber 8).bind fun p q _ hpq => .ok ⟨rfl, le_refl 10, hput hpq⟩

theorem Tracked.readMaskKey {readSize : ℕ} (hsize : readSize < 2 ^ 62) :
    (ws.readMaskKey readSize).Related EndsAlike (Tracked 4) (m.readMaskKey readSize) := by
  unfold WebSocketConnection.readMaskKey Machine.WebSocketConnection.readMaskKey
  rw [h.readableBytes, h.masked]
  refine .ite Iff.rfl (fun _ => ?_) fun _ => .ok h
  refine .ite Iff.rfl (fun _ => .error (h.waitFor _ hsize)) fun _ => ?_
  obtain ⟨rfl, ⟨hinput, hdecode, hout⟩, hmodest⟩ := h
  have hread : ws.machine.inputBuffer.read 4 = _ := Buffer.read_machine hinput
  rw [hread]
  cases hb : ws.inputBuffer.read 4 with
  | none => exact .error (.aborted rfl)
  | some p =>
    exact .ok ⟨rfl, ⟨hinput.read hb, hdecode, hout⟩, hmodest.message, hmodest.ping, hmodest.pong⟩

theorem Tracked.readHeader : ws.readHeader.Related EndsAlike (Tracked 4) m.readHeader := by
  refine h.readFirstByte.bind fun w m' _ hw => hw.readSecondByte.bind fun w' m'' _ hw' => ?_
  refine hw'.readLength.bind fun p q _ hpq => ?_
  obtain ⟨hsize, hle, htracked⟩ := hpq
  dsimp only
  rw [hsize]
  exact htracked.readMaskKey (Nat.lt_of_le_of_lt hle (by decide))

theorem Tracked.decodeHeader : ws.decodeHeader.Related EndsAlike (Tracked 4) m.decodeHeader := by
  have hmark {w : WebSocketConnection} {m' : Machine.WebSocketConnection} (hw : Tracked 4 w m') :
      Tracked 4 { w with headerRead_ := true } { m' with headerRead_ := true } := by
    obtain ⟨rfl, hsmall, hmodest⟩ := hw
    exact ⟨rfl, ⟨hsmall.input, hsmall.decode, hsmall.output⟩, hmodest.message, hmodest.ping,
      hmodest.pong⟩
  unfold WebSocketConnection.decodeHeader Machine.WebSocketConnection.decodeHeader
  rw [h.headerRead]
  refine .ite Iff.rfl (fun _ => .ok (hmark h)) fun _ => ?_
  exact h.readHeader.bind fun w m' _ hw => .ok (hmark hw)

/-! ## What is done with a frame -/

omit h in
theorem Tracked.orAbort {r : Except WebSocketConnection WebSocketConnection}
    {r' : Except Machine.WebSocketConnection Machine.WebSocketConnection}
    (hr : r.Related Same (Tracked 4) r') :
    (WebSocketConnection.orAbort r).Related EndsAlike (Tracked 4)
      (Machine.WebSocketConnection.orAbort r') :=
  hr.mapError fun _ _ => .aborted

theorem Tracked.clearDecodeStatus : Tracked 4 ws.clearDecodeStatus m.clearDecodeStatus := by
  obtain ⟨rfl, hsmall, hmodest⟩ := h
  exact ⟨rfl, ⟨hsmall.input, hsmall.decode, hsmall.output⟩, hmodest.message, hmodest.ping,
    hmodest.pong⟩

theorem Tracked.fragmented {opcode opcode' : ℕ} (hopcode : opcode' = opcode) :
    Tracked 4 { ws with fragmentedOpCode_ := opcode } { m with fragmentedOpCode_ := opcode' } := by
  obtain ⟨rfl, hsmall, hmodest⟩ := h
  subst hopcode
  exact ⟨rfl, ⟨hsmall.input, hsmall.decode, hsmall.output⟩, hmodest.message, hmodest.ping,
    hmodest.pong⟩

theorem Tracked.withDecode {decodeBuf : Buffer} (hdecode : decodeBuf.Small) :
    Tracked 4 { ws with decodeBuf_ := decodeBuf } { m with decodeBuf_ := decodeBuf.machine } := by
  obtain ⟨rfl, hsmall, hmodest⟩ := h
  exact ⟨rfl, ⟨hsmall.input, hdecode, hsmall.output⟩, hmodest.message, hmodest.ping, hmodest.pong⟩

theorem Tracked.dropAssembly : ∃ m', m.dropAssembly = .ok m' ∧
    Tracked 4 { ws with decodeBuf_ := ws.decodeBuf_.advance ws.decodeBuf_.readable.length } m' := by
  have hdecode := h.small.decode
  have hretrieve := ws.decodeBuf_.retrieve_eq (le_refl _)
  have hlen : ws.decodeBuf_.readable.length < 2 ^ 62 := by
    have := hdecode.bounds
    rw [Buffer.length_readable]
    unfold Buffer.readableBytes
    omega
  refine ⟨_, ?_, h.withDecode (hdecode.retrieve hretrieve)⟩
  unfold Machine.WebSocketConnection.dropAssembly
  rw [h.decodeBuf, Buffer.readableBytes_machine hdecode, Buffer.readableBytes_eq,
    Buffer.retrieve_machine hdecode hlen, hretrieve]
  rfl

theorem Tracked.deliver (isBinary : Bool) :
    (ws.deliver isBinary).Related EndsAlike (Tracked 4) (m.deliver isBinary) := by
  have hread := ws.decodeBuf_.readString_eq
  have htaken := h.withDecode (h.small.decode.readString hread)
  unfold WebSocketConnection.deliver Machine.WebSocketConnection.deliver
  rw [hread]
  by_cases hset : m.wsMessageCallback_.isSome = true
  · rw [if_pos hset, h.decodeBuf, Buffer.readString_machine h.small.decode, hread]
    exact orAbort (htaken.runCallback h.modest.message h.wsMessageCallback _)
  · obtain ⟨m', hm, htracked⟩ := h.dropAssembly
    have hnone : ws.wsMessageCallback_ = none := by
      rw [← h.wsMessageCallback]
      exact Option.not_isSome_iff_eq_none.mp hset
    rw [if_neg hset, hm]
    dsimp only
    rw [hnone] at htracked ⊢
    exact .ok htracked

theorem Tracked.onClose : ws.onClose.Related EndsAlike (Tracked 4) m.onClose := by
  unfold WebSocketConnection.onClose Machine.WebSocketConnection.onClose
  rw [h.status]
  refine .ite Iff.rfl (fun _ => ?_) fun _ => .ok h
  obtain ⟨m', hm, rfl, hsmall, hmodest⟩ := h.close .NORMAL_CLOSE
  rw [hm]
  refine .ok (Tracked.emit ?_ _)
  exact ⟨rfl, ⟨hsmall.input, hsmall.decode, hsmall.output⟩, hmodest.message, hmodest.ping,
    hmodest.pong⟩

theorem Tracked.deliverFragments :
    ws.deliverFragments.Related EndsAlike (Tracked 4) m.deliverFragments := by
  unfold WebSocketConnection.deliverFragments Machine.WebSocketConnection.deliverFragments
  rw [h.fragmentedOpCode, h.wsMessageCallback]
  exact .ite Iff.rfl (fun _ => h.deliver _) fun _ => .ok h

theorem Tracked.onContinuation :
    ws.onContinuation.Related EndsAlike (Tracked 4) m.onContinuation := by
  unfold WebSocketConnection.onContinuation Machine.WebSocketConnection.onContinuation
  rw [h.fragmentedOpCode, h.isFin]
  refine .ite Iff.rfl (fun _ => h.refuse) fun _ => .ite Iff.rfl (fun _ => ?_) fun _ =>
    .ok h.clearDecodeStatus
  exact h.deliverFragments.bind fun w m' _ hw => .ok (hw.fragmented rfl).clearDecodeStatus

theorem Tracked.onData : ws.onData.Related EndsAlike (Tracked 4) m.onData := by
  unfold WebSocketConnection.onData Machine.WebSocketConnection.onData
  refine .ite (by rw [h.fragmentedOpCode]) (fun _ => h.refuse) fun _ =>
    .ite (by rw [h.isFin]) (fun _ => ?_) fun _ => .ok (h.fragmented h.opcode).clearDecodeStatus
  rw [h.opcode]
  exact (h.deliver _).bind fun w m' _ hw => .ok hw.clearDecodeStatus

theorem Tracked.dropControl (originSize : ℕ) :
    (ws.dropControl originSize).Related EndsAlike (Tracked 4) (m.dropControl originSize) := by
  unfold WebSocketConnection.dropControl Machine.WebSocketConnection.dropControl
  refine .ite Iff.rfl (fun _ => ?_) fun _ => .ok h.clearDecodeStatus
  have hunwrite : m.decodeBuf_.unwrite m.payloadLength_ =
      (ws.decodeBuf_.unwrite ws.payloadLength_).map Buffer.machine := by
    rw [h.decodeBuf, h.payloadLength, Buffer.unwrite_machine h.small.decode]
  rw [hunwrite]
  cases hb : ws.decodeBuf_.unwrite ws.payloadLength_ with
  | none => exact .error (.aborted h.same)
  | some b => exact .ok (h.withDecode (h.small.decode.unwrite hb)).clearDecodeStatus

/-- The payload lies behind the fragments, so all of it can be loaded. -/
theorem Tracked.controlPayload {header : Header} {old payload : Bytes}
    (hold : ws.Holds header old payload) : m.controlPayload old.length = .ok payload := by
  have hbytes : ws.decodeBuf_.readable = old ++ payload := hold.bytes
  have hlen := ws.decodeBuf_.length_readable
  have hbounds := h.small.decode.bounds
  rw [hbytes, List.length_append] at hlen
  have hpayload : window (ws.decodeBuf_.readIndex_ + old.length) payload.length
      ws.decodeBuf_.buf_ = payload := by
    have hdrop : ws.decodeBuf_.readable.drop old.length = payload := by
      rw [hbytes, List.drop_left]
    rw [Buffer.readable, Buffer.peek, drop_window, ← hlen, Nat.add_sub_cancel_left] at hdrop
    exact hdrop
  have hload := ws.decodeBuf_.load_machine old.length payload.length (by
    unfold Buffer.readableBytes at hlen
    omega)
  unfold Machine.WebSocketConnection.controlPayload
  rw [h.decodeBuf, h.payloadLength, hold.payloadLength, hload, hpayload]
  rfl

theorem Tracked.tellControl {header : Header} {old payload : Bytes}
    (hold : ws.Holds header old payload) {callback callback' : Option Callback}
    (hmodest : Callback.Modest callback) (hset : callback' = callback) (effect : Bytes → Effect) :
    (WebSocketConnection.orAbort (ws.runCallback callback (effect payload))).Related EndsAlike (Tracked 4)
      (m.tellControl callback' effect old.length) := by
  subst hset
  unfold Machine.WebSocketConnection.tellControl
  cases callback' with
  | none => exact .ok h
  | some answer =>
    rw [if_pos Option.isSome_some, h.controlPayload hold]
    exact orAbort (h.runCallback hmodest rfl _)

theorem Tracked.onPing {header : Header} {old payload : Bytes} (hold : ws.Holds header old payload) :
    (ws.onPing old.length).Related EndsAlike (Tracked 4) (m.onPing old.length) := by
  unfold WebSocketConnection.onPing Machine.WebSocketConnection.onPing
  rw [h.isFin, hold.controlPayload]
  refine .ite Iff.rfl (fun _ => h.refuse) fun _ => ?_
  refine (h.tellControl hold h.modest.ping h.pingCallback .ping).bind fun w m' hw htracked => ?_
  have hold' := hold.orAbort (abs_runCallback _ _ _) (Decoder.sent_runCallback _ _ _) hw
  rw [hold'.controlPayload, htracked.controlPayload hold']
  exact (orAbort (htracked.pong payload)).bind fun w' m'' _ hw' => hw'.dropControl _

theorem Tracked.onPong {header : Header} {old payload : Bytes} (hold : ws.Holds header old payload) :
    (ws.onPong old.length).Related EndsAlike (Tracked 4) (m.onPong old.length) := by
  unfold WebSocketConnection.onPong Machine.WebSocketConnection.onPong
  rw [h.isFin, hold.controlPayload]
  refine .ite Iff.rfl (fun _ => h.refuse) fun _ => ?_
  exact (h.tellControl hold h.modest.pong h.pongCallback .pong).bind fun w m' _ hw =>
    hw.dropControl _

theorem Tracked.onFrame {header : Header} {old payload : Bytes} (hold : ws.Holds header old payload) :
    (ws.onFrame old.length).Related EndsAlike (Tracked 4) (m.onFrame old.length) := by
  unfold WebSocketConnection.onFrame Machine.WebSocketConnection.onFrame
  rw [h.opcode]
  -- one case for each opcode up to 10, and one for all above
  generalize ws.opcode_ = opcode
  obtain _ | _ | _ | _ | _ | _ | _ | _ | _ | _ | _ | n := opcode
  · exact h.onContinuation
  · exact h.onData
  · exact h.onData
  · exact h.refuse
  · exact h.refuse
  · exact h.refuse
  · exact h.refuse
  · exact h.refuse
  · exact h.onClose
  · exact h.onPing hold
  · exact h.onPong hold
  · exact h.refuse

/-- The payload is moved when it is there, and then it has to have room. -/
theorem Tracked.readPayload (hroom : ws.payloadLength_ ≤ ws.inputBuffer.readableBytes →
      ws.decodeBuf_.start ws.payloadLength_ + ws.payloadLength_ < 2 ^ 31) :
    ws.readPayload.Related EndsAlike (Tracked 4) m.readPayload := by
  unfold WebSocketConnection.readPayload Machine.WebSocketConnection.readPayload
  refine .ite (by rw [h.readableBytes, h.payloadLength]) (fun _ => ?_) fun hall => ?_
  · obtain ⟨rfl, hsmall, hmodest⟩ := h
    exact .error (.returned ⟨rfl, ⟨hsmall.input, hsmall.decode, hsmall.output⟩, hmodest.message,
      hmodest.ping, hmodest.pong⟩)
  · have hall : ws.payloadLength_ ≤ ws.inputBuffer.readableBytes := Nat.le_of_not_lt hall
    have hfit : ws.payloadLength_ ≤ ws.inputBuffer.readable.length := by
      rwa [← Buffer.readableBytes_eq]
    have hwrite := ws.decodeBuf_.writeFrom_eq hfit
    obtain ⟨hdecode, hinput⟩ := h.small.decode.writeFrom (hroom hall) hwrite h.small.input
    have hmachine := Buffer.writeFrom_machine h.small.decode h.small.input hall (hroom hall)
    have hgrown : ws.decodeBuf_.readableBytes ≤
        (ws.decodeBuf_.write (ws.inputBuffer.readable.take ws.payloadLength_)).readableBytes := by
      rw [Buffer.readableBytes_eq, Buffer.readableBytes_eq, Buffer.readable_write,
        List.length_append]
      exact Nat.le_add_right _ _
    obtain ⟨hunmask, hunmasked⟩ := Buffer.unmaskFrom_machine hdecode ws.maskKey_ hgrown
    have hmoved : m.movePayload = some ((if ws.masked_ then
        (ws.decodeBuf_.write (ws.inputBuffer.readable.take ws.payloadLength_)).unmaskFrom
          ws.decodeBuf_.readableBytes ws.maskKey_
        else ws.decodeBuf_.write (ws.inputBuffer.readable.take ws.payloadLength_)).machine,
        (ws.inputBuffer.advance ws.payloadLength_).machine) := by
      unfold Machine.WebSocketConnection.movePayload
      rw [h.decodeBuf, h.inputBuffer, h.payloadLength, h.masked, h.maskKey, hmachine, hwrite,
        Buffer.readableBytes_machine h.small.decode]
      simp only [Option.map_some, Option.bind_eq_bind, Option.bind_some]
      by_cases hmasked : ws.masked_ = true
      · rw [if_pos hmasked, if_pos hmasked, hunmask]
        rfl
      · rw [if_neg hmasked, if_neg hmasked]
        rfl
    rw [hwrite, hmoved]
    obtain ⟨rfl, hsmall, hmodest⟩ := h
    refine .ok ⟨rfl, ⟨hinput, ?_, hsmall.output⟩, hmodest.message, hmodest.ping, hmodest.pong⟩
    dsimp only
    split
    · exact hunmasked
    · exact hdecode

theorem Tracked.decodeBody {header : Header} (hheader : ws.abs.header = some header)
    (hroom : ws.payloadLength_ ≤ ws.inputBuffer.readableBytes →
      ws.decodeBuf_.start ws.payloadLength_ + ws.payloadLength_ < 2 ^ 31) :
    ws.decodeBody.Related EndsAlike (Tracked 4) m.decodeBody := by
  have hsize : m.decodeBuf_.readableBytes = ws.decodeBuf_.readable.length := by
    rw [h.decodeBuf, Buffer.readableBytes_machine h.small.decode, Buffer.readableBytes_eq]
  unfold WebSocketConnection.decodeBody Machine.WebSocketConnection.decodeBody
  rw [hsize, Buffer.readableBytes_eq]
  refine (h.readPayload hroom).bind fun w m' hw htracked => ?_
  obtain ⟨-, ended, he, -⟩ | ⟨-, w', hw', -, hold⟩ := readPayload_cases hheader
  · cases hw.symm.trans he
  · cases hw.symm.trans hw'
    exact (htracked.emit .frame).onFrame hold

/-- **One activation.** -/
theorem Tracked.decodeCall (hroom : ws.RoomAhead) : EndsAlike ws.decodeCall m.decodeCall := by
  have hall : (ws.decodeHeader >>= WebSocketConnection.decodeBody).Related EndsAlike (Tracked 4)
      (m.decodeHeader >>= Machine.WebSocketConnection.decodeBody) := by
    refine h.decodeHeader.bind fun w m' hw htracked => ?_
    obtain ⟨hread, hheader, hquiet⟩ := decodeHeader_ok hw
    refine htracked.decodeBody hheader fun hall => ?_
    obtain ⟨t, hahead, hlength⟩ := exists_ahead_of_header hw hall
    rw [hquiet.decode, ← hlength]
    exact hroom t hahead
  unfold WebSocketConnection.decodeCall Machine.WebSocketConnection.decodeCall
  generalize ws.decodeHeader >>= WebSocketConnection.decodeBody = r at hall ⊢
  generalize m.decodeHeader >>= Machine.WebSocketConnection.decodeBody = r' at hall ⊢
  cases hall with
  | error hended => exact hended
  | ok htracked =>
    dsimp only
    rw [htracked.readableBytes]
    split
    · exact .again htracked
    · exact .returned htracked

end

end WebSocketConnection
end WsEngine
