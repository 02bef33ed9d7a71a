import WsEngine.Ws.Frame

/-! # The decoder over byte lists

The connection without its memory: the buffers are the bytes they hold, and the fields that `decode`
leaves stale while no header is read are gone. `Decoder.call` is one activation of `decode`. -/
set_option autoImplicit false

namespace WsEngine

/-- The bytes start as a close frame does. -/
def isClose (bytes : Bytes) : Bool := bytes.head? = some 0x88

structure Decoder where
  input : Bytes
  status : Status
  messageCallback : Option Callback
  pingCallback : Option Callback
  pongCallback : Option Callback
  output : Bytes
  -- the unmasked payloads that wait in `decodeBuf_`
  assembly : Bytes
  fragmentedOpCode : ℕ
  header : Option Header
  wanted : ℕ
  trace : List Effect

namespace Decoder

def emit (d : Decoder) (effect : Effect) : Decoder := { d with trace := d.trace ++ [effect] }

/-! ## Sending -/

def closeFrame (code : StatusCode) : Bytes := 0x88 :: 0x02 :: Buffer.htons code.value

def messageHeader (length : ℕ) (isBinary : Bool) : Bytes :=
  let control : UInt8 := if isBinary then 0x82 else 0x81
  if length < 126 then [control, UInt8.ofNat length]
  else if length ≤ 0xffff then control :: 126 :: Buffer.htons length
  else control :: 127 :: (Buffer.htonl ((length >>> 32) % 2 ^ 32) ++
    Buffer.htonl ((length &&& 0xfffffffff) % 2 ^ 32))

theorem head_messageHeader (length : ℕ) (isBinary : Bool) (data : Bytes) :
    (messageHeader length isBinary ++ data).head? = some (if isBinary then 0x82 else 0x81) := by
  unfold messageHeader
  dsimp only
  split
  · rfl
  · split <;> rfl

def sendMessage (d : Decoder) (data : Bytes) (isBinary : Bool) : Except Decoder Decoder :=
  if d.output = [] then .ok (d.emit (.send (messageHeader data.length isBinary ++ data)))
  else .error d

def close (d : Decoder) (code : StatusCode) : Decoder :=
  let d := { d with
    output := closeFrame code
    status := .CLOSING }
  let d := if code ≠ .NORMAL_CLOSE then d.emit .stopRead else d
  d.emit (.send (closeFrame code))

def protocolError (d : Decoder) : Decoder := (d.emit .protocolError).close .PROTOCOL_ERROR

/-- A control frame goes out behind what a close left in the output. -/
def sendControl (d : Decoder) (control : UInt8) (message : Bytes) : Decoder :=
  { d with output := [] }.emit (.send (d.output ++ control :: UInt8.ofNat message.length :: message))

def ping (d : Decoder) (message : Bytes) : Decoder :=
  if 126 ≤ message.length then d.close .PROTOCOL_ERROR else d.sendControl 0x89 message

def pong (d : Decoder) (message : Bytes) : Decoder :=
  if 126 ≤ message.length then d.protocolError else d.sendControl 0x8a message

def call (d : Decoder) : ApiCall → Except Decoder Decoder
  | .sendMove data isBinary => d.sendMessage data isBinary
  | .sendMessage data isBinary => d.sendMessage data isBinary
  | .ping message => .ok (d.ping message)
  | .pong message => .ok (d.pong message)
  | .close code => .ok (d.close code)

def calls (d : Decoder) : List ApiCall → Except Decoder Decoder
  | [] => .ok d
  | c :: cs => do
    let d ← d.call c
    d.calls cs

def runCallback (d : Decoder) (callback : Option Callback) (effect : Effect) :
    Except Decoder Decoder :=
  match callback with
  | some answer => (d.emit effect).calls (answer (d.emit effect).trace)
  | none => .ok d

/-- What the application calls when it is told of `effect`. -/
def answers (d : Decoder) (callback : Option Callback) (effect : Effect) : List ApiCall :=
  match callback with
  | some answer => answer (d.emit effect).trace
  | none => []

/-! ## Frames -/

/-- The header is done with. -/
def cleared (d : Decoder) : Decoder :=
  { d with
    wanted := 0
    header := none }

def orAbort (r : Except Decoder Decoder) : Except (Call Decoder) Decoder := r.mapError .aborted

def deliver (d : Decoder) (isBinary : Bool) : Except (Call Decoder) Decoder :=
  orAbort ({ d with assembly := [] }.runCallback d.messageCallback (.message d.assembly isBinary))

def deliverFragments (d : Decoder) : Except (Call Decoder) Decoder :=
  if d.messageCallback.isNone ∨ d.fragmentedOpCode = 1 ∨ d.fragmentedOpCode = 2 then
    d.deliver (d.fragmentedOpCode = 2)
  else return d

def onContinuation (d : Decoder) (isFin : Bool) : Except (Call Decoder) Decoder :=
  if d.fragmentedOpCode = 0 then throw (.returned d.protocolError)
  else if isFin then do
    let d ← d.deliverFragments
    return { d with fragmentedOpCode := 0 }.cleared
  else return d.cleared

def onData (d : Decoder) (isFin : Bool) (opcode : ℕ) : Except (Call Decoder) Decoder :=
  if d.fragmentedOpCode ≠ 0 then throw (.returned d.protocolError)
  else if isFin then do
    let d ← d.deliver (opcode = 2)
    return d.cleared
  else return { d with fragmentedOpCode := opcode }.cleared

def onClose (d : Decoder) : Except (Call Decoder) Decoder :=
  if d.status = .CONNECT then
    return { d.close .NORMAL_CLOSE with status := .CLOSED }.emit .closeTcp
  else return d

/-- What stays of the assembly after a control frame: `old` where there was something before it, and
its own payload where there was not. -/
def dropControl (d : Decoder) (old payload : Bytes) : Decoder :=
  { d with assembly := if old = [] then payload else old }.cleared

def onPing (d : Decoder) (isFin : Bool) (old payload : Bytes) : Except (Call Decoder) Decoder :=
  if ¬ isFin then throw (.returned d.protocolError)
  else do
    let d ← orAbort (d.runCallback d.pingCallback (.ping payload))
    return (d.pong payload).dropControl old payload

def onPong (d : Decoder) (isFin : Bool) (old payload : Bytes) : Except (Call Decoder) Decoder :=
  if ¬ isFin then throw (.returned d.protocolError)
  else do
    let d ← orAbort (d.runCallback d.pongCallback (.pong payload))
    return d.dropControl old payload

/-- A frame whose payload was appended to the assembly, which was `old` before. -/
def onFrame (d : Decoder) (h : Header) (old payload : Bytes) : Except (Call Decoder) Decoder :=
  match h.opcode with
  | 0 => d.onContinuation h.isFin
  | 1 => d.onData h.isFin 1
  | 2 => d.onData h.isFin 2
  | 8 => d.onClose
  | 9 => d.onPing h.isFin old payload
  | 10 => d.onPong h.isFin old payload
  | _ => throw (.returned d.protocolError)

/-- The state in which `onFrame` is called: the payload is moved from the input. -/
def take (d : Decoder) (h : Header) : Decoder :=
  { d with
    input := d.input.drop h.length
    assembly := d.assembly ++ h.unmask (d.input.take h.length) }.emit .frame

/-- What an activation does once it has the header `h`. -/
def body (d : Decoder) (h : Header) : Except (Call Decoder) Decoder :=
  if d.input.length < h.length then
    throw (.returned { d with wanted := h.length })
  else (d.take h).onFrame h d.assembly (h.unmask (d.input.take h.length))

/-- The header at the front of the input. -/
def readFront (d : Decoder) : Except (Call Decoder) (Header × Decoder) :=
  match front d.input with
  | .nothing => throw (.aborted d)
  | .reserved => throw (.returned ({ d with input := d.input.drop 1 }.emit .frame).protocolError)
  | .short wanted => throw (.returned { d with wanted := wanted })
  | .full h size code =>
    return (h, { d with
      input := d.input.drop size
      header := some h
      wanted := code })

def readHeader (d : Decoder) : Except (Call Decoder) (Header × Decoder) :=
  match d.header with
  | some h => return (h, d)
  | none => d.readFront

def read (d : Decoder) : Except (Call Decoder) Decoder := do
  let (h, d) ← d.readHeader
  d.body h

/-- One activation of `decode`. -/
def activate (d : Decoder) : Call Decoder :=
  match d.read with
  | .ok d => if d.input = [] then .returned d else .again d
  | .error ended => ended

def decode (d : Decoder) : Call Decoder := Call.iterate activate (d.input.length + 2) d

/-- `parse` after the handshake. -/
def parse (d : Decoder) : Call Decoder :=
  if d.input.length < d.wanted then .returned d
  else
    match d.status with
    | .CONNECT | .CLOSING => d.decode
    | _ => .returned d

def receive (d : Decoder) (bytes : Bytes) : Decoder := { d with input := d.input ++ bytes }

/-! ## What sending leaves alone -/

/-- `d'` differs from `d` in its output and status, and by more effects. -/
def Sent (d d' : Decoder) : Prop :=
  ∃ output status more, d' = { d with
    output := output
    status := status
    trace := d.trace ++ more }

theorem Sent.refl (d : Decoder) : d.Sent d := ⟨d.output, d.status, [], by rw [List.append_nil]⟩

theorem Sent.trans {d d' d'' : Decoder} (h : d.Sent d') (h' : d'.Sent d'') : d.Sent d'' := by
  obtain ⟨o, s, more, rfl⟩ := h
  obtain ⟨o', s', more', rfl⟩ := h'
  exact ⟨o', s', more ++ more', by simp only [List.append_assoc]⟩

theorem sent_emit (d : Decoder) (effect : Effect) : d.Sent (d.emit effect) :=
  ⟨d.output, d.status, [effect], rfl⟩

theorem sent_close (d : Decoder) (code : StatusCode) : d.Sent (d.close code) := by
  by_cases h : code ≠ .NORMAL_CLOSE
  · refine ⟨closeFrame code, .CLOSING, [.stopRead, .send (closeFrame code)], ?_⟩
    simp only [close, emit, if_pos h, List.append_assoc, List.cons_append, List.nil_append]
  · refine ⟨closeFrame code, .CLOSING, [.send (closeFrame code)], ?_⟩
    simp only [close, emit, if_neg h]

theorem sent_protocolError (d : Decoder) : d.Sent d.protocolError :=
  (sent_emit d _).trans (sent_close _ _)

theorem sent_sendControl (d : Decoder) (control : UInt8) (message : Bytes) :
    d.Sent (d.sendControl control message) := ⟨[], d.status, [_], rfl⟩

theorem sent_ping (d : Decoder) (message : Bytes) : d.Sent (d.ping message) := by
  unfold ping
  split
  · exact sent_close _ _
  · exact sent_sendControl _ _ _

theorem sent_pong (d : Decoder) (message : Bytes) : d.Sent (d.pong message) := by
  unfold pong
  split
  · exact sent_protocolError _
  · exact sent_sendControl _ _ _

/-- The state in which calls ended, in an assertion or not. -/
def ended : Except Decoder Decoder → Decoder
  | .ok d => d
  | .error d => d

theorem sent_call (d : Decoder) (c : ApiCall) : d.Sent (ended (d.call c)) := by
  have hmessage (data : Bytes) (isBinary : Bool) :
      d.Sent (ended (d.sendMessage data isBinary)) := by
    unfold sendMessage
    split
    · exact sent_emit _ _
    · exact .refl d
  cases c with
  | sendMove data isBinary => exact hmessage data isBinary
  | sendMessage data isBinary => exact hmessage data isBinary
  | ping message => exact sent_ping d message
  | pong message => exact sent_pong d message
  | close code => exact sent_close d code

theorem sent_calls (d : Decoder) (cs : List ApiCall) : d.Sent (ended (d.calls cs)) := by
  induction cs generalizing d with
  | nil => exact .refl d
  | cons c cs ih =>
    have h := sent_call d c
    unfold calls
    cases hc : d.call c with
    | error d' =>
      rw [hc] at h
      exact h
    | ok d' =>
      rw [hc] at h
      exact h.trans (ih d')

theorem sent_runCallback (d : Decoder) (callback : Option Callback) (effect : Effect) :
    d.Sent (ended (d.runCallback callback effect)) := by
  cases callback with
  | none => exact .refl d
  | some answer => exact (sent_emit d effect).trans (sent_calls _ _)

end Decoder
end WsEngine
