import WsEngine.Machine.Session
import WsEngine.Ws.Endpoint
import WsEngine.Ws.SendsStop

/-! # Both connections in machine words

The two overloads of `sendMessage`, and the system of reads and completions, over the machine's
connections. They do what they do over naturals while there is room for what is received (`HasRoom` of
the WebSocket connection) and for what is sent (`HasRoom` of the TCP connection). -/
set_option autoImplicit false

namespace WsEngine
namespace Machine

structure Endpoint where
  ws : WebSocketConnection
  tcp : TcpConnection

inductive EndpointFault
  | ws (ended : WebSocketConnection)
  | tcp (fault : TcpFault)

namespace Endpoint

/-- `sendMessage(String &&data, bool isBinary)`. -/
def sendMove (e : Endpoint) (data : Bytes) (isBinary : Bool) (uv : ℤ) :
    Except EndpointFault (ℤ × Endpoint) :=
  if e.ws.outputBuf_.empty then do
    let ws ← (e.ws.writeHeader data.length (if isBinary then 2 else 1)).mapError .ws
    let (ret, outputBuf, tcp) ← (e.tcp.sendScatter ws.outputBuf_ data uv).mapError .tcp
    let effect := Effect.send (ws.outputBuf_.readable ++ data)
    return (ret, ⟨{ ws with outputBuf_ := outputBuf }.emit effect, tcp⟩)
  else throw (.ws e.ws)

/-- `sendMessage(const String& data, bool isBinary)`. -/
def sendMessage (e : Endpoint) (data : Bytes) (isBinary : Bool) (uv : ℤ) :
    Except EndpointFault (ℤ × Endpoint) := do
  let ws ← (e.ws.writeHeader data.length (if isBinary then 2 else 1)).mapError .ws
  let ws ← (ws.withOutput (ws.outputBuf_.write data)).mapError .ws
  let (ret, outputBuf, tcp) ← (e.tcp.sendBuffer ws.outputBuf_ uv).mapError .tcp
  let effect := Effect.send ws.outputBuf_.readable
  return (ret, ⟨{ ws with outputBuf_ := outputBuf }.emit effect, tcp⟩)

end Endpoint

/-! ## Reads and completions -/

def TcpConnection.perform (hand : ℕ → Bytes → TcpEvent) :
    ℕ → List Effect → TcpConnection → Except TcpFault TcpConnection
  | _, [], c => .ok c
  | n, .send bytes :: effects, c => do
    let c ← c.step (hand n bytes)
    TcpConnection.perform hand (n + 1) effects c
  | n, .stopRead :: effects, c => TcpConnection.perform hand n effects c.stopRead
  | n, .closeTcp :: effects, c => do
    let c ← c.close
    TcpConnection.perform hand n effects c
  | n, .message _ _ :: effects, c | n, .ping _ :: effects, c | n, .pong _ :: effects, c
  | n, .frame :: effects, c | n, .protocolError :: effects, c => TcpConnection.perform hand n effects c

namespace Endpoint

variable (httpParserExecute : WebSocketConnection → Bytes → ℕ × WebSocketConnection)

/-- What the effects of `parse` do to the TCP connection. -/
def parsed (e : Endpoint) (hand : ℕ → Bytes → TcpEvent) (tcp : TcpConnection) :
    Call WebSocketConnection → Except EndpointFault Endpoint
  | .returned ws => do
    let tcp ← (tcp.perform hand 0 (ws.trace.drop e.ws.trace.length)).mapError .tcp
    return ⟨ws, tcp⟩
  | .again ws | .aborted ws => throw (.ws ws)

def step (e : Endpoint) : EndpointEvent → Except EndpointFault Endpoint
  | .read bytes hand =>
    match e.ws.inputBuffer.write bytes with
    | some inputBuffer => do
      let tcp ← (e.tcp.step (.readData bytes)).mapError .tcp
      e.parsed hand tcp ({ e.ws with inputBuffer := inputBuffer }.parse httpParserExecute)
    | none => throw (.ws e.ws)
  | .writeDone status uv => do
    let tcp ← (e.tcp.step (.writeDone status uv)).mapError .tcp
    return { e with tcp := tcp }

def Possible (e : Endpoint) : EndpointEvent → Prop
  | .read bytes hand => e.tcp.Possible (.readData bytes) ∧ ∀ n bytes, (hand n bytes).Hands bytes
  | .writeDone status uv => e.tcp.Possible (.writeDone status uv) ∧ 0 ≤ status ∧ 0 ≤ uv

def system : EventSystem Endpoint EndpointEvent EndpointFault := ⟨Possible, step httpParserExecute⟩

end Endpoint
end Machine

namespace Endpoint

def machine (e : Endpoint) : Machine.Endpoint := ⟨e.ws.machine, e.tcp.machine⟩

structure Small (e : Endpoint) : Prop where
  ws : e.ws.Small 4
  tcp : e.tcp.outputBuf.Small

/-- The machine is where the connections are, and can go on from there. -/
structure Tracked (e : Endpoint) (m : Machine.Endpoint) : Prop where
  ws : WebSocketConnection.Tracked 4 e.ws m.ws
  tcp : TcpConnection.Tracked e.tcp m.tcp

theorem Small.tracked {e : Endpoint} (h : e.Small) (hmodest : e.ws.Modest) :
    Tracked e e.machine := ⟨⟨rfl, h.ws, hmodest⟩, rfl, h.tcp⟩

end Endpoint

/-- The same assertion has failed, in the same state. -/
inductive EndpointFault.Same : EndpointFault → Machine.EndpointFault → Prop
  | ws {w : WebSocketConnection} {m : Machine.WebSocketConnection} (h : w.Same m) :
    Same (.ws w) (.ws m)
  | tcp {f f' : TcpFault} (h : f = f') : Same (.tcp f) (.tcp f')

namespace Endpoint

/-! ## Sending a message -/

/-- The frame is sent, and nothing of it stays in `outputBuf_`. -/
theorem Tracked.sent {w : WebSocketConnection} {m : Machine.WebSocketConnection} {output : ℕ}
    (h : WebSocketConnection.Tracked output w m) {c : TcpConnection} {t : Machine.TcpConnection}
    (htcp : c.Tracked t) (effect : Effect) :
    Tracked ⟨{ w with outputBuf_ := w.outputBuf_.advance w.outputBuf_.readable.length }.emit effect, c⟩
      ⟨{ m with
        outputBuf_ := (w.outputBuf_.advance w.outputBuf_.readable.length).machine }.emit effect, t⟩ := by
  obtain ⟨-, hempty⟩ := h.small.output.readString
  obtain ⟨rfl, ⟨hinput, hdecode, -⟩, hmodest⟩ := h
  exact ⟨⟨rfl, ⟨hinput, hdecode, hempty.mono (Nat.zero_le 4)⟩, hmodest.message, hmodest.ping,
    hmodest.pong⟩, htcp⟩

theorem Tracked.sendMove {e : Endpoint} {m : Machine.Endpoint} (h : e.Tracked m) (data : Bytes)
    (isBinary : Bool) (uv : ℤ) (hout : e.ws.outputBuf_.readable = [])
    (hroom : e.tcp.HasRoom (Decoder.messageHeader data.length isBinary ++ data).length) :
    (e.sendMove data isBinary uv).Related EndpointFault.Same
      (fun r r' => r'.1 = r.1 ∧ Tracked r.2 r'.2) (m.sendMove data isBinary uv) := by
  unfold Endpoint.sendMove Machine.Endpoint.sendMove
  refine .ite h.ws.empty_iff (fun _ => ?_) fun _ => .error (.ws h.ws.same)
  refine ((h.ws.writeHeader _ _).mapError fun _ _ => .ws).bind fun w m' hw htracked => ?_
  obtain ⟨header, hwrite, hheader⟩ := WebSocketConnection.writeHeader_eq data.length isBinary hout
  cases hwrite.symm.trans (Except.mapError_eq_ok.mp hw)
  have hsmall := htracked.small.output.small
  have hfits : e.tcp.Roomy (.sendScatter header data uv) := by
    rw [← hheader] at hroom
    exact TcpConnection.HasRoom.roomy hroom hsmall
  have hscatter := h.tcp.sendScatter data uv hsmall hfits.2
  have hbuf : m'.outputBuf_ = header.machine := htracked.outputBuf
  rw [← hbuf] at hscatter
  refine (hscatter.mapError fun _ _ => .tcp).bind ?_
  rintro ⟨ret, outputBuf, c⟩ ⟨ret', outputBuf', t⟩ hr ⟨hret, hbuf', htcp⟩
  cases TcpConnection.sendScatter_header (Except.mapError_eq_ok.mp hr)
  cases hbuf'
  dsimp only
  rw [htracked.readable_output]
  exact .ok ⟨hret, Tracked.sent htracked htcp _⟩

theorem Tracked.sendMessage {e : Endpoint} {m : Machine.Endpoint} (h : e.Tracked m) {data : Bytes}
    (hdata : data.length ≤ 2 ^ 29) (isBinary : Bool) (uv : ℤ)
    (hout : e.ws.outputBuf_.readable = [])
    (hroom : e.tcp.HasRoom (Decoder.messageHeader data.length isBinary ++ data).length) :
    (e.sendMessage data isBinary uv).Related EndpointFault.Same
      (fun r r' => r'.1 = r.1 ∧ Tracked r.2 r'.2) (m.sendMessage data isBinary uv) := by
  refine ((h.ws.writeHeader _ _).mapError fun _ _ => .ws).bind fun w m' hw htracked => ?_
  obtain ⟨header, hwrite, hheader⟩ := WebSocketConnection.writeHeader_eq data.length isBinary hout
  cases hwrite.symm.trans (Except.mapError_eq_ok.mp hw)
  obtain ⟨hcopy, hslack⟩ := htracked.small.output.write hdata (by decide)
  rw [← htracked.outputBuf] at hcopy
  obtain ⟨m'', hm, htracked'⟩ := htracked.withOutput hcopy hslack
  have hframe : (header.write data).readable = Decoder.messageHeader data.length isBinary ++ data := by
    rw [Buffer.readable_write, hheader]
  rw [← hframe] at hroom
  have hsend := h.tcp.sendBuffer uv hslack.small hroom.fits
  have hbuf : m''.outputBuf_ = (header.write data).machine := htracked'.outputBuf
  rw [← hbuf] at hsend
  rw [hm]
  refine (hsend.mapError fun _ _ => .tcp).bind ?_
  rintro ⟨ret, outputBuf, c⟩ ⟨ret', outputBuf', t⟩ hr ⟨hret, hbuf', htcp⟩
  rw [Except.mapError_eq_ok, TcpConnection.sendBuffer_eq, Except.map_eq_ok] at hr
  obtain ⟨r, -, hr⟩ := hr
  cases hr
  cases hbuf'
  dsimp only
  rw [htracked'.readable_output]
  exact .ok ⟨hret, Tracked.sent htracked' htcp _⟩

end Endpoint

/-! ## Events -/

/-- What is handed over behind a read. -/
theorem TcpConnection.Tracked.perform {c : TcpConnection} {t : Machine.TcpConnection}
    (h : c.Tracked t) {hand : ℕ → Bytes → TcpEvent} (hhand : ∀ n bytes, (hand n bytes).Hands bytes)
    {effects : List Effect} (n : ℕ) {k : ℕ}
    (hroom : c.HasRoom ((sends effects).flatten.length + k)) :
    (c.perform hand n effects).Related Eq (fun c' t' => c'.Tracked t' ∧ c'.HasRoom k)
      (t.perform hand n effects) := by
  induction effects generalizing c t n with
  | nil => exact .ok ⟨h, hroom.mono (Nat.le_add_left _ _)⟩
  | cons effect effects ih =>
    cases effect with
    | send bytes =>
      have hbytes := (hhand n bytes).bytes
      have hlen : (sends (.send bytes :: effects)).flatten.length =
          (hand n bytes).bytes.length + (sends effects).flatten.length := by
        rw [hbytes, ← List.length_append]
        rfl
      rw [hlen, Nat.add_assoc] at hroom
      have hfits := (hroom.mono (Nat.le_add_right _ _)).roomy (hhand n bytes).small
      unfold TcpConnection.perform Machine.TcpConnection.perform
      refine (h.step hfits).bind fun c' t' hc htracked => ?_
      exact ih htracked (n + 1) (hroom.step hc)
    | stopRead => exact ih h.stopRead n hroom
    | closeTcp =>
      unfold TcpConnection.perform Machine.TcpConnection.perform
      refine h.handleClose.bind fun c' t' hc htracked => ih htracked n ?_
      unfold TcpConnection.HasRoom
      rw [TcpConnection.handleClose_outputBuf hc]
      exact hroom
    | message _ _ | ping _ | pong _ | frame | protocolError => exact ih h n hroom

namespace Endpoint

variable (httpParserExecute : WebSocketConnection → Bytes → ℕ × WebSocketConnection)
  (machineExecute : Machine.WebSocketConnection → Bytes → ℕ × Machine.WebSocketConnection)

theorem Tracked.possible_iff {e : Endpoint} {m : Machine.Endpoint} (h : e.Tracked m)
    (event : EndpointEvent) : m.Possible event ↔ e.Possible event := by
  cases event with
  | read bytes hand => exact and_congr_left fun _ => h.tcp.possible_iff _
  | writeDone status uv => exact and_congr_left fun _ => h.tcp.possible_iff _

/-- There is room for `received` bytes more to be read and `sent` bytes more to be queued. -/
structure HasRoom (e : Endpoint) (received sent : ℕ) : Prop where
  ws : e.ws.HasRoom received
  tcp : e.tcp.HasRoom sent

theorem Tracked.read {e : Endpoint} {m : Machine.Endpoint} (h : e.Tracked m)
    (hpast : e.ws.status_ ≠ .INITIAL) {bytes : Bytes} {hand : ℕ → Bytes → TcpEvent}
    (hp : e.Possible (.read bytes hand)) {x : WebSocketConnection}
    (hx : (e.ws.receive bytes).parse httpParserExecute = .returned x) {n k : ℕ}
    (hroom : e.HasRoom (bytes.length + n)
      ((sends (x.trace.drop e.ws.trace.length)).flatten.length + k)) :
    (e.step httpParserExecute (.read bytes hand)).Related EndpointFault.Same
      (fun e' m' => Tracked e' m' ∧ e'.HasRoom n k) (m.step machineExecute (.read bytes hand)) := by
  obtain ⟨hread, hbehind⟩ := hroom.ws.receive
  obtain ⟨inputBuffer, hwrite, htracked⟩ := h.ws.receive hread
  have hparse := htracked.parse httpParserExecute machineExecute hpast fun _ => hbehind.within _
  have hleft := hbehind.parse httpParserExecute hpast
  rw [hx] at hparse hleft
  unfold Endpoint.step Machine.Endpoint.step
  dsimp only
  rw [hwrite, hx]
  refine ((h.tcp.step (e := .readData bytes) trivial).mapError fun _ _ => .tcp).bind
    fun c t hc htcp => ?_
  have hqueue := hroom.tcp.quiet rfl (Except.mapError_eq_ok.mp hc)
  generalize ({ m.ws with inputBuffer := inputBuffer } : Machine.WebSocketConnection).parse
    machineExecute = r at hparse ⊢
  cases hparse with
  | returned hws =>
    unfold parsed Machine.Endpoint.parsed
    dsimp only
    rw [hws.trace, h.ws.trace]
    refine ((htcp.perform hp.2 0 hqueue).mapError fun _ _ => .tcp).bind fun c' t' _ hboth => ?_
    exact .ok ⟨⟨hws, hboth.1⟩, hleft, hboth.2⟩

theorem Tracked.writeDone {e : Endpoint} {m : Machine.Endpoint} (h : e.Tracked m) (status uv : ℤ)
    {n k : ℕ} (hroom : e.HasRoom n k) :
    (e.step httpParserExecute (.writeDone status uv)).Related EndpointFault.Same
      (fun e' m' => Tracked e' m' ∧ e'.HasRoom n k)
      (m.step machineExecute (.writeDone status uv)) := by
  unfold Endpoint.step Machine.Endpoint.step
  refine ((h.tcp.step (e := .writeDone status uv) trivial).mapError fun _ _ => .tcp).bind
    fun c t hc htcp => ?_
  have hqueue := hroom.tcp.quiet rfl (Except.mapError_eq_ok.mp hc)
  exact .ok ⟨⟨h.ws, htcp⟩, hroom.ws, hqueue⟩

end Endpoint
end WsEngine
