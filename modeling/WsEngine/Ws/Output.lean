import WsEngine.Machine.Session
import WsEngine.Ws.RoundTrip

/-! # What one operation hands over

Every operation writes its frame to `outputBuf_` and empties it again, but `close` leaves its four
bytes there. So what an operation hands to `conn_->send` is its own frame as long as no operation
closes (`sendsAlone_iff`): the operations of the application, of its callbacks, and of `decode`
itself. The machine does the same as long as its buffers have room. -/
set_option autoImplicit false

namespace WsEngine

/-- The bytes of a frame with FIN set, without a mask. -/
def finalFrame (opcode : ℕ) (payload : Bytes) : Bytes :=
  UInt8.ofNat (0x80 + opcode) ::
    UInt8.ofNat ((LengthForm.shortest payload.length).code payload.length) ::
      ((LengthForm.shortest payload.length).bytes payload.length ++ payload)

theorem finalFrame_short {payload : Bytes} (h : payload.length < 126) (opcode : ℕ) :
    finalFrame opcode payload =
      UInt8.ofNat (0x80 + opcode) :: UInt8.ofNat payload.length :: payload := by
  have hform : LengthForm.shortest payload.length = .short := if_pos h
  unfold finalFrame
  rw [hform]
  rfl

theorem finalFrame_message (data : Bytes) (isBinary : Bool) :
    finalFrame (if isBinary then 2 else 1) data =
      Decoder.messageHeader data.length isBinary ++ data := by
  unfold finalFrame Decoder.messageHeader
  rw [← List.cons_append, ← List.cons_append, LengthForm.shortest_eq]
  cases isBinary <;> rfl

/-- The frame that an operation is to send. A ping or pong that is too long is a protocol error. -/
def ApiCall.frame : ApiCall → Bytes
  | sendMove data isBinary | sendMessage data isBinary => finalFrame (if isBinary then 2 else 1) data
  | ping message =>
    if 126 ≤ message.length then finalFrame 8 (Buffer.htons StatusCode.PROTOCOL_ERROR.value)
    else finalFrame 9 message
  | pong message =>
    if 126 ≤ message.length then finalFrame 8 (Buffer.htons StatusCode.PROTOCOL_ERROR.value)
    else finalFrame 10 message
  | close code => finalFrame 8 (Buffer.htons code.value)

namespace Decoder

/-! ## Operations -/

/-- From `d` on the operations have sent their frames, and left the output empty. -/
def SentAlone (d : Decoder) (cs : List ApiCall) (d' : Decoder) : Prop :=
  d'.output = [] ∧ sends d'.trace = sends d.trace ++ cs.map ApiCall.frame

theorem sends_emit (d : Decoder) (bytes : Bytes) :
    sends (d.emit (.send bytes)).trace = sends d.trace ++ [bytes] := sends_append _ _

theorem close_sends (d : Decoder) (code : StatusCode) :
    sends (d.close code).trace = sends d.trace ++ [closeFrame code] ∧
      (d.close code).output = closeFrame code := by
  unfold close
  by_cases h : code ≠ .NORMAL_CLOSE
  · simp only [if_pos h]
    refine ⟨?_, rfl⟩
    rw [sends_emit]
    exact congrArg (· ++ [closeFrame code]) ((sends_append d.trace [.stopRead]).trans
      (List.append_nil _))
  · simp only [if_neg h]
    exact ⟨sends_emit _ _, rfl⟩

theorem closeFrame_ne_nil (code : StatusCode) : closeFrame code ≠ [] := List.cons_ne_nil _ _

theorem protocolError_sends (d : Decoder) :
    sends d.protocolError.trace = sends d.trace ++ [closeFrame .PROTOCOL_ERROR] ∧
      d.protocolError.output = closeFrame .PROTOCOL_ERROR := by
  obtain ⟨hs, ho⟩ := close_sends (d.emit .protocolError) .PROTOCOL_ERROR
  refine ⟨hs.trans ?_, ho⟩
  exact congrArg (· ++ [closeFrame .PROTOCOL_ERROR]) ((sends_append d.trace [.protocolError]).trans
    (List.append_nil _))

/-- A control frame goes out alone iff nothing was in the output. -/
theorem sendControl_sends (d : Decoder) (control : UInt8) (message : Bytes) :
    ∃ bytes, sends (d.sendControl control message).trace = sends d.trace ++ [bytes] ∧
      (d.sendControl control message).output = [] ∧
      (bytes = control :: UInt8.ofNat message.length :: message ↔ d.output = []) :=
  ⟨_, sends_emit _ _, rfl, List.append_left_eq_self⟩

/-- **One operation** sends one thing. -/
theorem call_sends {d x : Decoder} {c : ApiCall} (h : d.call c = .ok x) :
    ∃ bytes, sends x.trace = sends d.trace ++ [bytes] ∧
      (bytes = c.frame ∧ x.output = [] ↔ d.output = [] ∧ c.closes = false) := by
  have hmessage (data : Bytes) (isBinary : Bool) (hx : d.sendMessage data isBinary = .ok x) :
      ∃ bytes, sends x.trace = sends d.trace ++ [bytes] ∧
        (bytes = finalFrame (if isBinary then 2 else 1) data ∧ x.output = [] ↔
          d.output = [] ∧ false = false) := by
    unfold sendMessage at hx
    by_cases ho : d.output = []
    · rw [if_pos ho] at hx
      cases hx
      exact ⟨_, sends_emit _ _, iff_of_true ⟨(finalFrame_message data isBinary).symm, ho⟩ ⟨ho, rfl⟩⟩
    · rw [if_neg ho] at hx
      cases hx
  have hclosed (e : Decoder) (code : StatusCode) (frame : Bytes) (ho : e.output = closeFrame code)
      (hs : sends e.trace = sends d.trace ++ [closeFrame code]) :
      ∃ bytes, sends e.trace = sends d.trace ++ [bytes] ∧
        (bytes = frame ∧ e.output = [] ↔ d.output = [] ∧ true = false) := by
    refine ⟨_, hs, iff_of_false ?_ (fun hf => Bool.noConfusion hf.2)⟩
    rw [ho]
    exact fun hf => closeFrame_ne_nil code hf.2
  cases c with
  | sendMove data isBinary => exact hmessage data isBinary h
  | sendMessage data isBinary => exact hmessage data isBinary h
  | ping message =>
    cases h
    by_cases hl : 126 ≤ message.length
    · have hclose : d.ping message = d.close .PROTOCOL_ERROR := if_pos hl
      have hcloses : (ApiCall.ping message).closes = true := decide_eq_true hl
      rw [hclose, hcloses]
      exact hclosed _ .PROTOCOL_ERROR _ (close_sends d _).2 (close_sends d _).1
    · have hcontrol : d.ping message = d.sendControl 0x89 message := if_neg hl
      have hcloses : (ApiCall.ping message).closes = false := decide_eq_false hl
      have hframe : (ApiCall.ping message).frame =
          0x89 :: UInt8.ofNat message.length :: message :=
        (if_neg hl).trans (finalFrame_short (by omega) 9)
      obtain ⟨bytes, hs, ho, hb⟩ := sendControl_sends d 0x89 message
      rw [hcontrol, hcloses, hframe]
      exact ⟨bytes, hs, (and_iff_left ho).trans (hb.trans (and_iff_left rfl).symm)⟩
  | pong message =>
    cases h
    by_cases hl : 126 ≤ message.length
    · have hclose : d.pong message = d.protocolError := if_pos hl
      have hcloses : (ApiCall.pong message).closes = true := decide_eq_true hl
      rw [hclose, hcloses]
      exact hclosed _ .PROTOCOL_ERROR _ (protocolError_sends d).2 (protocolError_sends d).1
    · have hcontrol : d.pong message = d.sendControl 0x8a message := if_neg hl
      have hcloses : (ApiCall.pong message).closes = false := decide_eq_false hl
      have hframe : (ApiCall.pong message).frame =
          0x8a :: UInt8.ofNat message.length :: message :=
        (if_neg hl).trans (finalFrame_short (by omega) 10)
      obtain ⟨bytes, hs, ho, hb⟩ := sendControl_sends d 0x8a message
      rw [hcontrol, hcloses, hframe]
      exact ⟨bytes, hs, (and_iff_left ho).trans (hb.trans (and_iff_left rfl).symm)⟩
  | close code =>
    cases h
    exact hclosed _ code _ (close_sends d code).2 (close_sends d code).1

theorem call_ok {d : Decoder} (h : d.output = []) (c : ApiCall) : ∃ x, d.call c = .ok x := by
  cases c with
  | sendMove data isBinary => exact ⟨_, if_pos h⟩
  | sendMessage data isBinary => exact ⟨_, if_pos h⟩
  | ping message => exact ⟨_, rfl⟩
  | pong message => exact ⟨_, rfl⟩
  | close code => exact ⟨_, rfl⟩

theorem calls_sentAlone {d : Decoder} (h : d.output = []) {cs : List ApiCall}
    (hc : ∀ c ∈ cs, c.closes = false) : ∃ x, d.calls cs = .ok x ∧ d.SentAlone cs x := by
  induction cs generalizing d with
  | nil => exact ⟨d, rfl, h, (List.append_nil _).symm⟩
  | cons c cs ih =>
    obtain ⟨y, hy⟩ := call_ok h c
    obtain ⟨bytes, hs, hiff⟩ := call_sends hy
    obtain ⟨hb, ho⟩ := hiff.mpr ⟨h, hc c List.mem_cons_self⟩
    obtain ⟨x, hx, hout, hsends⟩ := ih ho fun c' hc' => hc c' (List.mem_cons_of_mem _ hc')
    refine ⟨x, ?_, hout, ?_⟩
    · unfold calls
      rw [hy]
      exact hx
    · rw [hsends, hs, hb, List.append_assoc]
      rfl

/-- Operations that sent their frames met an empty output, and none of them closes. -/
theorem calls_open {d x : Decoder} {cs : List ApiCall} (hx : d.calls cs = .ok x)
    (h : d.SentAlone cs x) : d.output = [] ∧ ∀ c ∈ cs, c.closes = false := by
  induction cs generalizing d with
  | nil =>
    cases hx
    exact ⟨h.1, by simp⟩
  | cons c cs ih =>
    unfold calls at hx
    cases hy : d.call c with
    | error e =>
      rw [hy] at hx
      cases hx
    | ok y =>
      rw [hy] at hx
      change y.calls cs = .ok x at hx
      obtain ⟨bytes, hs, hiff⟩ := call_sends hy
      have hgrow := sent_calls y cs
      rw [hx] at hgrow
      obtain ⟨output, status, more, heq⟩ := hgrow
      have heq : x = _ := heq
      have hmore : sends x.trace = sends y.trace ++ sends more := by
        rw [heq]
        exact sends_append _ _
      -- what `c` sent is the first of the frames, so the others sent the rest
      have hall := h.2
      rw [hmore, hs, List.append_assoc, List.append_cancel_left_eq, List.map_cons,
        List.singleton_append, List.cons.injEq] at hall
      obtain ⟨hout, hrest⟩ := ih hx ⟨h.1, by rw [hmore, hall.2]⟩
      obtain ⟨hd, hc⟩ := hiff.mp ⟨hall.1, hout⟩
      refine ⟨hd, fun c' hc' => ?_⟩
      rcases List.mem_cons.mp hc' with rfl | hc'
      · exact hc
      · exact hrest c' hc'

theorem calls_append (d : Decoder) (cs cs' : List ApiCall) :
    d.calls (cs ++ cs') = d.calls cs >>= fun x => x.calls cs' := by
  induction cs generalizing d with
  | nil => rfl
  | cons c cs ih =>
    rw [List.cons_append, calls, calls]
    cases d.call c with
    | error e => rfl
    | ok x => exact ih x

/-! ## Activations -/

/-- The operations that an activation makes: those of the callback, and then its own. -/
def operations (d : Decoder) : List ApiCall :=
  match d.ahead with
  | some t =>
    if t.state.Erroneous t.header then [.close .PROTOCOL_ERROR]
    else if t.header.opcode = 8 then if d.status = .CONNECT then [.close .NORMAL_CLOSE] else []
    else t.answers ++ if t.header.opcode = 9 then [.pong t.payload] else []
  | none => if d.Reserved then [.close .PROTOCOL_ERROR] else []

theorem operations_reserved {d : Decoder} (hr : d.Reserved) :
    d.operations = [.close .PROTOCOL_ERROR] := by
  unfold operations
  rw [hr.ahead]
  exact if_pos hr

theorem operations_none {d : Decoder} (h : d.ahead = none ∧ ¬ d.Reserved) : d.operations = [] := by
  unfold operations
  rw [h.1]
  exact if_neg h.2

theorem operations_refused {d : Decoder} {t : Taken} (ha : d.ahead = some t)
    (he : t.state.Erroneous t.header) : d.operations = [.close .PROTOCOL_ERROR] := by
  unfold operations
  rw [ha]
  exact if_pos he

theorem not_erroneous_close (d : Decoder) {h : Header} (hop : h.opcode = 8) :
    ¬ d.Erroneous h := by
  unfold Erroneous
  rw [hop]
  exact not_false

theorem operations_close {d : Decoder} {t : Taken} (ha : d.ahead = some t)
    (hop : t.header.opcode = 8) :
    d.operations = if d.status = .CONNECT then [.close .NORMAL_CLOSE] else [] := by
  unfold operations
  rw [ha]
  exact (if_neg (not_erroneous_close _ hop)).trans (if_pos hop)

theorem operations_told {d : Decoder} {t : Taken} (ha : d.ahead = some t)
    (he : ¬ t.state.Erroneous t.header) (hop : t.header.opcode ≠ 8) :
    d.operations = t.answers ++ if t.header.opcode = 9 then [.pong t.payload] else [] := by
  unfold operations
  rw [ha]
  exact (if_neg he).trans (if_neg hop)

theorem runCallback_eq (d : Decoder) (callback : Option Callback) (effect : Effect) :
    d.runCallback callback effect = (d.hear callback effect).calls (d.answers callback effect) := by
  cases callback with
  | none => rfl
  | some answer => rfl

theorem hear_sends (d : Decoder) (callback : Option Callback) {effect : Effect}
    (hne : ∀ bytes, effect ≠ .send bytes) :
    (d.hear callback effect).output = d.output ∧
      sends (d.hear callback effect).trace = sends d.trace := by
  rw [hear_eq]
  refine ⟨rfl, ?_⟩
  rw [sends_append]
  split
  · cases effect with
    | send bytes => exact absurd rfl (hne bytes)
    | message _ _ | ping _ | pong _ | stopRead | closeTcp | frame | protocolError =>
      exact List.append_nil _
  · exact List.append_nil _

theorem calls_finish (x : Decoder) (h : Header) (old payload : Bytes) :
    ∃ z, x.calls (if h.opcode = 9 then [.pong payload] else []) = .ok z ∧
      (x.finish h old payload).output = z.output ∧
      (x.finish h old payload).trace = z.trace := by
  by_cases hop : h.opcode = 9
  · have hfinish : x.finish h old payload = (x.pong payload).dropControl old payload := by
      simp only [finish, hop]
    rw [if_pos hop, hfinish]
    exact ⟨x.pong payload, rfl, rfl, rfl⟩
  · rw [if_neg hop]
    unfold finish
    split
    · contradiction
    · exact ⟨x, rfl, rfl, rfl⟩
    · exact ⟨x, rfl, rfl, rfl⟩

/-- `r` is what the operations `cs` came to. -/
def Comes (d : Decoder) (cs : List ApiCall) (r : Call Decoder) : Prop :=
  match d.calls cs with
  | .ok x => (∀ z, r ≠ .aborted z) ∧ r.state.output = x.output ∧
      sends r.state.trace = sends x.trace
  | .error _ => ∃ z, r = .aborted z

theorem recurse_ne_aborted (d z : Decoder) : d.recurse ≠ .aborted z := by
  unfold recurse
  split <;> exact nofun

theorem returned_ne_aborted (d z : Decoder) : Call.returned d ≠ .aborted z := nofun

/-- **An activation is its operations**, as far as sending goes. -/
theorem comes_outcome {d : Decoder} (hi : d.input ≠ []) {r : Call Decoder} (ho : d.Outcome r) :
    ∃ y : Decoder, y.output = d.output ∧ sends y.trace = sends d.trace ∧
      y.Comes d.operations r := by
  have hframe (trace : List Effect) : sends (trace ++ [.frame]) = sends trace :=
    (sends_append trace [.frame]).trans (List.append_nil _)
  have hstate (t : Taken) (ha : d.ahead = some t) :
      t.state.output = d.output ∧ sends t.state.trace = sends d.trace := by
    obtain ⟨input, wanted, ht, -⟩ := ahead_eq ha
    rw [ht]
    exact ⟨rfl, hframe _⟩
  have htold (t : Taken) (ha : d.ahead = some t) :
      let y := (t.state.handOver t.header).hear (t.state.told t.header t.payload).1
        (t.state.told t.header t.payload).2
      y.output = d.output ∧ sends y.trace = sends d.trace := by
    intro y
    obtain ⟨hout, hsends⟩ := hear_sends (t.state.handOver t.header)
      (t.state.told t.header t.payload).1 (told_ne_send t.state t.header t.payload)
    exact ⟨hout.trans (hstate t ha).1, hsends.trans (hstate t ha).2⟩
  cases ho with
  | empty hh hnil => exact absurd hnil hi
  | reserved hr =>
    obtain ⟨hs, ho⟩ := protocolError_sends ({ d with input := d.input.drop 1 }.emit .frame)
    rw [operations_reserved hr]
    refine ⟨d, rfl, rfl, returned_ne_aborted _, ho.trans (close_sends d _).2.symm, ?_⟩
    rw [(close_sends d .PROTOCOL_ERROR).1]
    exact hs.trans (congrArg (· ++ _) (hframe d.trace))
  | short wanted hh hf =>
    rw [operations_none (ahead_short hh hf)]
    exact ⟨d, rfl, rfl, returned_ne_aborted _, rfl, rfl⟩
  | waits header d' hr hl =>
    obtain ⟨input, wanted, hd', -⟩ := readHeader_eq hr
    rw [operations_none (ahead_waits hr hl)]
    refine ⟨d, rfl, rfl, returned_ne_aborted _, ?_, ?_⟩
    · rw [hd']
      rfl
    · rw [hd']
      rfl
  | refused t ha he =>
    obtain ⟨hs, ho⟩ := protocolError_sends t.state
    rw [operations_refused ha he]
    refine ⟨t.state, (hstate t ha).1, (hstate t ha).2, returned_ne_aborted _,
      ho.trans (close_sends t.state _).2.symm, ?_⟩
    exact hs.trans (close_sends t.state .PROTOCOL_ERROR).1.symm
  | closed t ha hop hs =>
    rw [operations_close ha hop, if_pos ((status_ahead ha).symm.trans hs)]
    refine ⟨t.state, (hstate t ha).1, (hstate t ha).2, recurse_ne_aborted _, ?_, ?_⟩
    · rw [state_recurse]
      rfl
    · rw [state_recurse]
      exact (sends_append (t.state.close .NORMAL_CLOSE).trace [.closeTcp]).trans (List.append_nil _)
  | ignored t ha hop hs =>
    rw [operations_close ha hop, if_neg fun hc => hs ((status_ahead ha).trans hc)]
    refine ⟨t.state, (hstate t ha).1, (hstate t ha).2, recurse_ne_aborted _, ?_, ?_⟩
    · rw [state_recurse]
    · rw [state_recurse]
  | failed t x ha he hop hx =>
    rw [runCallback_eq] at hx
    have hcalls := calls_append ((t.state.handOver t.header).hear
      (t.state.told t.header t.payload).1 (t.state.told t.header t.payload).2) t.answers
      (if t.header.opcode = 9 then [.pong t.payload] else [])
    unfold Taken.answers at hcalls
    rw [hx] at hcalls
    refine ⟨_, (htold t ha).1, (htold t ha).2, ?_⟩
    rw [operations_told ha he hop]
    unfold Comes Taken.answers
    rw [hcalls]
    exact ⟨x, rfl⟩
  | told t x ha he hop hx =>
    rw [runCallback_eq] at hx
    obtain ⟨z, hz, hout, htrace⟩ := calls_finish x t.header d.assembly t.payload
    have hcalls := calls_append ((t.state.handOver t.header).hear
      (t.state.told t.header t.payload).1 (t.state.told t.header t.payload).2) t.answers
      (if t.header.opcode = 9 then [.pong t.payload] else [])
    unfold Taken.answers at hcalls
    rw [hx] at hcalls
    have hcalls := hcalls.trans hz
    refine ⟨_, (htold t ha).1, (htold t ha).2, ?_⟩
    rw [operations_told ha he hop]
    unfold Comes Taken.answers
    rw [hcalls]
    refine ⟨recurse_ne_aborted _, ?_, ?_⟩
    · rw [state_recurse]
      exact hout
    · rw [state_recurse]
      exact congrArg sends htrace

end Decoder

namespace Decoder

/-- What operations came to is what they should be iff none of them closes. -/
theorem Comes.sentAlone_iff {d y : Decoder} {cs : List ApiCall} {r : Call Decoder}
    (hout : d.output = []) (hy : y.output = d.output) (ht : sends y.trace = sends d.trace)
    (h : y.Comes cs r) :
    ((∀ z, r ≠ .aborted z) ∧ d.SentAlone cs r.state) ↔ ∀ c ∈ cs, c.closes = false := by
  have hyout : y.output = [] := hy.trans hout
  unfold Comes at h
  constructor
  · rintro ⟨hne, hr, hsends⟩
    cases hx : y.calls cs with
    | error e =>
      rw [hx] at h
      obtain ⟨z, hz⟩ := h
      exact absurd hz (hne z)
    | ok x =>
      rw [hx] at h
      obtain ⟨-, hox, htx⟩ := h
      exact (calls_open hx ⟨hox.symm.trans hr, by rw [← htx, hsends, ht]⟩).2
  · intro hc
    obtain ⟨x, hx, hxo, hxs⟩ := calls_sentAlone hyout hc
    rw [hx] at h
    obtain ⟨hne, hox, htx⟩ := h
    exact ⟨hne, hox.trans hxo, by rw [htx, hxs, ht]⟩

end Decoder

/-! ## Runs -/

namespace Session

/-- The operations that an event is: the call itself, or those that `decode` and the callbacks
make. -/
def operations (s : Session) : SessionEvent → List ApiCall
  | .receive _ => []
  | .decode => s.ws.abs.operations
  | .call c => [c]

/-- No assertion fails, each operation hands over its own frame alone, and `outputBuf_` is empty
afterwards. -/
def SendsAlone (s : Session) (e : SessionEvent) : Prop :=
  match s.step e with
  | .ok s' => s'.ws.outputBuf_.readable = [] ∧
      sends s'.ws.trace = sends s.ws.trace ++ (s.operations e).map ApiCall.frame
  | .error _ => False

instance (s : Session) (e : SessionEvent) : Decidable (s.SendsAlone e) := by
  unfold SendsAlone
  split <;> infer_instance

/-- None of the operations sends a close frame. -/
def KeepsOpen (s : Session) (e : SessionEvent) : Prop := ∀ c ∈ s.operations e, c.closes = false

instance (s : Session) (e : SessionEvent) : Decidable (s.KeepsOpen e) :=
  inferInstanceAs (Decidable (∀ c ∈ _, _ = _))

/-- Nothing is left in `outputBuf_`, and `decode` is only called with some input. -/
structure OutputInv (s : Session) : Prop where
  output : s.ws.outputBuf_.readable = []
  input : s.decoding = true → s.ws.inputBuffer.readable ≠ []

theorem input_step {s s' : Session} {e : SessionEvent} (he : s.Possible e)
    (h : s.step e = .ok s') (hd : s'.decoding = true) : s'.ws.inputBuffer.readable ≠ [] := by
  cases e with
  | receive bytes =>
    rw [step_receive] at h
    cases h
    change (s.ws.inputBuffer.write bytes).readable ≠ []
    rw [Buffer.readable_write]
    exact fun hnil => he.2 (List.append_eq_nil_iff.mp hnil).2
  | decode =>
    obtain ⟨-, hf⟩ | ⟨hagain, -⟩ := step_decode h
    · rw [hf] at hd
      cases hd
    · have ho := s.ws.abs.outcome
      rw [hagain] at ho
      exact (Decoder.again_outcome ho).1
  | call c =>
    rw [(step_call h).2] at hd
    cases hd

theorem sendsAlone_step {s : Session} {e : SessionEvent} (hi : s.OutputInv) (he : s.Possible e) :
    s.SendsAlone e ↔ s.KeepsOpen e := by
  have hout : s.ws.abs.output = [] := hi.output
  unfold SendsAlone KeepsOpen
  cases e with
  | receive bytes =>
    refine iff_of_true ⟨hi.output, (List.append_nil _).symm⟩ fun c hc => ?_
    exact absurd hc List.not_mem_nil
  | call c =>
    have habs := WebSocketConnection.abs_call s.ws c
    change (match (s.ws.call c).map fun ws => (⟨ws, false⟩ : Session) with
      | .ok s' => s'.ws.outputBuf_.readable = [] ∧
          sends s'.ws.trace = sends s.ws.trace ++ [c.frame]
      | .error _ => False) ↔ ∀ c' ∈ [c], c'.closes = false
    rw [List.forall_mem_singleton]
    cases hc : s.ws.call c with
    | error w =>
      rw [hc] at habs
      obtain ⟨x, hx⟩ := Decoder.call_ok hout c
      rw [hx] at habs
      cases habs
    | ok w =>
      rw [hc] at habs
      obtain ⟨bytes, hsends, hiff⟩ := Decoder.call_sends habs.symm
      change w.abs.output = [] ∧ sends w.abs.trace = sends s.ws.abs.trace ++ [c.frame] ↔ _
      rw [hsends, List.append_cancel_left_eq, List.singleton_inj, and_comm, hiff,
        and_iff_right hout]
  | decode =>
    obtain ⟨y, hy, ht, hcomes⟩ := Decoder.comes_outcome (hi.input he) s.ws.abs.outcome
    rw [operations, ← hcomes.sentAlone_iff hout hy ht, ← WebSocketConnection.abs_decodeCall]
    change (match afterCall s.ws.decodeCall with
      | .ok s' => s'.ws.outputBuf_.readable = [] ∧
          sends s'.ws.trace = sends s.ws.trace ++ s.ws.abs.operations.map ApiCall.frame
      | .error _ => False) ↔ _
    cases hc : s.ws.decodeCall with
    | returned w => exact (and_iff_right fun z => Decoder.returned_ne_aborted w.abs z).symm
    | again w =>
      exact (and_iff_right fun z (hz : Call.again w.abs = .aborted z) => nomatch hz).symm
    | aborted w => exact iff_of_false not_false fun h => h.1 w.abs rfl

theorem outputInv_step {s s' : Session} {e : SessionEvent} (hi : s.OutputInv) (he : s.Possible e)
    (hg : s.KeepsOpen e) (h : s.step e = .ok s') : s'.OutputInv := by
  have hsafe := (sendsAlone_step hi he).mpr hg
  unfold SendsAlone at hsafe
  rw [h] at hsafe
  exact ⟨hsafe.1, input_step he h⟩

theorem sendsAlone_iff_keepsOpen {ws : WebSocketConnection} (h : ws.outputBuf_.readable = [])
    {es : List SessionEvent} (legal : system.Legal (.start ws) es) :
    (∀ p ∈ system.steps (.start ws) es, p.1.SendsAlone p.2) ↔
      ∀ p ∈ system.steps (.start ws) es, p.1.KeepsOpen p.2 := by
  apply system.forall_steps_iff OutputInv KeepsOpen SendsAlone
  · exact fun s e s' hi he hg hs => outputInv_step hi he hg hs
  · exact fun s e hi he => sendsAlone_step hi he
  · exact ⟨h, fun hd => Bool.noConfusion hd⟩
  · exact legal

end Session

/-! ## In machine words -/

namespace Machine.Session

def operations (s : Session) : SessionEvent → List ApiCall
  | .receive _ => []
  | .decode => s.ws.abs.operations
  | .call c => [c]

def SendsAlone (s : Session) (e : SessionEvent) : Prop :=
  match s.step e with
  | .ok s' => s'.ws.outputBuf_.readable = [] ∧
      sends s'.ws.trace = sends s.ws.trace ++ (s.operations e).map ApiCall.frame
  | .error _ => False

def KeepsOpen (s : Session) (e : SessionEvent) : Prop := ∀ c ∈ s.operations e, c.closes = false

instance (s : Session) (e : SessionEvent) : Decidable (s.KeepsOpen e) :=
  inferInstanceAs (Decidable (∀ c ∈ _, _ = _))

end Machine.Session

namespace Session

theorem Tracked.operations {s : Session} {t : Machine.Session} (h : s.Tracked t) (e : SessionEvent) :
    t.operations e = s.operations e := by
  unfold Machine.Session.operations Session.operations
  rw [h.ws.abs]

theorem Tracked.keepsOpen_iff {s : Session} {t : Machine.Session} (h : s.Tracked t)
    (e : SessionEvent) : s.KeepsOpen e ↔ t.KeepsOpen e := by
  unfold KeepsOpen Machine.Session.KeepsOpen
  rw [h.operations]

theorem Tracked.sendsAlone_iff_sendsAlone {s : Session} {t : Machine.Session} (h : s.Tracked t)
    {e : SessionEvent} (hroom : s.Roomy e) : s.SendsAlone e ↔ t.SendsAlone e := by
  have hstep := h.step hroom
  unfold SendsAlone Machine.Session.SendsAlone
  rw [h.operations, h.ws.trace]
  generalize s.step e = r at hstep ⊢
  generalize t.step e = r' at hstep ⊢
  cases hstep with
  | error _ => exact Iff.rfl
  | ok htracked =>
    dsimp only
    rw [htracked.ws.trace, htracked.ws.readable_output]

end Session

namespace WebSocketConnection

/-- **One operation, one frame.** In a run that starts with an empty `outputBuf_`, no assertion fails,
each operation hands over its own frame alone and leaves `outputBuf_` empty, iff no operation
closes. On the machine so it is while every event has room. -/
theorem sendsAlone_iff {ws : WebSocketConnection} (h : ws.outputBuf_.readable = [])
    {es : List SessionEvent} (legal : Session.system.Legal (.start ws) es) :
    ((∀ p ∈ Session.system.steps (.start ws) es, p.1.SendsAlone p.2) ↔
      ∀ p ∈ Session.system.steps (.start ws) es, p.1.KeepsOpen p.2) ∧
    (ws.Small 4 → ws.Modest → (∀ p ∈ Session.system.steps (.start ws) es, p.1.Roomy p.2) →
      ((∀ p ∈ Machine.Session.system.steps (.start ws.machine) es, p.1.SendsAlone p.2) ↔
        ∀ p ∈ Machine.Session.system.steps (.start ws.machine) es, p.1.KeepsOpen p.2)) := by
  have hiff := Session.sendsAlone_iff_keepsOpen h legal
  refine ⟨hiff, fun hsmall hmodest hroom => ?_⟩
  have hstart := Session.Tracked.start hsmall hmodest
  have halone := Session.system.forall_steps_related Machine.Session.system Session.Tracked Same
    Session.Roomy (fun _ _ _ htracked hr => htracked.step hr)
    (fun _ _ e htracked hr => htracked.sendsAlone_iff_sendsAlone (e := e) hr) hstart hroom
  have hopen := Session.system.forall_steps_related Machine.Session.system Session.Tracked Same
    Session.Roomy (fun _ _ _ htracked hr => htracked.step hr)
    (fun _ _ e htracked _ => htracked.keepsOpen_iff e) hstart hroom
  rw [← halone, ← hopen]
  exact hiff

/-- A ping that is answered by the application with a message, and a message of its own. -/
theorem sendsAlone_iff_ping :
    let ws := connected none (some fun _ => [.sendMessage [0x62] false]) none
    let events : List SessionEvent :=
      [.receive [0x89, 0x01, 0x61], .decode, .call (.sendMove [0x63] true)]
    (∀ p ∈ Session.system.steps (.start ws) events, p.1.SendsAlone p.2) ∧
      ∀ p ∈ Machine.Session.system.steps (.start ws.machine) events, p.1.SendsAlone p.2 := by
  intro ws events
  have legal : Session.system.Legal (.start ws) events := by decide +kernel
  obtain ⟨hiff, hmachine⟩ := sendsAlone_iff (Buffer.readable_ofSize _) legal
  have hmodest : ws.Modest := by
    refine ⟨nofun, ?_, nofun⟩
    rintro answer ⟨⟩ trace c hc
    rw [List.mem_singleton.mp hc]
    exact show 1 ≤ 2 ^ 29 by decide
  have hroom : ∀ p ∈ Session.system.steps (.start ws) events, p.1.Roomy p.2 := by
    refine Session.roomy_of_hasRoom (connected_hasRoom _ _ _ (by decide)) fun c hc => ?_
    simp only [events, List.mem_cons, List.not_mem_nil, or_false, reduceCtorEq, false_or,
      SessionEvent.call.injEq] at hc
    rw [hc]
    trivial
  refine ⟨hiff.mpr (by decide +kernel), ?_⟩
  exact (hmachine (connected_small _ _ _) hmodest hroom).mpr (by decide +kernel)

/-- The application closes and then sends a message: the close frame is still in `outputBuf_`, and the
assertion of `sendMessage` fails. -/
theorem not_sendsAlone_close :
    let events : List SessionEvent :=
      [.call (.close .NORMAL_CLOSE), .call (.sendMessage [0x61] false)]
    Session.system.Legal (.start (connected none none none)) events ∧
      (∃ p ∈ Session.system.steps (.start (connected none none none)) events,
        p.1.ws.outputBuf_.readable = [0x88, 0x02, 0x03, 0xe8] ∧ (p.1.step p.2).isOk = false) ∧
      ¬ ∀ p ∈ Session.system.steps (.start (connected none none none)) events,
        p.1.SendsAlone p.2 := by
  decide +kernel

end WebSocketConnection
end WsEngine
