import WsEngine.Machine.Session
import WsEngine.Ws.FailStop
import WsEngine.Ws.Reassembly

/-! # Which frames are refused

Where decoding stands is a function of the bytes alone (`Reading`), whatever the application calls
and however the bytes are cut into reads. So behind valid frames the next complete frame is the one
the peer sent, and the checks that `decode` makes on it are those of its header, its opcode branch
and `pong`: they refuse the invalid frames but for the ones that `Overlooked` lists. The machine does
the same while its indices have room for the frames. -/
set_option autoImplicit false

namespace WsEngine

/-! ## Valid and invalid frames -/

namespace RawFrame

/-- The frame breaks a rule, when of a message `m` was received. -/
def Invalid (f : RawFrame) (m : Progress) : Prop :=
  f.head.rsv ≠ 0 ∨
    (3 ≤ f.head.opcode ∧ f.head.opcode ≤ 7 ∨ 11 ≤ f.head.opcode) ∨
    8 ≤ f.head.opcode ∧ f.head.opcode ≤ 10 ∧ (f.head.isFin = false ∨ 125 < f.payload.length) ∨
    f.head.opcode = 0 ∧ m = none ∨
    (f.head.opcode = 1 ∨ f.head.opcode = 2) ∧ m ≠ none

instance (f : RawFrame) (m : Progress) : Decidable (f.Invalid m) :=
  inferInstanceAs (Decidable (_ ∨ _ ∨ _ ∨ _ ∨ _))

/-- The rules that `decode` does not check, or checks too late: those of a close frame, the length of
a pong, and the length of a ping, which the ping callback is told before `pong` checks it. -/
def Overlooked (f : RawFrame) (pingCallback : Option Callback) : Prop :=
  f.head.rsv = 0 ∧
    (f.head.opcode = 8 ∧ (f.head.isFin = false ∨ 125 < f.payload.length) ∨
      f.head.opcode = 9 ∧ f.head.isFin = true ∧ 125 < f.payload.length ∧ pingCallback.isSome = true ∨
      f.head.opcode = 10 ∧ f.head.isFin = true ∧ 125 < f.payload.length)

end RawFrame

def Effect.isTold : Effect → Bool
  | message _ _ | ping _ | pong _ => true
  | send _ | stopRead | closeTcp | frame | protocolError => false

namespace Decoder

/-- All that happened until the application has returned, where it is told of the next frame, and
until the frame is taken up where it is not. -/
def heardTrace (d : Decoder) : List Effect :=
  match d.ahead with
  | some t =>
    if t.state.Erroneous t.header ∨ t.header.opcode = 8 then t.state.trace
    else (ended ((t.state.handOver t.header).runCallback (t.state.told t.header t.payload).1
      (t.state.told t.header t.payload).2)).trace
  | none => d.trace

end Decoder

namespace Session

/-- What the next activation of `decode` adds to the trace. -/
def activity (s : Session) : List Effect := (traceAfter (s.step .decode)).drop s.ws.trace.length

/-- `decode`, or the pong it triggers, calls `close(PROTOCOL_ERROR)` in its next activation. What the
application calls in a callback does not count. -/
def Refuses (s : Session) : Prop :=
  .protocolError ∈ (traceAfter (s.step .decode)).drop s.ws.abs.heardTrace.length

/-- The next activation refuses the frame iff it is invalid, and then tells the application nothing. -/
def Validates (s : Session) (f : RawFrame) (m : Progress) : Prop :=
  (s.Refuses ↔ f.Invalid m) ∧ (f.Invalid m → ∀ e ∈ s.activity, e.isTold = false)

instance (s : Session) : Decidable s.Refuses := inferInstanceAs (Decidable (_ ∈ _))

instance (s : Session) (f : RawFrame) (m : Progress) : Decidable (s.Validates f m) :=
  inferInstanceAs (Decidable (_ ∧ _))

end Session

namespace Machine.Session

/-- What the next activation of `decode` adds to the trace. -/
def activity (s : Session) : List Effect := (traceAfter (s.step .decode)).drop s.ws.trace.length

/-- `decode`, or the pong it triggers, calls `close(PROTOCOL_ERROR)` in its next activation. What the
application calls in a callback does not count. -/
def Refuses (s : Session) : Prop :=
  .protocolError ∈ (traceAfter (s.step .decode)).drop s.ws.abs.heardTrace.length

/-- The next activation refuses the frame iff it is invalid, and then tells the application nothing. -/
def Validates (s : Session) (f : RawFrame) (m : Progress) : Prop :=
  (s.Refuses ↔ f.Invalid m) ∧ (f.Invalid m → ∀ e ∈ s.activity, e.isTold = false)

instance (s : Session) : Decidable s.Refuses := inferInstanceAs (Decidable (_ ∈ _))

instance (s : Session) (f : RawFrame) (m : Progress) : Decidable (s.Validates f m) :=
  inferInstanceAs (Decidable (_ ∧ _))

end Machine.Session

/-- The machine refuses what the session refuses. -/
theorem Session.Tracked.validates_iff_validates {s : Session} {t : Machine.Session} (h : s.Tracked t)
    (hroom : s.Roomy .decode) (f : RawFrame) (m : Progress) : t.Validates f m ↔ s.Validates f m := by
  have htrace := h.traceAfter hroom
  unfold Machine.Session.Validates Machine.Session.Refuses Machine.Session.activity
    Session.Validates Session.Refuses Session.activity
  rw [htrace, h.ws.abs, h.ws.trace]

/-! ## Where decoding stands -/

namespace Decoder

/-- Decoding stands at the front of `stream`, of which the bytes `future` have not been received; of
a message `m` was received. -/
structure Reading (d : Decoder) (m : Progress) (stream future : Bytes) : Prop where
  fragmented : d.fragmentedOpCode = m.opcode
  fresh : d.header = none → d.input ++ future = stream
  begun : ∀ h, d.header = some h →
    ∃ size code, front stream = .full h size code ∧ d.input ++ future = stream.drop size

theorem Reading.receive {d : Decoder} {m : Progress} {stream bytes future : Bytes}
    (h : d.Reading m stream (bytes ++ future)) : (d.receive bytes).Reading m stream future := by
  refine ⟨h.fragmented, fun hh => ?_, fun header hh => ?_⟩
  · rw [← h.fresh hh]
    exact List.append_assoc _ _ _
  · obtain ⟨size, code, hf, hi⟩ := h.begun header hh
    refine ⟨size, code, hf, ?_⟩
    rw [← hi]
    exact List.append_assoc _ _ _

theorem Reading.sent {d d' : Decoder} {m : Progress} {stream future : Bytes}
    (h : d.Reading m stream future) (hs : d.Sent d') : d'.Reading m stream future := by
  obtain ⟨output, status, more, rfl⟩ := hs
  exact ⟨h.fragmented, h.fresh, h.begun⟩

/-- A header that is read is the one in front of the stream. -/
theorem Reading.readHeader {d d' : Decoder} {m : Progress} {stream future : Bytes} {header : Header}
    (h : d.Reading m stream future) (hr : d.readHeader = .ok (header, d')) :
    ∃ size code, front stream = .full header size code ∧
      d'.input ++ future = stream.drop size := by
  cases hh : d.header with
  | some header' =>
    rw [readHeader_some hh] at hr
    cases hr
    exact h.begun _ hh
  | none =>
    rw [readHeader_none hh] at hr
    unfold readFront at hr
    cases hf : front d.input with
    | nothing =>
      rw [hf] at hr
      cases hr
    | reserved =>
      rw [hf] at hr
      cases hr
    | short wanted =>
      rw [hf] at hr
      cases hr
    | full header' size code =>
      rw [hf] at hr
      cases hr
      obtain ⟨-, hsize⟩ := front_size hf
      refine ⟨size, code, ?_, ?_⟩
      · rw [← h.fresh hh]
        exact front_append_full hf future
      · rw [← h.fresh hh, List.drop_append_of_le_length hsize]

/-- **The frame ahead** is the first of the stream. -/
theorem Reading.ahead {d : Decoder} {m : Progress} {f : RawFrame} {rest future : Bytes} {t : Taken}
    (h : d.Reading m (f.encode ++ rest) future) (hr : f.head.rsv = 0) (ha : d.ahead = some t) :
    t.header = f.header ∧ t.payload = f.payload ∧ t.state.input ++ future = rest := by
  obtain ⟨header, d', hread, hl, rfl⟩ := Decoder.ahead_some ha
  obtain ⟨size, code, hfront, hinput⟩ := h.readHeader hread
  rw [RawFrame.encode, List.append_assoc, FrameHeader.front_encode hr] at hfront
  cases hfront
  rw [RawFrame.encode, List.append_assoc, List.drop_left] at hinput
  have hlen : f.head.header.length = (f.header.unmask f.payload).length := by
    rw [Header.length_unmask, f.length_payload]
    rfl
  have htake := congrArg (List.take f.head.header.length) hinput
  have hdrop := congrArg (List.drop f.head.header.length) hinput
  rw [List.take_append_of_le_length hl, hlen, List.take_left, ← hlen] at htake
  rw [List.drop_append_of_le_length hl, hlen, List.drop_left, ← hlen] at hdrop
  refine ⟨rfl, ?_, hdrop⟩
  change f.head.header.unmask (d'.input.take f.head.header.length) = f.payload
  rw [htake]
  exact f.header.unmask_unmask f.payload

theorem Reading.not_reserved {d : Decoder} {m : Progress} {f : RawFrame} {rest future : Bytes}
    (h : d.Reading m (f.encode ++ rest) future) (hr : f.head.rsv = 0) : ¬ d.Reserved := by
  rintro ⟨hh, hres⟩
  have hfront := front_append_reserved hres future
  rw [h.fresh hh, RawFrame.encode, List.append_assoc, FrameHeader.front_encode hr] at hfront
  cases hfront

theorem Reading.reserved {d : Decoder} {m : Progress} {f : RawFrame} {rest : Bytes}
    (h : d.Reading m (f.encode ++ rest) []) (hr : f.head.rsv ≠ 0) : d.Reserved := by
  have hfront : front (f.encode ++ rest) = .reserved := by
    rw [RawFrame.encode, List.append_assoc]
    exact FrameHeader.front_reserved hr _
  have hnone : d.header = none := by
    cases hh : d.header with
    | none => rfl
    | some header =>
      obtain ⟨size, code, hfull, -⟩ := h.begun header hh
      rw [hfront] at hfull
      cases hfull
  refine ⟨hnone, ?_⟩
  rw [← h.fresh hnone, List.append_nil] at hfront
  exact hfront

/-- All bytes of the frame are there. -/
theorem Reading.exists_ahead {d : Decoder} {m : Progress} {f : RawFrame} {rest : Bytes}
    (h : d.Reading m (f.encode ++ rest) []) (hr : f.head.rsv = 0) : ∃ t, d.ahead = some t := by
  have hfront : front (f.encode ++ rest) =
      .full f.header f.head.encode.length (f.head.form.code f.head.length) := by
    rw [RawFrame.encode, List.append_assoc]
    exact FrameHeader.front_encode hr _
  have hread : ∃ header d', d.readHeader = .ok (header, d') := by
    cases hh : d.header with
    | some header => exact ⟨_, _, readHeader_some hh⟩
    | none =>
      rw [← h.fresh hh, List.append_nil] at hfront
      rw [readHeader_none hh]
      unfold readFront
      rw [hfront]
      exact ⟨_, _, rfl⟩
  obtain ⟨header, d', hread⟩ := hread
  obtain ⟨size, code, hfull, hinput⟩ := h.readHeader hread
  rw [hfront] at hfull
  cases hfull
  rw [RawFrame.encode, List.append_assoc, List.drop_left, List.append_nil] at hinput
  refine ⟨_, ahead_of_readHeader hread ?_⟩
  rw [hinput, List.length_append, Header.length_unmask, f.length_payload]
  exact Nat.le_add_right f.head.length rest.length

/-! ## Activations -/

theorem count_speaks {d d' : Decoder} {p : Prop} (h : d.Speaks p d') :
    d'.trace.count .frame = d.trace.count .frame := by
  obtain ⟨more, ht, hm, -⟩ := h
  have hnone : more.count .frame = 0 := by
    rw [List.count_eq_zero]
    intro hmem
    have hdecoded := hm _ hmem
    cases hdecoded
  rw [ht, List.count_append, hnone, Nat.add_zero]

theorem count_runCallback (d : Decoder) (h : Header) (payload : Bytes) :
    (ended ((d.handOver h).runCallback (d.told h payload).1 (d.told h payload).2)).trace.count .frame =
      d.trace.count .frame := by
  obtain ⟨heard, htrace, hs⟩ := speaks_runCallback (d.handOver h) (d.told h payload).1
    (d.told h payload).2
  have htold : (d.told h payload).2 ≠ .frame := by
    unfold told
    split <;> exact nofun
  rw [count_speaks hs]
  obtain htrace | htrace := htrace
  · rw [htrace]
    rfl
  · rw [htrace, List.count_append, List.count_singleton, if_neg (by simpa using htold)]
    rfl

/-- An activation takes up one frame, if there is one. -/
theorem count_outcome {d : Decoder} {r : Call Decoder} (ho : d.Outcome r) :
    r.state.trace.count .frame =
      d.trace.count .frame + if d.ahead = none ∧ ¬ d.Reserved then 0 else 1 := by
  have hframe (trace : List Effect) : (trace ++ [Effect.frame]).count .frame = trace.count .frame + 1 := by
    rw [List.count_append]
    rfl
  have hahead (t : Taken) (ha : d.ahead = some t) :
      t.state.trace.count .frame =
        d.trace.count .frame + if d.ahead = none ∧ ¬ d.Reserved then 0 else 1 := by
    have hsome : ¬ (d.ahead = none ∧ ¬ d.Reserved) := fun h => by
      rw [ha] at h
      exact nomatch h.1
    rw [if_neg hsome, trace_ahead ha]
    exact hframe d.trace
  cases ho with
  | empty hh hi =>
    have hread : d.readHeader = .error (.aborted d) := by
      rw [readHeader_none hh]
      unfold readFront
      rw [hi]
      rfl
    have hnot : ¬ d.Reserved := fun hr => by
      rw [Reserved, hi] at hr
      exact nomatch hr.2
    rw [if_pos ⟨ahead_none hread, hnot⟩]
    rfl
  | reserved hr =>
    rw [if_neg fun h => h.2 hr]
    exact (count_speaks (speaks_protocolError _)).trans (hframe d.trace)
  | short wanted hh hf =>
    rw [if_pos (ahead_short hh hf)]
    rfl
  | waits header d' hr hl =>
    obtain ⟨input, wanted, hd', -⟩ := readHeader_eq hr
    rw [if_pos (ahead_waits hr hl), hd']
    rfl
  | refused t ha he => exact (count_speaks (speaks_protocolError _)).trans (hahead t ha)
  | closed t ha hop hs =>
    rw [state_recurse]
    have hclose := count_speaks (speaks_close t.state .NORMAL_CLOSE)
    rw [← hahead t ha, ← hclose]
    exact List.count_append
  | ignored t ha hop hs =>
    rw [state_recurse]
    exact hahead t ha
  | failed t x ha he hop hx =>
    have hcount := count_runCallback t.state t.header t.payload
    rw [hx] at hcount
    exact hcount.trans (hahead t ha)
  | told t x ha he hop hx =>
    have hcount := count_runCallback t.state t.header t.payload
    rw [hx] at hcount
    rw [state_recurse, count_speaks (speaks_finish x t.header d.assembly t.payload)]
    exact hcount.trans (hahead t ha)

/-- Before a frame is complete, decoding stays where it is. -/
theorem Reading.waits {d : Decoder} {m : Progress} {stream future : Bytes}
    (h : d.Reading m stream future) (ha : d.ahead = none ∧ ¬ d.Reserved) {r : Call Decoder}
    (ho : d.Outcome r) : r.state.Reading m stream future := by
  have hnone (t : Taken) (ht : d.ahead = some t) : r.state.Reading m stream future := by
    rw [ha.1] at ht
    cases ht
  cases ho with
  | empty hh hi => exact h
  | reserved hr => exact absurd hr ha.2
  | short wanted hh hf => exact ⟨h.fragmented, h.fresh, h.begun⟩
  | waits header d' hr hl =>
    obtain ⟨size, code, hf, hi⟩ := h.readHeader hr
    obtain ⟨input, wanted, rfl, -⟩ := readHeader_eq hr
    refine ⟨h.fragmented, nofun, fun header' hh => ?_⟩
    cases hh
    exact ⟨size, code, hf, hi⟩
  | refused t ht he => exact hnone t ht
  | closed t ht hop hs => exact hnone t ht
  | ignored t ht hop hs => exact hnone t ht
  | failed t x ht he hop hx => exact hnone t ht
  | told t x ht he hop hx => exact hnone t ht

theorem fragmented_finish {x : Decoder} {f : Frame} {m : Progress}
    (hx : x.fragmentedOpCode = m.opcode) (hf : f.Follows m) (old : Bytes) :
    (x.finish f.header old f.payload).fragmentedOpCode = (Frame.advance m f).opcode := by
  by_cases hc : f.kind.isControl = true
  · rw [Frame.advance_control hc, ← hx]
    unfold finish
    split
    · obtain ⟨output, status, more, hs⟩ := sent_pong x f.payload
      rw [hs]
      rfl
    · rfl
    · next h9 h10 =>
      have hop := (FrameKind.isControl_iff f.kind).mp hc
      exact absurd hop (not_or.mpr ⟨h9, h10⟩)
  · have hdata : f.kind.isControl = false := by simpa using hc
    rw [finish_data hdata]
    change (if f.isFin then 0 else x.messageOpcode f.header) = _
    rw [messageOpcode_extend hx hf hdata]
    unfold Frame.advance
    rw [if_neg hc]
    split <;> rfl

/-- **A valid frame** is taken up as a whole, whatever the application calls when it is told. -/
theorem Reading.takes {d : Decoder} {m : Progress} {f : Frame} {rest future : Bytes} {t : Taken}
    (h : d.Reading m (f.encode ++ rest) future) (hf : f.Follows m) (ha : d.ahead = some t)
    (hend : ∀ x, d.activate ≠ .aborted x) :
    d.activate.state.Reading (Frame.advance m f) rest future := by
  rw [← Frame.encode_raw] at h
  obtain ⟨hheader, hpayload, hinput⟩ := h.ahead rfl ha
  have hheader : t.header = f.header := hheader
  have hpayload : t.payload = f.payload := hpayload
  obtain ⟨input, wanted, hstate, -⟩ := ahead_eq ha
  have hfragmented : t.state.fragmentedOpCode = m.opcode := by
    rw [hstate]
    exact h.fragmented
  have hact := activate_ahead ha
  rw [onFrame_told _ _ (by rw [hheader]; exact not_erroneous_of_follows hfragmented hf) (by
    rw [hheader]
    change f.kind.opcode ≠ 8
    cases f.kind <;> decide)] at hact
  have hs := sent_runCallback (t.state.handOver t.header) (t.state.told t.header t.payload).1
    (t.state.told t.header t.payload).2
  cases hx : (t.state.handOver t.header).runCallback (t.state.told t.header t.payload).1
      (t.state.told t.header t.payload).2 with
  | error x =>
    rw [hx] at hact
    exact absurd hact (hend x)
  | ok x =>
    rw [hx] at hact hs
    obtain ⟨output, status, more, hs⟩ := hs
    have hxf : x.fragmentedOpCode = m.opcode := by
      rw [show x = _ from hs]
      exact hfragmented
    have hstate' : d.activate.state = x.finish t.header d.assembly t.payload := by
      rw [hact]
      exact state_recurse _
    obtain ⟨hnone, -, hrest⟩ := finish_eq x t.header d.assembly t.payload
    rw [hstate']
    refine ⟨?_, fun _ => ?_, fun header hh => ?_⟩
    · rw [hheader, hpayload]
      exact fragmented_finish hxf hf _
    · rw [hrest, input_told hx]
      exact hinput
    · rw [hnone] at hh
      cases hh

/-! ## What is refused -/

theorem opcode_eq_zero (m : Progress) : m.opcode = 0 ↔ m = none := by
  cases m with
  | none => exact iff_of_true rfl rfl
  | some p =>
    obtain ⟨received, isBinary⟩ := p
    refine iff_of_false ?_ nofun
    cases isBinary <;> exact nofun

theorem erroneous_iff {d : Decoder} {m : Progress} (hd : d.fragmentedOpCode = m.opcode)
    (f : RawFrame) :
    d.Erroneous f.header ↔ (3 ≤ f.head.opcode ∧ f.head.opcode ≤ 7 ∨ 11 ≤ f.head.opcode) ∨
      (f.head.opcode = 9 ∨ f.head.opcode = 10) ∧ f.head.isFin = false ∨
      f.head.opcode = 0 ∧ m = none ∨ (f.head.opcode = 1 ∨ f.head.opcode = 2) ∧ m ≠ none := by
  have hopcode : f.header.opcode = f.head.opcode := rfl
  have hfin : f.header.isFin = f.head.isFin := rfl
  have hm := opcode_eq_zero m
  unfold Erroneous
  rw [hd, hfin, ne_eq, hm]
  split
  · next h => simp [← hopcode, h]
  · next h => simp [← hopcode, h]
  · next h => simp [← hopcode, h]
  · next h => simp [← hopcode, h]
  · next h => simp [← hopcode, h]
  · next h => simp [← hopcode, h]
  · next h0 h1 h2 h8 h9 h10 =>
    have hbetween : 3 ≤ f.head.opcode ∧ f.head.opcode ≤ 7 ∨ 11 ≤ f.head.opcode := by
      rw [imp_false] at h0 h1 h2 h8 h9 h10
      omega
    exact iff_of_true trivial (.inl hbetween)

/-- The rules that the header stage does not check. -/
theorem invalid_iff {d : Decoder} {m : Progress} (hd : d.fragmentedOpCode = m.opcode)
    {f : RawFrame} (hr : f.head.rsv = 0) :
    f.Invalid m ↔ d.Erroneous f.header ∨
      f.head.opcode = 8 ∧ (f.head.isFin = false ∨ 125 < f.payload.length) ∨
      (f.head.opcode = 9 ∨ f.head.opcode = 10) ∧ 125 < f.payload.length := by
  rw [erroneous_iff hd]
  unfold RawFrame.Invalid
  grind

theorem trace_protocolError (d : Decoder) :
    d.protocolError.trace =
      d.trace ++ [.protocolError, .stopRead, .send (closeFrame .PROTOCOL_ERROR)] := by
  simp [protocolError, close, emit]

/-- What an activation does after the application has returned. -/
theorem heardTrace_told {d : Decoder} {t : Taken} (ha : d.ahead = some t)
    (he : ¬ t.state.Erroneous t.header) (hop : t.header.opcode ≠ 8) :
    let heard := (t.state.handOver t.header).runCallback (t.state.told t.header t.payload).1
      (t.state.told t.header t.payload).2
    d.heardTrace = (ended heard).trace ∧
      ∃ own, d.activate.state.trace = d.heardTrace ++ own ∧ (∀ e ∈ own, e.isTold = false) ∧
        (.protocolError ∈ own ↔
          t.header.opcode = 9 ∧ 125 < t.payload.length ∧ ∃ x, heard = .ok x) := by
  intro heard
  have hheard : d.heardTrace = (ended heard).trace := by
    unfold heardTrace
    rw [ha]
    exact if_neg (not_or.mpr ⟨he, hop⟩)
  refine ⟨hheard, ?_⟩
  have hact := activate_ahead ha
  rw [onFrame_told _ _ he hop] at hact
  cases hx : heard with
  | error x =>
    have hact : d.activate = .aborted x := by
      rw [hact, show (t.state.handOver t.header).runCallback _ _ = .error x from hx]
      rfl
    refine ⟨[], ?_, by simp, ?_⟩
    · rw [hact, hheard, hx]
      exact (List.append_nil _).symm
    · simp
  | ok x =>
    have hact : d.activate.state = x.finish t.header d.assembly t.payload := by
      rw [hact, show (t.state.handOver t.header).runCallback _ _ = .ok x from hx]
      exact state_recurse _
    rw [hact, hheard, hx]
    by_cases h9 : t.header.opcode = 9
    · have hfinish : x.finish t.header d.assembly t.payload =
          (x.pong t.payload).dropControl d.assembly t.payload := by
        simp only [finish, h9]
      rw [hfinish]
      by_cases hl : 126 ≤ t.payload.length
      · refine ⟨[.protocolError, .stopRead, .send (closeFrame .PROTOCOL_ERROR)], ?_, ?_, ?_⟩
        · change (x.pong t.payload).trace = _
          rw [pong, if_pos hl]
          exact trace_protocolError x
        · simp [Effect.isTold]
        · simp [h9, show 125 < t.payload.length from hl]
      · refine ⟨[.send (x.output ++ 0x8a :: UInt8.ofNat t.payload.length :: t.payload)], ?_, ?_, ?_⟩
        · change (x.pong t.payload).trace = _
          rw [pong, if_neg hl]
          rfl
        · simp [Effect.isTold]
        · simp [h9, show ¬ 125 < t.payload.length from hl]
    · refine ⟨[], ?_, by simp, by simp [h9]⟩
      rw [List.append_nil]
      unfold finish
      split
      · contradiction
      · rfl
      · rfl

end Decoder
namespace Session

theorem activity_eq {s : Session} {more : List Effect}
    (h : s.ws.abs.activate.state.trace = s.ws.abs.trace ++ more) : s.activity = more := by
  unfold activity
  rw [traceAfter_step]
  change (s.ws.abs.activate.state.trace).drop s.ws.abs.trace.length = more
  rw [h, List.drop_left]

theorem refuses_iff {s : Session} {own : List Effect}
    (h : s.ws.abs.activate.state.trace = s.ws.abs.heardTrace ++ own) :
    s.Refuses ↔ .protocolError ∈ own := by
  unfold Refuses
  rw [traceAfter_step]
  change .protocolError ∈ (s.ws.abs.activate.state.trace).drop _ ↔ _
  rw [h, List.drop_left]

theorem validates_reserved {s : Session} (h : s.ws.abs.Reserved) {f : RawFrame}
    (hr : f.head.rsv ≠ 0) (m : Progress) : s.Validates f m := by
  have htrace : s.ws.abs.activate.state.trace = s.ws.abs.trace ++
      [.frame, .protocolError, .stopRead, .send (Decoder.closeFrame .PROTOCOL_ERROR)] := by
    rw [Decoder.activate_reserved h.1 h.2]
    exact (Decoder.trace_protocolError _).trans (List.append_assoc _ [Effect.frame] _)
  have hheard : s.ws.abs.heardTrace = s.ws.abs.trace := by
    unfold Decoder.heardTrace
    rw [h.ahead]
  refine ⟨?_, fun _ => ?_⟩
  · rw [refuses_iff (by rw [hheard]; exact htrace)]
    exact iff_of_true (by simp) (.inl hr)
  · rw [activity_eq htrace]
    simp [Effect.isTold]

theorem validates_refused {s : Session} {t : Decoder.Taken} (ha : s.ws.abs.ahead = some t)
    (he : t.state.Erroneous t.header) {f : RawFrame} {m : Progress} (hf : f.Invalid m) :
    s.Validates f m := by
  have hact : s.ws.abs.activate.state = t.state.protocolError := by
    rw [Decoder.activate_ahead ha, Decoder.onFrame_refused _ _ he]
    rfl
  have htrace : s.ws.abs.activate.state.trace = t.state.trace ++
      [.protocolError, .stopRead, .send (Decoder.closeFrame .PROTOCOL_ERROR)] := by
    rw [hact]
    exact Decoder.trace_protocolError _
  have hheard : s.ws.abs.heardTrace = t.state.trace := by
    unfold Decoder.heardTrace
    rw [ha]
    exact if_pos (.inl he)
  refine ⟨?_, fun _ => ?_⟩
  · rw [refuses_iff (by rw [hheard]; exact htrace)]
    exact iff_of_true (by simp) hf
  · rw [Decoder.trace_ahead ha, List.append_assoc] at htrace
    rw [activity_eq htrace]
    simp [Effect.isTold]

/-- A close frame is never refused. -/
theorem validates_close {s : Session} {t : Decoder.Taken} (ha : s.ws.abs.ahead = some t)
    (hop : t.header.opcode = 8) (f : RawFrame) (m : Progress) :
    s.Validates f m ↔ ¬ f.Invalid m := by
  have hheard : s.ws.abs.heardTrace = t.state.trace := by
    unfold Decoder.heardTrace
    rw [ha]
    exact if_pos (.inr hop)
  have hnot : ¬ s.Refuses := by
    have hact := Decoder.activate_ahead ha
    rw [Decoder.onFrame_close _ _ hop] at hact
    unfold Decoder.onClose at hact
    by_cases hs : t.state.status = .CONNECT
    · rw [if_pos hs] at hact
      have htrace : s.ws.abs.activate.state.trace = s.ws.abs.heardTrace ++
          [.send (Decoder.closeFrame .NORMAL_CLOSE), .closeTcp] := by
        rw [hact, hheard]
        exact (congrArg Decoder.trace (Decoder.state_recurse _)).trans
          (List.append_assoc t.state.trace [_] [_])
      rw [refuses_iff htrace]
      simp
    · rw [if_neg hs] at hact
      have htrace : s.ws.abs.activate.state.trace = s.ws.abs.heardTrace ++ [] := by
        rw [hact, hheard, List.append_nil]
        exact congrArg Decoder.trace (Decoder.state_recurse _)
      rw [refuses_iff htrace]
      simp
  constructor
  · intro hv hf
    exact hnot (hv.1.mpr hf)
  · intro hf
    exact ⟨iff_of_false hnot hf, fun h => absurd h hf⟩

/-- A frame that the application is told of is refused afterwards, if at all. -/
theorem validates_told {s : Session} {t : Decoder.Taken} (ha : s.ws.abs.ahead = some t)
    (he : ¬ t.state.Erroneous t.header) (hop : t.header.opcode ≠ 8) {f : RawFrame} {m : Progress}
    (hf : f.Invalid m ↔
      (t.header.opcode = 9 ∨ t.header.opcode = 10) ∧ 125 < t.payload.length) :
    s.Validates f m ↔ ¬ (t.header.opcode = 9 ∧ 125 < t.payload.length ∧
        s.ws.abs.pingCallback.isSome = true ∨ t.header.opcode = 10 ∧ 125 < t.payload.length) := by
  obtain ⟨hheard, own, htrace, hown, herror⟩ := Decoder.heardTrace_told ha he hop
  obtain ⟨input, wanted, hstate, -⟩ := Decoder.ahead_eq ha
  have hping : t.state.pingCallback = s.ws.abs.pingCallback := by rw [hstate]
  unfold Validates
  rw [refuses_iff htrace, herror, hf]
  by_cases h9 : t.header.opcode = 9
  · have htold : t.state.told t.header t.payload = (t.state.pingCallback, .ping t.payload) := by
      simp only [Decoder.told, h9]
    rw [htold] at hheard ⊢
    by_cases hl : 125 < t.payload.length
    · cases hcb : s.ws.abs.pingCallback with
      | none =>
        have hrun : (t.state.handOver t.header).runCallback t.state.pingCallback
            (.ping t.payload) = .ok (t.state.handOver t.header) := by
          rw [hping, hcb]
          rfl
        rw [hrun] at hheard ⊢
        have hactivity : s.activity = [.frame] ++ own := by
          apply activity_eq
          rw [htrace, hheard, ← List.append_assoc, ← Decoder.trace_ahead ha]
          rfl
        rw [hactivity]
        refine iff_of_true ⟨?_, fun _ e hmem => ?_⟩ (by simp [h9])
        · simp [h9, hl]
        · rcases List.mem_append.mp hmem with hmem | hmem
          · rw [List.mem_singleton.mp hmem]
            rfl
          · exact hown e hmem
      | some answer =>
        refine iff_of_false ?_ (by simp [h9, hl])
        rintro ⟨-, hquiet⟩
        have hrun := Decoder.sent_calls ((t.state.handOver t.header).emit (.ping t.payload))
          (answer ((t.state.handOver t.header).emit (.ping t.payload)).trace)
        have hheard : s.ws.abs.heardTrace = (Decoder.ended (((t.state.handOver t.header).emit
            (.ping t.payload)).calls
            (answer ((t.state.handOver t.header).emit (.ping t.payload)).trace))).trace := by
          rw [hheard, hping, hcb]
          rfl
        obtain ⟨output, status, more, hrun⟩ := hrun
        have hactivity : s.activity = [.frame] ++ ([.ping t.payload] ++ (more ++ own)) := by
          apply activity_eq
          rw [htrace, hheard, hrun, ← List.append_assoc, ← Decoder.trace_ahead ha,
            ← List.append_assoc, ← List.append_assoc]
          rfl
        have hmem : Effect.ping t.payload ∈ s.activity := by
          rw [hactivity]
          simp
        exact Bool.noConfusion (hquiet ⟨.inl h9, hl⟩ _ hmem)
    · simp [hl]
  · by_cases h10 : t.header.opcode = 10
    · by_cases hl : 125 < t.payload.length
      · simp [h10, hl]
      · simp [hl]
    · simp [h9, h10]

/-! ## Runs -/

theorem trace_step {s s' : Session} {e : SessionEvent} (h : s.step e = .ok s') :
    s.ws.trace <+: s'.ws.trace := by
  have htrace := traceAfter_step s e
  rw [h] at htrace
  change s'.ws.trace = _ at htrace
  rw [htrace]
  cases e with
  | receive bytes => exact List.prefix_rfl
  | decode => exact Decoder.grows_outcome s.ws.abs.outcome
  | call c => exact (Decoder.sent_call s.ws.abs c).grows

theorem trace_run {s s' : Session} {es : List SessionEvent} (h : system.run s es = .ok s') :
    s.ws.trace <+: s'.ws.trace := by
  induction es generalizing s with
  | nil =>
    cases h
    exact List.prefix_rfl
  | cons e es ih =>
    cases hs : system.step s e with
    | error f => simp [EventSystem.run, hs] at h
    | ok u =>
      rw [system.run_cons_ok es hs] at h
      exact (trace_step hs).trans (ih h)

/-- **A run over valid frames.** When as many frames were taken up as there are, decoding stands
behind them. -/
theorem reading_run {s s' : Session} {es : List SessionEvent} {m : Progress} {fs : List Frame}
    {tail future : Bytes} (hf : Frame.Legal m fs)
    (h : s.ws.abs.Reading m (fs.flatMap Frame.encode ++ tail) (received es ++ future))
    (hrun : system.run s es = .ok s')
    (hcount : s'.ws.trace.count .frame = s.ws.trace.count .frame + fs.length) :
    s'.ws.abs.Reading (fs.foldl Frame.advance m) tail future := by
  induction es generalizing s m fs with
  | nil =>
    cases hrun
    have hnil : fs = [] := List.length_eq_zero_iff.mp (by omega)
    subst hnil
    exact h
  | cons e es ih =>
    cases hs : system.step s e with
    | error f => simp [EventSystem.run, hs] at hrun
    | ok u =>
      rw [system.run_cons_ok es hs] at hrun
      have hmeet := step_meet hs
      cases e with
      | receive bytes =>
        have hbytes : received (.receive bytes :: es) ++ future =
            bytes ++ (received es ++ future) := List.append_assoc bytes _ _
        rw [hbytes] at h
        refine ih hf ?_ hrun (hcount.trans ?_)
        · rw [hmeet]
          exact h.receive
        · cases hs
          rfl
      | call c =>
        refine ih hf ?_ hrun (hcount.trans ?_)
        · rw [hmeet]
          exact h.sent (Decoder.sent_call s.ws.abs c)
        · have hspeaks := Decoder.count_speaks (Decoder.speaks_call s.ws.abs c)
          change (Decoder.ended (s.ws.abs.call c)).trace.count .frame = s.ws.trace.count .frame
            at hspeaks
          have htrace : u.ws.trace = (Decoder.ended (s.ws.abs.call c)).trace :=
            congrArg Decoder.trace hmeet
          rw [htrace, hspeaks]
      | decode =>
        have hstate : u.ws.abs = s.ws.abs.activate.state := hmeet
        have hcounts := Decoder.count_outcome s.ws.abs.outcome
        rw [← hstate] at hcounts
        change u.ws.trace.count .frame = s.ws.trace.count .frame + _ at hcounts
        by_cases hwait : s.ws.abs.ahead = none ∧ ¬ s.ws.abs.Reserved
        · rw [if_pos hwait] at hcounts
          refine ih hf ?_ hrun (by omega)
          rw [hstate]
          exact h.waits hwait s.ws.abs.outcome
        · rw [if_neg hwait] at hcounts
          cases fs with
          | nil =>
            have hgrow := (trace_run hrun).sublist.count_le Effect.frame
            rw [List.length_nil] at hcount
            omega
          | cons f fs =>
            rw [List.flatMap_cons, List.append_assoc] at h
            have hraw := h
            rw [← Frame.encode_raw] at hraw
            have hnot := hraw.not_reserved rfl
            obtain ⟨t, ha⟩ : ∃ t, s.ws.abs.ahead = some t := by
              cases ha : s.ws.abs.ahead with
              | none => exact absurd ⟨ha, hnot⟩ hwait
              | some t => exact ⟨t, rfl⟩
            have hend (x : Decoder) : s.ws.abs.activate ≠ .aborted x := by
              intro hx
              obtain ⟨hr, -⟩ | ⟨hr, -⟩ := step_decode hs
              · rw [hr] at hx
                cases hx
              · rw [hr] at hx
                cases hx
            rw [List.length_cons] at hcount
            rw [List.foldl_cons]
            refine ih hf.2 ?_ hrun (by omega)
            rw [hstate]
            exact h.takes hf.1 ha hend

end Session

namespace WebSocketConnection

/-- Validation over naturals. -/
theorem Fresh.validates_next {ws : WebSocketConnection} (h : ws.Fresh)
    (hinput : ws.inputBuffer.readable = []) {es : List SessionEvent} {s : Session}
    (hrun : Session.system.run (.start ws) es = .ok s) {fs : List Frame}
    (hf : Frame.Legal none fs) {f : RawFrame} {rest : Bytes}
    (hreceived : Session.received es = fs.flatMap Frame.encode ++ (f.encode ++ rest))
    (hframes : s.ws.trace.count .frame = fs.length) :
    s.Validates f (fs.foldl Frame.advance none) ↔ ¬ f.Overlooked s.ws.pingCallback_ := by
  have hstart : ws.abs.Reading none (fs.flatMap Frame.encode ++ (f.encode ++ rest))
      (Session.received es ++ []) := by
    have hnone : ws.abs.header = none := if_neg (by rw [h.header]; decide)
    refine ⟨h.fragmented, fun _ => ?_, fun header hh => ?_⟩
    · change ws.inputBuffer.readable ++ _ = _
      rw [hinput, List.append_nil, hreceived]
      rfl
    · rw [hnone] at hh
      cases hh
  have hempty : ws.trace = [] := h.trace
  have hread := Session.reading_run (s := .start ws) hf hstart hrun (by
    change _ = ws.trace.count .frame + _
    rw [hframes, hempty, List.count_nil, Nat.zero_add])
  by_cases hr : f.head.rsv = 0
  · obtain ⟨t, ha⟩ := hread.exists_ahead hr
    obtain ⟨hheader, hpayload, -⟩ := hread.ahead hr ha
    obtain ⟨input, wanted, hstate, -⟩ := Decoder.ahead_eq ha
    have hfragmented : t.state.fragmentedOpCode = (fs.foldl Frame.advance none).opcode := by
      rw [hstate]
      exact hread.fragmented
    have hinvalid := Decoder.invalid_iff hfragmented hr
    have herror := Decoder.erroneous_iff hfragmented f
    rw [← hheader] at hinvalid herror
    have hopcode : t.header.opcode = f.head.opcode := congrArg Header.opcode hheader
    unfold RawFrame.Overlooked
    by_cases he : t.state.Erroneous t.header
    · refine iff_of_true (Session.validates_refused ha he (hinvalid.mpr (.inl he))) ?_
      have hcases := herror.mp he
      grind
    · by_cases hop : t.header.opcode = 8
      · rw [Session.validates_close ha hop, hinvalid]
        grind
      · rw [Session.validates_told ha he hop (by rw [hinvalid, hopcode, hpayload]; grind), hopcode,
          hpayload]
        have hping : s.ws.abs.pingCallback = s.ws.pingCallback_ := rfl
        rw [hping]
        grind
  · refine iff_of_true (Session.validates_reserved (hread.reserved hr) hr _) ?_
    exact fun ho => hr ho.1

/-- **Validation.** Behind valid frames, in any reads and with any calls of the application that the
indices have room for, a complete next frame is refused iff it is invalid, and then told to nobody,
unless it is one of those that `decode` overlooks. -/
theorem validates_iff {ws : WebSocketConnection} (h : ws.Fresh) (hsmall : ws.Small 4)
    (hmodest : ws.Modest) (hinput : ws.inputBuffer.readable = []) {es : List SessionEvent}
    (hroom : ∀ p ∈ Session.system.steps (.start ws) (es ++ [.decode]), p.1.Roomy p.2)
    {s : Machine.Session} (hrun : Machine.Session.system.run (.start ws.machine) es = .ok s)
    {fs : List Frame} (hf : Frame.Legal none fs) {f : RawFrame} {rest : Bytes}
    (hreceived : Session.received es = fs.flatMap Frame.encode ++ (f.encode ++ rest))
    (hframes : s.ws.trace.count .frame = fs.length) :
    s.Validates f (fs.foldl Frame.advance none) ↔ ¬ f.Overlooked s.ws.pingCallback_ := by
  obtain ⟨s', hrun', htracked, hnext⟩ := (Session.Tracked.start hsmall hmodest).exists_run hroom hrun
  rw [htracked.ws.trace] at hframes
  rw [htracked.validates_iff_validates hnext, htracked.ws.pingCallback]
  exact h.validates_next hinput hrun' hf hreceived hframes

/-- A text frame while a text message is in progress. -/
theorem validates_iff_text :
    let f : RawFrame := ⟨⟨true, 0, 1, none, .short, 1, by decide, by decide, by simp, by decide⟩,
      [0x62], rfl⟩
    let events : List SessionEvent :=
      [.receive [0x01, 0x01, 0x61], .decode, .receive [0x81], .decode, .receive [0x01, 0x62]]
    ∃ s, Machine.Session.system.run (.start (connected (some fun _ => []) none none).machine) events =
        .ok s ∧
      f.Invalid (some ([0x61], false)) ∧ s.Validates f (some ([0x61], false)) := by
  intro f events
  have hrun : (Machine.Session.system.run
      (.start (connected (some fun _ => []) none none).machine) events).Ends
      (fun s => s.ws.trace.count .frame = 1) fun _ => False := by
    decide +kernel
  obtain ⟨s, hs, hcount⟩ := hrun.exists_ok
  have hl : (connected (some fun _ => []) none none).Listening := by
    refine ⟨?_, nofun, nofun⟩
    rintro answer ⟨⟩ trace
    rfl
  have hroom : (connected (some fun _ => []) none none).HasRoom
      (Session.received (events ++ [.decode])).length := connected_hasRoom _ _ _ (by decide)
  have hiff := validates_iff (connected_fresh _ _ _) (connected_small _ _ _) hl.modest
    (Buffer.readable_ofSize _)
    (Session.roomy_of_hasRoom (s := .start _) hroom fun c hc => by simp [events] at hc) hs
    (show Frame.Legal none
      [⟨false, .text, none, .short, [0x61], by simp, by decide, by decide⟩] by decide)
    (show Session.received events = _ ++ (f.encode ++ []) by decide +kernel) hcount
  refine ⟨s, hs, by decide, hiff.mpr ?_⟩
  rintro ⟨-, hlong | hlong | hlong⟩
  · exact absurd hlong.1 (by decide)
  · exact absurd hlong.1 (by decide)
  · exact absurd hlong.1 (by decide)

/-- A close frame with FIN clear is answered like a valid one. -/
theorem not_validates_close :
    let f : RawFrame := ⟨⟨false, 0, 8, none, .short, 0, by decide, by decide, by simp, by decide⟩,
      [], rfl⟩
    f.encode = [0x08, 0x00] ∧ f.Invalid none ∧
      ∃ s, Machine.Session.system.run (.start (connected none none none).machine)
          [.receive [0x08, 0x00]] = .ok s ∧
        s.ws.status_ = .CONNECT ∧ s.decoding = true ∧
        s.activity = [.frame, .send [0x88, 0x02, 0x03, 0xe8], .closeTcp] ∧ ¬ s.Validates f none := by
  intro f
  have hrun : (Machine.Session.system.run (.start (connected none none none).machine)
      [.receive [0x08, 0x00]]).Ends (fun s => s.ws.status_ = .CONNECT ∧ s.decoding = true ∧
        s.activity = [.frame, .send [0x88, 0x02, 0x03, 0xe8], .closeTcp] ∧ ¬ s.Validates f none)
      fun _ => False := by
    decide +kernel
  obtain ⟨s, hs, hstatus, hdecoding, hactivity, hnot⟩ := hrun.exists_ok
  exact ⟨by decide, by decide, s, hs, hstatus, hdecoding, hactivity, hnot⟩

end WebSocketConnection
end WsEngine
