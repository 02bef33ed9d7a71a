import Mathlib.Data.List.TakeWhile
import WsEngine.Ws.Session

/-! # Nothing is decoded after a protocol error

Where `decode` itself finds an error it returns, and the reading has been stopped, so nothing more
is decoded. The error that `pong` finds is met inside of an activation instead, which goes on to
call `decode` with the rest of the input; nothing more is decoded there only if the rest does not
hold a frame. -/
set_option autoImplicit false

namespace WsEngine

def Effect.isDecoded : Effect → Bool
  | frame | message _ _ | ping _ | pong _ => true
  | send _ | stopRead | closeTcp | protocolError => false

def FailStop (trace : List Effect) : Prop :=
  ∀ e ∈ trace.dropWhile (· ≠ .protocolError), e.isDecoded = false

instance (trace : List Effect) : Decidable (FailStop trace) :=
  inferInstanceAs (Decidable (∀ e ∈ _, _ = _))

theorem failStop_of_not_mem {trace : List Effect} (h : .protocolError ∉ trace) :
    FailStop trace := by
  have hnone : trace.dropWhile (· ≠ .protocolError) = [] := by
    rw [List.dropWhile_eq_nil_iff]
    intro e he
    exact decide_eq_true fun heq => h (heq ▸ he)
  unfold FailStop
  rw [hnone]
  intro e he
  exact absurd he List.not_mem_nil

theorem FailStop.append {trace more : List Effect} (h : FailStop trace)
    (hm : ∀ e ∈ more, e.isDecoded = false) : FailStop (trace ++ more) := by
  intro e he
  rw [List.dropWhile_append] at he
  split at he
  · exact hm e ((List.dropWhile_sublist _).subset he)
  · rcases List.mem_append.mp he with he | he
    · exact h e he
    · exact hm e he

def ApiCall.fails : ApiCall → Bool
  | pong message => 126 ≤ message.length
  | sendMove _ _ | sendMessage _ _ | ping _ | close _ => false

/-- The input holds a frame: a complete one, or a byte with a reserved bit. -/
def HoldsFrame (input : Bytes) : Prop :=
  match front input with
  | .nothing | .short _ => False
  | .reserved => True
  | .full h size _ => size + h.length ≤ input.length

instance (input : Bytes) : Decidable (HoldsFrame input) := by
  unfold HoldsFrame
  split <;> infer_instance

namespace Decoder

/-! ## What calls add to the trace -/

/-- From `d` on nothing was decoded, and if an error was found then `failed`, and the reading was
stopped. -/
def Speaks (d : Decoder) (failed : Prop) (d' : Decoder) : Prop :=
  ∃ more, d'.trace = d.trace ++ more ∧ (∀ e ∈ more, e.isDecoded = false) ∧
    (.protocolError ∈ more → failed ∧ .stopRead ∈ more)

theorem Speaks.refl (d : Decoder) (failed : Prop) : d.Speaks failed d := by
  refine ⟨[], (List.append_nil _).symm, ?_, ?_⟩
  · intro e he
    exact absurd he List.not_mem_nil
  · intro he
    exact absurd he List.not_mem_nil

theorem Speaks.trans {d d' d'' : Decoder} {p q : Prop} (h : d.Speaks p d') (h' : d'.Speaks q d'') :
    d.Speaks (p ∨ q) d'' := by
  obtain ⟨more, ht, hm, hf⟩ := h
  obtain ⟨more', ht', hm', hf'⟩ := h'
  refine ⟨more ++ more', ?_, ?_, ?_⟩
  · rw [ht', ht, List.append_assoc]
  · intro e he
    rcases List.mem_append.mp he with he | he
    · exact hm e he
    · exact hm' e he
  · intro he
    rcases List.mem_append.mp he with he | he
    · obtain ⟨hp, hstop⟩ := hf he
      exact ⟨.inl hp, List.mem_append_left _ hstop⟩
    · obtain ⟨hq, hstop⟩ := hf' he
      exact ⟨.inr hq, List.mem_append_right _ hstop⟩

theorem Speaks.mono {d d' : Decoder} {p q : Prop} (h : d.Speaks p d') (hpq : p → q) :
    d.Speaks q d' := by
  obtain ⟨more, ht, hm, hf⟩ := h
  exact ⟨more, ht, hm, fun he => ⟨hpq (hf he).1, (hf he).2⟩⟩

theorem speaks_close (d : Decoder) (code : StatusCode) : d.Speaks False (d.close code) := by
  by_cases h : code ≠ .NORMAL_CLOSE
  · refine ⟨[.stopRead, .send (closeFrame code)], ?_, by simp [Effect.isDecoded], by simp⟩
    simp [close, emit, if_pos h]
  · refine ⟨[.send (closeFrame code)], ?_, by simp [Effect.isDecoded], by simp⟩
    simp only [close, emit, if_neg h]

theorem speaks_protocolError (d : Decoder) : d.Speaks True d.protocolError := by
  refine ⟨[.protocolError, .stopRead, .send (closeFrame .PROTOCOL_ERROR)], ?_,
    by simp [Effect.isDecoded], by simp⟩
  simp [protocolError, close, emit]

theorem speaks_sendControl (d : Decoder) (control : UInt8) (message : Bytes) :
    d.Speaks False (d.sendControl control message) :=
  ⟨[_], rfl, by simp [Effect.isDecoded], by simp⟩

theorem speaks_pong (d : Decoder) (message : Bytes) :
    d.Speaks (126 ≤ message.length) (d.pong message) := by
  unfold pong
  by_cases h : 126 ≤ message.length
  · rw [if_pos h]
    exact (speaks_protocolError d).mono fun _ => h
  · rw [if_neg h]
    exact (speaks_sendControl d _ message).mono False.elim

theorem speaks_call (d : Decoder) (c : ApiCall) : d.Speaks (c.fails = true) (ended (d.call c)) := by
  have hmessage (data : Bytes) (isBinary : Bool) :
      d.Speaks False (ended (d.sendMessage data isBinary)) := by
    unfold sendMessage
    split
    · exact ⟨[_], rfl, by simp [Effect.isDecoded], by simp⟩
    · exact .refl d _
  cases c with
  | sendMove data isBinary => exact (hmessage data isBinary).mono False.elim
  | sendMessage data isBinary => exact (hmessage data isBinary).mono False.elim
  | ping message =>
    refine Speaks.mono (p := False) ?_ False.elim
    change d.Speaks False (d.ping message)
    unfold ping
    split
    · exact speaks_close _ _
    · exact speaks_sendControl _ _ _
  | pong message => exact (speaks_pong d message).mono fun h => decide_eq_true h
  | close code => exact (speaks_close d code).mono False.elim

theorem speaks_calls (d : Decoder) (cs : List ApiCall) :
    d.Speaks (∃ c ∈ cs, c.fails = true) (ended (d.calls cs)) := by
  induction cs generalizing d with
  | nil => exact .refl d _
  | cons c cs ih =>
    have h := speaks_call d c
    unfold calls
    cases hc : d.call c with
    | error d' =>
      rw [hc] at h
      exact h.mono fun hf => ⟨c, List.mem_cons_self, hf⟩
    | ok d' =>
      rw [hc] at h
      apply (h.trans (ih d')).mono
      intro hf
      obtain hf | ⟨c', hc', hf⟩ := hf
      · exact ⟨c, List.mem_cons_self, hf⟩
      · exact ⟨c', List.mem_cons_of_mem _ hc', hf⟩

/-! ## What an activation adds -/

/-- Nothing follows a protocol error in the trace, and then also `p`. -/
def Orderly (d : Decoder) (p : Prop) : Prop :=
  FailStop d.trace ∧ (.protocolError ∈ d.trace → p ∧ .stopRead ∈ d.trace)

theorem orderly_of_not_mem {d : Decoder} {p : Prop} (h : .protocolError ∉ d.trace) : d.Orderly p :=
  ⟨failStop_of_not_mem h, fun he => absurd he h⟩

theorem Speaks.orderly {d d' : Decoder} {p : Prop} (hs : d.Speaks p d')
    (h : .protocolError ∉ d.trace) : d'.Orderly p := by
  obtain ⟨more, ht, hm, hf⟩ := hs
  unfold Orderly
  rw [ht]
  refine ⟨(failStop_of_not_mem h).append hm, fun he => ?_⟩
  obtain ⟨hp, hstop⟩ := hf ((List.mem_append.mp he).resolve_left h)
  exact ⟨hp, List.mem_append_right _ hstop⟩

theorem Speaks.orderly_trans {d d' : Decoder} {p q : Prop} (hs : d.Speaks q d') (h : d.Orderly p) :
    d'.Orderly (p ∨ q) := by
  obtain ⟨more, ht, hm, hf⟩ := hs
  unfold Orderly
  rw [ht]
  refine ⟨h.1.append hm, fun he => ?_⟩
  rcases List.mem_append.mp he with he | he
  · obtain ⟨hp, hstop⟩ := h.2 he
    exact ⟨.inl hp, List.mem_append_left _ hstop⟩
  · obtain ⟨hq, hstop⟩ := hf he
    exact ⟨.inr hq, List.mem_append_right _ hstop⟩

theorem Orderly.mono {d : Decoder} {p q : Prop} (h : d.Orderly p) (hpq : p → q) : d.Orderly q :=
  ⟨h.1, fun he => ⟨hpq (h.2 he).1, (h.2 he).2⟩⟩

/-- A protocol error is found while the frame is told and done with, but not in `decode` itself. -/
def Taken.Fails (t : Taken) : Prop :=
  ¬ t.state.Erroneous t.header ∧
    ((t.state.handOver t.header).runCallback (t.state.told t.header t.payload).1
      (t.state.told t.header t.payload).2).isOk ∧
    (t.header.opcode = 9 ∧ 126 ≤ t.payload.length ∨ ∃ c ∈ t.answers, c.fails = true)

instance (t : Taken) : Decidable t.Fails := inferInstanceAs (Decidable (_ ∧ _ ∧ _))

/-- If the next frame leads to an error in `pong`, then no frame is behind it. -/
def FailsLast (d : Decoder) : Prop := ∀ t ∈ d.ahead, t.Fails → ¬ HoldsFrame t.state.input

instance (d : Decoder) : Decidable d.FailsLast := inferInstanceAs (Decidable (∀ t ∈ d.ahead, _))

theorem speaks_runCallback (d : Decoder) (callback : Option Callback) (effect : Effect) :
    ∃ heard : Decoder, (heard.trace = d.trace ∨ heard.trace = d.trace ++ [effect]) ∧
      heard.Speaks (∃ c ∈ d.answers callback effect, c.fails = true)
        (ended (d.runCallback callback effect)) := by
  cases callback with
  | none => exact ⟨d, .inl rfl, .refl d _⟩
  | some answer => exact ⟨d.emit effect, .inr rfl, speaks_calls _ _⟩

theorem told_ne_protocolError (d : Decoder) (h : Header) (payload : Bytes) :
    (d.told h payload).2 ≠ .protocolError := by
  unfold told
  split <;> exact nofun

theorem speaks_finish (d : Decoder) (h : Header) (old payload : Bytes) :
    d.Speaks (h.opcode = 9 ∧ 126 ≤ payload.length) (d.finish h old payload) := by
  unfold finish
  split
  · next hop => exact (speaks_pong d payload).mono fun hl => ⟨hop, hl⟩
  · exact .refl d _
  · exact .refl d _

theorem orderly_told {d : Decoder} {t : Taken} (ha : d.ahead = some t)
    (hd : .protocolError ∉ d.trace) :
    (ended ((t.state.handOver t.header).runCallback (t.state.told t.header t.payload).1
      (t.state.told t.header t.payload).2)).Orderly (∃ c ∈ t.answers, c.fails = true) := by
  obtain ⟨heard, htrace, hs⟩ := speaks_runCallback (t.state.handOver t.header)
    (t.state.told t.header t.payload).1 (t.state.told t.header t.payload).2
  have hstate : .protocolError ∉ (t.state.handOver t.header).trace := by
    change .protocolError ∉ t.state.trace
    rw [trace_ahead ha]
    simpa using hd
  apply hs.orderly
  obtain htrace | htrace := htrace
  · rwa [htrace]
  · rw [htrace]
    intro he
    rcases List.mem_append.mp he with he | he
    · exact hstate he
    · exact told_ne_protocolError _ _ _ (List.mem_singleton.mp he).symm

/-- **One activation** before any protocol error. It goes on after one only if a frame that fails was
ahead. -/
theorem orderly_outcome {d : Decoder} (hd : .protocolError ∉ d.trace) {r : Call Decoder}
    (ho : d.Outcome r) :
    r.state.Orderly (∀ d', r = .again d' → ∃ t ∈ d.ahead, t.Fails ∧ d'.header = none ∧
      d'.input = t.state.input) := by
  have hahead (t : Taken) (ha : d.ahead = some t) : .protocolError ∉ t.state.trace := by
    rw [trace_ahead ha]
    simpa using hd
  cases ho with
  | empty hh hi => exact orderly_of_not_mem hd
  | reserved hr =>
    have hframe : .protocolError ∉ ({ d with input := d.input.drop 1 }.emit .frame).trace := by
      simpa [emit] using hd
    exact ((speaks_protocolError _).orderly hframe).mono fun _ d' hd' =>
      absurd hd' Call.returned_ne_again
  | short wanted hh hf => exact orderly_of_not_mem hd
  | waits header d' hr hl =>
    obtain ⟨input, wanted, rfl, -⟩ := readHeader_eq hr
    exact orderly_of_not_mem hd
  | refused t ha he =>
    exact ((speaks_protocolError _).orderly (hahead t ha)).mono fun _ d' hd' =>
      absurd hd' Call.returned_ne_again
  | closed t ha hop hs =>
    rw [state_recurse]
    have hclose := (speaks_close t.state .NORMAL_CLOSE).orderly (hahead t ha)
    have htcp : Speaks (t.state.close .NORMAL_CLOSE) False
        ({ t.state.close .NORMAL_CLOSE with status := .CLOSED }.emit .closeTcp) :=
      ⟨[.closeTcp], rfl, by simp [Effect.isDecoded], by simp⟩
    exact (htcp.orderly_trans hclose).mono (Or.elim · False.elim False.elim)
  | ignored t ha hop hs =>
    rw [state_recurse]
    exact orderly_of_not_mem (hahead t ha)
  | failed t x ha he hop hx =>
    have htold := orderly_told ha hd
    rw [hx] at htold
    exact htold.mono fun _ d' hd' => absurd hd' Call.aborted_ne_again
  | told t x ha he hop hx =>
    have htold := orderly_told ha hd
    rw [hx] at htold
    obtain ⟨hheader, -, hinput⟩ := finish_eq x t.header d.assembly t.payload
    rw [state_recurse]
    apply ((speaks_finish x t.header d.assembly t.payload).orderly_trans htold).mono
    intro hfails d' hd'
    obtain ⟨rfl, -⟩ := recurse_again hd'
    exact ⟨t, ha, ⟨he, by rw [hx]; rfl, hfails.symm⟩, hheader, hinput.trans (input_told hx)⟩

theorem holdsFrame_of_ahead {d : Decoder} {t : Taken} (hh : d.header = none)
    (ha : d.ahead = some t) : HoldsFrame d.input := by
  unfold ahead readHeader readFront at ha
  rw [hh] at ha
  unfold HoldsFrame
  cases hf : front d.input with
  | nothing =>
    simp only [hf] at ha
    cases ha
  | reserved => trivial
  | short wanted =>
    simp only [hf] at ha
    cases ha
  | full h size code =>
    obtain ⟨-, hsize⟩ := front_size hf
    simp only [hf] at ha
    by_cases hl : (d.input.drop size).length < h.length
    · change (if (d.input.drop size).length < h.length then none else _) = _ at ha
      rw [if_pos hl] at ha
      cases ha
    · rw [List.length_drop] at hl
      change size + h.length ≤ d.input.length
      omega

theorem silent_outcome {d : Decoder} (hh : d.header = none) (hno : ¬ HoldsFrame d.input)
    {r : Call Decoder} (ho : d.Outcome r) : r.state.trace = d.trace ∧ ∀ d', r ≠ .again d' := by
  have hnone (t : Taken) : d.ahead ≠ some t := fun ha => hno (holdsFrame_of_ahead hh ha)
  cases ho with
  | empty hh hi => exact ⟨rfl, fun d' => Call.aborted_ne_again⟩
  | reserved hr =>
    refine absurd ?_ hno
    unfold HoldsFrame
    rw [hr.2]
    trivial
  | short wanted hh hf => exact ⟨rfl, fun d' => Call.returned_ne_again⟩
  | waits header d' hr hl =>
    obtain ⟨input, wanted, rfl, -⟩ := readHeader_eq hr
    exact ⟨rfl, fun d' => Call.returned_ne_again⟩
  | refused t ha he => exact absurd ha (hnone t)
  | closed t ha hop hs => exact absurd ha (hnone t)
  | ignored t ha hop hs => exact absurd ha (hnone t)
  | failed t x ha he hop hx => exact absurd ha (hnone t)
  | told t x ha he hop hx => exact absurd ha (hnone t)

end Decoder

namespace WebSocketConnection

def FailsLast (ws : WebSocketConnection) : Prop := ws.abs.FailsLast

instance (ws : WebSocketConnection) : Decidable ws.FailsLast :=
  inferInstanceAs (Decidable ws.abs.FailsLast)

end WebSocketConnection

namespace Session

/-- No bytes arrive after `stopRead`. -/
def Reads (s : Session) : SessionEvent → Prop
  | .receive _ => .stopRead ∉ s.ws.trace
  | .decode | .call _ => True

instance (s : Session) : (e : SessionEvent) → Decidable (s.Reads e)
  | .receive _ => inferInstanceAs (Decidable (.stopRead ∉ s.ws.trace))
  | .decode | .call _ => isTrue trivial

def FailsLast (s : Session) : SessionEvent → Prop
  | .decode => s.ws.FailsLast
  | .receive _ | .call _ => True

instance (s : Session) : (e : SessionEvent) → Decidable (s.FailsLast e)
  | .decode => inferInstanceAs (Decidable s.ws.FailsLast)
  | .receive _ | .call _ => isTrue trivial

/-- After a protocol error there is no frame to decode. -/
def Stopped (s : Session) : Prop :=
  s.ws.abs.Orderly (s.decoding = true → s.ws.abs.header = none ∧ ¬ HoldsFrame s.ws.abs.input)

theorem stopped_step {s : Session} (h : s.Stopped) {e : SessionEvent}
    (he : system.enabled s e) (hr : s.Reads e) (hl : s.FailsLast e) :
    (∀ s', s.step e = .ok s' → s'.Stopped) ∧ FailStop (s.ws.abs.meet e).trace := by
  cases e with
  | receive bytes =>
    have hno : .protocolError ∉ s.ws.abs.trace := fun hmem => hr (h.2 hmem).2
    refine ⟨fun s' hs => ?_, h.1⟩
    have hmeet := step_meet hs
    have hno' : .protocolError ∉ s'.ws.abs.trace := by rwa [hmeet]
    exact Decoder.orderly_of_not_mem hno'
  | decode =>
    have ho := s.ws.abs.outcome
    by_cases hmem : .protocolError ∈ s.ws.abs.trace
    · obtain ⟨hnone, hframe⟩ := (h.2 hmem).1 he
      obtain ⟨htrace, hlast⟩ := Decoder.silent_outcome hnone hframe ho
      refine ⟨fun s' hs => ?_, ?_⟩
      · have hmeet : s'.ws.abs.trace = s.ws.abs.trace := by
          rw [step_meet hs]
          exact htrace
        unfold Stopped Decoder.Orderly
        rw [hmeet]
        refine ⟨h.1, fun _ => ⟨fun hd => ?_, (h.2 hmem).2⟩⟩
        obtain ⟨-, hd'⟩ | ⟨hagain, -⟩ := step_decode hs
        · rw [hd'] at hd
          cases hd
        · exact absurd hagain (hlast _)
      · change FailStop s.ws.abs.activate.state.trace
        rw [htrace]
        exact h.1
    · have horderly := Decoder.orderly_outcome hmem ho
      refine ⟨fun s' hs => ?_, horderly.1⟩
      unfold Stopped
      rw [step_meet hs]
      apply horderly.mono
      intro hagain hd
      obtain ⟨-, hd'⟩ | ⟨hact, -⟩ := step_decode hs
      · rw [hd'] at hd
        cases hd
      · obtain ⟨t, ha, hfails, hheader, hinput⟩ := hagain _ hact
        have hstate : s.ws.abs.meet .decode = s'.ws.abs := (step_meet hs).symm
        rw [hstate, hheader, hinput]
        exact ⟨rfl, hl t ha hfails⟩
  | call c =>
    have horderly := (Decoder.speaks_call s.ws.abs c).orderly_trans h
    refine ⟨fun s' hs => ?_, horderly.1⟩
    unfold Stopped
    rw [step_meet hs, (step_call hs).2]
    exact horderly.mono fun _ => nofun

end Session

namespace WebSocketConnection

/-- **Fail-stop**, in every run in which a frame that leads to an error in `pong` is the last in the
input. -/
theorem failStop_of_failsLast {ws : WebSocketConnection} (h : ws.Fresh) {es : List SessionEvent}
    (legal : Session.system.Legal (.start ws) es)
    (reads : ∀ p ∈ Session.system.steps (.start ws) es, p.1.Reads p.2)
    (last : ∀ p ∈ Session.system.steps (.start ws) es, p.1.FailsLast p.2) :
    ∀ p ∈ Session.system.steps (.start ws) es, FailStop (Session.traceAfter (p.1.step p.2)) := by
  intro p hp
  have hstart : (Session.start ws).Stopped := by
    have ht : (Session.start ws).ws.abs.trace = [] := h.trace
    apply Decoder.orderly_of_not_mem
    rw [ht]
    exact List.not_mem_nil
  have hinv := Session.system.invariant_of_guard Session.Stopped
    (fun s e => s.Reads e ∧ s.FailsLast e)
    (fun s e s' hi he hg hs => (Session.stopped_step hi he hg.1 hg.2).1 s' hs) hstart legal
    (fun q hq => ⟨reads q hq, last q hq⟩)
  obtain ⟨hi, he⟩ := hinv p hp
  rw [Session.traceAfter_step]
  exact (Session.stopped_step hi he (reads p hp) (last p hp)).2

/-- A text frame, then a byte with a reserved bit and one more frame behind it. -/
theorem failStop_of_reserved :
    let start := Session.start (connected (some fun _ => []) none none)
    let events : List SessionEvent :=
      [.receive [0x81, 0x01, 0x61, 0xf1, 0x81, 0x00], .decode, .decode]
    Session.system.Legal start events ∧
      ∀ p ∈ Session.system.steps start events, FailStop (Session.traceAfter (p.1.step p.2)) :=
  ⟨by decide +kernel, failStop_of_failsLast (connected_fresh _ _ _) (by decide +kernel)
    (by decide +kernel) (by decide +kernel)⟩

/-- A ping of 126 bytes, then a text frame in the same read. -/
theorem not_failStop_ping :
    let bytes := [0x89, 0x7e, 0x00, 0x7e] ++ List.replicate 126 0x00 ++ [0x81, 0x01, 0x61]
    let events : List SessionEvent := [.receive bytes, .decode, .decode]
    let steps := Session.system.steps (.start (connected (some fun _ => []) none none)) events
    Session.system.Legal (.start (connected (some fun _ => []) none none)) events ∧
      (∀ p ∈ steps, p.1.Reads p.2) ∧
      ¬ ∀ p ∈ steps, FailStop (Session.traceAfter (p.1.step p.2)) := by
  decide +kernel

end WebSocketConnection
end WsEngine
