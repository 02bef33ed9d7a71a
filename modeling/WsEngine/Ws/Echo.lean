import WsEngine.Ws.Replies

/-! # The echo

What the server of `main.cpp` sends for a sequence of frames (`echoes`): a pong for each ping, and for each
completed message one frame with what is delivered of it, in order: what a control frame left in
`decodeBuf_` goes out in front of the message. A peer that reads all this gets back the messages it
sent, iff nothing stray gets in front of one: neither on the way there nor on the way back, where the
pongs are strays (`echo_roundTrip_iff`). -/
set_option autoImplicit false

namespace WsEngine

namespace Frame

/-- What is sent for the frames, of which `stray` and `m` are there. -/
def echoes : Bytes → Progress → List Frame → List (FrameKind × Bytes)
  | _, _, [] => []
  | stray, m, f :: fs =>
    (if f.kind = .ping then [(.pong, f.payload)]
      else if f.Completes then
        [(if (f.extend m).2 then .binary else .text, stray ++ (f.extend m).1)]
      else []) ++ echoes (strayAfter stray m f) (advance m f) fs

/-- Behind a control frame with a payload that leaves it here or with the peer, no message is completed. -/
def Undisturbed (m : Progress) (fs : List Frame) : Prop :=
  ∀ before f after, fs = before ++ f :: after → f.kind.isControl = true → f.payload ≠ [] →
    f.kind = .ping ∨ (before.foldl advance m).received = [] → ∀ g ∈ after, ¬ g.Completes

theorem undisturbed_nil (m : Progress) : Undisturbed m [] := by
  intro before f after h
  cases before <;> cases h

theorem undisturbed_cons (m : Progress) (f : Frame) (fs : List Frame) :
    Undisturbed m (f :: fs) ↔ (f.kind.isControl = true → f.payload ≠ [] →
      f.kind = .ping ∨ m.received = [] → ∀ g ∈ fs, ¬ g.Completes) ∧
        Undisturbed (advance m f) fs := by
  constructor
  · intro h
    refine ⟨fun hc hp hm => h [] f fs rfl hc hp hm, ?_⟩
    intro before g after hfs
    exact h (f :: before) g after (by rw [hfs, List.cons_append])
  · rintro ⟨hfirst, hrest⟩ before g after hfs
    cases before with
    | nil =>
      cases hfs
      exact hfirst
    | cons b before =>
      cases hfs
      exact hrest before g after rfl

instance decidableUndisturbed : (m : Progress) → (fs : List Frame) → Decidable (Undisturbed m fs)
  | m, [] => isTrue (undisturbed_nil m)
  | m, f :: fs =>
    have := decidableUndisturbed (advance m f) fs
    decidable_of_iff _ (undisturbed_cons m f fs).symm

end Frame

namespace Decoder

/-! ## What is sent -/

theorem Between.afterAll {d : Decoder} {m : Progress} {fs : List Frame}
    (h : d.Between m (fs.flatMap Frame.encode)) : (d.afterAll m fs).Wire true := by
  induction fs generalizing d m with
  | nil => exact h.wire
  | cons f fs ih =>
    have hnext : d.Between m (f.encode ++ fs.flatMap Frame.encode) := h
    exact ih hnext.after

theorem sends_echo_effects {d : Decoder} {stray : Bytes} {m : Progress} {f : Frame} {rest : Bytes}
    (h : d.At stray m (f.encode ++ rest)) :
    sends (Application.echo.replied (.frame :: d.effects m f)) =
      if f.kind = .ping then [finalFrame 10 f.payload]
      else if f.Completes then
        [finalFrame (if (f.extend m).2 then 2 else 1) (stray ++ (f.extend m).1)]
      else [] := by
  have hassembly : d.assembly ++ f.payload = stray ++ (f.extend m).1 := by
    rw [Frame.extend_fst, ← List.append_assoc, ← h.assembly]
  by_cases hc : f.kind.isControl = true
  · have hno := Frame.not_completes_control hc
    obtain ⟨-, hlen⟩ := f.control hc
    rw [if_neg hno]
    by_cases hk : f.kind = .ping
    · rw [effects_ping hk, if_pos hk, finalFrame_short (by omega)]
      split <;> rfl
    · have hpong : f.kind = .pong := by
        cases hkind : f.kind <;> simp_all [FrameKind.isControl]
      rw [effects_pong hpong, if_neg hk]
      split <;> rfl
  · have hdata : f.kind.isControl = false := by simpa using hc
    have hk : f.kind ≠ .ping := by
      intro hk
      rw [hk] at hdata
      cases hdata
    have hcomp : f.Completes ↔ f.isFin = true ∧ d.messageCallback.isSome = true := by
      simp [Frame.Completes, hdata, h.callback]
    rw [effects_data hdata, hassembly, if_neg hk]
    simp only [hcomp]
    split
    · simp [Application.replied, Application.replies, Application.echo, sends, ApiCall.frame]
    · rfl

theorem At.echo {d : Decoder} {stray : Bytes} {m : Progress} {fs : List Frame}
    (h : d.At stray m (fs.flatMap Frame.encode)) :
    sends (Application.echo.replied (d.afterAll m fs).trace) =
      sends (Application.echo.replied d.trace) ++
        (Frame.echoes stray m fs).map fun r => finalFrame r.1.opcode r.2 := by
  induction fs generalizing d stray m with
  | nil => exact (List.append_nil _).symm
  | cons f fs ih =>
    have hnext : d.At stray m (f.encode ++ fs.flatMap Frame.encode) := h
    have htrace : (d.after m f (fs.flatMap Frame.encode)).trace =
        d.trace ++ .frame :: d.effects m f := rfl
    rw [afterAll, ih hnext.step.1, htrace, Application.replied_append, sends_append,
      sends_echo_effects hnext, Frame.echoes, List.map_append, List.append_assoc]
    congr 2
    by_cases hk : f.kind = .ping
    · rw [if_pos hk, if_pos hk]
      rfl
    · rw [if_neg hk, if_neg hk]
      by_cases hcomp : f.Completes
      · rw [if_pos hcomp, if_pos hcomp]
        cases (f.extend m).2 <;> rfl
      · rw [if_neg hcomp, if_neg hcomp]
        rfl

theorem At.receive {d : Decoder} {stray rest : Bytes} {m : Progress} (h : d.At stray m rest)
    (bytes : Bytes) : (d.receive bytes).At stray m (rest ++ bytes) := by
  refine ⟨h.calm.receive _, h.wire.congr rfl rfl rfl, h.callback, h.header, h.wanted, ?_, h.assembly,
    h.fragmented⟩
  change d.input ++ bytes = _
  rw [h.input]

/-- The echo of all frames, in any reads. -/
theorem At.feed_echo {d : Decoder} (h : d.At [] none []) {fs : List Frame}
    (hf : Frame.Legal none fs) {chunks : List Bytes} (hne : ∀ b ∈ chunks, b ≠ [])
    (hchunks : chunks.flatten = fs.flatMap Frame.encode) :
    ∃ x : Decoder, (d.replying .echo).feed chunks = .returned x ∧
      sends x.trace = sends (Application.echo.replied d.trace) ++
        (Frame.echoes [] none fs).map fun r => finalFrame r.1.opcode r.2 := by
  have hreads := h.between.reads hf hne hchunks
  have hat := h.receive (fs.flatMap Frame.encode)
  rw [List.nil_append] at hat
  have hmirrors := mirrors_feed .echo h.calm h.wire hne
  rw [hreads] at hmirrors
  obtain ⟨t, ht, hpre, -⟩ | ⟨x, -, -, hx, hx'⟩ := hmirrors
  · exact absurd (ht.mono hpre) (not_closed_of_wire hat.between.afterAll)
  · cases hx
    exact ⟨_, hx', hat.echo⟩

end Decoder

namespace WebSocketConnection

theorem Fresh.at {ws : WebSocketConnection} (h : ws.Fresh) (hl : ws.Listening)
    (hcallback : ws.wsMessageCallback_.isSome = true) (hinput : ws.inputBuffer.readable = []) :
    ws.abs.At [] none [] :=
  ⟨h.calm hl, h.wire, hcallback, if_neg (by rw [h.header]; decide), h.wanted, hinput, h.decode,
    h.fragmented⟩

end WebSocketConnection
end WsEngine
