import WsEngine.Buffer.Operations
import WsEngine.Ws.Lifecycle

/-! # Frames that wait for another read

`wanted_` never asks for more than the next frame needs, and `decode` returns in CONNECT only when no
whole frame is left. So a frame can only be left behind by the call of `parse` that opens the
connection: it gives the read to `http_parser`, keeps the bytes that this did not take, and returns
without a look at them. -/
set_option autoImplicit false

namespace WsEngine

/-- The bytes begin with a whole frame, valid or not. -/
def HasFrame (input : Bytes) : Prop := ∃ f : RawFrame, f.encode <+: input

/-- The whole next frame is there, or the rest of it behind a header that was read. -/
def WebSocketConnection.HasNext (ws : WebSocketConnection) : Prop :=
  if ws.headerRead_ then ws.payloadLength_ ≤ ws.inputBuffer.readableBytes
  else HasFrame ws.inputBuffer.readable

theorem not_hasFrame_nil : ¬ HasFrame [] := by
  rintro ⟨f, hf⟩
  exact absurd (List.prefix_nil.mp hf) (List.cons_ne_nil _ _)

namespace Decoder

def HasNext (d : Decoder) : Prop :=
  match d.header with
  | some h => h.length ≤ d.input.length
  | none => HasFrame d.input

theorem hasNext_some {d : Decoder} {h : Header} (hh : d.header = some h) :
    d.HasNext ↔ h.length ≤ d.input.length := by
  unfold HasNext
  rw [hh]

theorem hasNext_none {d : Decoder} (hh : d.header = none) : d.HasNext ↔ HasFrame d.input := by
  unfold HasNext
  rw [hh]

/-- A whole frame is one that `decode` takes up, or refuses by its first byte. -/
theorem HasNext.ahead {d : Decoder} (hn : d.HasNext) : d.Reserved ∨ ∃ t, d.ahead = some t := by
  cases hh : d.header with
  | some h =>
    rw [hasNext_some hh] at hn
    exact .inr ⟨_, ahead_of_readHeader (readHeader_some hh) hn⟩
  | none =>
    rw [hasNext_none hh] at hn
    obtain ⟨f, rest, hinput⟩ := hn
    rw [RawFrame.encode, List.append_assoc] at hinput
    by_cases hr : f.head.rsv = 0
    · have hfront := FrameHeader.front_encode hr (f.header.unmask f.payload ++ rest)
      rw [hinput] at hfront
      have hread : d.readHeader = .ok (f.head.header, { d with
          input := d.input.drop f.head.encode.length
          header := some f.head.header
          wanted := f.head.form.code f.head.length }) := by
        rw [readHeader_none hh]
        unfold readFront
        rw [hfront]
        rfl
      refine .inr ⟨_, ahead_of_readHeader hread ?_⟩
      change f.head.length ≤ (d.input.drop f.head.encode.length).length
      rw [← hinput, List.drop_left, List.length_append, Header.length_unmask, f.length_payload]
      exact Nat.le_add_right _ _
    · have hfront := FrameHeader.front_reserved hr (f.header.unmask f.payload ++ rest)
      rw [hinput] at hfront
      exact .inl ⟨hh, hfront⟩

theorem not_hasNext {d : Decoder} (h : d.ahead = none ∧ ¬ d.Reserved) : ¬ d.HasNext := by
  intro hn
  obtain hr | ⟨t, ha⟩ := hn.ahead
  · exact h.2 hr
  · rw [h.1] at ha
    cases ha

/-- No whole frame is there, nor will there be one before `wanted_` bytes are. -/
def Starved (d : Decoder) : Prop :=
  ∀ more, more = [] ∨ (d.receive more).input.length < d.wanted → ¬ (d.receive more).HasNext

theorem Starved.not_hasNext {d : Decoder} (h : d.Starved) : ¬ d.HasNext := by
  have hnow := h [] (.inl rfl)
  rwa [receive_nil] at hnow

theorem Starved.receive {d : Decoder} (h : d.Starved) {bytes : Bytes}
    (hw : (d.receive bytes).input.length < d.wanted) : (d.receive bytes).Starved := by
  rintro more (rfl | hmore)
  · rw [receive_nil]
    exact h bytes (.inr hw)
  · rw [receive_receive] at hmore ⊢
    exact h (bytes ++ more) (.inr hmore)

/-- Only the input, the header and `wanted_` matter. -/
theorem Starved.congr {d d' : Decoder} (h : d.Starved) (hinput : d'.input = d.input)
    (hheader : d'.header = d.header) (hwanted : d'.wanted = d.wanted) : d'.Starved := by
  intro more hmore
  have hsame := h more
  unfold HasNext Decoder.receive at hsame ⊢
  unfold Decoder.receive at hmore
  dsimp only at hsame hmore ⊢
  rw [hinput, hwanted] at hmore
  rw [hinput, hheader]
  exact hsame hmore

theorem starved_of_wanted {d : Decoder} (hwanted : d.wanted = 0) (h : ¬ d.HasNext) : d.Starved := by
  rintro more (rfl | hmore)
  · rwa [receive_nil]
  · omega

theorem starved_short {d : Decoder} {wanted : ℕ} (hh : d.header = none)
    (hf : front d.input = .short wanted) : { d with wanted := wanted }.Starved := by
  rintro more (rfl | hmore)
  · rw [receive_nil]
    exact Decoder.not_hasNext (ahead_short (d := { d with wanted := wanted }) hh hf)
  · have hstill : front (d.input ++ more) = .short wanted := front_append_short hf hmore
    exact Decoder.not_hasNext (ahead_short (d := { d with wanted := wanted }.receive more) hh hstill)

theorem starved_waits {d : Decoder} {h : Header} (hh : d.header = some h)
    (hl : d.input.length < h.length) : { d with wanted := h.length }.Starved := by
  intro more hmore
  have hread : ({ d with wanted := h.length }.receive more).header = some h := hh
  rw [hasNext_some hread]
  apply Nat.not_le.mpr
  obtain rfl | hmore := hmore
  · rwa [receive_nil]
  · exact hmore

/-- **One activation** that returns in CONNECT has left no whole frame. -/
theorem starved_outcome {d x : Decoder} (ho : d.Outcome (.returned x)) (hs : x.status = .CONNECT) :
    x.Starved := by
  have hclosing {w : Decoder} (h : w.status = .CONNECT) (code : StatusCode) {v : Decoder}
      (hw : w = v.close code) : False := by
    rw [hw, status_close] at h
    cases h
  generalize hr : Call.returned x = r at ho
  cases ho with
  | empty hh hi => cases hr
  | reserved hres =>
    cases hr
    exact (hclosing hs _ rfl).elim
  | short wanted hh hf =>
    cases hr
    exact starved_short hh hf
  | waits h d' hread hl =>
    cases hr
    obtain ⟨input, wanted, rfl, -⟩ := readHeader_eq hread
    exact starved_waits rfl hl
  | refused t ha he =>
    cases hr
    exact (hclosing hs _ rfl).elim
  | closed t ha hop hconnect =>
    obtain ⟨rfl, -⟩ := recurse_returned hr.symm
    cases hs
  | ignored t ha hop hnot =>
    obtain ⟨rfl, -⟩ := recurse_returned hr.symm
    exact absurd hs hnot
  | failed t y ha he hop hy => cases hr
  | told t y ha he hop hy =>
    obtain ⟨rfl, hempty⟩ := recurse_returned hr.symm
    obtain ⟨hheader, hwanted, -⟩ := finish_eq y t.header d.assembly t.payload
    refine starved_of_wanted hwanted ?_
    rw [hasNext_none hheader, hempty]
    exact not_hasFrame_nil

end Decoder

theorem WebSocketConnection.hasNext_abs (ws : WebSocketConnection) : ws.abs.HasNext ↔ ws.HasNext := by
  unfold HasNext
  by_cases hread : ws.headerRead_ = true
  · rw [if_pos hread, Decoder.hasNext_some (if_pos hread), Buffer.readableBytes_eq]
    rfl
  · rw [if_neg hread, Decoder.hasNext_none (if_neg hread)]
    rfl

namespace Lifecycle

variable (sha1 : Bytes → Fin 5 → ℕ) (base64_encode : Bytes → Bytes)

/-! ## The specification -/

/-- Where a call of `parse` has returned in CONNECT, everything that could be decoded has been. -/
def Drained (s : Lifecycle) : Prop :=
  s.phase = .idle → s.ws.status_ = .CONNECT → ¬ s.ws.HasNext

def Drains (s : Lifecycle) (e : LifeEvent) : Prop :=
  (s.step sha1 base64_encode e).Ends Drained fun _ => True

/-- Where `http_parser` has taken what it takes of a read and the connection is open, no whole frame
is behind that. -/
def Timely (s : Lifecycle) : LifeEvent → Prop
  | .parsed nparsed =>
    s.ws.status_ = .CONNECT → ¬ HasFrame (s.ws.inputBuffer.readable.drop nparsed)
  | .receive _ | .header _ | .headersComplete _ | .decode | .call _ | .onMessage _ | .onPing _
  | .onPong _ | .handleClose => True

/-- `decode` has not been called before the connection is open, and what it has left since then
waits for bytes. -/
structure Waits (s : Lifecycle) : Prop where
  opening : s.ws.status_ = .INITIAL ∨ s.phase = .parsing → s.ws.abs.header = none ∧ s.ws.wanted_ = 0
  opened : s.phase = .decoding → s.ws.status_ ≠ .INITIAL
  starved : s.phase = .idle → s.ws.status_ = .CONNECT → s.ws.abs.Starved

variable {sha1 base64_encode}

theorem Waits.drained {s : Lifecycle} (h : s.Waits) : s.Drained := by
  intro hidle hconnect
  rw [← WebSocketConnection.hasNext_abs]
  exact (h.starved hidle hconnect).not_hasNext

/-! ## Steps -/

/-- What leaves the frames alone, and opens nothing, changes nothing in what is waited for. -/
theorem Waits.same {s : Lifecycle} (h : s.Waits) {w : WebSocketConnection} (hw : SameFrames s.ws w)
    (hstatus : w.status_ = s.ws.status_ ∨ w.status_ ≠ .INITIAL ∧ w.status_ ≠ .CONNECT) :
    Waits ⟨w, s.phase⟩ where
  opening := by
    intro hopening
    rw [show (⟨w, s.phase⟩ : Lifecycle).ws.abs.header = s.ws.abs.header from hw.header]
    rw [show (⟨w, s.phase⟩ : Lifecycle).ws.wanted_ = s.ws.wanted_ from hw.wanted]
    apply h.opening
    obtain hinitial | hparsing := hopening
    · obtain hsame | ⟨hpast, -⟩ := hstatus
      · exact .inl (hsame.symm.trans hinitial)
      · exact absurd hinitial hpast
    · exact .inr hparsing
  opened := by
    intro hdecoding hinitial
    obtain hsame | ⟨hpast, -⟩ := hstatus
    · exact h.opened hdecoding (hsame.symm.trans hinitial)
    · exact hpast hinitial
  starved := by
    intro hidle hconnect
    obtain hsame | ⟨-, hnot⟩ := hstatus
    · exact (h.starved hidle (hsame.symm.trans hconnect)).congr hw.input hw.header hw.wanted
    · exact absurd hconnect hnot

/-- In `http_parser` it does not matter what is opened. -/
theorem Waits.parsing {s : Lifecycle} (h : s.Waits) (hphase : s.phase = .parsing)
    {w : WebSocketConnection} (hw : SameFrames s.ws w) : Waits ⟨w, s.phase⟩ where
  opening := fun _ => by
    rw [show (⟨w, s.phase⟩ : Lifecycle).ws.abs.header = s.ws.abs.header from hw.header]
    rw [show (⟨w, s.phase⟩ : Lifecycle).ws.wanted_ = s.ws.wanted_ from hw.wanted]
    exact h.opening (.inr hphase)
  opened := fun hdecoding => nomatch hphase.symm.trans hdecoding
  starved := fun hidle => nomatch hphase.symm.trans hidle

theorem Waits.receive {s : Lifecycle} (h : s.Waits) (hphase : s.phase = .idle) (bytes : Bytes) :
    Waits ⟨s.ws.receive bytes, (s.ws.receive bytes).parsePhase⟩ := by
  have hcases := (s.ws.receive bytes).parsePhase_cases
  generalize (s.ws.receive bytes).parsePhase = phase at hcases
  obtain ⟨rfl, hnot⟩ | ⟨rfl, hinitial, -⟩ | ⟨rfl, -, hopen⟩ := hcases
  · refine ⟨fun hopening => ?_, nofun, fun _ hconnect => ?_⟩
    · obtain hinitial | hparsing := hopening
      · exact h.opening (.inl hinitial)
      · cases hparsing
    · have hconnect : s.ws.status_ = .CONNECT := hconnect
      obtain hshort | hhandshake | hclosed := hnot
      · rw [Buffer.readableBytes_eq] at hshort
        change (s.ws.receive bytes).abs.input.length < s.ws.abs.wanted at hshort
        change (s.ws.receive bytes).abs.Starved
        rw [WebSocketConnection.abs_receive] at hshort ⊢
        exact (h.starved hphase hconnect).receive hshort
      · cases hconnect.symm.trans hhandshake
      · cases hconnect.symm.trans hclosed
  · exact ⟨fun _ => h.opening (.inl hinitial), nofun, nofun⟩
  · have hpast : (s.ws.receive bytes).status_ ≠ .INITIAL := fun hinitial => by
      simp [hinitial] at hopen
    refine ⟨fun hopening => ?_, fun _ => hpast, nofun⟩
    obtain hinitial | hparsing := hopening
    · exact absurd hinitial hpast
    · cases hparsing

/-- What `parse` keeps of the read that opens the connection. -/
theorem Waits.parsed_iff {s : Lifecycle} (h : s.Waits) (hphase : s.phase = .parsing) {nparsed : ℕ}
    {inputBuffer : Buffer} (hr : s.ws.inputBuffer.retrieve nparsed = some inputBuffer) :
    let w := { s.ws with inputBuffer := inputBuffer }
    (Drained ⟨w, .idle⟩ ↔ s.Timely (.parsed nparsed)) ∧
      (s.Timely (.parsed nparsed) → Waits ⟨w, .idle⟩) := by
  intro w
  obtain ⟨hheader, hwanted⟩ := h.opening (.inr hphase)
  obtain ⟨-, hbuffer⟩ := Buffer.retrieve_le hr
  have hnext : w.abs.HasNext ↔ HasFrame (s.ws.inputBuffer.readable.drop nparsed) := by
    rw [Decoder.hasNext_none (d := w.abs) hheader, ← Buffer.readable_advance, ← hbuffer]
    rfl
  constructor
  · unfold Drained
    rw [← WebSocketConnection.hasNext_abs, hnext]
    exact ⟨fun hd => hd rfl, fun ht _ => ht⟩
  · intro ht
    refine ⟨fun _ => ⟨hheader, hwanted⟩, nofun, fun _ hconnect => ?_⟩
    refine Decoder.starved_of_wanted hwanted ?_
    rw [hnext]
    exact ht hconnect

theorem Waits.decode {s s' : Lifecycle} (h : s.Waits) (hphase : s.phase = .decoding)
    (hstep : afterCall s.ws.decodeCall = .ok s') : s'.Waits := by
  have hpast := Decoder.past_outcome (d := s.ws.abs) (h.opened hphase) s.ws.abs.outcome
  have ho := s.ws.abs.outcome
  rw [← WebSocketConnection.abs_decodeCall] at hpast ho
  cases hc : s.ws.decodeCall with
  | returned w =>
    rw [hc] at hstep hpast ho
    cases hstep
    refine ⟨fun hopening => ?_, nofun, fun _ hconnect => Decoder.starved_outcome ho hconnect⟩
    obtain hinitial | hparsing := hopening
    · exact absurd hinitial hpast
    · cases hparsing
  | again w =>
    rw [hc] at hstep hpast
    cases hstep
    refine ⟨fun hopening => ?_, fun _ => hpast, nofun⟩
    obtain hinitial | hparsing := hopening
    · exact absurd hinitial hpast
    · cases hparsing
  | aborted w =>
    rw [hc] at hstep
    cases hstep

theorem Waits.step {s s' : Lifecycle} (h : s.Waits) {e : LifeEvent} (possible : s.Possible e)
    (timely : s.Timely e) (hstep : s.step sha1 base64_encode e = .ok s') : s'.Waits := by
  cases e with
  | receive bytes =>
    cases hstep
    exact h.receive possible.1 bytes
  | header callback =>
    obtain ⟨w, hw, rfl⟩ := Except.map_eq_ok.mp hstep
    exact h.parsing possible (sameFrames_header hw)
  | headersComplete request =>
    obtain ⟨w, hw, rfl⟩ := Except.map_eq_ok.mp hstep
    exact h.parsing possible (sameFrames_headersComplete hw)
  | parsed nparsed =>
    unfold Lifecycle.step at hstep
    dsimp only at hstep
    split at hstep
    · next hr =>
      cases hstep
      exact (h.parsed_iff possible hr).2 timely
    · cases hstep
  | decode => exact h.decode possible hstep
  | call c =>
    obtain ⟨w, hw, rfl⟩ := Except.map_eq_ok.mp hstep
    refine h.same (sameFrames_call hw) ?_
    obtain hsame | hclosing := orClosing_call hw
    · exact .inl hsame
    · rw [hclosing]
      exact .inr ⟨nofun, nofun⟩
  | onMessage callback | onPing callback | onPong callback =>
    cases hstep
    exact h.same ⟨rfl, rfl, rfl⟩ (.inl rfl)
  | handleClose =>
    cases hstep
    exact h.same ⟨rfl, rfl, rfl⟩ (.inr ⟨nofun, nofun⟩)

/-- **One step** leaves no whole frame iff it is timely. -/
theorem Waits.drains_iff {s : Lifecycle} (h : s.Waits) {e : LifeEvent} (possible : s.Possible e) :
    s.Drains sha1 base64_encode e ↔ s.Timely e := by
  have hends (timely : s.Timely e) : s.Drains sha1 base64_encode e :=
    .of_ok (fun _ hs => (h.step possible timely hs).drained) fun _ => trivial
  refine ⟨fun hdrains => ?_, hends⟩
  cases e with
  | parsed nparsed =>
    unfold Drains Lifecycle.step at hdrains
    dsimp only at hdrains
    cases hr : s.ws.inputBuffer.retrieve nparsed with
    | some inputBuffer =>
      rw [hr] at hdrains
      exact (h.parsed_iff possible hr).1.mp (Except.ends_ok.mp hdrains)
    | none =>
      intro _
      have hlong : s.ws.inputBuffer.readable.length ≤ nparsed := by
        by_contra hle
        rw [Buffer.retrieve_eq (by omega)] at hr
        cases hr
      rw [List.drop_eq_nil_of_le hlong]
      exact not_hasFrame_nil
  | receive bytes | header callback | headersComplete request | decode | call c
  | onMessage callback | onPing callback | onPong callback | handleClose => trivial

/-- **No stranded frames**, in all that happens to a connection in any reads, iff the one that opens
it holds no frame behind the request. -/
theorem drained_iff {ws : WebSocketConnection} (hinitial : ws.status_ = .INITIAL)
    (hread : ws.headerRead_ = false) (hwanted : ws.wanted_ = 0) {es : List LifeEvent}
    (legal : (system sha1 base64_encode).Legal (start ws) es) :
    (∀ p ∈ (system sha1 base64_encode).steps (start ws) es, p.1.Drains sha1 base64_encode p.2) ↔
      ∀ p ∈ (system sha1 base64_encode).steps (start ws) es, p.1.Timely p.2 := by
  have hnone : ws.abs.header = none := if_neg (by rw [hread]; decide)
  have hstart : (start ws).Waits := by
    refine ⟨fun _ => ⟨hnone, hwanted⟩, nofun, fun _ hconnect => ?_⟩
    exact absurd (hinitial.symm.trans hconnect) nofun
  exact (system sha1 base64_encode).forall_steps_iff Waits Timely (Drains sha1 base64_encode)
    (fun _ _ _ hwaits possible timely hstep => hwaits.step possible timely hstep)
    (fun _ _ hwaits possible => hwaits.drains_iff possible) hstart legal

/-- A request as a client sends it. -/
def request : Bytes :=
  ascii "GET / HTTP/1.1\r\nHost: server.example.com\r\nUpgrade: websocket\r\nConnection: Upgrade\r\n" ++
    ascii "Sec-WebSocket-Key: dGhlIHNhbXBsZSBub25jZQ==\r\nSec-WebSocket-Version: 13\r\n\r\n"

/-- A read that holds the request, with `rest` behind it, and what `http_parser` does with it. -/
def opens (rest : Bytes) : List LifeEvent :=
  let headers := WebSocketConnection.clientHeaders "Host" "Upgrade" "Connection"
    "Sec-WebSocket-Version" "Sec-WebSocket-Key"
  .receive (request ++ rest) :: ((headers.flatMap WebSocketConnection.headerCallbacks).map .header ++
    [.headersComplete ⟨HTTP_GET, 1, 1⟩, .parsed request.length])

def sha1OfKey : Bytes → Fin 5 → ℕ :=
  fun _ => [0xb37a4f2c, 0xc0624f16, 0x90f64606, 0xcf385945, 0xb2bec4ea].get

def acceptKey : Bytes → Bytes := fun _ => ascii "s3pPLMBiTxaQ9kYGzzhZRbK+xOo="

/-- The request and a frame in two reads. -/
theorem drained_iff_apart :
    let es := opens [] ++ [.receive [0x81, 0x81, 1, 2, 3, 4, 0x60], .decode]
    (system sha1OfKey acceptKey).Legal (start .initial) es ∧
      ((∀ p ∈ (system sha1OfKey acceptKey).steps (start .initial) es,
          p.1.Drains sha1OfKey acceptKey p.2) ↔
        ∀ p ∈ (system sha1OfKey acceptKey).steps (start .initial) es, p.1.Timely p.2) := by
  intro es
  have legal : (system sha1OfKey acceptKey).Legal (start .initial) es := by decide +kernel
  exact ⟨legal, drained_iff rfl rfl rfl legal⟩

/-- The request and the frame in one read. -/
theorem not_drained_together :
    let es := opens [0x81, 0x81, 1, 2, 3, 4, 0x60]
    (system sha1OfKey acceptKey).Legal (start .initial) es ∧
      ¬ ∀ p ∈ (system sha1OfKey acceptKey).steps (start .initial) es,
        p.1.Drains sha1OfKey acceptKey p.2 := by
  intro es
  refine ⟨by decide +kernel, fun hdrains => ?_⟩
  have hrun : ((system sha1OfKey acceptKey).run (start .initial) es).Ends
      (fun s => s.phase = .idle ∧ s.ws.status_ = .CONNECT ∧ s.ws.headerRead_ = false ∧
        s.ws.inputBuffer.readable = [0x81, 0x81, 1, 2, 3, 4, 0x60]) fun _ => False := by
    decide +kernel
  have hstart : (start .initial).Drained := fun _ hconnect => nomatch hconnect
  have hdrained := (system sha1OfKey acceptKey).ends_of_steps hstart hdrains
  obtain ⟨s, hs, hidle, hconnect, hread, hinput⟩ := hrun.exists_ok
  rw [hs, Except.ends_ok] at hdrained
  refine hdrained hidle hconnect ?_
  unfold WebSocketConnection.HasNext
  rw [hread, hinput]
  exact ⟨⟨⟨true, 0, 1, some [1, 2, 3, 4], .short, 1, by decide, by decide, by simp, by decide⟩,
    [0x61], rfl⟩, [], by decide⟩

end Lifecycle
end WsEngine
