import WsEngine.Machine.Runs
import WsEngine.Ws.Encode
import WsEngine.Ws.SendsStop

/-! # Reassembly of messages

A frame sequence, the messages it stands for (`reference`), and the messages that the connection
delivers (`delivered`). The two differ by what is left in `decodeBuf_` when a control frame with a
payload finds it empty: the payload stays there, in front of the next message. -/
set_option autoImplicit false

namespace WsEngine

/-- What was received of a message that is not complete: its bytes, and whether it is binary. -/
abbrev Progress := Option (Bytes × Bool)

def Progress.received (m : Progress) : Bytes := m.elim [] Prod.fst

namespace Frame

def extend (f : Frame) : Progress → Bytes × Bool
  | none => (f.payload, f.kind = .binary)
  | some (received, isBinary) => (received ++ f.payload, isBinary)

def Completes (f : Frame) : Prop := f.kind.isControl = false ∧ f.isFin = true

instance (f : Frame) : Decidable f.Completes := inferInstanceAs (Decidable (_ ∧ _))

def advance (m : Progress) (f : Frame) : Progress :=
  if f.kind.isControl then m else if f.isFin then none else some (f.extend m)

def Follows (f : Frame) (m : Progress) : Prop :=
  match f.kind with
  | .continuation => m.isSome = true
  | .text | .binary => m = none
  | .ping | .pong => True

instance (f : Frame) (m : Progress) : Decidable (f.Follows m) := by
  unfold Follows
  split <;> infer_instance

def Legal : Progress → List Frame → Prop
  | _, [] => True
  | m, f :: fs => f.Follows m ∧ Legal (advance m f) fs

instance decidableLegal : (m : Progress) → (fs : List Frame) → Decidable (Legal m fs)
  | _, [] => isTrue trivial
  | m, f :: fs =>
    have := decidableLegal (advance m f) fs
    inferInstanceAs (Decidable (f.Follows m ∧ Legal (advance m f) fs))

/-- The messages of a frame sequence: one for each completed message, with the payloads of its own
frames. -/
def reference : Progress → List Frame → List (Bytes × Bool)
  | _, [] => []
  | m, f :: fs => (if f.Completes then [f.extend m] else []) ++ reference (advance m f) fs

/-- What is left in front of the message, by control frames that found the buffer empty. -/
def strayAfter (stray : Bytes) (m : Progress) (f : Frame) : Bytes :=
  if f.kind.isControl then (if stray ++ m.received = [] then f.payload else stray)
  else if f.isFin then [] else stray

/-- What is delivered instead. -/
def delivered : Bytes → Progress → List Frame → List (Bytes × Bool)
  | _, _, [] => []
  | stray, m, f :: fs =>
    (if f.Completes then [(stray ++ (f.extend m).1, (f.extend m).2)] else []) ++
      delivered (strayAfter stray m f) (advance m f) fs

/-! ## When the two are the same -/

/-- Behind a control frame with a payload that comes when nothing of a message is held, no message is
completed. -/
def Apart (m : Progress) (fs : List Frame) : Prop :=
  ∀ before f after, fs = before ++ f :: after → f.kind.isControl = true → f.payload ≠ [] →
    (before.foldl advance m).received = [] → ∀ g ∈ after, ¬ g.Completes

theorem apart_nil (m : Progress) : Apart m [] := by
  intro before f after h
  cases before <;> cases h

theorem apart_cons (m : Progress) (f : Frame) (fs : List Frame) :
    Apart m (f :: fs) ↔ (f.kind.isControl = true → f.payload ≠ [] → m.received = [] →
      ∀ g ∈ fs, ¬ g.Completes) ∧ Apart (advance m f) fs := by
  constructor
  · intro h
    refine ⟨fun hc hp hm => h [] f fs rfl hc hp hm, ?_⟩
    intro before g after hfs
    exact h (f :: before) g after (by rw [hfs, List.cons_append])
  · rintro ⟨hfirst, hrest⟩ before g after hfs
    cases before with
    | nil =>
      cases hfs
      exact hfirst
    | cons b before =>
      cases hfs
      exact hrest before g after rfl

instance decidableApart : (m : Progress) → (fs : List Frame) → Decidable (Apart m fs)
  | m, [] => isTrue (apart_nil m)
  | m, f :: fs =>
    have := decidableApart (advance m f) fs
    decidable_of_iff _ (apart_cons m f fs).symm

theorem advance_control {f : Frame} (h : f.kind.isControl = true) (m : Progress) :
    advance m f = m := if_pos h

theorem not_completes_control {f : Frame} (h : f.kind.isControl = true) : ¬ f.Completes := by
  rintro ⟨hdata, -⟩
  rw [h] at hdata
  cases hdata

/-- **Delivered messages** are the right ones iff nothing stray gets in front of one. -/
theorem delivered_eq_iff (stray : Bytes) (m : Progress) (fs : List Frame) :
    delivered stray m fs = reference m fs ↔
      (stray = [] ∨ ∀ g ∈ fs, ¬ g.Completes) ∧ Apart m fs := by
  induction fs generalizing stray m with
  | nil => exact iff_of_true rfl ⟨.inr (by simp), apart_nil m⟩
  | cons f fs ih =>
    rw [apart_cons, delivered, reference]
    by_cases hc : f.kind.isControl = true
    · have hno := not_completes_control hc
      have hall : (∀ g ∈ f :: fs, ¬ g.Completes) ↔ ∀ g ∈ fs, ¬ g.Completes := by simp [hno]
      rw [if_neg hno, if_neg hno, List.nil_append, List.nil_append, ih, hall, advance_control hc,
        strayAfter, if_pos hc]
      by_cases hempty : stray ++ m.received = []
      · obtain ⟨hs, hm⟩ := List.append_eq_nil_iff.mp hempty
        rw [if_pos hempty]
        simp only [hs, hm, hc, true_or, true_and, true_imp_iff]
        by_cases hp : f.payload = [] <;> simp [hp]
      · rw [if_neg hempty]
        by_cases hs : stray = []
        · have hm : m.received ≠ [] := fun hm => hempty (by rw [hs, hm, List.append_nil])
          simp [hs, hm]
        · simp only [hs, false_or]
          exact ⟨fun h => ⟨h.1, fun _ _ _ => h.1, h.2⟩, fun h => ⟨h.1, h.2.2⟩⟩
    · have hfirst : (f.kind.isControl = true → f.payload ≠ [] → m.received = [] →
          ∀ g ∈ fs, ¬ g.Completes) ↔ True := by simp [hc]
      rw [hfirst, true_and, strayAfter, if_neg hc]
      by_cases hfin : f.isFin = true
      · have hcomp : f.Completes := ⟨by simpa using hc, hfin⟩
        have hadvance : advance m f = none := (if_neg hc).trans (if_pos hfin)
        rw [if_pos hcomp, if_pos hcomp, if_pos hfin, hadvance, List.singleton_append,
          List.singleton_append, List.cons.injEq, ih]
        have hhead : (stray ++ (f.extend m).1, (f.extend m).2) = f.extend m ↔ stray = [] := by
          constructor
          · intro h
            exact List.append_left_eq_self.mp (congrArg Prod.fst h)
          · intro h
            rw [h, List.nil_append]
        rw [hhead]
        simp [hcomp]
      · have hcomp : ¬ f.Completes := fun h => hfin h.2
        have hall : (∀ g ∈ f :: fs, ¬ g.Completes) ↔ ∀ g ∈ fs, ¬ g.Completes := by simp [hcomp]
        rw [if_neg hcomp, if_neg hcomp, if_neg hfin, List.nil_append, List.nil_append, ih, hall]

theorem extend_fst (f : Frame) (m : Progress) : (f.extend m).1 = m.received ++ f.payload := by
  cases m <;> rfl

theorem length_le_flatMap_encode (fs : List Frame) :
    fs.length ≤ (fs.flatMap encode).length := by
  induction fs with
  | nil => exact le_refl _
  | cons f fs ih =>
    have hpos := List.length_pos_iff.mpr f.encode_ne_nil
    rw [List.flatMap_cons, List.length_append, List.length_cons]
    omega

end Frame

/-! ## What the connection delivers -/

def messages (trace : List Effect) : List (Bytes × Bool) :=
  trace.filterMap fun
    | .message payload isBinary => some (payload, isBinary)
    | _ => none

theorem messages_append (trace more : List Effect) :
    messages (trace ++ more) = messages trace ++ messages more := List.filterMap_append

/-- `fragmentedOpCode_` while a message is received. -/
def Progress.opcode : Progress → ℕ
  | none => 0
  | some (_, isBinary) => if isBinary then 2 else 1

namespace Decoder

/-- Between two frames, with the bytes `rest` to come. -/
structure At (d : Decoder) (stray : Bytes) (m : Progress) (rest : Bytes) : Prop where
  calm : d.Calm
  wire : d.Wire true
  callback : d.messageCallback.isSome = true
  header : d.header = none
  wanted : d.wanted = 0
  input : d.input = rest
  assembly : d.assembly = stray ++ m.received
  fragmented : d.fragmentedOpCode = m.opcode

theorem not_closed_of_wire {d : Decoder} (h : d.Wire true) : ¬ Closed d.trace := by
  rintro ⟨e, he, hc⟩
  cases e with
  | send bytes =>
    have hmem : bytes ∈ sends d.trace := List.mem_filterMap.mpr ⟨_, he, rfl⟩
    have hopen := h.handed bytes hmem
    rw [show isClose bytes = true from hc] at hopen
    cases hopen
  | message _ _ | ping _ | pong _ | stopRead | closeTcp | frame | protocolError => cases hc

theorem ahead_encode {d : Decoder} (hh : d.header = none) {f : Frame} {rest : Bytes}
    (hi : d.input = f.encode ++ rest) :
    d.ahead = some ⟨f.header, f.payload, { d with
      input := rest
      header := some f.header
      wanted := f.form.code f.payload.length
      assembly := d.assembly ++ f.payload
      trace := d.trace ++ [.frame] }⟩ := by
  have hbody : d.input = f.encodeHeader ++ (f.header.unmask f.payload ++ rest) := by
    rw [hi, Frame.encode, List.append_assoc]
  have hread : d.readHeader = .ok (f.header, { d with
      input := f.header.unmask f.payload ++ rest
      header := some f.header
      wanted := f.form.code f.payload.length }) := by
    rw [readHeader_none hh]
    unfold readFront
    rw [hbody, f.front_encode]
    simp only [List.drop_left]
    rfl
  have hlen : f.header.length = (f.header.unmask f.payload).length := by
    rw [Header.length_unmask]
    rfl
  have htake : (f.header.unmask f.payload ++ rest).take f.header.length =
      f.header.unmask f.payload := by
    rw [hlen, List.take_left]
  have hdrop : (f.header.unmask f.payload ++ rest).drop f.header.length = rest := by
    rw [hlen, List.drop_left]
  rw [ahead_of_readHeader hread (by rw [List.length_append]; omega)]
  unfold take
  rw [htake, hdrop, f.unmask_payload]
  rfl

theorem Wire.hear {d : Decoder} {o : Bool} (h : d.Wire o) (callback : Option Callback)
    {effect : Effect} (hne : ∀ bytes, effect ≠ .send bytes) : (d.hear callback effect).Wire o := by
  unfold Decoder.hear
  split
  · exact h.emit effect hne
  · exact h

theorem hear_eq (d : Decoder) (callback : Option Callback) (effect : Effect) :
    d.hear callback effect =
      { d with trace := d.trace ++ if callback.isSome then [effect] else [] } := by
  unfold hear
  split
  · rfl
  · rw [List.append_nil]

theorem opcode_some {m : Progress} (h : m.isSome = true) : m.opcode = 1 ∨ m.opcode = 2 := by
  obtain ⟨⟨received, isBinary⟩, rfl⟩ := Option.isSome_iff_exists.mp h
  cases isBinary
  · exact .inl rfl
  · exact .inr rfl

theorem not_erroneous_of_follows {d : Decoder} {f : Frame} {m : Progress}
    (hd : d.fragmentedOpCode = m.opcode) (hf : f.Follows m) : ¬ d.Erroneous f.header := by
  unfold Frame.Follows at hf
  unfold Erroneous Frame.header
  cases hk : f.kind with
  | continuation =>
    rw [hk] at hf
    change ¬ d.fragmentedOpCode = 0
    have := opcode_some hf
    omega
  | text =>
    rw [hk] at hf
    change ¬ d.fragmentedOpCode ≠ 0
    rw [hd, show m = none from hf]
    exact not_not_intro rfl
  | binary =>
    rw [hk] at hf
    change ¬ d.fragmentedOpCode ≠ 0
    rw [hd, show m = none from hf]
    exact not_not_intro rfl
  | ping =>
    have hfin := (f.control (by rw [hk]; rfl)).1
    change ¬ f.isFin = false
    rw [hfin]
    exact Bool.false_ne_true.symm
  | pong =>
    have hfin := (f.control (by rw [hk]; rfl)).1
    change ¬ f.isFin = false
    rw [hfin]
    exact Bool.false_ne_true.symm

theorem handOver_control {f : Frame} (hc : f.kind.isControl = true) (d : Decoder) :
    d.handOver f.header = d := by
  apply handOver_of_not
  rintro ⟨-, hcomp⟩
  have hop := (FrameKind.isControl_iff f.kind).mp hc
  change (f.kind.opcode = 0 ∧ _ ∨ f.kind.opcode = 1 ∨ f.kind.opcode = 2) at hcomp
  omega

/-- A control frame leaves its payload behind if nothing was there before. -/
theorem heard_ping {f : Frame} (hk : f.kind = .ping) (d : Decoder) (old : Bytes) :
    Taken.heard ⟨f.header, f.payload, d⟩ old = { d with
      output := []
      assembly := if old = [] then f.payload else old
      wanted := 0
      header := none
      trace := d.trace ++ ((if d.pingCallback.isSome then [.ping f.payload] else []) ++
        [.send (d.output ++ 0x8a :: UInt8.ofNat f.payload.length :: f.payload)]) } := by
  have hc : f.kind.isControl = true := by rw [hk]; rfl
  obtain ⟨-, hlen⟩ := f.control hc
  have hop : f.header.opcode = 9 := congrArg FrameKind.opcode hk
  have hheard : Taken.heard ⟨f.header, f.payload, d⟩ old =
      ((d.hear d.pingCallback (.ping f.payload)).pong f.payload).dropControl old f.payload := by
    simp only [Taken.heard, finish, told, hop, handOver_control hc]
  rw [hheard, hear_eq, pong, if_neg (by omega), ← List.append_assoc]
  rfl

theorem heard_pong {f : Frame} (hk : f.kind = .pong) (d : Decoder) (old : Bytes) :
    Taken.heard ⟨f.header, f.payload, d⟩ old = { d with
      assembly := if old = [] then f.payload else old
      wanted := 0
      header := none
      trace := d.trace ++ if d.pongCallback.isSome then [.pong f.payload] else [] } := by
  have hc : f.kind.isControl = true := by rw [hk]; rfl
  have hop : f.header.opcode = 10 := congrArg FrameKind.opcode hk
  have hheard : Taken.heard ⟨f.header, f.payload, d⟩ old =
      (d.hear d.pongCallback (.pong f.payload)).dropControl old f.payload := by
    simp only [Taken.heard, finish, told, hop, handOver_control hc]
  rw [hheard, hear_eq]
  rfl

theorem messageOpcode_extend {d : Decoder} {f : Frame} {m : Progress}
    (hd : d.fragmentedOpCode = m.opcode) (hf : f.Follows m) (hc : f.kind.isControl = false) :
    d.messageOpcode f.header = Progress.opcode (some (f.extend m)) := by
  unfold messageOpcode
  unfold Frame.Follows at hf
  cases hk : f.kind with
  | continuation =>
    rw [hk] at hf
    obtain ⟨⟨received, isBinary⟩, rfl⟩ := Option.isSome_iff_exists.mp hf
    have hop : f.header.opcode = 0 := congrArg FrameKind.opcode hk
    rw [if_pos hop, hd]
    rfl
  | text =>
    rw [hk] at hf
    cases hf
    have hop : f.header.opcode = 1 := congrArg FrameKind.opcode hk
    rw [if_neg (by omega), hop]
    simp [Frame.extend, hk, Progress.opcode]
  | binary =>
    rw [hk] at hf
    cases hf
    have hop : f.header.opcode = 2 := congrArg FrameKind.opcode hk
    rw [if_neg (by omega), hop]
    simp [Frame.extend, hk, Progress.opcode]
  | ping | pong =>
    rw [hk] at hc
    cases hc

theorem completes_iff {d : Decoder} {f : Frame} {m : Progress} (hd : d.fragmentedOpCode = m.opcode)
    (hf : f.Follows m) (hc : f.kind.isControl = false) :
    d.Completes f.header ↔ f.isFin = true := by
  refine ⟨fun h => h.1, fun hfin => ⟨hfin, ?_⟩⟩
  unfold Frame.Follows at hf
  cases hk : f.kind with
  | continuation =>
    rw [hk] at hf
    refine .inl ⟨congrArg FrameKind.opcode hk, .inr ?_⟩
    rw [hd]
    exact opcode_some hf
  | text => exact .inr (.inl (congrArg FrameKind.opcode hk))
  | binary => exact .inr (.inr (congrArg FrameKind.opcode hk))
  | ping | pong =>
    rw [hk] at hc
    cases hc

theorem opcode_data {f : Frame} (hc : f.kind.isControl = false) :
    ¬ (f.header.opcode = 9 ∨ f.header.opcode = 10) := by
  intro h
  rw [(FrameKind.isControl_iff f.kind).mpr h] at hc
  cases hc

theorem told_data {d : Decoder} {f : Frame} {m : Progress} (hd : d.fragmentedOpCode = m.opcode)
    (hf : f.Follows m) (hc : f.kind.isControl = false) :
    d.told f.header f.payload =
      (if d.Completes f.header then d.messageCallback else none,
        .message d.assembly (f.extend m).2) := by
  have hop := opcode_data hc
  have hbinary : decide (d.messageOpcode f.header = 2) = (f.extend m).2 := by
    rw [messageOpcode_extend hd hf hc]
    cases h : (f.extend m).2 <;> simp [Progress.opcode, h]
  unfold told
  split
  · next h9 => exact absurd (.inl h9) hop
  · next h10 => exact absurd (.inr h10) hop
  · rw [hbinary]

theorem finish_data {f : Frame} (hc : f.kind.isControl = false) (d : Decoder) (old : Bytes) :
    d.finish f.header old f.payload =
      { d with fragmentedOpCode := if f.isFin then 0 else d.messageOpcode f.header }.cleared := by
  have hop := opcode_data hc
  unfold finish
  split
  · next h9 => exact absurd (.inl h9) hop
  · next h10 => exact absurd (.inr h10) hop
  · rfl

/-- A data frame takes the assembly with it if it is the last of its message. -/
theorem heard_data {d : Decoder} {f : Frame} {m : Progress} (hd : d.fragmentedOpCode = m.opcode)
    (hf : f.Follows m) (hc : f.kind.isControl = false) (old : Bytes) :
    Taken.heard ⟨f.header, f.payload, d⟩ old = { d with
      assembly := if f.isFin then [] else d.assembly
      fragmentedOpCode := if f.isFin then 0 else Progress.opcode (some (f.extend m))
      wanted := 0
      header := none
      trace := d.trace ++ if f.isFin = true ∧ d.messageCallback.isSome = true then
        [.message d.assembly (f.extend m).2] else [] } := by
  have hcomp := completes_iff hd hf hc
  have hmsg := messageOpcode_extend hd hf hc
  unfold Taken.heard
  rw [finish_data hc, told_data hd hf hc, hear_eq]
  by_cases hfin : f.isFin = true
  · have hcomp' := hcomp.mpr hfin
    simp only [if_pos hcomp', hfin, true_and]
    unfold handOver
    rw [if_pos hcomp']
    rfl
  · have hcomp' : ¬ d.Completes f.header := fun h => hfin (hcomp.mp h)
    have hnone : ¬ (f.isFin = true ∧ d.messageCallback.isSome = true) := fun h => hfin h.1
    rw [if_neg hfin, if_neg hfin, if_neg hfin, if_neg hcomp', if_neg hnone,
      handOver_of_not hcomp']
    simp only [Option.isSome_none, Bool.false_eq_true, if_false, List.append_nil]
    rw [hmsg]
    rfl

/-! ## One frame -/

/-- Between two frames, when of a message `m` was received and the bytes `rest` are to come. -/
structure Between (d : Decoder) (m : Progress) (rest : Bytes) : Prop where
  calm : d.Calm
  wire : d.Wire true
  header : d.header = none
  wanted : d.wanted = 0
  input : d.input = rest
  fragmented : d.fragmentedOpCode = m.opcode

/-- What a frame does apart from being taken up: the callbacks that are set, and the pong. -/
def effects (d : Decoder) (m : Progress) (f : Frame) : List Effect :=
  match f.kind with
  | .ping =>
    (if d.pingCallback.isSome then [.ping f.payload] else []) ++
      [.send (0x8a :: UInt8.ofNat f.payload.length :: f.payload)]
  | .pong => if d.pongCallback.isSome then [.pong f.payload] else []
  | .continuation | .text | .binary =>
    if f.isFin = true ∧ d.messageCallback.isSome = true then
      [.message (d.assembly ++ f.payload) (f.extend m).2]
    else []

def after (d : Decoder) (m : Progress) (f : Frame) (rest : Bytes) : Decoder :=
  { d with
    input := rest
    assembly :=
      if f.kind.isControl then if d.assembly = [] then f.payload else d.assembly
      else if f.isFin then [] else d.assembly ++ f.payload
    fragmentedOpCode := (Frame.advance m f).opcode
    trace := d.trace ++ .frame :: d.effects m f }

theorem effects_ping {f : Frame} (hk : f.kind = .ping) (d : Decoder) (m : Progress) :
    d.effects m f = (if d.pingCallback.isSome then [.ping f.payload] else []) ++
      [.send (0x8a :: UInt8.ofNat f.payload.length :: f.payload)] := by
  simp only [effects, hk]

theorem effects_pong {f : Frame} (hk : f.kind = .pong) (d : Decoder) (m : Progress) :
    d.effects m f = if d.pongCallback.isSome then [.pong f.payload] else [] := by
  simp only [effects, hk]

theorem effects_data {f : Frame} (hc : f.kind.isControl = false) (d : Decoder) (m : Progress) :
    d.effects m f = if f.isFin = true ∧ d.messageCallback.isSome = true then
      [.message (d.assembly ++ f.payload) (f.extend m).2] else [] := by
  unfold effects
  cases hk : f.kind with
  | continuation | text | binary => rfl
  | ping | pong =>
    rw [hk] at hc
    cases hc

/-- **One frame** is one activation. -/
theorem Between.activate_eq {d : Decoder} {rest : Bytes} {m : Progress} {f : Frame}
    (h : d.Between m (f.encode ++ rest)) (hf : f.Follows m) :
    d.activate = (d.after m f rest).recurse := by
  have ha := ahead_encode h.header h.input
  have hact := Decoder.activate_eq h.calm.listening h.calm.status ha
  have hout : d.output = [] := h.wire.output.mpr rfl
  rw [result_heard _ _ (not_erroneous_of_follows h.fragmented hf) (by
    change f.kind.opcode ≠ 8
    cases f.kind <;> decide)] at hact
  rw [hact]
  refine congrArg recurse ?_
  unfold after
  by_cases hc : f.kind.isControl = true
  · rw [Frame.advance_control hc, if_pos hc]
    cases hk : f.kind with
    | continuation | text | binary =>
      rw [hk] at hc
      cases hc
    | ping =>
      rw [heard_ping hk, effects_ping hk]
      simp only [hout, ← h.fragmented, ← h.header, ← h.wanted, List.nil_append, List.append_assoc]
      rw [List.cons_append]
      rfl
    | pong =>
      rw [heard_pong hk, effects_pong hk]
      simp only [← h.fragmented, ← h.header, ← h.wanted, List.append_assoc]
      rw [List.singleton_append]
  · have hdata : f.kind.isControl = false := by simpa using hc
    have hadvance : (Frame.advance m f).opcode =
        if f.isFin then 0 else Progress.opcode (some (f.extend m)) := by
      unfold Frame.advance
      rw [if_neg hc]
      split <;> rfl
    refine (heard_data (m := m) ?_ hf hdata d.assembly).trans ?_
    · exact h.fragmented
    · rw [effects_data hdata, if_neg hc, hadvance]
      simp only [← h.header, ← h.wanted, List.append_assoc, List.singleton_append]

theorem sends_effects (d : Decoder) (m : Progress) (f : Frame) :
    sends (d.effects m f) =
      if f.kind = .ping then [0x8a :: UInt8.ofNat f.payload.length :: f.payload] else [] := by
  unfold effects
  cases f.kind with
  | continuation | text | binary =>
    dsimp only
    split <;> rfl
  | ping =>
    dsimp only
    split <;> rfl
  | pong =>
    dsimp only
    split <;> rfl

theorem Between.after {d : Decoder} {rest : Bytes} {m : Progress} {f : Frame}
    (h : d.Between m (f.encode ++ rest)) : (d.after m f rest).Between (Frame.advance m f) rest := by
  refine ⟨⟨h.calm.status, h.calm.listening.congr rfl rfl rfl, .of_none h.header⟩,
    ⟨h.wire.status, h.wire.output, ?_⟩, h.header, h.wanted, rfl, rfl⟩
  intro b hb
  change b ∈ sends (d.trace ++ ([.frame] ++ d.effects m f)) at hb
  rw [sends_append, sends_append, sends_effects] at hb
  rcases List.mem_append.mp hb with hb | hb
  · exact h.wire.handed b hb
  · split at hb
    · rw [List.mem_singleton.mp hb]
      rfl
    · exact absurd hb List.not_mem_nil

/-! ## All frames -/

/-- The state after the frames. -/
def afterAll : Decoder → Progress → List Frame → Decoder
  | d, _, [] => d
  | d, m, f :: fs => (d.after m f (fs.flatMap Frame.encode)).afterAll (Frame.advance m f) fs

/-- One activation for each frame. -/
theorem Between.run {d : Decoder} {m : Progress} {fs : List Frame}
    (h : d.Between m (fs.flatMap Frame.encode)) (hne : fs ≠ []) (hf : Frame.Legal m fs) {n : ℕ}
    (hn : fs.length ≤ n) :
    Call.iterate activate n d = .returned (d.afterAll m fs) ∧ (d.afterAll m fs).Wire true := by
  induction fs generalizing d m n with
  | nil => exact absurd rfl hne
  | cons f fs ih =>
    obtain ⟨n, rfl⟩ := Nat.exists_eq_succ_of_ne_zero (Nat.ne_zero_of_lt hn)
    have hact := h.activate_eq hf.1
    have hafter := h.after
    cases fs with
    | nil =>
      have hret : d.activate = .returned (d.after m f []) := hact.trans (if_pos rfl)
      exact ⟨Call.iterate_returned n hret, hafter.wire⟩
    | cons g fs =>
      have hmore : (d.after m f ((g :: fs).flatMap Frame.encode)).input ≠ [] := fun hnil =>
        g.encode_ne_nil (List.append_eq_nil_iff.mp hnil).1
      have hagain : d.activate = .again (d.after m f ((g :: fs).flatMap Frame.encode)) :=
        hact.trans (if_neg hmore)
      obtain ⟨hy, hwire⟩ := ih hafter (List.cons_ne_nil _ _) hf.2 (Nat.le_of_succ_le_succ hn)
      exact ⟨(Call.iterate_again n hagain).trans hy, hwire⟩

/-- **All frames**, in any reads. -/
theorem Between.reads {d : Decoder} (h : d.Between none []) {fs : List Frame}
    (hf : Frame.Legal none fs) {chunks : List Bytes} (hne : ∀ b ∈ chunks, b ≠ [])
    (hchunks : chunks.flatten = fs.flatMap Frame.encode) :
    d.feed chunks =
      .returned ((d.receive (fs.flatMap Frame.encode)).afterAll none fs) := by
  cases fs with
  | nil =>
    cases chunks with
    | nil => exact congrArg Call.returned (receive_nil d).symm
    | cons b chunks =>
      exact absurd (List.append_eq_nil_iff.mp hchunks).1 (hne b List.mem_cons_self)
  | cons f fs =>
    have hbytes : (f :: fs).flatMap Frame.encode ≠ [] := fun hnil =>
      f.encode_ne_nil (List.append_eq_nil_iff.mp hnil).1
    have hread : (d.receive ((f :: fs).flatMap Frame.encode)).Between none
        ((f :: fs).flatMap Frame.encode) := by
      refine ⟨h.calm.receive _, h.wire.congr rfl rfl rfl, h.header, h.wanted, ?_, h.fragmented⟩
      change d.input ++ _ = _
      rw [h.input, List.nil_append]
    have hlen : (f :: fs).length ≤ (d.receive ((f :: fs).flatMap Frame.encode)).input.length + 2 := by
      have := Frame.length_le_flatMap_encode (f :: fs)
      rw [hread.input]
      omega
    obtain ⟨hx, hwire⟩ := hread.run (List.cons_ne_nil _ _) hf hlen
    generalize (f :: fs).flatMap Frame.encode = bytes at hchunks hbytes hread hx hwire
    have hparse : (d.receive bytes).parse =
        .returned ((d.receive bytes).afterAll none (f :: fs)) := by
      rw [parse_eq_iterate hread.calm (by rw [hread.wanted]; exact Nat.zero_le _), hx]
    have hone : d.feed [bytes] = .returned ((d.receive bytes).afterAll none (f :: fs)) := by
      unfold Decoder.feed
      rw [hparse]
      rfl
    have hagree : Agree (d.feed chunks) (d.feed [bytes]) :=
      agree_chunks h.calm hne (fun b hb => List.mem_singleton.mp hb ▸ hbytes)
        (by rw [hchunks, List.flatten_singleton])
    rw [hone] at hagree
    obtain ⟨t, ht, -, ht'⟩ | ⟨y, -, hy, hxy⟩ := hagree
    · exact absurd (ht.mono ht') (not_closed_of_wire hwire)
    · rw [hy, hxy]

/-! ## The messages -/

theorem At.between {d : Decoder} {stray rest : Bytes} {m : Progress} (h : d.At stray m rest) :
    d.Between m rest := ⟨h.calm, h.wire, h.header, h.wanted, h.input, h.fragmented⟩

theorem At.step {d : Decoder} {stray rest : Bytes} {m : Progress} {f : Frame}
    (h : d.At stray m (f.encode ++ rest)) :
    (d.after m f rest).At (Frame.strayAfter stray m f) (Frame.advance m f) rest ∧
      messages (d.after m f rest).trace = messages d.trace ++
        if f.Completes then [(stray ++ (f.extend m).1, (f.extend m).2)] else [] := by
  have hbetween := h.between.after
  have hassembly : d.assembly ++ f.payload = stray ++ (f.extend m).1 := by
    rw [Frame.extend_fst, ← List.append_assoc, ← h.assembly]
  have htrace : WsEngine.messages (d.after m f rest).trace =
      WsEngine.messages d.trace ++ WsEngine.messages (d.effects m f) :=
    messages_append d.trace (.frame :: d.effects m f)
  rw [htrace, List.append_cancel_left_eq]
  refine ⟨⟨hbetween.calm, hbetween.wire, h.callback, h.header, h.wanted, rfl, ?_, rfl⟩, ?_⟩
  · unfold Decoder.after Frame.strayAfter
    by_cases hc : f.kind.isControl = true
    · rw [Frame.advance_control hc]
      simp only [if_pos hc]
      rw [h.assembly]
      by_cases hnil : stray ++ m.received = []
      · rw [if_pos hnil, if_pos hnil, (List.append_eq_nil_iff.mp hnil).2, List.append_nil]
      · rw [if_neg hnil, if_neg hnil]
    · unfold Frame.advance
      simp only [if_neg hc]
      by_cases hfin : f.isFin = true
      · simp only [if_pos hfin]
        rfl
      · simp only [if_neg hfin]
        exact hassembly
  · unfold effects
    rw [hassembly]
    cases hk : f.kind with
    | continuation | text | binary =>
      have hcomp : f.Completes ↔ f.isFin = true ∧ d.messageCallback.isSome = true := by
        unfold Frame.Completes
        rw [hk, h.callback]
        simp [FrameKind.isControl]
      simp only [hcomp]
      split <;> rfl
    | ping | pong =>
      have hc : f.kind.isControl = true := by
        rw [hk]
        rfl
      rw [if_neg (Frame.not_completes_control hc)]
      dsimp only
      split <;> rfl

theorem At.messages {d : Decoder} {stray : Bytes} {m : Progress} {fs : List Frame}
    (h : d.At stray m (fs.flatMap Frame.encode)) :
    messages (d.afterAll m fs).trace = messages d.trace ++ Frame.delivered stray m fs := by
  induction fs generalizing d stray m with
  | nil => exact (List.append_nil _).symm
  | cons f fs ih =>
    have hnext : d.At stray m (f.encode ++ fs.flatMap Frame.encode) := h
    obtain ⟨hat, hmessages⟩ := hnext.step
    rw [afterAll, ih hat, hmessages, List.append_assoc]
    rfl

end Decoder

namespace WebSocketConnection

/-- What is delivered of a legal frame sequence. -/
theorem feed_delivered {ws : WebSocketConnection} (h : ws.Fresh) (hl : ws.Listening)
    (hcallback : ws.wsMessageCallback_.isSome = true) (hinput : ws.inputBuffer.readable = [])
    (httpParserExecute : WebSocketConnection → Bytes → ℕ × WebSocketConnection) {fs : List Frame}
    (hf : Frame.Legal none fs) {chunks : List Bytes} (hne : ∀ b ∈ chunks, b ≠ [])
    (hchunks : chunks.flatten = fs.flatMap Frame.encode) :
    ∃ w, ws.feed httpParserExecute chunks = .returned w ∧
      messages w.trace = Frame.delivered [] none fs := by
  have hpast : ws.status_ ≠ .INITIAL := by
    rw [h.status]
    exact nofun
  have hat : ws.abs.At [] none [] :=
    ⟨h.calm hl, h.wire, hcallback, if_neg (by rw [h.header]; decide), h.wanted, hinput, h.decode,
      h.fragmented⟩
  have hx := hat.between.reads hf hne hchunks
  have hread : (ws.abs.receive (fs.flatMap Frame.encode)).At [] none (fs.flatMap Frame.encode) := by
    refine ⟨hat.calm.receive _, hat.wire.congr rfl rfl rfl, hat.callback, hat.header, hat.wanted, ?_,
      hat.assembly, hat.fragmented⟩
    change ws.abs.input ++ _ = _
    rw [hat.input, List.nil_append]
  have hmessages := hread.messages
  have htrace : (ws.abs.receive (fs.flatMap Frame.encode)).trace = [] := h.trace
  rw [htrace] at hmessages
  rw [← abs_feed httpParserExecute hpast] at hx
  obtain ⟨w, hw, hwx⟩ := Call.map_eq_returned hx
  rw [← hwx] at hmessages
  exact ⟨w, hw, hmessages⟩

/-- **Reassembly.** Over every stream that the indices have room for, the messages of a legal frame
sequence are delivered, and nothing else, iff no control frame with a payload comes while nothing of a
message is held and a message is completed later. -/
theorem reassembles_iff {ws : WebSocketConnection} (h : ws.Fresh) (hl : ws.Listening)
    (hsmall : ws.Small 4) (hcallback : ws.wsMessageCallback_.isSome = true)
    (hinput : ws.inputBuffer.readable = [])
    (httpParserExecute : Machine.WebSocketConnection → Bytes → ℕ × Machine.WebSocketConnection)
    {fs : List Frame} (hf : Frame.Legal none fs) {chunks : List Bytes} (hne : ∀ b ∈ chunks, b ≠ [])
    (hchunks : chunks.flatten = fs.flatMap Frame.encode) (hroom : ws.RoomFor chunks) :
    (∃ m, ws.machine.feed httpParserExecute chunks = .returned m ∧
      messages m.trace = Frame.reference none fs) ↔ Frame.Apart none fs := by
  have hpast : ws.status_ ≠ .INITIAL := by
    rw [h.status]
    exact nofun
  obtain ⟨w, hw, hdelivered⟩ := feed_delivered h hl hcallback hinput (fun ws _ => (0, ws)) hf hne hchunks
  have hmachine := hsmall.feed_returned (fun ws _ => (0, ws)) httpParserExecute hl.modest hpast hroom hw
  have hapart := Frame.delivered_eq_iff [] none fs
  rw [eq_self_iff_true, true_or, true_and] at hapart
  rw [← hapart, ← hdelivered]
  constructor
  · rintro ⟨m, hm, hmsg⟩
    cases hmachine.symm.trans hm
    exact hmsg
  · intro hmsg
    exact ⟨w.machine, hmachine, hmsg⟩

/-- A ping between the fragments of a message, the first of them masked, in two reads. -/
theorem reassembles_iff_fragments :
    let fs : List Frame := [
      ⟨false, .text, some [1, 2, 3, 4], .short, [0x61], by simp, by decide, by decide⟩,
      ⟨true, .ping, none, .short, [0x70], by simp, by decide, by decide⟩,
      ⟨true, .continuation, none, .medium, [0x62], by simp, by decide, by decide⟩]
    let chunks : List Bytes := [
      [0x01, 0x81, 1, 2, 3, 4, 0x60, 0x89], [0x01, 0x70, 0x80, 0x7e, 0x00, 0x01, 0x62]]
    ∃ m, (connected (some fun _ => []) none none).machine.feed (fun ws _ => (0, ws)) chunks =
        .returned m ∧ messages m.trace = Frame.reference none fs := by
  intro fs chunks
  have hl : (connected (some fun _ => []) none none).Listening := by
    refine ⟨?_, nofun, nofun⟩
    rintro answer ⟨⟩ trace
    rfl
  have hroom : (connected (some fun _ => []) none none).HasRoom chunks.flatten.length :=
    connected_hasRoom _ _ _ (by decide)
  exact (reassembles_iff (connected_fresh _ _ _) hl (connected_small _ _ _) rfl
    (Buffer.readable_ofSize _) _ (show Frame.Legal none fs by decide)
    (show ∀ b ∈ chunks, b ≠ [] by decide) (by decide +kernel) hroom.roomFor).mpr (by decide)

/-- A ping with one byte, and then a text message: the byte is delivered with the text. -/
theorem not_reassembles_ping :
    let fs : List Frame := [
      ⟨true, .ping, none, .short, [0x70], by simp, by decide, by decide⟩,
      ⟨true, .text, none, .short, [0x61], by simp, by decide, by decide⟩]
    let chunks : List Bytes := [[0x89, 0x01, 0x70, 0x81, 0x01, 0x61]]
    Frame.Legal none fs ∧ chunks.flatten = fs.flatMap Frame.encode ∧
      Frame.reference none fs = [([0x61], false)] ∧
      messages ((connected (some fun _ => []) none none).machine.feed (fun ws _ => (0, ws))
        chunks).state.trace = [([0x70, 0x61], false)] ∧
      ¬ ∃ m, (connected (some fun _ => []) none none).machine.feed (fun ws _ => (0, ws)) chunks =
        .returned m ∧ messages m.trace = Frame.reference none fs := by
  intro fs chunks
  have hreference : Frame.reference none fs = [([0x61], false)] := by decide
  have hdelivered : messages ((connected (some fun _ => []) none none).machine.feed
      (fun ws _ => (0, ws)) chunks).state.trace = [([0x70, 0x61], false)] := by decide +kernel
  refine ⟨by decide, by decide +kernel, hreference, hdelivered, ?_⟩
  rintro ⟨m, hm, hmessages⟩
  rw [hm, Call.state, hmessages, hreference] at hdelivered
  exact absurd hdelivered (by decide)

end WebSocketConnection
end WsEngine
