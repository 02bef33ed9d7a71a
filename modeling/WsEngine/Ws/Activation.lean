import WsEngine.Ws.Decoder

/-! # What one activation does

The cases of `Decoder.activate`. Either no frame is complete: the input is empty, has a reserved bit
in front, or does not hold a whole header or a whole payload. Or `ahead` gives a complete frame, and
the frame is refused, is a close frame, or is told to the application and done with. -/
set_option autoImplicit false

namespace WsEngine
namespace Decoder

/-- A complete frame, and the state in which `onFrame` gets it. -/
structure Taken where
  header : Header
  payload : Bytes
  state : Decoder

/-- The frame that the next activation completes. -/
def ahead (d : Decoder) : Option Taken :=
  match d.readHeader with
  | .ok (h, d) =>
    if d.input.length < h.length then none
    else some ⟨h, h.unmask (d.input.take h.length), d.take h⟩
  | .error _ => none

def Reserved (d : Decoder) : Prop := d.header = none ∧ front d.input = .reserved

/-- The end of an activation that did not return early. -/
def recurse (d : Decoder) : Call Decoder := if d.input = [] then .returned d else .again d

@[simp] theorem state_recurse (d : Decoder) : d.recurse.state = d := by
  unfold recurse
  split <;> rfl

theorem recurse_again {d d' : Decoder} (h : d.recurse = .again d') : d = d' ∧ d.input ≠ [] := by
  unfold recurse at h
  split at h
  · cases h
  · next hi => exact ⟨Call.again.inj h, hi⟩

theorem recurse_returned {d d' : Decoder} (h : d.recurse = .returned d') :
    d = d' ∧ d.input = [] := by
  unfold recurse at h
  split at h
  · next hi =>
    cases h
    exact ⟨rfl, hi⟩
  · cases h

/-- A frame that `onFrame` refuses with a protocol error. -/
def Erroneous (d : Decoder) (h : Header) : Prop :=
  match h.opcode with
  | 0 => d.fragmentedOpCode = 0
  | 1 | 2 => d.fragmentedOpCode ≠ 0
  | 8 => False
  | 9 | 10 => h.isFin = false
  | _ => True

instance (d : Decoder) : Decidable d.Reserved := inferInstanceAs (Decidable (_ ∧ _))

instance (d : Decoder) (h : Header) : Decidable (d.Erroneous h) := by
  unfold Erroneous
  split <;> infer_instance

def messageOpcode (d : Decoder) (h : Header) : ℕ :=
  if h.opcode = 0 then d.fragmentedOpCode else h.opcode

def Completes (d : Decoder) (h : Header) : Prop :=
  h.isFin = true ∧ (h.opcode = 0 ∧ (d.messageCallback.isNone ∨ d.fragmentedOpCode = 1 ∨
    d.fragmentedOpCode = 2) ∨ h.opcode = 1 ∨ h.opcode = 2)

instance (d : Decoder) (h : Header) : Decidable (d.Completes h) :=
  inferInstanceAs (Decidable (_ ∧ _))

/-- The callback that a frame is told to, and the effect that this is. -/
def told (d : Decoder) (h : Header) (payload : Bytes) : Option Callback × Effect :=
  match h.opcode with
  | 9 => (d.pingCallback, .ping payload)
  | 10 => (d.pongCallback, .pong payload)
  | _ => (if d.Completes h then d.messageCallback else none,
      .message d.assembly (d.messageOpcode h = 2))

def handOver (d : Decoder) (h : Header) : Decoder :=
  { d with assembly := if d.Completes h then [] else d.assembly }

/-- What the application calls on the connection when it is told of the frame. -/
def Taken.answers (t : Taken) : List ApiCall :=
  (t.state.handOver t.header).answers (t.state.told t.header t.payload).1
    (t.state.told t.header t.payload).2

def finish (d : Decoder) (h : Header) (old payload : Bytes) : Decoder :=
  match h.opcode with
  | 9 => (d.pong payload).dropControl old payload
  | 10 => d.dropControl old payload
  | _ => { d with fragmentedOpCode := if h.isFin then 0 else d.messageOpcode h }.cleared

/-! ## Frames -/

theorem onFrame_refused {d : Decoder} {h : Header} (old payload : Bytes) (he : d.Erroneous h) :
    d.onFrame h old payload = .error (.returned d.protocolError) := by
  unfold Erroneous at he
  split at he
  · next hop =>
    simp only [onFrame, hop, onContinuation, if_pos he]
    rfl
  · next hop =>
    simp only [onFrame, hop, onData, if_pos he]
    rfl
  · next hop =>
    simp only [onFrame, hop, onData, if_pos he]
    rfl
  · exact he.elim
  · next hop =>
    simp only [onFrame, hop, onPing, he]
    rfl
  · next hop =>
    simp only [onFrame, hop, onPong, he]
    rfl
  · unfold onFrame
    split
    all_goals first | rfl | contradiction

theorem onFrame_close {d : Decoder} {h : Header} (old payload : Bytes) (hop : h.opcode = 8) :
    d.onFrame h old payload = d.onClose := by
  unfold onFrame
  simp only [hop]

/-- What follows a callback may use that the callback changes nothing else. -/
theorem runCallback_bind {d : Decoder} {callback : Option Callback} {effect : Effect}
    {k k' : Decoder → Except (Call Decoder) Decoder} (h : ∀ x, d.Sent x → k x = k' x) :
    orAbort (d.runCallback callback effect) >>= k =
      orAbort (d.runCallback callback effect) >>= k' := by
  have hs := sent_runCallback d callback effect
  cases hr : d.runCallback callback effect with
  | error e => rfl
  | ok x =>
    rw [hr] at hs
    exact h x hs

theorem handOver_of_not {d : Decoder} {h : Header} (hc : ¬ d.Completes h) : d.handOver h = d := by
  unfold handOver
  rw [if_neg hc]

theorem onContinuation_told {d : Decoder} {h : Header} (hop : h.opcode = 0)
    (hf : d.fragmentedOpCode ≠ 0) :
    d.onContinuation h.isFin =
      orAbort ((d.handOver h).runCallback (if d.Completes h then d.messageCallback else none)
        (.message d.assembly (d.messageOpcode h = 2))) >>= fun x =>
        .ok { x with fragmentedOpCode := if h.isFin then 0 else x.messageOpcode h }.cleared := by
  have hmsg : d.messageOpcode h = d.fragmentedOpCode := if_pos hop
  unfold onContinuation
  rw [if_neg hf, hmsg]
  by_cases hfin : h.isFin = true
  · rw [if_pos hfin]
    unfold deliverFragments
    by_cases hc : d.messageCallback.isNone ∨ d.fragmentedOpCode = 1 ∨ d.fragmentedOpCode = 2
    · have hcomp : d.Completes h := ⟨hfin, .inl ⟨hop, hc⟩⟩
      rw [if_pos hc, if_pos hcomp]
      simp only [handOver, if_pos hcomp, if_pos hfin]
      rfl
    · have hcomp : ¬ d.Completes h := by
        rintro ⟨-, ⟨-, hc'⟩ | h1 | h2⟩
        · exact hc hc'
        · omega
        · omega
      rw [if_neg hc, if_neg hcomp, handOver_of_not hcomp]
      simp only [if_pos hfin]
      rfl
  · have hcomp : ¬ d.Completes h := fun hc => hfin hc.1
    rw [if_neg hfin, if_neg hcomp, handOver_of_not hcomp]
    simp only [if_neg hfin]
    change _ = Except.ok { d with fragmentedOpCode := d.messageOpcode h }.cleared
    rw [hmsg]
    rfl

theorem onData_told {d : Decoder} {h : Header} (hop : h.opcode = 1 ∨ h.opcode = 2)
    (hf : d.fragmentedOpCode = 0) :
    d.onData h.isFin h.opcode =
      orAbort ((d.handOver h).runCallback (if d.Completes h then d.messageCallback else none)
        (.message d.assembly (d.messageOpcode h = 2))) >>= fun x =>
        .ok { x with fragmentedOpCode := if h.isFin then 0 else x.messageOpcode h }.cleared := by
  have hmsg (x : Decoder) : x.messageOpcode h = h.opcode := if_neg (by omega)
  unfold onData
  rw [if_neg (by omega), hmsg]
  by_cases hfin : h.isFin = true
  · have hcomp : d.Completes h := ⟨hfin, .inr hop⟩
    rw [if_pos hfin, if_pos hcomp]
    simp only [handOver, if_pos hcomp, if_pos hfin]
    apply runCallback_bind
    intro x hx
    obtain ⟨output, status, more, rfl⟩ := hx
    simp only [← hf]
    rfl
  · have hcomp : ¬ d.Completes h := fun hc => hfin hc.1
    rw [if_neg hfin, if_neg hcomp, handOver_of_not hcomp]
    simp only [if_neg hfin, hmsg]
    rfl

theorem onFrame_told {d : Decoder} {h : Header} (old payload : Bytes) (he : ¬ d.Erroneous h)
    (hop : h.opcode ≠ 8) :
    d.onFrame h old payload =
      orAbort ((d.handOver h).runCallback (d.told h payload).1 (d.told h payload).2) >>= fun x =>
        .ok (x.finish h old payload) := by
  have hdata (h0 : h.opcode ≠ 9) (h1 : h.opcode ≠ 10) : d.told h payload =
      (if d.Completes h then d.messageCallback else none,
        .message d.assembly (d.messageOpcode h = 2)) := by
    unfold told
    split
    · contradiction
    · contradiction
    · rfl
  have hcontrol (hc : h.opcode = 9 ∨ h.opcode = 10) : d.handOver h = d :=
    handOver_of_not fun hcomp => by
      obtain ⟨-, ⟨h0, -⟩ | h1 | h2⟩ := hcomp <;> omega
  unfold Erroneous at he
  split at he
  · next hcase =>
    simp only [onFrame, hcase, finish]
    rw [hdata (by omega) (by omega)]
    exact onContinuation_told hcase he
  · next hcase =>
    have h1 := onData_told (.inl hcase) (of_not_not he)
    rw [hdata (by omega) (by omega)]
    simp only [onFrame, hcase, finish] at h1 ⊢
    exact h1
  · next hcase =>
    have h1 := onData_told (.inr hcase) (of_not_not he)
    rw [hdata (by omega) (by omega)]
    simp only [onFrame, hcase, finish] at h1 ⊢
    exact h1
  · contradiction
  · next hcase =>
    rw [hcontrol (.inl hcase)]
    have hfin : h.isFin = true := by simpa using he
    simp only [onFrame, hcase, told, finish, onPing, hfin]
    rfl
  · next hcase =>
    rw [hcontrol (.inr hcase)]
    have hfin : h.isFin = true := by simpa using he
    simp only [onFrame, hcase, told, finish, onPong, hfin]
    rfl
  · exact absurd trivial he

/-! ## Activations -/

inductive Outcome (d : Decoder) : Call Decoder → Prop
  | empty (hh : d.header = none) (hi : d.input = []) : Outcome d (.aborted d)
  | reserved (hr : d.Reserved) :
    Outcome d (.returned ({ d with input := d.input.drop 1 }.emit .frame).protocolError)
  | short (wanted : ℕ) (hh : d.header = none) (hf : front d.input = .short wanted) :
    Outcome d (.returned { d with wanted := wanted })
  | waits (h : Header) (d' : Decoder) (hr : d.readHeader = .ok (h, d'))
      (hl : d'.input.length < h.length) : Outcome d (.returned { d' with wanted := h.length })
  | refused (t : Taken) (ha : d.ahead = some t) (he : t.state.Erroneous t.header) :
    Outcome d (.returned t.state.protocolError)
  | closed (t : Taken) (ha : d.ahead = some t) (hop : t.header.opcode = 8)
      (hs : t.state.status = .CONNECT) :
    Outcome d ({ t.state.close .NORMAL_CLOSE with status := .CLOSED }.emit .closeTcp).recurse
  | ignored (t : Taken) (ha : d.ahead = some t) (hop : t.header.opcode = 8)
      (hs : t.state.status ≠ .CONNECT) : Outcome d t.state.recurse
  | failed (t : Taken) (x : Decoder) (ha : d.ahead = some t) (he : ¬ t.state.Erroneous t.header)
      (hop : t.header.opcode ≠ 8)
      (hx : (t.state.handOver t.header).runCallback (t.state.told t.header t.payload).1
        (t.state.told t.header t.payload).2 = .error x) : Outcome d (.aborted x)
  | told (t : Taken) (x : Decoder) (ha : d.ahead = some t) (he : ¬ t.state.Erroneous t.header)
      (hop : t.header.opcode ≠ 8)
      (hx : (t.state.handOver t.header).runCallback (t.state.told t.header t.payload).1
        (t.state.told t.header t.payload).2 = .ok x) :
    Outcome d (x.finish t.header d.assembly t.payload).recurse

theorem readHeader_some {d : Decoder} {h : Header} (hh : d.header = some h) :
    d.readHeader = .ok (h, d) := by
  unfold readHeader
  rw [hh]
  rfl

theorem readHeader_none {d : Decoder} (hh : d.header = none) : d.readHeader = d.readFront := by
  unfold readHeader
  rw [hh]

theorem readHeader_eq {d d' : Decoder} {h : Header} (hr : d.readHeader = .ok (h, d')) :
    ∃ input wanted, d' = { d with
      input := input
      header := some h
      wanted := wanted } ∧
      (d.header = some h ∧ input = d.input ∨
        d.header = none ∧ input.length + 2 ≤ d.input.length) := by
  cases hh : d.header with
  | some h' =>
    rw [readHeader_some hh] at hr
    cases hr
    exact ⟨d.input, d.wanted, by rw [← hh], .inl ⟨rfl, rfl⟩⟩
  | none =>
    rw [readHeader_none hh] at hr
    unfold readFront at hr
    cases hf : front d.input with
    | nothing =>
      rw [hf] at hr
      cases hr
    | reserved =>
      rw [hf] at hr
      cases hr
    | short wanted =>
      rw [hf] at hr
      cases hr
    | full h' size code =>
      rw [hf] at hr
      cases hr
      obtain ⟨h2, hsize⟩ := front_size hf
      refine ⟨d.input.drop size, code, rfl, .inr ⟨rfl, ?_⟩⟩
      rw [List.length_drop]
      omega

theorem ahead_none {d : Decoder} {ended : Call Decoder} (hr : d.readHeader = .error ended) :
    d.ahead = none := by
  unfold ahead
  rw [hr]

theorem Reserved.ahead {d : Decoder} (h : d.Reserved) : d.ahead = none := by
  have hread : d.readHeader = .error
      (.returned ({ d with input := d.input.drop 1 }.emit .frame).protocolError) := by
    rw [readHeader_none h.1]
    unfold readFront
    rw [h.2]
    rfl
  exact ahead_none hread

theorem ahead_short {d : Decoder} {wanted : ℕ} (hh : d.header = none)
    (hf : front d.input = .short wanted) : d.ahead = none ∧ ¬ d.Reserved := by
  have hread : d.readHeader = .error (.returned { d with wanted := wanted }) := by
    rw [readHeader_none hh]
    unfold readFront
    rw [hf]
    rfl
  refine ⟨ahead_none hread, ?_⟩
  rintro ⟨-, hr⟩
  rw [hf] at hr
  cases hr

theorem ahead_waits {d d' : Decoder} {h : Header} (hr : d.readHeader = .ok (h, d'))
    (hl : d'.input.length < h.length) : d.ahead = none ∧ ¬ d.Reserved := by
  constructor
  · unfold ahead
    rw [hr]
    exact if_pos hl
  · rintro ⟨hh, hres⟩
    rw [readHeader_none hh] at hr
    unfold readFront at hr
    rw [hres] at hr
    cases hr

/-- What a frame that is complete takes from the input. -/
theorem ahead_some {d : Decoder} {t : Taken} (ha : d.ahead = some t) :
    ∃ h d', d.readHeader = .ok (h, d') ∧ h.length ≤ d'.input.length ∧
      t = ⟨h, h.unmask (d'.input.take h.length), d'.take h⟩ := by
  unfold ahead at ha
  cases hr : d.readHeader with
  | error ended =>
    rw [hr] at ha
    cases ha
  | ok p =>
    obtain ⟨h, d'⟩ := p
    rw [hr] at ha
    dsimp only at ha
    by_cases hl : d'.input.length < h.length
    · rw [if_pos hl] at ha
      cases ha
    · rw [if_neg hl] at ha
      exact ⟨h, d', rfl, Nat.not_lt.mp hl, (Option.some.inj ha).symm⟩

theorem ahead_eq {d : Decoder} {t : Taken} (ha : d.ahead = some t) :
    ∃ input wanted, t.state = { d with
      input := input
      header := some t.header
      wanted := wanted
      assembly := d.assembly ++ t.payload
      trace := d.trace ++ [.frame] } ∧
      (d.header = some t.header ∧ input.length + t.header.length = d.input.length ∨
        d.header = none ∧ input.length + t.header.length + 2 ≤ d.input.length) := by
  obtain ⟨h, d', hr, hl, rfl⟩ := ahead_some ha
  obtain ⟨input, wanted, rfl, hsize⟩ := readHeader_eq hr
  have hdrop : (input.drop h.length).length + h.length = input.length := by
    rw [List.length_drop]
    exact Nat.sub_add_cancel hl
  refine ⟨input.drop h.length, wanted, rfl, ?_⟩
  obtain ⟨hh, rfl⟩ | ⟨hh, hlen⟩ := hsize
  · exact .inl ⟨hh, hdrop⟩
  · exact .inr ⟨hh, by rw [hdrop]; exact hlen⟩

theorem status_ahead {d : Decoder} {t : Taken} (ha : d.ahead = some t) :
    t.state.status = d.status := by
  obtain ⟨input, wanted, ht, -⟩ := ahead_eq ha
  rw [ht]

theorem header_ahead {d : Decoder} {t : Taken} (ha : d.ahead = some t) :
    t.state.header = some t.header := by
  obtain ⟨input, wanted, ht, -⟩ := ahead_eq ha
  rw [ht]

theorem trace_ahead {d : Decoder} {t : Taken} (ha : d.ahead = some t) :
    t.state.trace = d.trace ++ [.frame] := by
  obtain ⟨input, wanted, ht, -⟩ := ahead_eq ha
  rw [ht]

theorem finish_eq (d : Decoder) (h : Header) (old payload : Bytes) :
    (d.finish h old payload).header = none ∧ (d.finish h old payload).wanted = 0 ∧
      (d.finish h old payload).input = d.input := by
  unfold finish
  split
  · obtain ⟨output, status, more, hs⟩ := sent_pong d payload
    rw [hs]
    exact ⟨rfl, rfl, rfl⟩
  · exact ⟨rfl, rfl, rfl⟩
  · exact ⟨rfl, rfl, rfl⟩

/-- The application is told of a frame, and the bytes behind it are still there. -/
theorem input_told {t : Taken} {x : Decoder}
    (hx : (t.state.handOver t.header).runCallback (t.state.told t.header t.payload).1
      (t.state.told t.header t.payload).2 = .ok x) : x.input = t.state.input := by
  have hs := sent_runCallback (t.state.handOver t.header) (t.state.told t.header t.payload).1
    (t.state.told t.header t.payload).2
  rw [hx] at hs
  obtain ⟨output, status, more, hs⟩ := hs
  rw [show x = _ from hs]
  rfl

theorem activate_ahead {d : Decoder} {t : Taken} (ha : d.ahead = some t) :
    d.activate =
      match t.state.onFrame t.header d.assembly t.payload with
      | .ok d => d.recurse
      | .error ended => ended := by
  obtain ⟨h, d', hr, hl, rfl⟩ := ahead_some ha
  obtain ⟨input, wanted, hd', -⟩ := readHeader_eq hr
  have hassembly : d'.assembly = d.assembly := by rw [hd']
  unfold activate read
  rw [hr]
  simp only [bind, Except.bind, body, if_neg (Nat.not_lt.mpr hl), hassembly]
  rfl

/-- **The cases of an activation.** -/
theorem outcome (d : Decoder) : d.Outcome d.activate := by
  cases ha : d.ahead with
  | some t =>
    have hact := activate_ahead ha
    by_cases he : t.state.Erroneous t.header
    · rw [onFrame_refused _ _ he] at hact
      rw [hact]
      exact .refused t ha he
    · by_cases hop : t.header.opcode = 8
      · rw [onFrame_close _ _ hop] at hact
        unfold onClose at hact
        by_cases hs : t.state.status = .CONNECT
        · rw [if_pos hs] at hact
          rw [hact]
          exact .closed t ha hop hs
        · rw [if_neg hs] at hact
          rw [hact]
          exact .ignored t ha hop hs
      · rw [onFrame_told _ _ he hop] at hact
        cases hx : (t.state.handOver t.header).runCallback (t.state.told t.header t.payload).1
            (t.state.told t.header t.payload).2 with
        | error x =>
          rw [hx] at hact
          rw [hact]
          exact .failed t x ha he hop hx
        | ok x =>
          rw [hx] at hact
          rw [hact]
          exact .told t x ha he hop hx
  | none =>
    unfold ahead at ha
    unfold activate read
    cases hr : d.readHeader with
    | ok p =>
      obtain ⟨h, d'⟩ := p
      rw [hr] at ha
      simp only at ha
      by_cases hl : d'.input.length < h.length
      · simp only [bind, Except.bind, body, if_pos hl]
        exact .waits h d' hr hl
      · rw [if_neg hl] at ha
        cases ha
    | error ended =>
      cases hh : d.header with
      | some h =>
        rw [readHeader_some hh] at hr
        cases hr
      | none =>
        rw [readHeader_none hh] at hr
        unfold readFront at hr
        cases hf : front d.input with
        | nothing =>
          rw [hf] at hr
          cases hr
          exact .empty hh (front_nothing hf)
        | reserved =>
          rw [hf] at hr
          cases hr
          exact .reserved ⟨hh, hf⟩
        | short wanted =>
          rw [hf] at hr
          cases hr
          exact .short wanted hh hf
        | full h size code =>
          rw [hf] at hr
          cases hr

/-- `decode` calls itself behind a frame that was not refused, with the bytes behind that. -/
theorem again_outcome {d d' : Decoder} (ho : d.Outcome (.again d')) :
    d'.input ≠ [] ∧ ∃ t, d.ahead = some t ∧ d'.input = t.state.input ∧
      (t.header.opcode = 8 ∨ ¬ t.state.Erroneous t.header) := by
  have hrecurse {x : Decoder} {t : Taken} (hx : x.recurse = .again d') (ha : d.ahead = some t)
      (hinput : x.input = t.state.input)
      (hcase : t.header.opcode = 8 ∨ ¬ t.state.Erroneous t.header) :
      d'.input ≠ [] ∧ ∃ t, d.ahead = some t ∧ d'.input = t.state.input ∧
        (t.header.opcode = 8 ∨ ¬ t.state.Erroneous t.header) := by
    obtain ⟨rfl, hne⟩ := recurse_again hx
    exact ⟨hne, t, ha, hinput, hcase⟩
  generalize hr : Call.again d' = r at ho
  cases ho with
  | empty hh hi => cases hr
  | reserved hres => cases hr
  | short wanted hh hf => cases hr
  | waits h x hread hl => cases hr
  | refused t ha he => cases hr
  | closed t ha hop hs =>
    obtain ⟨output, status, more, hclose⟩ := sent_close t.state .NORMAL_CLOSE
    refine hrecurse hr.symm ha ?_ (.inl hop)
    rw [hclose]
    rfl
  | ignored t ha hop hs => exact hrecurse hr.symm ha rfl (.inl hop)
  | failed t x ha he hop hx => cases hr
  | told t x ha he hop hx =>
    exact hrecurse hr.symm ha ((finish_eq x _ _ _).2.2.trans (input_told hx)) (.inr he)

end Decoder
end WsEngine
