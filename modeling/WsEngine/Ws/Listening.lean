import WsEngine.Ws.Termination

/-! # An application that only listens

Callbacks that make no calls on the connection. Then one activation is a function of the frame that
is ahead (`activate_eq`), and until the first close frame is sent the connection stays as the
handshake left it, up to the frame that it is reading (`calm_activate`). -/
set_option autoImplicit false

namespace WsEngine

def Listens (callback : Option Callback) : Prop := ∀ answer ∈ callback, ∀ trace, answer trace = []

def Effect.closes : Effect → Bool
  | send bytes => isClose bytes
  | message _ _ | ping _ | pong _ | stopRead | closeTcp | frame | protocolError => false

def Closed (trace : List Effect) : Prop := ∃ e ∈ trace, e.closes = true

instance (trace : List Effect) : Decidable (Closed trace) :=
  inferInstanceAs (Decidable (∃ e ∈ trace, _ = _))

theorem Closed.mono {t t' : List Effect} (h : Closed t) (hp : t <+: t') : Closed t' := by
  obtain ⟨e, he, hc⟩ := h
  exact ⟨e, hp.subset he, hc⟩

namespace Decoder

structure Listening (d : Decoder) : Prop where
  message : Listens d.messageCallback
  ping : Listens d.pingCallback
  pong : Listens d.pongCallback

theorem Listening.congr {d d' : Decoder} (h : d.Listening)
    (hmessage : d'.messageCallback = d.messageCallback) (hping : d'.pingCallback = d.pingCallback)
    (hpong : d'.pongCallback = d.pongCallback) : d'.Listening := by
  constructor
  · rw [hmessage]
    exact h.message
  · rw [hping]
    exact h.ping
  · rw [hpong]
    exact h.pong

theorem Listening.sent {d d' : Decoder} (h : d.Listening) (hs : d.Sent d') : d'.Listening := by
  obtain ⟨output, status, more, rfl⟩ := hs
  exact h.congr rfl rfl rfl

theorem Listening.ahead {d : Decoder} {t : Taken} (h : d.Listening) (ha : d.ahead = some t) :
    t.state.Listening := by
  obtain ⟨input, wanted, ht, -⟩ := ahead_eq ha
  rw [ht]
  exact h.congr rfl rfl rfl

def hear (d : Decoder) (callback : Option Callback) (effect : Effect) : Decoder :=
  if callback.isSome then d.emit effect else d

theorem runCallback_eq_hear {callback : Option Callback} (h : Listens callback) (d : Decoder)
    (effect : Effect) : d.runCallback callback effect = .ok (d.hear callback effect) := by
  cases callback with
  | none => rfl
  | some answer =>
    have hnil : answer (d.emit effect).trace = [] := h answer rfl _
    change (d.emit effect).calls (answer (d.emit effect).trace) = _
    rw [hnil]
    rfl

theorem sent_hear (d : Decoder) (callback : Option Callback) (effect : Effect) :
    d.Sent (d.hear callback effect) := by
  unfold hear
  split
  · exact sent_emit d effect
  · exact .refl d

/-! ## Frames -/

def Taken.heard (t : Taken) (old : Bytes) : Decoder :=
  ((t.state.handOver t.header).hear (t.state.told t.header t.payload).1
    (t.state.told t.header t.payload).2).finish t.header old t.payload

def Taken.result (t : Taken) (old : Bytes) : Call Decoder :=
  if t.state.Erroneous t.header then .returned t.state.protocolError
  else if t.header.opcode = 8 then
    ({ t.state.close .NORMAL_CLOSE with status := .CLOSED }.emit .closeTcp).recurse
  else (t.heard old).recurse

theorem result_refused (t : Taken) (old : Bytes) (he : t.state.Erroneous t.header) :
    t.result old = .returned t.state.protocolError := if_pos he

theorem result_close (t : Taken) (old : Bytes) (he : ¬ t.state.Erroneous t.header)
    (hop : t.header.opcode = 8) :
    t.result old = ({ t.state.close .NORMAL_CLOSE with status := .CLOSED }.emit .closeTcp).recurse :=
  (if_neg he).trans (if_pos hop)

theorem result_heard (t : Taken) (old : Bytes) (he : ¬ t.state.Erroneous t.header)
    (hop : t.header.opcode ≠ 8) : t.result old = (t.heard old).recurse :=
  (if_neg he).trans (if_neg hop)

theorem listens_told {d : Decoder} (hl : d.Listening) (h : Header) (payload : Bytes) :
    Listens (d.told h payload).1 := by
  unfold told
  split
  · exact hl.ping
  · exact hl.pong
  · dsimp only
    split
    · exact hl.message
    · intro answer ha
      exact nomatch ha

/-- **An activation with a complete frame ahead**, while the connection is in CONNECT. -/
theorem activate_eq {d : Decoder} {t : Taken} (hl : d.Listening) (hs : d.status = .CONNECT)
    (ha : d.ahead = some t) : d.activate = t.result d.assembly := by
  have hlt := hl.ahead ha
  have hst : t.state.status = .CONNECT := (status_ahead ha).trans hs
  rw [activate_ahead ha]
  by_cases he : t.state.Erroneous t.header
  · rw [result_refused t _ he, onFrame_refused _ _ he]
  · by_cases hop : t.header.opcode = 8
    · rw [result_close t _ he hop, onFrame_close _ _ hop, onClose, if_pos hst]
      rfl
    · rw [result_heard t _ he hop, onFrame_told _ _ he hop,
        runCallback_eq_hear (listens_told hlt _ _)]
      rfl

/-! ## Before the first close frame -/

/-- No close frame was sent, and nothing but a frame is awaited. -/
structure Calm (d : Decoder) : Prop where
  status : d.status = .CONNECT
  listening : d.Listening
  header : d.HeaderInv

theorem Calm.receive {d : Decoder} (h : d.Calm) (bytes : Bytes) : (d.receive bytes).Calm :=
  ⟨h.status, h.listening.congr rfl rfl rfl, h.header⟩

theorem closed_close (d : Decoder) (code : StatusCode) : Closed (d.close code).trace :=
  ⟨.send (closeFrame code), List.mem_append_right _ (List.mem_singleton_self _), rfl⟩

theorem closed_protocolError (d : Decoder) : Closed d.protocolError.trace := closed_close _ _

theorem listening_heard {t : Taken} (h : t.state.Listening) (old : Bytes) :
    (t.heard old).Listening := by
  have hhear : ((t.state.handOver t.header).hear (t.state.told t.header t.payload).1
      (t.state.told t.header t.payload).2).Listening := by
    have hover : (t.state.handOver t.header).Listening := h.congr rfl rfl rfl
    exact hover.sent (sent_hear _ _ _)
  unfold Taken.heard finish
  split
  · exact (hhear.sent (sent_pong _ t.payload)).congr rfl rfl rfl
  · exact hhear.congr rfl rfl rfl
  · exact hhear.congr rfl rfl rfl

theorem closed_or_status_heard {t : Taken} (h : t.state.status = .CONNECT) (old : Bytes) :
    Closed (t.heard old).trace ∨ (t.heard old).status = .CONNECT := by
  have hhear : ((t.state.handOver t.header).hear (t.state.told t.header t.payload).1
      (t.state.told t.header t.payload).2).status = .CONNECT := by
    unfold hear
    split <;> exact h
  unfold Taken.heard finish
  split
  · by_cases hl : 126 ≤ t.payload.length
    · refine .inl ?_
      unfold pong
      rw [if_pos hl]
      exact closed_protocolError _
    · refine .inr ?_
      unfold pong
      rw [if_neg hl]
      exact hhear
  · exact .inr hhear
  · exact .inr hhear

/-- **One activation.** Either it sends a close frame, or it returns calmly, or it goes on calmly
with fewer bytes. -/
theorem calm_activate {d : Decoder} (h : d.Calm) (hi : d.input ≠ []) :
    Closed d.activate.state.trace ∨ (∃ x, d.activate = .returned x ∧ x.Calm) ∨
      ∃ x, d.activate = .again x ∧ x.Calm ∧ x.input ≠ [] ∧ x.input.length < d.input.length := by
  cases ha : d.ahead with
  | some t =>
    have hst : t.state.status = .CONNECT := (status_ahead ha).trans h.status
    have hlt := h.listening.ahead ha
    have hact := activate_eq h.listening h.status ha
    by_cases he : t.state.Erroneous t.header
    · rw [hact, result_refused t _ he]
      exact .inl (closed_protocolError _)
    · by_cases hop : t.header.opcode = 8
      · rw [hact, result_close t _ he hop, state_recurse]
        exact .inl ((closed_close t.state .NORMAL_CLOSE).mono (List.prefix_append _ _))
      · rw [result_heard t _ he hop] at hact
        obtain hclosed | hstatus := closed_or_status_heard hst d.assembly
        · rw [hact, state_recurse]
          exact .inl hclosed
        · have hcalm : (t.heard d.assembly).Calm :=
            ⟨hstatus, listening_heard hlt _, .of_none (finish_eq _ _ _ _).1⟩
          unfold recurse at hact
          by_cases hnil : (t.heard d.assembly).input = []
          · rw [if_pos hnil] at hact
            exact .inr (.inl ⟨_, hact, hcalm⟩)
          · rw [if_neg hnil] at hact
            refine .inr (.inr ⟨_, hact, hcalm, hnil, activate_shorter h.header ?_ hact⟩)
            rintro ⟨t', ha', hop', -⟩
            have heq : t = t' := Option.some.inj (ha.symm.trans ha')
            exact hop (heq ▸ hop')
  | none =>
    have ho := d.outcome
    generalize hr : d.activate = r at ho
    have hahead (t : Taken) : d.ahead ≠ some t := fun h => by
      rw [ha] at h
      cases h
    cases ho with
    | empty hh hnil => exact absurd hnil hi
    | reserved hres => exact .inl (closed_protocolError _)
    | short wanted hh hf =>
      exact .inr (.inl ⟨_, rfl, h.status, h.listening.congr rfl rfl rfl, .of_none hh⟩)
    | waits header d' hread hl =>
      obtain ⟨input, wanted, rfl, -⟩ := readHeader_eq hread
      refine .inr (.inl ⟨_, rfl, h.status, h.listening.congr rfl rfl rfl, fun h' hh => ?_⟩)
      cases hh
      exact .inl (Nat.lt_of_le_of_lt (Nat.zero_le _) hl)
    | refused t ha' he => exact absurd ha' (hahead t)
    | closed t ha' hop hs => exact absurd ha' (hahead t)
    | ignored t ha' hop hs => exact absurd ha' (hahead t)
    | failed t x ha' he hop hx => exact absurd ha' (hahead t)
    | told t x ha' he hop hx => exact absurd ha' (hahead t)

/-! ## The trace only grows -/

theorem Sent.grows {d d' : Decoder} (h : d.Sent d') : d.trace <+: d'.trace := by
  obtain ⟨output, status, more, rfl⟩ := h
  exact List.prefix_append _ _

theorem grows_outcome {d : Decoder} {r : Call Decoder} (ho : d.Outcome r) :
    d.trace <+: r.state.trace := by
  have hahead (t : Taken) (ha : d.ahead = some t) : d.trace <+: t.state.trace := by
    rw [trace_ahead ha]
    exact List.prefix_append _ _
  have htold (t : Taken) (ha : d.ahead = some t) (r : Except Decoder Decoder)
      (hr : (t.state.handOver t.header).runCallback (t.state.told t.header t.payload).1
        (t.state.told t.header t.payload).2 = r) : d.trace <+: (ended r).trace := by
    rw [← hr]
    exact (hahead t ha).trans (sent_runCallback (t.state.handOver t.header) _ _).grows
  cases ho with
  | empty hh hi => exact List.prefix_rfl
  | reserved hr =>
    have hframe := sent_emit { d with input := d.input.drop 1 } .frame
    exact (hframe.trans (sent_protocolError _)).grows
  | short wanted hh hf => exact List.prefix_rfl
  | waits header d' hr hl =>
    obtain ⟨input, wanted, rfl, -⟩ := readHeader_eq hr
    exact List.prefix_rfl
  | refused t ha he => exact (hahead t ha).trans (sent_protocolError _).grows
  | closed t ha hop hs =>
    rw [state_recurse]
    exact ((hahead t ha).trans (sent_close _ .NORMAL_CLOSE).grows).trans (List.prefix_append _ _)
  | ignored t ha hop hs =>
    rw [state_recurse]
    exact hahead t ha
  | failed t x ha he hop hx => exact htold t ha _ hx
  | told t x ha he hop hx =>
    rw [state_recurse]
    apply (htold t ha _ hx).trans
    change x.trace <+: _
    unfold finish
    split
    · exact (sent_pong x t.payload).grows
    · exact List.prefix_rfl
    · exact List.prefix_rfl

theorem grows_iterate (n : ℕ) (d : Decoder) : d.trace <+: (Call.iterate activate n d).state.trace :=
  Call.iterate_rel (fun d d' : Decoder => d.trace <+: d'.trace) (fun _ => List.prefix_rfl)
    (fun _ _ _ => List.IsPrefix.trans) (fun d => grows_outcome d.outcome) n d

theorem grows_first {n : ℕ} (hn : 0 < n) (d : Decoder) :
    d.activate.state.trace <+: (Call.iterate activate n d).state.trace :=
  Call.iterate_rel_first (fun d d' : Decoder => d.trace <+: d'.trace) (fun _ => List.prefix_rfl)
    (fun _ _ _ => List.IsPrefix.trans) (fun d => grows_outcome d.outcome) hn d

theorem grows_parse (d : Decoder) : d.trace <+: d.parse.state.trace := by
  unfold parse
  split
  · exact List.prefix_rfl
  · split
    · exact grows_iterate _ d
    · exact grows_iterate _ d
    · exact List.prefix_rfl

end Decoder
end WsEngine
