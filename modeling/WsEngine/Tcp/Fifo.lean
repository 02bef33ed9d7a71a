import WsEngine.Machine.Tcp

/-! # The outgoing byte stream

With libuv taking and completing every request, what was given to `uv_write` followed by what is
queued in `outputBuf` should be what the sends handed over, in order. Only `send(Buffer&, String&&)`
can break this: it writes at once in every state but `kWritting`, so in `kDisconnecting`, and after
a disconnect with bytes left behind, it overtakes the queue. The machine does the same as long as what
is queued has room below `2^31`. -/
set_option autoImplicit false

namespace WsEngine
namespace TcpConnection

/-- libuv takes every request and completes it successfully. -/
def PossibleHealthy (c : TcpConnection) (e : TcpEvent) : Prop :=
  c.Possible e ∧ match e with
    | .send _ uv | .sendBuffer _ uv | .sendScatter _ _ uv => 0 ≤ uv
    | .writeDone status uv => 0 ≤ status ∧ 0 ≤ uv
    | _ => True

def healthySystem : EventSystem TcpConnection TcpEvent TcpFault := ⟨PossibleHealthy, step⟩

def Fifo (c : TcpConnection) : Prop := c.submitted ++ c.outputBuf.readable = c.accepted

/-- A scatter send that does not go through the queue finds it empty, or sends nothing; more
exactly, its bytes may stand on either side of the queue. -/
def KeepsOrder (c : TcpConnection) : TcpEvent → Prop
  | .sendScatter header body _ =>
    c.state_ ≠ .kWritting →
      header.readable ++ body ++ c.outputBuf.readable =
        c.outputBuf.readable ++ (header.readable ++ body)
  | _ => True

/-! ## What was accepted -/

theorem handleClose_accepted {c c' : TcpConnection} (h : c.handleClose = .ok c') :
    c'.accepted = c.accepted := by
  obtain ⟨-, rfl⟩ | ⟨-, rfl⟩ := handleClose_cases h
  · rfl
  · rfl

theorem send_accepted {c c' : TcpConnection} {bytes : Bytes} {uv : ℤ}
    (h : c.step (.send bytes uv) = .ok c') : c'.accepted = c.accepted ++ bytes := by
  by_cases hw : c.state_ = .kWritting
  · rw [step_send_writting _ _ hw] at h
    cases h
    rfl
  · by_cases hc : c.state_ = .kConnected
    · rw [step_send_connected _ _ hc] at h
      cases h
      rfl
    · rw [step_send_closed _ _ hw hc] at h
      cases h

theorem step_accepted {c c' : TcpConnection} {e : TcpEvent} (possible : c.Possible e)
    (h : c.step e = .ok c') : c'.accepted = c.accepted ++ e.bytes := by
  cases e with
  | send bytes uv => exact send_accepted h
  | sendBuffer buf uv =>
    rw [step_sendBuffer] at h
    exact send_accepted h
  | sendScatter header body uv =>
    by_cases hw : c.state_ = .kWritting
    · rw [step_sendScatter_writting _ _ _ hw] at h
      cases h
      rfl
    · rw [step_sendScatter _ _ _ hw] at h
      cases h
      rfl
  | close => simpa [TcpEvent.bytes] using handleClose_accepted h
  | readData bytes =>
    rw [step_readData _ possible.2] at h
    cases h
    exact (List.append_nil _).symm
  | readEnd nread =>
    rw [step_readEnd _ possible.2] at h
    simpa [TcpEvent.bytes] using handleClose_accepted h
  | writeDone status uv =>
    by_cases hs : status < 0
    · rw [step_writeDone_failed _ _ hs] at h
      simpa [TcpEvent.bytes] using handleClose_accepted h
    · rw [step_writeDone_ok _ _ (by omega)] at h
      cases h
      simp only [TcpEvent.bytes, List.append_nil]
      split
      · rfl
      · split
        · split <;> rfl
        · split <;> rfl

/-- After a run, what was accepted are the bytes of its sends in the order of the calls. -/
theorem run_accepted {c c' : TcpConnection} {es : List TcpEvent} (legal : healthySystem.Legal c es)
    (h : healthySystem.run c es = .ok c') : c'.accepted = c.accepted ++ es.flatMap TcpEvent.bytes := by
  induction es generalizing c with
  | nil =>
    cases h
    simp
  | cons e es ih =>
    cases hs : healthySystem.step c e with
    | error f => simp [EventSystem.run, hs] at h
    | ok d =>
      rw [healthySystem.run_cons_ok _ hs] at h
      rw [ih (legal.2 d hs) h, step_accepted legal.1.1 hs, List.flatMap_cons, List.append_assoc]

/-! ## The order -/

structure FifoInv (c : TcpConnection) : Prop where
  fifo : c.Fifo
  queue : c.state_ = .kConnected → c.outputBuf.readable = []

theorem flushed_fifoInv {c : TcpConnection} {uv : ℤ} (huv : 0 ≤ uv) (h : c.Fifo) :
    (c.flushed uv).FifoInv := by
  refine ⟨?_, fun hs => by simp [flushed] at hs⟩
  simp only [Fifo, flushed, if_pos huv, Buffer.readable_advance, List.drop_length, List.append_nil]
  exact h

theorem writeDone_fifoInv {c c' : TcpConnection} {status uv : ℤ} (hstatus : 0 ≤ status)
    (huv : 0 ≤ uv) (hi : c.FifoInv) (h : c.step (.writeDone status uv) = .ok c') : c'.FifoInv := by
  rw [step_writeDone_ok _ _ hstatus] at h
  cases h
  dsimp only
  split
  · exact ⟨hi.fifo, fun hs => by simp [disconnected] at hs⟩
  · split
    · next hq =>
      split
      · exact ⟨hi.fifo, fun hs => by simp [disconnected] at hs⟩
      · exact ⟨hi.fifo, fun _ => hq⟩
    · split
      · exact flushed_fifoInv huv hi.fifo
      · exact flushed_fifoInv huv hi.fifo

theorem handleClose_fifoInv {c c' : TcpConnection} (hi : c.FifoInv) (h : c.handleClose = .ok c') :
    c'.FifoInv := by
  obtain ⟨-, rfl⟩ | ⟨-, rfl⟩ := handleClose_cases h
  · exact ⟨hi.fifo, nofun⟩
  · exact ⟨hi.fifo, nofun⟩

theorem send_fifoInv {c c' : TcpConnection} {bytes : Bytes} {uv : ℤ} (huv : 0 ≤ uv)
    (hi : c.FifoInv) (h : c.step (.send bytes uv) = .ok c') : c'.FifoInv := by
  have hf : c.submitted ++ c.outputBuf.readable = c.accepted := hi.fifo
  by_cases hw : c.state_ = .kWritting
  · rw [step_send_writting _ _ hw] at h
    cases h
    refine ⟨?_, fun hs => by simp [accept, hw] at hs⟩
    simp only [Fifo, accept, Buffer.readable_write, ← List.append_assoc, hf]
  · by_cases hc : c.state_ = .kConnected
    · rw [step_send_connected _ _ hc] at h
      cases h
      refine ⟨?_, fun hs => by simp [accept, submit] at hs⟩
      rw [hi.queue hc, List.append_nil] at hf
      simp [Fifo, accept, submit, huv, hi.queue hc, hf]
    · rw [step_send_closed _ _ hw hc] at h
      cases h

theorem sendScatter_fifo_iff {c : TcpConnection} (header : Buffer) (body : Bytes) {uv : ℤ}
    (huv : 0 ≤ uv) (hi : c.FifoInv) :
    (∀ c', c.step (.sendScatter header body uv) = .ok c' → c'.Fifo) ↔
      c.KeepsOrder (.sendScatter header body uv) := by
  have hf : c.submitted ++ c.outputBuf.readable = c.accepted := hi.fifo
  by_cases hw : c.state_ = .kWritting
  · rw [step_sendScatter_writting _ _ _ hw]
    simp only [KeepsOrder, hw, ne_eq, not_true_eq_false, false_implies, iff_true]
    rintro _ ⟨⟩
    simp only [Fifo, accept, Buffer.readable_write, List.append_assoc, ← hf]
  · rw [step_sendScatter _ _ _ hw]
    simp only [KeepsOrder, Except.ok.injEq, forall_eq', Fifo, accept, submit, if_pos huv, ← hf,
      List.flatMap_cons, List.flatMap_nil, List.append_nil, List.append_assoc,
      List.append_cancel_left_eq]
    exact ⟨fun hs _ => hs, fun hs => hs hw⟩

theorem fifo_step {c c' : TcpConnection} {e : TcpEvent} (hi : c.FifoInv)
    (possible : c.PossibleHealthy e) (guard : c.KeepsOrder e) (h : c.step e = .ok c') :
    c'.FifoInv := by
  cases e with
  | send bytes uv => exact send_fifoInv possible.2 hi h
  | sendBuffer buf uv =>
    rw [step_sendBuffer] at h
    exact send_fifoInv possible.2 hi h
  | sendScatter header body uv =>
    refine ⟨(sendScatter_fifo_iff header body possible.2 hi).mpr guard c' h, fun hs => ?_⟩
    by_cases hw : c.state_ = .kWritting
    · rw [step_sendScatter_writting _ _ _ hw] at h
      cases h
      simp [accept, hw] at hs
    · rw [step_sendScatter _ _ _ hw] at h
      cases h
      exact hi.queue hs
  | close => exact handleClose_fifoInv hi h
  | readData bytes =>
    rw [step_readData _ possible.1.2] at h
    cases h
    exact ⟨hi.fifo, hi.queue⟩
  | readEnd nread =>
    have hi' : { c with reading := false }.FifoInv := ⟨hi.fifo, hi.queue⟩
    rw [step_readEnd _ possible.1.2] at h
    exact handleClose_fifoInv hi' h
  | writeDone status uv => exact writeDone_fifoInv possible.2.1 possible.2.2 hi h

theorem fifo_step_iff {c : TcpConnection} {e : TcpEvent} (hi : c.FifoInv)
    (possible : c.PossibleHealthy e) :
    (∀ c', c.step e = .ok c' → c'.Fifo) ↔ c.KeepsOrder e := by
  refine ⟨fun safe => ?_, fun guard c' h => (fifo_step hi possible guard h).fifo⟩
  cases e with
  | sendScatter header body uv => exact (sendScatter_fifo_iff header body possible.2 hi).mp safe
  | _ => trivial

theorem Established.fifoInv {c : TcpConnection} (h : c.Established) : c.FifoInv where
  fifo := by rw [Fifo, h.submitted, h.queue, h.accepted, List.nil_append]
  queue := fun _ => h.queue

/-- In every state of a run the stream is FIFO iff every scatter send keeps the order. -/
theorem fifo_iff_keepsOrder {c : TcpConnection} (h : c.Established) {es : List TcpEvent}
    (legal : healthySystem.Legal c es) :
    (∀ p ∈ healthySystem.steps c es, ∀ c', p.1.step p.2 = .ok c' → c'.Fifo) ↔
      ∀ p ∈ healthySystem.steps c es, p.1.KeepsOrder p.2 := by
  refine healthySystem.forall_steps_iff FifoInv KeepsOrder
    (fun c e => ∀ c', c.step e = .ok c' → c'.Fifo) ?_ ?_ h.fifoInv legal
  · intro s e s' hi possible guard hs
    exact fifo_step hi possible guard hs
  · intro s e hi possible
    exact fifo_step_iff hi possible

/-! ## In machine words -/

end TcpConnection

namespace Machine.TcpConnection

def Fifo (c : TcpConnection) : Prop := c.submitted ++ c.outputBuf.readable = c.accepted

def KeepsOrder (c : TcpConnection) : TcpEvent → Prop
  | .sendScatter header body _ =>
    c.state_ ≠ .kWritting →
      header.readable ++ body ++ c.outputBuf.readable =
        c.outputBuf.readable ++ (header.readable ++ body)
  | _ => True

end Machine.TcpConnection

namespace TcpConnection

theorem Tracked.fifo_iff_fifo {c : TcpConnection} {t : Machine.TcpConnection} (h : c.Tracked t) :
    c.Fifo ↔ t.Fifo := by
  unfold Fifo Machine.TcpConnection.Fifo
  rw [h.readable, h.same]
  rfl

theorem Tracked.keepsOrder_iff {c : TcpConnection} {t : Machine.TcpConnection} (h : c.Tracked t)
    (e : TcpEvent) : c.KeepsOrder e ↔ t.KeepsOrder e := by
  unfold KeepsOrder Machine.TcpConnection.KeepsOrder
  rw [h.readable, h.state]

/-- A run that does not send too much has room for all of it. -/
theorem roomy_of_hasRoom {c : TcpConnection} {es : List TcpEvent}
    (h : c.HasRoom (es.flatMap TcpEvent.bytes).length) (hsmall : ∀ e ∈ es, e.Small) :
    ∀ p ∈ healthySystem.steps c es, p.1.Roomy p.2 := by
  rw [List.length_flatMap] at h
  have hguarded := healthySystem.guarded_of_budget HasRoom (fun e => e.bytes.length)
    (fun c e => e.Small → c.Roomy e) (fun _ _ hroom => hroom.roomy)
    (fun _ _ _ _ hroom hs => hroom.step hs) (fun _ _ _ hle hroom => hroom.mono hle) h
  exact fun p hp => hguarded p hp (hsmall p.2 (healthySystem.mem_of_mem_steps hp))

/-- **The outgoing stream is FIFO** in every state of a run iff every scatter send keeps the order. So
it is on the machine, as long as what is sent and what is queued has room. -/
theorem fifo_iff {c : TcpConnection} (h : c.Established) {es : List TcpEvent}
    (legal : healthySystem.Legal c es) :
    ((∀ p ∈ healthySystem.steps c es, ∀ c', p.1.step p.2 = .ok c' → c'.Fifo) ↔
      ∀ p ∈ healthySystem.steps c es, p.1.KeepsOrder p.2) ∧
    (c.outputBuf.Small → (∀ p ∈ healthySystem.steps c es, p.1.Roomy p.2) →
      ((∀ p ∈ Machine.TcpConnection.system.steps c.machine es,
          ∀ c', p.1.step p.2 = .ok c' → c'.Fifo) ↔
        ∀ p ∈ Machine.TcpConnection.system.steps c.machine es, p.1.KeepsOrder p.2)) := by
  have hiff := fifo_iff_keepsOrder h legal
  refine ⟨hiff, fun hsmall hroom => ?_⟩
  have hfifo := healthySystem.forall_steps_related Machine.TcpConnection.system Tracked Eq Roomy
    (fun _ _ _ htracked hr => htracked.step hr)
    (P := fun c e => ∀ c', c.step e = .ok c' → c'.Fifo)
    (Q := fun t e => ∀ t', t.step e = .ok t' → t'.Fifo) ?_ ⟨rfl, hsmall⟩ hroom
  · have horder := healthySystem.forall_steps_related Machine.TcpConnection.system Tracked Eq Roomy
      (fun _ _ _ htracked hr => htracked.step hr)
      (fun _ _ e htracked _ => htracked.keepsOrder_iff e) ⟨rfl, hsmall⟩ hroom
    rw [← hfifo, ← horder]
    exact hiff
  · intro c t e htracked hr
    have hstep := htracked.step hr
    generalize c.step e = r at hstep
    generalize t.step e = r' at hstep
    cases hstep with
    | error _ => simp
    | ok htracked' => simpa using htracked'.fifo_iff_fifo

/-- Two sends, the second queued, and a close while the first is in flight. -/
theorem send_send_close : ∃ c₁ c₂ c₃, healthySystem.step fresh (.send [1] 0) = .ok c₁ ∧
    healthySystem.step c₁ (.send [2] 0) = .ok c₂ ∧ healthySystem.step c₂ .close = .ok c₃ ∧
    c₃.state_ = .kDisconnecting ∧ c₃.outputBuf.readable = [2] ∧
    c₃.FifoInv := by
  have hi := fresh_established.fifoInv
  obtain ⟨c₁, h₁, hs₁, hq₁⟩ : ∃ c, healthySystem.step fresh (.send [1] 0) = .ok c ∧
      c.state_ = .kWritting ∧ c.outputBuf.readable = [] :=
    ⟨_, step_send_connected [1] 0 fresh_established.state, rfl, fresh_established.queue⟩
  have hi₁ : c₁.FifoInv := send_fifoInv (by decide) hi h₁
  obtain ⟨c₂, h₂, hs₂, hq₂⟩ : ∃ c, healthySystem.step c₁ (.send [2] 0) = .ok c ∧
      c.state_ = .kWritting ∧ c.outputBuf.readable = [2] :=
    ⟨_, step_send_writting [2] 0 hs₁, hs₁, by simp [accept, hq₁]⟩
  have hi₂ : c₂.FifoInv := send_fifoInv (by decide) hi₁ h₂
  have h₃ : healthySystem.step c₂ .close = .ok _ := handleClose_writting hs₂
  exact ⟨c₁, c₂, _, h₁, h₂, h₃, rfl, hq₂, handleClose_fifoInv hi₂ h₃⟩

theorem fifo_iff_send_send_close :
    let es : List TcpEvent := [.send [1] 0, .send [2] 0, .close]
    healthySystem.Legal fresh es ∧
      (∀ p ∈ healthySystem.steps fresh es, ∀ c', p.1.step p.2 = .ok c' → c'.Fifo) ∧
      ∀ p ∈ Machine.TcpConnection.system.steps fresh.machine es,
        ∀ c', p.1.step p.2 = .ok c' → c'.Fifo := by
  intro es
  obtain ⟨c₁, c₂, c₃, h₁, h₂, -⟩ := send_send_close
  have legal : healthySystem.Legal fresh es := by
    refine healthySystem.legal_cons_ok ⟨trivial, le_refl 0⟩ h₁ ?_
    refine healthySystem.legal_cons_ok ⟨trivial, le_refl 0⟩ h₂ ?_
    exact healthySystem.legal_singleton ⟨trivial, trivial⟩
  -- no event is a scatter send
  have hnone : ∀ e ∈ es, (∀ c : TcpConnection, c.KeepsOrder e) ∧
      (∀ t : Machine.TcpConnection, t.KeepsOrder e) ∧ e.Small := by
    intro e he
    simp only [es, List.mem_cons, List.not_mem_nil, or_false] at he
    rcases he with rfl | rfl | rfl <;> exact ⟨fun _ => trivial, fun _ => trivial, trivial⟩
  have hroom : fresh.HasRoom (es.flatMap TcpEvent.bytes).length := by decide +kernel
  obtain ⟨hiff, hmachine⟩ := fifo_iff fresh_established legal
  refine ⟨legal, hiff.mpr fun p hp => (hnone _ (healthySystem.mem_of_mem_steps hp)).1 _, ?_⟩
  refine (hmachine (Buffer.small_ofSize (by decide))
    (roomy_of_hasRoom hroom fun e he => (hnone e he).2.2)).mpr fun p hp => ?_
  exact (hnone _ (Machine.TcpConnection.system.mem_of_mem_steps hp)).2.1 _

/-- A scatter send after them overtakes the byte that is still queued. -/
theorem fifo_fails_scatter :
    fresh.Established ∧
    healthySystem.Legal fresh
      [.send [1] 0, .send [2] 0, .close, .sendScatter (.ofSize 0) [3] 0] ∧
    ¬ ∀ p ∈ healthySystem.steps fresh
        [.send [1] 0, .send [2] 0, .close, .sendScatter (.ofSize 0) [3] 0],
      ∀ c', p.1.step p.2 = .ok c' → c'.Fifo := by
  obtain ⟨c₁, c₂, c₃, h₁, h₂, h₃, hs₃, hq₃, hi₃⟩ := send_send_close
  refine ⟨fresh_established, ?_, fun safe => ?_⟩
  · refine healthySystem.legal_cons_ok ⟨trivial, le_refl 0⟩ h₁ ?_
    refine healthySystem.legal_cons_ok ⟨trivial, le_refl 0⟩ h₂ ?_
    refine healthySystem.legal_cons_ok ⟨trivial, trivial⟩ h₃ ?_
    exact healthySystem.legal_singleton ⟨trivial, le_refl 0⟩
  · rw [healthySystem.steps_cons_ok _ h₁, healthySystem.steps_cons_ok _ h₂,
      healthySystem.steps_cons_ok _ h₃, healthySystem.steps_singleton] at safe
    have hscatter := safe (c₃, .sendScatter (.ofSize 0) [3] 0) (by simp)
    have horder := (sendScatter_fifo_iff (.ofSize 0) [3] (le_refl 0) hi₃).mp hscatter
    simp [KeepsOrder, hs₃, hq₃] at horder

end TcpConnection
end WsEngine
