import WsEngine.Tcp.Fifo

/-! # A graceful close drains

A close while a write is in flight waits for its completion, and what is queued by then goes out as a
last write before the disconnect. This accounts for one request at a time, so it fails when
`send(Buffer&, String&&)`, which does not set `kWritting`, puts a request in flight that nobody waits
for, and when a send is accepted during the last write, whose completion does not look at the queue
again. -/
set_option autoImplicit false

namespace WsEngine
namespace TcpConnection

/-- Every byte of every send that returned was given to `uv_write` and completed. -/
def Drained (c : TcpConnection) : Prop :=
  c.outputBuf.readable = [] ∧ c.writes = [] ∧ c.submitted = c.accepted

/-- An event that disconnects the connection leaves it drained. -/
def Drains (c : TcpConnection) (e : TcpEvent) : Prop :=
  ∀ c', c.step e = .ok c' → c.state_ ≠ .kDisconnected → c'.state_ = .kDisconnected → c'.Drained

/-- In `kConnected` no close and no send of one buffer overtakes a scatter send that is in flight, no
scatter send starts in `kDisconnecting`, and nothing is sent during the last write. -/
def Accounted (c : TcpConnection) : TcpEvent → Prop
  | .send bytes _ => (c.state_ = .kConnected → c.writes = []) ∧ (c.isLastWrite = true → bytes = [])
  | .sendBuffer buf _ =>
    (c.state_ = .kConnected → c.writes = []) ∧ (c.isLastWrite = true → buf.readable = [])
  | .sendScatter header body _ =>
    c.state_ ≠ .kDisconnecting ∧ (c.isLastWrite = true → header.readable ++ body = [])
  | .close | .readEnd _ => c.state_ = .kConnected → c.writes = []
  | .readData _ | .writeDone _ _ => True

/-- A completion is waited for. -/
def Waiting (c : TcpConnection) : Prop := c.state_ = .kWritting ∨ c.state_ = .kDisconnecting

instance (c : TcpConnection) : Decidable c.Waiting := inferInstanceAs (Decidable (_ ∨ _))

/-- One request is in flight while one is waited for, and else nothing is queued. -/
structure DrainInv (c : TcpConnection) : Prop where
  fifo : c.Fifo
  waiting : c.Waiting → c.writes.length = 1
  idle : ¬ c.Waiting → c.outputBuf.readable = []
  last : c.isLastWrite = true → c.Waiting ∧ c.outputBuf.readable = []
  established : c.state_ ≠ .kConnecting

theorem not_waiting {c : TcpConnection} (h : c.state_ = .kConnected ∨ c.state_ = .kDisconnected) :
    ¬ c.Waiting := by
  unfold Waiting
  rcases h with h | h <;> simp [h]

theorem DrainInv.fifoInv {c : TcpConnection} (h : c.DrainInv) : c.FifoInv :=
  ⟨h.fifo, fun hs => h.idle (not_waiting (.inl hs))⟩

theorem DrainInv.not_last {c : TcpConnection} (h : c.DrainInv) (hw : ¬ c.Waiting) :
    c.isLastWrite = false := by
  cases hl : c.isLastWrite with
  | false => rfl
  | true => exact absurd (h.last hl).1 hw

/-- The state that an event leaves when it does not wait. -/
theorem DrainInv.of_idle {c : TcpConnection} (hf : c.Fifo) (hq : c.outputBuf.readable = [])
    (hl : c.isLastWrite = false) (hs : c.state_ = .kConnected ∨ c.state_ = .kDisconnected) :
    c.DrainInv where
  fifo := hf
  waiting := fun h => absurd h (not_waiting hs)
  idle := fun _ => hq
  last := fun h => by simp [hl] at h
  established := by rcases hs with hs | hs <;> simp [hs]

theorem DrainInv.of_waiting {c : TcpConnection} (hf : c.Fifo) (hw : c.Waiting)
    (hone : c.writes.length = 1) (hl : c.isLastWrite = true → c.outputBuf.readable = []) :
    c.DrainInv where
  fifo := hf
  waiting := fun _ => hone
  idle := fun h => absurd hw h
  last := fun h => ⟨hw, hl h⟩
  established := by rcases hw with hw | hw <;> simp [hw]

theorem DrainInv.drained {c : TcpConnection} (h : c.DrainInv) (hs : c.state_ = .kDisconnected)
    (hw : c.writes = []) : c.Drained := by
  have hq := h.idle (not_waiting (.inr hs))
  have hf : c.submitted ++ c.outputBuf.readable = c.accepted := h.fifo
  refine ⟨hq, hw, ?_⟩
  rwa [hq, List.append_nil] at hf

/-! ## One event -/

/-- What every event has to show. -/
def Accounts (c c' : TcpConnection) : Prop :=
  c'.DrainInv ∧ (c.state_ ≠ .kDisconnected → c'.state_ = .kDisconnected → c'.Drained)

theorem DrainInv.accounts {c c' : TcpConnection} (h : c'.DrainInv)
    (hs : c'.state_ = .kDisconnected → c.state_ = .kDisconnected) : c.Accounts c' :=
  ⟨h, fun hne hd => absurd (hs hd) hne⟩

theorem handleClose_accounts {c c' : TcpConnection} (hi : c.DrainInv)
    (guard : c.state_ = .kConnected → c.writes = []) (h : c.handleClose = .ok c') :
    c.Accounts c' := by
  have hf := (handleClose_fifoInv hi.fifoInv h).fifo
  cases hs : c.state_ with
  | kConnecting => exact absurd hs hi.established
  | kWritting =>
    have hw : c.Waiting := .inl hs
    rw [handleClose_writting hs] at h
    cases h
    have hinv : DrainInv { c with state_ := .kDisconnecting } :=
      .of_waiting hf (.inr rfl) (hi.waiting hw) fun hl => (hi.last hl).2
    exact hinv.accounts nofun
  | kConnected =>
    have hw : ¬ c.Waiting := not_waiting (.inl hs)
    rw [handleClose_connected hs] at h
    cases h
    have hinv : c.disconnected.DrainInv := .of_idle hf (hi.idle hw) (hi.not_last hw) (.inr rfl)
    exact ⟨hinv, fun _ hd => hinv.drained hd (guard hs)⟩
  | kDisconnecting =>
    rw [handleClose_closed (.inl hs)] at h
    cases h
  | kDisconnected =>
    rw [handleClose_closed (.inr hs)] at h
    cases h

theorem send_accounts {c c' : TcpConnection} {bytes : Bytes} {uv : ℤ} (huv : 0 ≤ uv)
    (hi : c.DrainInv) (guard : c.Accounted (.send bytes uv))
    (h : c.step (.send bytes uv) = .ok c') : c.Accounts c' := by
  have hf := (send_fifoInv huv hi.fifoInv h).fifo
  by_cases hw : c.state_ = .kWritting
  · rw [step_send_writting _ _ hw] at h
    cases h
    apply DrainInv.accounts _ (fun hd => hd)
    apply DrainInv.of_waiting hf (.inl hw) (hi.waiting (.inl hw))
    intro hl
    simp [accept, guard.2 hl, (hi.last hl).2]
  · by_cases hc : c.state_ = .kConnected
    · have hlast := hi.not_last (not_waiting (.inl hc))
      rw [step_send_connected _ _ hc] at h
      cases h
      apply DrainInv.accounts _ (fun hd => by simp [accept, submit] at hd)
      apply DrainInv.of_waiting hf (.inl rfl)
      · simp [accept, submit, huv, guard.1 hc]
      · intro hl
        simp [accept, submit, hlast] at hl
    · rw [step_send_closed _ _ hw hc] at h
      cases h

theorem keepsOrder_of_accounted {c : TcpConnection} {e : TcpEvent} (hi : c.DrainInv)
    (guard : c.Accounted e) : c.KeepsOrder e := by
  cases e with
  | sendScatter header body uv =>
    intro hw
    have hq := hi.idle (not_or.mpr ⟨hw, guard.1⟩)
    rw [hq, List.append_nil, List.nil_append]
  | send _ _ | sendBuffer _ _ | close | readData _ | readEnd _ | writeDone _ _ => trivial

theorem sendScatter_accounts {c c' : TcpConnection} {header : Buffer} {body : Bytes} {uv : ℤ}
    (hi : c.DrainInv) (hf : c'.Fifo) (guard : c.Accounted (.sendScatter header body uv))
    (h : c.step (.sendScatter header body uv) = .ok c') : c.Accounts c' := by
  by_cases hw : c.state_ = .kWritting
  · rw [step_sendScatter_writting _ _ _ hw] at h
    cases h
    apply DrainInv.accounts _ (fun hd => hd)
    apply DrainInv.of_waiting hf (.inl hw) (hi.waiting (.inl hw))
    intro hl
    simp [accept, guard.2 hl, (hi.last hl).2]
  · have hidle : ¬ c.Waiting := not_or.mpr ⟨hw, guard.1⟩
    rw [step_sendScatter _ _ _ hw] at h
    cases h
    apply DrainInv.accounts _ (fun hd => hd)
    exact ⟨hf, fun h' => absurd h' hidle, fun _ => hi.idle hidle,
      fun hl => absurd (hi.last hl).1 hidle, hi.established⟩

theorem flushed_accounts {c d : TcpConnection} {uv : ℤ} (huv : 0 ≤ uv) (hf : d.Fifo)
    (hw : d.writes = []) : c.Accounts (d.flushed uv) := by
  apply DrainInv.accounts _ (fun hd => by simp [flushed] at hd)
  apply DrainInv.of_waiting (flushed_fifoInv huv hf).fifo (.inl rfl)
  · simp [flushed, huv, hw]
  · intro _
    simp [flushed]

/-- **A completion** finds the only request there was, or a scatter send that nobody waits for. -/
theorem writeDone_accounts {c c' : TcpConnection} {status uv : ℤ} (hstatus : 0 ≤ status)
    (huv : 0 ≤ uv) (hi : c.DrainInv) (h : c.step (.writeDone status uv) = .ok c') :
    c.Accounts c' := by
  have htail (hw : c.Waiting) : c.writes.tail = [] := by
    apply List.eq_nil_of_length_eq_zero
    rw [List.length_tail, hi.waiting hw]
  rw [step_writeDone_ok _ _ hstatus] at h
  cases h
  dsimp only
  by_cases hl : c.isLastWrite = true
  · obtain ⟨hw, hq⟩ := hi.last hl
    rw [if_pos hl]
    have hinv : DrainInv { { c with writes := c.writes.tail }.written.disconnected with
        isLastWrite := false } := .of_idle hi.fifo hq rfl (.inr rfl)
    exact ⟨hinv, fun _ hd => hinv.drained hd (htail hw)⟩
  · have hlast : c.isLastWrite = false := by simpa using hl
    rw [if_neg hl]
    by_cases hq : c.outputBuf.readable = []
    · rw [if_pos hq]
      by_cases hd : c.state_ = .kDisconnecting
      · rw [if_pos hd]
        have hinv : DrainInv { c with writes := c.writes.tail }.written.disconnected :=
          .of_idle hi.fifo hq hlast (.inr rfl)
        exact ⟨hinv, fun _ hs => hinv.drained hs (htail (.inr hd))⟩
      · rw [if_neg hd]
        have hinv : DrainInv ({ c with writes := c.writes.tail }.written.setState .kConnected) :=
          .of_idle hi.fifo hq hlast (.inl rfl)
        exact hinv.accounts nofun
    · have hw : c.Waiting := by
        by_contra hw
        exact hq (hi.idle hw)
      rw [if_neg hq]
      split
      · exact flushed_accounts huv hi.fifo (htail hw)
      · exact flushed_accounts huv hi.fifo (htail hw)

/-- **One step.** -/
theorem step_accounts {c c' : TcpConnection} {e : TcpEvent} (hi : c.DrainInv)
    (possible : c.PossibleHealthy e) (guard : c.Accounted e) (h : c.step e = .ok c') :
    c.Accounts c' := by
  have hf := (fifo_step hi.fifoInv possible (keepsOrder_of_accounted hi guard) h).fifo
  cases e with
  | send bytes uv => exact send_accounts possible.2 hi guard h
  | sendBuffer buf uv =>
    rw [step_sendBuffer] at h
    exact send_accounts possible.2 hi guard h
  | sendScatter header body uv => exact sendScatter_accounts hi hf guard h
  | close => exact handleClose_accounts hi guard h
  | readData bytes =>
    rw [step_readData _ possible.1.2] at h
    cases h
    apply DrainInv.accounts _ (fun hd => hd)
    exact ⟨hi.fifo, hi.waiting, hi.idle, hi.last, hi.established⟩
  | readEnd nread =>
    rw [step_readEnd _ possible.1.2] at h
    have hi' : DrainInv { c with reading := false } :=
      ⟨hi.fifo, hi.waiting, hi.idle, hi.last, hi.established⟩
    have haccounts := handleClose_accounts hi' guard h
    exact haccounts
  | writeDone status uv => exact writeDone_accounts possible.2.1 possible.2.2 hi h

/-! ## Runs -/

theorem Established.drainInv {c : TcpConnection} (h : c.Established) : c.DrainInv :=
  .of_idle h.fifoInv.fifo h.queue h.last (.inl h.state)

/-- **A graceful close drains**, in every run in which libuv takes and completes every request, as
long as its events keep to the account. -/
theorem drains_of_accounted {c : TcpConnection} (h : c.Established) {es : List TcpEvent}
    (legal : healthySystem.Legal c es) (guarded : ∀ p ∈ healthySystem.steps c es, p.1.Accounted p.2) :
    ∀ p ∈ healthySystem.steps c es, p.1.Drains p.2 := by
  intro p hp c' hc'
  have hkeep := healthySystem.invariant_of_guard DrainInv Accounted
    (fun s e s' hi possible guard hs => (step_accounts hi possible guard hs).1) h.drainInv legal guarded
  obtain ⟨hi, possible⟩ := hkeep p hp
  exact (step_accounts hi possible (guarded p hp) hc').2

/-- A send and a close while it is in flight: the completion disconnects a drained connection. -/
theorem drains_of_accounted_send_close_done :
    healthySystem.Legal fresh [.send [1] 0, .close, .writeDone 0 0] ∧
    ∀ p ∈ healthySystem.steps fresh [.send [1] 0, .close, .writeDone 0 0], p.1.Drains p.2 := by
  obtain ⟨c₁, h₁, hs₁, hw₁⟩ : ∃ c, healthySystem.step fresh (.send [1] 0) = .ok c ∧
      c.state_ = .kWritting ∧ c.writes ≠ [] :=
    ⟨_, step_send_connected [1] 0 fresh_established.state, rfl, by simp [accept, submit]⟩
  have h₂ : healthySystem.step c₁ .close = .ok { c₁ with state_ := .kDisconnecting } :=
    handleClose_writting hs₁
  have legal : healthySystem.Legal fresh [.send [1] 0, .close, .writeDone 0 0] := by
    refine healthySystem.legal_cons_ok ⟨trivial, le_refl 0⟩ h₁ ?_
    refine healthySystem.legal_cons_ok ⟨trivial, trivial⟩ h₂ ?_
    exact healthySystem.legal_singleton ⟨hw₁, le_refl 0, le_refl 0⟩
  refine ⟨legal, drains_of_accounted fresh_established legal ?_⟩
  rw [healthySystem.steps_cons_ok _ h₁, healthySystem.steps_cons_ok _ h₂,
    healthySystem.steps_singleton]
  intro p hp
  simp only [List.mem_cons, List.not_mem_nil, or_false] at hp
  rcases hp with rfl | rfl | rfl
  · exact ⟨fun _ => rfl, fun hl => absurd hl Bool.false_ne_true⟩
  · simp [Accounted, hs₁]
  · trivial

/-- A scatter send leaves the connection in `kConnected`, so a close does not wait for it. -/
theorem drains_fails_scatter :
    fresh.Established ∧ healthySystem.Legal fresh [.sendScatter (.ofSize 0) [1] 0, .close] ∧
    ¬ ∀ p ∈ healthySystem.steps fresh [.sendScatter (.ofSize 0) [1] 0, .close],
      p.1.Drains p.2 := by
  have hopen : fresh.state_ ≠ .kWritting := by simp [fresh]
  obtain ⟨c₁, h₁, hs₁, hw₁⟩ : ∃ c, healthySystem.step fresh (.sendScatter (.ofSize 0) [1] 0) = .ok c ∧
      c.state_ = .kConnected ∧ c.writes ≠ [] :=
    ⟨_, step_sendScatter (.ofSize 0) [1] 0 hopen, rfl, by simp [accept, submit]⟩
  refine ⟨fresh_established, ?_, fun drains => ?_⟩
  · refine healthySystem.legal_cons_ok ⟨trivial, le_refl 0⟩ h₁ ?_
    exact healthySystem.legal_singleton ⟨trivial, trivial⟩
  · rw [healthySystem.steps_cons_ok _ h₁, healthySystem.steps_singleton] at drains
    have hclose := drains (c₁, .close) (by simp) _ (handleClose_connected hs₁)
    exact hw₁ (hclose (by simp [hs₁]) rfl).2.1

end TcpConnection
end WsEngine
