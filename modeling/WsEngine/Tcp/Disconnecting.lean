import WsEngine.Tcp.System

/-! # Which events disconnect

`handleClose` disconnects a connection that it finds open, and the completion callback does so after
the last write. In every state an event either disconnects, and tells the callbacks, or tells nobody
and leaves `kDisconnected` to connections that were there. -/
set_option autoImplicit false

namespace WsEngine
namespace TcpConnection

/-- The event disconnects the connection and runs its callbacks. -/
def Disconnects (c : TcpConnection) : TcpEvent → Prop
  | .close | .readEnd _ => c.state_ = .kConnected ∨ c.state_ = .kConnecting
  | .writeDone status _ =>
    if status < 0 then c.state_ = .kConnected ∨ c.state_ = .kConnecting
    else c.isLastWrite = true ∨ c.outputBuf.readable = [] ∧ c.state_ = .kDisconnecting
  | .send _ _ | .sendBuffer _ _ | .sendScatter _ _ _ | .readData _ => False

instance (c : TcpConnection) : (e : TcpEvent) → Decidable (c.Disconnects e)
  | .close | .readEnd _ =>
    inferInstanceAs (Decidable (c.state_ = .kConnected ∨ c.state_ = .kConnecting))
  | .writeDone status _ => inferInstanceAs (Decidable (
    if status < 0 then c.state_ = .kConnected ∨ c.state_ = .kConnecting
    else c.isLastWrite = true ∨ c.outputBuf.readable = [] ∧ c.state_ = .kDisconnecting))
  | .send _ _ | .sendBuffer _ _ | .sendScatter _ _ _ | .readData _ => isFalse id

/-- The callbacks were told, once more. -/
structure Told (c c' : TcpConnection) : Prop where
  notified : c'.notified = c.notified + 1
  state : c'.state_ = .kDisconnected
  reading : c'.reading = false

structure Untold (c c' : TcpConnection) : Prop where
  notified : c'.notified = c.notified
  state : c'.state_ = .kDisconnected → c.state_ = .kDisconnected
  reading : c'.reading = true → c.reading = true

theorem told_disconnected (c : TcpConnection) : c.Told c.disconnected := ⟨rfl, rfl, rfl⟩

theorem handleClose_open {c : TcpConnection} (h : c.state_ = .kConnected ∨ c.state_ = .kConnecting) :
    c.handleClose = .ok c.disconnected := by
  have hw : c.state_ ≠ .kWritting := by
    rcases h with h | h
    · rw [h]
      decide
    · rw [h]
      decide
  rw [handleClose, if_neg hw, if_pos h]
  rfl

theorem handleClose_untold {c c' : TcpConnection}
    (h : ¬ (c.state_ = .kConnected ∨ c.state_ = .kConnecting)) (hc : c.handleClose = .ok c') :
    c.Untold c' := by
  obtain ⟨-, rfl⟩ | ⟨ho, -⟩ := handleClose_cases hc
  · exact ⟨rfl, nofun, id⟩
  · exact absurd ho h

theorem send_untold {c c' : TcpConnection} {bytes : Bytes} {uv : ℤ}
    (hc : c.step (.send bytes uv) = .ok c') : c.Untold c' := by
  by_cases hw : c.state_ = .kWritting
  · rw [step_send_writting bytes uv hw] at hc
    cases hc
    exact ⟨rfl, id, id⟩
  · by_cases ho : c.state_ = .kConnected
    · rw [step_send_connected bytes uv ho] at hc
      cases hc
      exact ⟨rfl, nofun, id⟩
    · rw [step_send_closed bytes uv hw ho] at hc
      cases hc

theorem sendScatter_untold {c c' : TcpConnection} {header : Buffer} {body : Bytes} {uv : ℤ}
    (hc : c.step (.sendScatter header body uv) = .ok c') : c.Untold c' := by
  by_cases hw : c.state_ = .kWritting
  · rw [step_sendScatter_writting header body uv hw] at hc
    cases hc
    exact ⟨rfl, id, id⟩
  · rw [step_sendScatter header body uv hw] at hc
    cases hc
    exact ⟨rfl, id, id⟩

/-- **What disconnects** returns, and the callbacks are told. -/
theorem step_told {c : TcpConnection} {e : TcpEvent} (possible : c.Possible e)
    (h : c.Disconnects e) : ∃ c', c.step e = .ok c' ∧ c.Told c' := by
  cases e with
  | send bytes uv => exact h.elim
  | sendBuffer buf uv => exact h.elim
  | sendScatter header body uv => exact h.elim
  | readData bytes => exact h.elim
  | close => exact ⟨_, handleClose_open h, told_disconnected c⟩
  | readEnd nread =>
    have hopen : ({ c with reading := false } : TcpConnection).handleClose = .ok _ :=
      handleClose_open h
    rw [step_readEnd c possible.2]
    exact ⟨_, hopen, ⟨rfl, rfl, rfl⟩⟩
  | writeDone status uv =>
    simp only [Disconnects] at h
    by_cases hs : status < 0
    · rw [if_pos hs] at h
      have hopen : ({ c with writes := c.writes.tail } : TcpConnection).handleClose = .ok _ :=
        handleClose_open h
      rw [step_writeDone_failed c uv hs]
      exact ⟨_, hopen, ⟨rfl, rfl, rfl⟩⟩
    · rw [if_neg hs] at h
      rw [step_writeDone_ok c uv (by omega)]
      refine ⟨_, rfl, ?_⟩
      dsimp only
      by_cases hl : c.isLastWrite = true
      · rw [if_pos hl]
        exact ⟨rfl, rfl, rfl⟩
      · obtain ⟨hq, hd⟩ := h.resolve_left hl
        rw [if_neg hl, if_pos hq, if_pos hd]
        exact ⟨rfl, rfl, rfl⟩

/-- **What does not disconnect** tells nobody. -/
theorem step_untold {c c' : TcpConnection} {e : TcpEvent} (possible : c.Possible e)
    (h : ¬ c.Disconnects e) (hc : c.step e = .ok c') : c.Untold c' := by
  cases e with
  | send bytes uv => exact send_untold hc
  | sendBuffer buf uv =>
    rw [step_sendBuffer] at hc
    exact send_untold hc
  | sendScatter header body uv => exact sendScatter_untold hc
  | close => exact handleClose_untold h hc
  | readData bytes =>
    rw [step_readData c possible.2] at hc
    cases hc
    exact ⟨rfl, id, id⟩
  | readEnd nread =>
    rw [step_readEnd c possible.2] at hc
    have huntold := handleClose_untold (c := { c with reading := false }) h hc
    exact ⟨huntold.notified, huntold.state, fun hr => nomatch huntold.reading hr⟩
  | writeDone status uv =>
    simp only [Disconnects] at h
    by_cases hs : status < 0
    · rw [if_pos hs] at h
      rw [step_writeDone_failed c uv hs] at hc
      have huntold := handleClose_untold (c := { c with writes := c.writes.tail }) h hc
      exact ⟨huntold.notified, huntold.state, huntold.reading⟩
    · rw [if_neg hs] at h
      rw [step_writeDone_ok c uv (by omega)] at hc
      dsimp only at hc
      have hl : ¬ c.isLastWrite = true := fun hl => h (.inl hl)
      rw [if_neg hl] at hc
      by_cases hq : c.outputBuf.readable = []
      · have hd : ¬ c.state_ = .kDisconnecting := fun hd => h (.inr ⟨hq, hd⟩)
        rw [if_pos hq, if_neg hd] at hc
        cases hc
        exact ⟨rfl, nofun, id⟩
      · rw [if_neg hq] at hc
        by_cases hd : c.state_ = .kDisconnecting
        · rw [if_pos hd] at hc
          cases hc
          exact ⟨rfl, nofun, id⟩
        · rw [if_neg hd] at hc
          cases hc
          exact ⟨rfl, nofun, id⟩

end TcpConnection
end WsEngine
