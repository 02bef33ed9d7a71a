import WsEngine.Tcp.System

/-! # A connection that waits has a write to wait for

In `kWritting` sends are queued until a completion flushes them, and in `kDisconnecting` a close
waits for a completion, so in both states some request must still be with libuv. This holds
exactly as long as no refused request and no failed completion leaves `kWritting` or
`kDisconnecting` behind with nothing in flight: `send` sets `kWritting` before it knows whether
`uv_write` takes the request, and a failed completion calls `handleClose`, which only notes a
close for a completion that may not come. -/
set_option autoImplicit false

namespace WsEngine
namespace TcpConnection

def Progressing (c : TcpConnection) : Prop :=
  c.state_ = .kWritting ∨ c.state_ = .kDisconnecting → c.writes ≠ []

/-- The events that leave a request in flight where the connection needs one. -/
def KeepsWriting (c : TcpConnection) : TcpEvent → Prop
  | .send _ uv | .sendBuffer _ uv => c.state_ = .kConnected → 0 ≤ uv ∨ c.writes ≠ []
  | .writeDone status uv =>
    (status < 0 → c.state_ = .kWritting → 1 < c.writes.length) ∧
    (0 ≤ status → c.isLastWrite = false → c.outputBuf.readable ≠ [] →
      0 ≤ uv ∨ 1 < c.writes.length)
  | _ => True

def anySystem : EventSystem TcpConnection TcpEvent TcpFault := ⟨Possible, step⟩

instance (c : TcpConnection) (e : TcpEvent) : Decidable (anySystem.enabled c e) :=
  inferInstanceAs (Decidable (c.Possible e))

theorem submitted_ne_nil {writes : List (List UvBuf)} {bufs : List UvBuf} {uv : ℤ} :
    (if 0 ≤ uv then writes ++ [bufs] else writes) ≠ [] ↔ 0 ≤ uv ∨ writes ≠ [] := by
  split <;> simp [*]

theorem tail_ne_nil {writes : List (List UvBuf)} : writes.tail ≠ [] ↔ 1 < writes.length := by
  rw [← List.length_pos_iff, List.length_tail]
  omega

theorem progressing_send_iff {c : TcpConnection} (bytes : Bytes) (uv : ℤ) (hi : c.Progressing) :
    (∀ c', c.step (.send bytes uv) = .ok c' → c'.Progressing) ↔
      (c.state_ = .kConnected → 0 ≤ uv ∨ c.writes ≠ []) := by
  by_cases hw : c.state_ = .kWritting
  · rw [step_send_writting _ _ hw]
    simpa [hw, Progressing, accept] using hi
  · by_cases hc : c.state_ = .kConnected
    · rw [step_send_connected _ _ hc]
      simp only [Except.ok.injEq, forall_eq', hc, forall_const, Progressing, accept, submit, true_or,
        submitted_ne_nil]
    · rw [step_send_closed _ _ hw hc]
      simp [hc]

theorem progressing_handleClose {c c' : TcpConnection} (hw : c.state_ = .kWritting → c.writes ≠ [])
    (h : c.handleClose = .ok c') : c'.Progressing := by
  obtain ⟨hs, rfl⟩ | ⟨-, rfl⟩ := handleClose_cases h
  · intro _
    exact hw hs
  · intro hs
    rcases hs with hs | hs <;> cases hs

theorem progressing_failed_iff {c : TcpConnection} {status : ℤ} (uv : ℤ) (h : status < 0) :
    (∀ c', c.step (.writeDone status uv) = .ok c' → c'.Progressing) ↔
      (c.state_ = .kWritting → 1 < c.writes.length) := by
  rw [step_writeDone_failed _ _ h, ← tail_ne_nil]
  constructor
  · intro safe hw
    exact safe _ (handleClose_writting hw) (.inr rfl)
  · intro hw c' hc'
    exact progressing_handleClose hw hc'

theorem progressing_completed_iff {c : TcpConnection} {status : ℤ} (uv : ℤ) (h : 0 ≤ status) :
    (∀ c', c.step (.writeDone status uv) = .ok c' → c'.Progressing) ↔
      (c.isLastWrite = false → c.outputBuf.readable ≠ [] → 0 ≤ uv ∨ 1 < c.writes.length) := by
  rw [step_writeDone_ok _ _ h]
  simp only [Except.ok.injEq, forall_eq']
  by_cases hl : c.isLastWrite = true
  · rw [if_pos hl]
    simp [Progressing, disconnected, hl]
  · rw [if_neg hl]
    by_cases hq : c.outputBuf.readable = []
    · rw [if_pos hq]
      split
      · simp [Progressing, disconnected, hq]
      · simp [Progressing, setState, hq]
    · rw [if_neg hq, ← tail_ne_nil]
      have hl' : c.isLastWrite = false := by simpa using hl
      split
      · simp only [Progressing, flushed, true_or, forall_const, submitted_ne_nil]
        exact ⟨fun hs _ _ => hs, fun hs => hs hl' hq⟩
      · simp only [Progressing, flushed, true_or, forall_const, submitted_ne_nil]
        exact ⟨fun hs _ _ => hs, fun hs => hs hl' hq⟩

/-- **One step.** From a state that waits for something, an event keeps it so iff it is guarded. -/
theorem progressing_step_iff {c : TcpConnection} {e : TcpEvent} (hi : c.Progressing)
    (possible : c.Possible e) :
    (∀ c', c.step e = .ok c' → c'.Progressing) ↔ c.KeepsWriting e := by
  have hclose : ∀ d : TcpConnection, d.state_ = c.state_ → d.writes = c.writes →
      ∀ c', d.handleClose = .ok c' → c'.Progressing := by
    intro d hs hw c' hc'
    exact progressing_handleClose (fun h => hw ▸ hi (.inl (hs ▸ h))) hc'
  cases e with
  | send bytes uv => exact progressing_send_iff bytes uv hi
  | sendBuffer buf uv =>
    rw [step_sendBuffer]
    exact progressing_send_iff buf.readable uv hi
  | sendScatter header body uv =>
    simp only [KeepsWriting, iff_true]
    by_cases hw : c.state_ = .kWritting
    · rw [step_sendScatter_writting _ _ _ hw]
      rintro _ ⟨⟩
      exact hi
    · rw [step_sendScatter _ _ _ hw]
      rintro _ ⟨⟩
      intro hs
      exact submitted_ne_nil.mpr (.inr (hi hs))
  | close =>
    simp only [KeepsWriting, iff_true]
    exact hclose c rfl rfl
  | readData bytes =>
    simp only [KeepsWriting, iff_true]
    rw [step_readData _ possible.2]
    rintro _ ⟨⟩
    exact hi
  | readEnd nread =>
    simp only [KeepsWriting, iff_true]
    rw [step_readEnd _ possible.2]
    exact hclose _ rfl rfl
  | writeDone status uv =>
    by_cases h : status < 0
    · rw [progressing_failed_iff uv h]
      simp only [KeepsWriting]
      exact ⟨fun hs => ⟨fun _ => hs, fun h' => absurd h (by omega)⟩, fun hs => hs.1 h⟩
    · rw [progressing_completed_iff uv (by omega)]
      simp only [KeepsWriting]
      exact ⟨fun hs => ⟨fun h' => absurd h' h, fun _ => hs⟩, fun hs => hs.2 (by omega)⟩

/-- **Progress.** In a run of an established connection every state that waits has a request in
flight, iff every event of the run leaves one where it is needed. -/
theorem progress_iff {c : TcpConnection} (h : c.Established) {es : List TcpEvent}
    (legal : anySystem.Legal c es) :
    (∀ p ∈ anySystem.steps c es, ∀ c', p.1.step p.2 = .ok c' → c'.Progressing) ↔
      ∀ p ∈ anySystem.steps c es, p.1.KeepsWriting p.2 := by
  have hinit : c.Progressing := by
    intro hs
    rw [h.state] at hs
    rcases hs with hs | hs <;> cases hs
  refine anySystem.forall_steps_iff Progressing KeepsWriting
    (fun c e => ∀ c', c.step e = .ok c' → c'.Progressing) ?_ ?_ hinit legal
  · intro s e s' hi possible guard hs
    exact (progressing_step_iff hi possible).mpr guard s' hs
  · intro s e hi possible
    exact progressing_step_iff hi possible

/-- A send that libuv takes, then a close. -/
theorem progress_iff_send_close :
    anySystem.Legal fresh [.send [1] 0, .close] ∧
    ∀ p ∈ anySystem.steps fresh [.send [1] 0, .close],
      ∀ c', p.1.step p.2 = .ok c' → c'.Progressing := by
  have hsend : anySystem.step fresh (.send [1] 0) = .ok _ :=
    step_send_connected [1] 0 fresh_established.state
  have legal : anySystem.Legal fresh [.send [1] 0, .close] :=
    anySystem.legal_cons_ok trivial hsend (anySystem.legal_singleton trivial)
  refine ⟨legal, (progress_iff fresh_established legal).mpr ?_⟩
  rw [anySystem.steps_cons_ok _ hsend]
  intro p hp
  rcases List.mem_cons.mp hp with rfl | hp
  · intro _
    exact .inl (le_refl 0)
  · rw [List.mem_singleton.mp hp]
    trivial

/-- `uv_write` refuses the first request: the connection waits in `kWritting` with nothing in
flight. -/
theorem progress_fails_refused :
    fresh.Established ∧ anySystem.Legal fresh [.send [1] (-1)] ∧
    ¬ ∀ p ∈ anySystem.steps fresh [.send [1] (-1)],
      ∀ c', p.1.step p.2 = .ok c' → c'.Progressing := by
  have hsend : anySystem.step fresh (.send [1] (-1)) = .ok _ :=
    step_send_connected [1] (-1) fresh_established.state
  refine ⟨fresh_established, anySystem.legal_singleton trivial, fun h => ?_⟩
  exact h (fresh, .send [1] (-1)) (List.mem_cons_self ..) _ hsend (.inl rfl) rfl

end TcpConnection
end WsEngine
