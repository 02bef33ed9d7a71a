import WsEngine.Tcp.System

/-! # The close state machine

`handleClose` may be entered from a local close, from the end of the stream and from a failed
completion, and asserts that it finds the connection open. A run is sound when this assertion never
fails, the disconnect is notified at most once, and `kDisconnected` is final. It is sound exactly
when no close arrives in `kDisconnecting`, where one is already noted, and no completion arrives in
`kDisconnected`: the completion callback sets `kConnected` whatever it finds. -/
set_option autoImplicit false

namespace WsEngine
namespace TcpConnection

/-- Callers leave a disconnected connection alone. -/
def PossibleOpen (c : TcpConnection) (e : TcpEvent) : Prop :=
  c.Possible e ∧ match e with
    | .send _ _ | .sendBuffer _ _ | .sendScatter _ _ _ | .close => c.state_ ≠ .kDisconnected
    | _ => True

def openSystem : EventSystem TcpConnection TcpEvent TcpFault := ⟨PossibleOpen, step⟩

/-- What one event may do to the close state machine. -/
def ClosesSoundly (c : TcpConnection) (e : TcpEvent) : Prop :=
  c.step e ≠ .error .closeNotConnected ∧
  ∀ c', c.step e = .ok c' →
    c'.notified ≤ 1 ∧ (c.state_ = .kDisconnected → c'.state_ = .kDisconnected)

/-- The events that find the connection in a state that expects them. -/
def Expected (c : TcpConnection) : TcpEvent → Prop
  | .close | .readEnd _ => c.state_ ≠ .kDisconnecting
  | .writeDone status _ =>
    c.state_ ≠ .kDisconnected ∧ (status < 0 → c.state_ ≠ .kDisconnecting)
  | _ => True

/-- A connection was told of its disconnect exactly when it is disconnected, and reads no more. -/
structure CloseInv (c : TcpConnection) : Prop where
  before : c.state_ ≠ .kDisconnected → c.notified = 0
  after : c.state_ = .kDisconnected → c.notified = 1 ∧ c.reading = false
  established : c.state_ ≠ .kConnecting

theorem CloseInv.le {c : TcpConnection} (h : c.CloseInv) : c.notified ≤ 1 := by
  by_cases hd : c.state_ = .kDisconnected
  · rw [(h.after hd).1]
  · rw [h.before hd]
    decide

/-- What a step does to the close state machine: the connection stays open, or it disconnects. -/
def Moves (c c' : TcpConnection) : Prop :=
  (c'.notified = c.notified ∧ c'.state_ ≠ .kDisconnected ∧ c'.state_ ≠ .kConnecting) ∨
  (c'.notified = c.notified + 1 ∧ c'.state_ = .kDisconnected ∧ c'.reading = false)

theorem CloseInv.moves {c c' : TcpConnection} (h : c.CloseInv) (hd : c.state_ ≠ .kDisconnected)
    (hm : c.Moves c') : c'.CloseInv := by
  obtain ⟨hn, hd', hc'⟩ | ⟨hn, hd', hr⟩ := hm
  · exact ⟨fun _ => by rw [hn, h.before hd], fun hs => absurd hs hd', hc'⟩
  · exact ⟨fun hs => absurd hd' hs, fun _ => ⟨by rw [hn, h.before hd], hr⟩, by simp [hd']⟩

theorem handleClose_moves {c : TcpConnection} (h : c.state_ = .kWritting ∨ c.state_ = .kConnected) :
    ∃ c', c.handleClose = .ok c' ∧ c.Moves c' := by
  rcases h with h | h
  · exact ⟨_, handleClose_writting h, .inl ⟨rfl, by simp, by simp⟩⟩
  · exact ⟨_, handleClose_connected h, .inr ⟨rfl, rfl, rfl⟩⟩

theorem open_states {c : TcpConnection} (h : c.CloseInv) (hd : c.state_ ≠ .kDisconnected)
    (hg : c.state_ ≠ .kDisconnecting) : c.state_ = .kWritting ∨ c.state_ = .kConnected := by
  have hc := h.established
  cases hs : c.state_ <;> simp_all

theorem send_moves {c : TcpConnection} (bytes : Bytes) (uv : ℤ) :
    (∃ c', c.step (.send bytes uv) = .ok c' ∧ c.Moves c') ∨
      c.step (.send bytes uv) = .error .sendNotConnected := by
  by_cases hw : c.state_ = .kWritting
  · exact .inl ⟨_, step_send_writting bytes uv hw, .inl ⟨rfl, by simp [accept, hw], by simp [accept, hw]⟩⟩
  · by_cases hc : c.state_ = .kConnected
    · exact .inl ⟨_, step_send_connected bytes uv hc, .inl ⟨rfl, by simp [accept, submit],
        by simp [accept, submit]⟩⟩
    · exact .inr (step_send_closed bytes uv hw hc)

theorem writeDone_moves {c : TcpConnection} {status : ℤ} (uv : ℤ) (h : 0 ≤ status) :
    ∃ c', c.step (.writeDone status uv) = .ok c' ∧ c.Moves c' := by
  refine ⟨_, step_writeDone_ok c uv h, ?_⟩
  dsimp only
  split
  · exact .inr ⟨rfl, rfl, rfl⟩
  · split
    · split
      · exact .inr ⟨rfl, rfl, rfl⟩
      · exact .inl ⟨rfl, by simp [setState], by simp [setState]⟩
    · split
      · exact .inl ⟨rfl, by simp [flushed], by simp [flushed]⟩
      · exact .inl ⟨rfl, by simp [flushed], by simp [flushed]⟩

theorem open_of_expected {c : TcpConnection} {e : TcpEvent} (hi : c.CloseInv)
    (possible : c.PossibleOpen e) (expected : c.Expected e) : c.state_ ≠ .kDisconnected := by
  have hread : c.reading = true → c.state_ ≠ .kDisconnected := by
    intro hr hd
    rw [(hi.after hd).2] at hr
    cases hr
  cases e with
  | send bytes uv => exact possible.2
  | sendBuffer buf uv => exact possible.2
  | sendScatter header body uv => exact possible.2
  | close => exact possible.2
  | readData bytes => exact hread possible.1.1
  | readEnd nread => exact hread possible.1.1
  | writeDone status uv => exact expected.1

/-- **One guarded step** moves the state machine, or fails the assertion of `send`. -/
theorem step_moves {c : TcpConnection} {e : TcpEvent} (hi : c.CloseInv)
    (possible : c.PossibleOpen e) (expected : c.Expected e) :
    (∃ c', c.step e = .ok c' ∧ c.Moves c') ∨ c.step e = .error .sendNotConnected := by
  have hopen := open_of_expected hi possible expected
  cases e with
  | send bytes uv => exact send_moves bytes uv
  | sendBuffer buf uv =>
    rw [step_sendBuffer]
    exact send_moves buf.readable uv
  | sendScatter header body uv =>
    left
    by_cases hw : c.state_ = .kWritting
    · exact ⟨_, step_sendScatter_writting _ _ _ hw, .inl ⟨rfl, hopen, hi.established⟩⟩
    · exact ⟨_, step_sendScatter _ _ _ hw, .inl ⟨rfl, hopen, hi.established⟩⟩
  | close => exact .inl (handleClose_moves (open_states hi hopen expected))
  | readData bytes =>
    exact .inl ⟨_, step_readData _ possible.1.2, .inl ⟨rfl, hopen, hi.established⟩⟩
  | readEnd nread =>
    have hs : c.state_ = .kWritting ∨ c.state_ = .kConnected := open_states hi hopen expected
    rw [step_readEnd _ possible.1.2]
    exact .inl (handleClose_moves hs)
  | writeDone status uv =>
    by_cases h : status < 0
    · have hs : c.state_ = .kWritting ∨ c.state_ = .kConnected :=
        open_states hi hopen (expected.2 h)
      rw [step_writeDone_failed _ _ h]
      exact .inl (handleClose_moves hs)
    · exact .inl (writeDone_moves uv (by omega))

theorem writeDone_disconnected {c : TcpConnection} {status : ℤ} (uv : ℤ) (h : 0 ≤ status)
    (hn : c.notified = 1) : ¬ ∀ c', c.step (.writeDone status uv) = .ok c' →
      c'.notified ≤ 1 ∧ c'.state_ = .kDisconnected := by
  intro sound
  obtain ⟨c', hc', hm⟩ := writeDone_moves (c := c) uv h
  obtain ⟨hle, hd⟩ := sound c' hc'
  obtain ⟨-, hd', -⟩ | ⟨hn', -, -⟩ := hm
  · exact hd' hd
  · omega

theorem expected_of_sound {c : TcpConnection} {e : TcpEvent} (hi : c.CloseInv)
    (possible : c.PossibleOpen e) (sound : c.ClosesSoundly e) : c.Expected e := by
  obtain ⟨hassert, hstate⟩ := sound
  cases e with
  | send bytes uv => trivial
  | sendBuffer buf uv => trivial
  | sendScatter header body uv => trivial
  | close => exact fun hg => hassert (handleClose_closed (.inl hg))
  | readData bytes => trivial
  | readEnd nread =>
    rw [step_readEnd _ possible.1.2] at hassert
    intro hg
    exact hassert (handleClose_closed (.inl hg))
  | writeDone status uv =>
    by_cases h : status < 0
    · rw [step_writeDone_failed _ _ h] at hassert
      exact ⟨fun hd => hassert (handleClose_closed (.inr hd)),
        fun _ hg => hassert (handleClose_closed (.inl hg))⟩
    · refine ⟨fun hd => ?_, fun h' => absurd h' h⟩
      exact writeDone_disconnected uv (by omega) (hi.after hd).1
        fun c' hc' => ⟨(hstate c' hc').1, (hstate c' hc').2 hd⟩

theorem sound_iff_expected {c : TcpConnection} {e : TcpEvent} (hi : c.CloseInv)
    (possible : c.PossibleOpen e) : c.ClosesSoundly e ↔ c.Expected e := by
  refine ⟨expected_of_sound hi possible, fun expected => ?_⟩
  have hopen := open_of_expected hi possible expected
  obtain ⟨c', hc', hm⟩ | hf := step_moves hi possible expected
  · refine ⟨by rw [hc']; simp, fun d hd => ?_⟩
    rw [hc'] at hd
    cases hd
    exact ⟨(hi.moves hopen hm).le, fun h => absurd h hopen⟩
  · exact ⟨by rw [hf]; simp, fun d hd => by rw [hf] at hd; cases hd⟩

theorem Established.closeInv {c : TcpConnection} (h : c.Established) : c.CloseInv where
  before := fun _ => h.notified
  after := fun hd => by simp [h.state] at hd
  established := by simp [h.state]

/-- **The close state machine** of an established connection is sound in a run iff every event of
the run finds the connection in a state that expects it. -/
theorem closing_sound_iff {c : TcpConnection} (h : c.Established) {es : List TcpEvent}
    (legal : openSystem.Legal c es) :
    (∀ p ∈ openSystem.steps c es, p.1.ClosesSoundly p.2) ↔
      ∀ p ∈ openSystem.steps c es, p.1.Expected p.2 := by
  refine openSystem.forall_steps_iff CloseInv Expected ClosesSoundly ?_ ?_ h.closeInv legal
  · intro s e s' hi possible expected hs
    have hopen := open_of_expected hi possible expected
    obtain ⟨c', hc', hm⟩ | hf := step_moves hi possible expected
    · rw [show openSystem.step s e = .ok c' from hc'] at hs
      cases hs
      exact hi.moves hopen hm
    · rw [show openSystem.step s e = .error _ from hf] at hs
      cases hs
  · intro s e hi possible
    exact sound_iff_expected hi possible

/-- A send and a close while it is in flight: the close waits for the completion. -/
theorem send_close_waits : ∃ c₁ c₂, openSystem.step fresh (.send [1] 0) = .ok c₁ ∧
    openSystem.step c₁ .close = .ok c₂ ∧ c₁.state_ = .kWritting ∧ c₂.state_ = .kDisconnecting ∧
    c₂.writes ≠ [] ∧ c₂.reading = true := by
  obtain ⟨c₁, h₁, hs₁, hw₁, hr₁⟩ : ∃ c, openSystem.step fresh (.send [1] 0) = .ok c ∧
      c.state_ = .kWritting ∧ c.writes ≠ [] ∧ c.reading = true :=
    ⟨_, step_send_connected [1] 0 fresh_established.state, rfl, by simp [accept, submit], rfl⟩
  exact ⟨c₁, _, h₁, handleClose_writting hs₁, hs₁, rfl, hw₁, hr₁⟩

theorem closing_sound_send_close_done :
    openSystem.Legal fresh [.send [1] 0, .close, .writeDone 0 0] ∧
    ∀ p ∈ openSystem.steps fresh [.send [1] 0, .close, .writeDone 0 0],
      p.1.ClosesSoundly p.2 := by
  obtain ⟨c₁, c₂, h₁, h₂, hs₁, hs₂, hw, -⟩ := send_close_waits
  have legal : openSystem.Legal fresh [.send [1] 0, .close, .writeDone 0 0] := by
    refine openSystem.legal_cons_ok ⟨trivial, by simp [fresh]⟩ h₁ ?_
    refine openSystem.legal_cons_ok ⟨trivial, by simp [hs₁]⟩ h₂ ?_
    exact openSystem.legal_singleton ⟨hw, trivial⟩
  refine ⟨legal, (closing_sound_iff fresh_established legal).mpr ?_⟩
  rw [openSystem.steps_cons_ok _ h₁, openSystem.steps_cons_ok _ h₂, openSystem.steps_singleton]
  intro p hp
  simp only [List.mem_cons, List.not_mem_nil, or_false] at hp
  rcases hp with rfl | rfl | rfl
  · trivial
  · simp [Expected, hs₁]
  · simp [Expected, hs₂]

/-- The peer ends its stream while a local close waits for a write: the assertion fails. -/
theorem closing_fails_on_eof :
    fresh.Established ∧
    openSystem.Legal fresh [.send [1] 0, .close, .readEnd (-4095)] ∧
    ¬ ∀ p ∈ openSystem.steps fresh [.send [1] 0, .close, .readEnd (-4095)],
      p.1.ClosesSoundly p.2 := by
  obtain ⟨c₁, c₂, h₁, h₂, hs₁, hs₂, -, hr⟩ := send_close_waits
  refine ⟨fresh_established, ?_, fun sound => ?_⟩
  · refine openSystem.legal_cons_ok ⟨trivial, by simp [fresh]⟩ h₁ ?_
    refine openSystem.legal_cons_ok ⟨trivial, by simp [hs₁]⟩ h₂ ?_
    exact openSystem.legal_singleton ⟨⟨hr, by decide⟩, trivial⟩
  · rw [openSystem.steps_cons_ok _ h₁, openSystem.steps_cons_ok _ h₂, openSystem.steps_singleton]
      at sound
    have hend : c₂.step (.readEnd (-4095)) = .error .closeNotConnected := by
      rw [step_readEnd _ (by decide)]
      exact handleClose_closed (.inl hs₂)
    exact (sound (c₂, .readEnd (-4095)) (by simp)).1 hend

end TcpConnection
end WsEngine
