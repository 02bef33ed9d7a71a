import WsEngine.Tcp.System

/-! # The byte counters

`bytesRead_` and `bytesWritten_` are meant to count what was received and what was written. A
completion adds `lastWrite_`, which is the size of the one request in flight as long as every request
comes from `send(const char*, size_t)`. `send(Buffer&, String&&)` gives its request to libuv without
setting `lastWrite_` and without waiting for the one before, so what its completion adds is the size
of some other request, or nothing. Both counters are `int`, which the bytes of a long connection
exceed. -/
set_option autoImplicit false

namespace WsEngine

/-- The bytes of a request. -/
def UvBuf.total (bufs : List UvBuf) : ℕ := (bufs.flatMap UvBuf.bytes).length

namespace TcpConnection

/-- The bytes of the oldest request in flight. -/
def oldest (c : TcpConnection) : ℕ := (c.writes.head?.map UvBuf.total).getD 0

end TcpConnection

/-- A connection with what it should have counted: the bytes of the writes that were completed, and
the bytes received. -/
structure Meter where
  tcp : TcpConnection
  written : ℕ
  received : ℕ

namespace Meter

def count (m : Meter) (tcp : TcpConnection) : TcpEvent → Meter
  | .readData bytes => ⟨tcp, m.written, m.received + bytes.length⟩
  | .writeDone status _ =>
    ⟨tcp, if status < 0 then m.written else m.written + m.tcp.oldest, m.received⟩
  | .send _ _ | .sendBuffer _ _ | .sendScatter _ _ _ | .close | .readEnd _ =>
    ⟨tcp, m.written, m.received⟩

def step (m : Meter) (e : TcpEvent) : Except TcpFault Meter :=
  (m.tcp.step e).map fun tcp => m.count tcp e

def system : EventSystem Meter TcpEvent TcpFault := ⟨fun m e => m.tcp.Possible e, step⟩

instance (m : Meter) (e : TcpEvent) : Decidable (system.enabled m e) :=
  inferInstanceAs (Decidable (m.tcp.Possible e))

def start (c : TcpConnection) : Meter := ⟨c, 0, 0⟩

/-! ## The specification -/

/-- The counters are right. -/
def Accounts (m : Meter) : Prop := m.tcp.bytesWritten_ = m.written ∧ m.tcp.bytesRead_ = m.received

instance (m : Meter) : Decidable m.Accounts := inferInstanceAs (Decidable (_ ∧ _))

/-- No scatter send hands libuv a request: it is queued behind the one in flight, or refused. And the
totals stay in the range of an `int`. -/
def Counted (m : Meter) : TcpEvent → Prop
  | .sendScatter _ _ uv => m.tcp.state_ = .kWritting ∨ uv < 0
  | .readData bytes => m.received + bytes.length < 2 ^ 31
  | .writeDone status _ => 0 ≤ status → m.written + m.tcp.oldest < 2 ^ 31
  | .send _ _ | .sendBuffer _ _ | .close | .readEnd _ => True

instance (m : Meter) : DecidablePred m.Counted
  | .sendScatter _ _ _ => inferInstanceAs (Decidable (_ ∨ _))
  | .readData _ => inferInstanceAs (Decidable (_ < _))
  | .writeDone _ _ => inferInstanceAs (Decidable (_ → _))
  | .send _ _ | .sendBuffer _ _ | .close | .readEnd _ => isTrue trivial

end Meter

namespace TcpConnection

/-! ## The request in flight -/

/-- At most one request is in flight, of `lastWrite_` bytes, and none where another may be given to
libuv. -/
structure Single (c : TcpConnection) : Prop where
  one : c.writes.length ≤ 1
  last : ∀ bufs ∈ c.writes, c.lastWrite_ = UvBuf.total bufs
  idle : c.state_ ≠ .kWritting → c.state_ ≠ .kDisconnecting → c.writes = []

theorem Single.of_none {c : TcpConnection} (h : c.writes = []) : c.Single := by
  refine ⟨?_, ?_, fun _ _ => h⟩
  · rw [h]
    exact Nat.zero_le 1
  · rw [h]
    exact nofun

theorem Single.congr {c c' : TcpConnection} (h : c.Single) (hwrites : c'.writes = c.writes)
    (hlast : c'.lastWrite_ = c.lastWrite_)
    (hstate : c.state_ = .kWritting ∨ c.state_ = .kDisconnecting →
      c'.state_ = .kWritting ∨ c'.state_ = .kDisconnecting) : c'.Single := by
  refine ⟨hwrites ▸ h.one, ?_, fun hw hd => ?_⟩
  · rw [hwrites, hlast]
    exact h.last
  · rw [hwrites]
    by_contra hne
    obtain hs | hs := hstate (by
      by_contra hopen
      exact hne (h.idle (fun hs => hopen (.inl hs)) fun hs => hopen (.inr hs)))
    · exact hw hs
    · exact hd hs

/-- The only request in flight is the last one that was sent. -/
theorem Single.oldest {c : TcpConnection} (h : c.Single) (hne : c.writes ≠ []) :
    c.oldest = c.lastWrite_ ∧ c.writes.tail = [] := by
  obtain ⟨bufs, hbufs⟩ := List.length_eq_one_iff.mp
    (Nat.le_antisymm h.one (List.length_pos_iff.mpr hne))
  have hlast := h.last bufs (by rw [hbufs]; exact List.mem_singleton_self bufs)
  constructor
  · rw [TcpConnection.oldest, hbufs, hlast]
    rfl
  · rw [hbufs]
    rfl

theorem Single.of_request {c : TcpConnection} {buf : UvBuf} (hs : c.state_ = .kWritting)
    (hlast : c.lastWrite_ = buf.bytes.length) (uv : ℤ)
    (hwrites : c.writes = if 0 ≤ uv then [[buf]] else []) : c.Single := by
  by_cases huv : 0 ≤ uv
  · rw [if_pos huv] at hwrites
    refine ⟨?_, ?_, fun hw => absurd hs hw⟩
    · rw [hwrites]
      exact le_refl 1
    · rw [hwrites]
      intro bufs hbufs
      rw [List.mem_singleton.mp hbufs, UvBuf.total, List.flatMap_singleton, hlast]
  · rw [if_neg huv] at hwrites
    exact .of_none hwrites

theorem Single.accept {c : TcpConnection} (h : c.Single) (bytes : Bytes) : (c.accept bytes).Single :=
  h.congr rfl rfl id

theorem single_send {c c' : TcpConnection} (h : c.Single) {bytes : Bytes} {uv : ℤ}
    (hstep : c.step (.send bytes uv) = .ok c') : c'.Single := by
  by_cases hw : c.state_ = .kWritting
  · rw [step_send_writting _ _ hw] at hstep
    cases hstep
    exact h.congr rfl rfl id
  · by_cases hc : c.state_ = .kConnected
    · have hnone : c.writes = [] := h.idle hw (by rw [hc]; decide)
      rw [step_send_connected _ _ hc] at hstep
      cases hstep
      have hlast : bytes.length = (⟨bytes, none⟩ : UvBuf).bytes.length := rfl
      refine Single.accept (.of_request rfl hlast uv ?_) bytes
      change (if 0 ≤ uv then c.writes ++ [[⟨bytes, none⟩]] else c.writes) = _
      rw [hnone]
      rfl
    · rw [step_send_closed _ _ hw hc] at hstep
      cases hstep

theorem single_sendScatter {c c' : TcpConnection} (h : c.Single) {header : Buffer} {body : Bytes}
    {uv : ℤ} (hcounted : c.state_ = .kWritting ∨ uv < 0)
    (hstep : c.step (.sendScatter header body uv) = .ok c') : c'.Single := by
  by_cases hw : c.state_ = .kWritting
  · rw [step_sendScatter_writting _ _ _ hw] at hstep
    cases hstep
    exact h.congr rfl rfl id
  · have huv : ¬ 0 ≤ uv := Int.not_le.mpr (hcounted.resolve_left hw)
    rw [step_sendScatter _ _ _ hw] at hstep
    cases hstep
    exact h.congr (if_neg huv) rfl id

theorem single_handleClose {c c' : TcpConnection} (h : c.Single) (hstep : c.handleClose = .ok c') :
    c'.Single := by
  obtain ⟨-, rfl⟩ | ⟨hopen, rfl⟩ := handleClose_cases hstep
  · exact h.congr rfl rfl fun _ => .inr rfl
  · refine .of_none (h.idle ?_ ?_)
    · obtain hs | hs := hopen <;> rw [hs] <;> decide
    · obtain hs | hs := hopen <;> rw [hs] <;> decide

theorem single_flushed {c : TcpConnection} (hnone : c.writes = []) (uv : ℤ) :
    (c.flushed uv).Single := by
  have hlast : (c.flushed uv).lastWrite_ = c.pending.bytes.length := rfl
  refine .of_request rfl hlast uv ?_
  change (if 0 ≤ uv then c.writes ++ [[c.pending]] else c.writes) = _
  rw [hnone]
  rfl

theorem single_writeDone {c c' : TcpConnection} (h : c.Single) (hne : c.writes ≠ []) {status uv : ℤ}
    (hstep : c.step (.writeDone status uv) = .ok c') : c'.Single := by
  have hnone : { c with writes := c.writes.tail }.writes = [] := (h.oldest hne).2
  by_cases hstatus : status < 0
  · rw [step_writeDone_failed _ _ hstatus] at hstep
    exact single_handleClose (.of_none hnone) hstep
  · rw [step_writeDone_ok _ _ (Int.not_lt.mp hstatus)] at hstep
    cases hstep
    dsimp only
    split
    · exact .of_none hnone
    · split
      · split
        · exact .of_none hnone
        · exact .of_none hnone
      · split
        · exact single_flushed (by exact hnone) uv
        · exact single_flushed (by exact hnone) uv

/-- **One request at a time**, where no scatter send gives libuv another. -/
theorem single_step {m : Meter} {e : TcpEvent} {c' : TcpConnection} (h : m.tcp.Single)
    (possible : m.tcp.Possible e) (hcounted : m.Counted e) (hstep : m.tcp.step e = .ok c') :
    c'.Single := by
  cases e with
  | send bytes uv => exact single_send h hstep
  | sendBuffer buf uv =>
    rw [step_sendBuffer] at hstep
    exact single_send h hstep
  | sendScatter header body uv => exact single_sendScatter h hcounted hstep
  | close => exact single_handleClose h hstep
  | readData bytes =>
    rw [step_readData _ possible.2] at hstep
    cases hstep
    exact h.congr rfl rfl id
  | readEnd nread =>
    rw [step_readEnd _ possible.2] at hstep
    have hreading : { m.tcp with reading := false }.Single := h.congr rfl rfl id
    exact single_handleClose hreading hstep
  | writeDone status uv => exact single_writeDone h possible hstep

/-! ## The counters -/

theorem addInt_eq {total len : ℕ} (h : total + len < 2 ^ 31) :
    addInt total len = (total + len : ℕ) := by
  unfold addInt
  rw [Int.bmod_eq_of_le (by omega) (by omega), Int.natCast_add]

/-- Both counters after an event. -/
def counters (c : TcpConnection) : TcpEvent → ℤ × ℤ
  | .readData bytes => (c.bytesWritten_, addInt c.bytesRead_ bytes.length)
  | .writeDone status _ =>
    (if status < 0 then c.bytesWritten_ else addInt c.bytesWritten_ c.lastWrite_, c.bytesRead_)
  | .send _ _ | .sendBuffer _ _ | .sendScatter _ _ _ | .close | .readEnd _ =>
    (c.bytesWritten_, c.bytesRead_)

theorem counters_send {c c' : TcpConnection} {bytes : Bytes} {uv : ℤ}
    (hstep : c.step (.send bytes uv) = .ok c') :
    (c'.bytesWritten_, c'.bytesRead_) = (c.bytesWritten_, c.bytesRead_) := by
  by_cases hw : c.state_ = .kWritting
  · rw [step_send_writting _ _ hw] at hstep
    cases hstep
    rfl
  · by_cases hc : c.state_ = .kConnected
    · rw [step_send_connected _ _ hc] at hstep
      cases hstep
      rfl
    · rw [step_send_closed _ _ hw hc] at hstep
      cases hstep

theorem counters_handleClose {c c' : TcpConnection} (hstep : c.handleClose = .ok c') :
    (c'.bytesWritten_, c'.bytesRead_) = (c.bytesWritten_, c.bytesRead_) := by
  obtain ⟨-, rfl⟩ | ⟨-, rfl⟩ := handleClose_cases hstep
  · rfl
  · rfl

theorem counters_step {c c' : TcpConnection} {e : TcpEvent} (possible : c.Possible e)
    (hstep : c.step e = .ok c') : (c'.bytesWritten_, c'.bytesRead_) = c.counters e := by
  cases e with
  | send bytes uv => exact counters_send hstep
  | sendBuffer buf uv =>
    rw [step_sendBuffer] at hstep
    exact counters_send hstep
  | sendScatter header body uv =>
    by_cases hw : c.state_ = .kWritting
    · rw [step_sendScatter_writting _ _ _ hw] at hstep
      cases hstep
      rfl
    · rw [step_sendScatter _ _ _ hw] at hstep
      cases hstep
      rfl
  | close => exact counters_handleClose hstep
  | readData bytes =>
    rw [step_readData _ possible.2] at hstep
    cases hstep
    rfl
  | readEnd nread =>
    rw [step_readEnd _ possible.2] at hstep
    exact (counters_handleClose hstep).trans rfl
  | writeDone status uv =>
    by_cases hstatus : status < 0
    · rw [step_writeDone_failed _ _ hstatus] at hstep
      rw [counters, if_pos hstatus]
      exact (counters_handleClose hstep).trans rfl
    · rw [step_writeDone_ok _ _ (Int.not_lt.mp hstatus)] at hstep
      cases hstep
      rw [counters, if_neg hstatus]
      dsimp only
      split
      · rfl
      · split
        · split <;> rfl
        · split <;> rfl

end TcpConnection

namespace Meter

/-! ## Runs -/

structure Inv (m : Meter) : Prop where
  single : m.tcp.Single
  accounts : m.Accounts

theorem Inv.step {m m' : Meter} {e : TcpEvent} (h : m.Inv) (possible : m.tcp.Possible e)
    (hcounted : m.Counted e) (hstep : m.step e = .ok m') : m'.Inv := by
  obtain ⟨tcp, htcp, rfl⟩ := Except.map_eq_ok.mp hstep
  obtain ⟨hwritten, hread⟩ := h.accounts
  have hsingle := TcpConnection.single_step h.single possible hcounted htcp
  have hcounters := TcpConnection.counters_step possible htcp
  unfold TcpConnection.counters at hcounters
  cases e with
  | send _ _ | sendBuffer _ _ | sendScatter _ _ _ | close | readEnd _ =>
    obtain ⟨hw, hr⟩ := Prod.mk.inj hcounters
    exact ⟨hsingle, hw.trans hwritten, hr.trans hread⟩
  | readData bytes =>
    obtain ⟨hw, hr⟩ := Prod.mk.inj hcounters
    rw [hread, TcpConnection.addInt_eq hcounted] at hr
    exact ⟨hsingle, hw.trans hwritten, hr⟩
  | writeDone status uv =>
    obtain ⟨hw, hr⟩ := Prod.mk.inj hcounters
    refine ⟨hsingle, ?_, hr.trans hread⟩
    change tcp.bytesWritten_ = ((if status < 0 then m.written else m.written + m.tcp.oldest : ℕ) : ℤ)
    by_cases hstatus : status < 0
    · rw [hw, if_pos hstatus, if_pos hstatus, hwritten]
    · have holdest := (h.single.oldest possible).1
      have hbound := hcounted (Int.not_lt.mp hstatus)
      rw [holdest] at hbound
      rw [hw, if_neg hstatus, if_neg hstatus, hwritten, holdest, TcpConnection.addInt_eq hbound]

/-- **Byte accounting.** -/
theorem accounts_of_counted {c : TcpConnection} (h : c.Established) (hwritten : c.bytesWritten_ = 0)
    (hread : c.bytesRead_ = 0) {es : List TcpEvent} (legal : system.Legal (start c) es)
    (counted : ∀ p ∈ system.steps (start c) es, p.1.Counted p.2) {m : Meter}
    (run : system.run (start c) es = .ok m) : m.Accounts := by
  have hinv : (start c).Inv := ⟨.of_none h.writes, hwritten, hread⟩
  exact (system.run_invariant_of_guard Inv Counted
    (fun _ _ _ hi possible hcounted hs => hi.step possible hcounted hs) hinv legal counted run).accounts

/-- A send of two bytes and its completion, and a read. -/
theorem accounts_of_counted_send :
    ∃ m, system.run (start .fresh) [.send [1, 2] 0, .writeDone 0 0, .readData [3]] = .ok m ∧
      m.Accounts ∧ m.written = 2 ∧ m.received = 1 := by
  have legal : system.Legal (start .fresh) [.send [1, 2] 0, .writeDone 0 0, .readData [3]] := by
    decide +kernel
  refine ⟨_, rfl, accounts_of_counted TcpConnection.fresh_established rfl rfl legal ?_ rfl, ?_, ?_⟩
  · decide +kernel
  · decide +kernel
  · decide +kernel

/-- A scatter send of one byte and its completion, which adds nothing. -/
theorem not_accounts_scatter :
    TcpConnection.fresh.Established ∧
      system.Legal (start .fresh) [.sendScatter (.ofSize 0) [1] 0, .writeDone 0 0] ∧
      ∃ m, system.run (start .fresh) [.sendScatter (.ofSize 0) [1] 0, .writeDone 0 0] = .ok m ∧
        ¬ m.Accounts := by
  refine ⟨TcpConnection.fresh_established, by decide +kernel, _, rfl, by decide +kernel⟩

end Meter
end WsEngine
