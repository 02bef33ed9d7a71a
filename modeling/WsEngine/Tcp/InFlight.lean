import WsEngine.Tcp.Progress

/-! # Memory that libuv still reads

A flush gives `uv_write` a pointer into `outputBuf` and then retrieves those bytes, so the buffer
takes their memory for free space while libuv may still read it. A later append that fits only
after compaction starts over at the front of `buf_` and can run into them. A run keeps every region
in flight intact as long as no append touches one. -/
set_option autoImplicit false

namespace WsEngine
open Window

namespace Buffer

/-- Offset and length of the memory that appending `len` bytes changes: the bytes themselves, and
with a compaction the readable bytes moved to the front. -/
def writeArea (b : Buffer) (len : ℕ) : ℕ × ℕ :=
  if b.remaining < len ∧ len ≤ b.available then (0, b.readable.length + len)
  else (b.writeIndex_, len)

def Clear (b : Buffer) (len : ℕ) (regions : List (ℕ × ℕ)) : Prop :=
  ∀ r ∈ regions, r.1 + r.2 ≤ (b.writeArea len).1 ∨
    (b.writeArea len).1 + (b.writeArea len).2 ≤ r.1

instance (b : Buffer) (len : ℕ) (regions : List (ℕ × ℕ)) : Decidable (b.Clear len regions) :=
  inferInstanceAs (Decidable (∀ r ∈ regions, _ ∨ _))

theorem length_le_write (b : Buffer) (bytes : Bytes) :
    b.buf_.length ≤ (b.write bytes).buf_.length := by
  have hroom := b.le_remaining_ensureSpace bytes.length
  have hsize := (b.ensureSpace bytes.length).2.write_le_size
  unfold remaining at hroom
  simp only [write, store]
  rw [length_overwrite (by omega)]
  obtain ⟨-, -, e⟩ | ⟨-, -, -, e⟩ | ⟨-, more, n, -, -, e⟩ := b.ensureSpace_cases bytes.length
  · rw [e]
  · rw [e]
    obtain ⟨-, h2, h3⟩ := b.index_bounds
    simp only [compact]
    rw [length_overwrite (by omega)]
  · rw [e]
    simp [resize]

theorem window_write {b : Buffer} {bytes : Bytes} {o len : ℕ} (hin : o + len ≤ b.buf_.length)
    (hclear : b.Clear bytes.length [(o, len)]) :
    window o len (b.write bytes).buf_ = window o len b.buf_ := by
  obtain ⟨h1, h2, h3⟩ := b.index_bounds
  have hd := hclear (o, len) (List.mem_singleton_self _)
  unfold writeArea at hd
  simp only [write, store]
  obtain ⟨hfit, -, e⟩ | ⟨hsmall, hfit, -, e⟩ | ⟨hfull, more, n, -, -, e⟩ :=
    b.ensureSpace_cases bytes.length
  · rw [if_neg (by omega)] at hd
    rw [e]
    exact window_overwrite_of_disjoint h2 hd
  · rw [if_pos ⟨hsmall, hfit⟩] at hd
    simp only at hd
    have hfront : window o len (overwrite b.buf_ 0 b.readable) = window o len b.buf_ :=
      window_overwrite_of_disjoint (Nat.zero_le _) (by omega)
    rw [e, ← hfront]
    simp only [compact]
    refine window_overwrite_of_disjoint ?_ (by omega)
    rw [length_overwrite (by omega)]
    omega
  · rw [if_neg (by omega)] at hd
    rw [e, ← window_append (List.replicate more 0) hin]
    simp only [resize]
    refine window_overwrite_of_disjoint ?_ hd
    rw [List.length_append]
    omega

end Buffer

namespace TcpConnection

/-- The requests in flight that point into `outputBuf`, as their bytes and where these lie. -/
def outputRegions (c : TcpConnection) : List (Bytes × ℕ × ℕ) :=
  c.writes.flatten.filterMap fun b => b.region.map fun r => (b.bytes, r)

def regions (c : TcpConnection) : List (ℕ × ℕ) := c.outputRegions.map Prod.snd

/-- Every region in flight still holds what was submitted. -/
def Intact (c : TcpConnection) : Prop :=
  ∀ r ∈ c.outputRegions, window r.2.1 r.2.2 c.outputBuf.buf_ = r.1

instance (c : TcpConnection) : Decidable c.Intact :=
  inferInstanceAs (Decidable (∀ r ∈ c.outputRegions, _ = _))

/-- An append to `outputBuf` touches no region in flight. -/
def SparesRegions (c : TcpConnection) : TcpEvent → Prop
  | .send bytes _ => c.state_ = .kWritting → c.outputBuf.Clear bytes.length c.regions
  | .sendBuffer buf _ => c.state_ = .kWritting → c.outputBuf.Clear buf.readable.length c.regions
  | .sendScatter header body _ =>
    c.state_ = .kWritting →
      c.outputBuf.Clear header.readable.length c.regions ∧
      (c.outputBuf.write header.readable).Clear body.length c.regions
  | _ => True

instance (c : TcpConnection) : (e : TcpEvent) → Decidable (c.SparesRegions e)
  | .send _ _ | .sendBuffer _ _ | .sendScatter _ _ _ =>
    inferInstanceAs (Decidable (c.state_ = .kWritting → _))
  | .close | .readData _ | .readEnd _ | .writeDone _ _ => isTrue trivial

structure RegionInv (c : TcpConnection) : Prop where
  intact : c.Intact
  inside : ∀ r ∈ c.regions, r.1 + r.2 ≤ c.outputBuf.buf_.length

theorem RegionInv.append {c : TcpConnection} {bytes : Bytes} (h : c.RegionInv)
    (hclear : c.outputBuf.Clear bytes.length c.regions) :
    { c with outputBuf := c.outputBuf.write bytes }.RegionInv := by
  refine ⟨fun r hr => ?_, fun r hr => ?_⟩
  · have hmem : r.2 ∈ c.regions := List.mem_map_of_mem hr
    have hkeep : window r.2.1 r.2.2 (c.outputBuf.write bytes).buf_ =
        window r.2.1 r.2.2 c.outputBuf.buf_ :=
      Buffer.window_write (h.inside r.2 hmem) fun s hs => by
        rw [List.mem_singleton.mp hs]
        exact hclear r.2 hmem
    exact hkeep.trans (h.intact r hr)
  · exact (h.inside r hr).trans (Buffer.length_le_write _ _)

theorem RegionInv.mono {c c' : TcpConnection} (h : c.RegionInv)
    (hbuf : c'.outputBuf.buf_ = c.outputBuf.buf_) (hsub : c'.outputRegions ⊆ c.outputRegions) :
    c'.RegionInv := by
  refine ⟨fun r hr => hbuf ▸ h.intact r (hsub hr), fun r hr => ?_⟩
  obtain ⟨q, hq, rfl⟩ := List.mem_map.mp hr
  exact hbuf ▸ h.inside q.2 (List.mem_map_of_mem (hsub hq))

/-! ## What each event does to the regions -/

theorem outputRegions_submit (c : TcpConnection) (bufs : List UvBuf) (uv : ℤ)
    (hown : ∀ b ∈ bufs, b.region = none) : (c.submit bufs uv).outputRegions = c.outputRegions := by
  have hnone : bufs.filterMap (fun b => b.region.map fun r => (b.bytes, r)) = [] := by
    rw [List.filterMap_eq_nil_iff]
    intro b hb
    rw [hown b hb, Option.map_none]
  unfold outputRegions submit
  by_cases huv : 0 ≤ uv
  · simp only [if_pos huv, List.flatten_append, List.flatten_cons, List.flatten_nil,
      List.append_nil, List.filterMap_append, hnone]
  · simp only [if_neg huv]

theorem outputRegions_tail (c : TcpConnection) :
    { c with writes := c.writes.tail }.outputRegions ⊆ c.outputRegions := by
  intro r hr
  simp only [outputRegions, List.mem_filterMap, List.mem_flatten] at hr ⊢
  obtain ⟨b, ⟨bufs, hbufs, hb⟩, hr⟩ := hr
  exact ⟨b, ⟨bufs, List.mem_of_mem_tail hbufs, hb⟩, hr⟩

theorem RegionInv.handleClose {c c' : TcpConnection} (hi : c.RegionInv)
    (h : c.handleClose = .ok c') : c'.RegionInv := by
  obtain ⟨-, rfl⟩ | ⟨-, rfl⟩ := handleClose_cases h
  · exact hi.mono rfl (List.Subset.refl _)
  · exact hi.mono rfl (List.Subset.refl _)

theorem RegionInv.flushed {c : TcpConnection} (uv : ℤ) (hi : c.RegionInv) :
    (c.flushed uv).RegionInv := by
  obtain ⟨h1, h2, h3⟩ := c.outputBuf.index_bounds
  have hsplit : ∀ r ∈ (c.flushed uv).outputRegions, r ∈ c.outputRegions ∨
      r = (c.outputBuf.readable, c.outputBuf.readIndex_, c.outputBuf.readable.length) := by
    intro r hr
    unfold outputRegions TcpConnection.flushed at hr
    by_cases huv : 0 ≤ uv
    · simp only [if_pos huv, List.flatten_append, List.filterMap_append, List.mem_append] at hr
      apply hr.imp id
      intro hr
      simpa [pending] using hr
    · simp only [if_neg huv] at hr
      exact .inl hr
  refine ⟨fun r hr => ?_, fun r hr => ?_⟩
  · rcases hsplit r hr with hr | rfl
    · exact hi.intact r hr
    · change window c.outputBuf.readIndex_ c.outputBuf.readable.length c.outputBuf.buf_ = _
      rw [Buffer.length_readable]
      rfl
  · obtain ⟨q, hq, rfl⟩ := List.mem_map.mp hr
    rcases hsplit q hq with hq | rfl
    · exact hi.inside q.2 (List.mem_map_of_mem hq)
    · change c.outputBuf.readIndex_ + c.outputBuf.readable.length ≤ c.outputBuf.buf_.length
      omega

theorem RegionInv.send {c c' : TcpConnection} {bytes : Bytes} {uv : ℤ} (hi : c.RegionInv)
    (hclear : c.state_ = .kWritting → c.outputBuf.Clear bytes.length c.regions)
    (h : c.step (.send bytes uv) = .ok c') : c'.RegionInv := by
  by_cases hw : c.state_ = .kWritting
  · rw [step_send_writting _ _ hw] at h
    cases h
    exact (hi.append (hclear hw)).mono rfl (List.Subset.refl _)
  · by_cases hc : c.state_ = .kConnected
    · rw [step_send_connected _ _ hc] at h
      cases h
      have hsame : ({ c with
          lastWrite_ := bytes.length
          state_ := .kWritting }.submit [⟨bytes, none⟩] uv).outputRegions = c.outputRegions :=
        outputRegions_submit _ _ uv (by simp)
      exact hi.mono rfl fun r hr => hsame ▸ hr
    · rw [step_send_closed _ _ hw hc] at h
      cases h

theorem RegionInv.sendScatter {c c' : TcpConnection} {header : Buffer} {body : Bytes} {uv : ℤ}
    (hi : c.RegionInv) (guard : c.SparesRegions (.sendScatter header body uv))
    (h : c.step (.sendScatter header body uv) = .ok c') : c'.RegionInv := by
  by_cases hw : c.state_ = .kWritting
  · rw [step_sendScatter_writting _ _ _ hw] at h
    cases h
    obtain ⟨hheader, hbody⟩ := guard hw
    exact ((hi.append hheader).append hbody).mono rfl (List.Subset.refl _)
  · rw [step_sendScatter _ _ _ hw] at h
    cases h
    have hsame : (c.submit [⟨header.readable, none⟩, ⟨body, none⟩] uv).outputRegions =
        c.outputRegions := outputRegions_submit _ _ uv (by simp)
    exact hi.mono rfl fun r hr => hsame ▸ hr

theorem RegionInv.writeDone {c c' : TcpConnection} {status uv : ℤ} (hi : c.RegionInv)
    (h : c.step (.writeDone status uv) = .ok c') : c'.RegionInv := by
  have htail : { c with writes := c.writes.tail }.RegionInv := hi.mono rfl c.outputRegions_tail
  by_cases hs : status < 0
  · rw [step_writeDone_failed _ _ hs] at h
    exact htail.handleClose h
  · rw [step_writeDone_ok _ _ (by omega)] at h
    cases h
    dsimp only
    split
    · exact htail.mono rfl (List.Subset.refl _)
    · split
      · split
        · exact htail.mono rfl (List.Subset.refl _)
        · exact htail.mono rfl (List.Subset.refl _)
      · split
        · exact RegionInv.flushed uv (htail.mono rfl (List.Subset.refl _))
        · exact RegionInv.flushed uv (htail.mono rfl (List.Subset.refl _))

/-- **One step.** An event whose appends spare the regions in flight keeps them intact. -/
theorem regionInv_step {c c' : TcpConnection} {e : TcpEvent} (hi : c.RegionInv)
    (possible : c.Possible e) (guard : c.SparesRegions e) (h : c.step e = .ok c') :
    c'.RegionInv := by
  cases e with
  | send bytes uv => exact hi.send guard h
  | sendBuffer buf uv =>
    rw [step_sendBuffer] at h
    exact hi.send guard h
  | sendScatter header body uv => exact hi.sendScatter guard h
  | close => exact hi.handleClose h
  | readData bytes =>
    rw [step_readData _ possible.2] at h
    cases h
    exact hi.mono rfl (List.Subset.refl _)
  | readEnd nread =>
    rw [step_readEnd _ possible.2] at h
    have hread : { c with reading := false }.RegionInv := hi.mono rfl (List.Subset.refl _)
    exact hread.handleClose h
  | writeDone status uv => exact hi.writeDone h

theorem Established.regionInv {c : TcpConnection} (h : c.Established) : c.RegionInv := by
  have hnone : c.outputRegions = [] := by
    rw [outputRegions, h.writes]
    rfl
  refine ⟨fun r hr => ?_, fun r hr => ?_⟩
  · rw [hnone] at hr
    cases hr
  · rw [regions, hnone] at hr
    cases hr

/-- **In-flight data is not overwritten** in a run whose appends spare the regions in flight. -/
theorem intact_of_spared {c : TcpConnection} (h : c.Established) {es : List TcpEvent}
    (legal : anySystem.Legal c es) (guarded : ∀ p ∈ anySystem.steps c es, p.1.SparesRegions p.2) :
    ∀ p ∈ anySystem.steps c es, p.1.Intact ∧ ∀ c', p.1.step p.2 = .ok c' → c'.Intact := by
  have keep (c : TcpConnection) (e : TcpEvent) (c' : TcpConnection) (hi : c.RegionInv)
      (possible : c.Possible e) (guard : c.SparesRegions e) (hs : c.step e = .ok c') :
      c'.RegionInv := regionInv_step hi possible guard hs
  intro p hp
  obtain ⟨hi, possible⟩ := anySystem.invariant_of_guard RegionInv SparesRegions keep h.regionInv
    legal guarded p hp
  exact ⟨hi.intact, fun c' hc' => (keep p.1 p.2 c' hi possible (guarded p hp) hc').intact⟩

/-- A send, 600 bytes queued behind it, and the completion that flushes them. -/
theorem intact_of_spared_flush :
    anySystem.Legal fresh
        [.send [1] 0, .send (List.replicate 600 1) 0, .writeDone 0 0, .send [2] 0] ∧
      ∀ p ∈ anySystem.steps fresh
          [.send [1] 0, .send (List.replicate 600 1) 0, .writeDone 0 0, .send [2] 0],
        p.1.Intact ∧ ∀ c', p.1.step p.2 = .ok c' → c'.Intact :=
  ⟨by decide +kernel,
    intact_of_spared fresh_established (by decide +kernel) (by decide +kernel)⟩

/-- 500 bytes more fit only after compaction, which starts over at the front of the memory that is
in flight. -/
theorem intact_fails_compaction :
    fresh.Established ∧
    anySystem.Legal fresh [.send [1] 0, .send (List.replicate 600 1) 0, .writeDone 0 0,
      .send (List.replicate 500 2) 0] ∧
    ¬ ∀ p ∈ anySystem.steps fresh [.send [1] 0, .send (List.replicate 600 1) 0, .writeDone 0 0,
        .send (List.replicate 500 2) 0],
      p.1.Intact ∧ ∀ c', p.1.step p.2 = .ok c' → c'.Intact :=
  ⟨fresh_established, by decide +kernel, by decide +kernel⟩

end TcpConnection
end WsEngine
