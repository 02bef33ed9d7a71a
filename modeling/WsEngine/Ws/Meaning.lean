import WsEngine.Ws.Replies
import WsEngine.Ws.RoundTrip
import WsEngine.Ws.Validation

/-! # What a stream of bytes means

Any bytes at all, not only those of frames that a peer may send. A stream is read in one way only:
frames that the connection takes, one after the other, and then the beginning of another one or what
it refuses (`Means`). What the application is told and what is sent is a function of these frames, and
so is what is held of a message in the end. -/
set_option autoImplicit false

namespace WsEngine

/-! ## Every header that is read was written -/

namespace LengthForm

theorem htons_ntoh (a b : UInt8) : Buffer.htons (Buffer.ntoh [a, b]) = [a, b] := by
  have ha := a.toNat_lt
  have hb := b.toNat_lt
  simp only [Buffer.ntoh, Buffer.htons, List.foldl_cons, List.foldl_nil, Nat.shiftRight_eq_div_pow,
    List.cons.injEq, and_true, ← UInt8.toNat_inj, UInt8.toNat_ofNat']
  omega

theorem htonl_ntoh (a b c d : UInt8) :
    Buffer.htonl (Buffer.ntoh [a, b, c, d]) = [a, b, c, d] := by
  have ha := a.toNat_lt
  have hb := b.toNat_lt
  have hc := c.toNat_lt
  have hd := d.toNat_lt
  simp only [Buffer.ntoh, Buffer.htonl, List.foldl_cons, List.foldl_nil, Nat.shiftRight_eq_div_pow,
    List.cons.injEq, and_true, ← UInt8.toNat_inj, UInt8.toNat_ofNat']
  omega

theorem ntoh_lt (bytes : Bytes) : Buffer.ntoh bytes < 2 ^ (8 * bytes.length) := by
  have hfold (n : ℕ) : bytes.foldl (fun n byte => n * 256 + byte.toNat) n <
      (n + 1) * 2 ^ (8 * bytes.length) := by
    induction bytes generalizing n with
    | nil => simp
    | cons byte bytes ih =>
      have hbyte := byte.toNat_lt
      have hpow : 2 ^ (8 * (byte :: bytes).length) = 256 * 2 ^ (8 * bytes.length) := by
        rw [List.length_cons, Nat.mul_succ, Nat.pow_add, Nat.mul_comm]
      have hle : n * 256 + byte.toNat + 1 ≤ (n + 1) * 256 := by omega
      rw [List.foldl_cons, hpow, ← Nat.mul_assoc]
      exact Nat.lt_of_lt_of_le (ih _) (Nat.mul_le_mul_right _ hle)
  simpa [Buffer.ntoh] using hfold 0

/-- The bytes behind a length code are those that the length is written with. -/
theorem exists_form {code : ℕ} (hc : code < 128) {bytes : Bytes}
    (h : extension code ≤ bytes.length) :
    ∃ form : LengthForm, extendedLength code bytes < form.bound ∧
      form.code (extendedLength code bytes) = code ∧
      form.bytes (extendedLength code bytes) = bytes.take (extension code) := by
  by_cases h126 : code = 126
  · subst h126
    match bytes, h with
    | a :: b :: bytes, _ => exact ⟨.medium, ntoh_lt [a, b], rfl, htons_ntoh a b⟩
  · by_cases h127 : code = 127
    · subst h127
      match bytes, h with
      | a :: b :: c :: d :: a' :: b' :: c' :: d' :: bytes, _ =>
        have hhigh : Buffer.ntoh [a, b, c, d] < 2 ^ 32 := ntoh_lt [a, b, c, d]
        have hlow : Buffer.ntoh [a', b', c', d'] < 2 ^ 32 := ntoh_lt [a', b', c', d']
        have hlength : extendedLength 127 (a :: b :: c :: d :: a' :: b' :: c' :: d' :: bytes) =
            Buffer.ntoh [a, b, c, d] * 2 ^ 32 + Buffer.ntoh [a', b', c', d'] := by
          change Buffer.ntoh [a, b, c, d] <<< 32 ||| Buffer.ntoh [a', b', c', d'] = _
          rw [← Nat.shiftLeft_add_eq_or_of_lt hlow, Nat.shiftLeft_eq]
        refine ⟨.long, ?_, rfl, ?_⟩
        · rw [hlength]
          change _ < 2 ^ 64
          omega
        · rw [hlength]
          have hdiv : (Buffer.ntoh [a, b, c, d] * 2 ^ 32 + Buffer.ntoh [a', b', c', d']) >>> 32 =
              Buffer.ntoh [a, b, c, d] := by
            rw [Nat.shiftRight_eq_div_pow]
            omega
          have hmod : Buffer.htonl
              (Buffer.ntoh [a, b, c, d] * 2 ^ 32 + Buffer.ntoh [a', b', c', d']) =
              Buffer.htonl (Buffer.ntoh [a', b', c', d']) := by
            rw [← Buffer.htonl_mod, Nat.mul_add_mod_of_lt hlow]
          change Buffer.htonl _ ++ Buffer.htonl _ = _
          rw [hdiv, hmod, htonl_ntoh, htonl_ntoh]
          rfl
    · have hext : extension code = 0 := (if_neg h126).trans (if_neg h127)
      have hlength : extendedLength code bytes = code := if_pos hext
      rw [hlength, hext]
      refine ⟨.short, ?_, rfl, rfl⟩
      change code < 126
      omega

end LengthForm

namespace FrameHeader

theorem bits_first : ∀ first < 256, first &&& 0x70 = 0 →
    first = (if decide (first >>> 7 ≠ 0) then 0x80 else 0) + (0 * 0x10 + (first &&& 0x0f)) := by
  decide +kernel

theorem bits_second : ∀ second < 256, second &&& 0x7f < 128 ∧
    second = second >>> 7 * 0x80 + (second &&& 0x7f) := by
  decide +kernel

theorem exists_written {first second : UInt8} {rest : Bytes} (hbits : first.toNat &&& 0x70 = 0)
    (hext : extension (second.toNat &&& 0x7f) ≤ rest.length) (mask : Option Bytes)
    (hkey : ∀ key ∈ mask, key.length = 4)
    (hmask : second.toNat >>> 7 = if mask.isSome then 1 else 0) :
    ∃ w : FrameHeader, w.rsv = 0 ∧
      w.header = ⟨first.toNat >>> 7 ≠ 0, first.toNat &&& 0x0f, mask,
        extendedLength (second.toNat &&& 0x7f) rest⟩ ∧
      w.encode = first :: second ::
        (rest.take (extension (second.toNat &&& 0x7f)) ++ mask.getD []) := by
  have hfirst := bits_first first.toNat first.toNat_lt hbits
  obtain ⟨hcode, hsecond⟩ := bits_second second.toNat second.toNat_lt
  obtain ⟨form, hbound, hform, hbytes⟩ := LengthForm.exists_form hcode hext
  have hopcode : first.toNat &&& 0x0f < 16 := Nat.lt_of_le_of_lt Nat.and_le_right (by decide)
  let w : FrameHeader := {
    isFin := first.toNat >>> 7 ≠ 0
    rsv := 0
    opcode := first.toNat &&& 0x0f
    mask := mask
    form := form
    length := extendedLength (second.toNat &&& 0x7f) rest
    rsv_lt := Nat.succ_pos _
    opcode_lt := hopcode
    mask_length := hkey
    fits := hbound }
  have hw : w.first = first.toNat := hfirst.symm
  have hw' : w.second = second.toNat := by
    refine (congrArg _ hform).trans (Eq.trans ?_ hsecond.symm)
    rw [hmask]
    cases mask <;> rfl
  refine ⟨w, rfl, rfl, ?_⟩
  unfold encode
  rw [hw, hw', UInt8.ofNat_toNat, UInt8.ofNat_toNat]
  exact congrArg (fun bytes => first :: second :: (bytes ++ mask.getD [])) hbytes

/-- **A header that is read was written**, with the bytes that it takes up. -/
theorem exists_encode {input : Bytes} {h : Header} {size code : ℕ}
    (hf : front input = .full h size code) :
    ∃ w : FrameHeader, w.rsv = 0 ∧ w.header = h ∧ input = w.encode ++ input.drop size := by
  obtain _ | ⟨first, _ | ⟨second, rest⟩⟩ := input
  · cases hf
  · simp only [front] at hf
    split at hf <;> cases hf
  · simp only [front] at hf
    by_cases hbits : first.toNat &&& 0x70 ≠ 0
    · rw [if_pos hbits] at hf
      cases hf
    · rw [if_neg hbits] at hf
      unfold frontAfter at hf
      dsimp only at hf
      by_cases hext : rest.length < extension (second.toNat &&& 0x7f)
      · rw [if_pos hext] at hf
        cases hf
      · rw [if_neg hext] at hf
        have hle := Nat.le_of_not_lt hext
        by_cases hmasked : second.toNat >>> 7 = 1
        · rw [if_pos hmasked] at hf
          by_cases hkey : rest.length < extension (second.toNat &&& 0x7f) + 4
          · rw [if_pos hkey] at hf
            cases hf
          · rw [if_neg hkey] at hf
            cases hf
            have hlength : ((rest.drop (extension (second.toNat &&& 0x7f))).take 4).length = 4 := by
              rw [List.length_take, List.length_drop]
              omega
            obtain ⟨w, hrsv, hheader, hencode⟩ := exists_written (not_not.mp hbits) hle
              (some ((rest.drop (extension (second.toNat &&& 0x7f))).take 4))
              (by simpa using hlength) hmasked
            refine ⟨w, hrsv, hheader, ?_⟩
            have hsplit : rest = rest.take (extension (second.toNat &&& 0x7f)) ++
                ((rest.drop (extension (second.toNat &&& 0x7f))).take 4 ++
                  rest.drop (extension (second.toNat &&& 0x7f) + 4)) := by
              rw [← List.drop_drop, List.take_append_drop, List.take_append_drop]
            rw [hencode, Nat.add_assoc, Nat.add_comm 2, List.cons_append, List.cons_append,
              List.append_assoc]
            exact congrArg (first :: second :: ·) hsplit
        · rw [if_neg hmasked] at hf
          cases hf
          have hzero : second.toNat >>> 7 = 0 := by
            have := second.toNat_lt
            rw [Nat.shiftRight_eq_div_pow] at hmasked ⊢
            omega
          obtain ⟨w, hrsv, hheader, hencode⟩ := exists_written (not_not.mp hbits) hle none
            (fun _ hm => absurd hm (Option.not_mem_none _)) hzero
          refine ⟨w, hrsv, hheader, ?_⟩
          rw [hencode, Nat.add_comm 2]
          simp

end FrameHeader

/-! ## Frames that are not all there -/

/-- The bytes are the beginning of a frame that can be read, and not all of it. -/
def Unfinished (bytes : Bytes) : Prop :=
  ∃ f : RawFrame, f.head.rsv = 0 ∧ ∃ more, more ≠ [] ∧ f.encode = bytes ++ more

theorem RawFrame.encode_ne_nil (f : RawFrame) : f.encode ≠ [] := List.cons_ne_nil _ _

theorem unfinished_nil : Unfinished [] := by
  let f : RawFrame := ⟨shortHeader 0 9 (by decide) (by decide), [], rfl⟩
  exact ⟨f, rfl, f.encode, f.encode_ne_nil, rfl⟩

/-- A payload as it is written behind a header. -/
theorem FrameHeader.exists_frame (w : FrameHeader) (bytes : Bytes) (h : w.length ≤ bytes.length) :
    ∃ f : RawFrame, f.head = w ∧ w.encode ++ bytes = f.encode ++ bytes.drop w.length := by
  refine ⟨⟨w, w.header.unmask (bytes.take w.length), ?_⟩, rfl, ?_⟩
  · rw [Header.length_unmask, List.length_take, Nat.min_eq_left h]
  · unfold RawFrame.encode RawFrame.header
    dsimp only
    rw [Header.unmask_unmask, List.append_assoc, List.take_append_drop]

theorem unfinished_payload {w : FrameHeader} (hr : w.rsv = 0) {bytes : Bytes}
    (h : bytes.length < w.length) : Unfinished (w.encode ++ bytes) := by
  have hlen : (bytes ++ List.replicate (w.length - bytes.length) 0).length = w.length := by
    rw [List.length_append, List.length_replicate]
    omega
  obtain ⟨f, hf, hencode⟩ := w.exists_frame _ (Nat.le_of_eq hlen.symm)
  rw [List.drop_of_length_le (Nat.le_of_eq hlen), List.append_nil] at hencode
  refine ⟨f, hf ▸ hr, List.replicate (w.length - bytes.length) 0, ?_, ?_⟩
  · simp
    omega
  · rw [← hencode, List.append_assoc]

theorem extension_le (code : ℕ) : extension code ≤ 8 := by
  unfold extension
  split
  · decide
  · split <;> decide

theorem front_cons_reserved {byte : UInt8} (h : byte.toNat &&& 0x70 ≠ 0) (rest : Bytes) :
    front (byte :: rest) = .reserved := by
  cases rest with
  | nil => exact if_pos h
  | cons second rest => exact if_pos h

theorem front_reserved {input : Bytes} (hf : front input = .reserved) :
    ∃ byte rest, input = byte :: rest ∧ byte.toNat &&& 0x70 ≠ 0 := by
  obtain _ | ⟨first, _ | ⟨second, rest⟩⟩ := input
  · cases hf
  · simp only [front] at hf
    split at hf
    · next hbits => exact ⟨_, _, rfl, hbits⟩
    · cases hf
  · simp only [front] at hf
    split at hf
    · next hbits => exact ⟨_, _, rfl, hbits⟩
    · exact absurd hf (frontAfter_ne_reserved _ _ _)

/-- Fourteen bytes are enough for any header. -/
theorem front_long {input : Bytes} (hlen : 14 ≤ input.length) (hr : front input ≠ .reserved) :
    ∃ header size code, front input = .full header size code := by
  obtain _ | ⟨first, _ | ⟨second, rest⟩⟩ := input
  · exact absurd hlen (by decide)
  · exact absurd hlen (by simp)
  · have hbits : ¬ first.toNat &&& 0x70 ≠ 0 := fun h => hr (front_cons_reserved h _)
    have hext := extension_le (second.toNat &&& 0x7f)
    rw [List.length_cons, List.length_cons] at hlen
    have hfront : front (first :: second :: rest) = frontAfter first.toNat second.toNat rest :=
      if_neg hbits
    rw [hfront]
    unfold frontAfter
    dsimp only
    rw [if_neg (by omega)]
    by_cases hmasked : second.toNat >>> 7 = 1
    · rw [if_pos hmasked, if_neg (by omega)]
      exact ⟨_, _, _, rfl⟩
    · rw [if_neg hmasked]
      exact ⟨_, _, _, rfl⟩

theorem unfinished_short {input : Bytes} {wanted : ℕ} (hf : front input = .short wanted) :
    Unfinished input := by
  have hnot : front (input ++ List.replicate 14 0) ≠ .reserved := by
    intro hr
    obtain ⟨byte, rest, hinput, hbits⟩ := front_reserved hr
    cases input with
    | nil => cases hf
    | cons first input =>
      cases hinput
      rw [front_cons_reserved hbits] at hf
      cases hf
  obtain ⟨header, size, code, hfull⟩ := front_long (by simp) hnot
  obtain ⟨w, hrsv, -, hw⟩ := FrameHeader.exists_encode hfull
  obtain ⟨f, hhead, hencode⟩ := w.exists_frame (List.replicate w.length 0) (by simp)
  rw [List.drop_of_length_le (by simp), List.append_nil] at hencode
  obtain ⟨more, hmore, -⟩ | ⟨more, hmore, -⟩ := List.append_eq_append_iff.mp hw
  · refine ⟨f, hhead ▸ hrsv, more ++ List.replicate w.length 0, ?_, ?_⟩
    · intro hnil
      have hinput : input = w.encode := by
        rw [hmore, (List.append_eq_nil_iff.mp hnil).1, List.append_nil]
      rw [hinput, ← List.append_nil w.encode, FrameHeader.front_encode hrsv] at hf
      cases hf
    · rw [← hencode, hmore, List.append_assoc]
  · rw [hmore, FrameHeader.front_encode hrsv] at hf
    cases hf

/-! ## Frames and streams -/

/-- What is held between two frames: the bytes in `decodeBuf_`, and of a message that is not complete
whether it is binary. -/
structure Held where
  assembly : Bytes
  message : Option Bool
  deriving DecidableEq, Repr

namespace Held

/-- `fragmentedOpCode_`. -/
def opcode (held : Held) : ℕ := held.message.elim 0 fun isBinary => if isBinary then 2 else 1

/-- A frame of a message: the message is told with all that is held, or the payload is held too. -/
def data (held : Held) (isFin : Bool) (payload : Bytes) (isBinary : Bool) :
    List Effect × Option Held :=
  if isFin then ([.message (held.assembly ++ payload) isBinary], some ⟨[], none⟩)
  else ([], some ⟨held.assembly ++ payload, some isBinary⟩)

/-- The payload of a control frame stays where nothing else is held. -/
def control (held : Held) (payload : Bytes) : Held :=
  { held with assembly := if held.assembly = [] then payload else held.assembly }

end Held

/-- The close frame for a protocol error. -/
def refusal : List Effect := [.send (Decoder.closeFrame .PROTOCOL_ERROR)]

/-- What a frame without reserved bits makes the connection tell and send, and what is held then,
unless it is the last. -/
def RawFrame.outcome (f : RawFrame) (held : Held) : List Effect × Option Held :=
  match f.head.opcode, held.message with
  | 0, some isBinary => held.data f.head.isFin f.payload isBinary
  | 1, none => held.data f.head.isFin f.payload false
  | 2, none => held.data f.head.isFin f.payload true
  | 8, _ => ([.send (Decoder.closeFrame .NORMAL_CLOSE)], none)
  | 9, _ =>
    if f.head.isFin = false then (refusal, none)
    else if f.payload.length ≤ 125 then
      ([.ping f.payload, .send (0x8a :: UInt8.ofNat f.payload.length :: f.payload)],
        some (held.control f.payload))
    else (.ping f.payload :: refusal, none)
  | 10, _ =>
    if f.head.isFin = false then (refusal, none)
    else ([.pong f.payload], some (held.control f.payload))
  | _, _ => (refusal, none)

/-- A stream, read where `held` is held: what is told and sent, and if that is no close frame what is
held in the end and which bytes wait for more. -/
inductive Means : Held → Bytes → List Effect → Option (Held × Bytes) → Prop
  | waits {held : Held} {bytes : Bytes} (h : Unfinished bytes) :
      Means held bytes [] (some (held, bytes))
  | reserved {held : Held} {byte : UInt8} {bytes : Bytes} (h : byte.toNat &&& 0x70 ≠ 0) :
      Means held (byte :: bytes) refusal none
  | last {held : Held} {f : RawFrame} {bytes : Bytes} {es : List Effect} (hr : f.head.rsv = 0)
      (h : f.outcome held = (es, none)) : Means held (f.encode ++ bytes) es none
  | next {held held' : Held} {f : RawFrame} {bytes : Bytes} {es more : List Effect}
      {left : Option (Held × Bytes)} (hr : f.head.rsv = 0)
      (h : f.outcome held = (es, some held')) (h' : Means held' bytes more left) :
      Means held (f.encode ++ bytes) (es ++ more) left

/-- **Every stream means something.** -/
theorem exists_means (held : Held) (bytes : Bytes) : ∃ es left, Means held bytes es left := by
  induction hn : bytes.length using Nat.strong_induction_on generalizing held bytes with
  | _ n ih =>
  cases hf : front bytes with
  | nothing =>
    rw [front_nothing hf]
    exact ⟨_, _, .waits unfinished_nil⟩
  | reserved =>
    obtain ⟨byte, rest, rfl, hbits⟩ := front_reserved hf
    exact ⟨_, _, .reserved hbits⟩
  | short wanted => exact ⟨_, _, .waits (unfinished_short hf)⟩
  | full header size code =>
    obtain ⟨w, hrsv, -, hw⟩ := FrameHeader.exists_encode hf
    generalize bytes.drop size = rest at hw
    by_cases hlen : rest.length < w.length
    · rw [hw]
      exact ⟨_, _, .waits (unfinished_payload hrsv hlen)⟩
    · obtain ⟨f, hhead, hencode⟩ := w.exists_frame _ (Nat.le_of_not_lt hlen)
      rw [hencode] at hw
      rw [hw]
      have hrsv' : f.head.rsv = 0 := hhead ▸ hrsv
      cases hout : f.outcome held with
      | mk es next =>
        cases next with
        | none => exact ⟨_, _, .last hrsv' hout⟩
        | some held' =>
          have hpos := List.length_pos_iff.mpr f.encode_ne_nil
          have hlt : (rest.drop w.length).length < n := by
            rw [← hn, hw, List.length_append]
            omega
          obtain ⟨more, left, hmore⟩ := ih _ hlt held' _ rfl
          exact ⟨_, _, .next hrsv' hout hmore⟩

/-- Two frames with the same bytes in front of them have the same header and the same payload. -/
theorem RawFrame.encode_inj {f g : RawFrame} (hf : f.head.rsv = 0) (hg : g.head.rsv = 0)
    {bytes more : Bytes} (h : f.encode ++ bytes = g.encode ++ more) :
    f.header = g.header ∧ f.payload = g.payload ∧ bytes = more := by
  have hfront : front (f.encode ++ bytes) = front (g.encode ++ more) := by rw [h]
  unfold RawFrame.encode at hfront h
  rw [List.append_assoc, List.append_assoc, FrameHeader.front_encode hf,
    FrameHeader.front_encode hg] at hfront
  injection hfront with hheader hsize
  change f.header = g.header at hheader
  rw [List.append_assoc, List.append_assoc] at h
  obtain ⟨-, hbody⟩ := List.append_inj h hsize
  have hlen : f.payload.length = g.payload.length :=
    f.length_payload.trans ((congrArg Header.length hheader).trans g.length_payload.symm)
  obtain ⟨hpayload, hrest⟩ := List.append_inj hbody (by
    rw [Header.length_unmask, Header.length_unmask, hlen])
  refine ⟨hheader, ?_, hrest⟩
  rw [← f.header.unmask_unmask f.payload, hpayload, hheader, Header.unmask_unmask]

theorem RawFrame.outcome_congr {f g : RawFrame} (hheader : f.header = g.header)
    (hpayload : f.payload = g.payload) (held : Held) : f.outcome held = g.outcome held := by
  have hopcode : f.head.opcode = g.head.opcode := congrArg Header.opcode hheader
  have hfin : f.head.isFin = g.head.isFin := congrArg Header.isFin hheader
  unfold RawFrame.outcome
  rw [hopcode, hfin, hpayload]

theorem not_unfinished_encode {f : RawFrame} (hf : f.head.rsv = 0) (bytes : Bytes) :
    ¬ Unfinished (f.encode ++ bytes) := by
  rintro ⟨g, hg, more, hmore, hencode⟩
  have hsame : g.encode ++ [] = f.encode ++ (bytes ++ more) := by
    rw [hencode, List.append_nil, List.append_assoc]
  obtain ⟨-, -, hnil⟩ := RawFrame.encode_inj hg hf hsame
  exact hmore (List.append_eq_nil_iff.mp hnil.symm).2

theorem front_encode_ne_reserved {f : RawFrame} (hf : f.head.rsv = 0) (bytes : Bytes) :
    front (f.encode ++ bytes) ≠ .reserved := by
  rw [RawFrame.encode, List.append_assoc, FrameHeader.front_encode hf]
  intro h
  cases h

theorem not_unfinished_reserved {bytes : Bytes} (h : front bytes = .reserved) :
    ¬ Unfinished bytes := by
  rintro ⟨g, hg, more, -, hencode⟩
  apply front_encode_ne_reserved hg []
  rw [List.append_nil, hencode]
  exact front_append_reserved h more

/-- How a stream can be meant. -/
theorem means_cases {held : Held} {bytes : Bytes} {es : List Effect} {left : Option (Held × Bytes)}
    (h : Means held bytes es left) :
    Unfinished bytes ∧ es = [] ∧ left = some (held, bytes) ∨
    front bytes = .reserved ∧ es = refusal ∧ left = none ∨
    ∃ (f : RawFrame) (rest : Bytes), f.head.rsv = 0 ∧ bytes = f.encode ++ rest ∧
      (f.outcome held = (es, none) ∧ left = none ∨
        ∃ held' first more, f.outcome held = (first, some held') ∧ Means held' rest more left ∧
          es = first ++ more) := by
  cases h with
  | waits h => exact .inl ⟨h, rfl, rfl⟩
  | reserved h => exact .inr (.inl ⟨front_cons_reserved h _, rfl, rfl⟩)
  | last hr h => exact .inr (.inr ⟨_, _, hr, rfl, .inl ⟨h, rfl⟩⟩)
  | next hr h h' => exact .inr (.inr ⟨_, _, hr, rfl, .inr ⟨_, _, _, h, h', rfl⟩⟩)

/-- **And only one thing.** -/
theorem means_unique {held : Held} {bytes : Bytes} {es es' : List Effect}
    {left left' : Option (Held × Bytes)} (h : Means held bytes es left)
    (h' : Means held bytes es' left') : es = es' ∧ left = left' := by
  induction h generalizing es' left' with
  | waits hu =>
    obtain ⟨-, rfl, rfl⟩ | ⟨hres, -⟩ | ⟨f, rest, hr, rfl, -⟩ := means_cases h'
    · exact ⟨rfl, rfl⟩
    · exact absurd hu (not_unfinished_reserved hres)
    · exact absurd hu (not_unfinished_encode hr rest)
  | reserved hb =>
    have hres := front_cons_reserved hb
    obtain ⟨hu, -⟩ | ⟨-, rfl, rfl⟩ | ⟨f, rest, hr, hbytes, -⟩ := means_cases h'
    · exact absurd hu (not_unfinished_reserved (hres _))
    · exact ⟨rfl, rfl⟩
    · exact absurd (hbytes ▸ hres _) (front_encode_ne_reserved hr rest)
  | last hr hout =>
    obtain ⟨hu, -⟩ | ⟨hres, -⟩ | ⟨f, rest, hr', hbytes, hcase⟩ := means_cases h'
    · exact absurd hu (not_unfinished_encode hr _)
    · exact absurd hres (front_encode_ne_reserved hr _)
    · obtain ⟨hheader, hpayload, rfl⟩ := RawFrame.encode_inj hr hr' hbytes
      rw [RawFrame.outcome_congr hheader hpayload] at hout
      obtain ⟨hcase, rfl⟩ | ⟨held', first, more, hcase, -⟩ := hcase
      · cases hout.symm.trans hcase
        exact ⟨rfl, rfl⟩
      · cases hout.symm.trans hcase
  | next hr hout hm ih =>
    obtain ⟨hu, -⟩ | ⟨hres, -⟩ | ⟨f, rest, hr', hbytes, hcase⟩ := means_cases h'
    · exact absurd hu (not_unfinished_encode hr _)
    · exact absurd hres (front_encode_ne_reserved hr _)
    · obtain ⟨hheader, hpayload, rfl⟩ := RawFrame.encode_inj hr hr' hbytes
      rw [RawFrame.outcome_congr hheader hpayload] at hout
      obtain ⟨hcase, rfl⟩ | ⟨held', first, more, hcase, hmore, rfl⟩ := hcase
      · cases hout.symm.trans hcase
      · cases hout.symm.trans hcase
        obtain ⟨rfl, rfl⟩ := ih hmore
        exact ⟨rfl, rfl⟩

theorem exists_unique_means (held : Held) (bytes : Bytes) :
    ∃! p : List Effect × Option (Held × Bytes), Means held bytes p.1 p.2 := by
  obtain ⟨es, left, h⟩ := exists_means held bytes
  refine ⟨(es, left), h, fun p hp => ?_⟩
  obtain ⟨hes, hleft⟩ := means_unique hp h
  exact Prod.ext hes hleft

/-! ## What is seen of an outcome -/

theorem observed_append {t : List Effect} (h : ¬ Closed t) (more : List Effect) :
    observed (t ++ more) = observed t ++ observed more := by
  induction t with
  | nil => rfl
  | cons e t ih =>
    have hopen : ¬ Closed t := fun ⟨e', he', hc⟩ => h ⟨e', List.mem_cons_of_mem e he', hc⟩
    have he : ¬ e.closes = true := fun hc => h ⟨e, List.mem_cons_self, hc⟩
    rw [List.cons_append, observed, observed, if_neg he, if_neg he, ih hopen]
    split <;> rfl

theorem observed_eq_self {es : List Effect} (h : ∀ e ∈ es, e.isSeen = true ∧ e.closes = false) :
    observed es = es := by
  induction es with
  | nil => rfl
  | cons e es ih =>
    obtain ⟨hseen, hopen⟩ := h e List.mem_cons_self
    rw [observed, if_neg (by rw [hopen]; decide), if_pos hseen,
      ih fun e' he' => h e' (List.mem_cons_of_mem e he')]

/-- Before the last frame everything is seen, and no close frame is sent. -/
theorem RawFrame.outcome_open {f : RawFrame} {held held' : Held} {es : List Effect}
    (h : f.outcome held = (es, some held')) : ∀ e ∈ es, e.isSeen = true ∧ e.closes = false := by
  have hdata {isFin : Bool} {payload : Bytes} {isBinary : Bool}
      (h : held.data isFin payload isBinary = (es, some held')) :
      ∀ e ∈ es, e.isSeen = true ∧ e.closes = false := by
    cases isFin <;> cases h <;> simp [Effect.isSeen, Effect.closes]
  unfold RawFrame.outcome at h
  split at h
  · exact hdata h
  · exact hdata h
  · exact hdata h
  · cases h
  · split at h
    · cases h
    · split at h
      · cases h
        simp [Effect.isSeen, Effect.closes, isClose]
      · cases h
  · split at h
    · cases h
    · cases h
      simp [Effect.isSeen, Effect.closes]
  · cases h

/-! ## One frame -/

namespace Decoder

/-- The callback for the effect is set, if it is one that an application is told. -/
def hears (d : Decoder) : Effect → Bool
  | .message _ _ => d.messageCallback.isSome
  | .ping _ => d.pingCallback.isSome
  | .pong _ => d.pongCallback.isSome
  | .send _ | .stopRead | .closeTcp | .frame | .protocolError => true

theorem filter_hears (d : Decoder) (e : Effect) (more : List Effect) :
    (e :: more).filter d.hears = (if d.hears e then [e] else []) ++ more.filter d.hears := by
  cases h : d.hears e <;> simp [h]

/-- Between two frames, with the bytes to read. -/
structure Holds (d : Decoder) (held : Held) (bytes : Bytes) : Prop where
  calm : d.Calm
  wire : d.Wire true
  header : d.header = none
  input : d.input = bytes
  assembly : d.assembly = held.assembly
  fragmented : d.fragmentedOpCode = held.opcode

/-- After a frame. -/
def next (d : Decoder) (es : List Effect) (held : Held) (bytes : Bytes) : Decoder :=
  { d with
    input := bytes
    assembly := held.assembly
    fragmentedOpCode := held.opcode
    header := none
    wanted := 0
    trace := d.trace ++ .frame :: es.filter d.hears }

/-- The frame is ahead, whatever it is. -/
def taken (d : Decoder) (f : RawFrame) (bytes : Bytes) : Decoder :=
  { d with
    input := bytes
    header := some f.header
    wanted := f.head.form.code f.head.length
    assembly := d.assembly ++ f.payload
    trace := d.trace ++ [.frame] }

theorem ahead_raw {d : Decoder} (hh : d.header = none) {f : RawFrame} (hr : f.head.rsv = 0)
    {bytes : Bytes} (hi : d.input = f.encode ++ bytes) :
    d.ahead = some ⟨f.header, f.payload, d.taken f bytes⟩ := by
  have hbody : d.input = f.head.encode ++ (f.header.unmask f.payload ++ bytes) := by
    rw [hi, RawFrame.encode, List.append_assoc]
  have hread : d.readHeader = .ok (f.header, { d with
      input := f.header.unmask f.payload ++ bytes
      header := some f.header
      wanted := f.head.form.code f.head.length }) := by
    rw [readHeader_none hh]
    unfold readFront
    rw [hbody, FrameHeader.front_encode hr]
    simp only [List.drop_left]
    rfl
  have hlen : f.header.length = (f.header.unmask f.payload).length := by
    rw [Header.length_unmask, f.length_payload]
    rfl
  have htake : (f.header.unmask f.payload ++ bytes).take f.header.length =
      f.header.unmask f.payload := by
    rw [hlen, List.take_left]
  have hdrop : (f.header.unmask f.payload ++ bytes).drop f.header.length = bytes := by
    rw [hlen, List.drop_left]
  rw [ahead_of_readHeader hread (by rw [List.length_append]; omega)]
  unfold take
  rw [htake, hdrop, f.header.unmask_unmask]
  rfl

theorem heard_control {d : Decoder} {h : Header} (hop : h.opcode = 9 ∨ h.opcode = 10) :
    d.handOver h = d := by
  apply handOver_of_not
  rintro ⟨-, hcomp⟩
  omega

theorem heard_message {d : Decoder} {h : Header} {isBinary : Bool}
    (hop : h.opcode ≠ 9 ∧ h.opcode ≠ 10) (hm : d.messageOpcode h = if isBinary then 2 else 1)
    (hc : d.Completes h ↔ h.isFin = true) (old payload : Bytes) :
    Taken.heard ⟨h, payload, d⟩ old = { d with
      assembly := if h.isFin then [] else d.assembly
      fragmentedOpCode := if h.isFin then 0 else if isBinary then 2 else 1
      wanted := 0
      header := none
      trace := d.trace ++ if h.isFin = true ∧ d.messageCallback.isSome = true then
        [.message d.assembly isBinary] else [] } := by
  have hbinary : decide (d.messageOpcode h = 2) = isBinary := by
    rw [hm]
    cases isBinary <;> rfl
  have htold : d.told h payload =
      (if d.Completes h then d.messageCallback else none, .message d.assembly isBinary) := by
    unfold told
    split
    · next h9 => exact absurd h9 hop.1
    · next h10 => exact absurd h10 hop.2
    · rw [hbinary]
  have hfinish (x : Decoder) : x.finish h old payload =
      { x with fragmentedOpCode := if h.isFin then 0 else x.messageOpcode h }.cleared := by
    unfold finish
    split
    · next h9 => exact absurd h9 hop.1
    · next h10 => exact absurd h10 hop.2
    · rfl
  unfold Taken.heard
  rw [hfinish, htold, hear_eq]
  by_cases hfin : h.isFin = true
  · have hcomp := hc.mpr hfin
    simp only [if_pos hcomp, hfin, true_and]
    unfold handOver
    rw [if_pos hcomp]
    rfl
  · have hcomp : ¬ d.Completes h := fun h => hfin (hc.mp h)
    have hnone : ¬ (h.isFin = true ∧ d.messageCallback.isSome = true) := fun h => hfin h.1
    rw [if_neg hfin, if_neg hfin, if_neg hfin, if_neg hcomp, if_neg hnone, handOver_of_not hcomp]
    simp only [Option.isSome_none, Bool.false_eq_true, if_false, List.append_nil]
    rw [← hm]
    rfl

/-- How `decode` branches on a frame, and how its outcome is defined, are the same. -/
theorem outcome_cases (d : Decoder) {held : Held} (hd : d.fragmentedOpCode = held.opcode)
    (f : RawFrame) :
    d.Erroneous f.header ∧ f.outcome held = (refusal, none) ∨
    ¬ d.Erroneous f.header ∧ f.head.opcode = 8 ∧
      f.outcome held = ([.send (closeFrame .NORMAL_CLOSE)], none) ∨
    ¬ d.Erroneous f.header ∧ f.head.opcode = 9 ∧ f.outcome held =
      (if f.payload.length ≤ 125 then
        ([.ping f.payload, .send (0x8a :: UInt8.ofNat f.payload.length :: f.payload)],
          some (held.control f.payload))
      else (.ping f.payload :: refusal, none)) ∨
    ¬ d.Erroneous f.header ∧ f.head.opcode = 10 ∧
      f.outcome held = ([.pong f.payload], some (held.control f.payload)) ∨
    ¬ d.Erroneous f.header ∧ (f.head.opcode = 0 ∨ f.head.opcode = 1 ∨ f.head.opcode = 2) ∧
      ∃ isBinary, d.messageOpcode f.header = (if isBinary then 2 else 1) ∧
        (d.Completes f.header ↔ f.head.isFin = true) ∧
        f.outcome held = held.data f.head.isFin f.payload isBinary := by
  have hopcode : f.header.opcode = f.head.opcode := rfl
  have hfin : f.header.isFin = f.head.isFin := rfl
  have hsome (isBinary : Bool) (h : held.message = some isBinary) :
      d.fragmentedOpCode = if isBinary then 2 else 1 := by
    rw [hd, Held.opcode, h]
    rfl
  have hnone (h : held.message = none) : d.fragmentedOpCode = 0 := by
    rw [hd, Held.opcode, h]
    rfl
  unfold RawFrame.outcome
  split
  · next isBinary hop hm =>
    have hcode := hsome isBinary hm
    have hheader : f.header.opcode = 0 := hop
    refine .inr (.inr (.inr (.inr ⟨?_, .inl hop, isBinary, ?_, ?_, rfl⟩)))
    · simp only [Erroneous, hheader, hcode]
      cases isBinary <;> decide
    · simp only [messageOpcode, hheader, if_true, hcode]
    · simp only [Completes, hheader, hcode, hfin]
      cases isBinary <;> simp
  · next hop hm =>
    have hcode := hnone hm
    have hheader : f.header.opcode = 1 := hop
    refine .inr (.inr (.inr (.inr ⟨?_, .inr (.inl hop), false, ?_, ?_, rfl⟩)))
    · simp [Erroneous, hheader, hcode]
    · simp [messageOpcode, hheader]
    · simp [Completes, hheader, hfin]
  · next hop hm =>
    have hcode := hnone hm
    have hheader : f.header.opcode = 2 := hop
    refine .inr (.inr (.inr (.inr ⟨?_, .inr (.inr hop), true, ?_, ?_, rfl⟩)))
    · simp [Erroneous, hheader, hcode]
    · simp [messageOpcode, hheader]
    · simp [Completes, hheader, hfin]
  · next hop =>
    have hheader : f.header.opcode = 8 := hop
    exact .inr (.inl ⟨by simp [Erroneous, hheader], hop, rfl⟩)
  · next hop =>
    have hheader : f.header.opcode = 9 := hop
    by_cases hclear : f.head.isFin = false
    · rw [if_pos hclear]
      exact .inl ⟨by simpa only [Erroneous, hheader, hfin] using hclear, rfl⟩
    · rw [if_neg hclear]
      exact .inr (.inr (.inl ⟨by simpa only [Erroneous, hheader, hfin] using hclear, hop, rfl⟩))
  · next hop =>
    have hheader : f.header.opcode = 10 := hop
    by_cases hclear : f.head.isFin = false
    · rw [if_pos hclear]
      exact .inl ⟨by simpa only [Erroneous, hheader, hfin] using hclear, rfl⟩
    · rw [if_neg hclear]
      exact .inr (.inr (.inr (.inl ⟨by simpa only [Erroneous, hheader, hfin] using hclear, hop, rfl⟩)))
  · next h8 h9 h10 h0 h1 h2 =>
    refine .inl ⟨?_, rfl⟩
    unfold Erroneous
    rw [hopcode]
    split
    · next hop =>
      cases hm : held.message with
      | none => exact hnone hm
      | some isBinary => exact absurd hm (h0 isBinary hop)
    · next hop =>
      cases hm : held.message with
      | none => exact absurd hm (h1 hop)
      | some isBinary =>
        rw [hsome isBinary hm]
        cases isBinary <;> decide
    · next hop =>
      cases hm : held.message with
      | none => exact absurd hm (h2 hop)
      | some isBinary =>
        rw [hsome isBinary hm]
        cases isBinary <;> decide
    · next hop => exact absurd hop h8
    · next hop => exact absurd hop h9
    · next hop => exact absurd hop h10
    · trivial

theorem heard_ping_raw {d : Decoder} {h : Header} (hop : h.opcode = 9) {payload : Bytes}
    (hl : payload.length ≤ 125) (old : Bytes) :
    Taken.heard ⟨h, payload, d⟩ old = { d with
      output := []
      assembly := if old = [] then payload else old
      wanted := 0
      header := none
      trace := d.trace ++ ((if d.pingCallback.isSome then [.ping payload] else []) ++
        [.send (d.output ++ 0x8a :: UInt8.ofNat payload.length :: payload)]) } := by
  have hheard : Taken.heard ⟨h, payload, d⟩ old =
      ((d.hear d.pingCallback (.ping payload)).pong payload).dropControl old payload := by
    simp only [Taken.heard, finish, told, hop, heard_control (.inl hop)]
  rw [hheard, hear_eq, pong, if_neg (by omega), ← List.append_assoc]
  rfl

theorem heard_ping_long {d : Decoder} {h : Header} (hop : h.opcode = 9) {payload : Bytes}
    (hl : ¬ payload.length ≤ 125) (old : Bytes) :
    (Taken.heard ⟨h, payload, d⟩ old).trace =
      d.trace ++ ((if d.pingCallback.isSome then [.ping payload] else []) ++
        [.protocolError, .stopRead, .send (closeFrame .PROTOCOL_ERROR)]) := by
  have hheard : Taken.heard ⟨h, payload, d⟩ old =
      ((d.hear d.pingCallback (.ping payload)).pong payload).dropControl old payload := by
    simp only [Taken.heard, finish, told, hop, heard_control (.inl hop)]
  rw [hheard, hear_eq, pong, if_pos (by omega), ← List.append_assoc]
  exact trace_protocolError _

theorem heard_pong_raw {d : Decoder} {h : Header} (hop : h.opcode = 10) (old payload : Bytes) :
    Taken.heard ⟨h, payload, d⟩ old = { d with
      assembly := if old = [] then payload else old
      wanted := 0
      header := none
      trace := d.trace ++ if d.pongCallback.isSome then [.pong payload] else [] } := by
  have hheard : Taken.heard ⟨h, payload, d⟩ old =
      (d.hear d.pongCallback (.pong payload)).dropControl old payload := by
    simp only [Taken.heard, finish, told, hop, heard_control (.inr hop)]
  rw [hheard, hear_eq]
  rfl

/-- **A frame that is not the last** is one activation. -/
theorem Holds.activate_next {d : Decoder} {held held' : Held} {f : RawFrame} {bytes : Bytes}
    {es : List Effect} (h : d.Holds held (f.encode ++ bytes)) (hr : f.head.rsv = 0)
    (hout : f.outcome held = (es, some held')) :
    d.activate = (d.next es held' bytes).recurse := by
  have ha := ahead_raw h.header hr h.input
  have houtput : d.output = [] := h.wire.output.mpr rfl
  rw [Decoder.activate_eq h.calm.listening h.calm.status ha]
  obtain ⟨-, hcase⟩ | ⟨-, -, hcase⟩ | ⟨he, hop, hcase⟩ | ⟨he, hop, hcase⟩ |
    ⟨he, hop, isBinary, hmessage, hcomp, hcase⟩ :=
      outcome_cases (d.taken f bytes) (show _ = held.opcode from h.fragmented) f
  · rw [hcase] at hout
    cases hout
  · rw [hcase] at hout
    cases hout
  · have hheader : f.header.opcode = 9 := hop
    rw [result_heard _ _ he (by dsimp only; omega)]
    by_cases hl : f.payload.length ≤ 125
    · rw [if_pos hl, hout] at hcase
      cases hcase
      rw [heard_ping_raw hheader hl]
      refine congrArg recurse ?_
      simp [taken, next, Held.control, h.assembly, houtput, hears, filter_hears]
      exact ⟨h.fragmented, rfl⟩
    · rw [if_neg hl, hout] at hcase
      cases hcase
  · have hheader : f.header.opcode = 10 := hop
    rw [result_heard _ _ he (by dsimp only; omega), heard_pong_raw hheader]
    rw [hout] at hcase
    cases hcase
    refine congrArg recurse ?_
    simp [taken, next, Held.control, h.assembly, hears, filter_hears]
    exact ⟨h.fragmented, rfl⟩
  · have hheader : f.header.opcode ≠ 9 ∧ f.header.opcode ≠ 10 := by
      change f.head.opcode ≠ 9 ∧ f.head.opcode ≠ 10
      omega
    rw [result_heard _ _ he (by change f.head.opcode ≠ 8; omega),
      heard_message hheader hmessage hcomp]
    rw [hout] at hcase
    refine congrArg recurse ?_
    unfold Held.data at hcase
    cases hfin : f.head.isFin with
    | true =>
      rw [hfin, if_pos rfl] at hcase
      cases hcase
      have hheaderFin : f.header.isFin = true := hfin
      simp [taken, next, h.assembly, hheaderFin, hears, filter_hears, Held.opcode]
      rfl
    | false =>
      rw [hfin, if_neg (by decide)] at hcase
      cases hcase
      have hheaderFin : f.header.isFin = false := hfin
      simp [taken, next, h.assembly, hheaderFin, Held.opcode]

theorem Holds.next {d : Decoder} {held held' : Held} {f : RawFrame} {bytes : Bytes}
    {es : List Effect} (h : d.Holds held (f.encode ++ bytes))
    (hout : f.outcome held = (es, some held')) : (d.next es held' bytes).Holds held' bytes := by
  refine ⟨⟨h.calm.status, h.calm.listening.congr rfl rfl rfl, .of_none rfl⟩,
    ⟨h.wire.status, h.wire.output, ?_⟩, rfl, rfl, rfl, rfl⟩
  intro b hb
  change b ∈ sends (d.trace ++ ([.frame] ++ es.filter d.hears)) at hb
  rw [sends_append, sends_append] at hb
  rcases List.mem_append.mp hb with hb | hb
  · exact h.wire.handed b hb
  · obtain ⟨e, he, hsend⟩ := List.mem_filterMap.mp hb
    have hopen := (RawFrame.outcome_open hout e (List.mem_of_mem_filter he)).2
    cases e with
    | send bytes =>
      cases hsend
      exact hopen
    | message _ _ | ping _ | pong _ | stopRead | closeTcp | frame | protocolError => cases hsend

/-- **The last frame** is one activation, which sends a close frame. -/
theorem Holds.activate_last {d : Decoder} {held : Held} {f : RawFrame} {bytes : Bytes}
    {es : List Effect} (h : d.Holds held (f.encode ++ bytes)) (hr : f.head.rsv = 0)
    (hout : f.outcome held = (es, none)) :
    Closed d.activate.state.trace ∧
      observed d.activate.state.trace = observed d.trace ++ es.filter d.hears := by
  have ha := ahead_raw h.header hr h.input
  have hopen := not_closed_of_wire h.wire
  have hrefusal (trace : List Effect) : Closed (trace ++
      [.protocolError, .stopRead, .send (closeFrame .PROTOCOL_ERROR)]) :=
    ⟨.send (closeFrame .PROTOCOL_ERROR), by simp, rfl⟩
  rw [Decoder.activate_eq h.calm.listening h.calm.status ha]
  obtain ⟨he, hcase⟩ | ⟨he, hop, hcase⟩ | ⟨he, hop, hcase⟩ | ⟨he, hop, hcase⟩ |
    ⟨he, hop, isBinary, hmessage, hcomp, hcase⟩ :=
      outcome_cases (d.taken f bytes) (show _ = held.opcode from h.fragmented) f
  · rw [hout] at hcase
    cases hcase
    rw [result_refused _ _ he]
    change Closed (protocolError _).trace ∧ observed (protocolError _).trace = _
    rw [trace_protocolError]
    refine ⟨hrefusal _, ?_⟩
    change observed (d.trace ++ [.frame] ++ _) = _
    rw [List.append_assoc, observed_append hopen]
    rfl
  · rw [hout] at hcase
    cases hcase
    rw [result_close _ _ he hop, state_recurse]
    change Closed (d.trace ++ [.frame] ++ [.send (closeFrame .NORMAL_CLOSE)] ++ [.closeTcp]) ∧
      observed (d.trace ++ [.frame] ++ [.send (closeFrame .NORMAL_CLOSE)] ++ [.closeTcp]) = _
    refine ⟨⟨.send (closeFrame .NORMAL_CLOSE), by simp, rfl⟩, ?_⟩
    rw [List.append_assoc, List.append_assoc, observed_append hopen]
    rfl
  · have hheader : f.header.opcode = 9 := hop
    by_cases hl : f.payload.length ≤ 125
    · rw [if_pos hl, hout] at hcase
      cases hcase
    · rw [if_neg hl, hout] at hcase
      cases hcase
      rw [result_heard _ _ he (by dsimp only; omega), state_recurse, heard_ping_long hheader hl]
      rw [← List.append_assoc]
      refine ⟨hrefusal _, ?_⟩
      change observed (d.trace ++ [.frame] ++ _ ++ _) = _
      rw [List.append_assoc, List.append_assoc, observed_append hopen, filter_hears]
      change _ ++ observed (.frame :: ((if d.pingCallback.isSome then _ else _) ++ _)) =
        _ ++ ((if d.pingCallback.isSome then _ else _) ++ _)
      cases d.pingCallback <;> rfl
  · rw [hout] at hcase
    cases hcase
  · rw [hout] at hcase
    unfold Held.data at hcase
    split at hcase <;> cases hcase

/-! ## A whole stream -/

/-- Nothing but what is seen, and frames that are taken up. -/
def Plain (trace : List Effect) : Prop := ∀ e ∈ trace, e.isSeen = true ∨ e = .frame

theorem plain_nil : Plain [] := fun _ he => absurd he List.not_mem_nil

theorem Plain.append {trace more : List Effect} (h : Plain trace) (h' : Plain more) :
    Plain (trace ++ more) := fun e he => (List.mem_append.mp he).elim (h e) (h' e)

theorem Plain.replied {trace : List Effect} (h : Plain trace) (app : Application) :
    Plain (app.replied trace) := by
  intro e he
  obtain ⟨e', he', hmem⟩ := List.mem_flatMap.mp he
  obtain rfl | hmem := List.mem_cons.mp hmem
  · exact h e he'
  · obtain ⟨c, -, rfl⟩ := List.mem_map.mp hmem
    exact .inl rfl

theorem plain_outcome {f : RawFrame} {held held' : Held} {es : List Effect}
    (h : f.outcome held = (es, some held')) (p : Effect → Bool) :
    Plain (.frame :: es.filter p) := by
  intro e he
  rcases List.mem_cons.mp he with rfl | he
  · exact .inr rfl
  · exact .inl (RawFrame.outcome_open h e (List.mem_of_mem_filter he)).1

/-- The bytes wait for more, as they came or behind the header that they begin with. -/
def Awaits (d : Decoder) (bytes : Bytes) : Prop :=
  d.header = none ∧ d.input = bytes ∨
    ∃ w : FrameHeader, d.header = some w.header ∧ bytes = w.encode ++ d.input

/-- Where decoding stands in the end, with no close frame sent. -/
structure Rests (d : Decoder) (held : Held) (bytes : Bytes) : Prop where
  status : d.status = .CONNECT
  assembly : d.assembly = held.assembly
  fragmented : d.fragmentedOpCode = held.opcode
  awaits : d.Awaits bytes

theorem Unfinished.ahead {d : Decoder} (hh : d.header = none) (h : Unfinished d.input) :
    d.ahead = none ∧ ¬ d.Reserved := by
  obtain ⟨f, hr, more, hmore, hencode⟩ := h
  constructor
  · cases ha : d.ahead with
    | none => rfl
    | some t =>
      have hraw : (d.receive more).ahead = some ⟨f.header, f.payload, (d.receive more).taken f []⟩ :=
        ahead_raw (d := d.receive more) hh hr (hencode.symm.trans (List.append_nil _).symm)
      rw [ahead_receive ha more] at hraw
      have hinput : t.state.input ++ more = [] :=
        congrArg (fun t : Taken => t.state.input) (Option.some.inj hraw)
      exact absurd (List.append_eq_nil_iff.mp hinput).2 hmore
  · rintro ⟨-, hres⟩
    have hfront := front_append_reserved hres more
    rw [← hencode, RawFrame.encode, FrameHeader.front_encode hr] at hfront
    cases hfront

/-- **The beginning of a frame** waits. -/
theorem Holds.activate_waits {d : Decoder} {held : Held} {bytes : Bytes} (h : d.Holds held bytes)
    (hne : bytes ≠ []) (hu : Unfinished bytes) :
    ∃ x : Decoder, d.activate = .returned x ∧ x.trace = d.trace ∧ x.Rests held bytes := by
  obtain ⟨hahead, hres⟩ := Unfinished.ahead h.header (h.input ▸ hu)
  have hsome (t : Taken) : d.ahead ≠ some t := fun ht => by
    rw [hahead] at ht
    cases ht
  have ho := d.outcome
  generalize d.activate = r at ho
  cases ho with
  | empty hh hi => exact absurd (h.input.symm.trans hi) hne
  | reserved hr => exact absurd hr hres
  | short wanted hh hf =>
    exact ⟨_, rfl, rfl, h.calm.status, h.assembly, h.fragmented, .inl ⟨hh, h.input⟩⟩
  | waits header d' hread hl =>
    rw [readHeader_none h.header] at hread
    unfold readFront at hread
    cases hf : front d.input with
    | nothing =>
      rw [hf] at hread
      cases hread
    | reserved =>
      rw [hf] at hread
      cases hread
    | short wanted =>
      rw [hf] at hread
      cases hread
    | full header' size code =>
      rw [hf] at hread
      cases hread
      obtain ⟨w, -, hheader, hinput⟩ := FrameHeader.exists_encode hf
      refine ⟨_, rfl, rfl, h.calm.status, h.assembly, h.fragmented, .inr ⟨w, ?_, ?_⟩⟩
      · rw [hheader]
      · rw [← h.input]
        exact hinput
  | refused t ha he => exact absurd ha (hsome t)
  | closed t ha hop hs => exact absurd ha (hsome t)
  | ignored t ha hop hs => exact absurd ha (hsome t)
  | failed t x ha he hop hx => exact absurd ha (hsome t)
  | told t x ha he hop hx => exact absurd ha (hsome t)

theorem Holds.activate_reserved {d : Decoder} {held : Held} {byte : UInt8} {bytes : Bytes}
    (h : d.Holds held (byte :: bytes)) (hb : byte.toNat &&& 0x70 ≠ 0) :
    Closed d.activate.state.trace ∧
      observed d.activate.state.trace = observed d.trace ++ refusal.filter d.hears := by
  have hopen := not_closed_of_wire h.wire
  rw [Decoder.activate_reserved h.header (h.input ▸ front_cons_reserved hb bytes)]
  refine ⟨closed_protocolError _, ?_⟩
  change observed (protocolError _).trace = _
  rw [trace_protocolError]
  change observed (d.trace ++ [.frame] ++ _) = _
  rw [List.append_assoc, observed_append hopen]
  rfl

theorem means_nil {held : Held} {es : List Effect} {left : Option (Held × Bytes)}
    (h : Means held [] es left) : es = [] ∧ left = some (held, []) :=
  means_unique h (.waits unfinished_nil)

/-- The result of reading a stream that means `es` and leaves `left`. -/
structure Reads (d : Decoder) (r : Call Decoder) (es : List Effect) (left : Option (Held × Bytes)) :
    Prop where
  seen : observed r.state.trace = observed d.trace ++ es.filter d.hears
  closed : left = none → Closed r.state.trace
  rests : ∀ held bytes, left = some (held, bytes) →
    ∃ x : Decoder, r = .returned x ∧ ¬ Closed x.trace ∧ x.Rests held bytes
  plain : left ≠ none → ∃ more, r.state.trace = d.trace ++ more ∧ Plain more

theorem closed_reads {d : Decoder} {n : ℕ} (hn : 0 < n) {es : List Effect}
    (h : Closed d.activate.state.trace ∧
      observed d.activate.state.trace = observed d.trace ++ es.filter d.hears) :
    d.Reads (Call.iterate activate n d) es none :=
  ⟨(observed_of_closed h.1 (grows_first hn d)).trans h.2, fun _ => h.1.mono (grows_first hn d),
    fun _ _ hleft => absurd hleft.symm (Option.some_ne_none _), fun hne => absurd rfl hne⟩

/-- **A stream** is read as it is meant. -/
theorem Holds.reads {d : Decoder} {held : Held} {bytes : Bytes} {es : List Effect}
    {left : Option (Held × Bytes)} (h : d.Holds held bytes) (hne : bytes ≠ [])
    (hm : Means held bytes es left) {n : ℕ} (hn : bytes.length < n) :
    d.Reads (Call.iterate activate n d) es left := by
  induction hm generalizing d n with
  | waits hu =>
    obtain ⟨n, rfl⟩ := Nat.exists_eq_succ_of_ne_zero (Nat.ne_zero_of_lt hn)
    obtain ⟨x, hx, htrace, hrests⟩ := h.activate_waits hne hu
    rw [Call.iterate_returned n hx]
    refine ⟨?_, fun hleft => absurd hleft (Option.some_ne_none _), ?_,
      fun _ => ⟨[], ?_, plain_nil⟩⟩
    · rw [List.filter_nil, List.append_nil, ← htrace]
      rfl
    · rintro held bytes ⟨⟩
      exact ⟨x, rfl, htrace ▸ not_closed_of_wire h.wire, hrests⟩
    · rw [List.append_nil]
      exact htrace
  | reserved hb => exact closed_reads (by omega) (h.activate_reserved hb)
  | last hr hout => exact closed_reads (by omega) (h.activate_last hr hout)
  | @next held held' f bytes es more left hr hout hm' ih =>
    obtain ⟨n, rfl⟩ := Nat.exists_eq_succ_of_ne_zero (Nat.ne_zero_of_lt hn)
    have hact := h.activate_next hr hout
    have hnext := h.next hout
    have hseen : observed (d.next es held' bytes).trace = observed d.trace ++ es.filter d.hears := by
      change observed (d.trace ++ (.frame :: es.filter d.hears)) = _
      have hframe : observed (.frame :: es.filter d.hears) = observed (es.filter d.hears) := rfl
      rw [observed_append (not_closed_of_wire h.wire), hframe, observed_eq_self fun e he =>
        RawFrame.outcome_open hout e (List.mem_of_mem_filter he)]
    by_cases hnil : bytes = []
    · subst hnil
      obtain ⟨rfl, rfl⟩ := means_nil hm'
      rw [Call.iterate_returned n (hact.trans (if_pos rfl)), List.append_nil]
      refine ⟨hseen, fun hleft => absurd hleft (Option.some_ne_none _), ?_, fun _ => ⟨_, rfl, plain_outcome hout d.hears⟩⟩
      rintro held bytes ⟨⟩
      exact ⟨_, rfl, not_closed_of_wire hnext.wire, hnext.calm.status, rfl, rfl, .inl ⟨rfl, rfl⟩⟩
    · rw [Call.iterate_again n (hact.trans (if_neg hnil))]
      have hpos := List.length_pos_iff.mpr f.encode_ne_nil
      rw [List.length_append] at hn
      have hreads := ih hnext hnil (n := n) (by omega)
      refine ⟨?_, hreads.closed, hreads.rests, fun hne => ?_⟩
      · rw [hreads.seen, hseen, List.filter_append, List.append_assoc]
        rfl
      · obtain ⟨more, hmore, hplain⟩ := hreads.plain hne
        refine ⟨_, ?_, (plain_outcome hout d.hears).append hplain⟩
        rw [hmore, ← List.append_assoc]
        rfl

theorem Reads.agree {d : Decoder} {r r' : Call Decoder} {es : List Effect}
    {left : Option (Held × Bytes)} (h : d.Reads r' es left) (hagree : Agree r r') :
    d.Reads r es left := by
  obtain ⟨t, ht, hr, hr'⟩ | ⟨x, -, rfl, rfl⟩ := hagree
  · have hnone (held : Held) (bytes : Bytes) : left ≠ some (held, bytes) := by
      intro hleft
      obtain ⟨x, rfl, hopen, -⟩ := h.rests held bytes hleft
      exact hopen (ht.mono hr')
    refine ⟨?_, fun _ => ht.mono hr, fun held bytes hleft => absurd hleft (hnone held bytes), ?_⟩
    · rw [← h.seen, observed_of_closed ht hr, observed_of_closed ht hr']
    · intro hne
      obtain ⟨⟨held, bytes⟩, hleft⟩ := Option.ne_none_iff_exists'.mp hne
      exact absurd hleft (hnone held bytes)
  · exact h

/-- The same in any reads. -/
theorem Holds.feed {d : Decoder} (h : d.Holds ⟨[], none⟩ d.input) (hw : d.wanted = 0)
    {chunks : List Bytes} (hchunks : chunks ≠ []) (hne : ∀ b ∈ chunks, b ≠ []) {es : List Effect}
    {left : Option (Held × Bytes)} (hm : Means ⟨[], none⟩ (d.input ++ chunks.flatten) es left) :
    d.Reads (d.feed chunks) es left := by
  obtain ⟨bytes, chunks, rfl⟩ := List.exists_cons_of_ne_nil hchunks
  have hinput : d.input ++ (bytes :: chunks).flatten ≠ [] := fun hnil =>
    hne bytes List.mem_cons_self
      (List.append_eq_nil_iff.mp (List.append_eq_nil_iff.mp hnil).2).1
  have hread : (d.receive (bytes :: chunks).flatten).Holds ⟨[], none⟩
      (d.input ++ (bytes :: chunks).flatten) :=
    ⟨h.calm.receive _, h.wire.congr rfl rfl rfl, h.header, rfl, h.assembly, h.fragmented⟩
  have hparse := parse_eq_iterate hread.calm (by
    change d.wanted ≤ _
    omega)
  have hreads := hread.reads hinput hm (n := (d.receive (bytes :: chunks).flatten).input.length + 2)
    (by rw [hread.input]; omega)
  rw [← hparse] at hreads
  exact Reads.agree ⟨hreads.seen, hreads.closed, hreads.rests, hreads.plain⟩ (agree_feed h.calm hne)

end Decoder

namespace WebSocketConnection

variable {app : Application}

theorem silent_hears (ws : WebSocketConnection) : ws.silent.abs.hears = ws.abs.hears := by
  funext e
  cases e <;> simp [Decoder.hears, silent, abs]

theorem Fresh.reads {ws : WebSocketConnection} (h : ws.Fresh) {chunks : List Bytes}
    (hchunks : chunks ≠ []) (hne : ∀ b ∈ chunks, b ≠ []) {es : List Effect}
    {left : Option (Held × Bytes)}
    (hm : Means ⟨[], none⟩ (ws.inputBuffer.readable ++ chunks.flatten) es left) :
    ws.silent.abs.Reads (ws.silent.abs.feed chunks) es left := by
  have hsilent := h.silent
  have hholds : ws.silent.abs.Holds ⟨[], none⟩ ws.silent.abs.input :=
    ⟨hsilent.calm ws.silent_listening, hsilent.wire, if_neg (by rw [hsilent.header]; decide), rfl,
      hsilent.decode, hsilent.fragmented⟩
  exact hholds.feed hsilent.wanted hchunks hne hm

theorem Fresh.mirrors_abs {ws : WebSocketConnection} (h : ws.Fresh) (hr : ws.Runs app)
    (httpParserExecute : WebSocketConnection → Bytes → ℕ × WebSocketConnection)
    {chunks : List Bytes} (hne : ∀ b ∈ chunks, b ≠ []) :
    Decoder.Mirrors app (ws.silent.abs.feed chunks) ((ws.feed httpParserExecute chunks).map abs) := by
  rw [← abs_feed httpParserExecute h.silent.past chunks]
  exact h.mirrors hr httpParserExecute hne

/-- A stream that is left open is read to its end, and all that its frames call for is seen. -/
theorem feed_open {ws : WebSocketConnection} (h : ws.Fresh) (hr : ws.Runs app)
    (httpParserExecute : WebSocketConnection → Bytes → ℕ × WebSocketConnection)
    {chunks : List Bytes} (hchunks : chunks ≠ []) (hne : ∀ b ∈ chunks, b ≠ []) {es : List Effect}
    {held : Held} {rest : Bytes}
    (hm : Means ⟨[], none⟩ (ws.inputBuffer.readable ++ chunks.flatten) es (some (held, rest))) :
    ∃ w, ws.feed httpParserExecute chunks = .returned w ∧ ¬ Closed w.trace ∧
      Decoder.Plain w.trace ∧ observed w.trace = app.replied (es.filter ws.abs.hears) ∧
      w.abs.Rests held rest := by
  have hsilent := h.reads hchunks hne hm
  have hmirrors := h.mirrors_abs hr httpParserExecute hne
  have htrace : ws.silent.abs.trace = [] := h.trace
  have hseen := hmirrors.observed
  rw [hsilent.seen, ws.silent_hears, htrace] at hseen
  obtain ⟨x, hx, hopen, hrests⟩ := hsilent.rests held rest rfl
  obtain ⟨more, hmore, hplain⟩ := hsilent.plain (Option.some_ne_none _)
  obtain ⟨t, ht, hpre, -⟩ | ⟨y, -, -, hy, hy'⟩ := hmirrors
  · rw [hx] at hpre
    exact absurd (ht.mono hpre) hopen
  · cases hx.symm.trans hy
    obtain ⟨w, hw, hwabs⟩ := Call.map_eq_returned hy'
    have hwtrace : w.trace = app.replied x.trace := congrArg Decoder.trace hwabs
    rw [hx, htrace, List.nil_append] at hmore
    rw [hy', hwabs.symm] at hseen
    refine ⟨w, hw, ?_, ?_, hseen, ?_⟩
    · rw [hwtrace, app.closed_replied]
      exact hopen
    · rw [hwtrace]
      exact Decoder.Plain.replied (hmore ▸ hplain) app
    · rw [hwabs]
      exact ⟨hrests.status, hrests.assembly, hrests.fragmented, hrests.awaits⟩

/-- Meaning over naturals. -/
theorem Fresh.feed_meant {ws : WebSocketConnection} (h : ws.Fresh) (hr : ws.Runs app)
    (httpParserExecute : WebSocketConnection → Bytes → ℕ × WebSocketConnection)
    {chunks : List Bytes} (hchunks : chunks ≠ []) (hne : ∀ b ∈ chunks, b ≠ []) :
    (∃! p : List Effect × Option (Held × Bytes),
        Means ⟨[], none⟩ (ws.inputBuffer.readable ++ chunks.flatten) p.1 p.2) ∧
      ∀ es left, Means ⟨[], none⟩ (ws.inputBuffer.readable ++ chunks.flatten) es left →
        observed (ws.feed httpParserExecute chunks).state.trace =
            app.replied (es.filter ws.abs.hears) ∧
          (left = none → Closed (ws.feed httpParserExecute chunks).state.trace) ∧
          ∀ held bytes, left = some (held, bytes) →
            ∃ w, ws.feed httpParserExecute chunks = .returned w ∧ ¬ Closed w.trace ∧
              w.abs.Rests held bytes := by
  refine ⟨exists_unique_means _ _, fun es left hm => ?_⟩
  have hreads := h.reads hchunks hne hm
  have hmirrors := h.mirrors_abs hr httpParserExecute hne
  have hseen := hmirrors.observed
  rw [Call.state_map, hreads.seen, ws.silent_hears] at hseen
  have htrace : ws.silent.abs.trace = [] := h.trace
  rw [htrace] at hseen
  refine ⟨hseen, fun hleft => ?_, fun held bytes hleft => ?_⟩
  · have hclosed := hreads.closed hleft
    obtain ⟨t, ht, -, hr'⟩ | ⟨x, -, hw, hx, -⟩ := hmirrors
    · rw [Call.state_map] at hr'
      exact ((app.closed_replied t).mpr ht).mono hr'
    · rw [hx] at hclosed
      exact absurd hclosed (Decoder.not_closed_of_wire hw)
  · obtain ⟨w, hw, hopen, -, -, hrests⟩ :=
      feed_open h hr httpParserExecute hchunks hne (hleft ▸ hm)
    exact ⟨w, hw, hopen, hrests⟩

/-- **Meaning.** Whatever bytes come in whatever reads, as long as the indices have room for them they
mean one thing: the application is told, and the connection sends, what the frames say and the replies
behind it, up to the first close frame. No close frame is sent exactly if the stream is one of frames
that the connection takes, with the beginning of another one behind them; then what is held of a message
is what these frames leave. -/
theorem feed_means {ws : WebSocketConnection} (h : ws.Fresh) (hr : ws.Runs app)
    (hsmall : ws.Small 4) (happ : app.Modest)
    (httpParserExecute : Machine.WebSocketConnection → Bytes → ℕ × Machine.WebSocketConnection)
    {chunks : List Bytes} (hroom : ws.HasRoom chunks.flatten.length) (hchunks : chunks ≠ [])
    (hne : ∀ b ∈ chunks, b ≠ []) :
    (∃! p : List Effect × Option (Held × Bytes),
        Means ⟨[], none⟩ (ws.inputBuffer.readable ++ chunks.flatten) p.1 p.2) ∧
      ∀ es left, Means ⟨[], none⟩ (ws.inputBuffer.readable ++ chunks.flatten) es left →
        observed (ws.machine.feed httpParserExecute chunks).state.trace =
            app.replied (es.filter ws.abs.hears) ∧
          (left = none → Closed (ws.machine.feed httpParserExecute chunks).state.trace) ∧
          ∀ held bytes, left = some (held, bytes) →
            ∃ w : WebSocketConnection,
              ws.machine.feed httpParserExecute chunks = .returned w.machine ∧ ¬ Closed w.trace ∧
                w.abs.Rests held bytes := by
  have hmodest := hr.modest happ
  obtain ⟨hunique, hmeant⟩ := h.feed_meant hr (fun ws _ => (0, ws)) hchunks hne
  rw [hsmall.feed_trace (fun ws _ => (0, ws)) httpParserExecute hmodest h.past hroom.roomFor]
  refine ⟨hunique, fun es left hm => ?_⟩
  obtain ⟨hseen, hclosed, hopen⟩ := hmeant es left hm
  refine ⟨hseen, hclosed, fun held bytes hleft => ?_⟩
  obtain ⟨w, hw, hnot, hrests⟩ := hopen held bytes hleft
  exact ⟨w, hsmall.feed_returned _ httpParserExecute hmodest h.past hroom.roomFor hw, hnot, hrests⟩

/-- A masked text frame and the first byte of another frame, in two reads, at the echo server. -/
theorem feed_means_text :
    let ws := connected (some Application.echo.callback) (some Application.echo.callback)
      (some Application.echo.callback)
    let execute : Machine.WebSocketConnection → Bytes → ℕ × Machine.WebSocketConnection :=
      fun ws _ => (0, ws)
    let chunks : List Bytes := [[0x81, 0x82, 0x01, 0x02, 0x03], [0x04, 0x60, 0x60, 0x81]]
    observed (ws.machine.feed execute chunks).state.trace =
        [.message [0x61, 0x62] false, .send [0x81, 0x02, 0x61, 0x62]] ∧
      ∃ w : WebSocketConnection, ws.machine.feed execute chunks = .returned w.machine ∧
        ¬ Closed w.trace ∧ w.abs.Rests ⟨[], none⟩ [0x81] := by
  intro ws execute chunks
  let f : RawFrame :=
    ⟨⟨true, 0, 1, some [1, 2, 3, 4], .short, 2, by decide, by decide, by simp, by decide⟩,
      [0x61, 0x62], rfl⟩
  let g : RawFrame :=
    ⟨⟨true, 0, 1, none, .short, 0, by decide, by decide, by simp, by decide⟩, [], rfl⟩
  have hlast : Means ⟨[], none⟩ [0x81] [] (some (⟨[], none⟩, [0x81])) :=
    .waits ⟨g, rfl, [0x00], by decide, by decide⟩
  have hm : Means ⟨[], none⟩ (f.encode ++ [0x81]) ([.message [0x61, 0x62] false] ++ [])
      (some (⟨[], none⟩, [0x81])) :=
    .next rfl rfl hlast
  have hstream : ws.inputBuffer.readable ++ chunks.flatten = f.encode ++ [0x81] := by
    decide +kernel
  have hroom : ws.HasRoom chunks.flatten.length := connected_hasRoom _ _ _ (by decide)
  obtain ⟨-, hmeans⟩ := feed_means (connected_fresh _ _ _) (connected_runs .echo)
    (connected_small _ _ _) Application.echo_modest execute hroom (show chunks ≠ [] by decide)
    (show ∀ b ∈ chunks, b ≠ [] by decide)
  obtain ⟨hseen, -, hrests⟩ := hmeans _ _ (hstream ▸ hm)
  refine ⟨hseen.trans ?_, hrests _ _ rfl⟩
  decide +kernel

end WebSocketConnection
end WsEngine
