import WsEngine.Ws.Frame

/-! # Frames and how they are written

Headers with any bits and any opcode, and the well-formed frames that a peer may send before it
closes. Reading one back gives its header, whatever stands behind it (`front_encode`), and the mask
is its own inverse. -/
set_option autoImplicit false

namespace WsEngine

inductive FrameKind
  | continuation | text | binary | ping | pong
  deriving DecidableEq, Repr

namespace FrameKind

def opcode : FrameKind → ℕ
  | continuation => 0
  | text => 1
  | binary => 2
  | ping => 9
  | pong => 10

def isControl : FrameKind → Bool
  | ping | pong => true
  | continuation | text | binary => false

theorem isControl_iff (k : FrameKind) : k.isControl = true ↔ k.opcode = 9 ∨ k.opcode = 10 := by
  cases k <;> decide

end FrameKind

/-- How the payload length is written: in seven bits, in two bytes or in eight. -/
inductive LengthForm
  | short | medium | long
  deriving DecidableEq, Repr

namespace LengthForm

def bound : LengthForm → ℕ
  | short => 126
  | medium => 2 ^ 16
  | long => 2 ^ 64

def code (length : ℕ) : LengthForm → ℕ
  | short => length
  | medium => 126
  | long => 127

def bytes (length : ℕ) : LengthForm → Bytes
  | short => []
  | medium => Buffer.htons length
  | long => Buffer.htonl (length >>> 32) ++ Buffer.htonl length

/-- The form that the length has to be written in. -/
def shortest (length : ℕ) : LengthForm :=
  if length < 126 then short else if length < 2 ^ 16 then medium else long

theorem lt_bound_shortest {length : ℕ} (h : length < 2 ^ 64) :
    length < (shortest length).bound := by
  unfold shortest
  by_cases h1 : length < 126
  · rw [if_pos h1]
    exact h1
  · rw [if_neg h1]
    by_cases h2 : length < 2 ^ 16
    · rw [if_pos h2]
      exact h2
    · rw [if_neg h2]
      exact h

theorem code_lt {length : ℕ} {form : LengthForm} (h : length < form.bound) :
    form.code length < 128 := by
  cases form with
  | short =>
    change length < 126 at h
    change length < 128
    omega
  | medium =>
    change 126 < 128
    decide
  | long =>
    change 127 < 128
    decide

theorem length_bytes {length : ℕ} {form : LengthForm} (h : length < form.bound) :
    (form.bytes length).length = extension (form.code length) := by
  cases form with
  | short =>
    change length < 126 at h
    change 0 = extension length
    unfold extension
    rw [if_neg (by omega), if_neg (by omega)]
  | medium => rfl
  | long => rfl

theorem ntoh_htons {n : ℕ} (h : n < 2 ^ 16) : Buffer.ntoh (Buffer.htons n) = n := by
  simp only [Buffer.ntoh, Buffer.htons, List.foldl_cons, List.foldl_nil, UInt8.toNat_ofNat',
    Nat.shiftRight_eq_div_pow]
  omega

theorem ntoh_htonl (n : ℕ) : Buffer.ntoh (Buffer.htonl n) = n % 2 ^ 32 := by
  simp only [Buffer.ntoh, Buffer.htonl, List.foldl_cons, List.foldl_nil, UInt8.toNat_ofNat',
    Nat.shiftRight_eq_div_pow]
  omega

theorem extendedLength_bytes {length : ℕ} {form : LengthForm} (h : length < form.bound)
    (rest : Bytes) : extendedLength (form.code length) (form.bytes length ++ rest) = length := by
  unfold extendedLength
  rw [← length_bytes h, List.take_left]
  cases form with
  | short => rfl
  | medium => exact ntoh_htons h
  | long =>
    change Buffer.ntoh (Buffer.htonl (length >>> 32)) <<< 32 ||| Buffer.ntoh (Buffer.htonl length) =
      length
    have hlt : length % 2 ^ 32 < 2 ^ 32 := Nat.mod_lt _ (by decide)
    change length < 2 ^ 64 at h
    rw [ntoh_htonl, ntoh_htonl, ← Nat.shiftLeft_add_eq_or_of_lt hlt, Nat.shiftRight_eq_div_pow,
      Nat.shiftLeft_eq]
    omega

end LengthForm

theorem unmask_unmask (key payload : Bytes) : unmask key (unmask key payload) = payload := by
  unfold unmask
  rw [List.mapIdx_mapIdx]
  apply List.ext_getElem
  · simp
  · intro i h1 h2
    have hself (byte mask : UInt8) : byte ^^^ mask ^^^ mask = byte := by
      rw [UInt8.xor_assoc, UInt8.xor_self, UInt8.xor_zero]
    simp only [List.getElem_mapIdx, Function.comp_apply, hself]

theorem Header.unmask_unmask (h : Header) (payload : Bytes) :
    h.unmask (h.unmask payload) = payload := by
  unfold Header.unmask
  cases h.mask with
  | none => rfl
  | some key => exact WsEngine.unmask_unmask key payload

theorem no_key : ∀ key ∈ (none : Option Bytes), key.length = 4 :=
  fun _ hm => absurd hm (Option.not_mem_none _)

/-- The header of a frame, valid or not. -/
structure FrameHeader where
  isFin : Bool
  rsv : ℕ
  opcode : ℕ
  mask : Option Bytes
  form : LengthForm
  length : ℕ
  rsv_lt : rsv < 8
  opcode_lt : opcode < 16
  mask_length : ∀ key ∈ mask, key.length = 4
  fits : length < form.bound

namespace FrameHeader

def header (h : FrameHeader) : Header := ⟨h.isFin, h.opcode, h.mask, h.length⟩

def first (h : FrameHeader) : ℕ := (if h.isFin then 0x80 else 0) + (h.rsv * 0x10 + h.opcode)

def second (h : FrameHeader) : ℕ := (if h.mask.isSome then 0x80 else 0) + h.form.code h.length

def encode (h : FrameHeader) : Bytes :=
  UInt8.ofNat h.first :: UInt8.ofNat h.second :: (h.form.bytes h.length ++ h.mask.getD [])

theorem first_bits : ∀ isFin : Bool, ∀ rsv < 8, ∀ opcode < 16,
    let first := (if isFin then 0x80 else 0) + (rsv * 0x10 + opcode)
    (UInt8.ofNat first).toNat = first ∧ (first &&& 0x70 = 0 ↔ rsv = 0) ∧ first &&& 0x0f = opcode ∧
      decide (first >>> 7 ≠ 0) = isFin := by
  decide +kernel

theorem first_eq (h : FrameHeader) :
    (UInt8.ofNat h.first).toNat = h.first ∧ (h.first &&& 0x70 = 0 ↔ h.rsv = 0) ∧
      h.first &&& 0x0f = h.opcode ∧ decide (h.first >>> 7 ≠ 0) = h.isFin :=
  first_bits h.isFin h.rsv h.rsv_lt h.opcode h.opcode_lt

theorem second_eq (h : FrameHeader) :
    (UInt8.ofNat h.second).toNat = h.second ∧ h.second &&& 0x7f = h.form.code h.length ∧
      (h.second >>> 7 = 1 ↔ h.mask.isSome = true) := by
  have hcode := LengthForm.code_lt h.fits
  have hand : h.second &&& 0x7f = h.second % 2 ^ 7 := Nat.and_two_pow_sub_one_eq_mod h.second 7
  rw [hand, Nat.shiftRight_eq_div_pow, UInt8.toNat_ofNat']
  unfold second
  cases h.mask with
  | none =>
    simp only [Option.isSome_none, Bool.false_eq_true, if_false, iff_false]
    omega
  | some key =>
    simp only [Option.isSome_some, if_true, iff_true]
    omega

theorem length_encode (h : FrameHeader) :
    h.encode.length = 2 + extension (h.form.code h.length) + (h.mask.getD []).length := by
  unfold encode
  rw [List.length_cons, List.length_cons, List.length_append, LengthForm.length_bytes h.fits]
  omega

theorem front_reserved {h : FrameHeader} (hr : h.rsv ≠ 0) (rest : Bytes) :
    front (h.encode ++ rest) = .reserved := by
  obtain ⟨hfirst, hreserved, -⟩ := h.first_eq
  have hbits : (UInt8.ofNat h.first).toNat &&& 0x70 ≠ 0 := by
    rw [hfirst]
    exact fun hz => hr (hreserved.mp hz)
  exact if_pos hbits

/-- **A header is read back.** -/
theorem front_encode {h : FrameHeader} (hr : h.rsv = 0) (rest : Bytes) :
    front (h.encode ++ rest) = .full h.header h.encode.length (h.form.code h.length) := by
  obtain ⟨hfirst, hreserved, hopcode, hfin⟩ := h.first_eq
  obtain ⟨hsecond, hcode, hmask⟩ := h.second_eq
  have hext := LengthForm.length_bytes h.fits
  have hlength := LengthForm.extendedLength_bytes h.fits (h.mask.getD [] ++ rest)
  rw [length_encode]
  change (if (UInt8.ofNat h.first).toNat &&& 0x70 ≠ 0 then Front.reserved
    else frontAfter (UInt8.ofNat h.first).toNat (UInt8.ofNat h.second).toNat
      (h.form.bytes h.length ++ h.mask.getD [] ++ rest)) = _
  rw [hfirst, hsecond, if_neg (not_not_intro (hreserved.mpr hr)), List.append_assoc]
  unfold frontAfter
  simp only [hcode, hopcode, hfin, hlength]
  have hlen : (h.form.bytes h.length ++ (h.mask.getD [] ++ rest)).length =
      extension (h.form.code h.length) + ((h.mask.getD []).length + rest.length) := by
    rw [List.length_append, hext, List.length_append]
  rw [if_neg (by omega)]
  unfold header
  cases hm : h.mask with
  | none =>
    rw [if_neg (by simp [hmask, hm])]
    rfl
  | some key =>
    have hkey : key.length = 4 := h.mask_length key hm
    have hdrop : ((h.form.bytes h.length ++ ((some key).getD [] ++ rest)).drop
        (extension (h.form.code h.length))).take 4 = key := by
      rw [← hext, List.drop_left, ← hkey]
      exact List.take_left
    rw [hm] at hlen
    simp only [Option.getD_some] at hlen hdrop ⊢
    rw [if_pos (by rw [hmask, hm]; rfl), if_neg (by omega), hdrop, hkey]

end FrameHeader

/-- A frame, valid or not. -/
structure RawFrame where
  head : FrameHeader
  payload : Bytes
  length_payload : payload.length = head.length

namespace RawFrame

def header (f : RawFrame) : Header := f.head.header

def encode (f : RawFrame) : Bytes := f.head.encode ++ f.header.unmask f.payload

end RawFrame

structure Frame where
  isFin : Bool
  kind : FrameKind
  mask : Option Bytes
  form : LengthForm
  payload : Bytes
  mask_length : ∀ key ∈ mask, key.length = 4
  fits : payload.length < form.bound
  control : kind.isControl = true → isFin = true ∧ payload.length ≤ 125

namespace Frame

def header (f : Frame) : Header := ⟨f.isFin, f.kind.opcode, f.mask, f.payload.length⟩

def first (f : Frame) : ℕ := (if f.isFin then 0x80 else 0) + f.kind.opcode

def second (f : Frame) : ℕ := (if f.mask.isSome then 0x80 else 0) + f.form.code f.payload.length

def encodeHeader (f : Frame) : Bytes :=
  UInt8.ofNat f.first :: UInt8.ofNat f.second :: (f.form.bytes f.payload.length ++ f.mask.getD [])

/-- The header and the payload under the mask, which `unmask` puts on too. -/
def encode (f : Frame) : Bytes := f.encodeHeader ++ f.header.unmask f.payload

def frameHeader (f : Frame) : FrameHeader where
  isFin := f.isFin
  rsv := 0
  opcode := f.kind.opcode
  mask := f.mask
  form := f.form
  length := f.payload.length
  rsv_lt := by decide
  opcode_lt := by cases f.kind <;> decide
  mask_length := f.mask_length
  fits := f.fits

theorem encode_frameHeader (f : Frame) : f.frameHeader.encode = f.encodeHeader := by
  have hfirst : f.frameHeader.first = f.first := congrArg _ (Nat.zero_add _)
  unfold FrameHeader.encode
  rw [hfirst]
  rfl

theorem front_encode (f : Frame) (rest : Bytes) :
    front (f.encodeHeader ++ rest) =
      .full f.header f.encodeHeader.length (f.form.code f.payload.length) := by
  rw [← encode_frameHeader]
  exact FrameHeader.front_encode rfl rest

def raw (f : Frame) : RawFrame := ⟨f.frameHeader, f.payload, rfl⟩

theorem encode_raw (f : Frame) : f.raw.encode = f.encode :=
  congrArg (· ++ f.header.unmask f.payload) f.encode_frameHeader

theorem unmask_payload (f : Frame) : f.header.unmask (f.header.unmask f.payload) = f.payload :=
  f.header.unmask_unmask f.payload

theorem encode_ne_nil (f : Frame) : f.encode ≠ [] := List.cons_ne_nil _ _

end Frame
end WsEngine
