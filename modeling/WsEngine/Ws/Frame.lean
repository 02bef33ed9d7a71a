import WsEngine.Ws.Decode

/-! # The frame format

What stands at the front of an input (`front`), apart from the buffers that hold the bytes, and that
it stays there when more bytes arrive. -/
set_option autoImplicit false

namespace WsEngine

/-- A header that was read: what `decode` keeps of it. -/
structure Header where
  isFin : Bool
  opcode : ℕ
  mask : Option Bytes
  length : ℕ
  deriving DecidableEq, Repr

def Header.unmask (h : Header) (payload : Bytes) : Bytes :=
  match h.mask with
  | some key => WsEngine.unmask key payload
  | none => payload

@[simp] theorem Header.length_unmask (h : Header) (payload : Bytes) :
    (h.unmask payload).length = payload.length := by
  unfold unmask
  split
  · exact WsEngine.length_unmask _ _
  · rfl

def extension (code : ℕ) : ℕ := if code = 126 then 2 else if code = 127 then 8 else 0

/-- The payload length for a length code and the bytes after it. -/
def extendedLength (code : ℕ) (bytes : Bytes) : ℕ :=
  if extension code = 0 then code else Buffer.typedNumber (extension code) (bytes.take (extension code))

/-- What an input starts with: nothing, a byte with a reserved bit, a header that needs `wanted`
bytes, or a header of `size` bytes whose second byte has the length code `code`. -/
inductive Front
  | nothing
  | reserved
  | short (wanted : ℕ)
  | full (header : Header) (size code : ℕ)
  deriving DecidableEq, Repr

def frontAfter (first second : ℕ) (rest : Bytes) : Front :=
  let code := second &&& 0x7f
  let header (mask : Option Bytes) : Header :=
    ⟨first >>> 7 ≠ 0, first &&& 0x0f, mask, extendedLength code rest⟩
  if rest.length < extension code then .short (2 + extension code)
  else if second >>> 7 = 1 then
    if rest.length < extension code + 4 then .short (2 + extension code + 4)
    else .full (header (some ((rest.drop (extension code)).take 4))) (2 + extension code + 4) code
  else .full (header none) (2 + extension code) code

def front : Bytes → Front
  | [] => .nothing
  | [first] => if first.toNat &&& 0x70 ≠ 0 then .reserved else .short 2
  | first :: second :: rest =>
    if first.toNat &&& 0x70 ≠ 0 then .reserved else frontAfter first.toNat second.toNat rest

theorem frontAfter_size {first second : ℕ} {rest : Bytes} {h : Header} {size code : ℕ}
    (hf : frontAfter first second rest = .full h size code) : 2 ≤ size ∧ size ≤ rest.length + 2 := by
  unfold frontAfter at hf
  dsimp only at hf
  by_cases h1 : rest.length < extension (second &&& 0x7f)
  · rw [if_pos h1] at hf
    cases hf
  · rw [if_neg h1] at hf
    by_cases h2 : second >>> 7 = 1
    · rw [if_pos h2] at hf
      by_cases h3 : rest.length < extension (second &&& 0x7f) + 4
      · rw [if_pos h3] at hf
        cases hf
      · rw [if_neg h3] at hf
        cases hf
        omega
    · rw [if_neg h2] at hf
      cases hf
      omega

theorem frontAfter_ne_nothing (first second : ℕ) (rest : Bytes) :
    frontAfter first second rest ≠ .nothing := by
  unfold frontAfter
  dsimp only
  split
  · exact nofun
  · split
    · split <;> exact nofun
    · exact nofun

theorem frontAfter_ne_reserved (first second : ℕ) (rest : Bytes) :
    frontAfter first second rest ≠ .reserved := by
  unfold frontAfter
  dsimp only
  split
  · exact nofun
  · split
    · split <;> exact nofun
    · exact nofun

theorem front_nothing {input : Bytes} (hf : front input = .nothing) : input = [] := by
  match input with
  | [] => rfl
  | [first] =>
    simp only [front] at hf
    split at hf <;> cases hf
  | first :: second :: rest =>
    simp only [front] at hf
    split at hf
    · cases hf
    · exact absurd hf (frontAfter_ne_nothing _ _ _)

theorem front_size {input : Bytes} {h : Header} {size code : ℕ}
    (hf : front input = .full h size code) : 2 ≤ size ∧ size ≤ input.length := by
  match input with
  | [] => cases hf
  | [first] =>
    simp only [front] at hf
    split at hf <;> cases hf
  | first :: second :: rest =>
    simp only [front] at hf
    split at hf
    · cases hf
    · exact frontAfter_size hf

/-! ## More bytes behind the front -/

theorem extendedLength_append {code : ℕ} {rest : Bytes} (h : extension code ≤ rest.length)
    (more : Bytes) : extendedLength code (rest ++ more) = extendedLength code rest := by
  unfold extendedLength
  rw [List.take_append_of_le_length h]

theorem frontAfter_append {first second : ℕ} {rest : Bytes} {h : Header} {size code : ℕ}
    (hf : frontAfter first second rest = .full h size code) (more : Bytes) :
    frontAfter first second (rest ++ more) = .full h size code := by
  unfold frontAfter at hf ⊢
  dsimp only at hf ⊢
  have hlen : rest.length ≤ (rest ++ more).length := by simp
  by_cases h1 : rest.length < extension (second &&& 0x7f)
  · rw [if_pos h1] at hf
    cases hf
  · rw [if_neg h1] at hf
    rw [if_neg (by omega), extendedLength_append (by omega)]
    by_cases h2 : second >>> 7 = 1
    · rw [if_pos h2] at hf ⊢
      by_cases h3 : rest.length < extension (second &&& 0x7f) + 4
      · rw [if_pos h3] at hf
        cases hf
      · rw [if_neg h3] at hf
        have hkey : ((rest ++ more).drop (extension (second &&& 0x7f))).take 4 =
            (rest.drop (extension (second &&& 0x7f))).take 4 := by
          rw [List.drop_append_of_le_length (by omega), List.take_append_of_le_length]
          rw [List.length_drop]
          omega
        rw [if_neg (by omega), hkey, hf]
    · rw [if_neg h2] at hf ⊢
      exact hf

theorem frontAfter_append_short {first second : ℕ} {rest more : Bytes} {wanted : ℕ}
    (hf : frontAfter first second rest = .short wanted)
    (hw : (rest ++ more).length + 2 < wanted) :
    frontAfter first second (rest ++ more) = .short wanted := by
  unfold frontAfter at hf ⊢
  dsimp only at hf ⊢
  by_cases h1 : rest.length < extension (second &&& 0x7f)
  · rw [if_pos h1] at hf
    cases hf
    rw [if_pos (by omega)]
  · rw [if_neg h1] at hf
    have hlen : rest.length ≤ (rest ++ more).length := by simp
    by_cases h2 : second >>> 7 = 1
    · rw [if_pos h2] at hf
      rw [if_neg (by omega), if_pos h2]
      by_cases h3 : rest.length < extension (second &&& 0x7f) + 4
      · rw [if_pos h3] at hf
        cases hf
        rw [if_pos (by omega)]
      · rw [if_neg h3] at hf
        cases hf
    · rw [if_neg h2] at hf
      cases hf

theorem front_append_reserved {input : Bytes} (hf : front input = .reserved) (more : Bytes) :
    front (input ++ more) = .reserved := by
  match input with
  | [] => cases hf
  | [first] =>
    simp only [front] at hf
    split at hf
    · next hbits => cases more <;> exact if_pos hbits
    · cases hf
  | first :: second :: rest =>
    simp only [front] at hf
    split at hf
    · next hbits => exact if_pos hbits
    · exact absurd hf (frontAfter_ne_reserved _ _ _)

theorem front_append_full {input : Bytes} {h : Header} {size code : ℕ}
    (hf : front input = .full h size code) (more : Bytes) :
    front (input ++ more) = .full h size code := by
  match input with
  | [] => cases hf
  | [first] =>
    simp only [front] at hf
    split at hf <;> cases hf
  | first :: second :: rest =>
    simp only [front] at hf
    split at hf
    · cases hf
    · next hbits => exact (if_neg hbits).trans (frontAfter_append hf more)

/-- What a header needs is known from its first bytes. -/
theorem front_append_short {input more : Bytes} {wanted : ℕ} (hf : front input = .short wanted)
    (hw : (input ++ more).length < wanted) : front (input ++ more) = .short wanted := by
  match input with
  | [] => cases hf
  | [first] =>
    simp only [front] at hf
    split at hf
    · cases hf
    · next hbits =>
      cases hf
      have hnil : more = [] := by
        rw [List.length_append, List.length_singleton] at hw
        exact List.length_eq_zero_iff.mp (by omega)
      rw [hnil, List.append_nil]
      exact if_neg hbits
  | first :: second :: rest =>
    simp only [front] at hf
    split at hf
    · cases hf
    · next hbits => exact (if_neg hbits).trans (frontAfter_append_short hf hw)

end WsEngine
