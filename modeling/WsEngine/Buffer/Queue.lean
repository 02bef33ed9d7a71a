import WsEngine.Buffer.Model

/-! # The buffer as a byte queue

Each operation in terms of `readable`, the bytes waiting to be read. Nothing below this module
looks at the indices again, the memory behind writes in flight apart. -/
set_option autoImplicit false

namespace WsEngine
namespace Buffer
open Window

theorem readableBytes_eq (b : Buffer) : b.readableBytes = b.readable.length :=
  (length_readable b).symm

theorem index_bounds (b : Buffer) : b.readIndex_ ≤ b.writeIndex_ ∧ b.writeIndex_ ≤ b.buf_.length ∧
    b.readable.length = b.writeIndex_ - b.readIndex_ :=
  ⟨b.read_le_write, b.write_le_size, length_readable b⟩

theorem empty_iff (b : Buffer) : b.empty = true ↔ b.readable = [] := by
  rw [empty, decide_eq_true_iff, readableBytes_eq, List.length_eq_zero_iff]

@[simp] theorem readable_ofSize (len : ℕ) : (ofSize len).readable = [] := by
  rw [readable, peek, readableBytes]
  exact window_zero _ _

@[simp] theorem readable_clear (b : Buffer) : b.clear.readable = [] := by
  rw [readable, peek, readableBytes]
  exact window_zero _ _

theorem peek_eq_take {b : Buffer} {len : ℕ} (h : len ≤ b.readable.length) :
    b.peek len = b.readable.take len := by
  rw [length_readable] at h
  rw [readable, peek, peek, take_window _ _ _ _ h]

/-! ## Reading -/

@[simp] theorem readable_advance (b : Buffer) (len : ℕ) :
    (b.advance len).readable = b.readable.drop len := by
  have h := b.read_le_write
  rw [readable, readable, peek, peek, drop_window]
  simp only [advance, readableBytes]
  by_cases hlen : b.readIndex_ + len ≤ b.writeIndex_
  · rw [Nat.min_eq_left hlen, Nat.sub_sub]
  · rw [Nat.min_eq_right (by omega), show b.writeIndex_ - b.readIndex_ - len = 0 by omega,
      Nat.sub_self, window_zero, window_zero]

theorem advance_advance (b : Buffer) (m n : ℕ) : (b.advance m).advance n = b.advance (m + n) := by
  simp only [advance, mk.injEq, true_and, and_true]
  omega

@[simp] theorem advance_zero (b : Buffer) : b.advance 0 = b := by
  obtain ⟨h1, -, -⟩ := b.index_bounds
  simp only [advance, Nat.add_zero, Nat.min_eq_left h1]

theorem retrieve_eq {b : Buffer} {len : ℕ} (h : len ≤ b.readable.length) :
    b.retrieve len = some (b.advance len) := by
  obtain ⟨h1, h2, h3⟩ := b.index_bounds
  exact if_pos (by omega)

theorem read_eq {b : Buffer} {len : ℕ} (h : len ≤ b.readable.length) :
    b.read len = some (b.readable.take len, b.advance len) := by
  rw [read, if_pos (by rwa [length_readable] at h), retrieve_eq h, Option.map_some, peek_eq_take h]

theorem unread_advance {b : Buffer} {len : ℕ} (h : len ≤ b.readable.length) :
    (b.advance len).unread len = some b := by
  obtain ⟨h1, h2, h3⟩ := b.index_bounds
  have hmin : min (b.readIndex_ + len) b.writeIndex_ = b.readIndex_ + len :=
    Nat.min_eq_left (by omega)
  unfold unread advance
  simp only [hmin]
  rw [if_pos (by omega)]
  simp only [Nat.add_sub_cancel]

theorem readString_eq (b : Buffer) :
    b.readString = some (b.readable, b.advance b.readable.length) := by
  rw [readString, readableBytes_eq, retrieve_eq (le_refl _), Option.map_some,
    peek_eq_take (le_refl _), List.take_length]

theorem readTypedNumber_eq {b : Buffer} {size : ℕ} (h : size ≤ b.readable.length) :
    b.readTypedNumber size = some (typedNumber size (b.readable.take size), b.advance size) := by
  rw [readTypedNumber, if_pos (by rwa [length_readable] at h), retrieve_eq h, Option.map_some,
    peek_eq_take h]

/-! ## Writing -/

@[simp] theorem readable_compact (b : Buffer) : b.compact.readable = b.readable := by
  have h : (b.compact.readableBytes) = b.readable.length := by
    rw [length_readable]
    rfl
  rw [readable, h, peek]
  simp only [compact, overwrite, List.take_zero, List.nil_append]
  exact window_append_left _ _

@[simp] theorem readable_resize (b : Buffer) (more n : ℕ) :
    (b.resize more n).readable = b.readable := by
  obtain ⟨h1, h2, -⟩ := b.index_bounds
  simp only [readable, peek, resize, readableBytes]
  exact window_append _ (by omega)

@[simp] theorem readable_ensureSpace (b : Buffer) (len : ℕ) :
    (b.ensureSpace len).2.readable = b.readable := by
  obtain ⟨-, -, e⟩ | ⟨-, -, -, e⟩ | ⟨-, more, n, -, -, e⟩ := b.ensureSpace_cases len
  · rw [e]
  · rw [e, readable_compact]
  · rw [e, readable_resize]

theorem readable_store (b : Buffer) (bytes : Bytes) (h : bytes.length ≤ b.remaining) :
    (b.store bytes h).readable = b.readable ++ bytes := by
  obtain ⟨h1, h2, -⟩ := b.index_bounds
  have hlen : b.writeIndex_ + bytes.length - b.readIndex_ =
      (b.writeIndex_ - b.readIndex_) + bytes.length := by omega
  have hwrite : b.writeIndex_ = b.readIndex_ + (b.writeIndex_ - b.readIndex_) := by omega
  simp only [readable, peek, store, readableBytes, hlen]
  conv_lhs => rw [hwrite]
  rw [Nat.add_sub_cancel_left]
  exact window_overwrite_extend (by omega)

@[simp] theorem readable_write (b : Buffer) (bytes : Bytes) :
    (b.write bytes).readable = b.readable ++ bytes := by
  rw [write, readable_store, readable_ensureSpace]

theorem writeFrom_eq (b : Buffer) {src : Buffer} {len : ℕ} (h : len ≤ src.readable.length) :
    b.writeFrom src len = some (b.write (src.readable.take len), src.advance len) := by
  rw [writeFrom, retrieve_eq h, Option.map_some, peek_eq_take h]

theorem writeAll_eq (b src : Buffer) :
    b.writeAll src = some (b.write src.readable, src.advance src.readable.length) := by
  rw [writeAll, readableBytes_eq, writeFrom_eq b (le_refl _), List.take_length]

@[simp] theorem readable_retreat (b : Buffer) (len : ℕ) :
    (b.retreat len).readable = b.readable.take (b.readable.length - len) := by
  obtain ⟨h1, h2, h3⟩ := b.index_bounds
  rw [h3, readable, readable, peek, peek, take_window _ _ _ _ (by rw [readableBytes]; omega)]
  simp only [retreat, readableBytes]
  congr 1
  omega

theorem unwrite_eq (b : Buffer) (len : ℕ) :
    ∃ b', b.unwrite len = some b' ∧ b'.readable = b.readable.take (b.readable.length - len) := by
  have hback (n : ℕ) : ∃ b', b.updateWriteIndex (-(n : ℤ)) = some b' ∧
      b'.readable = b.readable.take (b.readable.length - n) := by
    unfold updateWriteIndex
    rcases Nat.eq_zero_or_pos n with rfl | hn
    · rw [if_neg (by simp), dif_pos (by simp), dif_pos (by simp)]
      refine ⟨_, rfl, ?_⟩
      rw [Nat.sub_zero, List.take_length]
      simp [readable, peek, commit, readableBytes]
    · rw [if_pos (by omega)]
      refine ⟨_, rfl, ?_⟩
      rw [readable_retreat, Int.natAbs_neg, Int.natAbs_natCast]
  unfold unwrite
  split
  · next h =>
    obtain ⟨b', hb, hr⟩ := hback b.readableBytes
    refine ⟨b', hb, ?_⟩
    rw [hr, readableBytes_eq] at *
    congr 1
    omega
  · exact hback len

@[simp] theorem readable_moveToFront (b : Buffer) : b.moveToFront.readable = b.readable := by
  unfold moveToFront
  split
  · exact readable_compact b
  · rfl

@[simp] theorem readable_shrink (b : Buffer) (len : ℕ) :
    (b.shrink len).readable = b.readable.take len := by
  have hfront := b.readIndex_moveToFront
  obtain ⟨-, h2, -⟩ := b.moveToFront.index_bounds
  have hwindow : b.moveToFront.readable = b.moveToFront.buf_.take b.moveToFront.writeIndex_ := by
    simp only [readable, peek, window, readableBytes, hfront, List.drop_zero, Nat.sub_zero]
  have hkeep : (b.shrink len).readable =
      (b.moveToFront.buf_.take b.moveToFront.writeIndex_).take len := by
    simp only [readable, peek, window, shrink, readableBytes, hfront, List.drop_zero, Nat.sub_zero,
      resizeTo]
    split
    · rw [List.take_append_of_le_length (by rw [List.length_take]; omega), List.take_take,
        List.take_take]
      congr 1
      omega
    · rw [List.take_append_of_le_length (by rw [List.length_take]; omega), List.take_take,
        List.take_take]
      congr 1
      omega
  rw [hkeep, ← hwindow, readable_moveToFront]

/-! ## Numbers -/

theorem typedNumber_byte (byte : UInt8) : typedNumber 1 [byte] = byte.toNat := by
  simp [typedNumber, ntoh]

@[simp] theorem readable_putByte (b : Buffer) (byte : ℕ) :
    (b.putByte byte).readable = b.readable ++ [UInt8.ofNat byte] := readable_write b _

@[simp] theorem readable_putUInt16 (b : Buffer) (word : ℕ) :
    (b.putUInt16 word).readable = b.readable ++ htons word := readable_write b _

@[simp] theorem readable_putUInt64 (b : Buffer) (bigInt : ℕ) :
    (b.putUInt64 bigInt).readable =
      b.readable ++ (htonl ((bigInt >>> 32) % 2 ^ 32) ++
        htonl ((bigInt &&& 0xfffffffff) % 2 ^ 32)) := by
  simp only [putUInt64, putUInt32, readable_write, List.append_assoc]

end Buffer
end WsEngine
