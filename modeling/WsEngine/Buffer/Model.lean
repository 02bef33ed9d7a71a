import Mathlib.Algebra.Order.Group.Int
import Mathlib.Algebra.Ring.Nat
import WsEngine.Lib.Window

/-! # The byte buffer

`ws::Buffer` (`include/ws/Buffer.h`): a vector `buf_` with the bytes from `readIndex_` to
`writeIndex_` waiting to be read. This is the abstract level: the two indices, `int` in the source, are
naturals here. `Machine.Buffer` is the buffer as the source has it, with `int` indices that wrap, and
does the same as long as no index reaches `2^31` (`Buffer.Small` and the lemmas `…_machine` there). An
operation that asserts returns `none` where its assertion fails, which ends the process. -/
set_option autoImplicit false

namespace WsEngine
open Window

abbrev Bytes := List UInt8

/-- A buffer with its class invariant, and with indices that never wrap. -/
structure Buffer where
  buf_ : Bytes
  readIndex_ : ℕ
  writeIndex_ : ℕ
  lastExpand_ : ℕ
  read_le_write : readIndex_ ≤ writeIndex_
  write_le_size : writeIndex_ ≤ buf_.length

namespace Buffer

def kInitialSize : ℕ := 1024
def kExpandThreshold : ℕ := 3
def kExpandSize : ℕ := 8192

/-- `Buffer(size_t len)`. -/
def ofSize (len : ℕ) : Buffer where
  buf_ := List.replicate len 0
  readIndex_ := 0
  writeIndex_ := 0
  lastExpand_ := 0
  read_le_write := le_refl 0
  write_le_size := Nat.zero_le _

def size (b : Buffer) : ℕ := b.buf_.length
def remaining (b : Buffer) : ℕ := b.buf_.length - b.writeIndex_
def available (b : Buffer) : ℕ := b.buf_.length - b.writeIndex_ + b.readIndex_
def readableBytes (b : Buffer) : ℕ := b.writeIndex_ - b.readIndex_
def empty (b : Buffer) : Bool := b.readableBytes = 0

def peek (b : Buffer) (len : ℕ) : Bytes := window b.readIndex_ len b.buf_

/-- The bytes waiting to be read. -/
def readable (b : Buffer) : Bytes := b.peek b.readableBytes

theorem length_readable (b : Buffer) : b.readable.length = b.readableBytes := by
  have := b.write_le_size
  rw [readable, peek, length_window, readableBytes]
  omega

/-! ## Moving the indices -/

/-- `readIndex_ += len`, not beyond `writeIndex_`. -/
def advance (b : Buffer) (len : ℕ) : Buffer :=
  { b with
    readIndex_ := min (b.readIndex_ + len) b.writeIndex_
    read_le_write := Nat.min_le_right _ _ }

def retrieve (b : Buffer) (len : ℕ) : Option Buffer :=
  if b.readIndex_ + len ≤ b.writeIndex_ then some (b.advance len) else none

/-- `read(char *dst, size_t len)`: the bytes copied to `dst`, and the buffer. -/
def read (b : Buffer) (len : ℕ) : Option (Bytes × Buffer) :=
  if len ≤ b.readableBytes then (b.retrieve len).map fun b' => (b.peek len, b') else none

/-- The assertion compares `readIndex_ - len`, which is unsigned and wraps below zero. -/
def unread (b : Buffer) (len : ℕ) : Option Buffer :=
  if len ≤ b.readIndex_ then
    some { b with
      readIndex_ := b.readIndex_ - len
      read_le_write := le_trans (Nat.sub_le _ _) b.read_le_write }
  else none

def readString (b : Buffer) : Option (Bytes × Buffer) :=
  (b.retrieve b.readableBytes).map fun b' => (b.peek b.readableBytes, b')

def clear (b : Buffer) : Buffer :=
  { b with
    readIndex_ := 0
    writeIndex_ := 0
    read_le_write := le_refl 0
    write_le_size := Nat.zero_le _ }

/-- The copy of the readable bytes to the front of `buf_` that three operations make. -/
def compact (b : Buffer) : Buffer where
  buf_ := overwrite b.buf_ 0 b.readable
  readIndex_ := 0
  writeIndex_ := b.writeIndex_ - b.readIndex_
  lastExpand_ := b.lastExpand_
  read_le_write := Nat.zero_le _
  write_le_size := by
    have := b.write_le_size
    rw [length_overwrite (by rw [length_readable, readableBytes]; omega)]
    omega

def retreat (b : Buffer) (len : ℕ) : Buffer :=
  { b with
    writeIndex_ := max b.readIndex_ (b.writeIndex_ - len)
    read_le_write := Nat.le_max_left _ _
    write_le_size := by
      have := b.read_le_write
      have := b.write_le_size
      omega }

def commit (b : Buffer) (delta : ℕ) (h : delta ≤ b.remaining) : Buffer :=
  { b with
    writeIndex_ := b.writeIndex_ + delta
    read_le_write := le_trans b.read_le_write (Nat.le_add_right _ _)
    write_le_size := by
      have := b.write_le_size
      unfold remaining at h
      omega }

theorem remaining_compact (b : Buffer) : b.compact.remaining = b.available := by
  have h1 := b.read_le_write
  have h2 := b.write_le_size
  simp only [remaining, compact, available]
  rw [length_overwrite (by rw [length_readable, readableBytes]; omega)]
  omega

def updateWriteIndex (b : Buffer) (delta : ℤ) : Option Buffer :=
  if delta < 0 then some (b.retreat delta.natAbs)
  else if ha : delta.toNat ≤ b.available then
    if hr : delta.toNat ≤ b.remaining then some (b.commit delta.toNat hr)
    else some (b.compact.commit delta.toNat (by rw [remaining_compact]; exact ha))
  else none

def unwrite (b : Buffer) (len : ℕ) : Option Buffer :=
  if b.readableBytes < len then b.updateWriteIndex (-b.readableBytes) else b.updateWriteIndex (-len)

/-! ## Growing and writing -/

def resize (b : Buffer) (more lastExpand : ℕ) : Buffer :=
  { b with
    buf_ := b.buf_ ++ List.replicate more 0
    lastExpand_ := lastExpand
    write_le_size := by
      have := b.write_le_size
      rw [List.length_append]
      omega }

/-- What `ensureSpace` returns, and the buffer it leaves. -/
def ensureSpace (b : Buffer) (len : ℕ) : ℕ × Buffer :=
  if len ≤ b.remaining then (b.remaining, b)
  else if len ≤ b.available then (len, b.compact)
  else
    let left := len - b.remaining
    let lastExpand := if 0 < left then b.lastExpand_ + 1 else b.lastExpand_
    if kExpandThreshold < lastExpand then
      let b' := b.resize (left + kExpandSize) 0
      (b'.remaining, b')
    else (len, b.resize left lastExpand)

theorem remaining_resize (b : Buffer) (more n : ℕ) :
    (b.resize more n).remaining = b.remaining + more := by
  have := b.write_le_size
  simp only [remaining, resize, List.length_append, List.length_replicate]
  omega

/-- The three growth regimes: the bytes fit, they fit after compaction, or `buf_` grows. -/
theorem ensureSpace_cases (b : Buffer) (len : ℕ) :
    (len ≤ b.remaining ∧ (b.ensureSpace len).1 = b.remaining ∧ (b.ensureSpace len).2 = b) ∨
    (b.remaining < len ∧ len ≤ b.available ∧ (b.ensureSpace len).1 = len ∧
      (b.ensureSpace len).2 = b.compact) ∨
    (b.available < len ∧ ∃ more n, len ≤ (b.ensureSpace len).1 ∧
      (b.ensureSpace len).1 ≤ b.remaining + more ∧ (b.ensureSpace len).2 = b.resize more n) := by
  unfold ensureSpace
  by_cases h1 : len ≤ b.remaining
  · rw [if_pos h1]
    exact .inl ⟨h1, rfl, rfl⟩
  · rw [if_neg h1]
    by_cases h2 : len ≤ b.available
    · rw [if_pos h2]
      exact .inr (.inl ⟨by omega, h2, rfl, rfl⟩)
    · simp only [if_neg h2, if_pos (by omega : 0 < len - b.remaining)]
      refine .inr (.inr ⟨by omega, ?_⟩)
      by_cases h3 : kExpandThreshold < b.lastExpand_ + 1
      · rw [if_pos h3]
        refine ⟨len - b.remaining + kExpandSize, 0, ?_, ?_, rfl⟩ <;> simp only [remaining_resize] <;>
          omega
      · rw [if_neg h3]
        exact ⟨len - b.remaining, b.lastExpand_ + 1, le_refl _, by simp only; omega, rfl⟩

/-- What `ensureSpace` returns. -/
theorem ensureSpace_bounds (b : Buffer) (len : ℕ) :
    len ≤ (b.ensureSpace len).1 ∧ (b.ensureSpace len).1 ≤ (b.ensureSpace len).2.remaining := by
  obtain ⟨h, es, e⟩ | ⟨-, h, es, e⟩ | ⟨-, more, n, h, hs, e⟩ := b.ensureSpace_cases len
  · rw [es, e]
    exact ⟨h, le_refl _⟩
  · rw [es, e, remaining_compact]
    exact ⟨le_refl _, h⟩
  · rw [e, remaining_resize]
    exact ⟨h, hs⟩

theorem le_remaining_ensureSpace (b : Buffer) (len : ℕ) : len ≤ (b.ensureSpace len).2.remaining := by
  obtain ⟨h1, h2⟩ := b.ensureSpace_bounds len
  exact le_trans h1 h2

/-- `std::copy` of the bytes to `writeStart()`, then `writeIndex_ += len`. -/
def store (b : Buffer) (bytes : Bytes) (h : bytes.length ≤ b.remaining) : Buffer :=
  { b with
    buf_ := overwrite b.buf_ b.writeIndex_ bytes
    writeIndex_ := b.writeIndex_ + bytes.length
    read_le_write := le_trans b.read_le_write (Nat.le_add_right _ _)
    write_le_size := by
      have := b.write_le_size
      unfold remaining at h
      rw [length_overwrite (by omega)]
      omega }

/-- `write(const char *buf, size_t len)`. -/
def write (b : Buffer) (bytes : Bytes) : Buffer :=
  (b.ensureSpace bytes.length).2.store bytes (le_remaining_ensureSpace b bytes.length)

/-- `write(Buffer& src, size_t len)`: this buffer, and `src`. -/
def writeFrom (b src : Buffer) (len : ℕ) : Option (Buffer × Buffer) :=
  (src.retrieve len).map fun src' => (b.write (src.peek len), src')

/-- `write(Buffer& src)`. -/
def writeAll (b src : Buffer) : Option (Buffer × Buffer) := b.writeFrom src src.readableBytes

/-- What somebody else put at `writeStart()`, where it has room. -/
def fill (b : Buffer) (bytes : Bytes) : Option Buffer :=
  if h : bytes.length ≤ b.remaining then
    some { b with
      buf_ := overwrite b.buf_ b.writeIndex_ bytes
      write_le_size := by
        have := b.write_le_size
        unfold remaining at h
        rw [length_overwrite (by omega)]
        exact b.write_le_size }
  else none

/-! ## Shrinking -/

/-- `resize` of a vector. -/
def resizeTo (mem : Bytes) (len : ℕ) : Bytes := mem.take len ++ List.replicate (len - mem.length) 0

theorem length_resizeTo (mem : Bytes) (len : ℕ) : (resizeTo mem len).length = len := by
  simp only [resizeTo, List.length_append, List.length_take, List.length_replicate]
  omega

def moveToFront (b : Buffer) : Buffer := if 0 < b.readIndex_ then b.compact else b

theorem readIndex_moveToFront (b : Buffer) : b.moveToFront.readIndex_ = 0 := by
  unfold moveToFront
  split
  · rfl
  · omega

def shrink (b : Buffer) (len : ℕ) : Buffer where
  buf_ := resizeTo b.moveToFront.buf_ len
  readIndex_ := b.moveToFront.readIndex_
  writeIndex_ :=
    if len < b.moveToFront.readableBytes then len else b.moveToFront.writeIndex_
  lastExpand_ := b.moveToFront.lastExpand_
  read_le_write := by
    rw [readIndex_moveToFront]
    exact Nat.zero_le _
  write_le_size := by
    have h := b.readIndex_moveToFront
    rw [length_resizeTo, readableBytes, h]
    split <;> omega

def shrinkToFit (b : Buffer) : Buffer := b.shrink b.readableBytes

/-! ## Numbers in network order -/

def htons (word : ℕ) : Bytes := [UInt8.ofNat (word >>> 8), UInt8.ofNat word]

def htonl (integer : ℕ) : Bytes :=
  [UInt8.ofNat (integer >>> 24), UInt8.ofNat (integer >>> 16), UInt8.ofNat (integer >>> 8),
    UInt8.ofNat integer]

/-- `ntohs` and `ntohl` of the bytes at a pointer. -/
def ntoh (bytes : Bytes) : ℕ := bytes.foldl (fun n byte => n * 256 + byte.toNat) 0

def putByte (b : Buffer) (byte : ℕ) : Buffer := b.write [UInt8.ofNat byte]
def putUInt16 (b : Buffer) (word : ℕ) : Buffer := b.write (htons word)
def putUInt32 (b : Buffer) (integer : ℕ) : Buffer := b.write (htonl integer)

/-- The two halves are cast to `uint32_t`, the low one from a 36 bit mask. -/
def putUInt64 (b : Buffer) (bigInt : ℕ) : Buffer :=
  let high := (bigInt >>> 32) % 2 ^ 32
  let low := (bigInt &&& 0xfffffffff) % 2 ^ 32
  (b.putUInt32 high).putUInt32 low

/-- The value that `readTypedNumber` makes of `size` bytes: one byte, `ntohs`, `ntohl`, or the
halves of a `uint64_t`. -/
def typedNumber (size : ℕ) (bytes : Bytes) : ℕ :=
  if size = 8 then (ntoh (bytes.take 4) <<< 32) ||| ntoh (bytes.drop 4) else ntoh bytes

def readTypedNumber (b : Buffer) (size : ℕ) : Option (ℕ × Buffer) :=
  if size ≤ b.readableBytes then
    (b.retrieve size).map fun b' => (typedNumber size (b.peek size), b')
  else none

end Buffer
end WsEngine
