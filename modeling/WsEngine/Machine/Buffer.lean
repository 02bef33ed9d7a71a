import WsEngine.Buffer.Operations
import WsEngine.Lib.Words

/-! # The byte buffer in machine words

`ws::Buffer` once more, statement by statement in the types of the source: the indices and
`lastExpand_` are `int`s, `len` a `size_t` or an `ssize_t`, and what mixes them is converted as C++
does it. Nothing keeps the indices in order here. An access outside of `buf_` is undefined, and ends
like an assertion that fails; so does a `resize` beyond what a vector can hold.

A buffer over naturals is held by the machine as long as its indices are below `2^31` (`Small`).
Then every operation does to the machine's buffer what it does to the natural one. -/
set_option autoImplicit false

namespace WsEngine
open Window Words

namespace Machine

structure Buffer where
  buf_ : Bytes
  readIndex_ : ℤ
  writeIndex_ : ℤ
  lastExpand_ : ℤ

namespace Buffer

def kExpandThreshold : ℤ := 3
def kExpandSize : ℕ := 8192

def remaining (b : Buffer) : ℕ := size_t (b.buf_.length - b.writeIndex_)
def available (b : Buffer) : ℕ := size_t (b.buf_.length - b.writeIndex_ + b.readIndex_)
def readableBytes (b : Buffer) : ℕ := size_t (int (b.writeIndex_ - b.readIndex_))
def empty (b : Buffer) : Bool := b.readableBytes = 0

/-! ## Memory -/

/-- The bytes at `begin() + offset`. -/
def load (b : Buffer) (offset : ℤ) (len : ℕ) : Option Bytes :=
  if 0 ≤ offset ∧ offset + len ≤ b.buf_.length then some (window offset.toNat len b.buf_) else none

/-- `std::copy` to `begin() + offset`. -/
def store (b : Buffer) (offset : ℤ) (bytes : Bytes) : Option Buffer :=
  if 0 ≤ offset ∧ offset + bytes.length ≤ b.buf_.length then
    some { b with buf_ := overwrite b.buf_ offset.toNat bytes }
  else none

/-- `len` bytes from `peek()` on. -/
def peek (b : Buffer) (len : ℕ) : Option Bytes := b.load b.readIndex_ len

/-- What there is to read. -/
def readable (b : Buffer) : Bytes := (b.peek b.readableBytes).getD []

/-- `buf_.resize`, which throws beyond the largest size of a vector. -/
def resize (b : Buffer) (len : ℕ) : Option Buffer :=
  if len < 2 ^ 63 then some { b with buf_ := WsEngine.Buffer.resizeTo b.buf_ len } else none

/-- The copy to the front that three operations make. -/
def compact (b : Buffer) : Option Buffer :=
  if b.readIndex_ ≤ b.writeIndex_ then do
    let bytes ← b.load b.readIndex_ (b.writeIndex_ - b.readIndex_).toNat
    let b ← b.store 0 bytes
    return { b with
      readIndex_ := 0
      writeIndex_ := int (b.writeIndex_ - b.readIndex_) }
  else none

/-! ## Moving the indices -/

/-- The argument is an `ssize_t`. -/
def retrieve (b : Buffer) (len : ℤ) : Option Buffer :=
  if ssize_t (b.readIndex_ + len) ≤ b.writeIndex_ then
    some { b with readIndex_ := int (b.readIndex_ + len) }
  else none

/-- `read(char *dst, size_t len)`. -/
def read (b : Buffer) (len : ℕ) : Option (Bytes × Buffer) :=
  if len ≤ b.readableBytes then do
    let bytes ← b.peek len
    let b ← b.retrieve (ssize_t len)
    return (bytes, b)
  else none

/-- `read(size_t len)`, whose assertion compares unsigned numbers. -/
def skip (b : Buffer) (len : ℕ) : Option Buffer :=
  if size_t (b.readIndex_ + len) ≤ size_t b.writeIndex_ then
    some { b with readIndex_ := int (b.readIndex_ + len) }
  else none

/-- Both comparisons of the assertion are unsigned, so the first one always holds. -/
def unread (b : Buffer) (len : ℕ) : Option Buffer :=
  if size_t (b.readIndex_ - len) ≤ size_t b.writeIndex_ then
    some { b with readIndex_ := int (b.readIndex_ - len) }
  else none

def readString (b : Buffer) : Option (Bytes × Buffer) := do
  let bytes ← b.peek b.readableBytes
  let b ← b.retrieve (ssize_t b.readableBytes)
  return (bytes, b)

def clear (b : Buffer) : Buffer :=
  { b with
    readIndex_ := 0
    writeIndex_ := 0 }

/-- The argument is an `ssize_t`, which the assertion compares as a `size_t`. -/
def updateWriteIndex (b : Buffer) (delta : ℤ) : Option Buffer :=
  if delta < 0 then
    let writeIndex := int (b.writeIndex_ - size_t (-delta))
    some { b with writeIndex_ := if writeIndex < b.readIndex_ then b.readIndex_ else writeIndex }
  else if size_t delta ≤ b.available ∧ b.readIndex_ ≤ ssize_t (b.writeIndex_ + delta) then
    if size_t delta ≤ b.remaining then some { b with writeIndex_ := int (b.writeIndex_ + delta) }
    else do
      let b ← b.compact
      return { b with writeIndex_ := int (b.writeIndex_ + delta) }
  else none

def unwrite (b : Buffer) (len : ℕ) : Option Buffer :=
  if b.readableBytes < len then b.updateWriteIndex (ssize_t (-b.readableBytes))
  else b.updateWriteIndex (ssize_t (-len))

/-! ## Growing and writing -/

def ensureSpace (b : Buffer) (len : ℕ) : Option (ℕ × Buffer) :=
  if len ≤ b.remaining then some (b.remaining, b)
  else if len ≤ b.available then b.compact.map fun b => (len, b)
  else
    let left := ssize_t (len - b.remaining)
    let b := { b with
      lastExpand_ := if 0 < left then int (b.lastExpand_ + 1) else b.lastExpand_ }
    if kExpandThreshold < b.lastExpand_ then do
      let b ← b.resize (size_t (b.buf_.length + left + kExpandSize))
      return (b.remaining, { b with lastExpand_ := 0 })
    else do
      let b ← b.resize (size_t (b.buf_.length + left))
      return (len, b)

/-- `write(const char *buf, size_t len)`. -/
def write (b : Buffer) (bytes : Bytes) : Option Buffer := do
  let (_, b) ← b.ensureSpace bytes.length
  let b ← b.store b.writeIndex_ bytes
  return { b with writeIndex_ := int (b.writeIndex_ + bytes.length) }

/-- `write(Buffer& src, size_t len)`: this buffer, and `src`. -/
def writeFrom (b src : Buffer) (len : ℕ) : Option (Buffer × Buffer) := do
  let bytes ← src.peek len
  let b ← b.write bytes
  let src ← src.retrieve (ssize_t len)
  return (b, src)

/-- `write(Buffer& src)`. -/
def writeAll (b src : Buffer) : Option (Buffer × Buffer) := b.writeFrom src src.readableBytes

/-- What somebody else put at `writeStart()`. -/
def fill (b : Buffer) (bytes : Bytes) : Option Buffer := b.store b.writeIndex_ bytes

/-! ## Shrinking -/

def moveToFront (b : Buffer) : Option Buffer := if 0 < b.readIndex_ then b.compact else some b

def shrink (b : Buffer) (len : ℕ) : Option Buffer := do
  let b ← b.moveToFront
  let b := if len < b.readableBytes then { b with writeIndex_ := int len } else b
  b.resize len

def shrinkToFit (b : Buffer) : Option Buffer := b.shrink b.readableBytes

/-! ## Numbers in network order -/

def putByte (b : Buffer) (byte : ℕ) : Option Buffer := b.write [UInt8.ofNat byte]
def putUInt16 (b : Buffer) (word : ℕ) : Option Buffer := b.write (WsEngine.Buffer.htons word)
def putUInt32 (b : Buffer) (integer : ℕ) : Option Buffer := b.write (WsEngine.Buffer.htonl integer)

def putUInt64 (b : Buffer) (bigInt : ℕ) : Option Buffer := do
  let high := (bigInt >>> 32) % 2 ^ 32
  let low := (bigInt &&& 0xfffffffff) % 2 ^ 32
  let b ← b.putUInt32 high
  b.putUInt32 low

def readTypedNumber (b : Buffer) (size : ℕ) : Option (ℕ × Buffer) :=
  if size ≤ b.readableBytes then do
    let bytes ← b.peek size
    let b ← b.retrieve (ssize_t size)
    return (WsEngine.Buffer.typedNumber size bytes, b)
  else none

end Buffer
end Machine

namespace Buffer

/-- The buffer as the machine holds it. -/
def machine (b : Buffer) : Machine.Buffer := ⟨b.buf_, b.readIndex_, b.writeIndex_, b.lastExpand_⟩

@[simp] theorem buf_machine (b : Buffer) : b.machine.buf_ = b.buf_ := rfl
@[simp] theorem readIndex_machine (b : Buffer) : b.machine.readIndex_ = b.readIndex_ := rfl
@[simp] theorem writeIndex_machine (b : Buffer) : b.machine.writeIndex_ = b.writeIndex_ := rfl
@[simp] theorem lastExpand_machine (b : Buffer) : b.machine.lastExpand_ = b.lastExpand_ := rfl

/-- The machine has room for the indices and the counter. -/
structure Small (b : Buffer) : Prop where
  index : b.writeIndex_ < 2 ^ 31
  size : b.buf_.length < 2 ^ 32
  lastExpand : b.lastExpand_ ≤ kExpandThreshold

/-! ## Sizes and memory -/

section Reading

variable {b : Buffer} (h : b.Small)
include h

theorem Small.bounds : b.readIndex_ ≤ b.writeIndex_ ∧ b.writeIndex_ ≤ b.buf_.length ∧
    b.writeIndex_ < 2 ^ 31 ∧ b.buf_.length < 2 ^ 32 := by
  obtain ⟨hindex, hsize, -⟩ := h
  exact ⟨b.read_le_write, b.write_le_size, hindex, hsize⟩

theorem remaining_machine : b.machine.remaining = b.remaining := by
  have := h.bounds
  simp only [Machine.Buffer.remaining, machine, remaining, size_t]
  omega

theorem available_machine : b.machine.available = b.available := by
  have := h.bounds
  simp only [Machine.Buffer.available, machine, available, size_t]
  omega

theorem readableBytes_machine : b.machine.readableBytes = b.readableBytes := by
  have := h.bounds
  simp only [Machine.Buffer.readableBytes, machine, readableBytes, size_t, Words.int]
  omega

theorem empty_machine : b.machine.empty = b.empty := by
  simp only [Machine.Buffer.empty, empty, readableBytes_machine h]

theorem peek_machine {len : ℕ} (hlen : len ≤ b.readableBytes) :
    b.machine.peek len = some (b.peek len) := by
  have := h.bounds
  unfold readableBytes at hlen
  refine if_pos ?_
  simp only [readIndex_machine, buf_machine]
  omega

theorem readable_machine : b.machine.readable = b.readable := by
  unfold Machine.Buffer.readable
  rw [readableBytes_machine h, peek_machine h (le_refl _)]
  rfl

omit h in
theorem load_machine (b : Buffer) (offset len : ℕ)
    (hfits : b.readIndex_ + offset + len ≤ b.buf_.length) :
    b.machine.load (b.machine.readIndex_ + offset) len =
      some (window (b.readIndex_ + offset) len b.buf_) := by
  rw [readIndex_machine, ← Int.natCast_add]
  refine if_pos ⟨Int.natCast_nonneg _, ?_⟩
  rw [buf_machine]
  omega

/-! ## Moving the indices -/

theorem retrieve_machine {len : ℕ} (hlen : len < 2 ^ 62) :
    b.machine.retrieve (ssize_t len) = (b.retrieve len).map machine := by
  have := h.bounds
  have hsum : ssize_t (b.machine.readIndex_ + ssize_t len) = b.readIndex_ + len := by
    simp only [readIndex_machine, ssize_t]
    omega
  unfold Machine.Buffer.retrieve retrieve
  rw [hsum]
  by_cases hle : b.readIndex_ + len ≤ b.writeIndex_
  · have hint : Words.int (b.machine.readIndex_ + ssize_t len) =
        ((min (b.readIndex_ + len) b.writeIndex_ : ℕ) : ℤ) := by
      simp only [readIndex_machine, Words.int, ssize_t]
      omega
    rw [if_pos hle, if_pos (by simp only [writeIndex_machine]; omega), hint]
    rfl
  · rw [if_neg hle, if_neg (by simp only [writeIndex_machine]; omega)]
    rfl

theorem skip_machine {len : ℕ} (hlen : len < 2 ^ 62) :
    b.machine.skip len = (b.skip len).map machine := by
  have := h.bounds
  have hsum : size_t (b.machine.readIndex_ + len) = b.readIndex_ + len := by
    simp only [readIndex_machine, size_t]
    omega
  have hwrite : size_t b.machine.writeIndex_ = b.writeIndex_ := by
    simp only [writeIndex_machine, size_t]
    omega
  unfold Machine.Buffer.skip skip retrieve
  rw [hsum, hwrite]
  by_cases hle : b.readIndex_ + len ≤ b.writeIndex_
  · have hint : Words.int (b.machine.readIndex_ + len) =
        ((min (b.readIndex_ + len) b.writeIndex_ : ℕ) : ℤ) := by
      simp only [readIndex_machine, Words.int]
      omega
    rw [if_pos hle, if_pos hle, hint]
    rfl
  · rw [if_neg hle, if_neg hle]
    rfl

theorem read_machine {len : ℕ} :
    b.machine.read len = (b.read len).map fun r => (r.1, r.2.machine) := by
  have := h.bounds
  unfold Machine.Buffer.read read
  rw [readableBytes_machine h]
  by_cases hle : len ≤ b.readableBytes
  · have hlen : len < 2 ^ 62 := by
      unfold readableBytes at hle
      omega
    rw [if_pos hle, if_pos hle, peek_machine h hle]
    simp only [Option.bind_eq_bind, Option.bind_some, retrieve_machine h hlen]
    cases b.retrieve len with
    | none => rfl
    | some b' => rfl
  · rw [if_neg hle, if_neg hle]
    rfl

theorem unread_machine {len : ℕ} (hlen : len < 2 ^ 62) :
    b.machine.unread len = (b.unread len).map machine := by
  have := h.bounds
  unfold Machine.Buffer.unread unread
  by_cases hle : len ≤ b.readIndex_
  · have hint : Words.int (b.machine.readIndex_ - len) = ((b.readIndex_ - len : ℕ) : ℤ) := by
      simp only [readIndex_machine, Words.int]
      omega
    have hin : size_t (b.machine.readIndex_ - len) ≤ size_t b.machine.writeIndex_ := by
      simp only [readIndex_machine, writeIndex_machine, size_t]
      omega
    rw [if_pos hle, if_pos hin, hint]
    rfl
  · have hout : ¬ size_t (b.machine.readIndex_ - len) ≤ size_t b.machine.writeIndex_ := by
      simp only [readIndex_machine, writeIndex_machine, size_t]
      omega
    rw [if_neg hle, if_neg hout]
    rfl

theorem readString_machine :
    b.machine.readString = b.readString.map fun r => (r.1, r.2.machine) := by
  have := h.bounds
  have hlen : b.readableBytes < 2 ^ 62 := by
    unfold readableBytes
    omega
  unfold Machine.Buffer.readString readString
  rw [readableBytes_machine h, peek_machine h (le_refl _)]
  simp only [Option.bind_eq_bind, Option.bind_some, retrieve_machine h hlen]
  cases b.retrieve b.readableBytes with
  | none => rfl
  | some b' => rfl

theorem readTypedNumber_machine (size : ℕ) :
    b.machine.readTypedNumber size = (b.readTypedNumber size).map fun r => (r.1, r.2.machine) := by
  have := h.bounds
  unfold Machine.Buffer.readTypedNumber readTypedNumber
  rw [readableBytes_machine h]
  by_cases hle : size ≤ b.readableBytes
  · have hlen : size < 2 ^ 62 := by
      unfold readableBytes at hle
      omega
    rw [if_pos hle, if_pos hle, peek_machine h hle]
    simp only [Option.bind_eq_bind, Option.bind_some, retrieve_machine h hlen]
    cases b.retrieve size with
    | none => rfl
    | some b' => rfl
  · rw [if_neg hle, if_neg hle]
    rfl

omit h in
theorem clear_machine : b.machine.clear = b.clear.machine := rfl

theorem compact_machine : b.machine.compact = some b.compact.machine := by
  have := h.bounds
  have hreadable : (b.machine.writeIndex_ - b.machine.readIndex_).toNat = b.readableBytes := by
    simp only [readIndex_machine, writeIndex_machine, readableBytes]
    omega
  have hload : b.machine.load b.machine.readIndex_ b.readableBytes = some b.readable :=
    peek_machine h (le_refl _)
  have hstore : b.machine.store 0 b.readable =
      some { b.machine with buf_ := overwrite b.buf_ 0 b.readable } := by
    have hlen := b.length_readable
    unfold readableBytes at hlen
    refine if_pos ⟨le_refl 0, ?_⟩
    simp only [buf_machine]
    omega
  have hint : Words.int (b.machine.writeIndex_ - b.machine.readIndex_) =
      ((b.writeIndex_ - b.readIndex_ : ℕ) : ℤ) := by
    simp only [readIndex_machine, writeIndex_machine, Words.int]
    omega
  have hle : b.machine.readIndex_ ≤ b.machine.writeIndex_ := by
    simp only [readIndex_machine, writeIndex_machine]
    omega
  unfold Machine.Buffer.compact
  rw [if_pos hle, hreadable, hload]
  simp only [Option.bind_eq_bind, Option.bind_some, hstore, hint]
  rfl

/-- The index that is left has to be one that the machine can hold. -/
theorem updateWriteIndex_machine {delta : ℤ} (hdelta : -2 ^ 31 ≤ delta ∧ delta < 2 ^ 62)
    (hroom : ∀ b', b.updateWriteIndex delta = some b' → b'.writeIndex_ < 2 ^ 31) :
    b.machine.updateWriteIndex delta = (b.updateWriteIndex delta).map machine := by
  have := h.bounds
  unfold Machine.Buffer.updateWriteIndex
  unfold updateWriteIndex at hroom ⊢
  by_cases hneg : delta < 0
  · have hint : Words.int (b.machine.writeIndex_ - size_t (-delta)) = b.writeIndex_ + delta := by
      simp only [writeIndex_machine, Words.int, size_t]
      omega
    have hindex : (if (b.writeIndex_ : ℤ) + delta < b.machine.readIndex_ then b.machine.readIndex_
        else b.writeIndex_ + delta) = ((max b.readIndex_ (b.writeIndex_ - delta.natAbs) : ℕ) : ℤ) := by
      by_cases hlt : (b.writeIndex_ : ℤ) + delta < b.machine.readIndex_
      · rw [if_pos hlt]
        rw [readIndex_machine] at hlt ⊢
        omega
      · rw [if_neg hlt]
        rw [readIndex_machine] at hlt
        omega
    rw [if_pos hneg, if_pos hneg, hint]
    simp only [hindex]
    rfl
  · have hsize : size_t delta = delta.toNat := by
      unfold size_t
      omega
    have hread : b.machine.readIndex_ ≤ ssize_t (b.machine.writeIndex_ + delta) := by
      simp only [readIndex_machine, writeIndex_machine, ssize_t]
      omega
    rw [if_neg hneg] at hroom
    rw [if_neg hneg, if_neg hneg, hsize, available_machine h, remaining_machine h]
    by_cases ha : delta.toNat ≤ b.available
    · rw [dif_pos ha] at hroom
      rw [if_pos ⟨ha, hread⟩, dif_pos ha]
      by_cases hr : delta.toNat ≤ b.remaining
      · rw [dif_pos hr] at hroom
        have hafter : b.writeIndex_ + delta.toNat < 2 ^ 31 := hroom _ rfl
        have hindex : Words.int (b.machine.writeIndex_ + delta) =
            ((b.writeIndex_ + delta.toNat : ℕ) : ℤ) := by
          simp only [writeIndex_machine, Words.int]
          omega
        rw [if_pos hr, dif_pos hr, hindex]
        rfl
      · rw [dif_neg hr] at hroom
        have hafter : b.compact.writeIndex_ + delta.toNat < 2 ^ 31 := hroom _ rfl
        have hindex : Words.int (b.compact.machine.writeIndex_ + delta) =
            ((b.compact.writeIndex_ + delta.toNat : ℕ) : ℤ) := by
          simp only [writeIndex_machine, Words.int]
          omega
        rw [if_neg hr, dif_neg hr, compact_machine h]
        simp only [Option.bind_eq_bind, Option.bind_some, hindex]
        rfl
    · rw [if_neg (fun hc => ha hc.1), dif_neg ha]
      rfl

theorem unwrite_machine (len : ℕ) : b.machine.unwrite len = (b.unwrite len).map machine := by
  have hbounds := h.bounds
  have hback {n : ℕ} (hn : n ≤ b.readableBytes) :
      b.machine.updateWriteIndex (ssize_t (-n)) = (b.updateWriteIndex (-n)).map machine := by
    unfold readableBytes at hn
    rw [ssize_t_eq (by omega)]
    refine updateWriteIndex_machine h (by omega) fun b' hb => ?_
    exact Nat.lt_of_le_of_lt (updateWriteIndex_neg hb).1 h.index
  unfold Machine.Buffer.unwrite unwrite
  rw [readableBytes_machine h]
  by_cases hlt : b.readableBytes < len
  · rw [if_pos hlt, if_pos hlt]
    exact hback (le_refl _)
  · rw [if_neg hlt, if_neg hlt]
    exact hback (Nat.le_of_not_lt hlt)

/-! ## Growing and writing -/

omit h in
theorem resizeTo_grow (mem : Bytes) (more : ℕ) :
    resizeTo mem (mem.length + more) = mem ++ List.replicate more 0 := by
  rw [resizeTo, List.take_of_length_le (Nat.le_add_right _ _), Nat.add_sub_cancel_left]

theorem small_compact : b.compact.Small := by
  obtain ⟨hindex, hsize, hexpand⟩ := h
  refine ⟨Nat.lt_of_le_of_lt (Nat.sub_le _ _) hindex, ?_, hexpand⟩
  have hlen := b.length_readable
  have := b.read_le_write
  have := b.write_le_size
  unfold readableBytes at hlen
  change (overwrite b.buf_ 0 b.readable).length < _
  rw [length_overwrite (by omega)]
  exact hsize

/-- The growth is counted, and makes room for `len` bytes behind `writeIndex_`. -/
theorem small_resize {more lastExpand : ℕ} (hmore : b.buf_.length + more < 2 ^ 32)
    (hexpand : lastExpand ≤ WsEngine.Buffer.kExpandThreshold) : (b.resize more lastExpand).Small := by
  refine ⟨h.index, ?_, hexpand⟩
  change (b.buf_ ++ List.replicate more 0).length < _
  rw [List.length_append, List.length_replicate]
  exact hmore

omit h in
theorem threshold_iff (n : ℕ) :
    Machine.Buffer.kExpandThreshold < (n : ℤ) ↔ kExpandThreshold < n := by
  unfold Machine.Buffer.kExpandThreshold kExpandThreshold
  omega

omit h in
theorem size_t_add {m n : ℕ} (hadd : m + n < 2 ^ 63) : size_t (m + n) = m + n := by
  unfold size_t
  omega

/-- The memory may grow beyond what the indices reach. -/
theorem ensureSpace_machine {len : ℕ} (hroom : b.start len + len + kExpandSize < 2 ^ 32) :
    b.machine.ensureSpace len = some ((b.ensureSpace len).1, (b.ensureSpace len).2.machine) ∧
      (b.ensureSpace len).2.Small := by
  have hbounds := h.bounds
  unfold start at hroom
  unfold Machine.Buffer.ensureSpace ensureSpace
  rw [remaining_machine h, available_machine h]
  by_cases h1 : len ≤ b.remaining
  · rw [if_pos h1, if_pos h1]
    exact ⟨rfl, h⟩
  · by_cases h2 : len ≤ b.available
    · rw [if_neg h1, if_pos h2, if_neg h1, if_pos h2, compact_machine h]
      exact ⟨rfl, small_compact h⟩
    · rw [if_neg (fun hc => h2 hc.2)] at hroom
      have hremaining : b.remaining = b.buf_.length - b.writeIndex_ := rfl
      have hgrown : b.buf_.length + (len - b.remaining + kExpandSize) < 2 ^ 32 := by omega
      have hleft : ssize_t (len - b.remaining) = ((len - b.remaining : ℕ) : ℤ) := by
        unfold ssize_t
        omega
      have hcount : Words.int (b.machine.lastExpand_ + 1) = ((b.lastExpand_ + 1 : ℕ) : ℤ) := by
        have := h.lastExpand
        unfold kExpandThreshold at this
        simp only [lastExpand_machine, Words.int]
        omega
      have hpos : 0 < len - b.remaining := by omega
      rw [if_neg h1, if_neg h2, if_neg h1, if_neg h2]
      dsimp only
      rw [hleft, if_pos (Int.natCast_pos.mpr hpos), if_pos hpos, hcount]
      by_cases h3 : kExpandThreshold < b.lastExpand_ + 1
      · have hsum : size_t (b.buf_.length + ((len - b.remaining : ℕ) : ℤ) + Machine.Buffer.kExpandSize) =
            b.buf_.length + (len - b.remaining + kExpandSize) := by
          rw [← size_t_add (Nat.lt_trans hgrown (by decide : 2 ^ 32 < 2 ^ 63)), add_assoc]
          rfl
        have hlt : b.buf_.length + (len - b.remaining + kExpandSize) < 2 ^ 63 :=
          Nat.lt_trans hgrown (by decide)
        have hsmall : (b.resize (len - b.remaining + kExpandSize) 0).Small :=
          small_resize h hgrown (Nat.zero_le _)
        rw [if_pos ((threshold_iff _).mpr h3), if_pos h3]
        simp only [Machine.Buffer.resize, buf_machine, hsum, if_pos hlt, resizeTo_grow,
          Option.bind_eq_bind, Option.bind_some]
        exact ⟨congrArg some (Prod.ext (remaining_machine hsmall) rfl), hsmall⟩
      · have hmore : b.buf_.length + (len - b.remaining) < 2 ^ 32 :=
          Nat.lt_of_le_of_lt (Nat.add_le_add_left (Nat.le_add_right _ _) _) hgrown
        have hlt : b.buf_.length + (len - b.remaining) < 2 ^ 63 := Nat.lt_trans hmore (by decide)
        rw [if_neg (mt (threshold_iff _).mp h3), if_neg h3]
        simp only [Machine.Buffer.resize, buf_machine, size_t_add hlt, if_pos hlt, resizeTo_grow,
          Option.bind_eq_bind, Option.bind_some]
        exact ⟨rfl, small_resize h hmore (Nat.le_of_not_lt h3)⟩

/-- The bytes are stored, and the index becomes what an `int` makes of it. -/
theorem write_stored {bytes : Bytes}
    (hroom : b.start bytes.length + bytes.length + kExpandSize < 2 ^ 32) :
    b.machine.write bytes = some { (b.write bytes).machine with
      writeIndex_ := Words.int (b.write bytes).writeIndex_ } := by
  obtain ⟨hspace, hsmall⟩ := ensureSpace_machine h hroom
  have hfits := le_remaining_ensureSpace b bytes.length
  have hbounds := hsmall.bounds
  have hindex : ((b.write bytes).writeIndex_ : ℤ) =
      (b.ensureSpace bytes.length).2.machine.writeIndex_ + bytes.length := Int.natCast_add _ _
  have hbuf : (b.write bytes).buf_ = overwrite (b.ensureSpace bytes.length).2.buf_
      (b.ensureSpace bytes.length).2.writeIndex_ bytes := rfl
  have hrest : (b.write bytes).readIndex_ = (b.ensureSpace bytes.length).2.readIndex_ ∧
      (b.write bytes).lastExpand_ = (b.ensureSpace bytes.length).2.lastExpand_ := ⟨rfl, rfl⟩
  unfold remaining at hfits
  generalize b.write bytes = w at hindex hbuf hrest ⊢
  generalize (b.ensureSpace bytes.length).2 = b' at *
  have hstore : b'.machine.store b'.machine.writeIndex_ bytes =
      some { b'.machine with buf_ := overwrite b'.buf_ b'.writeIndex_ bytes } := by
    refine if_pos ⟨Int.natCast_nonneg _, ?_⟩
    simp only [writeIndex_machine, buf_machine]
    omega
  unfold Machine.Buffer.write
  rw [hspace]
  simp only [Option.bind_eq_bind, Option.bind_some, hstore, hindex]
  unfold machine
  rw [hbuf, hrest.1, hrest.2]
  rfl

/-- **Append.** The bytes go where the indices reach. -/
theorem write_machine {bytes : Bytes} (hroom : b.start bytes.length + bytes.length < 2 ^ 31) :
    b.machine.write bytes = some (b.write bytes).machine ∧ (b.write bytes).Small := by
  have hspace : b.start bytes.length + bytes.length + kExpandSize < 2 ^ 32 := by
    unfold kExpandSize
    omega
  obtain ⟨-, hsmall⟩ := ensureSpace_machine h hspace
  have hindex : (b.write bytes).writeIndex_ = b.start bytes.length + bytes.length := by
    rw [← writeIndex_ensureSpace_eq]
    rfl
  have hfits := le_remaining_ensureSpace b bytes.length
  have hbounds := hsmall.bounds
  unfold remaining at hfits
  constructor
  · rw [write_stored h hspace, Words.int_eq (by omega)]
    rfl
  · refine ⟨by omega, ?_, hsmall.lastExpand⟩
    change (overwrite _ _ bytes).length < 2 ^ 32
    rw [length_overwrite (by omega)]
    exact hsmall.size

/-- An append that ends beyond the range of an `int` leaves a negative index. -/
theorem write_wraps {bytes : Bytes}
    (hroom : b.start bytes.length + bytes.length + kExpandSize < 2 ^ 32)
    (hover : 2 ^ 31 ≤ b.start bytes.length + bytes.length) :
    b.machine.write bytes = some { (b.write bytes).machine with
      writeIndex_ := (b.write bytes).writeIndex_ - 2 ^ 32 } := by
  have hindex : (b.write bytes).writeIndex_ = b.start bytes.length + bytes.length := by
    rw [← writeIndex_ensureSpace_eq]
    rfl
  have hint : Words.int (b.write bytes).writeIndex_ = (b.write bytes).writeIndex_ - 2 ^ 32 := by
    unfold Words.int
    omega
  rw [write_stored h hroom, hint]

theorem writeFrom_machine {src : Buffer} (hsrc : src.Small) {len : ℕ}
    (hlen : len ≤ src.readableBytes) (hroom : b.start len + len < 2 ^ 31) :
    b.machine.writeFrom src.machine len =
      (b.writeFrom src len).map fun r => (r.1.machine, r.2.machine) := by
  have hpeek : (src.peek len).length = len := by
    rw [peek_eq_take (src.length_readable ▸ hlen), List.length_take, length_readable]
    exact Nat.min_eq_left hlen
  have hlen' : b.start (src.peek len).length + (src.peek len).length < 2 ^ 31 := by rwa [hpeek]
  have hwrite := (write_machine h hlen').1
  unfold Machine.Buffer.writeFrom writeFrom
  rw [peek_machine hsrc hlen]
  simp only [Option.bind_eq_bind, Option.bind_some, hwrite,
    retrieve_machine hsrc (Nat.lt_trans (Nat.lt_of_le_of_lt (Nat.le_add_left _ _) hroom) (by decide))]
  cases src.retrieve len with
  | none => rfl
  | some src' => rfl

theorem writeAll_machine {src : Buffer} (hsrc : src.Small)
    (hroom : b.start src.readableBytes + src.readableBytes < 2 ^ 31) :
    b.machine.writeAll src.machine =
      (b.writeAll src).map fun r => (r.1.machine, r.2.machine) := by
  unfold Machine.Buffer.writeAll writeAll
  rw [readableBytes_machine hsrc]
  exact writeFrom_machine h hsrc (le_refl _) hroom

theorem fill_machine {bytes : Bytes} (hfits : bytes.length ≤ b.remaining) :
    b.machine.fill bytes = (b.fill bytes).map machine := by
  have := h.bounds
  unfold Machine.Buffer.fill Machine.Buffer.store fill
  unfold remaining at hfits
  rw [dif_pos (by unfold remaining; omega), if_pos]
  · rfl
  · simp only [writeIndex_machine, buf_machine]
    omega

/-! ## Shrinking -/

theorem moveToFront_machine : b.machine.moveToFront = some b.moveToFront.machine := by
  unfold Machine.Buffer.moveToFront moveToFront
  have hiff : 0 < b.machine.readIndex_ ↔ 0 < b.readIndex_ := Int.natCast_pos
  by_cases hpos : 0 < b.readIndex_
  · rw [if_pos (hiff.mpr hpos), if_pos hpos, compact_machine h]
  · rw [if_neg (mt hiff.mp hpos), if_neg hpos]

theorem small_moveToFront : b.moveToFront.Small := by
  unfold moveToFront
  split
  · exact small_compact h
  · exact h

theorem shrink_machine {len : ℕ} (hlen : len < 2 ^ 31) :
    b.machine.shrink len = some (b.shrink len).machine := by
  have hfront := small_moveToFront h
  have hint : Words.int (len : ℤ) = len := Words.int_eq (by omega)
  unfold Machine.Buffer.shrink
  rw [moveToFront_machine h]
  simp only [Option.bind_eq_bind, Option.bind_some, readableBytes_machine hfront, hint]
  by_cases hlt : len < b.moveToFront.readableBytes
  · rw [if_pos hlt]
    refine (if_pos (Nat.lt_trans hlen (by decide))).trans (congrArg some ?_)
    unfold machine shrink
    simp only [if_pos hlt]
  · rw [if_neg hlt]
    refine (if_pos (Nat.lt_trans hlen (by decide))).trans (congrArg some ?_)
    unfold machine shrink
    simp only [if_neg hlt]

theorem shrinkToFit_machine : b.machine.shrinkToFit = some b.shrinkToFit.machine := by
  have := h.bounds
  unfold Machine.Buffer.shrinkToFit shrinkToFit
  rw [readableBytes_machine h]
  refine shrink_machine h ?_
  unfold readableBytes
  omega

/-! ## What stays small -/

/-- Nothing was appended, and no memory was added. -/
theorem Small.of_le {b' : Buffer} (hindex : b'.writeIndex_ ≤ b.writeIndex_)
    (hsize : b'.buf_.length = b.buf_.length) (hexpand : b'.lastExpand_ = b.lastExpand_) : b'.Small :=
  ⟨Nat.lt_of_le_of_lt hindex h.index, hsize ▸ h.size, hexpand ▸ h.lastExpand⟩

theorem Small.retrieve {b' : Buffer} {len : ℕ} (hr : b.retrieve len = some b') : b'.Small := by
  obtain ⟨-, rfl⟩ := retrieve_le hr
  exact h.of_le (le_refl _) rfl rfl

theorem Small.read {b' : Buffer} {len : ℕ} {bytes : Bytes} (hr : b.read len = some (bytes, b')) :
    b'.Small := by
  unfold Buffer.read at hr
  split at hr
  · obtain ⟨r, hr, he⟩ := Option.map_eq_some_iff.mp hr
    cases he
    exact h.retrieve hr
  · cases hr

theorem Small.readTypedNumber {b' : Buffer} {size n : ℕ}
    (hr : b.readTypedNumber size = some (n, b')) : b'.Small := by
  unfold Buffer.readTypedNumber at hr
  split at hr
  · obtain ⟨r, hr, he⟩ := Option.map_eq_some_iff.mp hr
    cases he
    exact h.retrieve hr
  · cases hr

theorem Small.readString {b' : Buffer} {bytes : Bytes} (hr : b.readString = some (bytes, b')) :
    b'.Small := by
  obtain ⟨r, hr, he⟩ := Option.map_eq_some_iff.mp hr
  cases he
  exact h.retrieve hr

theorem Small.unread {b' : Buffer} {len : ℕ} (hu : b.unread len = some b') : b'.Small := by
  unfold Buffer.unread at hu
  split at hu
  · cases hu
    exact h.of_le (le_refl _) rfl rfl
  · cases hu

theorem Small.unwrite {b' : Buffer} {len : ℕ} (hu : b.unwrite len = some b') : b'.Small := by
  obtain ⟨hindex, hbuf, hexpand⟩ := unwrite_back hu
  exact h.of_le hindex (congrArg List.length hbuf) hexpand

theorem Small.writeFrom {b' src src' : Buffer} {len : ℕ} (hroom : b.start len + len < 2 ^ 31)
    (hw : b.writeFrom src len = some (b', src')) (hsrc : src.Small) : b'.Small ∧ src'.Small := by
  obtain ⟨r, hr, he⟩ := Option.map_eq_some_iff.mp hw
  cases he
  obtain ⟨hlen, -⟩ := retrieve_le hr
  have hpeek : (src.peek len).length = len := by
    rw [peek_eq_take hlen, List.length_take]
    exact Nat.min_eq_left hlen
  exact ⟨(write_machine h (by rwa [hpeek])).2, hsrc.retrieve hr⟩

end Reading

/-- A buffer as it is made, of a size that the machine has room for. -/
theorem small_ofSize {len : ℕ} (hlen : len < 2 ^ 32) : (ofSize len).Small := by
  refine ⟨Nat.two_pow_pos 31, ?_, Nat.zero_le _⟩
  change (List.replicate len (0 : UInt8)).length < _
  rwa [List.length_replicate]

end Buffer
end WsEngine
