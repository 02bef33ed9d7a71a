import WsEngine.Buffer.Queue
import WsEngine.Lib.EventSystem
import WsEngine.Lib.Queue

/-! # Sequences of buffer operations

A buffer under any sequence of its operations is a queue whose reader may step back over what it read
last. The memory holds the queue between the two indices (`Queue.Holds`); one lemma for each kind of
operation says that this is kept, and `EventSystem.simulates` carries it over a run. The indices are
`int`, and stay below `2^31` while the sizes used and the bytes filled in are fewer than that. -/
set_option autoImplicit false

namespace WsEngine

/-- `receive` is what a read does: `ensureSpace(len)`, bytes put at `writeStart()`, and
`updateWriteIndex` by how many these are. -/
inductive BufferOp
  | write (bytes : Bytes)
  | writeFrom (src : Buffer) (len : ℕ)
  | writeAll (src : Buffer)
  | putByte (byte : UInt8)
  | putUInt16 (word : UInt16)
  | putUInt32 (integer : UInt32)
  | putUInt64 (bigInt : UInt64)
  | ensureSpace (len : ℕ)
  | read (len : ℕ)
  | skip (len : ℕ)
  | retrieve (len : ℕ)
  | readString
  | unread (len : ℕ)
  | unwrite (len : ℕ)
  | clear
  | shrink (len : ℕ)
  | shrinkToFit
  | receive (len : ℕ) (bytes : Bytes)

/-- What an operation returns: bytes, the space there is with what `remaining()` is then, or the
buffer it read from. -/
inductive Answer
  | nothing
  | bytes (bytes : Bytes)
  | space (space remaining : ℕ)
  | source (src : Buffer)

namespace BufferOp

/-- The sizes that an operation is given. -/
def size : BufferOp → ℕ
  | write bytes => bytes.length
  | writeFrom _ len => len
  | writeAll src => src.readable.length
  | putByte _ => 1
  | putUInt16 _ => 2
  | putUInt32 _ => 4
  | putUInt64 _ => 8
  | ensureSpace len | read len | skip len | retrieve len | unread len | unwrite len | shrink len
  | receive len _ => len
  | readString | clear | shrinkToFit => 0

/-- The bytes put at `writeStart()`. -/
def filled : BufferOp → ℕ
  | receive _ bytes => bytes.length
  | _ => 0

end BufferOp

namespace Buffer
open Window

/-- `read(size_t len)`, which only moves the index. -/
def skip (b : Buffer) (len : ℕ) : Option Buffer := b.retrieve len

def receive (b : Buffer) (len : ℕ) (bytes : Bytes) : Option Buffer := do
  let b ← (b.ensureSpace len).2.fill bytes
  b.updateWriteIndex bytes.length

def perform (b : Buffer) : BufferOp → Option (Answer × Buffer)
  | .write bytes => some (.nothing, b.write bytes)
  | .writeFrom src len => (b.writeFrom src len).map fun r => (.source r.2, r.1)
  | .writeAll src => (b.writeAll src).map fun r => (.source r.2, r.1)
  | .putByte byte => some (.nothing, b.putByte byte.toNat)
  | .putUInt16 word => some (.nothing, b.putUInt16 word.toNat)
  | .putUInt32 integer => some (.nothing, b.putUInt32 integer.toNat)
  | .putUInt64 bigInt => some (.nothing, b.putUInt64 bigInt.toNat)
  | .ensureSpace len =>
    some (.space (b.ensureSpace len).1 (b.ensureSpace len).2.remaining, (b.ensureSpace len).2)
  | .read len => (b.read len).map fun r => (.bytes r.1, r.2)
  | .skip len => (b.skip len).map fun b => (.nothing, b)
  | .retrieve len => (b.retrieve len).map fun b => (.nothing, b)
  | .readString => b.readString.map fun r => (.bytes r.1, r.2)
  | .unread len => (b.unread len).map fun b => (.nothing, b)
  | .unwrite len => (b.unwrite len).map fun b => (.nothing, b)
  | .clear => some (.nothing, b.clear)
  | .shrink len => some (.nothing, b.shrink len)
  | .shrinkToFit => some (.nothing, b.shrinkToFit)
  | .receive len bytes => (b.receive len bytes).map fun b => (.nothing, b)

/-- What is received is something, and no more than `ensureSpace` made room for. -/
def Fits (b : Buffer) : BufferOp → Prop
  | .receive len bytes => bytes ≠ [] ∧ bytes.length ≤ (b.ensureSpace len).1
  | _ => True

/-- The state is the buffer and what the last operation returned. -/
def system : EventSystem (Buffer × Answer) BufferOp Unit where
  enabled s op := s.1.Fits op
  step s op :=
    match s.1.perform op with
    | some (answer, b) => .ok (b, answer)
    | none => .error ()

/-! ## The specification -/

/-- The `n` bytes of a number, most significant first. -/
def bigEndian : ℕ → ℕ → Bytes
  | 0, _ => []
  | n + 1, value => bigEndian n (value / 256) ++ [UInt8.ofNat value]

def Spec (s : Queue UInt8 × Answer) (op : BufferOp) (s' : Queue UInt8 × Answer) : Prop :=
  match op with
  | .write bytes => s'.1 = s.1.push bytes
  | .writeFrom src len => len ≤ src.readable.length ∧ s'.1 = s.1.push (src.readable.take len) ∧
      ∃ src', s'.2 = .source src' ∧ src'.readable = src.readable.drop len
  | .writeAll src => s'.1 = s.1.push src.readable ∧ ∃ src', s'.2 = .source src' ∧ src'.readable = []
  | .putByte byte => s'.1 = s.1.push [byte]
  | .putUInt16 word => s'.1 = s.1.push (bigEndian 2 word.toNat)
  | .putUInt32 integer => s'.1 = s.1.push (bigEndian 4 integer.toNat)
  | .putUInt64 bigInt => s'.1 = s.1.push (bigEndian 8 bigInt.toNat)
  | .ensureSpace len => s'.1.content = s.1.content ∧
      ∃ space remaining, s'.2 = .space space remaining ∧ len ≤ space ∧ space ≤ remaining
  | .read len =>
    len ≤ s.1.content.length ∧ s'.2 = .bytes (s.1.content.take len) ∧ s'.1 = s.1.pop len
  | .skip len | .retrieve len => len ≤ s.1.content.length ∧ s'.1 = s.1.pop len
  | .readString => s'.2 = .bytes s.1.content ∧ s'.1 = s.1.pop s.1.content.length
  -- beyond what was read last, old bytes of the memory come back
  | .unread len => len ≤ s.1.taken.length → s'.1 = s.1.unpop len
  | .unwrite len => s'.1 = s.1.keep (s.1.content.length - min len s.1.content.length)
  | .clear => s'.1 = .empty
  | .shrink len => s'.1 = s.1.keep (min len s.1.content.length)
  | .shrinkToFit => s'.1.content = s.1.content
  | .receive _ bytes => s'.1 = s.1.push bytes

/-- What an `int` holds of a number that is stored in it. -/
def int (n : ℕ) : ℤ := Int.bmod n (2 ^ 32)

/-- The indices as they are stored. -/
def Bounded (b : Buffer) : Prop :=
  0 ≤ int b.readIndex_ ∧ int b.readIndex_ ≤ int b.writeIndex_ ∧ int b.writeIndex_ ≤ b.size

theorem int_eq {n : ℕ} (h : n < 2 ^ 31) : int n = n := by
  unfold int
  rw [Int.bmod_eq_of_le (by omega) (by omega)]

theorem bounded_of_lt {b : Buffer} (h : b.writeIndex_ < 2 ^ 31) : b.Bounded := by
  obtain ⟨h1, h2, -⟩ := b.index_bounds
  unfold Bounded size
  rw [int_eq h, int_eq (by omega)]
  omega

/-! ## One operation -/

/-- The memory holds the queue. -/
def Refines (b : Buffer) (q : Queue UInt8) : Prop := q.Holds b.buf_ b.readIndex_ b.writeIndex_

theorem Refines.readable {b : Buffer} {q : Queue UInt8} (h : b.Refines q) : b.readable = q.content :=
  h.content

/-- After anything but a read there is nothing to step back over. -/
theorem refines_of_readable {b : Buffer} {content : Bytes} (h : b.readable = content) :
    b.Refines ⟨content, []⟩ :=
  .of_content b.read_le_write b.write_le_size h rfl

theorem Refines.advance {b : Buffer} {q : Queue UInt8} (h : b.Refines q) {len : ℕ}
    (hlen : len ≤ q.content.length) : (b.advance len).Refines (q.pop len) := by
  have hl := h.length
  have h1 := b.read_le_write
  have hmin : min (b.readIndex_ + len) b.writeIndex_ = b.readIndex_ + len := by omega
  unfold Refines Buffer.advance
  simp only [hmin]
  exact h.pop hlen

theorem retrieve_le {b b' : Buffer} {len : ℕ} (h : b.retrieve len = some b') :
    len ≤ b.readable.length ∧ b' = b.advance len := by
  have hl := b.length_readable
  have h1 := b.read_le_write
  unfold retrieve at h
  unfold readableBytes at hl
  split at h
  · cases h
    exact ⟨by omega, rfl⟩
  · cases h

theorem Refines.retrieve {b b' : Buffer} {q : Queue UInt8} (h : b.Refines q) {len : ℕ}
    (hr : b.retrieve len = some b') : len ≤ q.content.length ∧ b'.Refines (q.pop len) := by
  obtain ⟨hlen, rfl⟩ := retrieve_le hr
  rw [h.readable] at hlen
  exact ⟨hlen, h.advance hlen⟩

theorem Refines.unread {b b' : Buffer} {q : Queue UInt8} (h : b.Refines q) {len : ℕ}
    (hu : b.unread len = some b') (hlen : len ≤ q.taken.length) : b'.Refines (q.unpop len) := by
  unfold Buffer.unread at hu
  split at hu
  · cases hu
    exact Queue.Holds.unpop h hlen
  · cases hu

theorem refines_push {b b' : Buffer} {q : Queue UInt8} (h : b.Refines q) {bytes : Bytes}
    (hb : b'.readable = b.readable ++ bytes) : b'.Refines (q.push bytes) := by
  rw [h.readable] at hb
  exact refines_of_readable hb

theorem updateWriteIndex_commit {b : Buffer} {n : ℕ} (h : n ≤ b.remaining) :
    b.updateWriteIndex n = some (b.commit n h) := by
  have ha : n ≤ b.available := le_trans h (Nat.le_add_right _ _)
  unfold updateWriteIndex
  rw [if_neg (by omega), dif_pos (by simpa using ha), dif_pos (by simpa using h)]
  simp

/-- The receive sequence is a write. -/
theorem exists_receive {b : Buffer} {len : ℕ} {bytes : Bytes}
    (hfits : bytes.length ≤ (b.ensureSpace len).1) :
    ∃ b', b.receive len bytes = some b' ∧ b'.readable = b.readable ++ bytes ∧
      b'.writeIndex_ = (b.ensureSpace len).2.writeIndex_ + bytes.length := by
  obtain ⟨-, hspace⟩ := b.ensureSpace_bounds len
  have hroom : bytes.length ≤ (b.ensureSpace len).2.remaining := by omega
  have hstore := readable_store (b.ensureSpace len).2 bytes hroom
  rw [readable_ensureSpace] at hstore
  obtain ⟨filled, hfill, hbuf, hread, hwrite⟩ : ∃ f, (b.ensureSpace len).2.fill bytes = some f ∧
      f.buf_ = overwrite (b.ensureSpace len).2.buf_ (b.ensureSpace len).2.writeIndex_ bytes ∧
      f.readIndex_ = (b.ensureSpace len).2.readIndex_ ∧
      f.writeIndex_ = (b.ensureSpace len).2.writeIndex_ := ⟨_, dif_pos hroom, rfl, rfl, rfl⟩
  have hleft : bytes.length ≤ filled.remaining := by
    have hsize := (b.ensureSpace len).2.write_le_size
    unfold remaining at hroom ⊢
    rw [hbuf, hwrite, length_overwrite (by omega)]
    exact hroom
  refine ⟨filled.commit bytes.length hleft, ?_, ?_, ?_⟩
  · unfold receive
    rw [hfill]
    exact updateWriteIndex_commit hleft
  · rw [← hstore]
    simp only [readable, peek, readableBytes, commit, store, hbuf, hread, hwrite]
  · rw [← hwrite]
    rfl

theorem receive_eq {b b' : Buffer} {len : ℕ} {bytes : Bytes}
    (hfits : bytes.length ≤ (b.ensureSpace len).1) (h : b.receive len bytes = some b') :
    b'.readable = b.readable ++ bytes ∧
      b'.writeIndex_ = (b.ensureSpace len).2.writeIndex_ + bytes.length := by
  obtain ⟨b'', hb, hreceived⟩ := exists_receive hfits
  cases h.symm.trans hb
  exact hreceived

/-! ## Numbers -/

theorem bigEndian_add (m n value : ℕ) :
    bigEndian (m + n) value = bigEndian m (value / 256 ^ n) ++ bigEndian n value := by
  induction n generalizing value with
  | zero => simp [bigEndian]
  | succ n ih =>
    rw [← Nat.add_assoc, bigEndian, bigEndian, ih, List.append_assoc, Nat.div_div_eq_div_mul, Nat.pow_succ,
      Nat.mul_comm 256]

/-- The bytes do not depend on what is above them. -/
theorem bigEndian_mod (n value : ℕ) : bigEndian n (value % 256 ^ n) = bigEndian n value := by
  induction n generalizing value with
  | zero => rfl
  | succ n ih =>
    have hhigh : value % 256 ^ (n + 1) / 256 = value / 256 % 256 ^ n := by
      rw [Nat.pow_succ, Nat.mod_mul_left_div_self]
    have hlow : UInt8.ofNat (value % 256 ^ (n + 1)) = UInt8.ofNat value := by
      apply UInt8.toNat.inj
      rw [UInt8.toNat_ofNat', UInt8.toNat_ofNat', Nat.pow_succ, Nat.mod_mul_left_mod]
    rw [bigEndian, bigEndian, hhigh, ih, hlow]

theorem htons_eq (word : ℕ) : htons word = bigEndian 2 word := by
  simp [htons, bigEndian, Nat.shiftRight_eq_div_pow]

theorem htonl_eq (integer : ℕ) : htonl integer = bigEndian 4 integer := by
  simp [htonl, bigEndian, Nat.shiftRight_eq_div_pow, Nat.div_div_eq_div_mul]

/-- The mask of 36 bits does no harm: the cast drops what is above 32 anyway. -/
theorem putUInt64_eq (bigInt : ℕ) :
    htonl ((bigInt >>> 32) % 2 ^ 32) ++ htonl ((bigInt &&& 0xfffffffff) % 2 ^ 32) =
      bigEndian 8 bigInt := by
  have hmask : bigInt &&& 0xfffffffff = bigInt % 2 ^ 36 := Nat.and_two_pow_sub_one_eq_mod bigInt 36
  have hlow : (bigInt % 2 ^ 36) % 2 ^ 32 = bigInt % 256 ^ 4 := by omega
  have hhigh : (bigInt >>> 32) % 2 ^ 32 = (bigInt / 256 ^ 4) % 256 ^ 4 := by
    rw [Nat.shiftRight_eq_div_pow]
    omega
  rw [htonl_eq, htonl_eq, hmask, hlow, hhigh, bigEndian_mod, bigEndian_mod]
  exact (bigEndian_add 4 4 bigInt).symm

/-! ## Every operation -/

theorem readString_refines {b b' : Buffer} {q : Queue UInt8} {bytes : Bytes} (h : b.Refines q)
    (hr : b.readString = some (bytes, b')) :
    bytes = q.content ∧ b'.Refines (q.pop q.content.length) := by
  rw [readString_eq, h.readable] at hr
  cases hr
  exact ⟨rfl, h.advance (le_refl _)⟩

theorem read_refines {b b' : Buffer} {q : Queue UInt8} {len : ℕ} {bytes : Bytes} (h : b.Refines q)
    (hr : b.read len = some (bytes, b')) :
    len ≤ q.content.length ∧ bytes = q.content.take len ∧ b'.Refines (q.pop len) := by
  have hlen : len ≤ b.readable.length := by
    unfold read at hr
    split at hr
    · rwa [length_readable]
    · cases hr
  rw [read_eq hlen] at hr
  rw [h.readable] at hlen hr
  cases hr
  exact ⟨hlen, rfl, h.advance hlen⟩

theorem writeFrom_refines {b b' src src' : Buffer} {q : Queue UInt8} {len : ℕ} (h : b.Refines q)
    (hw : b.writeFrom src len = some (b', src')) :
    len ≤ src.readable.length ∧ b'.Refines (q.push (src.readable.take len)) ∧
      src'.readable = src.readable.drop len := by
  have hlen : len ≤ src.readable.length := by
    unfold writeFrom at hw
    cases hr : src.retrieve len with
    | none =>
      rw [hr] at hw
      cases hw
    | some r => exact (retrieve_le hr).1
  rw [writeFrom_eq b hlen] at hw
  cases hw
  exact ⟨hlen, refines_push h (readable_write _ _), readable_advance _ _⟩

/-- **One step.** The queue can follow every operation whose assertions hold. -/
theorem perform_refines {b b' : Buffer} {q : Queue UInt8} {op : BufferOp} {answer answer' : Answer}
    (h : b.Refines q) (hfits : b.Fits op) (hp : b.perform op = some (answer', b')) :
    ∃ q', Spec (q, answer) op (q', answer') ∧ b'.Refines q' := by
  have hread := h.readable
  cases op with
  | write bytes =>
    cases hp
    exact ⟨_, rfl, refines_push h (readable_write _ _)⟩
  | writeFrom src len =>
    obtain ⟨r, hw, hr⟩ := Option.map_eq_some_iff.mp hp
    cases hr
    obtain ⟨hlen, hpush, hsrc⟩ := writeFrom_refines h hw
    exact ⟨_, ⟨hlen, rfl, _, rfl, hsrc⟩, hpush⟩
  | writeAll src =>
    obtain ⟨r, hw, hr⟩ := Option.map_eq_some_iff.mp hp
    rw [writeAll_eq] at hw
    cases hw
    cases hr
    exact ⟨_, ⟨rfl, _, rfl, by simp⟩, refines_push h (readable_write _ _)⟩
  | putByte byte =>
    cases hp
    refine ⟨_, rfl, refines_push h ?_⟩
    rw [readable_putByte, UInt8.ofNat_toNat]
  | putUInt16 word =>
    cases hp
    refine ⟨_, rfl, refines_push h ?_⟩
    rw [readable_putUInt16, htons_eq]
  | putUInt32 integer =>
    cases hp
    refine ⟨_, rfl, refines_push h ?_⟩
    rw [putUInt32, readable_write, htonl_eq]
  | putUInt64 bigInt =>
    cases hp
    refine ⟨_, rfl, refines_push h ?_⟩
    rw [readable_putUInt64, putUInt64_eq]
  | ensureSpace len =>
    cases hp
    obtain ⟨hle, hspace⟩ := b.ensureSpace_bounds len
    have hsame : (b.ensureSpace len).2.readable = q.content := by rw [readable_ensureSpace, hread]
    exact ⟨⟨q.content, []⟩, ⟨rfl, _, _, rfl, hle, hspace⟩, refines_of_readable hsame⟩
  | read len =>
    obtain ⟨r, hr, he⟩ := Option.map_eq_some_iff.mp hp
    cases he
    obtain ⟨hlen, hbytes, hpop⟩ := read_refines h hr
    exact ⟨_, ⟨hlen, congrArg _ hbytes, rfl⟩, hpop⟩
  | skip len =>
    obtain ⟨r, hr, he⟩ := Option.map_eq_some_iff.mp hp
    cases he
    obtain ⟨hlen, hpop⟩ := h.retrieve hr
    exact ⟨_, ⟨hlen, rfl⟩, hpop⟩
  | retrieve len =>
    obtain ⟨r, hr, he⟩ := Option.map_eq_some_iff.mp hp
    cases he
    obtain ⟨hlen, hpop⟩ := h.retrieve hr
    exact ⟨_, ⟨hlen, rfl⟩, hpop⟩
  | readString =>
    obtain ⟨r, hr, he⟩ := Option.map_eq_some_iff.mp hp
    cases he
    obtain ⟨hbytes, hpop⟩ := readString_refines h hr
    exact ⟨_, ⟨congrArg _ hbytes, rfl⟩, hpop⟩
  | unread len =>
    obtain ⟨r, hu, he⟩ := Option.map_eq_some_iff.mp hp
    cases he
    by_cases hlen : len ≤ q.taken.length
    · exact ⟨_, fun _ => rfl, h.unread hu hlen⟩
    · exact ⟨_, fun hle => absurd hle hlen, refines_of_readable rfl⟩
  | unwrite len =>
    obtain ⟨r, hu, he⟩ := Option.map_eq_some_iff.mp hp
    cases he
    obtain ⟨w, hw, hr⟩ := b.unwrite_eq len
    cases hw.symm.trans hu
    refine ⟨_, rfl, refines_of_readable ?_⟩
    have hkeep : q.content.length - len = q.content.length - min len q.content.length := by omega
    rw [hr, hread, hkeep]
  | clear =>
    cases hp
    exact ⟨_, rfl, refines_of_readable (readable_clear b)⟩
  | shrink len =>
    cases hp
    refine ⟨_, rfl, refines_of_readable ?_⟩
    rw [readable_shrink, hread, ← List.take_take, List.take_length]
  | shrinkToFit =>
    cases hp
    refine ⟨⟨q.content, []⟩, rfl, refines_of_readable ?_⟩
    rw [shrinkToFit, readable_shrink, readableBytes_eq, hread, List.take_length]
  | receive len bytes =>
    obtain ⟨r, hr, he⟩ := Option.map_eq_some_iff.mp hp
    cases he
    exact ⟨_, rfl, refines_push h (receive_eq hfits.2 hr).1⟩

/-! ## The write index -/

theorem writeIndex_ensureSpace (b : Buffer) (len : ℕ) :
    (b.ensureSpace len).2.writeIndex_ ≤ b.writeIndex_ := by
  obtain ⟨-, -, e⟩ | ⟨-, -, -, e⟩ | ⟨-, more, n, -, -, e⟩ := b.ensureSpace_cases len
  · rw [e]
  · rw [e]
    exact Nat.sub_le _ _
  · rw [e]
    exact le_refl _

theorem writeIndex_write (b : Buffer) (bytes : Bytes) :
    (b.write bytes).writeIndex_ ≤ b.writeIndex_ + bytes.length :=
  Nat.add_le_add_right (b.writeIndex_ensureSpace bytes.length) _

theorem writeIndex_putUInt64 (b : Buffer) (bigInt : ℕ) :
    (b.putUInt64 bigInt).writeIndex_ ≤ b.writeIndex_ + 8 := by
  have hhigh := b.writeIndex_write (htonl ((bigInt >>> 32) % 2 ^ 32))
  have hlow := (b.putUInt32 ((bigInt >>> 32) % 2 ^ 32)).writeIndex_write
    (htonl ((bigInt &&& 0xfffffffff) % 2 ^ 32))
  have hlen (n : ℕ) : (htonl n).length = 4 := rfl
  rw [hlen] at hhigh hlow
  exact le_trans hlow (Nat.add_le_add_right hhigh 4)

theorem writeIndex_retrieve {b b' : Buffer} {len : ℕ} (h : b.retrieve len = some b') :
    b'.writeIndex_ = b.writeIndex_ := by
  obtain ⟨-, rfl⟩ := retrieve_le h
  rfl

theorem writeIndex_read {b b' : Buffer} {len : ℕ} {bytes : Bytes}
    (h : b.read len = some (bytes, b')) : b'.writeIndex_ = b.writeIndex_ := by
  unfold read at h
  split at h
  · obtain ⟨r, hr, he⟩ := Option.map_eq_some_iff.mp h
    cases he
    exact writeIndex_retrieve hr
  · cases h

theorem writeIndex_writeFrom {b b' src src' : Buffer} {len : ℕ}
    (h : b.writeFrom src len = some (b', src')) : b'.writeIndex_ ≤ b.writeIndex_ + len := by
  obtain ⟨r, hr, he⟩ := Option.map_eq_some_iff.mp h
  cases he
  obtain ⟨hlen, -⟩ := retrieve_le hr
  have hpeek : (src.peek len).length = len := by
    rw [peek_eq_take hlen, List.length_take, Nat.min_eq_left hlen]
  have hw := b.writeIndex_write (src.peek len)
  rwa [hpeek] at hw

/-- Going back leaves the memory alone. -/
theorem updateWriteIndex_neg {b b' : Buffer} {n : ℕ} (h : b.updateWriteIndex (-(n : ℤ)) = some b') :
    b'.writeIndex_ ≤ b.writeIndex_ ∧ b'.buf_ = b.buf_ ∧ b'.lastExpand_ = b.lastExpand_ := by
  have horder := b.read_le_write
  rcases Nat.eq_zero_or_pos n with rfl | hpos
  · rw [show (-((0 : ℕ) : ℤ)) = ((0 : ℕ) : ℤ) by simp, updateWriteIndex_commit (Nat.zero_le _)] at h
    cases h
    exact ⟨le_refl _, rfl, rfl⟩
  · unfold updateWriteIndex at h
    rw [if_pos (by omega)] at h
    cases h
    refine ⟨?_, rfl, rfl⟩
    simp only [retreat]
    omega

theorem unwrite_back {b b' : Buffer} {len : ℕ} (h : b.unwrite len = some b') :
    b'.writeIndex_ ≤ b.writeIndex_ ∧ b'.buf_ = b.buf_ ∧ b'.lastExpand_ = b.lastExpand_ := by
  unfold unwrite at h
  split at h
  · exact updateWriteIndex_neg h
  · exact updateWriteIndex_neg h

theorem writeIndex_moveToFront (b : Buffer) : b.moveToFront.writeIndex_ ≤ b.writeIndex_ := by
  unfold moveToFront
  split
  · exact Nat.sub_le _ _
  · exact le_refl _

theorem writeIndex_shrink (b : Buffer) (len : ℕ) : (b.shrink len).writeIndex_ ≤ b.writeIndex_ := by
  have hfront := b.writeIndex_moveToFront
  have hreadable : b.moveToFront.readableBytes =
      b.moveToFront.writeIndex_ - b.moveToFront.readIndex_ := rfl
  simp only [shrink]
  split <;> omega

/-- An operation moves the write index by no more than its sizes. -/
theorem writeIndex_perform {b b' : Buffer} {op : BufferOp} {answer : Answer} (hfits : b.Fits op)
    (h : b.perform op = some (answer, b')) :
    b'.writeIndex_ ≤ b.writeIndex_ + (op.size + op.filled) := by
  cases op with
  | write bytes =>
    cases h
    exact b.writeIndex_write bytes
  | writeFrom src len =>
    obtain ⟨r, hw, he⟩ := Option.map_eq_some_iff.mp h
    cases he
    exact writeIndex_writeFrom hw
  | writeAll src =>
    obtain ⟨r, hw, he⟩ := Option.map_eq_some_iff.mp h
    cases he
    rw [BufferOp.size, ← readableBytes_eq]
    exact writeIndex_writeFrom hw
  | putByte byte =>
    cases h
    exact b.writeIndex_write _
  | putUInt16 word =>
    cases h
    exact b.writeIndex_write _
  | putUInt32 integer =>
    cases h
    exact b.writeIndex_write _
  | putUInt64 bigInt =>
    cases h
    exact b.writeIndex_putUInt64 _
  | ensureSpace len =>
    cases h
    exact le_trans (b.writeIndex_ensureSpace len) (Nat.le_add_right _ _)
  | read len =>
    obtain ⟨r, hr, he⟩ := Option.map_eq_some_iff.mp h
    cases he
    exact le_trans (writeIndex_read hr).le (Nat.le_add_right _ _)
  | skip len =>
    obtain ⟨r, hr, he⟩ := Option.map_eq_some_iff.mp h
    cases he
    exact le_trans (writeIndex_retrieve hr).le (Nat.le_add_right _ _)
  | retrieve len =>
    obtain ⟨r, hr, he⟩ := Option.map_eq_some_iff.mp h
    cases he
    exact le_trans (writeIndex_retrieve hr).le (Nat.le_add_right _ _)
  | readString =>
    rw [perform, readString_eq] at h
    cases h
    exact Nat.le_add_right _ _
  | unread len =>
    obtain ⟨r, hu, he⟩ := Option.map_eq_some_iff.mp h
    cases he
    unfold unread at hu
    split at hu
    · cases hu
      exact Nat.le_add_right _ _
    · cases hu
  | unwrite len =>
    obtain ⟨r, hu, he⟩ := Option.map_eq_some_iff.mp h
    cases he
    exact le_trans (unwrite_back hu).1 (Nat.le_add_right _ _)
  | clear =>
    cases h
    exact Nat.zero_le _
  | shrink len =>
    cases h
    exact le_trans (b.writeIndex_shrink len) (Nat.le_add_right _ _)
  | shrinkToFit =>
    cases h
    exact le_trans (b.writeIndex_shrink _) (Nat.le_add_right _ _)
  | receive len bytes =>
    obtain ⟨r, hr, he⟩ := Option.map_eq_some_iff.mp h
    cases he
    have hspace := b.writeIndex_ensureSpace len
    rw [(receive_eq hfits.2 hr).2]
    simp only [BufferOp.size, BufferOp.filled]
    omega

/-! ## Where an append goes -/

/-- Both indices fit into an `int`. -/
def InRange (b : Buffer) : Prop := b.readIndex_ < 2 ^ 31 ∧ b.writeIndex_ < 2 ^ 31

/-- Where the bytes go that `ensureSpace` was asked to make room for. -/
def start (b : Buffer) (ask : ℕ) : ℕ :=
  if b.remaining < ask ∧ ask ≤ b.available then b.readableBytes else b.writeIndex_

theorem inRange_iff (b : Buffer) : b.InRange ↔ b.writeIndex_ < 2 ^ 31 :=
  and_iff_right_of_imp fun h => Nat.lt_of_le_of_lt b.read_le_write h

theorem writeIndex_ensureSpace_eq (b : Buffer) (ask : ℕ) :
    (b.ensureSpace ask).2.writeIndex_ = b.start ask := by
  unfold start
  obtain ⟨h, -, e⟩ | ⟨h, ha, -, e⟩ | ⟨h, more, n, -, -, e⟩ := b.ensureSpace_cases ask
  · rw [e, if_neg (by omega)]
  · rw [e, if_pos ⟨h, ha⟩]
    rfl
  · rw [e, if_neg (by omega)]
    rfl

theorem start_le (b : Buffer) (ask : ℕ) : b.start ask ≤ b.writeIndex_ := by
  rw [← b.writeIndex_ensureSpace_eq]
  exact b.writeIndex_ensureSpace ask

theorem writeIndex_writeFrom_eq {b b' src src' : Buffer} {len : ℕ}
    (h : b.writeFrom src len = some (b', src')) :
    b'.writeIndex_ = b.start len + len ∧ src'.writeIndex_ = src.writeIndex_ := by
  obtain ⟨r, hr, he⟩ := Option.map_eq_some_iff.mp h
  cases he
  obtain ⟨hlen, -⟩ := retrieve_le hr
  have hpeek : (src.peek len).length = len := by
    rw [peek_eq_take hlen, List.length_take]
    exact Nat.min_eq_left hlen
  refine ⟨?_, writeIndex_retrieve hr⟩
  change (b.ensureSpace (src.peek len).length).2.writeIndex_ + (src.peek len).length = _
  rw [hpeek, writeIndex_ensureSpace_eq]

/-! ## Runs -/

theorem system_step {s s' : Buffer × Answer} {op : BufferOp} (h : system.step s op = .ok s') :
    s.1.perform op = some (s'.2, s'.1) := by
  change (match s.1.perform op with
    | some (answer, b) => Except.ok (b, answer)
    | none => .error ()) = _ at h
  split at h
  · next hp =>
    cases h
    exact hp
  · cases h

/-- **A buffer refines a queue.** After every sequence of operations whose assertions hold, the indices
are in bounds, and what the buffer holds and what each operation returned are a run of the queue. -/
theorem refines_queue {size : ℕ} {ops : List BufferOp} {s : Buffer × Answer}
    (legal : system.Legal (ofSize size, .nothing) ops)
    (hrun : system.run (ofSize size, .nothing) ops = .ok s)
    (hsizes : size + (ops.map fun op => op.size + op.filled).sum < 2 ^ 31) :
    s.1.Bounded ∧ ∃ q, EventSystem.Follows Spec (.empty, .nothing) ops (q, s.2) ∧
      s.1.readable = q.content := by
  constructor
  · have hcost := system.run_le_sum (fun s => s.1.writeIndex_) (fun op => op.size + op.filled)
      (fun t op t' hfits ht => writeIndex_perform hfits (system_step ht)) legal hrun
    change s.1.writeIndex_ ≤ 0 + _ at hcost
    apply bounded_of_lt
    omega
  · have hinit : (ofSize size).Refines .empty := refines_of_readable (readable_ofSize size)
    have hsim : ∀ (u : Buffer × Answer) (op : BufferOp) (u' : Buffer × Answer)
        (t : Queue UInt8 × Answer), u.1.Refines t.1 ∧ t.2 = u.2 → system.enabled u op →
        system.step u op = .ok u' → ∃ t', Spec t op t' ∧ u'.1.Refines t'.1 ∧ t'.2 = u'.2 := by
      rintro u op u' ⟨q, answer⟩ ⟨href, -⟩ hfits hu
      obtain ⟨q', hspec, hq'⟩ := perform_refines href hfits (system_step hu)
      exact ⟨(q', u'.2), hspec, hq', rfl⟩
    obtain ⟨⟨q, answer⟩, hfollows, href, rfl⟩ :=
      system.simulates _ Spec hsim (t := (.empty, .nothing)) ⟨hinit, rfl⟩ legal hrun
    exact ⟨q, hfollows, href.readable⟩

theorem refines_queue_unread :
    ∃ s, system.run (ofSize 4, .nothing) [.write [1, 2, 3], .read 2, .unread 1] = .ok s ∧
      s.1.Bounded ∧ ∃ q, EventSystem.Follows Spec (.empty, .nothing)
        [.write [1, 2, 3], .read 2, .unread 1] (q, s.2) ∧ s.1.readable = q.content := by
  have legal : system.Legal (ofSize 4, .nothing) [.write [1, 2, 3], .read 2, .unread 1] :=
    ⟨trivial, fun _ _ => ⟨trivial, fun _ _ => ⟨trivial, fun _ _ => trivial⟩⟩⟩
  exact ⟨_, rfl, refines_queue legal rfl (by decide)⟩

/-! ## What a read may fill in

`ensureSpace` makes more room than it is asked for when it has grown three times before, and all of
the room may be filled. So the bytes filled in are not bounded by the sizes asked for, and with these
alone below `2^31` the write index overflows. -/

/-- Nothing was read, the memory is full, and it has grown `grown` times. -/
structure Full (b : Buffer) (n grown : ℕ) : Prop where
  front : b.readIndex_ = 0
  back : b.writeIndex_ = n
  size : b.buf_.length = n
  grown : b.lastExpand_ = grown

theorem ensureSpace_full {b : Buffer} {n grown : ℕ} (h : b.Full n grown) :
    b.ensureSpace 1 = if 3 < grown + 1 then (8193, b.resize 8193 0)
      else (1, b.resize 1 (grown + 1)) := by
  have hremaining : b.remaining = 0 := by rw [remaining, h.back, h.size, Nat.sub_self]
  have havailable : b.available = 0 := by rw [available, h.back, h.size, h.front, Nat.sub_self]
  unfold ensureSpace
  rw [hremaining, havailable, h.grown]
  simp only [remaining_resize, hremaining, kExpandThreshold, kExpandSize]
  simp

theorem receive_full {b : Buffer} {n grown more lastExpand : ℕ} {bytes : Bytes}
    (h : b.Full n grown) (hspace : b.ensureSpace 1 = (more, b.resize more lastExpand))
    (hlen : bytes.length = more) :
    ∃ b', b.receive 1 bytes = some b' ∧ b'.Full (n + more) lastExpand := by
  have hsize : (b.resize more lastExpand).buf_.length = n + more := by
    simp [resize, h.size]
  have hback : (b.resize more lastExpand).writeIndex_ = n := h.back
  have hroom : bytes.length ≤ (b.resize more lastExpand).remaining := by
    rw [remaining, hsize, hback]
    omega
  obtain ⟨f, hfill, hfront, hwrite, hbuf, hgrown⟩ : ∃ f,
      (b.resize more lastExpand).fill bytes = some f ∧ f.readIndex_ = 0 ∧ f.writeIndex_ = n ∧
        f.buf_.length = n + more ∧ f.lastExpand_ = lastExpand := by
    refine ⟨_, dif_pos hroom, h.front, hback, ?_, rfl⟩
    rw [length_overwrite (by rw [hsize, hback, hlen]), hsize]
  have hleft : bytes.length ≤ f.remaining := by
    rw [remaining, hbuf, hwrite]
    omega
  refine ⟨f.commit bytes.length hleft, ?_, hfront, ?_, hbuf, hgrown⟩
  · unfold receive
    rw [hspace]
    simp only [bind, Option.bind, hfill, updateWriteIndex_commit hleft]
  · simp only [commit, hwrite, hlen]

/-- Four reads that ask for a byte and fill all the room they get. -/
def greedy : List BufferOp :=
  [.receive 1 [0], .receive 1 [0], .receive 1 [0], .receive 1 (List.replicate 8193 0)]

theorem receive_step {s : Buffer × Answer} {n grown more lastExpand : ℕ} {bytes : Bytes}
    (h : s.1.Full n grown) (hspace : s.1.ensureSpace 1 = (more, s.1.resize more lastExpand))
    (hlen : bytes.length = more) (hpos : 0 < more) :
    system.enabled s (.receive 1 bytes) ∧
      ∃ s', system.step s (.receive 1 bytes) = .ok s' ∧ s'.1.Full (n + more) lastExpand := by
  obtain ⟨b', hb, hfull⟩ := receive_full h hspace hlen
  refine ⟨⟨?_, ?_⟩, (b', .nothing), ?_, hfull⟩
  · exact List.length_pos_iff.mp (by omega)
  · rw [hspace, hlen]
  · change (match s.1.perform (.receive 1 bytes) with
      | some (answer, b) => Except.ok (b, answer)
      | none => .error ()) = _
    rw [perform, hb]
    rfl

theorem greedy_full {s : Buffer × Answer} {n : ℕ} (h : s.1.Full n 0) :
    system.Legal s greedy ∧ ∃ s', system.run s greedy = .ok s' ∧ s'.1.Full (n + 8196) 0 := by
  have hone : ([0] : Bytes).length = 1 := rfl
  obtain ⟨e₁, s₁, h₁, f₁⟩ := receive_step h (ensureSpace_full h) hone (by decide)
  obtain ⟨e₂, s₂, h₂, f₂⟩ := receive_step f₁ (ensureSpace_full f₁) hone (by decide)
  obtain ⟨e₃, s₃, h₃, f₃⟩ := receive_step f₂ (ensureSpace_full f₂) hone (by decide)
  obtain ⟨e₄, s₄, h₄, f₄⟩ := receive_step f₃ (ensureSpace_full f₃)
    (List.length_replicate (a := (0 : UInt8))) (by decide)
  have hn : n + 1 + 1 + 1 + 8193 = n + 8196 := by omega
  refine ⟨?_, s₄, ?_, hn ▸ f₄⟩
  · exact system.legal_cons_ok e₁ h₁ (system.legal_cons_ok e₂ h₂ (system.legal_cons_ok e₃ h₃
      (system.legal_singleton e₄)))
  · unfold greedy
    rw [system.run_cons_ok _ h₁, system.run_cons_ok _ h₂, system.run_cons_ok _ h₃,
      system.run_cons_ok _ h₄, system.run_nil]

theorem greedy_replicate {s : Buffer × Answer} {n : ℕ} (h : s.1.Full n 0) (k : ℕ) :
    system.Legal s (List.replicate k greedy).flatten ∧
      ∃ s', system.run s (List.replicate k greedy).flatten = .ok s' ∧
        s'.1.Full (n + 8196 * k) 0 := by
  induction k generalizing s n with
  | zero => exact ⟨trivial, s, rfl, h⟩
  | succ k ih =>
    obtain ⟨legal, s₁, hrun, h₁⟩ := greedy_full h
    obtain ⟨legal', s₂, hrun', h₂⟩ := ih h₁
    have hn : n + 8196 + 8196 * k = n + 8196 * (k + 1) := by omega
    rw [List.replicate_succ, List.flatten_cons]
    refine ⟨system.legal_append legal hrun legal', s₂, ?_, hn ▸ h₂⟩
    rw [system.run_append _ hrun, hrun']

theorem size_replicate (k : ℕ) :
    ((List.replicate k greedy).flatten.map BufferOp.size).sum = 4 * k := by
  induction k with
  | zero => rfl
  | succ k ih =>
    rw [List.replicate_succ, List.flatten_cons, List.map_append, List.sum_append, ih]
    simp only [greedy, List.map_cons, List.map_nil, BufferOp.size, List.sum_cons, List.sum_nil]
    omega

/-- With a million reads that ask for a byte each, `writeIndex_` is negative. -/
theorem bounded_fails_fill :
    let ops := (List.replicate 262017 greedy).flatten
    system.Legal (ofSize 0, .nothing) ops ∧ 0 + (ops.map BufferOp.size).sum < 2 ^ 31 ∧
      ∃ s, system.run (ofSize 0, .nothing) ops = .ok s ∧ ¬ s.1.Bounded := by
  have hfull : (ofSize 0).Full 0 0 := ⟨rfl, rfl, rfl, rfl⟩
  obtain ⟨legal, s, hrun, h⟩ := greedy_replicate (s := (ofSize 0, .nothing)) hfull 262017
  refine ⟨legal, ?_, s, hrun, ?_⟩
  · rw [size_replicate]
    decide
  · rintro ⟨hread, hwrite, -⟩
    have hneg : int (0 + 8196 * 262017) < 0 := by decide
    rw [h.back] at hwrite
    omega

end Buffer
end WsEngine
