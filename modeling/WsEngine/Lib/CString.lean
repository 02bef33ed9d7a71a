import Mathlib.Data.List.TakeWhile
import WsEngine.Lib.Table

/-! # Blocks of bytes and C strings in them

Memory is a table of the blocks that `new` gives out, so a pointer to a block that was deleted is
told from one to a block that was made later. What a new block holds is not known: it comes from the
outside. `strcpy` stops behind the first zero byte of its source and leaves what its destination held
further on; `copied` is what comes of that when the destination is new and as long as the source
(`duplicate_eq`), and it is the source exactly where the new block held the rest of it already
(`copied_eq_iff`). -/
set_option autoImplicit false

/-- What C leaves undefined. -/
inductive MemoryFault
  | null | dangling | overlap | bounds
  deriving DecidableEq, Repr

/-- The blocks of memory. -/
abbrev Heap := Table (List UInt8)

abbrev Pointer := Option ℕ

/-- The bytes before the first zero byte. -/
def cstring (bytes : List UInt8) : List UInt8 := bytes.takeWhile (· ≠ 0)

/-- What is in `n` bytes that were never written. -/
def unwritten (garbage : ℕ → UInt8) (n : ℕ) : List UInt8 := (List.range n).map garbage

@[simp] theorem length_unwritten (garbage : ℕ → UInt8) (n : ℕ) :
    (unwritten garbage n).length = n := by
  rw [unwritten, List.length_map, List.length_range]

namespace Heap

def new (m : Heap) (garbage : ℕ → UInt8) (n : ℕ) : Pointer × Heap :=
  (some m.size, m.push (unwritten garbage n))

def block (m : Heap) : Pointer → Except MemoryFault (List UInt8)
  | none => .error .null
  | some p =>
    match m.get p with
    | some bytes => .ok bytes
    | none => .error .dangling

def delete (m : Heap) : Pointer → Except MemoryFault Heap
  | none => .ok m
  | some p =>
    match m.get p with
    | some _ => .ok (m.remove p)
    | none => .error .dangling

/-- `memcpy` of bytes that lie outside of the block. -/
def memcpy (m : Heap) (dst : Pointer) (bytes : List UInt8) : Except MemoryFault Heap :=
  match dst with
  | none => .error .null
  | some p =>
    match m.get p with
    | none => .error .dangling
    | some old =>
      if bytes.length ≤ old.length then .ok (m.put p (bytes ++ old.drop bytes.length))
      else .error .bounds

/-- `dst[i] = b`. -/
def store (m : Heap) (dst : Pointer) (i : ℕ) (b : UInt8) : Except MemoryFault Heap :=
  match dst with
  | none => .error .null
  | some p =>
    match m.get p with
    | none => .error .dangling
    | some old => if i < old.length then .ok (m.put p (old.set i b)) else .error .bounds

def strcpy (m : Heap) (dst src : Pointer) : Except MemoryFault Heap := do
  let bytes ← m.block src
  if dst = src then .error .overlap
  else if 0 ∈ bytes then m.memcpy dst (cstring bytes ++ [0])
  else .error .bounds

/-! ## What is deleted -/

/-- The memory without a block. -/
def freed (m : Heap) : Pointer → Heap
  | none => m
  | some p => m.remove p

@[simp] theorem size_freed (m : Heap) (ptr : Pointer) : (m.freed ptr).size = m.size := by
  cases ptr with
  | none => rfl
  | some p => exact Table.size_remove m p

theorem get_freed {m : Heap} {ptr : Pointer} {p : ℕ} (h : ptr ≠ some p) :
    (m.freed ptr).get p = m.get p := by
  cases ptr with
  | none => rfl
  | some q => exact Table.get_remove fun hp => h (congrArg some hp.symm)

theorem delete_eq {m : Heap} {ptr : Pointer} (h : ∀ p, ptr = some p → ∃ bytes, m.get p = some bytes) :
    m.delete ptr = .ok (m.freed ptr) := by
  cases ptr with
  | none => rfl
  | some p =>
    obtain ⟨bytes, hp⟩ := h p rfl
    unfold delete
    simp only [hp]
    rfl

/-! ## In the newest block -/

theorem block_push_size (m : Heap) (bytes : List UInt8) :
    block (m.push bytes) (some m.size) = .ok bytes := by
  unfold block
  simp only [Table.get_push_size]

theorem memcpy_push {m : Heap} {old bytes : List UInt8} (h : bytes.length ≤ old.length) :
    memcpy (m.push old) (some m.size) bytes =
      .ok (m.push (bytes ++ old.drop bytes.length)) := by
  unfold memcpy
  simp only [Table.get_push_size, if_pos h, Table.push_put_size]

theorem store_push {m : Heap} {old : List UInt8} {i : ℕ} (b : UInt8) (h : i < old.length) :
    store (m.push old) (some m.size) i b = .ok (m.push (old.set i b)) := by
  unfold store
  simp only [Table.get_push_size, if_pos h, Table.push_put_size]

theorem strcpy_push {m : Heap} {p : ℕ} {bytes old : List UInt8} (hp : m.get p = some bytes)
    (hzero : 0 ∈ bytes) (h : (cstring bytes).length < old.length) :
    strcpy (m.push old) (some m.size) (some p) =
      .ok (m.push (cstring bytes ++ 0 :: old.drop ((cstring bytes).length + 1))) := by
  have hne : (some m.size : Pointer) ≠ some p := fun heq =>
    Table.ne_size hp (Option.some.inj heq).symm
  have hlen : (cstring bytes ++ [0]).length ≤ old.length := by
    rw [List.length_append]
    exact h
  have hsrc : block (m.push old) (some p) = .ok bytes := by
    unfold block
    simp only [Table.get_push_some old hp]
  unfold strcpy
  simp only [hsrc, bind, Except.bind, if_neg hne, if_pos hzero]
  rw [memcpy_push hlen, List.length_append, List.append_assoc]
  rfl

end Heap

/-! ## Copies that stop at a zero byte -/

theorem cstring_length_le (bytes : List UInt8) : (cstring bytes).length ≤ bytes.length :=
  (List.takeWhile_prefix _).length_le

theorem cstring_getElem? {bytes : List UInt8} {i : ℕ} (h : i < (cstring bytes).length) :
    (cstring bytes)[i]? = bytes[i]? := by
  obtain ⟨rest, hrest⟩ : cstring bytes <+: bytes := List.takeWhile_prefix _
  calc (cstring bytes)[i]? = (cstring bytes ++ rest)[i]? := (List.getElem?_append_left h).symm
    _ = bytes[i]? := by rw [hrest]

theorem cstring_stop {bytes : List UInt8} (h : (cstring bytes).length < bytes.length) :
    bytes[(cstring bytes).length]? = some 0 := by
  induction bytes with
  | nil => exact absurd h (Nat.lt_irrefl _)
  | cons b bytes ih =>
    by_cases hb : b = 0
    · subst hb
      rfl
    · have hcons : cstring (b :: bytes) = b :: cstring bytes := List.takeWhile_cons_of_pos (by simpa)
      rw [hcons, List.length_cons, List.length_cons, Nat.succ_lt_succ_iff] at h
      rw [hcons, List.length_cons, List.getElem?_cons_succ]
      exact ih h

theorem cstring_terminated (bytes : List UInt8) : cstring (bytes ++ [0]) = cstring bytes := by
  induction bytes with
  | nil => rfl
  | cons b bytes ih =>
    unfold cstring at ih ⊢
    rw [List.cons_append, List.takeWhile_cons, List.takeWhile_cons, ih]

/-- `bytes` up to the first zero byte, and what the block held behind it. -/
def copied (garbage : ℕ → UInt8) (bytes : List UInt8) : List UInt8 :=
  bytes.mapIdx fun i b => if i ≤ (cstring bytes).length then b else garbage i

@[simp] theorem length_copied (garbage : ℕ → UInt8) (bytes : List UInt8) :
    (copied garbage bytes).length = bytes.length :=
  List.length_mapIdx

/-- The rest of the bytes is in the block already. -/
def Agrees (garbage : ℕ → UInt8) (bytes : List UInt8) : Prop :=
  ∀ i < bytes.length, (cstring bytes).length < i → bytes[i]? = some (garbage i)

instance (garbage : ℕ → UInt8) (bytes : List UInt8) : Decidable (Agrees garbage bytes) :=
  inferInstanceAs (Decidable (∀ i < bytes.length, _ → _))

theorem copied_eq_iff {garbage : ℕ → UInt8} {bytes : List UInt8} :
    copied garbage bytes = bytes ↔ Agrees garbage bytes := by
  constructor
  · intro h i hi hl
    have hsame := congrArg (·[i]?) h
    simp only [copied, List.getElem?_mapIdx] at hsame
    rw [List.getElem?_eq_getElem hi, Option.map_some, if_neg (Nat.not_le_of_lt hl)] at hsame
    rw [List.getElem?_eq_getElem hi, ← hsame]
  · intro h
    refine List.ext_getElem? fun i => ?_
    rw [copied, List.getElem?_mapIdx]
    cases hb : bytes[i]? with
    | none => rfl
    | some b =>
      rw [Option.map_some]
      split
      · rfl
      · next hl =>
        have hi := (List.getElem?_eq_some_iff.mp hb).1
        rw [← h i hi (Nat.lt_of_not_le hl), hb]

/-- The block that a copy of `bytes` with its terminator leaves. -/
theorem copied_block (garbage : ℕ → UInt8) (bytes : List UInt8) :
    (cstring bytes ++ 0 :: (unwritten garbage (bytes.length + 1)).drop
      ((cstring bytes).length + 1)).set bytes.length 0 = copied garbage bytes ++ [0] := by
  have hle := cstring_length_le bytes
  have hlen : (cstring bytes ++ 0 :: (unwritten garbage (bytes.length + 1)).drop
      ((cstring bytes).length + 1)).length = bytes.length + 1 := by
    simp only [unwritten, List.length_append, List.length_cons, List.length_drop, List.length_map,
      List.length_range]
    omega
  refine List.ext_getElem? fun i => ?_
  rcases Nat.lt_trichotomy i bytes.length with hi | rfl | hi
  · have hcopied : (copied garbage bytes ++ [0])[i]? =
        some (if i ≤ (cstring bytes).length then bytes[i] else garbage i) := by
      rw [List.getElem?_append_left (by rwa [length_copied]), copied, List.getElem?_mapIdx,
        List.getElem?_eq_getElem hi, Option.map_some]
    rw [List.getElem?_set_ne (Nat.ne_of_gt hi), hcopied]
    rcases Nat.lt_trichotomy i (cstring bytes).length with hl | hl | hl
    · rw [List.getElem?_append_left hl, cstring_getElem? hl, if_pos (Nat.le_of_lt hl),
        List.getElem?_eq_getElem hi]
    · have hstop := cstring_stop (hl ▸ hi)
      rw [← hl, List.getElem?_eq_getElem hi] at hstop
      rw [List.getElem?_append_right (Nat.le_of_eq hl.symm), if_pos (Nat.le_of_eq hl), hstop, ← hl,
        Nat.sub_self]
      rfl
    · obtain ⟨k, rfl⟩ := Nat.exists_eq_add_of_lt hl
      have hk : (cstring bytes).length + k + 1 - (cstring bytes).length = k + 1 := by omega
      have hi' : (cstring bytes).length + 1 + k < bytes.length + 1 := by omega
      rw [List.getElem?_append_right (Nat.le_of_lt hl), hk, List.getElem?_cons_succ,
        List.getElem?_drop, unwritten, List.getElem?_map, List.getElem?_range hi', Option.map_some,
        if_neg (Nat.not_le_of_lt hl)]
      congr 2
      omega
  · rw [List.getElem?_set_self (by omega),
      List.getElem?_append_right (Nat.le_of_eq (length_copied _ _)), length_copied, Nat.sub_self]
    rfl
  · rw [List.getElem?_eq_none, List.getElem?_eq_none]
    · rw [List.length_append, length_copied]
      exact hi
    · rw [List.length_set, hlen]
      exact hi

/-- `bytes` over the front of a block that is longer by one. -/
theorem terminated_block {bytes old : List UInt8} (h : old.length = bytes.length + 1) :
    (bytes ++ old.drop bytes.length).set bytes.length 0 = bytes ++ [0] := by
  have hrest : (old.drop bytes.length).length = 1 := by
    rw [List.length_drop]
    omega
  obtain ⟨b, hb⟩ := List.length_eq_one_iff.mp hrest
  rw [hb, List.set_append_right _ _ (Nat.le_refl _), Nat.sub_self]
  rfl

namespace Heap

/-- A new block, `memcpy` into it and a terminator at its end. -/
theorem terminate_eq (m : Heap) (garbage : ℕ → UInt8) (bytes : List UInt8) :
    (do
      let m' ← memcpy (m.push (unwritten garbage (bytes.length + 1))) (some m.size) bytes
      m'.store (some m.size) bytes.length 0) = .ok (m.push (bytes ++ [0])) := by
  have hlen := length_unwritten garbage (bytes.length + 1)
  rw [memcpy_push (by omega)]
  simp only [bind, Except.bind]
  rw [store_push, terminated_block hlen]
  rw [List.length_append, List.length_drop]
  omega

/-- A new block, `strcpy` into it and a terminator at its end. -/
theorem duplicate_eq {m : Heap} {p : ℕ} {bytes : List UInt8} (garbage : ℕ → UInt8)
    (hp : m.get p = some (bytes ++ [0])) :
    (do
      let m' ← strcpy (m.push (unwritten garbage (bytes.length + 1))) (some m.size) (some p)
      m'.store (some m.size) bytes.length 0) = .ok (m.push (copied garbage bytes ++ [0])) := by
  have hzero : 0 ∈ bytes ++ [0] := List.mem_append_right _ (List.mem_singleton_self _)
  have hlen := length_unwritten garbage (bytes.length + 1)
  have hle := cstring_length_le bytes
  rw [strcpy_push hp hzero (by rw [cstring_terminated, hlen]; omega), cstring_terminated]
  simp only [bind, Except.bind]
  rw [store_push, copied_block]
  simp only [List.length_append, List.length_cons, List.length_drop, hlen]
  omega

end Heap
