import WsEngine.String.Model

/-! # What the strings hold

A string stands for the bytes before the terminator of its block. No two strings share a block, so what
is done to one leaves the others alone, and in most operations the value of the one is what it should
be. There are two exceptions. A copy is made by `strcpy`: it needs a source that is not null, it stops
behind the first zero byte, and in an assignment to itself it reads the block that was just made. And a
move assignment leaves the size of the target with the string that was moved from. So the strings are
values exactly as long as no step does that to one that would show it. -/
set_option autoImplicit false

namespace WsEngine

/-- The string is null and has size 0, or is the bytes with their terminator. -/
inductive WsString.Holds (heap : Heap) : WsString → List UInt8 → Prop
  | null : Holds heap ⟨none, 0⟩ []
  | block {p : ℕ} {bytes : List UInt8} (h : heap.get p = some (bytes ++ [0])) :
    Holds heap ⟨some p, bytes.length⟩ bytes

namespace WsString

/-- A string holds the same while its block does. -/
theorem Holds.congr {heap heap' : Heap} {str : WsString} {bytes : List UInt8}
    (h : str.Holds heap bytes) (hsame : ∀ p, str.data_ = some p → heap'.get p = heap.get p) :
    str.Holds heap' bytes := by
  cases h with
  | null => exact .null
  | block hp => exact .block ((hsame _ rfl).trans hp)

theorem Holds.get {heap : Heap} {str : WsString} {bytes : List UInt8} (h : str.Holds heap bytes)
    {p : ℕ} (hp : str.data_ = some p) : heap.get p = some (bytes ++ [0]) := by
  cases h with
  | null => cases hp
  | block hblock =>
    cases hp
    exact hblock

theorem Holds.size {heap : Heap} {str : WsString} {bytes : List UInt8} (h : str.Holds heap bytes) :
    str.size_ = bytes.length := by
  cases h <;> rfl

theorem Holds.unique {heap : Heap} {str : WsString} {bytes bytes' : List UInt8}
    (h : str.Holds heap bytes) (h' : str.Holds heap bytes') : bytes = bytes' := by
  cases h with
  | null => exact (List.eq_nil_of_length_eq_zero h'.size.symm).symm
  | block hp => exact List.append_cancel_right (Option.some.inj (hp.symm.trans (h'.get rfl)))

theorem Holds.of_null {heap : Heap} {str : WsString} {bytes : List UInt8} (h : str.Holds heap bytes)
    (hnull : str.data_ = none) : str.size_ = 0 := by
  cases h with
  | null => rfl
  | block hp => cases hnull

end WsString

namespace Strings

/-! ## The specification -/

def Holds (s : Strings) (k : ℕ) (bytes : List UInt8) : Prop :=
  ∃ str, s.strings.get k = some str ∧ str.Holds s.heap bytes

/-- Every string satisfies the representation invariant. -/
def Sound (s : Strings) : Prop :=
  ∀ k str, s.strings.get k = some str → ∃ bytes, str.Holds s.heap bytes

/-- The string that is made, assigned or destructed. -/
def target (s : Strings) : StringEvent → ℕ
  | .construct _ | .constructCString _ _ | .constructBytes _ _ | .constructCopy _ _
  | .constructMove _ => s.strings.size
  | .assignCopy _ this _ | .assignMove this _ | .destruct this => this

/-- The bytes that it should hold then. -/
def Given (s : Strings) : StringEvent → List UInt8 → Prop
  | .construct _, bytes => bytes = []
  | .constructCString _ src, bytes => bytes = cstring src
  | .constructBytes _ src, bytes => bytes = src
  | .constructCopy _ lhs, bytes | .assignCopy _ _ lhs, bytes => s.Holds lhs bytes
  | .constructMove rhs, bytes | .assignMove _ rhs, bytes => s.Holds rhs bytes
  | .destruct _, _ => False

end Strings

def StringEvent.movedFrom : StringEvent → Option ℕ
  | .constructMove rhs | .assignMove _ rhs => some rhs
  | .construct _ | .constructCString _ _ | .constructBytes _ _ | .constructCopy _ _
  | .assignCopy _ _ _ | .destruct _ => none

namespace Strings

/-- Value semantics of an event. -/
structure Valued (s : Strings) (e : StringEvent) (s' : Strings) : Prop where
  sound : s'.Sound
  target : ∀ bytes, s.Given e bytes → s'.Holds (s.target e) bytes
  others : ∀ k bytes, k ≠ s.target e → e.movedFrom ≠ some k → s.Holds k bytes → s'.Holds k bytes

/-- The string is not null, and what `strcpy` leaves out is in the new block already. -/
def Copyable (s : Strings) (garbage : ℕ → UInt8) (k : ℕ) : Prop :=
  ∃ p bytes, s.strings.get k = some ⟨some p, bytes.length⟩ ∧ s.heap.get p = some (bytes ++ [0]) ∧
    Agrees garbage bytes

/-- Copies are of strings that `strcpy` can copy, and not to themselves, and moves are assigned to
strings of size 0. -/
def Guarded (s : Strings) : StringEvent → Prop
  | .constructCopy garbage lhs => s.Copyable garbage lhs
  | .assignCopy garbage this lhs => this ≠ lhs ∧ s.Copyable garbage lhs
  | .assignMove this _ => ∀ str, s.strings.get this = some str → str.size_ = 0
  | .construct _ | .constructCString _ _ | .constructBytes _ _ | .constructMove _
  | .destruct _ => True

/-! ## The invariant -/

def Owns (s : Strings) (k p : ℕ) : Prop := ∃ str, s.strings.get k = some str ∧ str.data_ = some p

structure Inv (s : Strings) : Prop where
  sound : s.Sound
  distinct : ∀ j k p, s.Owns j p → s.Owns k p → j = k

theorem Holds.unique {s : Strings} {k : ℕ} {bytes bytes' : List UInt8} (h : s.Holds k bytes)
    (h' : s.Holds k bytes') : bytes = bytes' := by
  obtain ⟨str, hk, hstr⟩ := h
  obtain ⟨str', hk', hstr'⟩ := h'
  cases hk.symm.trans hk'
  exact hstr.unique hstr'

theorem Inv.lt_size {s : Strings} (h : s.Inv) {k p : ℕ} (howns : s.Owns k p) : p < s.heap.size := by
  obtain ⟨str, hk, hp⟩ := howns
  obtain ⟨bytes, hstr⟩ := h.sound k str hk
  exact Table.lt_size (hstr.get hp)

theorem initial_inv : initial.Inv where
  sound := fun k str hk => by
    rw [initial, Table.get_empty] at hk
    cases hk
  distinct := fun j k p hj => by
    obtain ⟨str, hk, -⟩ := hj
    rw [initial, Table.get_empty] at hk
    cases hk

/-! ## Strings with a new block -/

/-- A string with a new block, constructed. -/
def added (s : Strings) (bytes : List UInt8) : Strings :=
  ⟨s.heap.push (bytes ++ [0]), s.strings.push ⟨some s.heap.size, bytes.length⟩⟩

/-- The string at a place with a new block in place of its own. -/
def replaced (s : Strings) (k : ℕ) (str : WsString) (bytes : List UInt8) : Strings :=
  ⟨(s.heap.freed str.data_).push (bytes ++ [0]),
    s.strings.put k ⟨some s.heap.size, bytes.length⟩⟩

theorem holds_added (s : Strings) (bytes : List UInt8) :
    (s.added bytes).Holds s.strings.size bytes :=
  ⟨_, Table.get_push_size _ _, .block (Table.get_push_size _ _)⟩

theorem Inv.holds_added {s : Strings} (h : s.Inv) (bytes : List UInt8) {k : ℕ} {str : WsString}
    {others : List UInt8} (hk : s.strings.get k = some str) (hstr : str.Holds s.heap others) :
    str.Holds (s.added bytes).heap others := by
  refine hstr.congr fun p hp => Table.get_push _ ?_
  exact Nat.ne_of_lt (h.lt_size ⟨str, hk, hp⟩)

theorem owns_added {s : Strings} {bytes : List UInt8} {k p : ℕ} (h : (s.added bytes).Owns k p) :
    s.Owns k p ∨ k = s.strings.size ∧ p = s.heap.size := by
  obtain ⟨str, hk, hp⟩ := h
  obtain hold | ⟨rfl, rfl⟩ := Table.of_get_push hk
  · exact .inl ⟨str, hold, hp⟩
  · exact .inr ⟨rfl, (Option.some.inj hp).symm⟩

theorem Inv.added {s : Strings} (h : s.Inv) (bytes : List UInt8) : (s.added bytes).Inv where
  sound := fun k str hk => by
    obtain hold | ⟨-, rfl⟩ := Table.of_get_push hk
    · obtain ⟨others, hstr⟩ := h.sound k str hold
      exact ⟨others, h.holds_added bytes hold hstr⟩
    · exact ⟨bytes, .block (Table.get_push_size _ _)⟩
  distinct := fun j k p hj hk => by
    rcases owns_added hj with hold | ⟨hjs, hp⟩ <;> rcases owns_added hk with hold' | ⟨hks, hp'⟩
    · exact h.distinct j k p hold hold'
    · exact absurd hp' (Nat.ne_of_lt (h.lt_size hold))
    · exact absurd hp (Nat.ne_of_lt (h.lt_size hold'))
    · exact hjs.trans hks.symm

theorem holds_replaced {s : Strings} {k : ℕ} {str : WsString} (hk : s.strings.get k = some str)
    (bytes : List UInt8) : (s.replaced k str bytes).Holds k bytes := by
  refine ⟨_, Table.get_put_self _ (Table.lt_size hk), .block ?_⟩
  change Table.get ((s.heap.freed str.data_).push _) s.heap.size = _
  rw [← Heap.size_freed s.heap str.data_, Table.get_push_size]

theorem Inv.holds_replaced {s : Strings} (h : s.Inv) {j k : ℕ} {str str' : WsString}
    (hk : s.strings.get k = some str) (hj : s.strings.get j = some str') (hne : j ≠ k)
    (bytes : List UInt8) {others : List UInt8} (hstr : str'.Holds s.heap others) :
    str'.Holds (s.replaced k str bytes).heap others := by
  refine hstr.congr fun p hp => ?_
  have hlt := h.lt_size ⟨str', hj, hp⟩
  have hfresh : p ≠ (s.heap.freed str.data_).size := by
    rw [Heap.size_freed]
    exact Nat.ne_of_lt hlt
  have hother : str.data_ ≠ some p := fun hdata =>
    hne (h.distinct j k p ⟨str', hj, hp⟩ ⟨str, hk, hdata⟩)
  exact (Table.get_push _ hfresh).trans (Heap.get_freed hother)

theorem owns_replaced {s : Strings} {k : ℕ} {str : WsString} (hk : s.strings.get k = some str)
    {bytes : List UInt8} {j p : ℕ} (h : (s.replaced k str bytes).Owns j p) :
    s.Owns j p ∨ j = k ∧ p = s.heap.size := by
  obtain ⟨str', hj, hp⟩ := h
  by_cases hjk : j = k
  · subst hjk
    cases (Table.get_put_self _ (Table.lt_size hk)).symm.trans hj
    exact .inr ⟨rfl, (Option.some.inj hp).symm⟩
  · exact .inl ⟨str', (Table.get_put _ hjk).symm.trans hj, hp⟩

theorem Inv.replaced {s : Strings} (h : s.Inv) {k : ℕ} {str : WsString}
    (hk : s.strings.get k = some str) (bytes : List UInt8) : (s.replaced k str bytes).Inv where
  sound := fun j str' hj => by
    by_cases hjk : j = k
    · subst hjk
      obtain ⟨str'', hj', hstr⟩ := Strings.holds_replaced hk bytes
      cases hj.symm.trans hj'
      exact ⟨bytes, hstr⟩
    · have hold := (Table.get_put _ hjk).symm.trans hj
      obtain ⟨others, hstr⟩ := h.sound j str' hold
      exact ⟨others, h.holds_replaced hk hold hjk bytes hstr⟩
  distinct := fun i j p hi hj => by
    rcases owns_replaced hk hi with hold | ⟨hik, hp⟩ <;>
      rcases owns_replaced hk hj with hold' | ⟨hjk, hp'⟩
    · exact h.distinct i j p hold hold'
    · exact absurd hp' (Nat.ne_of_lt (h.lt_size hold))
    · exact absurd hp (Nat.ne_of_lt (h.lt_size hold'))
    · exact hik.trans hjk.symm

/-! ## What the operations do -/

theorem string_eq {s : Strings} {k : ℕ} {str : WsString} (hk : s.strings.get k = some str) :
    s.string k = .ok str := by
  unfold string
  rw [hk]

theorem onHeap_ok (s : Strings) (heap : Heap) : s.onHeap (.ok heap) = .ok { s with heap := heap } :=
  rfl

theorem onHeap_bind (s : Strings) (r : Except MemoryFault Heap)
    (f : Heap → Except MemoryFault Heap) :
    (do
      let s ← s.onHeap r
      s.onHeap (f s.heap)) = s.onHeap (r >>= f) := by
  cases r with
  | error fault => rfl
  | ok heap => rfl

theorem construct_eq (s : Strings) (garbage : ℕ → UInt8) : s.construct garbage = .ok (s.added []) := by
  have hstore := Heap.store_push (m := s.heap) 0
    (show 0 < (unwritten garbage 1).length from Nat.zero_lt_one)
  exact congrArg (s.newString garbage 0).2.onHeap hstore

theorem constructBytes_eq (s : Strings) (garbage : ℕ → UInt8) (src : List UInt8) :
    s.constructBytes garbage src = .ok (s.added src) := by
  have hblock := s.heap.terminate_eq garbage src
  exact (onHeap_bind _ _ _).trans (congrArg _ hblock)

theorem constructCString_eq (s : Strings) (garbage : ℕ → UInt8) (src : List UInt8) :
    s.constructCString garbage src = .ok (s.added (cstring src)) := by
  have hlen := length_unwritten garbage ((cstring src).length + 1)
  have hblock : (do
      let m ← Heap.memcpy (s.heap.push (unwritten garbage ((cstring src).length + 1)))
        (some s.heap.size) (cstring src ++ [0])
      m.store (some s.heap.size) (cstring src).length 0) =
        .ok (s.heap.push (cstring src ++ [0])) := by
    rw [Heap.memcpy_push (by rw [List.length_append, hlen]; exact Nat.le_refl _)]
    simp only [bind, Except.bind]
    rw [Heap.store_push]
    · congr 2
      rw [List.drop_of_length_le, List.append_nil, List.set_append_right _ _ (Nat.le_refl _),
        Nat.sub_self]
      · rfl
      · rw [List.length_append, hlen]
        exact Nat.le_refl _
    · rw [List.length_append, List.length_append]
      exact Nat.lt_of_lt_of_le (Nat.lt_succ_self _) (Nat.le_add_right _ _)
  exact (onHeap_bind _ _ _).trans (congrArg _ hblock)

theorem constructCopy_null {s : Strings} {lhs : ℕ} {str : WsString}
    (hk : s.strings.get lhs = some str) (hnull : str.data_ = none) (garbage : ℕ → UInt8) :
    s.constructCopy garbage lhs = .error (.memory .null) := by
  unfold constructCopy
  rw [string_eq hk]
  simp only [bind, Except.bind, WsString.data, hnull]
  rfl

theorem constructCopy_block {s : Strings} {lhs p : ℕ} {bytes : List UInt8}
    (hk : s.strings.get lhs = some ⟨some p, bytes.length⟩)
    (hp : s.heap.get p = some (bytes ++ [0])) (garbage : ℕ → UInt8) :
    s.constructCopy garbage lhs = .ok (s.added (copied garbage bytes)) := by
  have hblock := Heap.duplicate_eq garbage hp
  have hadded : s.added (copied garbage bytes) =
      ⟨s.heap.push (copied garbage bytes ++ [0]),
        s.strings.push ⟨some s.heap.size, bytes.length⟩⟩ := by
    rw [added, length_copied]
  unfold constructCopy
  rw [string_eq hk, hadded]
  exact (onHeap_bind _ _ _).trans (congrArg _ hblock)

theorem constructMove_eq {s : Strings} {rhs : ℕ} {str : WsString}
    (hk : s.strings.get rhs = some str) :
    s.constructMove rhs = .ok ⟨s.heap, (s.strings.push str).put rhs ⟨none, 0⟩⟩ := by
  unfold constructMove
  rw [string_eq hk]
  rfl

theorem delete_eq {s : Strings} (h : s.Inv) {k : ℕ} {str : WsString}
    (hk : s.strings.get k = some str) : s.heap.delete str.data_ = .ok (s.heap.freed str.data_) := by
  obtain ⟨bytes, hstr⟩ := h.sound k str hk
  exact Heap.delete_eq fun p hp => ⟨_, hstr.get hp⟩

/-- An assignment from what `lhs` is once this string has its new block. -/
theorem assignCopy_eq {s : Strings} (h : s.Inv) {this lhs : ℕ} {str src src' : WsString}
    (hk : s.strings.get this = some str) (hl : s.strings.get lhs = some src)
    (hl' : (s.strings.put this ⟨some s.heap.size, src.size_⟩).get lhs = some src')
    (garbage : ℕ → UInt8) :
    s.assignCopy garbage this lhs =
      onHeap ⟨(s.heap.freed str.data_).push (unwritten garbage (src.size_ + 1)),
        s.strings.put this ⟨some s.heap.size, src.size_⟩⟩ (do
          let m ← Heap.strcpy ((s.heap.freed str.data_).push (unwritten garbage (src.size_ + 1)))
            (some s.heap.size) src'.data_
          m.store (some s.heap.size) src.size_ 0) := by
  have hsrc : string { s with heap := s.heap.freed str.data_ } lhs = .ok src := string_eq hl
  have hsrc' : string ⟨(s.heap.freed str.data_).push (unwritten garbage (src.size_ + 1)),
      s.strings.put this ⟨some s.heap.size, src.size_⟩⟩ lhs = .ok src' := string_eq hl'
  unfold assignCopy Heap.new
  rw [string_eq hk, ← onHeap_bind]
  simp only [bind, Except.bind, delete_eq h hk, onHeap_ok, hsrc, WsString.size, WsString.data,
    Heap.size_freed, hsrc']

theorem assignCopy_self {s : Strings} (h : s.Inv) {this : ℕ} {str : WsString}
    (hk : s.strings.get this = some str) (garbage : ℕ → UInt8) :
    s.assignCopy garbage this this = .error (.memory .overlap) := by
  have hnew := Heap.block_push_size (s.heap.freed str.data_) (unwritten garbage (str.size_ + 1))
  rw [Heap.size_freed] at hnew
  rw [assignCopy_eq h hk hk (Table.get_put_self _ (Table.lt_size hk)), Heap.strcpy]
  simp only [bind, Except.bind, hnew, if_true]
  rfl

theorem assignCopy_null {s : Strings} (h : s.Inv) {this lhs : ℕ} {str src : WsString}
    (hk : s.strings.get this = some str) (hl : s.strings.get lhs = some src) (hne : lhs ≠ this)
    (hnull : src.data_ = none) (garbage : ℕ → UInt8) :
    s.assignCopy garbage this lhs = .error (.memory .null) := by
  rw [assignCopy_eq h hk hl ((Table.get_put _ hne).trans hl), hnull]
  rfl

theorem assignCopy_block {s : Strings} (h : s.Inv) {this lhs p : ℕ} {str : WsString}
    {bytes : List UInt8} (hk : s.strings.get this = some str)
    (hl : s.strings.get lhs = some ⟨some p, bytes.length⟩) (hne : lhs ≠ this)
    (hp : s.heap.get p = some (bytes ++ [0])) (garbage : ℕ → UInt8) :
    s.assignCopy garbage this lhs = .ok (s.replaced this str (copied garbage bytes)) := by
  have hother : str.data_ ≠ some p := fun hdata =>
    hne (h.distinct lhs this p ⟨_, hl, rfl⟩ ⟨str, hk, hdata⟩)
  have hblock := Heap.duplicate_eq garbage ((Heap.get_freed hother).trans hp)
  rw [Heap.size_freed] at hblock
  rw [assignCopy_eq h hk hl ((Table.get_put _ hne).trans hl)]
  refine (congrArg _ hblock).trans ?_
  rw [onHeap_ok, replaced, length_copied]

theorem assignMove_eq {s : Strings} {this rhs : ℕ} {str src : WsString}
    (hk : s.strings.get this = some str) (hr : s.strings.get rhs = some src) :
    s.assignMove this rhs = .ok ((s.put this src).put rhs ⟨none, str.size_⟩) := by
  have hlt : rhs < (s.strings.put this src).size := by
    rw [Table.size_put]
    exact Table.lt_size hr
  have hsrc : ((s.put this src).put rhs str).string rhs = .ok str :=
    string_eq (Table.get_put_self _ hlt)
  unfold assignMove swap
  rw [string_eq hk, string_eq hr]
  simp only [bind, Except.bind, pure, Except.pure, hsrc]
  rw [put, put, put, put, Table.put_put]

theorem destruct_eq {s : Strings} (h : s.Inv) {this : ℕ} {str : WsString}
    (hk : s.strings.get this = some str) :
    s.destruct this = .ok ⟨s.heap.freed str.data_, s.strings.remove this⟩ := by
  unfold destruct
  rw [string_eq hk]
  simp only [bind, Except.bind, delete_eq h hk]
  rfl

/-! ## Moves -/

/-- The string `rhs` is null now, and another target has what it was. -/
structure Moved (s : Strings) (target rhs : ℕ) (src : WsString) (s' : Strings) : Prop where
  heap : s'.heap = s.heap
  null : s'.strings.get rhs = some ⟨none, 0⟩
  moved : target ≠ rhs → s'.strings.get target = some src
  others : ∀ k, k ≠ target → k ≠ rhs → s'.strings.get k = s.strings.get k

/-- Where the string at a place was before. -/
theorem Moved.origin {s s' : Strings} {target rhs : ℕ} {src : WsString}
    (hm : s.Moved target rhs src s') (hr : s.strings.get rhs = some src) {k : ℕ} {str : WsString}
    (hk : s'.strings.get k = some str) :
    str = ⟨none, 0⟩ ∨
      k ≠ rhs ∧ s.strings.get (if k = target then rhs else k) = some str := by
  by_cases hkr : k = rhs
  · subst hkr
    exact .inl (Option.some.inj (hk.symm.trans hm.null))
  · refine .inr ⟨hkr, ?_⟩
    by_cases hkt : k = target
    · subst hkt
      rw [if_pos rfl, hr, ← hk, hm.moved hkr]
    · rw [if_neg hkt, ← hk, hm.others k hkt hkr]

theorem Inv.moved {s s' : Strings} (h : s.Inv) {target rhs : ℕ} {src : WsString}
    (hm : s.Moved target rhs src s') (hr : s.strings.get rhs = some src) : s'.Inv where
  sound := fun k str hk => by
    rw [hm.heap]
    obtain rfl | ⟨-, hold⟩ := hm.origin hr hk
    · exact ⟨[], .null⟩
    · exact h.sound _ str hold
  distinct := by
    rintro j k p ⟨str, hj, hp⟩ ⟨str', hk, hp'⟩
    obtain rfl | ⟨hjr, hj⟩ := hm.origin hr hj
    · cases hp
    obtain rfl | ⟨hkr, hk⟩ := hm.origin hr hk
    · cases hp'
    have hsame := h.distinct _ _ p ⟨str, hj, hp⟩ ⟨str', hk, hp'⟩
    split at hsame <;> split at hsame
    · next hjt hkt => exact hjt.trans hkt.symm
    · exact absurd hsame.symm hkr
    · exact absurd hsame hjr
    · exact hsame

theorem moved_constructMove {s : Strings} {rhs : ℕ} {src : WsString}
    (hr : s.strings.get rhs = some src) :
    s.Moved s.strings.size rhs src ⟨s.heap, (s.strings.push src).put rhs ⟨none, 0⟩⟩ where
  heap := rfl
  null := Table.get_put_self _ (Table.lt_size (Table.get_push_some src hr))
  moved := fun hne => (Table.get_put _ hne).trans (Table.get_push_size _ _)
  others := fun _ hk hkr => (Table.get_put _ hkr).trans (Table.get_push _ hk)

theorem moved_assignMove {s : Strings} {this rhs : ℕ} {str src : WsString}
    (hk : s.strings.get this = some str) (hr : s.strings.get rhs = some src)
    (hempty : str.size_ = 0) :
    s.Moved this rhs src ((s.put this src).put rhs ⟨none, str.size_⟩) where
  heap := rfl
  null := by
    rw [hempty]
    refine Table.get_put_self _ ?_
    rw [put, Table.size_put]
    exact Table.lt_size hr
  moved := fun hne => (Table.get_put _ hne).trans (Table.get_put_self _ (Table.lt_size hk))
  others := fun _ hk hkr => (Table.get_put _ hkr).trans (Table.get_put _ hk)

theorem Inv.destruct {s : Strings} (h : s.Inv) {this : ℕ} {str : WsString}
    (hk : s.strings.get this = some str) :
    Inv ⟨s.heap.freed str.data_, s.strings.remove this⟩ ∧
      ∀ k str' bytes, s.strings.get k = some str' → k ≠ this → str'.Holds s.heap bytes →
        str'.Holds (s.heap.freed str.data_) bytes := by
  have hkeep : ∀ k str' bytes, s.strings.get k = some str' → k ≠ this → str'.Holds s.heap bytes →
      str'.Holds (s.heap.freed str.data_) bytes := by
    intro k str' bytes hk' hne hstr
    refine hstr.congr fun p hp => Heap.get_freed fun hdata => ?_
    exact hne (h.distinct k this p ⟨str', hk', hp⟩ ⟨str, hk, hdata⟩)
  have hold : ∀ k str', (s.strings.remove this).get k = some str' →
      k ≠ this ∧ s.strings.get k = some str' := by
    intro k str' hk'
    have hne : k ≠ this := by
      rintro rfl
      rw [Table.get_remove_self] at hk'
      cases hk'
    exact ⟨hne, (Table.get_remove hne).symm.trans hk'⟩
  refine ⟨⟨fun k str' hk' => ?_, ?_⟩, hkeep⟩
  · obtain ⟨hne, hs⟩ := hold k str' hk'
    obtain ⟨bytes, hstr⟩ := h.sound k str' hs
    exact ⟨bytes, hkeep k str' bytes hs hne hstr⟩
  · rintro j k p ⟨strj, hj, hp⟩ ⟨strk, hk', hp'⟩
    exact h.distinct j k p ⟨strj, (hold j strj hj).2, hp⟩ ⟨strk, (hold k strk hk').2, hp'⟩

/-! ## What the strings hold afterwards -/

theorem Inv.valued_added {s : Strings} (h : s.Inv) {e : StringEvent} {bytes : List UInt8}
    (ht : s.target e = s.strings.size) (hgiven : ∀ bytes', s.Given e bytes' → bytes' = bytes) :
    s.Valued e (s.added bytes) where
  sound := (h.added bytes).sound
  target := fun bytes' hb => by
    rw [ht, hgiven bytes' hb]
    exact Strings.holds_added s bytes
  others := by
    rintro k others - - ⟨str, hk, hstr⟩
    exact ⟨str, Table.get_push_some _ hk, h.holds_added bytes hk hstr⟩

theorem Inv.valued_replaced {s : Strings} (h : s.Inv) {e : StringEvent} {this : ℕ} {str : WsString}
    {bytes : List UInt8} (hk : s.strings.get this = some str) (ht : s.target e = this)
    (hgiven : ∀ bytes', s.Given e bytes' → bytes' = bytes) :
    s.Valued e (s.replaced this str bytes) where
  sound := (h.replaced hk bytes).sound
  target := fun bytes' hb => by
    rw [ht, hgiven bytes' hb]
    exact Strings.holds_replaced hk bytes
  others := by
    rintro k others hne - ⟨str', hk', hstr⟩
    rw [ht] at hne
    exact ⟨str', (Table.get_put _ hne).trans hk', h.holds_replaced hk hk' hne bytes hstr⟩

theorem Inv.valued_moved {s s' : Strings} (h : s.Inv) {e : StringEvent} {rhs : ℕ} {src : WsString}
    (hm : s.Moved (s.target e) rhs src s') (hr : s.strings.get rhs = some src)
    (hmoved : e.movedFrom = some rhs) (hgiven : ∀ bytes, s.Given e bytes → s.Holds rhs bytes)
    (hself : s.target e = rhs → src.size_ = 0) : s.Valued e s' where
  sound := (h.moved hm hr).sound
  target := fun bytes hb => by
    obtain ⟨str, hk, hstr⟩ := hgiven bytes hb
    cases hr.symm.trans hk
    by_cases hne : s.target e = rhs
    · have hnil : bytes = [] := List.eq_nil_of_length_eq_zero (hstr.size ▸ hself hne)
      rw [hne, hnil]
      exact ⟨_, hm.null, .null⟩
    · exact ⟨src, hm.moved hne, hm.heap ▸ hstr⟩
  others := by
    rintro k bytes hkt hkr ⟨str, hk, hstr⟩
    have hne : k ≠ rhs := fun heq => hkr (hmoved.trans (congrArg some heq.symm))
    exact ⟨str, (hm.others k hkt hne).trans hk, hm.heap ▸ hstr⟩

theorem given_of_block {s : Strings} {k p : ℕ} {bytes bytes' : List UInt8}
    (hk : s.strings.get k = some ⟨some p, bytes.length⟩) (hp : s.heap.get p = some (bytes ++ [0]))
    (h : s.Holds k bytes') : bytes' = bytes :=
  h.unique ⟨_, hk, .block hp⟩

theorem alive_iff {s : Strings} {k : ℕ} : s.Alive k ↔ ∃ str, s.strings.get k = some str :=
  Option.isSome_iff_exists

/-- **One step** that is guarded. -/
theorem Inv.step {s : Strings} (h : s.Inv) {e : StringEvent} (possible : s.Possible e)
    (hguard : s.Guarded e) : ∃ s', s.step e = .ok s' ∧ s'.Inv ∧ s.Valued e s' := by
  cases e with
  | construct garbage =>
    exact ⟨_, construct_eq s garbage, h.added [], h.valued_added rfl fun _ hb => hb⟩
  | constructCString garbage src =>
    exact ⟨_, constructCString_eq s garbage src, h.added _, h.valued_added rfl fun _ hb => hb⟩
  | constructBytes garbage src =>
    exact ⟨_, constructBytes_eq s garbage src, h.added src, h.valued_added rfl fun _ hb => hb⟩
  | constructCopy garbage lhs =>
    obtain ⟨p, bytes, hk, hp, hagrees⟩ := hguard
    refine ⟨_, constructCopy_block hk hp garbage, h.added _, h.valued_added rfl fun bytes' hb => ?_⟩
    rw [copied_eq_iff.mpr hagrees]
    exact given_of_block hk hp hb
  | constructMove rhs =>
    obtain ⟨src, hr⟩ := alive_iff.mp possible
    have hm := moved_constructMove hr
    refine ⟨_, constructMove_eq hr, h.moved hm hr, h.valued_moved hm hr rfl (fun _ hb => hb) ?_⟩
    intro hself
    exact absurd hself.symm (Table.ne_size hr)
  | assignCopy garbage this lhs =>
    obtain ⟨hne, p, bytes, hl, hp, hagrees⟩ := hguard
    obtain ⟨str, hk⟩ := alive_iff.mp possible.1
    refine ⟨_, assignCopy_block h hk hl (Ne.symm hne) hp garbage, h.replaced hk _,
      h.valued_replaced hk rfl fun bytes' hb => ?_⟩
    rw [copied_eq_iff.mpr hagrees]
    exact given_of_block hl hp hb
  | assignMove this rhs =>
    obtain ⟨str, hk⟩ := alive_iff.mp possible.1
    obtain ⟨src, hr⟩ := alive_iff.mp possible.2
    have hempty := hguard str hk
    have hm := moved_assignMove hk hr hempty
    refine ⟨_, assignMove_eq hk hr, h.moved hm hr, h.valued_moved hm hr rfl (fun _ hb => hb) ?_⟩
    intro hself
    change this = rhs at hself
    subst hself
    cases hk.symm.trans hr
    exact hempty
  | destruct this =>
    obtain ⟨str, hk⟩ := alive_iff.mp possible
    obtain ⟨hinv, hkeep⟩ := h.destruct hk
    refine ⟨_, destruct_eq h hk, hinv, hinv.sound, fun _ hb => absurd hb id, ?_⟩
    rintro k bytes hne - ⟨str', hk', hstr⟩
    exact ⟨str', (Table.get_remove hne).trans hk', hkeep k str' bytes hk' hne hstr⟩

/-! ## Steps that are not guarded -/

/-- An event that has no fault and value semantics. -/
def Safe (s : Strings) (e : StringEvent) : Prop := (s.step e).Ends (s.Valued e) fun _ => False

theorem Inv.copyable {s : Strings} (h : s.Inv) {k : ℕ} {str : WsString}
    (hk : s.strings.get k = some str) :
    str.data_ = none ∨ ∃ p bytes, str = ⟨some p, bytes.length⟩ ∧ s.heap.get p = some (bytes ++ [0]) := by
  obtain ⟨bytes, hstr⟩ := h.sound k str hk
  cases hstr with
  | null => exact .inl rfl
  | block hp => exact .inr ⟨_, _, rfl, hp⟩

theorem Inv.constructCopy_guarded {s : Strings} (h : s.Inv) {garbage : ℕ → UInt8} {lhs : ℕ}
    (possible : s.Alive lhs) (hsafe : s.Safe (.constructCopy garbage lhs)) :
    s.Copyable garbage lhs := by
  obtain ⟨str, hk⟩ := alive_iff.mp possible
  simp only [Safe, Strings.step] at hsafe
  obtain hnull | ⟨p, bytes, rfl, hp⟩ := h.copyable hk
  · rw [constructCopy_null hk hnull, Except.ends_error] at hsafe
    exact hsafe.elim
  · rw [constructCopy_block hk hp, Except.ends_ok] at hsafe
    have hcopy := hsafe.target bytes ⟨_, hk, .block hp⟩
    exact ⟨p, bytes, hk, hp,
      copied_eq_iff.mp ((Strings.holds_added s (copied garbage bytes)).unique hcopy)⟩

theorem Inv.assignCopy_guarded {s : Strings} (h : s.Inv) {garbage : ℕ → UInt8} {this lhs : ℕ}
    (possible : s.Alive this ∧ s.Alive lhs) (hsafe : s.Safe (.assignCopy garbage this lhs)) :
    this ≠ lhs ∧ s.Copyable garbage lhs := by
  obtain ⟨str, hk⟩ := alive_iff.mp possible.1
  obtain ⟨src, hl⟩ := alive_iff.mp possible.2
  simp only [Safe, Strings.step] at hsafe
  by_cases hne : lhs = this
  · subst hne
    rw [assignCopy_self h hk, Except.ends_error] at hsafe
    exact hsafe.elim
  · refine ⟨Ne.symm hne, ?_⟩
    obtain hnull | ⟨p, bytes, rfl, hp⟩ := h.copyable hl
    · rw [assignCopy_null h hk hl hne hnull, Except.ends_error] at hsafe
      exact hsafe.elim
    · rw [assignCopy_block h hk hl hne hp, Except.ends_ok] at hsafe
      have hcopy := hsafe.target bytes ⟨_, hl, .block hp⟩
      exact ⟨p, bytes, hl, hp,
        copied_eq_iff.mp ((Strings.holds_replaced hk (copied garbage bytes)).unique hcopy)⟩

theorem assignMove_guarded {s : Strings} {this rhs : ℕ} (possible : s.Alive this ∧ s.Alive rhs)
    (hsafe : s.Safe (.assignMove this rhs)) :
    ∀ str, s.strings.get this = some str → str.size_ = 0 := by
  intro str hk
  obtain ⟨src, hr⟩ := alive_iff.mp possible.2
  simp only [Safe, Strings.step] at hsafe
  rw [assignMove_eq hk hr, Except.ends_ok] at hsafe
  have hlt : rhs < (s.put this src).strings.size := by
    rw [put, Table.size_put]
    exact Table.lt_size hr
  obtain ⟨bytes, hstr⟩ := hsafe.sound rhs ⟨none, str.size_⟩ (Table.get_put_self _ hlt)
  exact hstr.of_null rfl

/-- **One step** is safe iff it is guarded. -/
theorem Inv.safe_iff {s : Strings} (h : s.Inv) {e : StringEvent} (possible : s.Possible e) :
    s.Safe e ↔ s.Guarded e := by
  constructor
  · intro hsafe
    cases e with
    | constructCopy garbage lhs => exact h.constructCopy_guarded possible hsafe
    | assignCopy garbage this lhs => exact h.assignCopy_guarded possible hsafe
    | assignMove this rhs => exact assignMove_guarded possible hsafe
    | construct _ | constructCString _ _ | constructBytes _ _ | constructMove _ | destruct _ =>
      exact trivial
  · intro hguard
    obtain ⟨s', hstep, -, hvalued⟩ := h.step possible hguard
    rw [Safe, hstep]
    exact .ok hvalued

/-- **Value semantics.** -/
theorem values_iff {es : List StringEvent} (legal : system.Legal initial es) :
    (∀ p ∈ system.steps initial es, p.1.Safe p.2) ↔
      ∀ p ∈ system.steps initial es, p.1.Guarded p.2 := by
  refine system.forall_steps_iff Inv Guarded Safe ?_ (fun _ _ hinv possible => hinv.safe_iff possible)
    initial_inv legal
  intro s e s' hinv possible hguard hstep
  obtain ⟨t, ht, hinv', -⟩ := hinv.step possible hguard
  cases ht.symm.trans hstep
  exact hinv'

theorem values_iff_copies :
    system.Legal initial [.constructBytes (fun _ => 1) [97, 0], .constructCopy (fun _ => 2) 0,
        .constructMove 0, .assignCopy (fun _ => 3) 1 2, .destruct 0] ∧
      ((∀ p ∈ system.steps initial [.constructBytes (fun _ => 1) [97, 0],
            .constructCopy (fun _ => 2) 0, .constructMove 0, .assignCopy (fun _ => 3) 1 2,
            .destruct 0], p.1.Safe p.2) ↔
        ∀ p ∈ system.steps initial [.constructBytes (fun _ => 1) [97, 0],
            .constructCopy (fun _ => 2) 0, .constructMove 0, .assignCopy (fun _ => 3) 1 2,
            .destruct 0], p.1.Guarded p.2) := by
  have legal : system.Legal initial [.constructBytes (fun _ => 1) [97, 0],
      .constructCopy (fun _ => 2) 0, .constructMove 0, .assignCopy (fun _ => 3) 1 2,
      .destruct 0] := by decide
  exact ⟨legal, values_iff legal⟩

/-- A copy of three bytes with a zero byte in the middle. -/
theorem not_values_copy :
    system.Legal initial [.constructBytes (fun _ => 0) [97, 0, 98],
        .constructCopy (fun _ => 0) 0] ∧
      ¬ ∀ p ∈ system.steps initial [.constructBytes (fun _ => 0) [97, 0, 98],
        .constructCopy (fun _ => 0) 0], p.1.Safe p.2 := by
  refine ⟨by decide, fun hsafe => ?_⟩
  have hmade : system.step initial (.constructBytes (fun _ => 0) [97, 0, 98]) =
      .ok (initial.added [97, 0, 98]) := constructBytes_eq initial _ _
  rw [system.steps_cons_ok _ hmade, system.steps_singleton] at hsafe
  have hinv := initial_inv.added [97, 0, 98]
  have halive : (initial.added [97, 0, 98]).Alive 0 := rfl
  obtain ⟨p, bytes, hk, hp, hagrees⟩ := hinv.constructCopy_guarded halive
    (hsafe _ (List.mem_cons_of_mem _ (List.mem_singleton_self _)))
  obtain ⟨hdata, -⟩ := WsString.mk.inj (Option.some.inj hk)
  cases hdata
  obtain rfl : bytes = [97, 0, 98] := (List.append_cancel_right (Option.some.inj hp)).symm
  revert hagrees
  decide

end Strings
end WsEngine
