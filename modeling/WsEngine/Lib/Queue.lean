import WsEngine.Lib.Window

/-! # A queue whose reader may step back

A queue together with what was taken from it since anything else was done with it, which its reader
may still put back. A memory holds such a queue between two indices: the content from the first to
the second, and what was taken right before the first, so that taking and putting back move the
first index and leave the memory alone. -/
set_option autoImplicit false

structure Queue (α : Type) where
  content : List α
  taken : List α

namespace Queue
open Window

variable {α : Type}

def empty : Queue α := ⟨[], []⟩

def push (q : Queue α) (items : List α) : Queue α := ⟨q.content ++ items, []⟩

def pop (q : Queue α) (n : ℕ) : Queue α := ⟨q.content.drop n, q.taken ++ q.content.take n⟩

/-- The last `n` of the items that were taken are put back. -/
def unpop (q : Queue α) (n : ℕ) : Queue α :=
  ⟨q.taken.drop (q.taken.length - n) ++ q.content, q.taken.take (q.taken.length - n)⟩

/-- Only the first `n` items stay. -/
def keep (q : Queue α) (n : ℕ) : Queue α := ⟨q.content.take n, []⟩

/-! ## Queues in a memory -/

structure Holds (q : Queue α) (mem : List α) (r w : ℕ) : Prop where
  order : r ≤ w
  bound : w ≤ mem.length
  content : window r (w - r) mem = q.content
  before : q.taken.length ≤ r
  taken : window (r - q.taken.length) q.taken.length mem = q.taken

theorem Holds.length {q : Queue α} {mem : List α} {r w : ℕ} (h : q.Holds mem r w) :
    q.content.length = w - r := by
  have h1 := h.order
  have h2 := h.bound
  rw [← h.content, length_window]
  omega

/-- Nothing was taken since. -/
theorem Holds.of_content {q : Queue α} {mem : List α} {r w : ℕ} (order : r ≤ w)
    (bound : w ≤ mem.length) (content : window r (w - r) mem = q.content) (taken : q.taken = []) :
    q.Holds mem r w where
  order := order
  bound := bound
  content := content
  before := by simp [taken]
  taken := by simp [taken]

theorem Holds.pop {q : Queue α} {mem : List α} {r w n : ℕ} (h : q.Holds mem r w)
    (hn : n ≤ q.content.length) : (q.pop n).Holds mem (r + n) w := by
  have hlen := h.length
  have h1 := h.order
  have h2 := h.before
  have htaken : (q.pop n).taken.length = q.taken.length + n := by
    simp only [Queue.pop, List.length_append, List.length_take]
    omega
  constructor
  · omega
  · exact h.bound
  · simp only [Queue.pop, ← h.content, drop_window]
    congr 1
    omega
  · omega
  · have hstart : r + n - (q.taken.length + n) = r - q.taken.length := by omega
    rw [htaken, hstart, window_add]
    simp only [Queue.pop, h.taken, ← h.content]
    rw [show r - q.taken.length + q.taken.length = r by omega, take_window _ _ _ _ (by omega)]

theorem Holds.unpop {q : Queue α} {mem : List α} {r w n : ℕ} (h : q.Holds mem r w)
    (hn : n ≤ q.taken.length) : (q.unpop n).Holds mem (r - n) w := by
  have h1 := h.order
  have h2 := h.before
  have htaken : (q.unpop n).taken.length = q.taken.length - n := by
    simp only [Queue.unpop, List.length_take]
    omega
  have hback : q.taken.drop (q.taken.length - n) = window (r - n) n mem := by
    rw [← h.taken, length_window, drop_window]
    have hb := h.bound
    congr 1
    · omega
    · omega
  constructor
  · omega
  · exact h.bound
  · have hsplit : w - (r - n) = n + (w - r) := by omega
    rw [hsplit, window_add, show r - n + n = r by omega, h.content, ← hback]
    rfl
  · omega
  · have hstart : r - n - (q.taken.length - n) = r - q.taken.length := by omega
    have hfront := take_window (r - q.taken.length) q.taken.length (q.taken.length - n) mem (by omega)
    rw [h.taken] at hfront
    rw [htaken, hstart]
    exact hfront.symm

end Queue
