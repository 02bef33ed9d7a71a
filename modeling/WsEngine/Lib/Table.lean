import Mathlib.Data.List.Basic
import Mathlib.Tactic.Common

/-! # Tables whose places are never used again

What is added to a table gets the place behind all others, and the place of what is removed stays
empty. So a place stands for one thing all the time, and one that is empty is told from one that was
taken again. `get_push`, `get_put` and `get_remove` say what is found after each operation. -/
set_option autoImplicit false

/-- At each place what is there, or nothing any more. -/
structure Table (α : Type) where
  entries : List (Option α)

namespace Table

variable {α : Type}

def empty : Table α := ⟨[]⟩

/-- The place that is taken next. -/
def size (t : Table α) : ℕ := t.entries.length

def get (t : Table α) (k : ℕ) : Option α := t.entries[k]?.join

def push (t : Table α) (a : α) : Table α := ⟨t.entries ++ [some a]⟩

def put (t : Table α) (k : ℕ) (a : α) : Table α := ⟨t.entries.set k (some a)⟩

def remove (t : Table α) (k : ℕ) : Table α := ⟨t.entries.set k none⟩

@[simp] theorem get_empty (k : ℕ) : (empty : Table α).get k = none := by
  rw [get, empty, List.getElem?_nil]
  rfl

theorem lt_size {t : Table α} {k : ℕ} {a : α} (h : t.get k = some a) : k < t.size := by
  by_contra hk
  rw [get, List.getElem?_eq_none (Nat.le_of_not_lt hk)] at h
  cases h

theorem ne_size {t : Table α} {k : ℕ} {a : α} (h : t.get k = some a) : k ≠ t.size :=
  Nat.ne_of_lt (lt_size h)

@[simp] theorem size_put (t : Table α) (k : ℕ) (a : α) : (t.put k a).size = t.size :=
  List.length_set

@[simp] theorem size_remove (t : Table α) (k : ℕ) : (t.remove k).size = t.size :=
  List.length_set

@[simp] theorem get_push_size (t : Table α) (a : α) : (t.push a).get t.size = some a := by
  rw [get, push, size, List.getElem?_concat_length]
  rfl

theorem get_push {t : Table α} {k : ℕ} (a : α) (hk : k ≠ t.size) : (t.push a).get k = t.get k := by
  rw [get, get, push]
  rcases Nat.lt_or_gt_of_ne hk with hlt | hgt
  · rw [List.getElem?_append_left hlt]
  · have hlen : (t.entries ++ [some a]).length ≤ k := by
      rw [List.length_append]
      exact hgt
    rw [List.getElem?_eq_none hlen, List.getElem?_eq_none (Nat.le_of_lt hgt)]

theorem get_push_some {t : Table α} {k : ℕ} {b : α} (a : α) (h : t.get k = some b) :
    (t.push a).get k = some b := by
  rw [get_push a (ne_size h), h]

/-- What is found is there already, or is what was added. -/
theorem of_get_push {t : Table α} {k : ℕ} {a b : α} (h : (t.push a).get k = some b) :
    t.get k = some b ∨ k = t.size ∧ b = a := by
  by_cases hk : k = t.size
  · rw [hk, get_push_size] at h
    exact .inr ⟨hk, (Option.some.inj h).symm⟩
  · rw [get_push a hk] at h
    exact .inl h

@[simp] theorem get_put_self {t : Table α} {k : ℕ} (a : α) (hk : k < t.size) :
    (t.put k a).get k = some a := by
  rw [get, put, List.getElem?_set_self hk]
  rfl

theorem get_put {t : Table α} {j k : ℕ} (a : α) (hj : j ≠ k) : (t.put k a).get j = t.get j := by
  rw [get, get, put, List.getElem?_set_ne hj.symm]

theorem get_remove {t : Table α} {j k : ℕ} (hj : j ≠ k) : (t.remove k).get j = t.get j := by
  rw [get, get, remove, List.getElem?_set_ne hj.symm]

@[simp] theorem get_remove_self (t : Table α) (k : ℕ) : (t.remove k).get k = none := by
  rw [get, remove]
  rcases Nat.lt_or_ge k t.size with hlt | hge
  · rw [List.getElem?_set_self hlt]
    rfl
  · rw [List.getElem?_eq_none (by rwa [List.length_set])]
    rfl

@[simp] theorem put_put (t : Table α) (k : ℕ) (a b : α) : (t.put k a).put k b = t.put k b := by
  rw [put, put, put, List.set_set]

/-- What was just added and is overwritten was added so. -/
theorem push_put_size (t : Table α) (a b : α) : (t.push a).put t.size b = t.push b := by
  rw [push, put, push, size, List.set_append_right _ _ (Nat.le_refl _), Nat.sub_self]
  rfl

end Table
