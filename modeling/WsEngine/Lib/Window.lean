import Mathlib.Data.List.Basic
import Mathlib.Tactic.Common

/-! # Windows of a memory

A memory is a list of cells. `window` is the part of it at an offset, `overwrite` stores cells at
an offset. Cell by cell (`getElem?_window`, `getElem?_overwrite`) everything else follows: what a
store leaves alone, what it puts where it stores, and what growing the memory at its end keeps. -/
set_option autoImplicit false

namespace Window

variable {α : Type}

/-- The `len` cells at offset `off`. -/
def window (off len : ℕ) (mem : List α) : List α := (mem.drop off).take len

/-- The memory after storing `cells` at offset `off`. -/
def overwrite (mem : List α) (off : ℕ) (cells : List α) : List α :=
  mem.take off ++ cells ++ mem.drop (off + cells.length)

theorem getElem?_window (off len : ℕ) (mem : List α) (i : ℕ) :
    (window off len mem)[i]? = if i < len then mem[off + i]? else none := by
  unfold window
  split
  · next h => rw [List.getElem?_take_of_lt h, List.getElem?_drop]
  · next h => exact List.getElem?_take_eq_none (by omega)

theorem getElem?_overwrite {mem : List α} {off : ℕ} (cells : List α) (h : off ≤ mem.length) (i : ℕ) :
    (overwrite mem off cells)[i]? =
      if off ≤ i ∧ i < off + cells.length then cells[i - off]? else mem[i]? := by
  have htake : (mem.take off).length = off := by
    rw [List.length_take]
    omega
  unfold overwrite
  rw [List.append_assoc]
  by_cases h1 : i < off
  · rw [List.getElem?_append_left (by omega), List.getElem?_take_of_lt h1, if_neg (by omega)]
  · rw [List.getElem?_append_right (by omega), htake]
    by_cases h2 : i < off + cells.length
    · rw [List.getElem?_append_left (by omega), if_pos (by omega)]
    · rw [List.getElem?_append_right (by omega), List.getElem?_drop, if_neg (by omega)]
      congr 1
      omega

@[simp] theorem length_window (off len : ℕ) (mem : List α) :
    (window off len mem).length = min len (mem.length - off) := by
  rw [window, List.length_take, List.length_drop]

theorem length_overwrite {mem : List α} {off : ℕ} {cells : List α}
    (h : off + cells.length ≤ mem.length) : (overwrite mem off cells).length = mem.length := by
  simp only [overwrite, List.length_append, List.length_take, List.length_drop]
  omega

@[simp] theorem window_zero (off : ℕ) (mem : List α) : window off 0 mem = [] := by
  rw [window, List.take_zero]

/-- A store leaves a window alone that it does not meet. -/
theorem window_overwrite_of_disjoint {mem : List α} {off o len : ℕ} {cells : List α}
    (h : off ≤ mem.length) (hd : o + len ≤ off ∨ off + cells.length ≤ o) :
    window o len (overwrite mem off cells) = window o len mem := by
  apply List.ext_getElem?
  intro i
  rw [getElem?_window, getElem?_window]
  split
  · rw [getElem?_overwrite cells h, if_neg (by omega)]
  · rfl

theorem window_overwrite_extend {mem : List α} {off len : ℕ} {cells : List α}
    (h : off + len ≤ mem.length) :
    window off (len + cells.length) (overwrite mem (off + len) cells) =
      window off len mem ++ cells := by
  have hlen : (window off len mem).length = len := by
    rw [length_window]
    omega
  apply List.ext_getElem?
  intro i
  rw [getElem?_window, getElem?_overwrite cells h]
  by_cases h1 : i < len
  · rw [List.getElem?_append_left (by omega), getElem?_window, if_pos (by omega), if_neg (by omega),
      if_pos h1]
  · rw [List.getElem?_append_right (by omega), hlen]
    by_cases h2 : i < len + cells.length
    · rw [if_pos h2, if_pos (by omega)]
      congr 1
      omega
    · rw [if_neg h2, List.getElem?_eq_none (by omega)]

theorem window_append {mem : List α} {off len : ℕ} (more : List α) (h : off + len ≤ mem.length) :
    window off len (mem ++ more) = window off len mem := by
  apply List.ext_getElem?
  intro i
  rw [getElem?_window, getElem?_window]
  split
  · rw [List.getElem?_append_left (by omega)]
  · rfl

theorem window_append_left (front back : List α) :
    window 0 front.length (front ++ back) = front := by
  rw [window, List.drop_zero, List.take_left]

theorem take_window (off len n : ℕ) (mem : List α) (h : n ≤ len) :
    (window off len mem).take n = window off n mem := by
  rw [window, List.take_take, Nat.min_eq_left h, window]

theorem drop_window (off len n : ℕ) (mem : List α) :
    (window off len mem).drop n = window (off + n) (len - n) mem := by
  rw [window, List.drop_take, List.drop_drop, window]

theorem window_add (off m n : ℕ) (mem : List α) :
    window off (m + n) mem = window off m mem ++ window (off + m) n mem := by
  simp only [window, List.take_add, List.drop_drop]

end Window
