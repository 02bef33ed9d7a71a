import Mathlib.Data.List.Rotate

/-! # A cursor that goes round a list

The cursor moves one place on with every turn, and from the last place to the first. As many turns as
the list is long, from whichever place on, take each place once: they take a rotation of the list
(`turns_length`). -/
set_option autoImplicit false

namespace RoundRobin

variable {α : Type}

/-- The place after `k` of `n` places. -/
def next (n k : ℕ) : ℕ := if k + 1 = n then 0 else k + 1

theorem next_lt {n k : ℕ} (h : k < n) : next n k < n := by
  unfold next
  split
  · exact Nat.zero_lt_of_lt h
  · omega

theorem next_eq_mod {n k : ℕ} (h : k < n) : next n k = (k + 1) % n := by
  unfold next
  by_cases hlast : k + 1 = n
  · rw [if_pos hlast, hlast, Nat.mod_self]
  · rw [if_neg hlast, Nat.mod_eq_of_lt (by omega)]

/-- What `m` turns take, the first of them at the place `k`. -/
def turns (l : List α) : ℕ → ℕ → List α
  | 0, _ => []
  | m + 1, k => l[k]?.toList ++ turns l m (next l.length k)

theorem rotate_cons {l : List α} {k : ℕ} (h : k < l.length) :
    ∃ others, l.rotate k = l[k] :: others ∧ l.rotate (k + 1) = others ++ [l[k]] := by
  have hcons : l.rotate k = l[k] :: (l.drop (k + 1) ++ l.take k) := by
    rw [List.rotate_eq_drop_append_take (Nat.le_of_lt h), List.drop_eq_getElem_cons h,
      List.cons_append]
  refine ⟨_, hcons, ?_⟩
  rw [← List.rotate_rotate, hcons, List.rotate_cons_succ, List.rotate_zero]

theorem turns_eq {l : List α} {m k : ℕ} (hk : k < l.length) (hm : m ≤ l.length) :
    turns l m k = (l.rotate k).take m := by
  induction m generalizing k with
  | zero => rfl
  | succ m ih =>
    obtain ⟨others, hcons, hmoved⟩ := rotate_cons hk
    have hnext : l.rotate (next l.length k) = others ++ [l[k]] := by
      rw [next_eq_mod hk, List.rotate_mod, hmoved]
    have hlength : others.length + 1 = l.length := by
      rw [← l.length_rotate k, hcons, List.length_cons]
    rw [turns, ih (next_lt hk) (Nat.le_of_succ_le hm), hnext, hcons, List.getElem?_eq_getElem hk,
      List.take_append_of_le_length (by omega)]
    rfl

/-- **A full round.** -/
theorem turns_length {l : List α} {k : ℕ} (h : k < l.length) : turns l l.length k = l.rotate k := by
  rw [turns_eq h (le_refl _), ← l.length_rotate k, List.take_length]

end RoundRobin
