import Mathlib.Algebra.Order.Group.Int
import Mathlib.Algebra.Ring.Nat

/-! # Machine words

What an `int` of 32 bits, an `ssize_t` and a `size_t` of 64 bits make of a number that is stored in
them. Each keeps a number that it has room for, and any other one modulo its size. -/
set_option autoImplicit false

namespace Words

def int (x : ℤ) : ℤ := (x + 2 ^ 31) % 2 ^ 32 - 2 ^ 31
def ssize_t (x : ℤ) : ℤ := (x + 2 ^ 63) % 2 ^ 64 - 2 ^ 63
def size_t (x : ℤ) : ℕ := (x % 2 ^ 64).toNat

theorem int_eq {x : ℤ} (h : 0 ≤ x ∧ x < 2 ^ 31) : int x = x := by
  unfold int
  omega

theorem ssize_t_eq {x : ℤ} (h : -2 ^ 63 ≤ x ∧ x < 2 ^ 63) : ssize_t x = x := by
  unfold ssize_t
  omega

end Words
