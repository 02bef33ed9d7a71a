import Mathlib.Data.List.Basic
import Mathlib.Tactic.Common

/-! # Early exits and functions that call themselves last

A computation with early exits is an `Except`. `Except.both` carries one along an abstraction of its
states, `Except.Ends` says what holds of both ways it can end, and `Except.Related` that two end alike,
with a rule for each way in which computations are put together.

One activation of a function that calls itself last ends in one of three ways: it returns, it calls
itself, or an assertion in it fails. `iterate` makes up to `n` activations, so a result that is
still `again` says that `n` were not enough. A function that shrinks a measure with every call it
makes ends within the measure (`iterate_ends`), and an activation by activation simulation is one
of the iterations (`iterate_map`). `Call.Related` says of two calls that they end alike. -/
set_option autoImplicit false

namespace Except

variable {ε ε' α α' β β' : Type}

def both (f : ε → ε') (g : α → α') : Except ε α → Except ε' α'
  | error e => error (f e)
  | ok a => ok (g a)

@[simp] theorem both_ok (f : ε → ε') (g : α → α') (a : α) : (ok a).both f g = ok (g a) := rfl

@[simp] theorem both_error (f : ε → ε') (g : α → α') (e : ε) :
    (error e : Except ε α).both f g = error (f e) := rfl

theorem both_ite {c c' : Prop} [Decidable c] [Decidable c'] {f : ε → ε'} {g : α → α'}
    {x y : Except ε α} {x' y' : Except ε' α'} (hc : c ↔ c') (hx : x.both f g = x')
    (hy : y.both f g = y') : (if c then x else y).both f g = if c' then x' else y' := by
  by_cases h : c
  · rw [if_pos h, if_pos (hc.mp h), hx]
  · rw [if_neg h, if_neg (fun h' => h (hc.mpr h')), hy]

theorem both_bind {f : ε → ε'} {g : α → α'} {h : β → β'} {x : Except ε α} {x' : Except ε' α'}
    {k : α → Except ε β} {k' : α' → Except ε' β'} (hx : x.both f g = x')
    (hk : ∀ a, x = ok a → (k a).both f h = k' (g a)) : (x >>= k).both f h = x' >>= k' := by
  cases x with
  | error e =>
    rw [← hx]
    rfl
  | ok a =>
    rw [← hx]
    exact hk a rfl

theorem bind_eq_ok {x : Except ε α} {k : α → Except ε β} {b : β} :
    x >>= k = ok b ↔ ∃ a, x = ok a ∧ k a = ok b := by
  cases x with
  | error e =>
    constructor
    · intro h
      cases h
    · rintro ⟨a, ha, -⟩
      cases ha
  | ok a =>
    constructor
    · intro h
      exact ⟨a, rfl, h⟩
    · rintro ⟨a', ha, h⟩
      cases ha
      exact h

theorem map_eq_ok {x : Except ε α} {g : α → β} {b : β} :
    x.map g = ok b ↔ ∃ a, x = ok a ∧ g a = b := by
  cases x <;> simp [Except.map]

theorem mapError_eq_ok {x : Except ε α} {f : ε → ε'} {a : α} :
    x.mapError f = ok a ↔ x = ok a := by
  cases x <;> simp [Except.mapError]

/-- A result is as `P` says and an error as `Q` says. -/
inductive Ends (P : α → Prop) (Q : ε → Prop) : Except ε α → Prop
  | ok {a : α} (h : P a) : Ends P Q (.ok a)
  | error {e : ε} (h : Q e) : Ends P Q (.error e)

@[simp] theorem ends_ok {P : α → Prop} {Q : ε → Prop} {a : α} :
    (ok a : Except ε α).Ends P Q ↔ P a := by
  constructor
  · intro h
    cases h with
    | ok h => exact h
  · exact .ok

@[simp] theorem ends_error {P : α → Prop} {Q : ε → Prop} {e : ε} :
    (error e : Except ε α).Ends P Q ↔ Q e := by
  constructor
  · intro h
    cases h with
    | error h => exact h
  · exact .error

instance decidableEnds {P : α → Prop} {Q : ε → Prop} [DecidablePred P] [DecidablePred Q] :
    (x : Except ε α) → Decidable (x.Ends P Q)
  | ok a => decidable_of_iff (P a) ends_ok.symm
  | error e => decidable_of_iff (Q e) ends_error.symm

theorem Ends.mono {P P' : α → Prop} {Q Q' : ε → Prop} {x : Except ε α} (h : x.Ends P Q)
    (hP : ∀ a, P a → P' a) (hQ : ∀ e, Q e → Q' e) : x.Ends P' Q' := by
  cases h with
  | ok h => exact .ok (hP _ h)
  | error h => exact .error (hQ _ h)

theorem Ends.of_ok {P : α → Prop} {Q : ε → Prop} {x : Except ε α} (hP : ∀ a, x = .ok a → P a)
    (hQ : ∀ e, Q e) : x.Ends P Q := by
  cases x with
  | error e => exact .error (hQ e)
  | ok a => exact .ok (hP a rfl)

theorem Ends.exists_ok {P : α → Prop} {x : Except ε α} (h : x.Ends P fun _ => False) :
    ∃ a, x = .ok a ∧ P a := by
  cases h with
  | ok h => exact ⟨_, rfl, h⟩
  | error h => exact h.elim

theorem Ends.any (x : Except ε α) : x.Ends (fun _ => True) fun _ => True :=
  .of_ok (fun _ _ => trivial) fun _ => trivial

theorem Ends.bind {P : α → Prop} {P' : β → Prop} {Q : ε → Prop} {x : Except ε α}
    {k : α → Except ε β} (hx : x.Ends P Q) (hk : ∀ a, P a → (k a).Ends P' Q) :
    (x >>= k).Ends P' Q := by
  cases hx with
  | ok h => exact hk _ h
  | error h => exact .error h

theorem Ends.mapError {P : α → Prop} {Q : ε → Prop} {Q' : ε' → Prop} {f : ε → ε'}
    {x : Except ε α} (hx : x.Ends P Q) (hf : ∀ e, Q e → Q' (f e)) : (x.mapError f).Ends P Q' := by
  cases hx with
  | ok h => exact .ok h
  | error h => exact .error (hf _ h)

/-- Both end in the same way, with results that `R` relates or errors that `E` relates. -/
inductive Related (E : ε → ε' → Prop) (R : α → α' → Prop) : Except ε α → Except ε' α' → Prop
  | ok {a : α} {a' : α'} (h : R a a') : Related E R (.ok a) (.ok a')
  | error {e : ε} {e' : ε'} (h : E e e') : Related E R (.error e) (.error e')

theorem Related.mono {E F : ε → ε' → Prop} {R S : α → α' → Prop} {x : Except ε α}
    {x' : Except ε' α'} (hx : x.Related E R x') (hR : ∀ a a', R a a' → S a a')
    (hE : ∀ e e', E e e' → F e e') : x.Related F S x' := by
  cases hx with
  | ok h => exact .ok (hR _ _ h)
  | error h => exact .error (hE _ _ h)

theorem Related.bind {E : ε → ε' → Prop} {R : α → α' → Prop} {S : β → β' → Prop} {x : Except ε α}
    {x' : Except ε' α'} {k : α → Except ε β} {k' : α' → Except ε' β'} (hx : x.Related E R x')
    (hk : ∀ a a', x = .ok a → R a a' → (k a).Related E S (k' a')) :
    (x >>= k).Related E S (x' >>= k') := by
  cases hx with
  | ok h => exact hk _ _ rfl h
  | error h => exact .error h

theorem Related.ite {c c' : Prop} [Decidable c] [Decidable c'] {E : ε → ε' → Prop}
    {R : α → α' → Prop} {x y : Except ε α} {x' y' : Except ε' α'} (hc : c ↔ c')
    (hx : c → x.Related E R x') (hy : ¬ c → y.Related E R y') :
    (if c then x else y).Related E R (if c' then x' else y') := by
  by_cases h : c
  · rw [if_pos h, if_pos (hc.mp h)]
    exact hx h
  · rw [if_neg h, if_neg (mt hc.mpr h)]
    exact hy h

theorem Related.map {E : ε → ε' → Prop} {R : α → α' → Prop} {S : β → β' → Prop} {x : Except ε α}
    {x' : Except ε' α'} {g : α → β} {g' : α' → β'} (hx : x.Related E R x')
    (hg : ∀ a a', R a a' → S (g a) (g' a')) : (x.map g).Related E S (x'.map g') := by
  cases hx with
  | ok h => exact .ok (hg _ _ h)
  | error h => exact .error h

theorem Related.of_ok {E : ε → ε' → Prop} {R : α → α' → Prop} {x : Except ε α} {x' : Except ε' α'}
    (hx : x.Related E R x') {a : α} (h : x = .ok a) : ∃ a', x' = .ok a' ∧ R a a' := by
  rw [h] at hx
  cases hx with
  | ok hr => exact ⟨_, rfl, hr⟩

theorem Related.mapError {δ δ' : Type} {E : ε → ε' → Prop} {D : δ → δ' → Prop} {R : α → α' → Prop}
    {x : Except ε α} {x' : Except ε' α'} {f : ε → δ} {f' : ε' → δ'} (hx : x.Related E R x')
    (hf : ∀ e e', E e e' → D (f e) (f' e')) : (x.mapError f).Related D R (x'.mapError f') := by
  cases hx with
  | ok h => exact .ok h
  | error h => exact .error (hf _ _ h)

end Except

inductive Call (σ : Type)
  | returned (s : σ)
  | again (s : σ)
  | aborted (s : σ)

namespace Call

variable {σ τ : Type}

def state : Call σ → σ
  | returned s | again s | aborted s => s

def isAgain : Call σ → Bool
  | again _ => true
  | returned _ | aborted _ => false

def map (g : σ → τ) : Call σ → Call τ
  | returned s => returned (g s)
  | again s => again (g s)
  | aborted s => aborted (g s)

def andThen (r : Call σ) (next : σ → Call σ) : Call σ :=
  match r with
  | returned s => next s
  | again s => again s
  | aborted s => aborted s

theorem returned_ne_again {s t : σ} : returned s ≠ again t := by
  intro h
  cases h

theorem aborted_ne_again {s t : σ} : aborted s ≠ again t := by
  intro h
  cases h

@[simp] theorem state_map (g : σ → τ) (r : Call σ) : (r.map g).state = g r.state := by
  cases r <;> rfl

theorem map_eq_returned {g : σ → τ} {r : Call σ} {t : τ} (h : r.map g = returned t) :
    ∃ s, r = returned s ∧ g s = t := by
  cases r with
  | returned s => exact ⟨s, rfl, returned.inj h⟩
  | again s => cases h
  | aborted s => cases h

@[simp] theorem returned_andThen (s : σ) (next : σ → Call σ) :
    (returned s).andThen next = next s := rfl

/-- However a stage of an activation ends, `R` relates `s` to the state that it leaves. -/
def Leaves {α : Type} (R : σ → σ → Prop) (s : σ) (state : α → σ) (r : Except (Call σ) α) : Prop :=
  r.Ends (fun a => R s (state a)) fun ended => R s ended.state

theorem Leaves.bind {α β : Type} {R : σ → σ → Prop} {s : σ} {state : α → σ} {state' : β → σ}
    {r : Except (Call σ) α} {k : α → Except (Call σ) β}
    (trans : ∀ s t u, R s t → R t u → R s u) (h : Leaves R s state r)
    (hk : ∀ a, Leaves R (state a) state' (k a)) : Leaves R s state' (r >>= k) := by
  apply Except.Ends.bind h
  intro a ha
  exact (hk a).mono (fun b hb => trans _ _ _ ha hb) fun ended he => trans _ _ _ ha he

/-- Both end in the same way, in states that `R` relates, or that `A` relates when they abort. -/
inductive Related (R A : σ → τ → Prop) : Call σ → Call τ → Prop
  | returned {s : σ} {t : τ} (h : R s t) : Related R A (.returned s) (.returned t)
  | again {s : σ} {t : τ} (h : R s t) : Related R A (.again s) (.again t)
  | aborted {s : σ} {t : τ} (h : A s t) : Related R A (.aborted s) (.aborted t)

variable (f : σ → Call σ)

/-- Up to `n` activations from `s`. -/
def iterate : ℕ → σ → Call σ
  | 0, s => again s
  | n + 1, s =>
    match f s with
    | again s' => iterate n s'
    | returned s' => returned s'
    | aborted s' => aborted s'

variable {f}

theorem iterate_again {s s' : σ} (n : ℕ) (h : f s = again s') :
    iterate f (n + 1) s = iterate f n s' := by
  simp only [iterate, h]

theorem iterate_returned {s s' : σ} (n : ℕ) (h : f s = returned s') :
    iterate f (n + 1) s = returned s' := by
  simp only [iterate, h]

theorem iterate_aborted {s s' : σ} (n : ℕ) (h : f s = aborted s') :
    iterate f (n + 1) s = aborted s' := by
  simp only [iterate, h]

/-- **Simulation.** -/
theorem iterate_map {f' : τ → Call τ} (g : σ → τ) (h : ∀ s, (f s).map g = f' (g s)) (n : ℕ)
    (s : σ) : (iterate f n s).map g = iterate f' n (g s) := by
  induction n generalizing s with
  | zero => rfl
  | succ n ih =>
    have hs := h s
    cases hf : f s with
    | again s' =>
      rw [hf] at hs
      rw [iterate_again n hf, iterate_again n hs.symm, ih]
    | returned s' =>
      rw [hf] at hs
      rw [iterate_returned n hf, iterate_returned n hs.symm]
      rfl
    | aborted s' =>
      rw [hf] at hs
      rw [iterate_aborted n hf, iterate_aborted n hs.symm]
      rfl

theorem iterate_rel (R : σ → σ → Prop) (refl : ∀ s, R s s) (trans : ∀ s t u, R s t → R t u → R s u)
    (step : ∀ s, R s (f s).state) (n : ℕ) (s : σ) : R s (iterate f n s).state := by
  induction n generalizing s with
  | zero => exact refl s
  | succ n ih =>
    have hs := step s
    cases hf : f s with
    | again s' =>
      rw [hf] at hs
      rw [iterate_again n hf]
      exact trans s s' _ hs (ih s')
    | returned s' =>
      rw [hf] at hs
      rwa [iterate_returned n hf]
    | aborted s' =>
      rw [hf] at hs
      rwa [iterate_aborted n hf]

theorem iterate_rel_first (R : σ → σ → Prop) (refl : ∀ s, R s s)
    (trans : ∀ s t u, R s t → R t u → R s u) (step : ∀ s, R s (f s).state) {n : ℕ} (hn : 0 < n)
    (s : σ) : R (f s).state (iterate f n s).state := by
  obtain ⟨n, rfl⟩ := Nat.exists_eq_succ_of_ne_zero (Nat.pos_iff_ne_zero.mp hn)
  cases hf : f s with
  | again s' =>
    rw [iterate_again n hf]
    exact iterate_rel R refl trans step n s'
  | returned s' =>
    rw [iterate_returned n hf]
    exact refl s'
  | aborted s' =>
    rw [iterate_aborted n hf]
    exact refl s'

/-- **Termination.** -/
theorem iterate_ends (Inv : σ → Prop) (measure : σ → ℕ)
    (shrink : ∀ s s', Inv s → f s = again s' → Inv s' ∧ measure s' < measure s) {n : ℕ} {s : σ}
    (hs : Inv s) (hn : measure s < n) : ∀ t, iterate f n s ≠ again t := by
  induction n generalizing s with
  | zero => omega
  | succ n ih =>
    intro t
    cases hf : f s with
    | again s' =>
      obtain ⟨hs', hm⟩ := shrink s s' hs hf
      rw [iterate_again n hf]
      exact ih hs' (by omega) t
    | returned s' =>
      rw [iterate_returned n hf]
      exact nofun
    | aborted s' =>
      rw [iterate_aborted n hf]
      exact nofun

end Call
