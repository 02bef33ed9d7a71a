import Mathlib.Logic.Function.Basic
import WsEngine.Lib.EventSystem

/-! # Systems side by side

Any number of systems of one kind, each with a state of its own, as one system: an event is an event of
one of them. What a run does to each of them is what its own events do to it alone, wherever the
events of the others stand in between (`product_run`). -/
set_option autoImplicit false

namespace EventSystem

variable {ι σ ε φ : Type} [DecidableEq ι] (M : EventSystem σ ε φ)

def product : EventSystem (ι → σ) (ι × ε) φ where
  enabled s e := M.enabled (s e.1) e.2
  step s e := (M.step (s e.1) e.2).map (Function.update s e.1)

/-- The events of one of the systems. -/
def share (i : ι) : List (ι × ε) → List ε
  | [] => []
  | e :: es => if e.1 = i then e.2 :: share i es else share i es

@[simp] theorem share_nil (i : ι) : share i ([] : List (ι × ε)) = [] := rfl

theorem share_cons_self (e : ι × ε) (es : List (ι × ε)) :
    share e.1 (e :: es) = e.2 :: share e.1 es := if_pos rfl

theorem share_cons_ne {i : ι} {e : ι × ε} (es : List (ι × ε)) (h : e.1 ≠ i) :
    share i (e :: es) = share i es := if_neg h

theorem product_step_ok {s : ι → σ} {e : ι × ε} {t : σ} (h : M.step (s e.1) e.2 = .ok t) :
    (M.product).step s e = .ok (Function.update s e.1 t) := by
  simp [product, h, Except.map]

theorem product_step_error {s : ι → σ} {e : ι × ε} {f : φ} (h : M.step (s e.1) e.2 = .error f) :
    (M.product).step s e = .error f := by
  simp [product, h, Except.map]

/-- **Projection rule.** A run of all is a run of each over its own events, and fails where one does. -/
theorem product_run (s : ι → σ) (es : List (ι × ε)) :
    (M.product.run s es).Ends (fun t => ∀ i, M.run (s i) (share i es) = .ok (t i))
      fun f => ∃ i, M.run (s i) (share i es) = .error f := by
  induction es generalizing s with
  | nil => exact .ok fun i => rfl
  | cons e es ih =>
    cases hstep : M.step (s e.1) e.2 with
    | error f =>
      have hproduct : M.product.step s e = .error f := M.product_step_error hstep
      simp only [run, hproduct]
      refine .error ⟨e.1, ?_⟩
      simp [share_cons_self, run, hstep]
    | ok t =>
      rw [M.product.run_cons_ok es (M.product_step_ok hstep)]
      have hshare (i : ι) : M.run (s i) (share i (e :: es)) =
          M.run (Function.update s e.1 t i) (share i es) := by
        by_cases hi : e.1 = i
        · subst hi
          rw [share_cons_self, M.run_cons_ok _ hstep, Function.update_self]
        · rw [share_cons_ne es hi, Function.update_of_ne (Ne.symm hi)]
      apply (ih (Function.update s e.1 t)).mono
      · intro u hu i
        rw [hshare, hu]
      · rintro f ⟨i, hf⟩
        exact ⟨i, (hshare i).trans hf⟩

end EventSystem
