import Mathlib.Algebra.Ring.Nat
import WsEngine.Lib.ControlFlow

/-! # Runs of an event driven system

A system is a state changed by events, one at a time; an event may fail, and a failed event ends
the run. `steps` lists the state each event of a run met, which is where a guard on the events and
a property of what they did are both stated. The rules below turn one induction over the run into
facts about a single step: `invariant_of_guard` for a guard that is enough, `run_ends` for one under
which only some failures are allowed, `forall_steps_iff` for a guard that is exact, `simulates` for
a specification that is itself a step relation, `run_related` and `forall_steps_related` for two
systems that agree where a guard is met, and `run_le_sum` for a quantity that every event raises by no
more than its cost. -/
set_option autoImplicit false

/-- Which events may occur in a state, and what an event does there. -/
structure EventSystem (σ ε φ : Type) where
  enabled : σ → ε → Prop
  step : σ → ε → Except φ σ

namespace EventSystem

variable {σ ε φ : Type} (M : EventSystem σ ε φ)

/-- The events of a run with the states they met, up to the first one that failed. -/
def steps : σ → List ε → List (σ × ε)
  | _, [] => []
  | s, e :: es =>
    (s, e) :: match M.step s e with
      | .ok s' => steps s' es
      | .error _ => []

/-- Every event of the run may occur in the state it meets. -/
def Legal : σ → List ε → Prop
  | _, [] => True
  | s, e :: es => M.enabled s e ∧ ∀ s', M.step s e = .ok s' → Legal s' es

def run : σ → List ε → Except φ σ
  | s, [] => .ok s
  | s, e :: es =>
    match M.step s e with
    | .ok s' => run s' es
    | .error f => .error f

instance decidableForallOk {P : σ → Prop} [DecidablePred P] :
    (r : Except φ σ) → Decidable (∀ s, r = .ok s → P s)
  | .ok s => decidable_of_iff (P s) ⟨fun h _ hs => Except.ok.inj hs ▸ h, fun h => h s rfl⟩
  | .error _ => isTrue fun _ h => nomatch h

instance decidableLegal [enabled : ∀ s e, Decidable (M.enabled s e)] :
    (s : σ) → (es : List ε) → Decidable (M.Legal s es)
  | _, [] => isTrue trivial
  | s, e :: es =>
    have : DecidablePred fun s' => M.Legal s' es := fun s' => decidableLegal s' es
    inferInstanceAs (Decidable (M.enabled s e ∧ ∀ s', M.step s e = .ok s' → M.Legal s' es))

@[simp] theorem steps_nil (s : σ) : M.steps s [] = [] := rfl

theorem steps_cons_ok {s s' : σ} {e : ε} (es : List ε) (h : M.step s e = .ok s') :
    M.steps s (e :: es) = (s, e) :: M.steps s' es := by
  simp only [steps, h]

theorem steps_cons_error {s : σ} {e : ε} {f : φ} (es : List ε) (h : M.step s e = .error f) :
    M.steps s (e :: es) = [(s, e)] := by
  simp only [steps, h]

theorem steps_singleton (s : σ) (e : ε) : M.steps s [e] = [(s, e)] := by
  cases h : M.step s e with
  | ok s' => rw [steps_cons_ok M [] h, steps_nil]
  | error f => rw [steps_cons_error M [] h]

theorem legal_cons_ok {s s' : σ} {e : ε} {es : List ε} (he : M.enabled s e)
    (h : M.step s e = .ok s') (legal : M.Legal s' es) : M.Legal s (e :: es) :=
  ⟨he, fun _ ht => Except.ok.inj (h.symm.trans ht) ▸ legal⟩

theorem legal_of_enabled (h : ∀ s e, M.enabled s e) (s : σ) (es : List ε) : M.Legal s es := by
  induction es generalizing s with
  | nil => trivial
  | cons e es ih => exact ⟨h s e, fun s' _ => ih s'⟩

theorem legal_singleton {s : σ} {e : ε} (he : M.enabled s e) : M.Legal s [e] :=
  ⟨he, fun _ _ => trivial⟩

@[simp] theorem run_nil (s : σ) : M.run s [] = .ok s := rfl

theorem run_cons_ok {s s' : σ} {e : ε} (es : List ε) (h : M.step s e = .ok s') :
    M.run s (e :: es) = M.run s' es := by
  simp only [run, h]

theorem run_append {s s' : σ} {es : List ε} (es' : List ε) (h : M.run s es = .ok s') :
    M.run s (es ++ es') = M.run s' es' := by
  induction es generalizing s with
  | nil =>
    cases h
    rfl
  | cons e es ih =>
    cases hs : M.step s e with
    | error f => simp [run, hs] at h
    | ok u =>
      rw [run_cons_ok M es hs] at h
      rw [List.cons_append, run_cons_ok M _ hs, ih h]

theorem run_append_error {s : σ} {es : List ε} {f : φ} (es' : List ε) (h : M.run s es = .error f) :
    M.run s (es ++ es') = .error f := by
  induction es generalizing s with
  | nil => cases h
  | cons e es ih =>
    cases hs : M.step s e with
    | error g => simpa [run, hs] using h
    | ok u =>
      rw [run_cons_ok M es hs] at h
      rw [List.cons_append, run_cons_ok M _ hs, ih h]

theorem steps_append {s s' : σ} {es : List ε} (es' : List ε) (h : M.run s es = .ok s') :
    M.steps s (es ++ es') = M.steps s es ++ M.steps s' es' := by
  induction es generalizing s with
  | nil =>
    cases h
    rfl
  | cons e es ih =>
    cases hs : M.step s e with
    | error f => simp [run, hs] at h
    | ok u =>
      rw [run_cons_ok M es hs] at h
      rw [List.cons_append, steps_cons_ok M _ hs, steps_cons_ok M _ hs, ih h, List.cons_append]

theorem mem_of_mem_steps {s : σ} {es : List ε} {p : σ × ε} (hp : p ∈ M.steps s es) : p.2 ∈ es := by
  induction es generalizing s with
  | nil => cases hp
  | cons e es ih =>
    unfold steps at hp
    rcases List.mem_cons.mp hp with rfl | hp
    · exact List.mem_cons_self
    · cases hs : M.step s e with
      | error f => simp [hs] at hp
      | ok s' => exact List.mem_cons_of_mem e (ih (by simpa [hs] using hp))

theorem mem_steps_append {s : σ} {es : List ε} (es' : List ε) {p : σ × ε} (hp : p ∈ M.steps s es) :
    p ∈ M.steps s (es ++ es') := by
  induction es generalizing s with
  | nil => cases hp
  | cons e es ih =>
    cases hs : M.step s e with
    | error f =>
      rw [steps_cons_error M _ hs] at hp
      rwa [List.cons_append, steps_cons_error M _ hs]
    | ok s' =>
      rw [steps_cons_ok M _ hs] at hp
      rw [List.cons_append, steps_cons_ok M _ hs]
      rcases List.mem_cons.mp hp with rfl | hp
      · exact List.mem_cons_self
      · exact List.mem_cons_of_mem _ (ih hp)

/-- The event behind a run meets the state that it ends in. -/
theorem mem_steps_concat {s s' : σ} {es : List ε} (e : ε) (h : M.run s es = .ok s') :
    (s', e) ∈ M.steps s (es ++ [e]) := by
  rw [steps_append M _ h, steps_singleton]
  exact List.mem_append_right _ (List.mem_singleton_self _)

theorem legal_append {s s' : σ} {es es' : List ε} (legal : M.Legal s es) (h : M.run s es = .ok s')
    (legal' : M.Legal s' es') : M.Legal s (es ++ es') := by
  induction es generalizing s with
  | nil =>
    cases h
    exact legal'
  | cons e es ih =>
    refine ⟨legal.1, fun u hu => ?_⟩
    rw [run_cons_ok M es hu] at h
    exact ih (legal.2 u hu) h

/-- **Invariant rule.** When every step of a run meets the guard, every state met is invariant. -/
theorem invariant_of_guard (Inv : σ → Prop) (Guard : σ → ε → Prop)
    (keep : ∀ s e s', Inv s → M.enabled s e → Guard s e → M.step s e = .ok s' → Inv s')
    {s : σ} (hs : Inv s) {es : List ε} (legal : M.Legal s es)
    (guarded : ∀ p ∈ M.steps s es, Guard p.1 p.2) :
    ∀ p ∈ M.steps s es, Inv p.1 ∧ M.enabled p.1 p.2 := by
  induction es generalizing s with
  | nil => simp
  | cons e es ih =>
    have hg : Guard s e := guarded (s, e) (by simp [steps])
    cases h : M.step s e with
    | error f =>
      rw [steps_cons_error M es h]
      simpa using ⟨hs, legal.1⟩
    | ok s' =>
      rw [steps_cons_ok M es h] at guarded ⊢
      intro p hp
      rcases List.mem_cons.mp hp with rfl | hp
      · exact ⟨hs, legal.1⟩
      · exact ih (keep s e s' hs legal.1 hg h) (legal.2 s' h)
          (fun q hq => guarded q (List.mem_cons_of_mem _ hq)) p hp

/-- **Outcome rule.** When every guarded step keeps the invariant or fails as `Fault` allows, so does
a run whose steps all meet the guard. -/
theorem run_ends (Inv : σ → Prop) (Guard : σ → ε → Prop) (Fault : φ → Prop)
    (keep : ∀ s e, Inv s → M.enabled s e → Guard s e → (M.step s e).Ends Inv Fault)
    {s : σ} (hs : Inv s) {es : List ε} (legal : M.Legal s es)
    (guarded : ∀ p ∈ M.steps s es, Guard p.1 p.2) : (M.run s es).Ends Inv Fault := by
  induction es generalizing s with
  | nil => exact .ok hs
  | cons e es ih =>
    have hg : Guard s e := guarded (s, e) (by simp [steps])
    have hstep := keep s e hs legal.1 hg
    cases h : M.step s e with
    | error f =>
      rw [h] at hstep
      simp only [run, h]
      exact hstep
    | ok s' =>
      rw [h, Except.ends_ok] at hstep
      rw [steps_cons_ok M es h] at guarded
      rw [run_cons_ok M es h]
      exact ih hstep (legal.2 s' h) fun q hq => guarded q (List.mem_cons_of_mem _ hq)

theorem run_invariant_of_guard (Inv : σ → Prop) (Guard : σ → ε → Prop)
    (keep : ∀ s e s', Inv s → M.enabled s e → Guard s e → M.step s e = .ok s' → Inv s')
    {s t : σ} (hs : Inv s) {es : List ε} (legal : M.Legal s es)
    (guarded : ∀ p ∈ M.steps s es, Guard p.1 p.2) (ht : M.run s es = .ok t) : Inv t := by
  have hends := M.run_ends Inv Guard (fun _ => True) (fun s e hinv he hg =>
    .of_ok (fun s' hs' => keep s e s' hinv he hg hs') fun _ => trivial) hs legal guarded
  rw [ht, Except.ends_ok] at hends
  exact hends

/-- What every step of a run ends with, the run does. -/
theorem ends_of_steps {P : σ → Prop} {Q : φ → Prop} {s : σ} (hs : P s) {es : List ε}
    (h : ∀ p ∈ M.steps s es, (M.step p.1 p.2).Ends P Q) : (M.run s es).Ends P Q := by
  induction es generalizing s with
  | nil => exact .ok hs
  | cons e es ih =>
    have hstep := h (s, e) (by simp [steps])
    cases hr : M.step s e with
    | error f =>
      rw [hr] at hstep
      simp only [run, hr]
      exact hstep
    | ok s' =>
      rw [hr, Except.ends_ok] at hstep
      rw [steps_cons_ok M es hr] at h
      rw [run_cons_ok M es hr]
      exact ih hstep fun q hq => h q (List.mem_cons_of_mem _ hq)

/-- **Exact guard rule.** If on invariant states the guard is exactly what makes a step safe, and
guarded steps keep the invariant, then a run is safe throughout iff all its steps are guarded. -/
theorem forall_steps_iff (Inv : σ → Prop) (Guard Safe : σ → ε → Prop)
    (keep : ∀ s e s', Inv s → M.enabled s e → Guard s e → M.step s e = .ok s' → Inv s')
    (tight : ∀ s e, Inv s → M.enabled s e → (Safe s e ↔ Guard s e))
    {s : σ} (hs : Inv s) {es : List ε} (legal : M.Legal s es) :
    (∀ p ∈ M.steps s es, Safe p.1 p.2) ↔ ∀ p ∈ M.steps s es, Guard p.1 p.2 := by
  constructor
  · intro safe
    induction es generalizing s with
    | nil => simp
    | cons e es ih =>
      have hg : Guard s e := (tight s e hs legal.1).mp (safe (s, e) (by simp [steps]))
      cases h : M.step s e with
      | error f =>
        rw [steps_cons_error M es h]
        simpa using hg
      | ok s' =>
        rw [steps_cons_ok M es h] at safe ⊢
        intro p hp
        rcases List.mem_cons.mp hp with rfl | hp
        · exact hg
        · exact ih (keep s e s' hs legal.1 hg h) (legal.2 s' h)
            (fun q hq => safe q (List.mem_cons_of_mem _ hq)) p hp
  · intro guarded p hp
    obtain ⟨hi, he⟩ := invariant_of_guard M Inv Guard keep hs legal guarded p hp
    exact (tight p.1 p.2 hi he).mpr (guarded p hp)

/-! ## Specifications that are step relations -/

/-- A run of the specification over the events. -/
def Follows {τ : Type} (spec : τ → ε → τ → Prop) : τ → List ε → τ → Prop
  | t, [], t' => t' = t
  | t, e :: es, t' => ∃ u, spec t e u ∧ Follows spec u es t'

/-- **Simulation rule.** When the specification can follow every step, it can follow every run. -/
theorem simulates {τ : Type} (R : σ → τ → Prop) (spec : τ → ε → τ → Prop)
    (sim : ∀ s e s' t, R s t → M.enabled s e → M.step s e = .ok s' → ∃ t', spec t e t' ∧ R s' t')
    {s s' : σ} {t : τ} (h : R s t) {es : List ε} (legal : M.Legal s es)
    (hrun : M.run s es = .ok s') : ∃ t', Follows spec t es t' ∧ R s' t' := by
  induction es generalizing s t with
  | nil =>
    simp only [run_nil, Except.ok.injEq] at hrun
    exact ⟨t, rfl, hrun ▸ h⟩
  | cons e es ih =>
    cases hs : M.step s e with
    | error f => simp [run, hs] at hrun
    | ok u =>
      rw [run_cons_ok M es hs] at hrun
      obtain ⟨v, hv, hr⟩ := sim s e u t h legal.1 hs
      obtain ⟨t', hfollows, ht'⟩ := ih hr (legal.2 u hs) hrun
      exact ⟨t', ⟨v, hv, hfollows⟩, ht'⟩

/-- **Agreement rule.** Two systems whose steps agree wherever the guard is met agree on every run
whose steps all meet it. -/
theorem run_related {τ ψ : Type} (N : EventSystem τ ε ψ) (R : σ → τ → Prop) (A : φ → ψ → Prop)
    (Guard : σ → ε → Prop)
    (agree : ∀ s t e, R s t → Guard s e → (M.step s e).Related A R (N.step t e))
    {s : σ} {t : τ} (h : R s t) {es : List ε} (guarded : ∀ p ∈ M.steps s es, Guard p.1 p.2) :
    (M.run s es).Related A R (N.run t es) := by
  induction es generalizing s t with
  | nil => exact .ok h
  | cons e es ih =>
    have hstep := agree s t e h (guarded (s, e) (by simp [steps]))
    cases hs : M.step s e with
    | error f =>
      rw [hs] at hstep
      generalize ht : N.step t e = r at hstep
      cases hstep with
      | error ha =>
        simp only [run, hs, ht]
        exact .error ha
    | ok s' =>
      obtain ⟨t', ht, hr⟩ := hstep.of_ok hs
      rw [steps_cons_ok M es hs] at guarded
      rw [run_cons_ok M es hs, run_cons_ok N es ht]
      exact ih hr fun q hq => guarded q (List.mem_cons_of_mem _ hq)

/-- And what is said of each step holds of the one run iff it holds of the other. -/
theorem forall_steps_related {τ ψ : Type} (N : EventSystem τ ε ψ) (R : σ → τ → Prop)
    (A : φ → ψ → Prop) (Guard : σ → ε → Prop)
    (agree : ∀ s t e, R s t → Guard s e → (M.step s e).Related A R (N.step t e))
    {P : σ → ε → Prop} {Q : τ → ε → Prop} (same : ∀ s t e, R s t → Guard s e → (P s e ↔ Q t e))
    {s : σ} {t : τ} (h : R s t) {es : List ε} (guarded : ∀ p ∈ M.steps s es, Guard p.1 p.2) :
    (∀ p ∈ M.steps s es, P p.1 p.2) ↔ ∀ p ∈ N.steps t es, Q p.1 p.2 := by
  induction es generalizing s t with
  | nil => simp
  | cons e es ih =>
    have hg : Guard s e := guarded (s, e) (by simp [steps])
    have hstep := agree s t e h hg
    have hfirst := same s t e h hg
    cases hs : M.step s e with
    | error f =>
      rw [hs] at hstep
      generalize ht : N.step t e = r at hstep
      cases hstep with
      | error ha =>
        rw [steps_cons_error M es hs, steps_cons_error N es ht]
        simpa using hfirst
    | ok s' =>
      obtain ⟨t', ht, hr⟩ := hstep.of_ok hs
      rw [steps_cons_ok M es hs] at guarded ⊢
      rw [steps_cons_ok N es ht]
      have hrest := ih hr fun q hq => guarded q (List.mem_cons_of_mem _ hq)
      rw [List.forall_mem_cons, List.forall_mem_cons]
      exact and_congr hfirst hrest

/-- **Budget rule.** When a budget that pays for an event meets its guard, and leaves the rest to the
state behind it, a budget for all events of a run meets all their guards. -/
theorem guarded_of_budget (Budget : σ → ℕ → Prop) (cost : ε → ℕ) (Guard : σ → ε → Prop)
    (guard : ∀ s e, Budget s (cost e) → Guard s e)
    (spend : ∀ s e s' n, Budget s (cost e + n) → M.step s e = .ok s' → Budget s' n)
    (mono : ∀ s m n, m ≤ n → Budget s n → Budget s m)
    {s : σ} {es : List ε} (h : Budget s (es.map cost).sum) : ∀ p ∈ M.steps s es, Guard p.1 p.2 := by
  induction es generalizing s with
  | nil => simp
  | cons e es ih =>
    rw [List.map_cons, List.sum_cons] at h
    have hfirst : Guard s e := guard s e (mono s _ _ (Nat.le_add_right _ _) h)
    intro p hp
    cases hs : M.step s e with
    | error f =>
      rw [steps_cons_error M es hs] at hp
      rw [List.mem_singleton.mp hp]
      exact hfirst
    | ok s' =>
      rw [steps_cons_ok M es hs] at hp
      rcases List.mem_cons.mp hp with rfl | hp
      · exact hfirst
      · exact ih (spend s e s' _ h hs) p hp

/-- **Cost rule.** -/
theorem run_le_sum (quantity : σ → ℕ) (cost : ε → ℕ)
    (step_le : ∀ s e s', M.enabled s e → M.step s e = .ok s' → quantity s' ≤ quantity s + cost e)
    {s s' : σ} {es : List ε} (legal : M.Legal s es) (hrun : M.run s es = .ok s') :
    quantity s' ≤ quantity s + (es.map cost).sum := by
  induction es generalizing s with
  | nil =>
    simp only [run_nil, Except.ok.injEq] at hrun
    simp [hrun]
  | cons e es ih =>
    cases hs : M.step s e with
    | error f => simp [run, hs] at hrun
    | ok u =>
      rw [run_cons_ok M es hs] at hrun
      have h1 := step_le s e u legal.1 hs
      have h2 := ih (legal.2 u hs) hrun
      simp only [List.map_cons, List.sum_cons]
      omega

end EventSystem
