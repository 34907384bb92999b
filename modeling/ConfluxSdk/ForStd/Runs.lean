import Mathlib

/-!
# Runs of a step function

A run performs a list of actions from a state. `Along` says that every action of a
run is taken in a state that satisfies a condition, and the induction rule turns what
one step preserves into what holds in every state the run reaches.
-/

namespace Runs

variable {σ ι : Type} (step : σ → ι → σ)

/-- The state after some actions. -/
def run (s : σ) (actions : List ι) : σ := actions.foldl step s

/-- Every action is taken in a state that satisfies `P` together with it. -/
def Along (P : σ → ι → Prop) : σ → List ι → Prop
  | _, [] => True
  | s, a :: actions => P s a ∧ Along P (step s a) actions

variable {step} {P : σ → ι → Prop} {I : σ → Prop}

/-- What one step preserves holds in every state the run reaches. -/
theorem Along.invariant (hstep : ∀ s a, I s → P s a → I (step s a)) {s : σ} {actions : List ι}
    (hs : I s) (h : Along step P s actions) {pre : List ι} (hpre : pre <+: actions) :
    I (run step s pre) := by
  induction pre generalizing s actions with
  | nil => exact hs
  | cons a pre ih =>
    cases actions with
    | nil => exact absurd (List.prefix_nil.mp hpre) (by simp)
    | cons b actions =>
      obtain ⟨rfl, htail⟩ := List.cons_prefix_cons.mp hpre
      exact ih (hstep s a hs h.1) h.2 htail

/-- What every step preserves holds after every run. -/
theorem run_invariant (hstep : ∀ s a, I s → I (step s a)) {s : σ} (hs : I s) (actions : List ι) :
    I (run step s actions) := by
  induction actions generalizing s with
  | nil => exact hs
  | cons a actions ih => exact ih (hstep s a hs)

/-- A property of every state of a run, split at the first action. -/
theorem forall_run_cons {s : σ} {a : ι} {actions : List ι} :
    (∀ pre, pre <+: a :: actions → I (run step s pre)) ↔
      I s ∧ ∀ pre, pre <+: actions → I (run step (step s a) pre) := by
  constructor
  · intro h
    refine ⟨h [] List.nil_prefix, fun pre hpre => ?_⟩
    exact h (a :: pre) (List.cons_prefix_cons.mpr ⟨rfl, hpre⟩)
  · intro hboth pre hpre
    obtain ⟨hs, h⟩ := hboth
    cases pre with
    | nil => exact hs
    | cons b pre =>
      obtain ⟨rfl, htail⟩ := List.cons_prefix_cons.mp hpre
      exact h pre htail

/-- Two conditions on the actions that agree in every state agree along every run. -/
theorem Along.congr {Q : σ → ι → Prop} (h : ∀ s a, P s a ↔ Q s a) {s : σ} {actions : List ι} :
    Along step P s actions ↔ Along step Q s actions := by
  induction actions generalizing s with
  | nil => exact Iff.rfl
  | cons a actions ih => exact and_congr (h s a) ih

/-! ### Projections -/

variable {σ' : Type} {step' : σ' → ι → σ'} {f : σ' → σ}

/-- A projection that commutes with the steps commutes with runs. -/
theorem run_project (hf : ∀ s a, f (step' s a) = step (f s) a) (s : σ') (actions : List ι) :
    f (run step' s actions) = run step (f s) actions := by
  induction actions generalizing s with
  | nil => rfl
  | cons a actions ih =>
    show f (run step' (step' s a) actions) = run step (step (f s) a) actions
    rw [ih, hf]

theorem Along.project (hf : ∀ s a, f (step' s a) = step (f s) a) {s : σ'} {actions : List ι}
    (h : Along step P (f s) actions) : Along step' (fun s a => P (f s) a) s actions := by
  induction actions generalizing s with
  | nil => trivial
  | cons a actions ih =>
    refine ⟨h.1, ih ?_⟩
    rw [hf]
    exact h.2

end Runs
