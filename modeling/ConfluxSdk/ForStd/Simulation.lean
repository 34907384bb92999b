import ConfluxSdk.ForStd.Runs

/-!
# Runs with replies

A step function that answers every action. `replies` collects the answers of a run, and
the simulation rule turns a relation that every pair of steps keeps, with equal answers,
into one that runs keep. `VisitOrder` is an order in which a container without one is
visited.
-/

namespace Runs

variable {σ σ' ι ρ : Type}

/-- The answers of a run. -/
def replies (step : σ → ι → σ × ρ) : σ → List ι → List ρ
  | _, [] => []
  | s, a :: actions => (step s a).2 :: replies step (step s a).1 actions

variable {step : σ → ι → σ × ρ} {step' : σ' → ι → σ' × ρ} {R : σ → σ' → Prop} {P : ι → Prop}

/-- Two systems that keep a relation by every action, and answer it alike, keep it by every
    run, and answer alike throughout. -/
theorem simulation
    (hstep : ∀ s s' a, P a → R s s' → (step s a).2 = (step' s' a).2 ∧ R (step s a).1 (step' s' a).1)
    {actions : List ι} (hactions : ∀ a ∈ actions, P a) {s : σ} {s' : σ'} (h : R s s') :
    replies step s actions = replies step' s' actions ∧
      R (run (fun s a => (step s a).1) s actions) (run (fun s a => (step' s a).1) s' actions) := by
  induction actions generalizing s s' with
  | nil => exact ⟨rfl, h⟩
  | cons a actions ih =>
    rw [List.forall_mem_cons] at hactions
    obtain ⟨hreply, hnext⟩ := hstep s s' a hactions.1 h
    obtain ⟨hreplies, hrun⟩ := ih hactions.2 hnext
    refine ⟨?_, hrun⟩
    rw [replies, replies, hreply, hreplies]

/-- Answers to actions that are replaced by others. -/
theorem replies_map (f : ι → ι) (s : σ) (actions : List ι) :
    replies (fun s a => step s (f a)) s actions = replies step s (actions.map f) := by
  induction actions generalizing s with
  | nil => rfl
  | cons a actions ih => rw [List.map_cons, replies, replies, ih]

end Runs

/-- An order in which the elements of a container are visited that has none of its own. -/
structure VisitOrder (α : Type) where
  visit : List α → List α
  perm : ∀ l, (visit l).Perm l

namespace VisitOrder

variable {α : Type} (order : VisitOrder α) {l : List α}

@[simp] theorem mem_visit {a : α} : a ∈ order.visit l ↔ a ∈ l := (order.perm l).mem_iff

theorem nodup_visit : (order.visit l).Nodup ↔ l.Nodup := (order.perm l).nodup_iff

end VisitOrder
