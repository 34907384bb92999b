import ConfluxSdk.ForStd.Runs

/-!
# Filters that join what is added

A filter over a join-semilattice: every item has a part, adding an item joins its part to
the filter, and an item is found when its part is below the filter. A filter is
determined by what lies above it, and from that follow that the order of the additions
does not matter and that nothing that was added is missed.
-/

namespace JoinFilter

open Runs (run)

variable {ι κ α : Type} [SemilatticeSup α] {part : ι → α} {f g : α} {items : List ι}

variable (part) in
/-- Adding an item. -/
def add (f : α) (x : ι) : α := f ⊔ part x

/-- What lies above a filter: what is above its start and every part. -/
theorem run_add_le_iff : run (add part) f items ≤ g ↔ f ≤ g ∧ ∀ x ∈ items, part x ≤ g := by
  induction items generalizing f with
  | nil => simp [run]
  | cons x items ih =>
    show run (add part) (add part f x) items ≤ g ↔ _
    rw [ih, add, sup_le_iff, List.forall_mem_cons, and_assoc]

/-- What was below a filter stays below it. -/
theorem le_run_add : f ≤ run (add part) f items := (run_add_le_iff.mp le_rfl).1

/-- Everything that was added is found. -/
theorem part_le_run_add {x : ι} (hx : x ∈ items) : part x ≤ run (add part) f items :=
  (run_add_le_iff.mp le_rfl).2 x hx

/-- A filter of some of the items is below. -/
theorem run_add_mono (hf : f ≤ g) {items' : List ι} (hsub : items ⊆ items') :
    run (add part) f items ≤ run (add part) g items' := by
  rw [run_add_le_iff]
  exact ⟨hf.trans le_run_add, fun x hx => part_le_run_add (hsub hx)⟩

/-- Only the set of the items matters. -/
theorem run_add_congr {items' : List ι} (h : ∀ x, x ∈ items ↔ x ∈ items') :
    run (add part) f items = run (add part) f items' :=
  le_antisymm (run_add_mono le_rfl fun x hx => (h x).mp hx)
    (run_add_mono le_rfl fun x hx => (h x).mpr hx)

/-- Joining filters of groups of items is adding the items of all groups. -/
theorem run_add_groups [OrderBot α] (split : κ → List ι) (groups : List κ) :
    run (add fun k => run (add part) ⊥ (split k)) f groups =
      run (add part) f (groups.flatMap split) := by
  apply eq_of_forall_ge_iff
  intro g
  simp only [run_add_le_iff, bot_le, true_and, List.mem_flatMap]
  -- The items of a group are the items of the flattened list.
  constructor
  · intro hboth
    refine ⟨hboth.1, fun x hmem => ?_⟩
    obtain ⟨k, hk, hx⟩ := hmem
    exact hboth.2 k hk x hx
  · intro hboth
    exact ⟨hboth.1, fun k hk x hx => hboth.2 x ⟨k, hk, hx⟩⟩

end JoinFilter
