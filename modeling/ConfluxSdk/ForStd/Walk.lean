import Mathlib

/-!
# Walks over data

A walk passes over the elements of a list, each one from where the one before it
stopped. A step stops at a position, finds that its data are missing (`none`), or fails
with an error; nothing is read from the data but the positions.
-/

variable {α β ε : Type*}

/-- Go on from where a step stopped, if it found its data. -/
def onward (x : Except ε (Option Nat)) (rest : Nat → Except ε (Option Nat)) :
    Except ε (Option Nat) :=
  match x with
  | .error e => .error e
  | .ok none => .ok none
  | .ok (some next) => rest next

theorem onward_eq_some {x : Except ε (Option Nat)} {rest : Nat → Except ε (Option Nat)}
    {stop : Nat} :
    onward x rest = .ok (some stop) ↔ ∃ next, x = .ok (some next) ∧ rest next = .ok (some stop) := by
  unfold onward
  split <;> simp

/-- Pass over every element of a list. -/
def walk (step : α → Nat → Except ε (Option Nat)) : List α → Nat → Except ε (Option Nat)
  | [], pos => .ok (some pos)
  | a :: as, pos => onward (step a pos) fun next => walk step as next

/-- Lists whose elements are passed alike are passed alike. -/
theorem walk_congr {step : α → Nat → Except ε (Option Nat)}
    {step' : β → Nat → Except ε (Option Nat)} {as : List α} {bs : List β}
    (h : List.Forall₂ (fun a b => step a = step' b) as bs) (pos : Nat) :
    walk step as pos = walk step' bs pos := by
  induction h generalizing pos with
  | nil => rfl
  | cons hab _ ih =>
    rw [walk, walk, hab]
    congr 1
    funext next
    exact ih next

/-- If every step takes `width` and stays below a bound, so does the walk. -/
theorem walk_advances {step : α → Nat → Except ε (Option Nat)} {as : List α} {width bound : Nat}
    (hstep : ∀ a ∈ as, ∀ pos next, pos < bound → step a pos = .ok (some next) →
      pos + width ≤ next ∧ next < bound)
    {pos stop : Nat} (hpos : pos < bound) (h : walk step as pos = .ok (some stop)) :
    pos + width * as.length ≤ stop ∧ stop < bound := by
  induction as generalizing pos with
  | nil =>
    obtain rfl : pos = stop := by simpa [walk] using h
    exact ⟨Nat.le_refl _, hpos⟩
  | cons a as ih =>
    rw [List.forall_mem_cons] at hstep
    obtain ⟨next, hfirst, hrest⟩ := onward_eq_some.mp h
    obtain ⟨hle, hlt⟩ := hstep.1 pos next hpos hfirst
    obtain ⟨hle', hlt'⟩ := ih hstep.2 hlt hrest
    refine ⟨?_, hlt'⟩
    rw [List.length_cons, Nat.mul_add]
    omega
