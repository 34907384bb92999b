import Mathlib

/-!
# Lists handled from left to right

A pass over a list that hands a position on: `step a s b t` handles the element `a` at
the position `s`, leaves `b` in its place and ends at `t`. `Threaded step` is the run of
such a pass over a whole list.
-/

variable {α β σ : Type*}

/-- Every element is handled where the one before it ended. -/
inductive Threaded (step : α → σ → β → σ → Prop) : List α → σ → List β → σ → Prop
  | nil (s : σ) : Threaded step [] s [] s
  | cons {a : α} {as : List α} {b : β} {bs : List β} {s t u : σ} (first : step a s b t)
      (rest : Threaded step as t bs u) : Threaded step (a :: as) s (b :: bs) u

namespace Threaded

variable {step : α → σ → β → σ → Prop}

theorem nil_iff {s u : σ} {out : List β} :
    Threaded step [] s out u ↔ out = [] ∧ u = s := by
  constructor
  · rintro ⟨⟩
    exact ⟨rfl, rfl⟩
  · rintro ⟨rfl, rfl⟩
    exact .nil _

theorem cons_iff {a : α} {as : List α} {s u : σ} {out : List β} :
    Threaded step (a :: as) s out u ↔
      ∃ b bs t, out = b :: bs ∧ step a s b t ∧ Threaded step as t bs u := by
  constructor
  · rintro ⟨⟩
    rename_i hfirst hrest
    exact ⟨_, _, _, rfl, hfirst, hrest⟩
  · rintro ⟨b, bs, t, rfl, hfirst, hrest⟩
    exact .cons hfirst hrest

/-- A pass over two lists in a row is a pass over each. -/
theorem append_iff {xs ys : List α} {s u : σ} {out : List β} :
    Threaded step (xs ++ ys) s out u ↔
      ∃ xs' ys' t, out = xs' ++ ys' ∧ Threaded step xs s xs' t ∧ Threaded step ys t ys' u := by
  induction xs generalizing s out with
  | nil =>
    constructor
    · intro h
      exact ⟨[], out, s, rfl, .nil s, h⟩
    · rintro ⟨xs', ys', t, rfl, hxs, hys⟩
      obtain ⟨rfl, rfl⟩ := nil_iff.mp hxs
      exact hys
  | cons x xs ih =>
    rw [List.cons_append, cons_iff]
    constructor
    · rintro ⟨b, bs, t, rfl, hfirst, hrest⟩
      obtain ⟨xs', ys', t', rfl, hxs, hys⟩ := ih.mp hrest
      exact ⟨b :: xs', ys', t', rfl, .cons hfirst hxs, hys⟩
    · rintro ⟨xs', ys', t, rfl, hxs, hys⟩
      obtain ⟨b, bs, t', rfl, hfirst, hrest⟩ := cons_iff.mp hxs
      exact ⟨b, bs ++ ys', t', rfl, hfirst, ih.mpr ⟨bs, ys', t, rfl, hrest, hys⟩⟩

theorem length_eq {xs : List α} {ys : List β} {s u : σ} (h : Threaded step xs s ys u) :
    ys.length = xs.length := by
  induction h with
  | nil => rfl
  | cons _ _ ih => rw [List.length_cons, List.length_cons, ih]

end Threaded
