import Mathlib.Order.Nat
import Mathlib.Data.Nat.Find

/-!
# Asking until there is an answer

A loop that asks a source again and again until it answers. It ends with the first answer
there is, if there is one, and otherwise never.
-/

namespace Polling

variable {α : Type} (f : Nat → Option α)

/-- The answer from the `i`-th time on, asked for at most so many times. -/
def poll : Nat → Nat → Option α
  | 0, _ => none
  | fuel + 1, i =>
    match f i with
    | some a => some a
    | none => poll fuel (i + 1)

/-- The first answer from the `i`-th time on comes the `n`-th time. -/
structure FirstAt (i n : Nat) (a : α) : Prop where
  le : i ≤ n
  answer : f n = some a
  before : ∀ m, i ≤ m → m < n → f m = none

variable {f} {fuel i n n' : Nat} {a a' : α}

theorem FirstAt.unique (h : FirstAt f i n a) (h' : FirstAt f i n' a') : n = n' ∧ a = a' := by
  have hn : n = n' := by
    rcases Nat.lt_trichotomy n n' with hlt | heq | hlt
    · have hnone := h'.before n h.le hlt
      rw [h.answer] at hnone
      cases hnone
    · exact heq
    · have hnone := h.before n' h'.le hlt
      rw [h'.answer] at hnone
      cases hnone
  subst hn
  exact ⟨rfl, Option.some.inj (h.answer.symm.trans h'.answer)⟩

/-- An answer that comes some time comes a first time. -/
theorem exists_firstAt (hle : i ≤ n) (h : f n = some a) : ∃ m b, m ≤ n ∧ FirstAt f i m b := by
  have hsome : ∃ m, i ≤ m ∧ (f m).isSome = true := ⟨n, hle, by rw [h]; rfl⟩
  obtain ⟨hm, hanswer⟩ := Nat.find_spec hsome
  obtain ⟨b, hb⟩ := Option.isSome_iff_exists.mp hanswer
  refine ⟨Nat.find hsome, b, Nat.find_min' hsome ⟨hle, by rw [h]; rfl⟩, hm, hb, ?_⟩
  intro k hk hlt
  have hnot := Nat.find_min hsome hlt
  rw [← Option.not_isSome_iff_eq_none]
  exact fun hsome => hnot ⟨hk, hsome⟩

/-- The loop returns the first answer, if that comes in time. -/
theorem poll_eq_some_iff :
    poll f fuel i = some a ↔ ∃ n, n < i + fuel ∧ FirstAt f i n a := by
  induction fuel generalizing i with
  | zero =>
    constructor
    · intro h
      cases h
    · rintro ⟨n, hlt, hfirst⟩
      have hle := hfirst.le
      omega
  | succ fuel ih =>
    rw [poll]
    cases h : f i with
    | some b =>
      constructor
      · intro heq
        obtain rfl := Option.some.inj heq
        exact ⟨i, by omega, le_rfl, h, fun m hm hlt => by omega⟩
      · rintro ⟨n, -, hfirst⟩
        have hi : FirstAt f i i b := ⟨le_rfl, h, fun m hm hlt => by omega⟩
        rw [(hi.unique hfirst).2]
    | none =>
      dsimp only
      rw [ih]
      -- Nothing came the `i`-th time.
      refine exists_congr fun n => ?_
      constructor
      · rintro ⟨hlt, hfirst⟩
        refine ⟨by omega, Nat.le_of_succ_le hfirst.le, hfirst.answer, fun m hm hmn => ?_⟩
        rcases Nat.eq_or_lt_of_le hm with rfl | him
        · exact h
        · exact hfirst.before m him hmn
      · rintro ⟨hlt, hfirst⟩
        have hne : i ≠ n := by
          rintro rfl
          rw [hfirst.answer] at h
          cases h
        have hle := hfirst.le
        exact ⟨by omega, by omega, hfirst.answer, fun m hm => hfirst.before m (by omega)⟩

/-- The loop ends exactly when there is an answer. -/
theorem poll_ends_iff : (∃ fuel a, poll f fuel i = some a) ↔ ∃ n a, i ≤ n ∧ f n = some a := by
  constructor
  · rintro ⟨fuel, a, h⟩
    obtain ⟨n, -, hfirst⟩ := poll_eq_some_iff.mp h
    exact ⟨n, a, hfirst.le, hfirst.answer⟩
  · rintro ⟨n, a, hle, h⟩
    obtain ⟨m, b, -, hfirst⟩ := exists_firstAt hle h
    exact ⟨m + 1, b, poll_eq_some_iff.mpr ⟨m, by omega, hfirst⟩⟩

end Polling
