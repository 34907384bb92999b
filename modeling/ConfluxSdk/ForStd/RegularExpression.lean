import Mathlib

/-!
# Words and character classes as regular expressions

Mathlib's `RegularExpression` has single letters only. Literal words and classes
of letters are built from them here, with what they and their repetitions match.
-/

namespace RegularExpression

variable {α : Type}

/-- A literal word. -/
def ofWord (l : List α) : RegularExpression α := l.foldr (fun a r => char a * r) 1

/-- One letter of a class. -/
def oneOf (l : List α) : RegularExpression α := l.foldr (fun a r => char a + r) 0

theorem mem_ofWord {l x : List α} : x ∈ (ofWord l).matches' ↔ x = l := by
  induction l generalizing x with
  | nil => simp [ofWord, Language.mem_one]
  | cons a l ih =>
    have hrec : (ofWord (a :: l)).matches' = {[a]} * (ofWord l).matches' := rfl
    rw [hrec, Language.mem_mul]
    constructor
    · rintro ⟨y, rfl, z, hz, rfl⟩
      rw [ih.mp hz]
      rfl
    · rintro rfl
      exact ⟨[a], rfl, l, ih.mpr rfl, rfl⟩

theorem mem_oneOf {l x : List α} : x ∈ (oneOf l).matches' ↔ ∃ a ∈ l, x = [a] := by
  induction l with
  | nil => simp [oneOf]
  | cons a l ih =>
    have hrec : (oneOf (a :: l)).matches' = {[a]} + (oneOf l).matches' := rfl
    rw [hrec, Language.mem_add, ih]
    constructor
    · rintro (h | ⟨b, hb, rfl⟩)
      · exact ⟨a, List.mem_cons_self, h⟩
      · exact ⟨b, List.mem_cons_of_mem _ hb, rfl⟩
    · rintro ⟨b, hb, rfl⟩
      rcases List.mem_cons.mp hb with rfl | hb
      · exact .inl rfl
      · exact .inr ⟨b, hb, rfl⟩

/-- Exactly `n` letters of a class. -/
theorem mem_oneOf_pow {l x : List α} {n : Nat} :
    x ∈ ((oneOf l) ^ n).matches' ↔ x.length = n ∧ ∀ a ∈ x, a ∈ l := by
  rw [matches'_pow]
  induction n generalizing x with
  | zero =>
    rw [pow_zero, Language.mem_one, List.length_eq_zero_iff]
    constructor
    · rintro rfl
      simp
    · exact fun h => h.1
  | succ n ih =>
    rw [pow_succ', Language.mem_mul]
    constructor
    · rintro ⟨y, hy, z, hz, rfl⟩
      obtain ⟨a, ha, rfl⟩ := mem_oneOf.mp hy
      obtain ⟨hlen, hall⟩ := ih.mp hz
      exact ⟨by simp [hlen], by simpa [ha] using hall⟩
    · rintro ⟨hlen, hall⟩
      obtain ⟨a, z, rfl⟩ := List.exists_cons_of_length_eq_add_one hlen
      rw [List.forall_mem_cons] at hall
      exact ⟨[a], mem_oneOf.mpr ⟨a, hall.1, rfl⟩, z, ih.mpr ⟨by simpa using hlen, hall.2⟩, rfl⟩

/-- Any number of letters of a class. -/
theorem mem_oneOf_star {l x : List α} : x ∈ (oneOf l).star.matches' ↔ ∀ a ∈ x, a ∈ l := by
  rw [matches'_star, Language.kstar_eq_iSup_pow, Language.mem_iSup]
  simp only [← matches'_pow, mem_oneOf_pow]
  constructor
  · rintro ⟨n, _, h⟩
    exact h
  · intro h
    exact ⟨x.length, rfl, h⟩

/-- At least one letter of a class. -/
theorem mem_oneOf_plus {l x : List α} :
    x ∈ (oneOf l * (oneOf l).star).matches' ↔ x ≠ [] ∧ ∀ a ∈ x, a ∈ l := by
  rw [matches'_mul, Language.mem_mul]
  constructor
  · rintro ⟨y, hy, z, hz, rfl⟩
    obtain ⟨a, ha, rfl⟩ := mem_oneOf.mp hy
    refine ⟨by simp, ?_⟩
    simpa [ha] using mem_oneOf_star.mp hz
  · rintro ⟨hne, hall⟩
    obtain ⟨a, z, rfl⟩ := List.exists_cons_of_ne_nil hne
    rw [List.forall_mem_cons] at hall
    exact ⟨[a], mem_oneOf.mpr ⟨a, hall.1, rfl⟩, z, mem_oneOf_star.mpr hall.2, rfl⟩

end RegularExpression
