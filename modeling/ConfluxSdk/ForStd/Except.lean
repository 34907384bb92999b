import Mathlib

/-!
# Postconditions of computations that may fail

`x.Ensures Q`: if `x` returns a value, the value satisfies `Q`. The rules follow
the way such computations are put together, so that a proof about one does not
have to look at the branches that end in an error.
-/

namespace Except

variable {ε α β : Type}

/-- Whatever `x` returns satisfies `Q`. -/
def Ensures (x : Except ε α) (Q : α → Prop) : Prop := ∀ a, x = .ok a → Q a

variable {x : Except ε α} {Q : α → Prop}

theorem ensures_ok {a : α} (h : Q a) : Ensures (.ok a : Except ε α) Q := by
  intro b hb
  rw [← Except.ok.inj hb]
  exact h

theorem ensures_error (e : ε) : Ensures (.error e : Except ε α) Q := by
  intro b hb
  cases hb

theorem Ensures.and {R : α → Prop} (hQ : x.Ensures Q) (hR : x.Ensures R) :
    x.Ensures fun a => Q a ∧ R a :=
  fun a ha => ⟨hQ a ha, hR a ha⟩

/-- Nothing is said of a result that is marked as failed. -/
theorem ensures_failed {Q : Bool × α → Prop} (a : α) :
    Ensures (.ok (false, a) : Except ε (Bool × α)) fun res => res.1 = true → Q res :=
  ensures_ok fun h => absurd h Bool.false_ne_true

theorem Ensures.bind (hx : x.Ensures Q) {f : α → Except ε β} {R : β → Prop}
    (hf : ∀ a, Q a → (f a).Ensures R) : (x >>= f).Ensures R := by
  cases x with
  | error e => exact ensures_error e
  | ok a => exact hf a (hx a rfl)

theorem ensures_bind (x : Except ε α) {f : α → Except ε β} {R : β → Prop}
    (hf : ∀ a, (f a).Ensures R) : (x >>= f).Ensures R :=
  Ensures.bind (fun _ _ => trivial) fun a (_ : True) => hf a

theorem ensures_ite {c : Prop} [Decidable c] {y : Except ε α} (hx : c → x.Ensures Q)
    (hy : ¬ c → y.Ensures Q) : (if c then x else y).Ensures Q := by
  split
  · next h => exact hx h
  · next h => exact hy h

/-- Two continuations need to agree only on what the first part returns. -/
theorem Ensures.bind_congr (hx : x.Ensures Q) {f g : α → Except ε β}
    (h : ∀ a, Q a → f a = g a) : x >>= f = x >>= g := by
  cases x with
  | error e => rfl
  | ok a => exact h a (hx a rfl)

/-! ### Computations that fail in known cases -/

/-- `x` returns `a` if `p` holds, and fails otherwise. -/
def Returns (p : Prop) (x : Except ε α) (a : α) : Prop :=
  (p → x = .ok a) ∧ (¬ p → ∃ e, x = .error e)

variable {p q : Prop} {a : α} {b : β}

theorem returns_ok (hp : p) (a : α) : Returns p (.ok a : Except ε α) a :=
  ⟨fun _ => rfl, fun h => absurd hp h⟩

theorem returns_error (hp : ¬ p) (e : ε) (a : α) : Returns p (.error e : Except ε α) a :=
  ⟨fun h => absurd h hp, fun _ => ⟨e, rfl⟩⟩

theorem Returns.congr (h : Returns p x a) (hpq : p ↔ q) : Returns q x a := by
  rwa [propext hpq] at h

theorem Returns.bind (hx : Returns p x a) {f : α → Except ε β} (hf : Returns q (f a) b) :
    Returns (p ∧ q) (x >>= f) b := by
  by_cases hp : p
  · rw [hx.1 hp]
    exact hf.congr (and_iff_right hp).symm
  · obtain ⟨e, he⟩ := hx.2 hp
    rw [he]
    exact returns_error (fun h => hp h.1) e b

theorem Returns.bind_ok (hx : Returns p x a) (f : α → β) :
    Returns p (x >>= fun a => .ok (f a)) (f a) :=
  (hx.bind (returns_ok trivial (f a))).congr (and_iff_left trivial)

/-- What is returned is known once something is. -/
theorem Returns.eq_ok_iff (hx : Returns p x a) {c : α} : x = .ok c ↔ p ∧ c = a := by
  by_cases hp : p
  · rw [hx.1 hp]
    simp [hp, eq_comm]
  · obtain ⟨e, he⟩ := hx.2 hp
    rw [he]
    simp [hp]

theorem returns_mapM {l : List α} {f : α → Except ε β} {P : α → Prop} {g : α → β}
    (h : ∀ a ∈ l, Returns (P a) (f a) (g a)) :
    Returns (∀ a ∈ l, P a) (l.mapM f) (l.map g) := by
  induction l with
  | nil => exact returns_ok (fun a ha => absurd ha List.not_mem_nil) []
  | cons c l ih =>
    rw [List.mapM_cons]
    have htail := ih fun a ha => h a (List.mem_cons_of_mem _ ha)
    refine Returns.congr (Returns.bind (h c List.mem_cons_self) ?_) List.forall_mem_cons.symm
    exact htail.bind_ok (g c :: ·)

end Except
