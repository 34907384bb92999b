import ConfluxSdk.ForStd.Radix

/-!
# Linear feedback registers

A register of `n + 1` symbols of `w` bits. A step shifts the next symbol in from
the right; the symbol that falls out on the left is fed back through a function
`g`, which is linear over exclusive or. This is the register of a cyclic
checksum; `Feedback` says what is needed of the generator.

## Key results

- `step_xor`: a step is linear in the register and the symbol together
- `step_inj`: a step can be undone
- `run_load`: up to `n + 1` symbols are simply added to what zeros would give
- `burst`: two inputs that differ within `n + 1` consecutive symbols leave
  different registers
-/

namespace FeedbackRegister

variable {w n : Nat} {g : Nat → Nat}

/-- What the feedback function has to satisfy. -/
structure Feedback (w n : Nat) (g : Nat → Nat) : Prop where
  xor : ∀ a b, g (a ^^^ b) = g a ^^^ g b
  low : ∀ a, a < 2 ^ w → g a % 2 ^ w = a
  lt : ∀ a, g a < 2 ^ (w * (n + 1))

/-- One step of the register. -/
def step (w n : Nat) (g : Nat → Nat) (c d : Nat) : Nat :=
  (c % 2 ^ (w * n)) <<< w ^^^ d ^^^ g (c / 2 ^ (w * n))

/-- The register after a string of symbols. -/
def run (w n : Nat) (g : Nat → Nat) (c : Nat) (l : List UInt8) : Nat :=
  l.foldl (fun c d => step w n g c d.toNat) c

@[simp] theorem run_nil (c : Nat) : run w n g c [] = c := rfl

theorem run_append (c : Nat) (l m : List UInt8) :
    run w n g c (l ++ m) = run w n g (run w n g c l) m := List.foldl_append

theorem run_cons (c : Nat) (d : UInt8) (l : List UInt8) :
    run w n g c (d :: l) = run w n g (step w n g c d.toNat) l := rfl

section Linear

variable (hg : Feedback w n g)
include hg

theorem Feedback.zero : g 0 = 0 := by
  have h := hg.xor 0 0
  rw [Nat.xor_self] at h
  rw [h, Nat.xor_self]

/-- A step is linear in the register and the symbol together. -/
theorem step_xor (c c' d d' : Nat) :
    step w n g (c ^^^ c') (d ^^^ d') = step w n g c d ^^^ step w n g c' d' := by
  simp only [step, Nat.xor_mod_two_pow, Nat.xor_div_two_pow, Nat.shiftLeft_xor_distrib, hg.xor]
  ac_rfl

theorem step_lt {c d : Nat} (hd : d < 2 ^ w) : step w n g c d < 2 ^ (w * (n + 1)) := by
  have hexp : w * (n + 1) = w * n + w := by ring
  have hlow : (c % 2 ^ (w * n)) <<< w < 2 ^ (w * (n + 1)) := by
    rw [Nat.shiftLeft_eq, hexp, Nat.pow_add]
    exact Nat.mul_lt_mul_of_pos_right (Nat.mod_lt _ (Nat.two_pow_pos _)) (Nat.two_pow_pos _)
  have hsym : d < 2 ^ (w * (n + 1)) :=
    Nat.lt_of_lt_of_le hd (Nat.pow_le_pow_right (by omega) (by rw [hexp]; omega))
  exact Nat.xor_lt_two_pow (Nat.xor_lt_two_pow hlow hsym) (hg.lt _)

theorem run_lt {c : Nat} (hc : c < 2 ^ (w * (n + 1))) {l : List UInt8}
    (hl : Radix.InBase (2 ^ w) l) : run w n g c l < 2 ^ (w * (n + 1)) := by
  induction l generalizing c with
  | nil => exact hc
  | cons d l ih =>
    rw [run_cons]
    exact ih (step_lt hg (hl d List.mem_cons_self)) fun e he => hl e (List.mem_cons_of_mem _ he)

/-- The symbol that was shifted out can be read off the lowest symbol. -/
theorem step_inj {c c' d : Nat} (hc : c < 2 ^ (w * (n + 1))) (hc' : c' < 2 ^ (w * (n + 1)))
    (h : step w n g c d = step w n g c' d) : c = c' := by
  -- By linearity it is enough that only the zero register steps to zero.
  suffices hzero : ∀ x, x < 2 ^ (w * (n + 1)) → step w n g x 0 = 0 → x = 0 by
    have hxor := step_xor hg c c' d d
    rw [Nat.xor_self, h, Nat.xor_self] at hxor
    exact Nat.xor_eq_zero_iff.mp (hzero _ (Nat.xor_lt_two_pow hc hc') hxor)
  intro x hx hstep
  rw [step, Nat.xor_zero] at hstep
  have htop : x / 2 ^ (w * n) < 2 ^ w := by
    rw [Nat.div_lt_iff_lt_mul (Nat.two_pow_pos _), ← Nat.pow_add]
    have hexp : w + w * n = w * (n + 1) := by ring
    rw [hexp]
    exact hx
  have hlow := congrArg (· % 2 ^ w) hstep
  simp only [Nat.xor_mod_two_pow, hg.low _ htop, Nat.shiftLeft_eq, Nat.mul_mod_left, Nat.zero_xor,
    Nat.zero_mod] at hlow
  rw [hlow, hg.zero, Nat.xor_zero, Nat.shiftLeft_eq] at hstep
  have hrest : x % 2 ^ (w * n) = 0 := by
    rcases Nat.mul_eq_zero.mp hstep with h0 | h0
    · exact h0
    · exact absurd h0 (Nat.two_pow_pos w).ne'
  rw [← Nat.div_add_mod x (2 ^ (w * n)), hlow, hrest]
  simp

theorem run_inj {c c' : Nat} (hc : c < 2 ^ (w * (n + 1))) (hc' : c' < 2 ^ (w * (n + 1)))
    {l : List UInt8} (hl : Radix.InBase (2 ^ w) l) (h : run w n g c l = run w n g c' l) :
    c = c' := by
  induction l generalizing c c' with
  | nil => exact h
  | cons d l ih =>
    have hd := hl d List.mem_cons_self
    rw [run_cons, run_cons] at h
    refine step_inj hg hc hc' (ih (step_lt hg hd) (step_lt hg hd) ?_ h)
    exact fun e he => hl e (List.mem_cons_of_mem _ he)

/-- A symbol shifted into a register whose top symbol is zero. -/
theorem step_small {c d : Nat} (hc : c < 2 ^ (w * n)) (hd : d < 2 ^ w) :
    step w n g c d = c * 2 ^ w + d := by
  have hor : c <<< w ^^^ d = c * 2 ^ w + d := by
    rw [← Nat.shiftLeft_eq, Nat.shiftLeft_add_eq_or_of_lt hd]
    apply Nat.eq_of_testBit_eq
    intro i
    rw [Nat.testBit_xor, Nat.testBit_or, Nat.testBit_shiftLeft]
    by_cases hi : i < w
    · simp [Nat.not_le.mpr hi]
    · rw [Nat.testBit_lt_two_pow (Nat.lt_of_lt_of_le hd (Nat.pow_le_pow_right (by omega)
        (Nat.not_lt.mp hi)))]
      simp
  rw [step, Nat.mod_eq_of_lt hc, Nat.div_eq_of_lt hc, hg.zero, Nat.xor_zero, hor]

/-- Up to `n + 1` symbols are added to what as many zeros would give. -/
theorem run_load (c : Nat) {l : List UInt8} (hl : Radix.InBase (2 ^ w) l)
    (hlen : l.length ≤ n + 1) :
    run w n g c l = run w n g c (List.replicate l.length 0) ^^^ Radix.value (2 ^ w) l := by
  induction l using List.reverseRecOn with
  | nil => simp
  | append_singleton l d ih =>
    rw [List.length_append, List.length_singleton] at hlen ⊢
    have hl' : Radix.InBase (2 ^ w) l := fun e he => hl e (List.mem_append_left _ he)
    have hd : d.toNat < 2 ^ w := hl d (List.mem_append_right _ List.mem_cons_self)
    -- The symbols so far fill at most `n` places, so nothing is fed back for them.
    have hsmall : Radix.value (2 ^ w) l < 2 ^ (w * n) := by
      have hlt := Radix.value_lt hl'
      rw [← Nat.pow_mul] at hlt
      have hle : w * l.length ≤ w * n := Nat.mul_le_mul_left w (by omega)
      exact Nat.lt_of_lt_of_le hlt (Nat.pow_le_pow_right (by omega) hle)
    have hstep := step_xor hg (run w n g c (List.replicate l.length 0)) (Radix.value (2 ^ w) l)
      0 d.toNat
    rw [Nat.zero_xor, step_small hg hsmall hd] at hstep
    rw [run_append, ih hl' (by omega), List.replicate_succ', run_append, run_cons, run_cons,
      run_nil, run_nil, hstep, Radix.value_concat, UInt8.toNat_zero]

/-- Two inputs that differ within `n + 1` consecutive symbols leave different
    registers. -/
theorem burst {c : Nat} (hc : c < 2 ^ (w * (n + 1))) {pre x y post : List UInt8}
    (hpre : Radix.InBase (2 ^ w) pre) (hx : Radix.InBase (2 ^ w) x) (hy : Radix.InBase (2 ^ w) y)
    (hpost : Radix.InBase (2 ^ w) post) (hlen : x.length = y.length) (hle : x.length ≤ n + 1)
    (h : run w n g c (pre ++ x ++ post) = run w n g c (pre ++ y ++ post)) : x = y := by
  rw [run_append, run_append, run_append c, run_append c pre y] at h
  have hmid := run_lt hg hc hpre
  have h' := run_inj hg (run_lt hg hmid hx) (run_lt hg hmid hy) hpost h
  rw [run_load hg _ hx hle, run_load hg _ hy (by omega), hlen] at h'
  exact Radix.value_inj hx hy hlen (Nat.xor_right_injective h')

end Linear

end FeedbackRegister
