import Mathlib

/-!
# Digit strings

Natural numbers written in base `b`, most significant digit first, with the
digits stored in bytes. `value` reads a digit string, `fixed k` writes the low
`k` digits of a number.

Both bytes (base 256) and the five-bit symbols of base32 texts are digit strings
in this sense, and regrouping the one into the other keeps the number.
-/

namespace Radix

variable {b : Nat}

/-- The number a digit string stands for. -/
def value (b : Nat) (l : List UInt8) : Nat := l.foldl (fun acc d => acc * b + d.toNat) 0

/-- The low `k` digits of `n`. -/
def fixed (b : Nat) : Nat → Nat → List UInt8
  | 0, _ => []
  | k + 1, n => fixed b k (n / b) ++ [UInt8.ofNat (n % b)]

/-- Every byte is a digit of base `b`. -/
def InBase (b : Nat) (l : List UInt8) : Prop := ∀ d ∈ l, d.toNat < b

theorem InBase.append {l m : List UInt8} (hl : InBase b l) (hm : InBase b m) :
    InBase b (l ++ m) := by
  intro d hd
  rcases List.mem_append.mp hd with hd | hd
  · exact hl d hd
  · exact hm d hd

theorem InBase.left {l m : List UInt8} (h : InBase b (l ++ m)) : InBase b l :=
  fun d hd => h d (List.mem_append_left _ hd)

theorem InBase.right {l m : List UInt8} (h : InBase b (l ++ m)) : InBase b m :=
  fun d hd => h d (List.mem_append_right _ hd)

theorem inBase_replicate_zero (hb : 0 < b) (k : Nat) : InBase b (List.replicate k 0) := by
  intro d hd
  rw [List.eq_of_mem_replicate hd]
  exact hb

/-! ### Reading -/

private theorem foldl_init (l : List UInt8) (a : Nat) :
    l.foldl (fun acc d => acc * b + d.toNat) a = a * b ^ l.length + value b l := by
  induction l generalizing a with
  | nil => simp [value]
  | cons d l ih =>
    simp only [value, List.foldl_cons, List.length_cons, Nat.zero_mul, Nat.zero_add]
    rw [ih, ih d.toNat, Nat.pow_succ]
    ring

@[simp] theorem value_nil : value b [] = 0 := rfl

theorem value_append (l m : List UInt8) :
    value b (l ++ m) = value b l * b ^ m.length + value b m := by
  rw [value, List.foldl_append, foldl_init]
  rfl

theorem value_cons (d : UInt8) (l : List UInt8) :
    value b (d :: l) = d.toNat * b ^ l.length + value b l := by
  have h := value_append (b := b) [d] l
  simpa [value] using h

theorem value_concat (l : List UInt8) (d : UInt8) :
    value b (l ++ [d]) = value b l * b + d.toNat := by
  simp [value, List.foldl_append]

theorem value_lt {l : List UInt8} (h : InBase b l) : value b l < b ^ l.length := by
  induction l with
  | nil => simp
  | cons d l ih =>
    have hd : d.toNat < b := h d List.mem_cons_self
    have hl := ih fun e he => h e (List.mem_cons_of_mem _ he)
    rw [value_cons, List.length_cons, Nat.pow_succ]
    calc d.toNat * b ^ l.length + value b l
        < d.toNat * b ^ l.length + b ^ l.length := Nat.add_lt_add_left hl _
      _ = (d.toNat + 1) * b ^ l.length := by ring
      _ ≤ b * b ^ l.length := Nat.mul_le_mul_right _ hd
      _ = b ^ l.length * b := Nat.mul_comm _ _

/-- Digit strings of one length are told apart by their value. -/
theorem value_inj {l m : List UInt8} (hl : InBase b l) (hm : InBase b m)
    (hlen : l.length = m.length) (h : value b l = value b m) : l = m := by
  induction l using List.reverseRecOn generalizing m with
  | nil => exact (List.length_eq_zero_iff.mp hlen.symm).symm
  | append_singleton l d ih =>
    obtain ⟨m, e, rfl⟩ : ∃ m' e, m = m' ++ [e] := by
      rcases List.eq_nil_or_concat m with rfl | ⟨m', e, rfl⟩
      · simp at hlen
      · exact ⟨m', e, List.concat_eq_append⟩
    have hd : d.toNat < b := hl d (by simp)
    have he : e.toNat < b := hm e (by simp)
    rw [value_concat, value_concat] at h
    -- The last digits are the remainders, the values of the others the quotients.
    have hdiv : value b l = value b m := by
      have h' := congrArg (· / b) h
      simpa [Nat.add_comm _ (UInt8.toNat _), Nat.add_mul_div_right _ _ (Nat.zero_lt_of_lt hd),
        Nat.div_eq_of_lt hd, Nat.div_eq_of_lt he] using h'
    have hmod : d = e := by
      rw [hdiv] at h
      exact UInt8.toNat_inj.mp (Nat.add_left_cancel h)
    have hinit := ih (fun x hx => hl x (by simp [hx])) (fun x hx => hm x (by simp [hx]))
      (by simpa using hlen) hdiv
    rw [hinit, hmod]

/-! ### Writing -/

@[simp] theorem length_fixed (k n : Nat) : (fixed b k n).length = k := by
  induction k generalizing n with
  | zero => rfl
  | succ k ih => simp [fixed, ih]

theorem inBase_fixed (hb : 0 < b) (hb' : b ≤ 256) (k n : Nat) : InBase b (fixed b k n) := by
  induction k generalizing n with
  | zero => intro d hd; simp [fixed] at hd
  | succ k ih =>
    intro d hd
    rcases List.mem_append.mp hd with hd | hd
    · exact ih (n / b) d hd
    · rw [List.mem_singleton.mp hd]
      have hlt := Nat.mod_lt n hb
      rw [UInt8.toNat_ofNat_of_lt' (Nat.lt_of_lt_of_le hlt hb')]
      exact hlt

/-- The low digits come last. -/
theorem fixed_add (k m n : Nat) : fixed b (k + m) n = fixed b k (n / b ^ m) ++ fixed b m n := by
  induction m generalizing n with
  | zero => simp [fixed]
  | succ m ih =>
    rw [← Nat.add_assoc, fixed, ih, fixed, Nat.div_div_eq_div_mul, ← Nat.pow_succ',
      List.append_assoc]

theorem value_fixed (hb : 0 < b) (hb' : b ≤ 256) (k n : Nat) :
    value b (fixed b k n) = n % b ^ k := by
  induction k generalizing n with
  | zero => simp [fixed, Nat.mod_one]
  | succ k ih =>
    have hlt := Nat.mod_lt n hb
    rw [fixed, value_concat, ih, UInt8.toNat_ofNat_of_lt' (Nat.lt_of_lt_of_le hlt hb'),
      Nat.pow_succ', Nat.mod_mul]
    ring

theorem value_fixed_of_lt (hb : 0 < b) (hb' : b ≤ 256) {k n : Nat} (h : n < b ^ k) :
    value b (fixed b k n) = n := by
  rw [value_fixed hb hb', Nat.mod_eq_of_lt h]

/-- A digit string is written back from its value. -/
theorem fixed_value (hb : 0 < b) (hb' : b ≤ 256) {l : List UInt8} (h : InBase b l) :
    fixed b l.length (value b l) = l := by
  apply value_inj (inBase_fixed hb hb' _ _) h (length_fixed _ _)
  exact value_fixed_of_lt hb hb' (value_lt h)

/-- Only the low `k` digits are written. -/
theorem fixed_mod (hb : 0 < b) (hb' : b ≤ 256) (k n : Nat) :
    fixed b k (n % b ^ k) = fixed b k n := by
  apply value_inj (inBase_fixed hb hb' _ _) (inBase_fixed hb hb' _ _) (by simp)
  rw [value_fixed hb hb', value_fixed hb hb', Nat.mod_mod]

end Radix
