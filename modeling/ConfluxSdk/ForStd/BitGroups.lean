import ConfluxSdk.ForStd.Radix

/-!
# Bit strings in groups

A list of numbers of `w` bits each is a bit string, the bits of the numbers one after
another, most significant bit first. `concat w` writes the bit string of such a list,
`cut w k` cuts a bit string into `k` groups of `w` bits; behind its end there are zeros.

The lists of numbers are the digit strings of base `2 ^ w` of `Radix`, whose value is the
number of the bit string.
-/

namespace BitGroups

open Radix (value InBase)

/-- The low `w` bits of `n`. -/
def bits : Nat → Nat → List Bool
  | 0, _ => []
  | w + 1, n => bits w (n / 2) ++ [n.testBit 0]

/-- The number of a bit string. -/
def number (l : List Bool) : Nat := l.foldl (fun n b => n * 2 + b.toNat) 0

/-- The bits of groups of `w` bits, one group after another. -/
def concat (w : Nat) (groups : List UInt8) : List Bool := groups.flatMap fun g => bits w g.toNat

/-- The first `k` groups of `w` bits of a bit string. -/
def cut (w k : Nat) (l : List Bool) : List Nat :=
  (List.range k).map fun i => number (((l ++ List.replicate w false).drop (w * i)).take w)

/-! ### Bits of numbers -/

@[simp] theorem length_bits (w n : Nat) : (bits w n).length = w := by
  induction w generalizing n with
  | zero => rfl
  | succ w ih => simp [bits, ih]

/-- The low bits come last. -/
theorem bits_add (v w n : Nat) : bits (v + w) n = bits v (n / 2 ^ w) ++ bits w n := by
  induction w generalizing n with
  | zero => simp [bits]
  | succ w ih =>
    rw [← Nat.add_assoc, bits, ih, bits, Nat.div_div_eq_div_mul, ← Nat.pow_succ', List.append_assoc]

/-- A number above some others. -/
theorem bits_shift {v w m n : Nat} (hn : n < 2 ^ w) :
    bits (v + w) (m * 2 ^ w + n) = bits v m ++ bits w n := by
  have hdiv : (m * 2 ^ w + n) / 2 ^ w = m := by
    rw [Nat.mul_comm, Nat.mul_add_div (Nat.two_pow_pos w), Nat.div_eq_of_lt hn, Nat.add_zero]
  -- The low bits do not see the number above them.
  have hlow : ∀ w n : Nat, bits w (m * 2 ^ w + n) = bits w n := by
    intro w
    induction w with
    | zero => exact fun n => rfl
    | succ w ih =>
      intro n
      have heven : m * 2 ^ (w + 1) = m * 2 ^ w * 2 := by rw [Nat.pow_succ, Nat.mul_assoc]
      have hhalf : (m * 2 ^ (w + 1) + n) / 2 = m * 2 ^ w + n / 2 := by omega
      have hmod : (m * 2 ^ (w + 1) + n) % 2 = n % 2 := by omega
      have hbit : (m * 2 ^ (w + 1) + n).testBit 0 = n.testBit 0 := by
        rw [Nat.testBit_zero, Nat.testBit_zero, hmod]
      rw [bits, bits, hhalf, hbit, ih]
  rw [bits_add, hdiv, hlow]

@[simp] theorem bits_zero (w : Nat) : bits w 0 = List.replicate w false := by
  induction w with
  | zero => rfl
  | succ w ih =>
    rw [bits, Nat.zero_div, ih, List.replicate_succ']
    rfl

/-! ### Numbers of bits -/

@[simp] theorem number_nil : number [] = 0 := rfl

theorem number_concat (l : List Bool) (b : Bool) : number (l ++ [b]) = number l * 2 + b.toNat := by
  simp [number, List.foldl_append]

theorem number_bits (w n : Nat) : number (bits w n) = n % 2 ^ w := by
  induction w generalizing n with
  | zero => simp [bits, Nat.mod_one]
  | succ w ih =>
    have hbit : (n.testBit 0).toNat = n % 2 := by
      rw [Nat.testBit_zero]
      rcases Nat.mod_two_eq_zero_or_one n with h | h <;> simp [h]
    rw [bits, number_concat, ih, hbit, Nat.pow_succ', Nat.mod_mul]
    omega

theorem number_bits_of_lt {w n : Nat} (h : n < 2 ^ w) : number (bits w n) = n := by
  rw [number_bits, Nat.mod_eq_of_lt h]

/-- Zeros behind a bit string shift its number. -/
theorem number_append_zeros (l : List Bool) (k : Nat) :
    number (l ++ List.replicate k false) = number l * 2 ^ k := by
  induction k with
  | zero => simp
  | succ k ih =>
    rw [List.replicate_succ', ← List.append_assoc, number_concat, ih, Nat.pow_succ]
    simp [Nat.mul_assoc]

/-- The number of a bit string is zero if all its bits are. -/
theorem number_eq_zero_iff {l : List Bool} : number l = 0 ↔ ∀ b ∈ l, b = false := by
  induction l using List.reverseRecOn with
  | nil => simp
  | append_singleton l b ih =>
    rw [number_concat]
    cases b with
    | false => simp [ih, or_imp]
    | true => simp

/-! ### Groups -/

@[simp] theorem concat_nil (w : Nat) : concat w [] = [] := rfl

@[simp] theorem concat_cons (w : Nat) (g : UInt8) (groups : List UInt8) :
    concat w (g :: groups) = bits w g.toNat ++ concat w groups := rfl

@[simp] theorem length_concat (w : Nat) (groups : List UInt8) :
    (concat w groups).length = w * groups.length := by
  induction groups with
  | nil => rfl
  | cons g groups ih =>
    rw [concat_cons, List.length_append, length_bits, ih, List.length_cons, Nat.mul_succ]
    omega

/-- The bit string of some groups is that of their value. -/
theorem concat_eq_bits {w : Nat} {groups : List UInt8} (h : InBase (2 ^ w) groups) :
    concat w groups = bits (w * groups.length) (value (2 ^ w) groups) := by
  induction groups with
  | nil => rfl
  | cons g groups ih =>
    have hrest : InBase (2 ^ w) groups := fun d hd => h d (List.mem_cons_of_mem _ hd)
    have hlt : value (2 ^ w) groups < 2 ^ (w * groups.length) := by
      rw [Nat.pow_mul]
      exact Radix.value_lt hrest
    have hlen : w * (g :: groups).length = w + w * groups.length := by
      rw [List.length_cons, Nat.mul_succ, Nat.add_comm]
    rw [concat_cons, ih hrest, Radix.value_cons, ← Nat.pow_mul, hlen, bits_shift hlt]

/-! ### Cutting -/

theorem cut_succ (w k : Nat) (l l' : List Bool) (hl : l.length = w) :
    cut w (k + 1) (l ++ l') = number l :: cut w k l' := by
  subst hl
  rw [cut, List.range_succ_eq_map, List.map_cons, List.map_map, cut]
  congr 1
  · rw [Nat.mul_zero, List.drop_zero, List.append_assoc, List.take_left]
  · apply List.map_congr_left
    -- The group `i + 1` starts `l.length` bits further on.
    intro i _
    show number ((List.drop (l.length * (i + 1)) _).take _) = _
    rw [Nat.mul_succ, Nat.add_comm, ← List.drop_drop, List.append_assoc, List.drop_left]

/-- Groups are cut out of their bit string; what is behind them is cut on. -/
theorem cut_concat {w : Nat} {groups : List UInt8} (h : InBase (2 ^ w) groups) (k : Nat)
    (l : List Bool) :
    cut w (groups.length + k) (concat w groups ++ l) = groups.map UInt8.toNat ++ cut w k l := by
  induction groups with
  | nil => simp
  | cons g groups ih =>
    have hrest : InBase (2 ^ w) groups := fun d hd => h d (List.mem_cons_of_mem _ hd)
    have hg : g.toNat < 2 ^ w := h g List.mem_cons_self
    have hcount : (g :: groups).length + k = (groups.length + k) + 1 := by
      rw [List.length_cons]
      omega
    rw [hcount, concat_cons, List.append_assoc, cut_succ w _ _ _ (length_bits w _), ih hrest,
      number_bits_of_lt hg]
    rfl

/-- A last group that is not complete is filled with zeros. -/
theorem cut_one {w : Nat} {l : List Bool} (h : l.length ≤ w) :
    cut w 1 l = [number l * 2 ^ (w - l.length)] := by
  show [number (((l ++ List.replicate w false).drop (w * 0)).take w)] = _
  rw [Nat.mul_zero, List.drop_zero, List.take_append, List.take_of_length_le h, List.take_replicate,
    Nat.min_eq_left (Nat.sub_le _ _), number_append_zeros]

end BitGroups
