import ConfluxSdk.ForStd.Radix

/-!
# Big-endian byte strings

Natural numbers written as base-256 digit strings. Two writers are provided:
`ofNat`, which uses as few bytes as possible, and `fixed k`, which always uses
`k` bytes. `toNat` reads both back.

The library mentions nothing of a particular format: both the 32-byte words of
the ABI and the length prefixes of RLP are instances.
-/

namespace BigEndian

/-- The number a big-endian byte string stands for. -/
def toNat (l : List UInt8) : Nat := Radix.value 256 l

/-- The shortest big-endian byte string of `n`; zero is the empty string. -/
def ofNat (n : Nat) : List UInt8 :=
  ((Nat.digits 256 n).map UInt8.ofNat).reverse

/-- The low `k` bytes of `n`, big-endian. -/
def fixed (k n : Nat) : List UInt8 := Radix.fixed 256 k n

/-! ### Reading -/

/-- Every byte is a digit. -/
theorem inBase (l : List UInt8) : Radix.InBase 256 l := fun d _ => d.toNat_lt

@[simp] theorem toNat_nil : toNat [] = 0 := rfl

theorem toNat_cons (b : UInt8) (l : List UInt8) :
    toNat (b :: l) = b.toNat * 256 ^ l.length + toNat l := Radix.value_cons b l

theorem toNat_concat (l : List UInt8) (b : UInt8) :
    toNat (l ++ [b]) = toNat l * 256 + b.toNat := Radix.value_concat l b

/-- Leading zero bytes do not change the number. -/
@[simp] theorem toNat_replicate_zero_append (k : Nat) (l : List UInt8) :
    toNat (List.replicate k 0 ++ l) = toNat l := by
  induction k with
  | zero => simp
  | succ k ih =>
    rw [List.replicate_succ, List.cons_append, toNat_cons, ih]
    simp

theorem toNat_lt (l : List UInt8) : toNat l < 256 ^ l.length := Radix.value_lt (inBase l)

/-! ### The shortest writer -/

@[simp] theorem ofNat_zero : ofNat 0 = [] := by simp [ofNat]

/-- The last byte of the shortest string is the number modulo 256. -/
theorem ofNat_pos {n : Nat} (hn : 0 < n) :
    ofNat n = ofNat (n / 256) ++ [UInt8.ofNat n] := by
  have hmod : UInt8.ofNat (n % 256) = UInt8.ofNat n := by
    apply UInt8.toNat_inj.mp
    simp
  rw [ofNat, Nat.digits_def' (by omega) hn, List.map_cons, List.reverse_cons, hmod]
  rfl

@[simp] theorem toNat_ofNat (n : Nat) : toNat (ofNat n) = n := by
  induction n using Nat.strong_induction_on with
  | _ n ih =>
    rcases Nat.eq_zero_or_pos n with rfl | hn
    · simp
    · rw [ofNat_pos hn, toNat_concat, ih (n / 256) (by omega)]
      simp
      omega

/-- Length of the shortest string: `n` needs at most `k` bytes exactly when it
    is below `256 ^ k`. -/
theorem length_ofNat_le_iff (n k : Nat) : (ofNat n).length ≤ k ↔ n < 256 ^ k := by
  rw [ofNat, List.length_reverse, List.length_map]
  exact Nat.digits_length_le_iff (by omega) n

theorem length_ofNat_pos {n : Nat} (hn : 0 < n) : 0 < (ofNat n).length := by
  rw [ofNat_pos hn]
  simp

/-- The shortest string does not start with a zero byte. -/
theorem head_ofNat_ne_zero {n : Nat} (hn : 0 < n) : ∃ b l, ofNat n = b :: l ∧ b ≠ 0 := by
  obtain ⟨b, l, hbl⟩ : ∃ b l, ofNat n = b :: l :=
    List.exists_cons_of_length_pos (length_ofNat_pos hn)
  refine ⟨b, l, hbl, ?_⟩
  rintro rfl
  -- With a leading zero the tail alone would represent `n` in fewer bytes.
  have hlt : n < 256 ^ l.length := by
    have := toNat_lt l
    rwa [← toNat_ofNat n, hbl, toNat_cons, UInt8.toNat_zero, Nat.zero_mul, Nat.zero_add]
  have := (length_ofNat_le_iff n l.length).mpr hlt
  rw [hbl, List.length_cons] at this
  omega

/-- A string that does not start with a zero byte is the shortest one of its number. -/
theorem ofNat_toNat {b : UInt8} {l : List UInt8} (hb : b ≠ 0) :
    ofNat (toNat (b :: l)) = b :: l := by
  have hpos : 0 < b.toNat := Nat.pos_of_ne_zero fun hzero => hb (UInt8.toNat_inj.mp hzero)
  have hlow : 256 ^ l.length ≤ toNat (b :: l) := by
    rw [toNat_cons]
    exact Nat.le_trans (Nat.le_mul_of_pos_left _ hpos) (Nat.le_add_right _ _)
  have hge : ¬ (ofNat (toNat (b :: l))).length ≤ l.length := by
    rw [length_ofNat_le_iff]
    exact Nat.not_lt.mpr hlow
  have hle := (length_ofNat_le_iff (toNat (b :: l)) (b :: l).length).mpr (toNat_lt _)
  rw [List.length_cons] at hle
  apply Radix.value_inj (inBase _) (inBase _)
  · rw [List.length_cons]
    omega
  · exact toNat_ofNat _

/-! ### The fixed-width writer -/

@[simp] theorem length_fixed (k n : Nat) : (fixed k n).length = k := Radix.length_fixed k n

theorem toNat_fixed (k n : Nat) : toNat (fixed k n) = n % 256 ^ k :=
  Radix.value_fixed (by decide) (Nat.le_refl _) k n

theorem toNat_fixed_of_lt {k n : Nat} (h : n < 256 ^ k) : toNat (fixed k n) = n := by
  rw [toNat_fixed, Nat.mod_eq_of_lt h]

/-- Only the low `k` bytes are written. -/
theorem fixed_mod (k n : Nat) : fixed k (n % 256 ^ k) = fixed k n :=
  Radix.fixed_mod (by decide) (Nat.le_refl _) k n

/-- Two byte strings of one length that stand for the same number are equal. -/
theorem toNat_inj {l m : List UInt8} (hlen : l.length = m.length)
    (h : toNat l = toNat m) : l = m := Radix.value_inj (inBase l) (inBase m) hlen h

/-- Reading a string back and writing it at its own length is the identity. -/
theorem fixed_toNat (l : List UInt8) : fixed l.length (toNat l) = l := by
  apply toNat_inj (by simp)
  exact toNat_fixed_of_lt (toNat_lt l)

/-- The fixed-width string is the shortest one padded with zero bytes on the left. -/
theorem fixed_eq_pad {k n : Nat} (h : n < 256 ^ k) :
    fixed k n = List.replicate (k - (ofNat n).length) 0 ++ ofNat n := by
  have hle := (length_ofNat_le_iff n k).mpr h
  apply toNat_inj
  · simp
    omega
  · rw [toNat_fixed_of_lt h, toNat_replicate_zero_append, toNat_ofNat]

end BigEndian
