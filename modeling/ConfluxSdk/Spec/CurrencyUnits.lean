import ConfluxSdk.Native.Currency
import ConfluxSdk.Spec.BoostNumbers
import ConfluxSdk.Spec.QuantityText

/-!
# Currency units on integer texts

A text of digits is read by two constructors: a `Drip` text by that of an integer, which
takes a zero in front for an octal prefix, the other units by that of a decimal float, which
does not. Both mean the same number exactly when no zero is in front, or when the octal number
has one digit.

## Key results

- `digitsValue_octal_iff`: the texts that mean the same in both bases
- `Currency.drip_exact_iff`: the texts of drips
- `Currency.units_agree_iff`: the texts on which the four units agree
-/

namespace ConfluxSdk

/-! ### Octal and decimal digits -/

theorem digitsValue_concat (base : Nat) (ds : Str) (c : Char) :
    digitsValue base (ds ++ [c]) = digitsValue base ds * base + digitValue c := by
  rw [digitsValue_append, digitsValue_singleton, List.length_singleton, Nat.pow_one]

theorem digitsValue_octal_le (ds : Str) : digitsValue 8 ds ≤ digitsValue 10 ds := by
  induction ds using List.reverseRecOn with
  | nil => exact Nat.le_refl _
  | append_singleton ds c ih =>
    rw [digitsValue_concat, digitsValue_concat]
    omega

theorem digitsValue_eq_zero_iff {ds : Str} :
    digitsValue 10 ds = 0 ↔ ∀ c ∈ ds, digitValue c = 0 := by
  induction ds using List.reverseRecOn with
  | nil => simp [digitsValue]
  | append_singleton ds c ih =>
    have hsum : digitsValue 10 ds * 10 + digitValue c = 0 ↔
        digitsValue 10 ds = 0 ∧ digitValue c = 0 := by omega
    rw [digitsValue_concat, hsum, ih]
    simp [or_imp, forall_and]

/-- Only the last digit counts the same in both bases. -/
theorem digitsValue_octal_iff (ds : Str) (c : Char) :
    digitsValue 8 (ds ++ [c]) = digitsValue 10 (ds ++ [c]) ↔ ∀ d ∈ ds, digitValue d = 0 := by
  have hle := digitsValue_octal_le ds
  -- Digits in front weigh eight times in one base and ten times in the other.
  rw [digitsValue_concat, digitsValue_concat, ← digitsValue_eq_zero_iff]
  omega

/-- The digits of a decimal text and their values. -/
theorem IsDecimalText.digitValue_lt {s : Str} (h : IsDecimalText s) :
    ∀ c ∈ s, digitValue c < 10 ∧ (digitValue c = 0 ↔ c = '0') := by
  have hall : Regex.digits.all
      (fun c => digitValue c < 10 ∧ (digitValue c = 0 ↔ c = '0')) = true := by decide
  intro c hc
  simpa using List.all_eq_true.mp hall c (h c hc)

/-- All digits but the last are zero, and the last is one of base eight. -/
def OneOctalDigit (s : Str) : Prop :=
  (∀ c ∈ s.dropLast, c = '0') ∧ digitValue (s.getLastD '0') < 8

instance (s : Str) : Decidable (OneOctalDigit s) :=
  @instDecidableAnd _ _ (List.decidableBAll _ _) inferInstance

theorem oneOctalDigit_concat (ds : Str) (d : Char) :
    OneOctalDigit (ds ++ [d]) ↔ (∀ e ∈ ds, e = '0') ∧ digitValue d < 8 := by
  rw [OneOctalDigit, List.dropLast_concat, List.getLastD_concat]

/-- A zero in front does not change the decimal number. -/
theorem digitsValue_zero_cons (s : Str) : digitsValue 10 ('0' :: s) = digitsValue 10 s := by
  have hsplit : '0' :: s = ['0'] ++ s := rfl
  have hzero : digitValue '0' = 0 := rfl
  rw [hsplit, digitsValue_append, digitsValue_singleton, hzero, Nat.zero_mul, Nat.zero_add]

/-- Texts of which both bases read the same number. -/
theorem OneOctalDigit.iff_value {ds : Str} {d : Char} (hs : IsDecimalText (ds ++ [d]))
    (hd : digitValue d < 8) :
    OneOctalDigit ('0' :: (ds ++ [d])) ↔
      digitsValue 8 (ds ++ [d]) = digitsValue 10 (ds ++ [d]) := by
  have hzeros : (∀ e ∈ ds, digitValue e = 0) ↔ ∀ e ∈ ds, e = '0' :=
    forall₂_congr fun e he => (hs.digitValue_lt e (List.mem_append_left _ he)).2
  rw [digitsValue_octal_iff, hzeros, ← List.cons_append, oneOctalDigit_concat, and_iff_left hd]
  simp

/-- All digits of such a text are octal. -/
theorem OneOctalDigit.digitValue_lt {ds : Str} {d : Char} (h : OneOctalDigit (ds ++ [d])) :
    ∀ e ∈ ds ++ [d], digitValue e < 8 := by
  obtain ⟨hzeros, hd⟩ := (oneOctalDigit_concat ds d).mp h
  intro e he
  rcases List.mem_append.mp he with he | he
  · rw [hzeros e he]
    decide
  · rw [List.mem_singleton.mp he]
    exact hd

/-! ### Exact decimal floats -/

/-- The documented behaviour of a decimal float on integers it has digits for: it reads and
    multiplies them exactly, and an integer is not cut off when it is converted. The ratios
    of the units are exact as a `double`. -/
structure DecFloat50.Exact (dec : DecFloat50) (value : dec.Num → Rat) : Prop where
  ofText : ∀ s, s ≠ [] → IsDecimalText s → digitsValue 10 s < 10 ^ 50 →
    ∃ x, dec.ofText s = some x ∧ value x = digitsValue 10 s
  ofDouble : ∀ k ≤ 18, value (dec.ofDouble (10 ^ k)) = ((10 ^ k : Nat) : Rat)
  mul : ∀ (x y : dec.Num) (m n : Nat), value x = m → value y = n → m * n < 10 ^ 50 →
    value (dec.mul x y) = ((m * n : Nat) : Rat)
  toU256 : ∀ (x : dec.Num) (n : Nat), value x = n → n < 10 ^ 50 → (dec.toU256 x).val = n

namespace Currency

variable {boost : Boost} {dec : DecFloat50} {value : dec.Num → Rat}

/-- A text of a unit of `10 ^ k` drips. -/
theorem scaled_exact (hdec : dec.Exact value) {k : Nat} (hk : k ≤ 18) {s : Str} (hne : s ≠ [])
    (hs : IsDecimalText s) (hv : digitsValue 10 s * 10 ^ 18 < 10 ^ 50) :
    ((dec.ofText s).map (scaled dec (10 ^ k))).map Fin.val = some (digitsValue 10 s * 10 ^ k) := by
  -- The product has no more than the fifty digits of the float.
  have hpow : 10 ^ k ≤ 10 ^ 18 := Nat.pow_le_pow_right (by decide) hk
  have hprod : 10 ^ k * digitsValue 10 s < 10 ^ 50 := by
    rw [Nat.mul_comm]
    exact Nat.lt_of_le_of_lt (Nat.mul_le_mul_left _ hpow) hv
  obtain ⟨x, hx, hval⟩ := hdec.ofText s hne hs (by omega)
  have hmul := hdec.mul _ x _ _ (hdec.ofDouble k hk) hval hprod
  have hcut := hdec.toU256 _ _ hmul hprod
  rw [hx, Option.map_some, Option.map_some, scaled, hcut, Nat.mul_comm]

/-- A number that the integer constructor has read is kept. -/
theorem drip_of_number {s : Str} {n : Nat} (h : boost.number 32 s = some n) (hn : n < 2 ^ 256) :
    (drip boost s).map Fin.val = some n := by
  rw [drip, h]
  exact congrArg some (Nat.mod_eq_of_lt hn)

/-- With a zero in front a text of drips is read as octal. -/
theorem drip_octal_iff (hboost : boost.Documented) {s : Str} (hs : IsDecimalText s)
    (hv : digitsValue 10 s < 2 ^ 256) :
    (drip boost ('0' :: s)).map Fin.val = some (digitsValue 10 s) ↔ OneOctalDigit ('0' :: s) := by
  have hle := digitsValue_octal_le s
  have hwidth : (256 : Nat) ^ 32 = 2 ^ 256 := by norm_num
  by_cases hoctal : ∀ e ∈ s, digitValue e < 8
  · have hread := hboost.octal 32 s hoctal (by omega)
    rw [drip_of_number hread (by omega), Option.some.injEq]
    rcases List.eq_nil_or_concat s with rfl | ⟨ds, d, rfl⟩
    · -- The text of zero.
      exact iff_of_true rfl (by decide)
    · rw [List.concat_eq_append] at hs hoctal ⊢
      exact (OneOctalDigit.iff_value hs (hoctal d (by simp))).symm
  · -- A digit that is not octal is an exception.
    have hread := hboost.octal_bad 32 s hs hoctal
    have hnone : (drip boost ('0' :: s)).map Fin.val = none := by
      rw [drip, hread]
      rfl
    rw [hnone]
    refine iff_of_false (by simp) fun hone => hoctal fun e he => ?_
    rcases List.eq_nil_or_concat s with rfl | ⟨ds, d, rfl⟩
    · cases he
    · rw [List.concat_eq_append] at hone he
      exact @OneOctalDigit.digitValue_lt ('0' :: ds) d hone e (List.mem_cons_of_mem _ he)

/-- A text of drips means its decimal value exactly when it has no zero in front or one octal
    digit. -/
theorem drip_exact_iff (hboost : boost.Documented) {s : Str} (hne : s ≠ []) (hs : IsDecimalText s)
    (hv : digitsValue 10 s < 2 ^ 256) :
    (drip boost s).map Fin.val = some (digitsValue 10 s) ↔
      s.head? ≠ some '0' ∨ OneOctalDigit s := by
  obtain ⟨c, t, rfl⟩ := List.exists_cons_of_ne_nil hne
  by_cases hc : c = '0'
  · subst hc
    have hhead : ¬ (('0' :: t).head? ≠ some '0') := by simp
    have ht : IsDecimalText t := fun d hd => hs d (List.mem_cons_of_mem _ hd)
    rw [digitsValue_zero_cons] at hv ⊢
    rw [or_iff_right hhead, drip_octal_iff hboost ht hv]
  · have hwidth : (256 : Nat) ^ 32 = 2 ^ 256 := by norm_num
    have hread := hboost.decimal 32 c t hs hc (by omega)
    exact iff_of_true (drip_of_number hread hv) (.inl (by simpa using hc))

/-- The amounts that a text stands for in the four units, and what they say of each other. -/
structure UnitsAgree (boost : Boost) (dec : DecFloat50) (s : Str) (v : Nat) : Prop where
  drip_eq : (drip boost s).map Fin.val = some v
  gDrip_eq : (gDrip dec s).map Fin.val = some (v * 10 ^ 9)
  uCFX_eq : (uCFX dec s).map Fin.val = some (v * 10 ^ 12)
  cfx_eq : (cfx dec s).map Fin.val = some (v * 10 ^ 18)
  gDrip_drip : (drip boost s).map (· * 10 ^ 9) = gDrip dec s
  uCFX_drip : (drip boost s).map (· * 10 ^ 12) = uCFX dec s
  cfx_drip : (drip boost s).map (· * 10 ^ 18) = cfx dec s

/-- Amounts are multiplied as `u256`. -/
theorem map_mul_eq {x y : Option U256} {v k : Nat} (hx : x.map Fin.val = some v)
    (hy : y.map Fin.val = some (v * k)) (hk : k < 2 ^ 256) :
    x.map (· * Fin.ofNat (2 ^ 256) k) = y := by
  obtain ⟨a, rfl, rfl⟩ := Option.map_eq_some_iff.mp hx
  obtain ⟨b, rfl, hb⟩ := Option.map_eq_some_iff.mp hy
  apply congrArg some
  apply Fin.ext
  have hlt := b.isLt
  -- The product does not wrap: it is the amount that the other unit has read.
  show a.val * (k % 2 ^ 256) % 2 ^ 256 = b.val
  rw [Nat.mod_eq_of_lt hk, ← hb, Nat.mod_eq_of_lt (by omega)]

/-- The four units agree on a text of digits exactly when it has no zero in front or one octal
    digit. -/
theorem units_agree_iff (hboost : boost.Documented) (hdec : dec.Exact value) {s : Str}
    (hne : s ≠ []) (hs : IsDecimalText s) (hv : digitsValue 10 s * 10 ^ 18 < 10 ^ 50) :
    UnitsAgree boost dec s (digitsValue 10 s) ↔ s.head? ≠ some '0' ∨ OneOctalDigit s := by
  rw [← drip_exact_iff hboost hne hs (by omega)]
  -- The floats are right on every text, so the integer decides.
  have hg := scaled_exact hdec (by decide : 9 ≤ 18) hne hs hv
  have hu := scaled_exact hdec (by decide : 12 ≤ 18) hne hs hv
  have hc := scaled_exact hdec (by decide : 18 ≤ 18) hne hs hv
  constructor
  · exact fun h => h.drip_eq
  · exact fun hd => ⟨hd, hg, hu, hc, map_mul_eq hd hg (by decide), map_mul_eq hd hu (by decide),
      map_mul_eq hd hc (by decide)⟩

/-! ### Texts with zeros in front -/

/-- Decimal floats as rational numbers, for texts of digits. -/
def rational : DecFloat50 where
  Num := Rat
  ofText s := if s ≠ [] ∧ s.all Regex.digits.elem then some (digitsValue 10 s : Nat) else none
  ofDouble n := n
  mul x y := x * y
  toU256 x := Fin.ofNat (2 ^ 256) ⌊x⌋₊

theorem rational_exact : rational.Exact id where
  ofText s hne hs _ := by
    have hall : s.all Regex.digits.elem = true :=
      List.all_eq_true.mpr fun c hc => List.elem_iff.mpr (hs c hc)
    exact ⟨_, if_pos ⟨hne, hall⟩, rfl⟩
  ofDouble k _ := rfl
  mul := by
    intro (x : Rat) (y : Rat) m n hx hy _
    obtain rfl : x = m := hx
    obtain rfl : y = n := hy
    exact (Nat.cast_mul m n).symm
  toU256 := by
    intro (x : Rat) n hx hn
    obtain rfl : x = n := hx
    show ⌊(n : Rat)⌋₊ % 2 ^ 256 = n
    rw [Nat.floor_natCast]
    omega

/-- A text without a zero in front, and the text of zero. -/
theorem units_agree_small :
    UnitsAgree .reader rational "1123456789".toList 1123456789 ∧
      UnitsAgree .reader rational "0".toList 0 := by
  have hlong : digitsValue 10 "1123456789".toList = 1123456789 := by decide
  have hzero : digitsValue 10 "0".toList = 0 := by decide
  constructor
  · rw [← hlong]
    refine (units_agree_iff Boost.reader_documented rational_exact (by decide) (by decide) ?_).mpr
      (.inl (by decide))
    rw [hlong]
    norm_num
  · rw [← hzero]
    refine (units_agree_iff Boost.reader_documented rational_exact (by decide) (by decide) ?_).mpr
      (.inr (by decide))
    rw [hzero]
    norm_num

/-- Ten drips with a zero in front are eight, and nine are an exception. -/
theorem units_differ_octal :
    drip .reader "010".toList = some 8 ∧ drip .reader "09".toList = none ∧
      (gDrip rational "010".toList).map Fin.val = some (10 * 10 ^ 9) ∧
      ¬ UnitsAgree .reader rational "010".toList 10 := by
  have hten : digitsValue 10 "010".toList = 10 := by decide
  have hdrip : (drip .reader "010".toList).map Fin.val = some 8 := by decide
  refine ⟨by decide, by decide, ?_, ?_⟩
  · rw [← hten]
    refine scaled_exact rational_exact (by decide : 9 ≤ 18) (by decide) (by decide) ?_
    rw [hten]
    norm_num
  · intro h
    have hagree := h.drip_eq
    rw [hdrip] at hagree
    exact absurd hagree (by decide)

end Currency

end ConfluxSdk
