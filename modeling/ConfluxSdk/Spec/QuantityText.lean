import ConfluxSdk.Native.CommonJS
import ConfluxSdk.Spec.RlpReadCorrect

/-!
# Quantities as hexadecimal texts

The writer goes over the bytes of a number and drops one leading zero digit, the reader
takes an odd text to start with a byte of one digit. Both are compared with the digits
of the number in base sixteen: those are what is written, and their value is what is
read, for all texts of hexadecimal digits.

## Key results

- `digitsValue_toDigits`: the digits of a number spell it
- `Dev.toJS_eq`: what is written
- `Dev.jsToU256_hex`: what is read
- `Dev.jsToU256_toJS`: quantities survive the encoding
-/

namespace ConfluxSdk

/-! ### Digits -/

theorem digitsValue_append (base : Nat) (ds ds' : Str) :
    digitsValue base (ds ++ ds') = digitsValue base ds * base ^ ds'.length + digitsValue base ds' := by
  induction ds' using List.reverseRecOn with
  | nil => simp [digitsValue]
  | append_singleton ds' c ih =>
    have hlast : ∀ ds : Str, digitsValue base (ds ++ [c]) =
        digitsValue base ds * base + digitValue c := by
      intro ds
      simp only [digitsValue, List.foldl_append, List.foldl_cons, List.foldl_nil]
    rw [← List.append_assoc, hlast, hlast, ih, List.length_append, List.length_singleton,
      Nat.pow_succ]
    ring

theorem digitsValue_singleton (base : Nat) (c : Char) : digitsValue base [c] = digitValue c := by
  show 0 * base + digitValue c = _
  omega

/-- The digits of base sixteen, with their values. -/
theorem digitValue_digitChar {d : Nat} (hd : d < 16) : digitValue d.digitChar = d := by
  interval_cases d <;> decide

/-- The digits of a number spell it. -/
theorem digitsValue_toDigits (n : Nat) : digitsValue 16 (Nat.toDigits 16 n) = n := by
  induction n using Nat.strong_induction_on with
  | _ n ih =>
    rw [Nat.toDigits_eq_if (by decide)]
    split
    · rename_i hlt
      rw [digitsValue_singleton, digitValue_digitChar hlt]
    · have hlt : n / 16 < n := by omega
      have hmod : n % 16 < 16 := by omega
      rw [digitsValue_append, ih _ hlt, digitsValue_singleton, digitValue_digitChar hmod]
      show n / 16 * 16 ^ 1 + n % 16 = n
      omega

/-- Texts of hexadecimal digits, in either case. -/
def IsHexText (ds : Str) : Prop := ∀ c ∈ ds, digitValue c < 16

instance (ds : Str) : Decidable (IsHexText ds) := List.decidableBAll _ ds

theorem isHexText_toDigits (n : Nat) : IsHexText (Nat.toDigits 16 n) := by
  induction n using Nat.strong_induction_on with
  | _ n ih =>
    rw [Nat.toDigits_eq_if (by decide)]
    split
    · rename_i hlt
      intro c hc
      rw [List.mem_singleton.mp hc, digitValue_digitChar hlt]
      exact hlt
    · have hlt : n / 16 < n := by omega
      have hmod : n % 16 < 16 := by omega
      intro c hc
      rcases List.mem_append.mp hc with hc | hc
      · exact ih _ hlt c hc
      · rw [List.mem_singleton.mp hc, digitValue_digitChar hmod]
        exact hmod

/-- A number other than zero does not start with the digit zero. -/
theorem head_toDigits_ne_zero {n : Nat} (hn : 0 < n) : (Nat.toDigits 16 n).head? ≠ some '0' := by
  induction n using Nat.strong_induction_on with
  | _ n ih =>
    rw [Nat.toDigits_eq_if (by decide)]
    split
    · rename_i hlt
      interval_cases n <;> decide
    · have hrest := ih (n / 16) (by omega) (by omega)
      rw [List.head?_append]
      cases hdigits : Nat.toDigits 16 (n / 16) with
      | nil => exact absurd hdigits Nat.toDigits_ne_nil
      | cons c ds =>
        rw [hdigits] at hrest
        exact hrest

/-! ### Writing -/

namespace Dev

/-- The digits of the last byte of a number. -/
theorem encodeByte_eq (n : Nat) :
    Hex.encodeByte (UInt8.ofNat n) = [(n % 256 / 16).digitChar, (n % 256 % 16).digitChar] := by
  have hall : ∀ b, b < 256 →
      Hex.encodeByte (UInt8.ofNat b) = [(b / 16).digitChar, (b % 16).digitChar] := by
    decide +kernel
  have hbyte : UInt8.ofNat n = UInt8.ofNat (n % 256) := by
    apply UInt8.toNat_inj.mp
    rw [UInt8.toNat_ofNat', UInt8.toNat_ofNat']
    omega
  rw [hbyte]
  exact hall (n % 256) (by omega)

/-- The text of some bytes without the digit zero in front. -/
def trimZero (h : Str) : Str := if h.headD ' ' ≠ '0' then h else h.drop 1

theorem trimZero_append {h : Str} (hne : h ≠ []) (h' : Str) :
    trimZero (h ++ h') = trimZero h ++ h' := by
  obtain ⟨c, h, rfl⟩ := List.exists_cons_of_ne_nil hne
  unfold trimZero
  show (if c ≠ '0' then _ else _) = (if c ≠ '0' then _ else _) ++ h'
  split
  · rfl
  · rfl

/-- The bytes of a number, as digits, are the digits of the number. -/
theorem trimZero_toHex {n : Nat} (hn : 0 < n) :
    trimZero (toHex (BigEndian.ofNat n)) = Nat.toDigits 16 n := by
  induction n using Nat.strong_induction_on with
  | _ n ih =>
    have hbytes : toHex (BigEndian.ofNat n) = toHex (BigEndian.ofNat (n / 256)) ++
        [(n % 256 / 16).digitChar, (n % 256 % 16).digitChar] := by
      rw [BigEndian.ofNat_pos hn, toHex, Hex.encodeToString, List.flatMap_append,
        List.flatMap_singleton, encodeByte_eq]
      rfl
    rw [hbytes]
    by_cases hone : n < 256
    · -- One byte; its first digit may be zero.
      have hzero : n / 256 = 0 := by omega
      rw [hzero, BigEndian.ofNat_zero, Nat.mod_eq_of_lt hone]
      show trimZero [(n / 16).digitChar, (n % 16).digitChar] = _
      by_cases hdigit : n < 16
      · have hfirst : n / 16 = 0 := by omega
        rw [Nat.toDigits_of_lt_base hdigit, hfirst, Nat.mod_eq_of_lt hdigit]
        rfl
      · have hfirst : (n / 16).digitChar ≠ '0' := by
          have hlo : 1 ≤ n / 16 := by omega
          have hhi : n / 16 < 16 := by omega
          generalize n / 16 = d at hlo hhi
          interval_cases d <;> decide
        have hlt : n / 16 < 16 := by omega
        rw [Nat.toDigits_of_base_le (by decide) (by omega), Nat.toDigits_of_lt_base hlt]
        exact if_pos hfirst
    · -- The last byte adds its two digits.
      have hne : toHex (BigEndian.ofNat (n / 256)) ≠ [] := by
        obtain ⟨b, l, hbl, _⟩ := BigEndian.head_ofNat_ne_zero (n := n / 256) (by omega)
        rw [hbl]
        exact List.cons_ne_nil _ _
      have hdiv : n / 16 / 16 = n / 256 := by omega
      have hhi : n % 256 / 16 = n / 16 % 16 := by omega
      have hlo : n % 256 % 16 = n % 16 := by omega
      rw [trimZero_append hne, ih (n / 256) (by omega) (by omega), hhi, hlo,
        Nat.toDigits_of_base_le (b := 16) (n := n) (by decide) (by omega),
        Nat.toDigits_of_base_le (b := 16) (n := n / 16) (by decide) (by omega), hdiv,
        List.append_assoc]
      rfl

/-- A number is written as `0x` and its digits; zero has one digit. -/
theorem toJS_eq (n : Nat) : toJS n = "0x".toList ++ Nat.toDigits 16 n := by
  show "0x".toList ++ trimZero (toHex (toCompactBigEndian n 1)) = _
  by_cases hzero : n = 0
  · rw [hzero, toCompactBigEndian, BigEndian.ofNat_zero]
    rfl
  · have hpos : 0 < n := by omega
    have hlen := BigEndian.length_ofNat_pos hpos
    have hmin : 1 - (BigEndian.ofNat n).length = 0 := by omega
    rw [toCompactBigEndian]
    simp only [hmin]
    rw [List.replicate_zero, List.nil_append, trimZero_toHex hpos]

/-! ### Reading -/

/-- The table of the reader holds the digits. -/
theorem fromHexChar_eq {c : Char} (hc : digitValue c < 16) :
    Hex.fromHexChar c = some (UInt8.ofNat (digitValue c)) := by
  unfold digitValue at hc ⊢
  unfold Hex.fromHexChar
  -- The ranges of the table are tried in the order of the source.
  by_cases hdigit : '0' ≤ c ∧ c ≤ '9'
  · rw [if_pos hdigit, if_pos hdigit]
  rw [if_neg hdigit] at hc
  rw [if_neg hdigit, if_neg hdigit]
  by_cases hlower : 'a' ≤ c ∧ c ≤ 'z'
  · rw [if_pos hlower] at hc
    have hrange : 'a' ≤ c ∧ c ≤ 'f' := by
      refine ⟨hlower.1, ?_⟩
      show c.toNat ≤ 102
      have ha : 97 ≤ c.toNat := hlower.1
      have hval : c.toNat - 97 + 10 < 16 := hc
      omega
    rw [if_pos hrange, if_pos hlower]
  rw [if_neg hlower] at hc
  -- What is no small letter is none of the first six.
  have hnot : ¬ ('a' ≤ c ∧ c ≤ 'f') := by
    intro h
    exact hlower ⟨h.1, Nat.le_trans h.2 (by decide)⟩
  rw [if_neg hnot, if_neg hlower]
  by_cases hupper : 'A' ≤ c ∧ c ≤ 'Z'
  · rw [if_pos hupper] at hc
    have hrange : 'A' ≤ c ∧ c ≤ 'F' := by
      refine ⟨hupper.1, ?_⟩
      show c.toNat ≤ 70
      have ha : 65 ≤ c.toNat := hupper.1
      have hval : c.toNat - 65 + 10 < 16 := hc
      omega
    rw [if_pos hrange, if_pos hupper]
  · rw [if_neg hupper] at hc
    exact absurd hc (by decide)

/-- Two digits make a byte. -/
theorem sixteen_pow_double (k : Nat) : 16 ^ (2 * k) = 256 ^ k := by
  rw [pow_mul]
  norm_num

private theorem toNat_digit {c : Char} (hc : digitValue c < 16) :
    (UInt8.ofNat (digitValue c)).toNat = digitValue c := by
  rw [UInt8.toNat_ofNat']
  omega

/-- Pairs of digits are read as bytes of the same value. -/
theorem fromHexPairs_hex {ds : Str} {k : Nat} (hlen : ds.length = 2 * k) (hds : IsHexText ds) :
    ∃ bytes, fromHexPairs ds = some bytes ∧ bytes.length = k ∧
      BigEndian.toNat bytes = digitsValue 16 ds := by
  -- The induction is on the pairs, two digits at a time.
  induction k generalizing ds with
  | zero =>
    rw [List.length_eq_zero_iff.mp hlen]
    exact ⟨[], rfl, rfl, rfl⟩
  | succ k ih =>
    rcases ds with _ | ⟨c, _ | ⟨d, ds⟩⟩
    · cases hlen
    · simp only [List.length_cons, List.length_nil] at hlen
      omega
    · simp only [List.length_cons] at hlen
      have hc : digitValue c < 16 := hds c (by simp)
      have hd : digitValue d < 16 := hds d (by simp)
      have hrest : ds.length = 2 * k := by omega
      obtain ⟨bytes, hbytes, hcount, hvalue⟩ := ih hrest (fun x hx => hds x (by simp [hx]))
      refine ⟨(UInt8.ofNat (digitValue c) * 16 + UInt8.ofNat (digitValue d)) :: bytes, ?_, ?_, ?_⟩
      · rw [fromHexPairs, fromHexChar_eq hc, fromHexChar_eq hd]
        simp only [hbytes]
        rfl
      · rw [List.length_cons, hcount]
      · have hbyte : (UInt8.ofNat (digitValue c) * 16 + UInt8.ofNat (digitValue d)).toNat =
            digitValue c * 16 + digitValue d := by
          rw [UInt8.toNat_add, UInt8.toNat_mul, toNat_digit hc, toNat_digit hd]
          show (digitValue c * 16 % 256 + digitValue d) % 256 = _
          omega
        have hpow : (16 : Nat) ^ ds.length = 256 ^ k := by
          have hlen' : ds.length = 2 * k := by omega
          rw [hlen', sixteen_pow_double]
        have hsplit : digitsValue 16 (c :: d :: ds) =
            digitsValue 16 [c, d] * 16 ^ ds.length + digitsValue 16 ds :=
          digitsValue_append 16 [c, d] ds
        have htwo : digitsValue 16 [c, d] = digitValue c * 16 + digitValue d := by
          show (0 * 16 + digitValue c) * 16 + digitValue d = _
          omega
        rw [BigEndian.toNat_cons, hbyte, hcount, hvalue, hsplit, htwo, hpow]

/-- Hexadecimal texts are read as bytes of the same value, an odd digit first. -/
theorem fromHex_hex {ds : Str} (hds : IsHexText ds) :
    ∃ bytes, fromHex ds = some bytes ∧ bytes.length = (ds.length + 1) / 2 ∧
      BigEndian.toNat bytes = digitsValue 16 ds := by
  -- A digit in the place of the `x` rules the prefix out.
  have hstem : "0x".toList.isPrefixOf ds = false := by
    rw [Bool.eq_false_iff]
    intro h
    obtain ⟨rest, hrest⟩ := List.isPrefixOf_iff_prefix.mp h
    have hx : digitValue 'x' < 16 := hds 'x' (by rw [← hrest]; simp)
    exact absurd hx (by decide)
  unfold fromHex
  rw [hstem]
  by_cases hodd : ds.length % 2 = 1
  · rw [if_pos hodd]
    cases ds with
    | nil => cases hodd
    | cons c ds =>
      rw [List.length_cons] at hodd ⊢
      have hc : digitValue c < 16 := hds c (by simp)
      have heven : ds.length = 2 * (ds.length / 2) := by omega
      obtain ⟨bytes, hbytes, hcount, hvalue⟩ :=
        fromHexPairs_hex heven (fun x hx => hds x (by simp [hx]))
      refine ⟨UInt8.ofNat (digitValue c) :: bytes, ?_, ?_, ?_⟩
      · simp only [Bool.false_eq_true, if_false, fromHexChar_eq hc, hbytes]
        rfl
      · rw [List.length_cons, hcount]
        omega
      · have hpow : (16 : Nat) ^ ds.length = 256 ^ (ds.length / 2) := by
          conv => lhs; rw [heven, sixteen_pow_double]
        have hsplit : digitsValue 16 (c :: ds) =
            digitsValue 16 [c] * 16 ^ ds.length + digitsValue 16 ds :=
          digitsValue_append 16 [c] ds
        rw [BigEndian.toNat_cons, toNat_digit hc, hcount, hvalue, hsplit, digitsValue_singleton,
          hpow]
  · rw [if_neg hodd]
    have heven : ds.length = 2 * (ds.length / 2) := by omega
    obtain ⟨bytes, hbytes, hcount, hvalue⟩ := fromHexPairs_hex heven hds
    exact ⟨bytes, hbytes, by omega, hvalue⟩

/-- Hexadecimal texts of at most sixty-four digits are read as the number they spell. -/
theorem jsToU256_hex (boost : Boost) {ds : Str} (hds : IsHexText ds) (hlen : ds.length ≤ 64) :
    jsToU256 boost ("0x".toList ++ ds) = some (Fin.ofNat (2 ^ 256) (digitsValue 16 ds)) := by
  obtain ⟨bytes, hbytes, hcount, hvalue⟩ := fromHex_hex hds
  have hread : Rlp.fromBigEndian 32 bytes = digitsValue 16 ds := by
    rw [RLP.fromBigEndian_eq (by omega), hvalue]
  have htake : ("0x".toList ++ ds).take 2 = "0x".toList := rfl
  have hdrop : ("0x".toList ++ ds).drop 2 = ds := rfl
  rw [jsToU256, jsToIntN, if_pos htake, hdrop, hbytes, Option.getD_some, hread]
  rfl

/-- Quantities survive the encoding, and are written without zeros in front. -/
theorem jsToU256_toJS (boost : Boost) (n : U256) :
    jsToU256 boost (toJS n) = some n ∧
      toJS n = "0x".toList ++ Nat.toDigits 16 n ∧
      (n ≠ 0 → (Nat.toDigits 16 n).head? ≠ some '0') ∧ toJS 0 = "0x0".toList ∧
      ∀ js mem v, js.lookup mem = some (.stringValue (toJS n)) →
        jsMem2U256 boost js mem v = some (true, n) := by
  have hlen : (Nat.toDigits 16 (n : Nat)).length ≤ 64 := by
    rw [Nat.length_toDigits_le_iff (by decide) (by decide)]
    exact n.isLt
  have hread : jsToU256 boost (toJS n) = some n := by
    rw [toJS_eq, jsToU256_hex boost (isHexText_toDigits n) hlen, digitsValue_toDigits]
    apply congrArg
    apply Fin.ext
    exact Nat.mod_eq_of_lt n.isLt
  refine ⟨hread, toJS_eq n, ?_, by decide, ?_⟩
  · intro hn
    apply head_toDigits_ne_zero
    have hne : (n : Nat) ≠ 0 := fun h => hn (Fin.ext h)
    omega
  · intro js mem v hmem
    rw [jsMem2U256, jsStringValue, hmem]
    simp only [hread]
    rfl

end Dev

end ConfluxSdk
