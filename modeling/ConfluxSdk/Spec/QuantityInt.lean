import ConfluxSdk.Spec.QuantityText

/-!
# Quantities that are read as an int

`jsMem2Uint64` reads a quantity with `std::stoi`, whose exceptions are ignored: a number
that is no `int`, and a text that is no number, are stored as zero. So are all
quantities from `2 ^ 31` on, while the fields have 64 bits, or 32.

## Key results

- `Dev.jsToInt_eq`: what is read, for every text
- `Dev.jsToInt_quantity`: what is read of a quantity
- `jsMem2Uint64_exact_iff`: the texts that are read as they should be
-/

namespace ConfluxSdk

/-! ### What std::stoi reads -/

/-- The number at the front of a text, behind white space and a sign, in the base that its
    prefix announces: whether the sign is a minus, and the number. Without digits the
    number is zero. -/
def frontNumber (s : Str) : Bool × Nat :=
  let (negative, rest) := splitSign (s.dropWhile isSpace)
  let (base, rest) := splitBase rest
  (negative, digitsValue base (rest.takeWhile fun c => digitValue c < base))

/-- The front of the text is an `int`. -/
def FrontIsInt (s : Str) : Prop :=
  (frontNumber s).2 < 2 ^ 31 ∨ ((frontNumber s).1 = true ∧ (frontNumber s).2 = 2 ^ 31)

instance (s : Str) : Decidable (FrontIsInt s) := inferInstanceAs (Decidable (_ ∨ _))

namespace Dev

theorem jsToInt_eq (s : Str) :
    jsToInt s =
      if FrontIsInt s then
        if (frontNumber s).1 then -((frontNumber s).2 : Int) else (frontNumber s).2
      else 0 := by
  rcases hsign : splitSign (s.dropWhile isSpace) with ⟨negative, rest⟩
  rcases hbase : splitBase rest with ⟨base, body⟩
  have hfront : frontNumber s =
      (negative, digitsValue base (body.takeWhile fun c => digitValue c < base)) := by
    rw [frontNumber, hsign]
    simp only [hbase]
  have hint : FrontIsInt s ↔
      digitsValue base (body.takeWhile fun c => digitValue c < base) < 2 ^ 31 ∨
        (negative = true ∧
          digitsValue base (body.takeWhile fun c => digitValue c < base) = 2 ^ 31) := by
    rw [FrontIsInt, hfront]
  rw [jsToInt, stoiAnyBase, hsign, if_congr hint rfl rfl, hfront]
  simp only [hbase]
  generalize body.takeWhile (fun c => digitValue c < base) = digits
  by_cases hnone : digits = []
  · -- No digits: the exception leaves zero.
    rw [if_pos hnone, hnone]
    cases negative
    · rfl
    · rfl
  · rw [if_neg hnone]
    generalize digitsValue base digits = m
    cases negative with
    | false =>
      simp only [Bool.false_eq_true, if_false, false_and, or_false]
      by_cases hint : m < 2 ^ 31
      · have hrange : ¬ ((m : Int) < -2 ^ 31 ∨ 2 ^ 31 ≤ (m : Int)) := by omega
        rw [if_neg hrange, if_pos hint]
      · have hrange : (m : Int) < -2 ^ 31 ∨ 2 ^ 31 ≤ (m : Int) := by omega
        rw [if_pos hrange, if_neg hint]
    | true =>
      simp only [if_true, true_and]
      by_cases hint : m < 2 ^ 31 ∨ m = 2 ^ 31
      · have hrange : ¬ (-(m : Int) < -2 ^ 31 ∨ 2 ^ 31 ≤ -(m : Int)) := by omega
        rw [if_neg hrange, if_pos hint]
      · have hrange : -(m : Int) < -2 ^ 31 ∨ 2 ^ 31 ≤ -(m : Int) := by omega
        rw [if_pos hrange, if_neg hint]

end Dev

/-! ### Quantities -/

/-- The text is the number in hexadecimal digits behind the prefix `0x`. -/
def IsQuantity (s : Str) (n : Nat) : Prop :=
  ∃ ds, s = "0x".toList ++ ds ∧ ds ≠ [] ∧ IsHexText ds ∧ digitsValue 16 ds = n

theorem IsQuantity.unique {s : Str} {n m : Nat} (hn : IsQuantity s n) (hm : IsQuantity s m) :
    n = m := by
  obtain ⟨ds, rfl, _, _, rfl⟩ := hn
  obtain ⟨ds', h, _, _, rfl⟩ := hm
  rw [List.append_cancel_left h]

/-- What is written is a quantity. -/
theorem isQuantity_toJS (n : Nat) : IsQuantity (Dev.toJS n) n :=
  ⟨Nat.toDigits 16 n, Dev.toJS_eq n, Nat.toDigits_ne_nil, isHexText_toDigits n,
    digitsValue_toDigits n⟩

theorem frontNumber_quantity {s : Str} {n : Nat} (h : IsQuantity s n) :
    frontNumber s = (false, n) := by
  obtain ⟨ds, rfl, hne, hds, rfl⟩ := h
  obtain ⟨c, ds, rfl⟩ := List.exists_cons_of_ne_nil hne
  have hc : digitValue c < 16 := hds c (by simp)
  have hdrop : ("0x".toList ++ c :: ds).dropWhile isSpace = '0' :: 'x' :: c :: ds :=
    List.dropWhile_cons_of_neg (by decide)
  have hsign : splitSign ('0' :: 'x' :: c :: ds) = (false, '0' :: 'x' :: c :: ds) := rfl
  have hbase : splitBase ('0' :: 'x' :: c :: ds) = (16, c :: ds) := if_pos ⟨.inl rfl, hc⟩
  have htake : (c :: ds).takeWhile (fun c => digitValue c < 16) = c :: ds :=
    List.takeWhile_eq_self_iff.mpr fun x hx => decide_eq_true (hds x hx)
  unfold frontNumber
  rw [hdrop, hsign]
  simp only [hbase, htake]

/-- A quantity is read if it is an `int`, and taken for zero otherwise. -/
theorem Dev.jsToInt_quantity {s : Str} {n : Nat} (h : IsQuantity s n) :
    jsToInt s = if n < 2 ^ 31 then (n : Int) else 0 := by
  have hint : FrontIsInt s ↔ n < 2 ^ 31 := by
    rw [FrontIsInt, frontNumber_quantity h]
    simp
  rw [jsToInt_eq, if_congr hint rfl rfl, frontNumber_quantity h]
  rfl

/-! ### Members of an object -/

/-- The fields that are read have 32 or 64 bits. -/
def IsFieldWidth (width : Nat) : Prop := width = 32 ∨ width = 64

theorem castUint64_of_nonneg (width : Nat) {n : Nat} (hn : n < 2 ^ 64) :
    castUint64 width n = n % 2 ^ width := by
  have hcast : ((n : Int) % 2 ^ 64).toNat = n := by omega
  rw [castUint64, hcast]

/-- A number that is not zero is stored as one, if it is an `int`. -/
theorem castUint64_eq_zero_iff {width : Nat} (hw : IsFieldWidth width) {v : Int}
    (hlo : -2 ^ 31 ≤ v) (hhi : v < 2 ^ 31) : castUint64 width v = 0 ↔ v = 0 := by
  unfold castUint64
  rcases hw with rfl | rfl
  · omega
  · omega

/-- The member is read exactly: a quantity of 64 bits is stored, cut to the width of the
    field, and no other text is stored as zero. -/
structure ReadExactly (width : Nat) (js : JsonMembers) (mem s : Str) (v : Nat) : Prop where
  quantity : ∀ n < 2 ^ 64, IsQuantity s n → jsMem2Uint64 width js mem v = (true, n % 2 ^ width)
  other : (¬ ∃ n < 2 ^ 64, IsQuantity s n) → jsMem2Uint64 width js mem v ≠ (true, 0)

/-- The text is a quantity that is an `int`, or one that is zero when it is cut to the
    width of the field; or it is no quantity of 64 bits, and the number at its front is
    an `int` other than zero. -/
def ReadAsInt (width : Nat) (s : Str) : Prop :=
  (∃ n < 2 ^ 64, IsQuantity s n ∧ (n < 2 ^ 31 ∨ n % 2 ^ width = 0)) ∨
    ((¬ ∃ n < 2 ^ 64, IsQuantity s n) ∧ FrontIsInt s ∧ (frontNumber s).2 ≠ 0)

theorem jsMem2Uint64_of_string (width : Nat) {js : JsonMembers} {mem s : Str}
    (hmem : js.lookup mem = some (.stringValue s)) (v : Nat) :
    jsMem2Uint64 width js mem v = (true, castUint64 width (Dev.jsToInt s)) := by
  rw [jsMem2Uint64, jsStringValue, hmem]

/-- What is stored of a quantity. -/
theorem castUint64_quantity (width : Nat) {s : Str} {n : Nat} (hn : n < 2 ^ 64)
    (h : IsQuantity s n) :
    castUint64 width (Dev.jsToInt s) = n % 2 ^ width ↔ n < 2 ^ 31 ∨ n % 2 ^ width = 0 := by
  rw [Dev.jsToInt_quantity h]
  by_cases hint : n < 2 ^ 31
  · rw [if_pos hint, castUint64_of_nonneg width hn]
    exact iff_of_true rfl (.inl hint)
  · have hzero : castUint64 width 0 = 0 := Nat.zero_mod _
    rw [if_neg hint, hzero, or_iff_right hint]
    exact eq_comm

/-- What is stored of another text. -/
theorem castUint64_front {width : Nat} (hw : IsFieldWidth width) (s : Str) :
    castUint64 width (Dev.jsToInt s) ≠ 0 ↔ FrontIsInt s ∧ (frontNumber s).2 ≠ 0 := by
  rw [Dev.jsToInt_eq]
  by_cases hint : FrontIsInt s
  · rw [if_pos hint, and_iff_right hint]
    have hbound := hint
    unfold FrontIsInt at hbound
    cases hsign : (frontNumber s).1 with
    -- Without a sign the number is below 2^31 and stored as it is.
    | false =>
      rw [hsign] at hbound
      have hlt : (frontNumber s).2 < 2 ^ 31 := by
        rcases hbound with h | h
        · exact h
        · cases h.1
      show castUint64 width ((frontNumber s).2 : Int) ≠ 0 ↔ _
      rw [Ne, castUint64_eq_zero_iff hw (by omega) (by omega)]
      omega
    -- With a sign it is stored modulo the width of the field.
    | true =>
      have hle : (frontNumber s).2 ≤ 2 ^ 31 := by
        rcases hbound with h | h
        · omega
        · omega
      show castUint64 width (-((frontNumber s).2 : Int)) ≠ 0 ↔ _
      by_cases hzero : (frontNumber s).2 = 0
      · rw [hzero]
        exact iff_of_false (fun h => h (Nat.zero_mod _)) (fun h => h rfl)
      · rw [Ne, castUint64_eq_zero_iff hw (by omega) (by omega)]
        omega
  · rw [if_neg hint]
    apply iff_of_false
    · intro h
      exact h (Nat.zero_mod _)
    · intro h
      exact hint h.1

theorem jsMem2Uint64_exact_iff {width : Nat} (hw : IsFieldWidth width) {js : JsonMembers}
    {mem s : Str} (hmem : js.lookup mem = some (.stringValue s)) (v : Nat) :
    ReadExactly width js mem s v ↔ ReadAsInt width s := by
  have hstored := jsMem2Uint64_of_string width hmem v
  by_cases hquantity : ∃ n < 2 ^ 64, IsQuantity s n
  · -- The text of a quantity: only the number it stands for may be stored.
    obtain ⟨n, hn, hs⟩ := hquantity
    have hstored_iff := castUint64_quantity width hn hs
    constructor
    · intro h
      have hread := h.quantity n hn hs
      rw [hstored] at hread
      exact .inl ⟨n, hn, hs, hstored_iff.mp (Prod.mk.inj hread).2⟩
    · intro h
      have hcond : n < 2 ^ 31 ∨ n % 2 ^ width = 0 := by
        rcases h with ⟨m, _, hm, hcond⟩ | h
        · rwa [hs.unique hm]
        · exact absurd ⟨n, hn, hs⟩ h.1
      constructor
      · intro m _ hm
        rw [hstored, ← hs.unique hm, hstored_iff.mpr hcond]
      · intro hno
        exact absurd ⟨n, hn, hs⟩ hno
  · -- No quantity: a stored number that is not zero came from the front of the text.
    have hother := castUint64_front hw s
    constructor
    · intro h
      have hread := h.other hquantity
      rw [hstored] at hread
      refine .inr ⟨hquantity, hother.mp fun hzero => hread ?_⟩
      rw [hzero]
    · intro h
      have hfront : FrontIsInt s ∧ (frontNumber s).2 ≠ 0 := by
        rcases h with ⟨n, hn, hs, _⟩ | h
        · exact absurd ⟨n, hn, hs⟩ hquantity
        · exact h.2
      constructor
      · intro n hn hs
        exact absurd ⟨n, hn, hs⟩ hquantity
      · intro _ hread
        rw [hstored] at hread
        exact hother.mpr hfront (Prod.mk.inj hread).2

/-- A small status is read. -/
theorem jsMem2Uint64_exact_one :
    IsFieldWidth 64 ∧
      ReadExactly 64 [("outcomeStatus".toList, .stringValue "0x1".toList)] "outcomeStatus".toList
        "0x1".toList 0 := by
  have hquantity : IsQuantity "0x1".toList 1 := ⟨"1".toList, rfl, by decide, by decide, rfl⟩
  exact ⟨.inr rfl, (jsMem2Uint64_exact_iff (.inr rfl) (by decide) 0).mpr
    (.inl ⟨1, by decide, hquantity, .inl (by decide)⟩)⟩

/-- The status `2 ^ 31` is stored as zero, which stands for success. -/
theorem jsMem2Uint64_2147483648 :
    IsQuantity "0x80000000".toList (2 ^ 31) ∧
      jsMem2Uint64 64 [("outcomeStatus".toList, .stringValue "0x80000000".toList)]
        "outcomeStatus".toList 0 = (true, 0) ∧
      ¬ ReadExactly 64 [("outcomeStatus".toList, .stringValue "0x80000000".toList)]
        "outcomeStatus".toList "0x80000000".toList 0 := by
  have hquantity : IsQuantity "0x80000000".toList (2 ^ 31) :=
    ⟨"80000000".toList, rfl, by decide, by decide, by decide⟩
  have hread : jsMem2Uint64 64 [("outcomeStatus".toList, .stringValue "0x80000000".toList)]
      "outcomeStatus".toList 0 = (true, 0) := by decide
  refine ⟨hquantity, hread, fun h => ?_⟩
  have hexact := h.quantity (2 ^ 31) (by decide) hquantity
  rw [hread] at hexact
  exact absurd hexact (by decide)

end ConfluxSdk
