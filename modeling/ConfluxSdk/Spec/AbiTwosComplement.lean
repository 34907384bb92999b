import ConfluxSdk.Spec.AbiDecodeCorrect

/-!
# Two's complement

The two conversions between `int256_t` and `uint256_t`. The way to the unsigned number is
the remainder modulo 2^256. The way back takes the words above 2^255 to be negative, so
2^255 itself, the word of the least number, is read as a positive number that no `int256`
has.

## Key results

- `uint256FromInt256_eq`: the word of a number
- `int256FromUint256_eq_bmod_iff`: the words that are read as two's complement
- `twosComplement_iff`: where the two conversions are inverse to each other
-/

namespace ConfluxSdk.Abi

open SolidityAbi (word)

/-- Complementing one less than the magnitude gives the remainder. -/
theorem uint256FromInt256_eq (x : Int) : uint256FromInt256 x = uint256OfInt x := by
  rw [uint256FromInt256]
  split
  · rfl
  · -- A negative number: all bits of one less than its magnitude are flipped.
    apply Fin.ext
    simp only [complement, uint256OfInt]
    omega

/-- A signed number is written as its word. -/
theorem encodeInt256_eq (x : Int) (data : Data) : encodeInt256 x data = data ++ word x := by
  rw [encodeInt256, uint256FromInt256_eq, encodeUInt256_uint256OfInt]

/-- What is read is the number the word stands for, in the range of the magnitude. -/
theorem int256FromUint256_eq (u : UInt256) :
    int256FromUint256 u = if u.val ≤ 2 ^ 255 then (u.val : Int) else u.val - 2 ^ 256 := by
  rw [int256FromUint256]
  split
  · rfl
  · simp only [complement]
    omega

/-- The words that are read as their balanced remainder. -/
theorem int256FromUint256_eq_bmod_iff (u : UInt256) :
    int256FromUint256 u = Int.bmod u.val (2 ^ 256) ↔ u.val ≠ 2 ^ 255 := by
  rw [int256FromUint256_eq, Int.bmod_def]
  split <;> omega

/-- Every word is written back, also the one that is read out of range. -/
theorem uint256FromInt256_int256FromUint256 (u : UInt256) :
    uint256FromInt256 (int256FromUint256 u) = u := by
  rw [uint256FromInt256_eq, int256FromUint256_eq]
  apply Fin.ext
  simp only [uint256OfInt]
  split <;> omega

/-- What is read is an `int256` unless the word is that of the least one. -/
theorem int256FromUint256_mem_iff (u : UInt256) :
    (-2 ^ 255 ≤ int256FromUint256 u ∧ int256FromUint256 u < 2 ^ 255) ↔ u.val ≠ 2 ^ 255 := by
  rw [int256FromUint256_eq]
  split <;> omega

/-- Every number of the type but the least one survives the conversion, and every word but
    that of the least one is the word of the number it is read as. -/
theorem twosComplement_iff (x : Int) (hlo : -2 ^ 255 ≤ x) (hhi : x < 2 ^ 255) (u : UInt256) :
    (((uint256FromInt256 x).val = x % 2 ^ 256 ∧
        int256FromUint256 (uint256FromInt256 x) = x) ↔ x ≠ -2 ^ 255) ∧
      ((uint256FromInt256 (int256FromUint256 u) = u ∧
        -2 ^ 255 ≤ int256FromUint256 u ∧ int256FromUint256 u < 2 ^ 255) ↔ u.val ≠ 2 ^ 255) := by
  -- The way to the word is right everywhere, only the way back is not.
  have hword : ((uint256FromInt256 x).val : Int) = x % 2 ^ 256 := by
    rw [uint256FromInt256_eq]
    simp only [uint256OfInt]
    omega
  constructor
  · rw [and_iff_right hword]
    constructor
    · -- The word of the least number is 2^255.
      rintro hback rfl
      rw [int256FromUint256_eq] at hback
      split at hback <;> omega
    · intro hne
      rw [uint256FromInt256_eq]
      exact int256FromUint256_uint256OfInt (by omega) (by omega)
  · rw [uint256FromInt256_int256FromUint256, int256FromUint256_mem_iff]
    exact and_iff_right rfl

/-- Minus one and the word of all ones. -/
theorem twosComplement_minusOne :
    int256FromUint256 (uint256FromInt256 (-1)) = -1 ∧
      uint256FromInt256 (int256FromUint256 ⟨2 ^ 256 - 1, by decide⟩) = ⟨2 ^ 256 - 1, by decide⟩ := by
  have h := twosComplement_iff (-1) (by decide) (by decide) ⟨2 ^ 256 - 1, by decide⟩
  exact ⟨(h.1.mpr (by decide)).2, (h.2.mpr (by decide)).1⟩

/-- The least number comes back as its magnitude. -/
theorem twosComplement_least :
    int256FromUint256 (uint256FromInt256 (-2 ^ 255)) = 2 ^ 255 ∧
      ¬ ∀ x : Int, -2 ^ 255 ≤ x → x < 2 ^ 255 → int256FromUint256 (uint256FromInt256 x) = x := by
  have hleast : int256FromUint256 (uint256FromInt256 (-2 ^ 255)) = 2 ^ 255 := by decide
  refine ⟨hleast, fun hall => ?_⟩
  have hback := hall (-2 ^ 255) (by decide) (by decide)
  rw [hleast] at hback
  exact absurd hback (by decide)

end ConfluxSdk.Abi
