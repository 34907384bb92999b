import ConfluxSdk.ForStd.Runs
import ConfluxSdk.Spec.AbiDecodePasses

/-!
# Signed numbers

Signed values are written as two's-complement words. The way back differs: the
instances of `ParamNumberType` cast the unsigned word to the type of the value, which
keeps no sign, and `ParamIntN` reads the word as two's complement and masks it then,
one way for each sign of what was read.

## Key results

- `signed_roundTrip_iff`: which values `ParamInt8` to `ParamInt256` read back
- `intN_valid_iff`: when `ParamIntN` holds a value of its type all along a run
-/

namespace ConfluxSdk.Abi

open Runs (run)
open SolidityAbi (word)

/-! ### ParamInt8 to ParamInt256 -/

/-- The word of a value of the type is cast back to the value exactly when it is not
    negative. -/
theorem castDown_uint256OfInt_iff {t : NumberType} {bits : Nat} (ht : t.solType = .int bits)
    {x : Int} (hlow : -2 ^ (bits - 1) ≤ x) (hhigh : x < 2 ^ (bits - 1)) :
    t.castDown (uint256OfInt x) = x ↔ 0 ≤ x := by
  cases t with
  | int256 | int8 | int16 | int32 | int64 =>
    obtain rfl := SolidityAbi.Ty.int.inj ht
    simp only [NumberType.castDown, uint256OfInt]
    norm_num at hlow hhigh
    omega
  | _ => cases ht

/-- Encoding writes the word of the value, wherever it stands the decoder succeeds, and
    what it leaves is the value exactly when that is not negative. -/
theorem signed_roundTrip_iff (t : NumberType) (bits : Nat) (ht : t.solType = .int bits)
    (val old : t.Val) (hlow : -2 ^ (bits - 1) ≤ val.1) (hhigh : val.1 < 2 ^ (bits - 1))
    (buf : Bytes) (pre post : Data) (hbuf : buf.toList = pre ++ word val.1 ++ post) :
    ((Param.number t val).encode [] = word val.1 ∧
        (Param.number t old).decode buf pre.length =
          .ok (true, .number t val, pre.length + 32)) ↔
      0 ≤ val.1 := by
  have hencode : (Param.number t val).encode [] = word val.1 := by
    rw [Param.encode, encodeUInt256_uint256OfInt, List.nil_append]
  have hdecode : (Param.number t old).decode buf pre.length =
      .ok (true, .number t (t.ofUInt256 (uint256OfInt val.1)), pre.length + 32) := by
    rw [Param.decode, Param.decodeTo, (at_append hbuf).decodeWord]
  rw [hdecode, ← castDown_uint256OfInt_iff ht hlow hhigh]
  constructor
  · intro h
    have hval : t.ofUInt256 (uint256OfInt val.1) = val := by
      simpa using h.2
    exact congrArg Subtype.val hval
  · intro h
    have hval : t.ofUInt256 (uint256OfInt val.1) = val := Subtype.ext h
    rw [hval]
    exact ⟨hencode, rfl⟩

/-- The number -1 as a `ParamInt8`. -/
def minusOne : NumberType.int8.Val := ⟨-1, by decide⟩

/-- Its word. -/
def minusOneWord : Bytes := ⟨word (-1), by decide⟩

/-- The number 5 as a `ParamInt8`, and its word. -/
def five : NumberType.int8.Val := ⟨5, by decide⟩

def fiveWord : Bytes := ⟨word 5, by decide⟩

theorem signed_roundTrip_five :
    (Param.number .int8 five).encode [] = word 5 ∧
      (Param.number .int8 minusOne).decode fiveWord 0 = .ok (true, .number .int8 five, 32) :=
  (signed_roundTrip_iff .int8 8 rfl five minusOne (by decide) (by decide) fiveWord [] []
    (List.append_nil _).symm).mpr (by decide)

/-- Minus one is read back as the greatest value of the type. -/
theorem decode_minusOne :
    (Param.number .int8 minusOne).encode [] = word (-1) ∧
      (Param.number .int8 minusOne).decode minusOneWord 0 =
        .ok (true, .number .int8 ⟨127, by decide⟩, 32) ∧
      (⟨127, by decide⟩ : NumberType.int8.Val) ≠ minusOne := by
  refine ⟨by decide, ?_, fun h => absurd (congrArg Subtype.val h) (by decide)⟩
  have hbuf : minusOneWord.toList = [] ++ word (-1) ++ [] := (List.append_nil _).symm
  have hat : At minusOneWord 0 (word (-1)) := at_append hbuf
  rw [Param.decode, Param.decodeTo, hat.decodeWord]
  rfl

/-! ### Masking -/

/-- The bit of an integer, in two's complement, that is the sign of an `intN` is its own
    sign. -/
def KeepsSign (bits : BitSize) (x : Int) : Prop :=
  x % 2 ^ bits.val < 2 ^ (bits.val - 1) ↔ 0 ≤ x

/-- An `intN` that an integer becomes by dropping its higher bits. -/
structure IsIntN (bits : BitSize) (x v : Int) : Prop where
  least_le : -2 ^ (bits.val - 1) ≤ v
  lt_greatest : v < 2 ^ (bits.val - 1)
  modEq : v ≡ x [ZMOD 2 ^ bits.val]

theorem BitSize.two_pow_eq (bits : BitSize) : (2 : Int) ^ bits.val = 2 * 2 ^ (bits.val - 1) := by
  have hle := bits.val_le
  rw [← pow_succ', Nat.sub_add_cancel (by omega)]

/-- The cast to `uint256_t` keeps the low bits. -/
theorem uint256OfInt_emod (bits : BitSize) (x : Int) :
    ((uint256OfInt x).val : Int) % 2 ^ bits.val = x % 2 ^ bits.val := by
  have hdvd : (2 : Int) ^ bits.val ∣ 2 ^ 256 :=
    pow_dvd_pow 2 (Nat.le_trans bits.val_le.2 (by decide))
  have hval : ((uint256OfInt x).val : Int) = x % 2 ^ 256 := by
    simp only [uint256OfInt]
    omega
  rw [hval, Int.emod_emod_of_dvd _ hdvd]

/-- What `ParamIntN::setVal` keeps of a value: its low bits, or those of its complement. -/
theorem intNSetVal_eq (bits : BitSize) (x : Int) :
    (intNSetVal bits x).1 =
      if 0 ≤ x then x % 2 ^ bits.val else -((-x - 1) % 2 ^ bits.val) - 1 := by
  have hle := bits.two_pow_le
  have hpos : 0 < 2 ^ bits.val := Nat.two_pow_pos _
  have hcast : ((2 ^ bits.val : Nat) : Int) = 2 ^ bits.val := by push_cast; rfl
  have hval : (intNSetVal bits x).1 = int256FromUint256 (intNMasked bits x) := rfl
  rw [hval]
  by_cases hneg : x < 0
  · have hcompl : (((complement (uint256OfInt x)).val % 2 ^ bits.val : Nat) : Int) =
        (-x - 1) % 2 ^ bits.val := by
      have heq : ((complement (uint256OfInt x)).val : Int) = (uint256OfInt (-x - 1)).val := by
        simp only [complement, uint256OfInt]
        omega
      rw [Int.natCast_emod, heq, hcast, uint256OfInt_emod]
    have hlt := Nat.mod_lt (complement (uint256OfInt x)).val hpos
    rw [← hcompl, if_neg (by omega)]
    simp only [intNMasked, if_pos hneg, and_maskForBits, int256FromUint256, complement] at hlt ⊢
    split <;> omega
  · have hmod := uint256OfInt_emod bits x
    have hlt := Nat.mod_lt (uint256OfInt x).val hpos
    rw [← hcast] at hmod
    rw [if_pos (by omega), ← hcast, ← hmod]
    simp only [intNMasked, if_neg hneg, and_maskForBits, int256FromUint256] at hlt ⊢
    rw [if_pos (by omega), Int.natCast_emod]

/-- Masking makes an `intN` of the integers whose sign it keeps, and of no others. -/
theorem isIntN_setVal_iff (bits : BitSize) (x : Int) :
    IsIntN bits x (intNSetVal bits x).1 ↔ KeepsSign bits x := by
  have hhalf := bits.two_pow_eq
  have hpos : (0 : Int) < 2 ^ (bits.val - 1) := by positivity
  rw [intNSetVal_eq, KeepsSign]
  by_cases hx : 0 ≤ x
  · have hnonneg := Int.emod_nonneg x (b := 2 ^ bits.val) (by positivity)
    rw [if_pos hx, iff_true_right hx]
    constructor
    · exact fun h => h.lt_greatest
    · exact fun h => ⟨by omega, h, Int.mod_modEq _ _⟩
  · rw [if_neg hx, iff_false_right hx]
    -- The complement of the low bits.
    have hlow : x % 2 ^ bits.val = 2 ^ bits.val - 1 - (-x - 1) % 2 ^ bits.val := by
      have hlt := Int.emod_lt_of_pos (-x - 1) (b := 2 ^ bits.val) (by positivity)
      have hnonneg := Int.emod_nonneg (-x - 1) (b := 2 ^ bits.val) (by positivity)
      have hdiv := Int.emod_add_mul_ediv (-x - 1) (2 ^ bits.val)
      have hx' : x = 2 ^ bits.val - 1 - (-x - 1) % 2 ^ bits.val +
          2 ^ bits.val * (-((-x - 1) / 2 ^ bits.val) - 1) := by
        rw [mul_sub, mul_neg]
        omega
      conv_lhs => rw [hx']
      rw [Int.add_mul_emod_self_left, Int.emod_eq_of_lt (by omega) (by omega)]
    have hnonneg := Int.emod_nonneg (-x - 1) (b := 2 ^ bits.val) (by positivity)
    constructor
    · intro h
      have hleast := h.least_le
      omega
    · intro h
      refine ⟨by omega, by omega, ?_⟩
      have hmod : (-x - 1) % 2 ^ bits.val ≡ -x - 1 [ZMOD 2 ^ bits.val] := Int.mod_modEq _ _
      have hneg := (hmod.neg).sub_right 1
      rwa [neg_sub, sub_neg_eq_add, add_sub_cancel_left] at hneg

/-! ### ParamIntN -/

/-- `ParamIntN::decode`, on the value. -/
def intNDecode (bits : BitSize) (encoded : Bytes) (offset : Nat) : Bool × IntN bits × Nat :=
  match decodeWord encoded offset with
  | none => (false, intNSetVal bits (int256FromUint256 (uint256 0)), offset)
  | some (valU, offset') => (true, intNSetVal bits (int256FromUint256 valU), offset')

theorem decode_intN (bits : BitSize) (v : IntN bits) (encoded : Bytes) (offset : Nat) :
    (Param.intN bits v).decode encoded offset =
      .ok ((intNDecode bits encoded offset).1, .intN bits (intNDecode bits encoded offset).2.1,
        (intNDecode bits encoded offset).2.2) := by
  rw [Param.decode, Param.decodeTo, intNDecode]
  cases decodeWord encoded offset <;> rfl

/-- A call of `ParamIntN::setVal` or `ParamIntN::decode`. -/
inductive IntNCall where
  | setVal (val : NumberType.int256.Val)
  | decode (encoded : Bytes) (offset : Nat)

namespace IntNCall

/-- Whether the call succeeds: `setVal` does, `decode` needs a word to read. -/
def succeeds : IntNCall → Prop
  | setVal _ => True
  | decode encoded offset => (decodeWord encoded offset).isSome = true

/-- The integer that is masked. -/
def given : IntNCall → Int
  | setVal val => val.1
  | decode encoded offset => match decodeWord encoded offset with
    | none => 0
    | some (w, _) => int256FromUint256 w

/-- The integer the caller means: the argument, or the word as two's complement. -/
def meant : IntNCall → Int
  | setVal val => val.1
  | decode encoded offset => match decodeWord encoded offset with
    | none => 0
    | some (w, _) => if w.val < 2 ^ 255 then w.val else w.val - 2 ^ 256

end IntNCall

/-- The value after a call. -/
def intNCall (bits : BitSize) (_ : IntN bits) : IntNCall → IntN bits
  | .setVal val => intNSetVal bits val.1
  | .decode encoded offset => (intNDecode bits encoded offset).2.1

/-- Only the least number is read with the wrong sign, and its low bits are zero. -/
theorem given_modEq_meant (bits : BitSize) (c : IntNCall) :
    c.given ≡ c.meant [ZMOD 2 ^ bits.val] := by
  cases c with
  | setVal val => exact Int.ModEq.refl _
  | decode encoded offset =>
    rw [IntNCall.given, IntNCall.meant]
    cases hword : decodeWord encoded offset with
    | none => exact Int.ModEq.refl _
    | some res =>
      have hdvd : (2 : Int) ^ bits.val ∣ 2 ^ 256 :=
        pow_dvd_pow 2 (Nat.le_trans bits.val_le.2 (by decide))
      dsimp only
      refine (Int.modEq_iff_dvd.mpr ?_).of_dvd hdvd
      have hlt := res.1.isLt
      simp only [int256FromUint256, complement]
      split <;> split <;> omega

/-- One call. -/
theorem isIntN_call_iff (bits : BitSize) (v : IntN bits) {c : IntNCall} (hc : c.succeeds) :
    IsIntN bits c.meant (intNCall bits v c).1 ↔ KeepsSign bits c.given := by
  have hvalue : intNCall bits v c = intNSetVal bits c.given := by
    cases c with
    | setVal val => rfl
    | decode encoded offset =>
      obtain ⟨res, hword⟩ := Option.isSome_iff_exists.mp hc
      rw [intNCall, IntNCall.given, intNDecode, hword]
  have hmod := given_modEq_meant bits c
  rw [← isIntN_setVal_iff, hvalue]
  constructor
  · exact fun h => ⟨h.least_le, h.lt_greatest, h.modEq.trans hmod.symm⟩
  · exact fun h => ⟨h.least_le, h.lt_greatest, h.modEq.trans hmod⟩

/-- In a run, every successful call leaves an `intN` with the low bits of what it was
    given, and so a sign-extended word, exactly when every such call is given an integer
    whose sign the masking keeps. -/
theorem intN_valid_iff (bits : BitSize) (v : IntN bits) (calls : List IntNCall) :
    (∀ pre c, pre ++ [c] <+: calls → c.succeeds →
        IsIntN bits c.meant (run (intNCall bits) v (pre ++ [c])).1 ∧
          (Param.intN bits (run (intNCall bits) v (pre ++ [c]))).encode [] =
            word (run (intNCall bits) v (pre ++ [c])).1) ↔
      ∀ c ∈ calls, c.succeeds → KeepsSign bits c.given := by
  have hlast : ∀ pre c, run (intNCall bits) v (pre ++ [c]) =
      intNCall bits (run (intNCall bits) v pre) c := by
    intro pre c
    rw [run, List.foldl_concat, ← run]
  have hencode : ∀ v : IntN bits, (Param.intN bits v).encode [] = word v.1 := by
    intro v
    rw [Param.encode, encodeUInt256_uint256OfInt, List.nil_append]
  constructor
  · intro h c hc hok
    obtain ⟨pre, post, rfl⟩ := List.append_of_mem hc
    have hvalid := (h pre c ⟨post, by simp⟩ hok).1
    rw [hlast] at hvalid
    exact (isIntN_call_iff bits _ hok).mp hvalid
  · intro h pre c hpre hok
    refine ⟨?_, hencode _⟩
    rw [hlast, isIntN_call_iff bits _ hok]
    exact h c (hpre.subset (by simp)) hok

/-- The first value that is no `int24`. -/
def twoPow23 : NumberType.int256.Val := ⟨2 ^ 23, by decide⟩

/-- An `int24` that is given it holds it, although it is out of range. -/
theorem setVal_twoPow23 :
    run (intNCall ⟨24, by decide⟩) ⟨0, by decide⟩ [.setVal twoPow23] = ⟨2 ^ 23, by decide⟩ ∧
      ¬ IsIntN ⟨24, by decide⟩ (2 ^ 23)
        (run (intNCall ⟨24, by decide⟩) ⟨0, by decide⟩ [.setVal twoPow23]).1 := by
  have hvalue : run (intNCall ⟨24, by decide⟩) ⟨0, by decide⟩ [.setVal twoPow23] =
      ⟨2 ^ 23, by decide⟩ := Subtype.ext (by decide)
  rw [hvalue]
  exact ⟨rfl, fun h => absurd h.lt_greatest (by decide)⟩

end ConfluxSdk.Abi
