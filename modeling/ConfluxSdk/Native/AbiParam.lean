import ConfluxSdk.ForStd.BigEndian
import ConfluxSdk.Native.StdString

/-!
# ABI parameters

Model of `libcfxcore/abi`: `ValueEncoder`, the `ParamBase` class hierarchy and
`ParamSet`, with everything the encoder computes (`getType`, `getSize`,
`isDynamic`, `isFixArray`, `encode`).

A parameter object is a tree, `Param`; a `ParamSet` is the list of its members.
The encoder's `size_t` counters are natural numbers here: a vector long enough
to wrap one of them cannot be built.

Two facts about Boost 1.70 are part of the model: `export_bits` writes the
shortest big-endian string (one zero byte for zero), and the casts between
`uint256_t`, `int256_t` and the built-in integers are those of `uint256OfInt`
and `NumberType.castDown`.
-/

namespace ConfluxSdk.Abi

/-- `TW::Data`. -/
abbrev Data := List UInt8

/-- `uint256_t`. -/
abbrev UInt256 := Fin (2 ^ 256)

/-! ### ValueEncoder -/

/-- `ValueEncoder::encodedIntSize`. -/
def encodedIntSize : Nat := 32

/-- `ValueEncoder::paddedTo32`. -/
def paddedTo32 (len : Nat) : Nat := (len + 31) / 32 * 32

/-- `ValueEncoder::padNeeded32`. -/
def padNeeded32 (len : Nat) : Nat := (len + 31) / 32 * 32 - len

/-- `TW::store`. `export_bits` writes a single zero byte for zero. -/
def store (v : UInt256) : Data := if v.val = 0 then [0] else BigEndian.ofNat v.val

/-- `TW::load`. `import_bits` keeps the low 256 bits. -/
def load (data : Data) : UInt256 :=
  ⟨BigEndian.toNat data % 2 ^ 256, Nat.mod_lt _ (by decide)⟩

/-- `paddedOnLeft` of `ValueEncoder.cpp`. -/
def paddedOnLeft (inout : Data) : Data :=
  if encodedIntSize ≤ inout.length then inout
  else List.replicate (encodedIntSize - inout.length) 0 ++ inout

/-- `ValueEncoder::encodeUInt256`. -/
def encodeUInt256 (value : UInt256) (inout : Data) : Data :=
  inout ++ paddedOnLeft (store value)

/-- `uint256_t(n)` for an unsigned `n`. -/
def uint256 (n : Nat) : UInt256 := ⟨n % 2 ^ 256, Nat.mod_lt _ (by decide)⟩

/-- `static_cast<uint256_t>` of a signed value: it wraps modulo 2^256. -/
def uint256OfInt (v : Int) : UInt256 :=
  ⟨(v % 2 ^ 256).toNat, by omega⟩

/-- `operator~` of `uint256_t`. -/
def complement (x : UInt256) : UInt256 := ⟨2 ^ 256 - 1 - x.val, by omega⟩

/-- `ValueEncoder::int256FromUint256`. The cast to `int256_t` keeps the
    magnitude, which has 256 bits. -/
def int256FromUint256 (x : UInt256) : Int :=
  if x.val ≤ 2 ^ 255 then x.val else -((complement x).val : Int) - 1

/-- `ValueEncoder::uint256FromInt256`. -/
def uint256FromInt256 (x : Int) : UInt256 :=
  if 0 ≤ x then uint256OfInt x else complement (uint256OfInt (-(x + 1)))

/-- `ValueEncoder::encodeInt256`. -/
def encodeInt256 (value : Int) (inout : Data) : Data :=
  encodeUInt256 (uint256FromInt256 value) inout

/-! ### Numeric types -/

/-- The instances of `ParamNumberType<T>`, named after the parameter class
    without its `Param` prefix. -/
inductive NumberType where
  | uint256 | uint | int256 | bool
  | uint8 | int8 | uint16 | int16 | uint32 | int32 | uint64 | int64
  deriving DecidableEq, Repr

namespace NumberType

/-- `getType` of the class. `ParamUInt` calls itself `uint256` too. -/
def getType : NumberType → Str
  | uint256 | uint => "uint256".toList
  | int256 => "int256".toList
  | bool => "bool".toList
  | uint8 => "uint8".toList
  | int8 => "int8".toList
  | uint16 => "uint16".toList
  | int16 => "int16".toList
  | uint32 => "uint32".toList
  | int32 => "int32".toList
  | uint64 => "uint64".toList
  | int64 => "int64".toList

/-- Least value of the C++ type `T`; `int256_t` is sign-magnitude. -/
def least : NumberType → Int
  | int256 => -(2 ^ 256 - 1)
  | int8 => -2 ^ 7
  | int16 => -2 ^ 15
  | int32 => -2 ^ 31
  | int64 => -2 ^ 63
  | uint256 | uint | bool | uint8 | uint16 | uint32 | uint64 => 0

/-- Greatest value of the C++ type `T`. -/
def greatest : NumberType → Int
  | uint256 | uint | int256 => 2 ^ 256 - 1
  | bool => 1
  | uint8 => 2 ^ 8 - 1
  | int8 => 2 ^ 7 - 1
  | uint16 => 2 ^ 16 - 1
  | int16 => 2 ^ 15 - 1
  | uint32 => 2 ^ 32 - 1
  | int32 => 2 ^ 31 - 1
  | uint64 => 2 ^ 64 - 1
  | int64 => 2 ^ 63 - 1

/-- A value of the C++ type `T`. -/
def Val (t : NumberType) : Type := { v : Int // t.least ≤ v ∧ v ≤ t.greatest }

/-- `static_cast<T>` of a `uint256_t`: unsigned built-in types truncate, signed
    ones saturate, `int256_t` keeps the magnitude. -/
def castDown : NumberType → UInt256 → Int
  | uint256, u | uint, u | int256, u => u.val
  | bool, u => if u.val = 0 then 0 else 1
  | uint8, u => (u.val % 2 ^ 8 : Nat)
  | uint16, u => (u.val % 2 ^ 16 : Nat)
  | uint32, u => (u.val % 2 ^ 32 : Nat)
  | uint64, u => (u.val % 2 ^ 64 : Nat)
  | int8, u => min u.val (2 ^ 7 - 1)
  | int16, u => min u.val (2 ^ 15 - 1)
  | int32, u => min u.val (2 ^ 31 - 1)
  | int64, u => min u.val (2 ^ 63 - 1)

theorem castDown_mem (t : NumberType) (u : UInt256) :
    t.least ≤ t.castDown u ∧ t.castDown u ≤ t.greatest := by
  have hu := u.isLt
  cases t <;> simp only [least, greatest, castDown] <;> omega

/-- `castDown` as a value of the type. -/
def ofUInt256 (t : NumberType) (u : UInt256) : t.Val := ⟨t.castDown u, t.castDown_mem u⟩

end NumberType

/-! ### ParamUIntN and ParamIntN -/

/-- A bit size admitted by the assertions of `ParamUIntN::maskForBits`. -/
structure BitSize where
  val : Nat
  admitted : 8 ≤ val ∧ val ≤ 256 ∧ val % 8 = 0 ∧
    val ≠ 8 ∧ val ≠ 16 ∧ val ≠ 32 ∧ val ≠ 64 ∧ val ≠ 256
  deriving DecidableEq, Repr

theorem BitSize.val_le (bits : BitSize) : 24 ≤ bits.val ∧ bits.val ≤ 248 := by
  have := bits.admitted
  omega

theorem BitSize.two_pow_le (bits : BitSize) : 2 ^ bits.val ≤ 2 ^ 248 :=
  Nat.pow_le_pow_right (by omega) bits.val_le.2

/-- `ParamUIntN::maskForBits`. -/
def maskForBits (bits : BitSize) : Nat := 2 ^ bits.val - 1

/-- What `ParamUIntN::_val` can hold. -/
abbrev UIntN (bits : BitSize) := Fin (2 ^ bits.val)

/-- What `ParamIntN::_val` can hold: `setVal` masks the magnitude of the value or
    of its complement, so one bit more than an `intN` has. -/
def IntN (bits : BitSize) : Type := { v : Int // -2 ^ bits.val ≤ v ∧ v < 2 ^ bits.val }

/-- `val & _mask`. -/
theorem and_maskForBits (bits : BitSize) (x : Nat) :
    x &&& maskForBits bits = x % 2 ^ bits.val := Nat.and_two_pow_sub_one_eq_mod x bits.val

/-- `ParamUIntN::setVal`. -/
def uintNSetVal (bits : BitSize) (val : UInt256) : UIntN bits :=
  ⟨val.val &&& maskForBits bits, by
    rw [and_maskForBits]
    exact Nat.mod_lt _ (Nat.two_pow_pos _)⟩

/-- The two masked words `ParamIntN::setVal` hands to `int256FromUint256`. -/
def intNMasked (bits : BitSize) (val : Int) : UInt256 :=
  if val < 0 then
    complement ⟨(complement (uint256OfInt val)).val &&& maskForBits bits,
      Nat.lt_of_le_of_lt Nat.and_le_left (complement _).isLt⟩
  else
    ⟨(uint256OfInt val).val &&& maskForBits bits,
      Nat.lt_of_le_of_lt Nat.and_le_left (uint256OfInt val).isLt⟩

theorem int256FromUint256_intNMasked_mem (bits : BitSize) (val : Int) :
    -2 ^ bits.val ≤ int256FromUint256 (intNMasked bits val) ∧
      int256FromUint256 (intNMasked bits val) < 2 ^ bits.val := by
  have hle := bits.two_pow_le
  have hpos : 0 < 2 ^ bits.val := Nat.two_pow_pos _
  have hcast : ((2 ^ bits.val : Nat) : Int) = 2 ^ bits.val := by push_cast; rfl
  rw [← hcast]
  by_cases hneg : val < 0
  · have hlt := Nat.mod_lt (complement (uint256OfInt val)).val hpos
    simp only [intNMasked, if_pos hneg, and_maskForBits, int256FromUint256, complement] at hlt ⊢
    split <;> omega
  · have hlt := Nat.mod_lt (uint256OfInt val).val hpos
    simp only [intNMasked, if_neg hneg, and_maskForBits, int256FromUint256, complement] at hlt ⊢
    split <;> omega

/-- `ParamIntN::setVal`. -/
def intNSetVal (bits : BitSize) (val : Int) : IntN bits :=
  ⟨int256FromUint256 (intNMasked bits val), int256FromUint256_intNMasked_mem bits val⟩

/-! ### Parameter objects -/

/-- An object of a class derived from `ParamBase`, with the objects it points to. -/
inductive Param where
  | number (t : NumberType) (val : t.Val)
  | uintN (bits : BitSize) (val : UIntN bits)
  | intN (bits : BitSize) (val : IntN bits)
  | address (val : Fin (2 ^ 160))
  | byteArray (bytes : Data)
  | byteArrayFix (n : Nat) (bytes : Data)
  | string (str : Data)
  | array (params : List Param)
  | arrayFix (params : List Param)
  | parameters (params : List Param)

mutual
/-- `ParamBase::getType`. -/
def Param.getType : Param → Str
  | .number t _ => t.getType
  | .uintN bits _ => "uint".toList ++ to_string bits.val
  | .intN bits _ => "int".toList ++ to_string bits.val
  | .address _ => "address".toList
  | .byteArray _ => "bytes".toList
  | .byteArrayFix n _ => "bytes".toList ++ to_string n
  | .string _ => "string".toList
  | .array params => getFirstType params ++ "[]".toList
  | .arrayFix params =>
    getFirstType params ++ "[".toList ++ to_string params.length ++ "]".toList
  | .parameters params => "(".toList ++ joinTypes params ++ ")".toList

/-- `ParamArray::getFirstType`, the same text in `ParamArrayFix`. -/
def getFirstType : List Param → Str
  | [] => "empty".toList
  | p :: _ => p.getType

/-- The loop of `ParamSet::getType`: the members' types, separated by commas. -/
def joinTypes : List Param → Str
  | [] => []
  | p :: ps => p.getType ++ joinRest ps

/-- The loop of `ParamSet::getType` once `cnt > 0`. -/
def joinRest : List Param → Str
  | [] => []
  | p :: ps => ",".toList ++ p.getType ++ joinRest ps
end

mutual
/-- `ParamBase::isDynamic`. An empty `ParamArrayFix` dereferences a null pointer
    here; the model answers `false`. -/
def Param.isDynamic : Param → Bool
  | .number .. | .uintN .. | .intN .. | .address _ | .byteArrayFix .. => false
  | .byteArray _ | .string _ | .array _ | .parameters _ => true
  | .arrayFix params => firstIsDynamic params

/-- `_params.getParamUnsafe(0)->isDynamic()`. -/
def firstIsDynamic : List Param → Bool
  | [] => false
  | p :: _ => p.isDynamic
end

/-- `ParamBase::isFixArray`. -/
def Param.isFixArray : Param → Bool
  | .arrayFix _ => true
  | _ => false

mutual
/-- `ParamBase::getSize`. -/
def Param.getSize : Param → Nat
  | .number .. | .uintN .. | .intN .. | .address _ => encodedIntSize
  | .byteArray bytes => 32 + paddedTo32 bytes.length
  | .byteArrayFix _ bytes => paddedTo32 bytes.length
  | .string str => 32 + paddedTo32 str.length
  | .array params => 32 + paddedTo32 (sizeSum params)
  | .arrayFix params => paddedTo32 (sizeSum params)
  | .parameters params => paddedTo32 (sizeSum params)

/-- The loop of `ParamSet::getSize`. -/
def sizeSum : List Param → Nat
  | [] => 0
  | p :: ps =>
    (if p.isDynamic ∨ p.getSize > encodedIntSize then 32 else 0) + p.getSize + sizeSum ps
end

/-- `ParamSet::getHeadSize`. -/
def getHeadSize : List Param → Nat
  | [] => 0
  | p :: ps => (if p.isDynamic then 32 else p.getSize) + getHeadSize ps

/-- `ParamByteArray::encodeBytes`. -/
def encodeBytes (bytes data : Data) : Data :=
  encodeUInt256 (uint256 bytes.length) data ++ bytes ++ List.replicate (padNeeded32 bytes.length) 0

/-- `ParamByteArrayFix::encode`. -/
def encodeBytesFix (bytes data : Data) : Data :=
  data ++ bytes ++ List.replicate (padNeeded32 bytes.length) 0

mutual
/-- `ParamBase::encode`: the bytes are appended to `data`. -/
def Param.encode : Param → Data → Data
  | .number _ val, data => encodeUInt256 (uint256OfInt val.1) data
  | .uintN _ val, data => encodeUInt256 (uint256 val.val) data
  | .intN _ val, data => encodeUInt256 (uint256OfInt val.1) data
  | .address val, data => encodeUInt256 (uint256 val.val) data
  | .byteArray bytes, data => encodeBytes bytes data
  | .byteArrayFix _ bytes, data => encodeBytesFix bytes data
  | .string str, data => encodeBytes str data
  | .array params, data =>
    encodeTails params (encodeHeads (getHeadSize params) 0 params
      (encodeUInt256 (uint256 params.length) data))
  | .arrayFix params, data =>
    encodeTails params (encodeHeads (getHeadSize params) 0 params data)
  | .parameters params, data =>
    encodeTails params (encodeHeads (getHeadSize params) 0 params data)

/-- The first pass of `ParamSet::encode`. -/
def encodeHeads (headSize : Nat) : Nat → List Param → Data → Data
  | _, [], data => data
  | dynamicOffset, p :: ps, data =>
    if p.isDynamic then
      encodeHeads headSize (dynamicOffset + p.getSize) ps
        (encodeUInt256 (uint256 (headSize + dynamicOffset)) data)
    else if p.isFixArray then
      encodeHeads headSize dynamicOffset ps (p.encode data)
    else if p.getSize > encodedIntSize then
      encodeHeads headSize (dynamicOffset + p.getSize) ps
        (encodeUInt256 (uint256 (headSize + dynamicOffset)) data)
    else
      encodeHeads headSize dynamicOffset ps (p.encode data)

/-- The second pass of `ParamSet::encode`. -/
def encodeTails : List Param → Data → Data
  | [], data => data
  | p :: ps, data =>
    if p.isDynamic then encodeTails ps (p.encode data)
    else if p.isFixArray then encodeTails ps data
    else if p.getSize > encodedIntSize then encodeTails ps (p.encode data)
    else encodeTails ps data
end

/-! ### ParamSet -/

namespace ParamSet

/-- `ParamSet::getType`. -/
def getType (params : List Param) : Str := "(".toList ++ joinTypes params ++ ")".toList

/-- `ParamSet::getSize`. -/
def getSize (params : List Param) : Nat := paddedTo32 (sizeSum params)

/-- `ParamSet::encode`. -/
def encode (params : List Param) (data : Data) : Data :=
  encodeTails params (encodeHeads (getHeadSize params) 0 params data)

end ParamSet

end ConfluxSdk.Abi
