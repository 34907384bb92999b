import ConfluxSdk.Native.AbiParam

/-!
# ParamFactory

Model of `ParamFactory::make`, which builds an empty parameter object from the
text of a type. The array case strips a trailing `[]` and recurses; sizes are
read with `std::stoi`, whose exceptions escape.
-/

namespace ConfluxSdk.Abi

/-- The bit sizes for which `parseBitSize` does not throw. -/
def admittedBitSize (size : Int) : Prop :=
  8 ≤ size.toNat ∧ size.toNat ≤ 256 ∧ size.toNat % 8 = 0 ∧ size.toNat ≠ 8 ∧
    size.toNat ≠ 16 ∧ size.toNat ≠ 32 ∧ size.toNat ≠ 64 ∧ size.toNat ≠ 256

instance (size : Int) : Decidable (admittedBitSize size) :=
  inferInstanceAs (Decidable (_ ∧ _))

/-- `parseBitSize`. A negative size is below 8. -/
def parseBitSize (type : Str) : Except StdError BitSize := do
  let size ← stoi type
  if h : admittedBitSize size then .ok ⟨size.toNat, h⟩ else .error .invalidArgument

/-- `makeUInt`. -/
def makeUInt (type : Str) : Except StdError (Option Param) := do
  let bits ← parseBitSize type
  .ok (some (.uintN bits ⟨0, Nat.two_pow_pos _⟩))

/-- `makeInt`. -/
def makeInt (type : Str) : Except StdError (Option Param) := do
  let bits ← parseBitSize type
  .ok (some (.intN bits ⟨0, by
    have : (0 : Int) < 2 ^ bits.val := by positivity
    omega⟩))

/-- `isArrayType`. -/
def isArrayType (type : Str) : Bool := "[]".toList.isSuffixOf type && decide (3 ≤ type.length)

/-- `getArrayElemType`. -/
def getArrayElemType (arrayType : Str) : Str :=
  if "[]".toList.isSuffixOf arrayType && decide (3 ≤ arrayType.length) then
    arrayType.take (arrayType.length - 2)
  else []

theorem length_getArrayElemType_lt {type : Str} (h : isArrayType type = true) :
    (getArrayElemType type).length < type.length := by
  have h' := h
  rw [isArrayType] at h'
  rw [getArrayElemType, if_pos h', List.length_take]
  rw [Bool.and_eq_true, decide_eq_true_eq] at h'
  omega

/-- A freshly constructed numeric parameter. -/
def makeNumber (t : NumberType) (h : t.least ≤ 0 ∧ 0 ≤ t.greatest) :
    Except StdError (Option Param) :=
  .ok (some (.number t ⟨0, h⟩))

/-- `ParamFactory::make` of a type that is no array type. -/
def makeElementary (type : Str) : Except StdError (Option Param) :=
  if type = "address".toList then .ok (some (.address ⟨0, by decide⟩))
  else if type = "uint8".toList then makeNumber .uint8 (by decide)
  else if type = "uint16".toList then makeNumber .uint16 (by decide)
  else if type = "uint32".toList then makeNumber .uint32 (by decide)
  else if type = "uint64".toList then makeNumber .uint64 (by decide)
  else if type = "uint256".toList ∨ type = "uint".toList then makeNumber .uint256 (by decide)
  else if type = "int8".toList then makeNumber .int8 (by decide)
  else if type = "int16".toList then makeNumber .int16 (by decide)
  else if type = "int32".toList then makeNumber .int32 (by decide)
  else if type = "int64".toList then makeNumber .int64 (by decide)
  else if type = "int256".toList ∨ type = "int".toList then makeNumber .int256 (by decide)
  else if "uint".toList.isPrefixOf type then makeUInt (type.drop 4)
  else if "int".toList.isPrefixOf type then makeInt (type.drop 3)
  else if type = "bool".toList then makeNumber .bool (by decide)
  else if type = "bytes".toList then .ok (some (.byteArray []))
  else if "bytes".toList.isPrefixOf type then do
    let n ← stoi (type.drop 5)
    -- A negative count becomes a `size_t` no vector can have.
    if n < 0 then .error .lengthError
    else .ok (some (.byteArrayFix n.toNat (List.replicate n.toNat 0)))
  else if type = "string".toList then .ok (some (.string []))
  else .ok none

/-- `ParamFactory::make`. -/
def make (type : Str) : Except StdError (Option Param) :=
  if h : isArrayType type = true then do
    match ← make (getArrayElemType type) with
    | none => .ok none
    | some elemParam => .ok (some (.array [elemParam]))
  else makeElementary type
termination_by type.length
decreasing_by exact length_getArrayElemType_lt h

theorem isArrayType_append {elem : Str} (h : elem ≠ []) :
    isArrayType (elem ++ "[]".toList) = true := by
  have hpos := List.length_pos_iff.mpr h
  have hlen : "[]".toList.length = 2 := by decide
  rw [isArrayType, Bool.and_eq_true, List.isSuffixOf_iff_suffix, decide_eq_true_eq,
    List.length_append]
  exact ⟨List.suffix_append _ _, by omega⟩

theorem getArrayElemType_append {elem : Str} (h : elem ≠ []) :
    getArrayElemType (elem ++ "[]".toList) = elem := by
  have harr := isArrayType_append h
  have hlen : "[]".toList.length = 2 := by decide
  rw [isArrayType] at harr
  rw [getArrayElemType, if_pos harr, List.length_append, hlen, Nat.add_sub_cancel,
    List.take_left]

/-- An array type is made from what its element type makes. -/
theorem make_array {elem : Str} (h : elem ≠ []) :
    make (elem ++ "[]".toList) = (make elem).map (Option.map fun p => .array [p]) := by
  rw [make, dif_pos (isArrayType_append h), getArrayElemType_append h]
  cases make elem with
  | error e => rfl
  | ok o => cases o <;> rfl

end ConfluxSdk.Abi
