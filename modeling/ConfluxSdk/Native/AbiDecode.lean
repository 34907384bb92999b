import ConfluxSdk.Native.AbiFactory

/-!
# ABI decoding

Model of the `decode` members of the parameter classes and of `ParamSet`, and of
`Function::encode` / `decodeInput` / `decodeOutput`. A decoder returns whether it
succeeded, the object as it left it, and the new `offset_inout`; an exception of
the standard library ends it without a result.

All sizes here are `size_t`, since lengths read from the data take part in the
arithmetic. A read outside the buffer, which is undefined in the source, yields
the bytes that are there; a vector made from a range that ends before it starts
is the exception that its size gives.

`ParamArray::decode` grows the array with objects made by `ParamFactory`, so the
recursion is not on the object. It is bounded by the nesting depth instead.
-/

namespace ConfluxSdk.Abi

/-- `ValueEncoder::paddedTo32` on a `size_t`. -/
def sizePaddedTo32 (len : Nat) : Nat := sizeT (len + 31) / 32 * 32

/-- `TW::loadWithOffset`. -/
def loadWithOffset (data : Bytes) (offset : Nat) : UInt256 :=
  if data.toList = [] ∨ data.size < sizeT (32 + offset) then uint256 0
  else load ((data.toList.drop offset).take 32)

/-- `ABI::decode` of a `uint256_t`; `none` when the data ends too early. -/
def decodeWord (encoded : Bytes) (offset : Nat) : Option (UInt256 × Nat) :=
  if encoded.toList = [] ∨ encoded.size < sizeT (encodedIntSize + offset) then none
  else some (loadWithOffset encoded offset, sizeT (offset + encodedIntSize))

/-- The rounding `offset_inout = origOffset + paddedTo32(offset_inout - origOffset)`. -/
def alignFrom (origOffset offset : Nat) : Nat :=
  sizeT (origOffset + sizePaddedTo32 (sizeSub offset origOffset))

/-- `ParamByteArray::decodeBytes`. A length that wraps the sum with the offset passes
    the check, and the range of the bytes then ends before it starts. -/
def decodeBytes (encoded : Bytes) (decoded : Data) (offset : Nat) :
    Except StdError (Bool × Data × Nat) :=
  match decodeWord encoded offset with
  | none => .ok (false, decoded, offset)
  | some (len256, offset₁) =>
    let len := sizeT len256.val
    if len256.val ≠ len then .ok (false, decoded, offset₁)
    else if encoded.size < sizeT (offset₁ + len) then .ok (false, decoded, offset₁)
    else if sizeT (offset₁ + len) < offset₁ then .error .lengthError
    else
      .ok (true, (encoded.toList.drop offset₁).take len, alignFrom offset (sizeT (offset₁ + len)))

/-- `ParamByteArrayFix::decodeBytesFix`. -/
def decodeBytesFix (encoded : Bytes) (n : Nat) (decoded : Data) (offset : Nat) :
    Bool × Data × Nat :=
  if encoded.size < sizeT (offset + n) then (false, decoded, offset)
  else
    let room := if decoded.length < n then decoded ++ List.replicate (n - decoded.length) 0
      else decoded
    (true, (encoded.toList.drop offset).take n ++ room.drop n,
      alignFrom offset (sizeT (offset + n)))

section ParamSet

variable (encoded : Bytes) 
  (dec : Param → Nat → Except StdError (Bool × Param × Nat))

/-- The first pass of `ParamSet::decode`; `dec` decodes one member. -/
def decodeHeads : List Param → Nat → Except StdError (Bool × List Param × Nat)
  | [], offset => .ok (true, [], offset)
  | p :: ps, offset =>
    if p.isDynamic then
      match decodeWord encoded offset with
      | none => .ok (false, p :: ps, offset)
      -- index is read but not used
      | some (_, offset') => do
        let (ok, ps', off) ← decodeHeads ps offset'
        .ok (ok, p :: ps', off)
    else do
      let (ok, p', offset') ← dec p offset
      if ok then
        let (ok', ps', off) ← decodeHeads ps offset'
        .ok (ok', p' :: ps', off)
      else .ok (false, p' :: ps, offset')

/-- The second pass of `ParamSet::decode`. -/
def decodeTails : List Param → Nat → Except StdError (Bool × List Param × Nat)
  | [], offset => .ok (true, [], offset)
  | p :: ps, offset =>
    if p.isDynamic then do
      let (ok, p', offset') ← dec p offset
      if ok then
        let (ok', ps', off) ← decodeTails ps offset'
        .ok (ok', p' :: ps', off)
      else .ok (false, p' :: ps, offset')
    else do
      let (ok, ps', off) ← decodeTails ps offset
      .ok (ok, p :: ps', off)

/-- `ParamSet::decode`. -/
def decodeSet (ps : List Param) (offset : Nat) : Except StdError (Bool × List Param × Nat) := do
  let (ok, ps', off) ← decodeHeads encoded dec ps offset
  if ok then decodeTails dec ps' off else .ok (false, ps', off)

/-- The end of `ParamArray::decode`: read the values, then round the offset. -/
def decodeValues (ps : List Param) (origOffset offset : Nat) :
    Except StdError (Bool × List Param × Nat) := do
  let (ok, ps', off) ← decodeSet encoded dec ps offset
  .ok (ok, ps', alignFrom origOffset off)

/-- Pad with the first type: `ParamSet::addParam` ignores a null object. -/
def growTo (ps : List Param) (len : Nat) : Except StdError (List Param) :=
  if ps.length < len then do
    match ← make (getFirstType ps) with
    | none => .ok ps
    | some q => .ok (ps ++ List.replicate (len - ps.length) q)
  else .ok ps

/-- `ParamArray::decode` (`readLength` true) and `ParamArrayFix::decode`
    (`readLength` when dynamic) on the elements. -/
def decodeElems (readLength : Bool) (ps : List Param) (offset : Nat) :
    Except StdError (Bool × List Param × Nat) :=
  if readLength then
    match decodeWord encoded offset with
    | none => .ok (false, ps, offset)
    | some (len256, offset₁) =>
      let len := sizeT len256.val
      if len256.val ≠ len then .ok (false, ps, offset₁)
      else if ps.length = 0 ∨ ps.length > len then .ok (false, ps, offset₁)
      else do
        let ps' ← growTo ps len
        decodeValues encoded dec ps' offset offset₁
  else decodeValues encoded dec ps offset offset

end ParamSet

mutual
/-- Nesting depth of collections. -/
def Param.depth : Param → Nat
  | .array ps | .arrayFix ps | .parameters ps => maxDepth ps + 1
  | _ => 0

def maxDepth : List Param → Nat
  | [] => 0
  | p :: ps => max p.depth (maxDepth ps)
end

theorem two_pow_160_pos : 0 < 2 ^ 160 := by decide

/-- `ParamBase::decode`, cut off below the given nesting depth. -/
def Param.decodeTo (encoded : Bytes) : Nat → Param → Nat → Except StdError (Bool × Param × Nat)
  | _, .number t val, offset =>
    match decodeWord encoded offset with
    | none => .ok (false, .number t val, offset)
    | some (val256, offset') => .ok (true, .number t (t.ofUInt256 val256), offset')
  | _, .uintN bits _, offset =>
    match decodeWord encoded offset with
    -- setVal is reached on failure too, with the zero `ABI::decode` leaves
    | none => .ok (false, .uintN bits (uintNSetVal bits (uint256 0)), offset)
    | some (temp, offset') => .ok (true, .uintN bits (uintNSetVal bits temp), offset')
  | _, .intN bits _, offset =>
    match decodeWord encoded offset with
    | none => .ok (false, .intN bits (intNSetVal bits (int256FromUint256 (uint256 0))), offset)
    | some (valU, offset') =>
      .ok (true, .intN bits (intNSetVal bits (int256FromUint256 valU)), offset')
  | _, .address _, offset =>
    match decodeWord encoded offset with
    | none => .ok (false, .address ⟨0, two_pow_160_pos⟩, offset)
    | some (temp, offset') =>
      .ok (true, .address ⟨temp.val % 2 ^ 160, Nat.mod_lt _ (by decide)⟩, offset')
  | _, .byteArray bytes, offset => do
    let (ok, bytes', offset') ← decodeBytes encoded bytes offset
    .ok (ok, .byteArray bytes', offset')
  | _, .byteArrayFix n bytes, offset =>
    let (ok, bytes', offset') := decodeBytesFix encoded n bytes offset
    .ok (ok, .byteArrayFix n bytes', offset')
  | _, .string str, offset => do
    let (ok, str', offset') ← decodeBytes encoded str offset
    .ok (ok, .string str', offset')
  | 0, p, offset => .ok (false, p, offset)
  | fuel + 1, .array ps, offset => do
    let (ok, ps', off) ← decodeElems encoded (Param.decodeTo encoded fuel) true ps offset
    .ok (ok, .array ps', off)
  | fuel + 1, .arrayFix ps, offset => do
    let (ok, ps', off) ←
      decodeElems encoded (Param.decodeTo encoded fuel) (firstIsDynamic ps) ps offset
    .ok (ok, .arrayFix ps', off)
  | fuel + 1, .parameters ps, offset => do
    let (ok, ps', off) ← decodeSet encoded (Param.decodeTo encoded fuel) ps offset
    .ok (ok, .parameters ps', off)

/-- `ParamBase::decode`. -/
def Param.decode (encoded : Bytes) (p : Param) (offset : Nat) :
    Except StdError (Bool × Param × Nat) :=
  p.decodeTo encoded p.depth offset

/-- `ParamSet::decode`. -/
def ParamSet.decode (encoded : Bytes) (ps : List Param) (offset : Nat) :
    Except StdError (Bool × List Param × Nat) :=
  decodeSet encoded (Param.decodeTo encoded (maxDepth ps)) ps offset

/-! ### Function -/

/-- `TW::Ethereum::ABI::Function`. -/
structure Function where
  name : Str
  inParams : List Param
  outParams : List Param

/-- The bytes of a text. -/
def bytesOfStr (s : Str) : Data := s.map fun c => UInt8.ofNat c.toNat

namespace Function

/-- `Function::getType`. -/
def getType (f : Function) : Str := f.name ++ ParamSet.getType f.inParams

/-- The Keccak-256 of the linked hash library: 32 bytes for every input. -/
abbrev Keccak := Data → List.Vector UInt8 32

variable (keccak256 : Keccak)

/-- `Function::getSignature`. -/
def getSignature (f : Function) : Data := (keccak256 (bytesOfStr f.getType)).toList.take 4

/-- `Function::encode`. -/
def encode (f : Function) (data : Data) : Data :=
  ParamSet.encode f.inParams (data ++ f.getSignature keccak256)

/-- `Function::decodeOutput`. -/
def decodeOutput (f : Function) (encoded : Bytes) (offset : Nat) :
    Except StdError (Bool × Function × Nat) := do
  let (ok, ps', off) ← ParamSet.decode encoded f.outParams offset
  .ok (ok, { f with outParams := ps' }, off)

/-- `Function::decodeInput`. -/
def decodeInput (f : Function) (encoded : Bytes) (offset : Nat) :
    Except StdError (Bool × Function × Nat) := do
  let (ok, hash, off) := decodeBytesFix encoded 4 (List.replicate 4 0) offset
  if !ok then .ok (false, f, off)
  else
    -- adjust offset; hash is NOT padded to 32 bytes
    let off := sizeT (sizeSub off 32 + 4)
    if hash ≠ f.getSignature keccak256 then .ok (false, f, off)
    else
      let (ok, ps', off) ← ParamSet.decode encoded f.inParams off
      .ok (ok, { f with inParams := ps' }, off)

end Function

end ConfluxSdk.Abi
