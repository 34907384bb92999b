import ConfluxSdk.Native.AbiCollection
import ConfluxSdk.Native.CommonData
import ConfluxSdk.Native.NlohmannJson

/-!
# Texts of decoded values

Model of `ParamFactory::getValue`, which renders a parameter by the text of a type, and of
`ValueDecoder`. The elements of an array are rendered one by one, each text is read again as
JSON, and the array of what was read is dumped.

A parameter is cast to the class the type text names, without a check: a parameter of another
class is a null pointer, which is dereferenced.
-/

namespace ConfluxSdk.Abi

/-- How rendering a value fails. -/
inductive ValueError where
  | std (e : StdError)
  | typeError (e : Nlohmann.TypeError)
  | nullPointer
  deriving DecidableEq, Repr

/-! ### Elementary values -/

/-- `hexEncoded`. -/
def hexEncoded (collection : Data) : Data := bytesOfStr ("0x".toList ++ Dev.toHex collection)

/-- `boost::lexical_cast<std::string>` of an integer. -/
def lexicalCast (n : Int) : Data :=
  if n < 0 then bytesOfStr ("-".toList ++ to_string n.natAbs) else bytesOfStr (to_string n.natAbs)

/-- `ParamAddress::getData`. -/
def getData (val : Fin (2 ^ 160)) : Data :=
  let data := store (uint256 val.val)
  if 20 ≤ data.length then data
  -- need to pad
  else List.replicate (20 - data.length) 0 ++ data

/-- `dynamic_pointer_cast<T>(param)->getVal()` of the class for a numeric type. -/
def numberVal (t : NumberType) : Param → Except ValueError Int
  | .number t' val => if t' = t then .ok val.1 else .error .nullPointer
  | _ => .error .nullPointer

/-- `dynamic_pointer_cast<ParamUIntN>(param)->getVal()`. `ParamAddress` derives from it. -/
def uintNVal : Param → Except ValueError Nat
  | .uintN _ val => .ok val.val
  | .address val => .ok val.val
  | _ => .error .nullPointer

/-- `dynamic_pointer_cast<ParamIntN>(param)->getVal()`. -/
def intNVal : Param → Except ValueError Int
  | .intN _ val => .ok val.1
  | _ => .error .nullPointer

/-- `dynamic_pointer_cast<ParamAddress>(param)->getData()`. -/
def addressData : Param → Except ValueError Data
  | .address val => .ok (getData val)
  | _ => .error .nullPointer

/-- `dynamic_pointer_cast<ParamByteArray>(param)->getVal()`. -/
def byteArrayVal : Param → Except ValueError Data
  | .byteArray bytes => .ok bytes
  | _ => .error .nullPointer

/-- `dynamic_pointer_cast<ParamByteArrayFix>(param)->getVal()`. -/
def byteArrayFixVal : Param → Except ValueError Data
  | .byteArrayFix _ bytes => .ok bytes
  | _ => .error .nullPointer

/-- `dynamic_pointer_cast<ParamString>(param)->getVal()`. -/
def stringVal : Param → Except ValueError Data
  | .string str => .ok str
  | _ => .error .nullPointer

/-- `ParamFactory::getValue` of a type that is no array type. -/
def getElementaryValue (param : Param) (type : Str) : Except ValueError Data :=
  if type = "address".toList then (addressData param).map hexEncoded
  else if type = "uint8".toList then (numberVal .uint8 param).map lexicalCast
  else if type = "uint16".toList then (numberVal .uint16 param).map lexicalCast
  else if type = "uint32".toList then (numberVal .uint32 param).map lexicalCast
  else if type = "uint64".toList then (numberVal .uint64 param).map lexicalCast
  else if type = "uint256".toList ∨ type = "uint".toList then
    (numberVal .uint256 param).map lexicalCast
  else if type = "int8".toList then (numberVal .int8 param).map lexicalCast
  else if type = "int16".toList then (numberVal .int16 param).map lexicalCast
  else if type = "int32".toList then (numberVal .int32 param).map lexicalCast
  else if type = "int64".toList then (numberVal .int64 param).map lexicalCast
  else if type = "int256".toList ∨ type = "int".toList then
    (numberVal .int256 param).map lexicalCast
  else if "uint".toList.isPrefixOf type then (uintNVal param).map fun n => lexicalCast n
  else if "int".toList.isPrefixOf type then (intNVal param).map lexicalCast
  else if type = "bool".toList then (numberVal .bool param).map fun val =>
    bytesOfStr (if val ≠ 0 then "true".toList else "false".toList)
  else if type = "bytes".toList then (byteArrayVal param).map hexEncoded
  else if "bytes".toList.isPrefixOf type then (byteArrayFixVal param).map hexEncoded
  else if type = "string".toList then stringVal param
  else .ok []

/-! ### Arrays -/

section Json

variable (json : Nlohmann)

/-- An element's text read as JSON, to prevent quotes on simple values; any other text is a
    JSON string. -/
def readElem (text : Data) : Nlohmann.Json := (json.parse text).getD (.string text)

/-- `joinArrayElems`. -/
def joinArrayElems (strings : List Data) : Except ValueError Data :=
  match json.dump (.array (strings.map (readElem json))) with
  | .ok text => .ok text
  | .error e => .error (.typeError e)

/-- `dynamic_pointer_cast<ParamArray>(param)`, and its elements. -/
def arrayElems : Param → Option (List Param)
  | .array elems => some elems
  | _ => none

/-- `ParamFactory::getValue`. -/
def getValue (param : Param) (type : Str) : Except ValueError Data :=
  if _h : isArrayType type = true then do
    let values ← ((arrayElems param).getD []).mapM fun elem => getValue elem (getArrayElemType type)
    joinArrayElems json values
  else getElementaryValue param type
termination_by type.length
decreasing_by exact length_getArrayElemType_lt _h

/-- `ParamFactory::getArrayValue`. -/
def getArrayValue (param : Param) (type : Str) : Except ValueError (List Data) :=
  if isArrayType type then
    ((arrayElems param).getD []).mapM fun elem => getValue json elem (getArrayElemType type)
  else .ok []

/-! ### ValueDecoder -/

/-- `ValueDecoder::decodeValue`. -/
def decodeValue (data : Bytes) (type : Str) : Except ValueError Data :=
  match make type with
  | .error e => .error (.std e)
  | .ok none => .ok []
  | .ok (some param) =>
    match param.decode data 0 with
    | .error e => .error (.std e)
    | .ok (false, _, _) => .ok []
    | .ok (true, param, _) => getValue json param param.getType

/-- `ValueDecoder::decodeArray`. -/
def decodeArray (data : Bytes) (type : Str) : Except ValueError (List Data) :=
  match make type with
  | .error e => .error (.std e)
  | .ok none => .ok []
  | .ok (some param) =>
    match param.decode data 0 with
    | .error e => .error (.std e)
    | .ok (false, _, _) => .ok []
    | .ok (true, param, _) => getArrayValue json param type

/-- An array is rendered from the texts of its elements. -/
theorem getValue_array (param : Param) {type : Str} (h : isArrayType type = true) :
    getValue json param type = getArrayValue json param type >>= joinArrayElems json := by
  rw [getValue, dif_pos h, getArrayValue, if_pos h]

end Json

end ConfluxSdk.Abi
