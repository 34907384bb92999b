import ConfluxSdk.Native.AbiDecode

/-!
# Filling collections

Model of the members of `ParamArray` that put elements into it. An element is
compared with the first one by the text of its type; `addParams` goes on after a
refusal and does not report it.

The constructors and setters of `ParamByteArrayFix` are here too. They keep the size
of the type and the bytes apart.
-/

namespace ConfluxSdk.Abi

/-- `ParamSet::addParam`: the index of the new parameter, or -1 for a null pointer. The
    index is cast to an `int`. -/
def ParamSet.addParam (params : List Param) : Option Param → Int × List Param
  | none => (-1, params)
  | some param => ((params.length : Int).bmod (2 ^ 32), params ++ [param])

namespace ParamArray

/-- `ParamArray::addParam`. -/
def addParam (params : List Param) : Option Param → Int × List Param
  | none => (-1, params)
  | some param =>
    -- do not add different types
    if 1 ≤ params.length ∧ param.getType ≠ getFirstType params then (-2, params)
    else ParamSet.addParam params (some param)

/-- `ParamArray::addParams`. -/
def addParams (params : List Param) (added : List (Option Param)) : List Param :=
  added.foldl (fun params p => (addParam params p).2) params

/-- `ParamArray::setVal`. -/
def setVal (params : List Param) (added : List (Option Param)) : List Param := addParams params added

/-- `ParamArray::ParamArray` of a vector. -/
def construct (params : List (Option Param)) : Param := .array (setVal [] params)

/-- `ParamArray::getVal`. -/
def getVal : Param → List Param
  | .array params => params
  | _ => []

/-- `ParamArray::getCount`. -/
def getCount (p : Param) : Nat := (getVal p).length

end ParamArray

namespace ParamByteArrayFix

/-- `ParamByteArrayFix::ParamByteArrayFix(size_t)`. -/
def construct (n : Nat) : Param := .byteArrayFix n (List.replicate n 0)

/-- `ParamByteArrayFix::setVal`. -/
def setVal : Param → Data → Param
  | .byteArrayFix n _, val => .byteArrayFix n val
  | p, _ => p

/-- `ParamByteArrayFix::ParamByteArrayFix(size_t, const Data&)`. -/
def constructVal (n : Nat) (val : Data) : Param := setVal (construct n) val

/-- `ParamByteArrayFix::getVal`. -/
def getVal : Param → Data
  | .byteArrayFix _ bytes => bytes
  | _ => []

end ParamByteArrayFix

end ConfluxSdk.Abi
