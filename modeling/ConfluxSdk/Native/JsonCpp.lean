import ConfluxSdk.Native.BloomFilter
import ConfluxSdk.Native.CommonJS

/-!
# Values of replies

Model of `Json::Value` as the readers of replies and the writers of requests use it, and of
the readers of `common/util/json_convert` for it. The readers of texts are those for
`JsonMembers`, which see of every member whether it is a text.

A number is its text, as `asString` gives it.
-/

namespace ConfluxSdk

/-- `Json::Value`; the members of an object have different names. -/
inductive JsonCpp where
  | nullValue
  | booleanValue (b : Bool)
  | numberValue (text : Str)
  | stringValue (s : Str)
  | arrayValue (values : List JsonCpp)
  | objectValue (members : List (Str × JsonCpp))

namespace JsonCpp

/-- What `isMember` and `operator[]` look at; they throw on anything else. -/
def members : JsonCpp → Option (List (Str × JsonCpp))
  | .objectValue ms => some ms
  | .nullValue => some []
  | _ => none

/-- `asString`, which throws on arrays and objects. -/
def asString : JsonCpp → Option Str
  | .nullValue => some []
  | .booleanValue b => some (if b then "true" else "false").toList
  | .numberValue text => some text
  | .stringValue s => some s
  | _ => none

/-- A value, as the readers of texts see it. -/
def view : JsonCpp → JsonValue
  | .stringValue s => .stringValue s
  | _ => .otherValue

/-- The members, as the readers of texts see them. -/
def viewMembers (ms : List (Str × JsonCpp)) : JsonMembers := ms.map fun m => (m.1, m.2.view)

end JsonCpp

/-- `toJS` of a hash. -/
def Dev.toJSHash {n : Nat} (h : FixedHash n) : Str := "0x".toList ++ h.hex

variable (boost : Boost) (ms : List (Str × JsonCpp)) (mem : Str)

/-- `jsMem2Boolean`. -/
def jsMem2Boolean (v : Bool) : Bool × Bool :=
  match ms.lookup mem with
  | some (.booleanValue b) => (true, b)
  | _ => (false, v)

/-- `jsMem2String` for an optional text. -/
def jsMem2String (v : Option Str) : Bool × Option Str :=
  match jsStringValue (JsonCpp.viewMembers ms) mem with
  | some s => (true, some s)
  | none => (false, v)

/-- The loop over an array of hashes. -/
def readHashes (N : Nat) : List JsonCpp → Option (List (FixedHash N))
  | [] => some []
  | value :: values => do
    let s ← value.asString
    let h ← Dev.jsToFixed boost N s
    let hashes ← readHashes N values
    some (h :: hashes)

/-- The hashes of a member that is an array, behind those that are there. -/
def jsMem2Hashes (N : Nat) (v : List (FixedHash N)) : Option (List (FixedHash N)) :=
  match ms.lookup mem with
  | some (.arrayValue values) => (readHashes boost N values).map (v ++ ·)
  | _ => some v

end ConfluxSdk
