import ConfluxSdk.Native.CommonData

/-!
# Members of JSON objects

Model of the functions of `libdevcore/CommonJS` that read numbers and hashes, and of those
of `common/util/json_convert` that read the members of a JSON object.

The constructor of a number of `boost::multiprecision` from a decimal text is a
parameter. A member of an object is a text or a value of another kind, which is not
looked at. What a function may throw is not told apart: it returns in `Option` then.
-/

namespace ConfluxSdk

/-- The constructor of an unsigned boost number of so many bytes from a text; `none`
    stands for its exception. -/
structure Boost where
  number : Nat → Str → Option Nat

namespace Dev

/-- `jsToInt<N>`. -/
def jsToIntN (boost : Boost) (N : Nat) (s : Str) : Option Nat :=
  if s.take 2 = "0x".toList then some (Rlp.fromBigEndian N ((fromHex (s.drop 2)).getD []))
  else if s.all Regex.digits.elem then boost.number N s
  -- Any other text is zero, without an exception.
  else some 0

/-- `jsToU256`. -/
def jsToU256 (boost : Boost) (s : Str) : Option U256 :=
  (jsToIntN boost 32 s).map (Fin.ofNat (2 ^ 256))

/-- `jsToFixed<N>`. Longer texts are cropped to their last digits; the size is a 32-bit
    `unsigned` there. -/
def jsToFixed (boost : Boost) (N : Nat) (s : Str) : Option (FixedHash N) :=
  if s.take 2 = "0x".toList then
    -- Fewer bytes than the hash has give the zero hash.
    FixedHash.ofHex N (s.drop (2 + max (N * 2) ((s.length - 2) % 2 ^ 32) - N * 2))
  else if s.all Regex.digits.elem then (boost.number N s).map (.ofNat N)
  else some (.zero N)

/-- `jsToInt`; exceptions are ignored. -/
def jsToInt (s : Str) : Int :=
  match stoiAnyBase s with
  | .ok ret => ret
  | .error _ => 0

end Dev

/-- `Json::Value`, as a member of an object. -/
inductive JsonValue where
  | stringValue (s : Str)
  | otherValue
  deriving DecidableEq, Repr

/-- The members of a `Json::Value`. -/
abbrev JsonMembers := List (Str × JsonValue)

/-- The text of a member, where `jsHasStringValue` holds. -/
def jsStringValue (js : JsonMembers) (mem : Str) : Option Str :=
  match js.lookup mem with
  | some (.stringValue s) => some s
  | _ => none

/-- `jsMem2U256`: whether the member was read, and the variable afterwards. `none` stands
    for an exception. -/
def jsMem2U256 (boost : Boost) (js : JsonMembers) (mem : Str) (v : U256) : Option (Bool × U256) :=
  match jsStringValue js mem with
  | some s => (Dev.jsToU256 boost s).map fun n => (true, n)
  | none => some (false, v)

/-- `jsMem2Hash`. -/
def jsMem2Hash (boost : Boost) (N : Nat) (js : JsonMembers) (mem : Str) (v : FixedHash N) :
    Option (Bool × FixedHash N) :=
  match jsStringValue js mem with
  | some s => (Dev.jsToFixed boost N s).map fun h => (true, h)
  | none => some (false, v)

/-- `static_cast<uint64_t>` of an `int`, assigned to a variable of `width` bits. -/
def castUint64 (width : Nat) (n : Int) : Nat := (n % 2 ^ 64).toNat % 2 ^ width

/-- `jsMem2Uint64` for a variable of `width` bits: whether the member was read, and the
    variable afterwards. -/
def jsMem2Uint64 (width : Nat) (js : JsonMembers) (mem : Str) (v : Nat) : Bool × Nat :=
  match jsStringValue js mem with
  | some s => (true, castUint64 width (Dev.jsToInt s))
  | none => (false, v)

/-- `jsMem2CfxAddress`, with the network that the constructor takes by default. -/
def jsMem2CfxAddress (js : JsonMembers) (mem : Str) (v : Address) : Option (Bool × Address) :=
  match jsStringValue js mem with
  | some s =>
    (Address.construct (tolower_string s) NetworkType.testnetID).toOption.map fun a => (true, a)
  | none => some (false, v)

/-- `jsMem2Bytes`: a text without digits behind the prefix leaves the variable as it is. -/
def jsMem2Bytes (js : JsonMembers) (mem : Str) (v : List UInt8) : Bool × List UInt8 :=
  match jsStringValue js mem with
  | some s => (true, if s.length > 2 then Hex.decodeString (s.drop 2) else v)
  | none => (false, v)

end ConfluxSdk
