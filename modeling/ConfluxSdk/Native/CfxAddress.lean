import ConfluxSdk.Native.StringUtil

/-!
# CIP-37 addresses

Model of `libcfxcore/types/cfxaddress`: bit regrouping and checksum (`lib.cpp`,
`checksum.cpp`), network and address types, `Body` and `Address`.

The constructor of `Address` parses a text; `std::stoi` may throw out of it, so
it returns in `Except`. An `Address` whose parsing failed exists all the same,
with the type `invalid`.

The two text getters print into a `char[128]`. A longer text overruns the
buffer, which is undefined; the model returns no text then.
-/

namespace ConfluxSdk

/-- `byteArray`. -/
abbrev ByteArr := List UInt8

/-! ### lib -/

/-- The inner loop of `convert`: the complete output groups in `acc`, and what is
    left of `acc` and `accBits`. The loop ends because `accBits` falls by
    `outbits`, which bounds the rounds by `accBits`. -/
def convertEmit (outbits : Nat) : Nat → Nat → Nat → ByteArr × Nat × Nat
  | 0, acc, accBits => ([], acc, accBits)
  | rounds + 1, acc, accBits =>
    if outbits ≤ accBits then
      let val := UInt8.ofNat (acc >>> (accBits - outbits))
      let acc' := acc &&& ((1 <<< (accBits - outbits)) - 1)
      let (ret, rest) := convertEmit outbits rounds acc' (accBits - outbits)
      (val :: ret, rest)
    else ([], acc, accBits)

/-- The outer loop of `convert`; `acc` is a `uint16_t`. -/
def convertLoop (inbits outbits : Nat) : ByteArr → Nat → Nat → ByteArr × Nat × Nat
  | [], acc, accBits => ([], acc, accBits)
  | d :: data, acc, accBits =>
    -- The bits above the sixteenth are cut off.
    let acc₁ := (acc <<< inbits ||| d.toNat) % 2 ^ 16
    let accBits₁ := accBits + inbits
    let (ret, acc₂, accBits₂) := convertEmit outbits accBits₁ acc₁ accBits₁
    let (ret', rest) := convertLoop inbits outbits data acc₂ accBits₂
    (ret ++ ret', rest)

/-- `convert`. -/
def convert (data : ByteArr) (inbits outbits : Nat) : ByteArr :=
  if inbits > 8 ∨ outbits > 8 then []
  else
    let (ret, acc, accBits) := convertLoop inbits outbits data 0 0
    -- What is left fills a group only if the groups become smaller.
    if accBits > 0 ∧ inbits > outbits then ret ++ [UInt8.ofNat (acc <<< (outbits - accBits))]
    else ret

/-- The body of the loop of `polymod`. -/
def polymodStep (c : UInt64) (d : UInt8) : UInt64 :=
  let c0 := (c >>> 35).toUInt8
  let c := ((c &&& 0x07ffffffff) <<< 5) ^^^ d.toUInt64
  -- One generator for each bit that was shifted out.
  let c := if c0 &&& 0x01 ≠ 0 then c ^^^ 0x98f2bc8e61 else c
  let c := if c0 &&& 0x02 ≠ 0 then c ^^^ 0x79b76d99e2 else c
  let c := if c0 &&& 0x04 ≠ 0 then c ^^^ 0xf33e5fb3c4 else c
  let c := if c0 &&& 0x08 ≠ 0 then c ^^^ 0xae2eabe2a8 else c
  if c0 &&& 0x10 ≠ 0 then c ^^^ 0x1e4f43e470 else c

/-- `polymod`. -/
def polymod (v : ByteArr) : UInt64 := v.foldl polymodStep 1 ^^^ 1

/-- `uint64ToBytes`: the eight bytes, most significant first. -/
def uint64ToBytes (num : UInt64) : ByteArr :=
  [7, 6, 5, 4, 3, 2, 1, 0].map fun i : UInt64 => (num >>> (i * 8)).toUInt8

/-! ### NetworkType -/

/-- `NetworkType`. -/
structure NetworkType where
  net_work_type_str : Str
  deriving DecidableEq, Repr

namespace NetworkType

/-- `NetworkTypeMainnetPrefix`. -/
def mainnetPrefix : Str := "cfx".toList

/-- `NetworkTypeTestNetPrefix`. -/
def testNetPrefix : Str := "cfxtest".toList

/-- `NetowrkTypeMainnetID`. -/
def mainnetID : UInt32 := 1029

/-- `NetworkTypeTestnetID`. -/
def testnetID : UInt32 := 1

/-- `sprintf` with `%d` prints the argument as an `int`. -/
def printInt (n : UInt32) : Str :=
  if n.toNat < 2 ^ 31 then to_string n.toNat else '-' :: to_string (2 ^ 32 - n.toNat)

/-- `NetworkType::NetworkType(uint32_t)`. -/
def ofID (networkID : UInt32) : NetworkType :=
  if networkID = mainnetID then ⟨mainnetPrefix⟩
  else if networkID = testnetID then ⟨testNetPrefix⟩
  else ⟨"net".toList ++ printInt networkID⟩

/-- `getIDWhenBeginWithNet`. -/
def getIDWhenBeginWithNet (net_type : Str) : Except StdError UInt32 :=
  if net_type.length < 3 then .ok 0
  else if net_type.take 3 ≠ "net".toList then .ok 0
  else do
    -- `std::stoi` reads no more than an `int`, and stops at a character that is no digit.
    let id ← stoi (net_type.drop 3)
    .ok (UInt32.ofInt id)

/-- `ToNetworkID`. -/
def toNetworkID (nt : NetworkType) : Except StdError UInt32 :=
  if mainnetPrefix = nt.net_work_type_str then .ok mainnetID
  else if testNetPrefix = nt.net_work_type_str then .ok testnetID
  else getIDWhenBeginWithNet nt.net_work_type_str

end NetworkType

/-! ### AddressType -/

/-- The values an `AddressType` takes. -/
inductive AddressType where
  | builtin | user | contract | null | invalid
  deriving DecidableEq, Repr

namespace AddressType

/-- `AddressType::Type`. -/
def type : AddressType → Str
  | builtin => "builtin".toList
  | user => "user".toList
  | contract => "contract".toList
  | null => "null".toList
  | invalid => "invalid".toList

/-- `AddressType::String`. -/
def string (t : AddressType) : Str := "type.".toList ++ t.type

end AddressType

/-- `CalcAddressType`. -/
def calcAddressType (hexAddress : ByteArr) : AddressType :=
  if hexAddress = Hex.decodeString "0000000000000000000000000000000000000000".toList then .null
  else
    -- Only the first four bits tell the type.
    let addrTypeBits := hexAddress.headD 0 &&& 0xf0
    if addrTypeBits = 0x00 then .builtin
    else if addrTypeBits = 0x10 then .user
    else if addrTypeBits = 0x80 then .contract
    else .invalid

/-! ### VersionByte -/

/-- `VersionByte`. -/
structure VersionByte where
  TypeBits : UInt8
  AddressType : UInt8
  SizeBits : UInt8
  deriving DecidableEq, Repr

namespace VersionByte

/-- `VersionByte::VersionByte(uint8_t)`. -/
def ofByte (b : UInt8) : VersionByte := ⟨b >>> 7, (b &&& 0x7f) >>> 3, b &&& 0x0f⟩

/-- `hashSizeToBits`. -/
def hashSizeToBits : List (Nat × UInt8) :=
  [(160, 0), (192, 1), (224, 2), (256, 3), (320, 4), (384, 5), (448, 6), (512, 7)]

/-- `VersionByte::ToByte`. -/
def toByte (v : VersionByte) : UInt8 :=
  let ret : UInt8 := v.TypeBits <<< 7 &&& (0x80 : UInt8)
  let ret := ret ||| (v.AddressType &&& (0x0F : UInt8)) <<< (3 : UInt8)
  ret ||| v.SizeBits

end VersionByte

/-- `CalcVersionByte`; the lookup is `map::operator[]`, zero for a missing key. -/
def calcVersionByte (hexAddress : ByteArr) : VersionByte :=
  ⟨0, 0, (VersionByte.hashSizeToBits.lookup (hexAddress.length * 8)).getD 0⟩

/-! ### Body -/

/-- `Body`: the address as five-bit symbols. -/
structure Body where
  body : ByteArr
  deriving DecidableEq, Repr

namespace Body

/-- `Body::alphabet`. -/
def alphabet : Str := "abcdefghjkmnprstuvwxyz0123456789".toList

/-- `alphabetToIndexMap[c]`: `map::operator[]` yields zero for a character that is
    not in the alphabet. -/
def alphabetToIndex (c : Char) : UInt8 :=
  if c ∈ alphabet then UInt8.ofNat (alphabet.idxOf c) else 0

/-- `Body::Body(const std::string&)`. -/
def ofString (base32Str : Str) : Body := ⟨base32Str.map alphabetToIndex⟩

/-- `Body::Body(const VersionByte&, const byteArray&)`. -/
def ofBytes (vrsByte : VersionByte) (hexAddress : ByteArr) : Body :=
  ⟨convert (vrsByte.toByte :: hexAddress) 8 5⟩

/-- `Body::ToHexAddress`. -/
def toHexAddress (b : Body) : VersionByte × ByteArr :=
  let bytes := convert b.body 5 8
  (.ofByte (bytes.headD 0), bytes.tail)

/-- `Body::bits5sToString`. -/
def bits5sToString (data : ByteArr) : Str := data.map fun c => alphabet.getD c.toNat '\x00'

/-- `Body::String`. -/
def string (b : Body) : Str := bits5sToString b.body

end Body

/-- `CalcChecksum`. -/
def calcChecksum (nt : NetworkType) (body : Body) : ByteArr :=
  let checksumInput := nt.net_work_type_str.map (fun c => UInt8.ofNat c.toNat &&& 0x1F) ++
    [0] ++ body.body ++ List.replicate 8 0
  convert ((uint64ToBytes (polymod checksumInput)).drop 3) 8 5

/-! ### Address -/

/-- `Address`. -/
structure Address where
  networkType : NetworkType
  addressType : AddressType
  body : Body
  checksum : ByteArr
  hex : ByteArr
  networkID : UInt32
  deriving DecidableEq, Repr

namespace Address

/-- The members before the body of the constructor runs. -/
def init (networkID : UInt32) : Address where
  networkType := .ofID networkID
  addressType := .invalid
  body := .ofString []
  checksum := []
  hex := []
  networkID := 0

/-- `Address::setCache`. -/
def setCache (a : Address) : Except StdError Address := do
  let id ← a.networkType.toNetworkID
  .ok { a with hex := a.body.toHexAddress.2, networkID := id }

/-- `Address::NewFromBytes`. -/
def newFromBytes (hexAddress : ByteArr) (networkID : UInt32) (a : Address) :
    Except StdError (Int × Address) := do
  let networkType := NetworkType.ofID networkID
  let body := Body.ofBytes (calcVersionByte hexAddress) hexAddress
  let a ← setCache { a with
    networkType, body
    addressType := calcAddressType hexAddress
    checksum := calcChecksum networkType body }
  .ok (1, a)

/-- `Address::NewFromHex`. -/
def newFromHex (hexAddressStr : Str) (networkID : UInt32) (a : Address) :
    Except StdError (Int × Address) :=
  if !starts_with hexAddressStr "0x".toList then .ok (0, a)
  else newFromBytes (Hex.decodeString (hexAddressStr.drop 2)) networkID a

/-- `Address::NewFromBase32`. -/
def newFromBase32 (base32Str : Str) (a : Address) : Except StdError (Int × Address) :=
  if tolower_string base32Str ≠ base32Str ∧ toupper_string base32Str ≠ base32Str then .ok (0, a)
  else
    let parts := split_string (tolower_string base32Str) ':'
    if parts.length < 2 ∨ parts.length > 3 then .ok (0, a)
    else
      -- The name is kept as it is; what number it has is looked at in `setCache`.
      let a := { a with networkType := ⟨parts.getD 0 []⟩ }
      let bodyWithChecksum := parts.getD (parts.length - 1) []
      if bodyWithChecksum.length < 8 then .ok (0, a)
      else
        let body := Body.ofString (bodyWithChecksum.take (bodyWithChecksum.length - 8))
        let addressType := calcAddressType body.toHexAddress.2
        -- The type is that of the bytes, not that of the text.
        let a := { a with body, addressType }
        if parts.length = 3 ∧ tolower_string (parts.getD 1 []) ≠ addressType.string then .ok (0, a)
        else
          let a := { a with checksum := calcChecksum a.networkType body }
          let expectChk := Body.bits5sToString a.checksum
          let actualChk := bodyWithChecksum.drop (bodyWithChecksum.length - 8)
          -- A failure from here on leaves the fields set so far.
          if expectChk ≠ actualChk then .ok (0, a)
          else do
            let a ← setCache a
            .ok (1, a)

/-- `Address::GetNetworkID`. -/
def getNetworkID (a : Address) : Except StdError UInt32 := a.networkType.toNetworkID

/-- `Address::New`. -/
def new (base32OrHex : Str) (networkID : UInt32) (a : Address) : Except StdError Address :=
  let base32OrHex_lower := tolower_string base32OrHex
  if Regex.regex_match base32OrHex_lower Regex.hexPattern then do
    let (_, a) ← newFromHex base32OrHex_lower networkID a
    .ok a
  else if Regex.regex_match base32OrHex_lower Regex.base32Pattern then do
    let (retCode, a) ← newFromBase32 base32OrHex_lower a
    -- The object is returned all the same, as an invalid one.
    if retCode ≤ 0 then .ok { a with addressType := .invalid }
    else
      let id ← a.getNetworkID
      if networkID ≠ 0 ∧ id ≠ networkID then
        -- A text of another network is tried as a hex text, which it is not.
        let (_, a) ← newFromHex base32OrHex_lower networkID a
        .ok a
      else .ok a
  else .ok { a with addressType := .invalid }

/-- `Address::Address`. -/
def construct (base32OrHex : Str) (networkID : UInt32) : Except StdError Address :=
  new base32OrHex networkID (init networkID)

/-- `Address::GetHexAddress`. -/
def getHexAddress (a : Address) : Str := "0x".toList ++ Hex.encodeToString a.hex

/-- `Address::IsValid`. -/
def isValid (a : Address) : Bool :=
  a.addressType.type = AddressType.null.type || a.addressType.type = AddressType.builtin.type ||
    a.addressType.type = AddressType.user.type || a.addressType.type = AddressType.contract.type

/-- A text printed into `char retValue[128]`, with its terminating zero. -/
def printBuffer (text : Str) : Option Str := if text.length + 1 ≤ 128 then some text else none

/-- `Address::GetBase32Address`. -/
def getBase32Address (a : Address) : Option Str :=
  printBuffer (a.networkType.net_work_type_str ++ ":".toList ++ a.body.string ++
    Body.bits5sToString a.checksum)

/-- `Address::GetVerboseBase32Address`. -/
def getVerboseBase32Address (a : Address) : Option Str :=
  printBuffer (a.networkType.net_work_type_str ++ ":".toList ++ a.addressType.string ++
    ":".toList ++ a.body.string ++ Body.bits5sToString a.checksum)

/-- `Address::operator==`. The bodies compared are those of `rv` and `rv`. -/
def eq (a rv : Address) : Bool :=
  if rv.networkType.net_work_type_str ≠ a.networkType.net_work_type_str then false
  else if rv.addressType.string ≠ a.addressType.string then false
  else if rv.body.body ≠ rv.body.body then false
  else if rv.checksum ≠ a.checksum then false
  else true

/-- `Address::operator<`: undefined when one of the texts does not fit its buffer. -/
def lt (a rv : Address) : Option Bool := do
  let s ← a.getVerboseBase32Address
  let t ← rv.getVerboseBase32Address
  some (decide (s < t))

end Address

end ConfluxSdk
