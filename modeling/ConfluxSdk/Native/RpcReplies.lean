import ConfluxSdk.Native.CommonJS

/-!
# Replies of the node

Model of the readers of `libcfxcore/rpc` that take hexadecimal texts from a reply:
`TransactionByHashResult::fromJson` and the last steps of `cfx_call` and `cfx_getCode`.

A reply that is no JSON object stands as `none`. An object that an exception leaves half
read is not looked at by any caller, so the readers return in `Option`.
-/

namespace ConfluxSdk

/-! ### Addresses -/

/-- `Address::InvaildAddress`. -/
def Address.invaildAddress : Address := { Address.default with addressType := .invalid }

/-- `Address::NullAddress`. -/
def Address.nullAddress (networkID : UInt32) : Except StdError Address :=
  Address.construct "0x0000000000000000000000000000000000000000".toList networkID

/-! ### TransactionByHashResult -/

/-- `TransactionStatus`. -/
inductive TransactionStatus where
  | success | errorOccurred | skippedOrNotPacked
  deriving DecidableEq, Repr

/-- `TransactionByHashResult`. -/
structure TransactionByHashResult where
  hash : FixedHash 32
  nonce : U256
  blockHash : FixedHash 32
  transactionIndex : U256
  fromAddr : Address
  toAddr : Address
  value : U256
  gasPrice : U256
  gas : U256
  contractCreated : Address
  data : List UInt8
  storageLimit : U256
  epochHeight : U256
  chainId : Nat
  status : TransactionStatus
  signature : SignatureStruct
  deriving DecidableEq, Repr

namespace TransactionByHashResult

variable (boost : Boost) (js : JsonMembers) (this : TransactionByHashResult)

/-- The fields in front of `to`. -/
def readOrigin : Option TransactionByHashResult := do
  let (_, hash) ← jsMem2Hash boost 32 js "hash".toList this.hash
  let (_, nonce) ← jsMem2U256 boost js "nonce".toList this.nonce
  let (_, blockHash) ← jsMem2Hash boost 32 js "blockHash".toList this.blockHash
  let (_, transactionIndex) ←
    jsMem2U256 boost js "transactionIndex".toList this.transactionIndex
  let (_, fromAddr) ← jsMem2CfxAddress js "from".toList this.fromAddr
  let (_, chainId) := jsMem2Uint64 32 js "chainId".toList this.chainId
  some { this with hash, nonce, blockHash, transactionIndex, fromAddr, chainId }

/-- The receiver; without one it is the null address of the chain. -/
def readTo : Option TransactionByHashResult := do
  let (found, toAddr) ← jsMem2CfxAddress js "to".toList this.toAddr
  if found then some { this with toAddr }
  else
    let toAddr ← (Address.nullAddress (UInt32.ofNat this.chainId)).toOption
    some { this with toAddr }

/-- The fields from `value` to `epochHeight`. -/
def readContent : Option TransactionByHashResult := do
  let (_, value) ← jsMem2U256 boost js "value".toList this.value
  let (_, gasPrice) ← jsMem2U256 boost js "gasPrice".toList this.gasPrice
  let (_, gas) ← jsMem2U256 boost js "gas".toList this.gas
  let (found, created) ← jsMem2CfxAddress js "contractCreated".toList this.contractCreated
  let contractCreated := if found then created else Address.invaildAddress
  let (_, data) := jsMem2Bytes js "data".toList this.data
  let (_, storageLimit) ← jsMem2U256 boost js "storageLimit".toList this.storageLimit
  let (_, epochHeight) ← jsMem2U256 boost js "epochHeight".toList this.epochHeight
  some { this with value, gasPrice, gas, contractCreated, data, storageLimit, epochHeight }

/-- The status; there is none while the transaction is skipped or not packed. -/
def readStatus : TransactionStatus :=
  match jsStringValue js "status".toList with
  | some s =>
    let status := Dev.jsToInt s
    if status = 0 then .success else if status = 1 then .errorOccurred else .skippedOrNotPacked
  | none => .skippedOrNotPacked

/-- A component of the signature, if the member is a text. -/
def readComponent (mem : Str) (v : FixedHash 32) : Option (FixedHash 32) :=
  match jsStringValue js mem with
  | some s => Dev.jsToFixed boost 32 s
  | none => some v

/-- The recovery byte, `static_cast<uint8_t>` of an `int`. -/
def readV (v : UInt8) : UInt8 :=
  match jsStringValue js "v".toList with
  | some s => UInt8.ofNat (Dev.jsToInt s % 256).toNat
  | none => v

/-- The signature. -/
def readSignature : Option SignatureStruct := do
  let r ← readComponent boost js "r".toList this.signature.r
  let s ← readComponent boost js "s".toList this.signature.s
  some ⟨r, s, readV js this.signature.v⟩

/-- `TransactionByHashResult::fromJson`: whether it succeeds, and the object afterwards. -/
def fromJson (js : Option JsonMembers) : Option (Bool × TransactionByHashResult) :=
  match js with
  | none => some (false, this)
  | some js => do
    let this ← readOrigin boost js this
    let this ← readTo js this
    let this ← readContent boost js this
    let this := { this with status := readStatus js }
    let signature ← readSignature boost js this
    some (true, { this with signature })

end TransactionByHashResult

/-! ### cfx_call and cfx_getCode -/

/-- What `cfx_call` and `cfx_getCode` return for the text of a reply. -/
def replyBytes (retValue : Str) : List UInt8 :=
  if retValue.length > 2 then Hex.decodeString (retValue.drop 2) else []

end ConfluxSdk
