import ConfluxSdk.Native.Client
import ConfluxSdk.Native.LogFilter
import ConfluxSdk.Native.RpcReplies

/-!
# Receipts of transactions

Model of `types/transaction_receipt`, and of `WaitTransactionFinished` of `rpc/client`.

What the numbers and truth values of a receipt are before they are read, the replies of the
node and the milliseconds on the clock are parameters. Exceptions are not told apart: the
loop catches all of them.
-/

namespace ConfluxSdk

/-- `StorageChange`. -/
structure StorageChange where
  address : Address
  collaterals : U256
  deriving DecidableEq, Repr

/-- `TransactionReceipt`. -/
structure TransactionReceipt where
  transactionHash : FixedHash 32
  index : Nat
  blockHash : FixedHash 32
  epochNumber : U256
  fromAddr : Address
  toAddr : Option Address
  gasUsed : U256
  gasFee : U256
  contractCreated : Option Address
  logs : List LogEntry
  logsBloom : LogBloom
  stateRoot : FixedHash 32
  outcomeStatus : Nat
  txExecErrorMsg : Option Str
  gasCoveredBySponsor : Bool
  storageCoveredBySponsor : Bool
  storageCollateralized : U256
  storageReleased : List StorageChange

/-- `jsMem2CfxAddress` for an optional address. -/
def jsMem2OptionalAddress (js : JsonMembers) (mem : Str) (v : Option Address) :
    Option (Option Address) := do
  let (found, a) ← jsMem2CfxAddress js mem Address.default
  some (if found then some a else v)

namespace TransactionReceipt

/-- `TransactionReceipt::TransactionReceipt`, with what happens to be in the members that it
    does not initialise. -/
def new (index outcomeStatus : Nat) (gasCoveredBySponsor storageCoveredBySponsor : Bool) :
    TransactionReceipt where
  transactionHash := .zero 32
  index
  blockHash := .zero 32
  epochNumber := 0
  fromAddr := Address.default
  toAddr := none
  gasUsed := 0
  gasFee := 0
  contractCreated := none
  logs := []
  logsBloom := .zero 256
  stateRoot := .zero 32
  outcomeStatus
  txExecErrorMsg := none
  gasCoveredBySponsor
  storageCoveredBySponsor
  storageCollateralized := 0
  storageReleased := []

variable (boost : Boost)

section Json2Struct

variable (ms : List (Str × JsonCpp)) (retValue : TransactionReceipt)

/-- The members up to `contractCreated`. -/
def readParties : Option TransactionReceipt := do
  let js := JsonCpp.viewMembers ms
  let (_, transactionHash) ←
    jsMem2Hash boost 32 js "transactionHash".toList retValue.transactionHash
  let (_, index) := jsMem2Uint64 64 js "index".toList retValue.index
  let (_, blockHash) ← jsMem2Hash boost 32 js "blockHash".toList retValue.blockHash
  let (_, epochNumber) ← jsMem2U256 boost js "epochNumber".toList retValue.epochNumber
  let (found, fromAddr) ← jsMem2CfxAddress js "from".toList retValue.fromAddr
  let fromAddr := if found then fromAddr else Address.invaildAddress
  let toAddr ← jsMem2OptionalAddress js "to".toList retValue.toAddr
  let (_, gasUsed) ← jsMem2U256 boost js "gasUsed".toList retValue.gasUsed
  let (_, gasFee) ← jsMem2U256 boost js "gasFee".toList retValue.gasFee
  let contractCreated ←
    jsMem2OptionalAddress js "contractCreated".toList retValue.contractCreated
  some { retValue with
    transactionHash, index, blockHash, epochNumber, fromAddr, toAddr, gasUsed, gasFee,
    contractCreated }

/-- The members from `logsBloom` to `storageCollateralized`. -/
def readOutcome : Option TransactionReceipt := do
  let js := JsonCpp.viewMembers ms
  let (_, logsBloom) ← jsMem2Hash boost 256 js "logsBloom".toList retValue.logsBloom
  let (_, stateRoot) ← jsMem2Hash boost 32 js "stateRoot".toList retValue.stateRoot
  let (_, outcomeStatus) := jsMem2Uint64 64 js "outcomeStatus".toList retValue.outcomeStatus
  let (_, txExecErrorMsg) := jsMem2String ms "txExecErrorMsg".toList retValue.txExecErrorMsg
  let (_, gasCoveredBySponsor) :=
    jsMem2Boolean ms "gasCoveredBySponsor".toList retValue.gasCoveredBySponsor
  let (_, storageCoveredBySponsor) :=
    jsMem2Boolean ms "storageCoveredBySponsor".toList retValue.storageCoveredBySponsor
  let (_, storageCollateralized) ←
    jsMem2U256 boost js "storageCollateralized".toList retValue.storageCollateralized
  some { retValue with
    logsBloom, stateRoot, outcomeStatus, txExecErrorMsg, gasCoveredBySponsor,
    storageCoveredBySponsor, storageCollateralized }

/-- The elements of `storageReleased`. -/
def readChanges : List JsonCpp → Option (List StorageChange)
  | [] => some []
  | value :: values => do
    let js := JsonCpp.viewMembers (← value.members)
    let (_, address) ← jsMem2CfxAddress js "address".toList Address.default
    let (_, collaterals) ← jsMem2U256 boost js "collaterals".toList 0
    let changes ← readChanges values
    some (⟨address, collaterals⟩ :: changes)

/-- The elements of `logs`. -/
def readLogs : List JsonCpp → Option (List LogEntry)
  | [] => some []
  | log :: values => do
    let entry ← LogEntry.ofMembers boost (← log.members)
    let entries ← readLogs values
    some (entry :: entries)

/-- The values of a member that is an array. -/
def arrayMember (mem : Str) : List JsonCpp :=
  match ms.lookup mem with
  | some (.arrayValue values) => values
  | _ => []

/-- The two members that are arrays, behind what is there already. -/
def readArrays : Option TransactionReceipt := do
  let changes ← readChanges boost (arrayMember ms "storageReleased".toList)
  let entries ← readLogs boost (arrayMember ms "logs".toList)
  some { retValue with
    storageReleased := retValue.storageReleased ++ changes
    logs := retValue.logs ++ entries }

end Json2Struct

/-- `Json2Struct`: whether it succeeds, and the receipt afterwards. -/
def json2Struct (js : JsonCpp) (retValue : TransactionReceipt) :
    Option (Bool × TransactionReceipt) :=
  match js with
  | .objectValue ms => do
    let retValue ← readParties boost ms retValue
    let retValue ← readOutcome boost ms retValue
    let retValue ← readArrays boost ms retValue
    some (true, retValue)
  | _ => some (false, retValue)

end TransactionReceipt

/-! ### WaitTransactionFinished -/

/-- What happens while a transaction is waited for, by the number of the time the receipt is
    asked for: the reply, what a receipt is before it is read, and the milliseconds since the
    start, as they are counted after that time. A receipt without success is followed by a
    second of sleep first. -/
structure Waiting where
  reply : Nat → Except JsonRpcException JsonCpp
  fresh : Nat → TransactionReceipt
  count : Nat → Nat

namespace Waiting

variable (boost : Boost) (w : Waiting)

/-- `cfx_getTransactionReceipt`, which ignores what `Json2Struct` returns. -/
def cfx_getTransactionReceipt (i : Nat) : Option TransactionReceipt :=
  match w.reply i with
  | .error _ => none
  | .ok retvalue => (TransactionReceipt.json2Struct boost retvalue (w.fresh i)).map Prod.snd

/-- The loop of `WaitTransactionFinished` from the `i`-th time on, or none where it has not
    ended after so many times. The negation of `expire` is returned. -/
def waitLoop (max_wait_ms : UInt32) : Nat → Nat → Option Bool
  | 0, _ => none
  | fuel + 1, i =>
    match w.cfx_getTransactionReceipt boost i with
    | some res =>
      if res.outcomeStatus ≠ 0 then
        if w.count i > max_wait_ms.toNat then some false else waitLoop max_wait_ms fuel (i + 1)
      else some true
    -- The exception is caught, and the loop goes on without a sleep.
    | none => if w.count i > max_wait_ms.toNat then some false else waitLoop max_wait_ms fuel (i + 1)

/-- `WaitTransactionFinished`. -/
def waitTransactionFinished (max_wait_ms : UInt32) (fuel : Nat) : Option Bool :=
  w.waitLoop boost max_wait_ms fuel 0

end Waiting

end ConfluxSdk
