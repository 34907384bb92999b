import ConfluxSdk.ForStd.Simulation
import ConfluxSdk.Native.JsonCpp

/-!
# Searching for logs

Model of `types/epoch_number`, `types/log_filter`, the entries with a place in the chain of
`types/log_enrty`, and `cfx_getLogs` of `rpc/client`.

The topics of a filter are in sets without an order; in which order they are visited is a
parameter. A text of an address that overruns its buffer is undefined, and so is the
request then.
-/

namespace ConfluxSdk

/-- `EpochNumber`. -/
structure EpochNumber where
  epoch_number_js_str : Str
  deriving DecidableEq, Repr

namespace EpochNumber

/-- The constructor from a number. -/
def ofU256 (n : U256) : EpochNumber := ⟨Dev.toJS n⟩

/-- `latest_state`, also the default. -/
def latest_state : EpochNumber := ⟨"latest_state".toList⟩

/-- `latest_checkpoint`. -/
def latest_checkpoint : EpochNumber := ⟨"latest_checkpoint".toList⟩

end EpochNumber

/-- `toJS` of other types, which prints a `uint64_t` in hexadecimal. -/
def Dev.toJSUint64 (n : UInt64) : Str := "0x".toList ++ Nat.toDigits 16 n.toNat

/-! ### LogFilterParam -/

/-- `LogFilterParam`. -/
structure LogFilterParam where
  fromEpoch : EpochNumber
  toEpoch : EpochNumber
  blockHashes : Option (List (FixedHash 32))
  addresses : Option (List Address)
  topics : List.Vector (List (FixedHash 32)) 4
  limit : Option UInt64

namespace LogFilterParam

/-- `LogFilterParam::LogFilterParam`. -/
def new : LogFilterParam where
  fromEpoch := .latest_checkpoint
  toEpoch := .latest_state
  blockHashes := none
  addresses := none
  topics := .replicate 4 []
  limit := none

variable (f : LogFilterParam)

/-- `SetFromEpoch`. -/
def setFromEpoch (v : EpochNumber) : LogFilterParam := { f with fromEpoch := v }

/-- `SetToEpoch`. -/
def setToEpoch (v : EpochNumber) : LogFilterParam := { f with toEpoch := v }

/-- `AddBlockHash`. -/
def addBlockHash (block_hash : FixedHash 32) : LogFilterParam :=
  match f.blockHashes with
  | some hs => { f with blockHashes := some (hs ++ [block_hash]) }
  | none => { f with blockHashes := some [block_hash] }

/-- `AddTopic`; other indices are ignored. -/
def addTopic (index : Nat) (t : FixedHash 32) : LogFilterParam :=
  if h : index < 4 then
    { f with topics := f.topics.set ⟨index, h⟩ ((f.topics.get ⟨index, h⟩).insert t) }
  else f

/-- `AddAddress`. -/
def addAddress (addr : Address) : LogFilterParam :=
  match f.addresses with
  | some addrs => { f with addresses := some (addrs ++ [addr]) }
  | none => { f with addresses := some [addr] }

/-- `SetLimit`. -/
def setLimit (v : UInt64) : LogFilterParam := { f with limit := some v }

/-- A call of a method that changes the filter. -/
inductive Call where
  | setFromEpoch (v : EpochNumber)
  | setToEpoch (v : EpochNumber)
  | addAddress (addr : Address)
  | addBlockHash (block_hash : FixedHash 32)
  | addTopic (index : Nat) (t : FixedHash 32)
  | setLimit (v : UInt64)

/-- The filter after a call. -/
def call : Call → LogFilterParam
  | .setFromEpoch v => f.setFromEpoch v
  | .setToEpoch v => f.setToEpoch v
  | .addAddress addr => f.addAddress addr
  | .addBlockHash block_hash => f.addBlockHash block_hash
  | .addTopic index t => f.addTopic index t
  | .setLimit v => f.setLimit v

/-- The texts of the addresses, if none overruns its buffer. -/
def addressTexts : List Address → Option (List JsonCpp)
  | [] => some []
  | addr :: addrs => do
    let s ← addr.getVerboseBase32Address
    let texts ← addressTexts addrs
    some (.stringValue s :: texts)

/-- The topics at an index: null if there are none. -/
def topicsJS (order : VisitOrder (FixedHash 32)) (tp_set : List (FixedHash 32)) : JsonCpp :=
  if tp_set = [] then .nullValue
  else .arrayValue ((order.visit tp_set).map fun tp => .stringValue (Dev.toJSHash tp))

/-- The member `blockHashes`. -/
def blockHashesJS : JsonCpp :=
  match f.blockHashes with
  | some hs => .arrayValue (hs.map fun h => .stringValue (Dev.toJSHash h))
  | none => .nullValue

/-- The member `address`. -/
def addressJS : Option JsonCpp :=
  match f.addresses with
  | some addrs => (addressTexts addrs).map .arrayValue
  | none => some .nullValue

/-- The member `limit`. -/
def limitJS : JsonCpp :=
  match f.limit with
  | some v => .stringValue (Dev.toJSUint64 v)
  | none => .nullValue

/-- `LogFilterParam::toJS`. -/
def toJS (order : VisitOrder (FixedHash 32)) : Option JsonCpp := do
  let address ← f.addressJS
  some (.objectValue [
    ("fromEpoch".toList, .stringValue f.fromEpoch.epoch_number_js_str),
    ("toEpoch".toList, .stringValue f.toEpoch.epoch_number_js_str),
    ("blockHashes".toList, f.blockHashesJS),
    ("address".toList, address),
    ("topics".toList, .arrayValue (f.topics.toList.map (topicsJS order))),
    ("limit".toList, f.limitJS)])

end LogFilterParam

/-! ### LocalisedLogEntry -/

/-- `LocalisedLogEntry`. -/
structure LocalisedLogEntry extends LogEntry where
  blockHash : FixedHash 32
  epochNumber : EpochNumber
  logIndex : Nat
  transactionHash : FixedHash 32
  transactionIndex : Nat
  transactionLogIndex : Nat

/-- The members that make a `LogEntry`. Texts have less than `2 ^ 63` characters. -/
def LogEntry.ofMembers (boost : Boost) (ms : List (Str × JsonCpp)) : Option LogEntry := do
  let (_, addr) ← jsMem2CfxAddress (JsonCpp.viewMembers ms) "address".toList Address.default
  let (_, data) := jsMem2Bytes (JsonCpp.viewMembers ms) "data".toList []
  let topics ← jsMem2Hashes boost ms "topics".toList 32 []
  if h : data.length < 2 ^ 63 then some (.new addr topics ⟨data, h⟩) else none

namespace LocalisedLogEntry

variable (boost : Boost) (fresh : LocalisedLogEntry)

/-- `LocalisedLogEntry::fromJson`: the entry, if it returns true. The members of `fresh` are
    what the numbers of an entry are before they are read. -/
def fromJson (js : JsonCpp) : Option (Option LocalisedLogEntry) :=
  match js with
  | .objectValue ms => do
    let log_entry ← LogEntry.ofMembers boost ms
    let js := JsonCpp.viewMembers ms
    let (_, blockHash) ← jsMem2Hash boost 32 js "blockHash".toList (.zero 32)
    let (_, epoch) ← jsMem2U256 boost js "epochNumber".toList 0
    let (_, logIndex) := jsMem2Uint64 64 js "logIndex".toList fresh.logIndex
    let (_, transactionHash) ← jsMem2Hash boost 32 js "transactionHash".toList (.zero 32)
    let (_, transactionIndex) := jsMem2Uint64 64 js "transactionIndex".toList fresh.transactionIndex
    let (_, transactionLogIndex) :=
      jsMem2Uint64 64 js "transactionLogIndex".toList fresh.transactionLogIndex
    some (some { log_entry with
      blockHash, epochNumber := .ofU256 epoch, logIndex, transactionHash, transactionIndex,
      transactionLogIndex })
  | _ => some none

/-- The loop of `cfx_getLogs`. -/
def readEntries : List JsonCpp → Option (List LocalisedLogEntry)
  | [] => some []
  | js :: values => do
    let entry ← fromJson boost fresh js
    let entries ← readEntries values
    -- What is no object is skipped.
    some (entry.toList ++ entries)

/-- `cfx_getLogs`, on the reply of the stub client. -/
def ofReply (retValue : JsonCpp) : Option (List LocalisedLogEntry) :=
  match retValue with
  | .arrayValue values => readEntries boost fresh values
  | _ => some []

end LocalisedLogEntry

end ConfluxSdk
