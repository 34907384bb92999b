import ConfluxSdk.Native.TransactionReceipt
import ConfluxSdk.Spec.BloomCorrect
import ConfluxSdk.Spec.LogSearch

/-!
# Receipts as they are read

A receipt is read back as the node wrote it, but for a status or an index that is no `int`.
The bloom it comes with is the one of the logs that are read, so a filter made of it finds
the contract and the topics of each of them.

## Key results

- `TransactionReceipt.json2Struct_toJson`: what is read of a receipt
- `receipt_filters_logs`: the bloom of the receipt belongs to its logs
-/

namespace ConfluxSdk

open Runs (run)

/-- A change of storage, as a node keeps it. -/
structure NodeChange where
  address : ChainAddress
  collaterals : U256

/-- A receipt, as a node keeps it. Its bloom is computed from its logs. -/
structure NodeReceipt where
  transactionHash : FixedHash 32
  index : UInt64
  blockHash : FixedHash 32
  epochNumber : U256
  fromAddr : ChainAddress
  toAddr : Option ChainAddress
  gasUsed : U256
  gasFee : U256
  contractCreated : Option ChainAddress
  logs : List NodeLog
  stateRoot : FixedHash 32
  outcomeStatus : UInt64
  txExecErrorMsg : Option Str
  gasCoveredBySponsor : Bool
  storageCoveredBySponsor : Bool
  storageCollateralized : U256
  storageReleased : List NodeChange

/-- The log without its place in the chain. -/
def NodeLog.logEntry (log : NodeLog) (networkID : UInt32) : LogEntry :=
  .new (log.address.onNetwork networkID) log.topics log.data

namespace NodeChange

variable (c : NodeChange) (networkID : UInt32)

/-- The change, as a node writes it. -/
def toJson : JsonCpp :=
  .objectValue [("address".toList, .stringValue (c.address.text networkID)),
    ("collaterals".toList, .stringValue (Dev.toJS c.collaterals))]

/-- The change, as the client shows it. -/
def shown : StorageChange := ⟨c.address.onNetwork networkID, c.collaterals⟩

end NodeChange

namespace NodeReceipt

variable (e : Ethash) (r : NodeReceipt) (networkID : UInt32)

/-- The logs of the receipt. -/
def logEntries : List LogEntry := r.logs.map (NodeLog.logEntry · networkID)

/-- A text, or null for none. -/
def optionalText : Option Str → JsonCpp
  | some s => .stringValue s
  | none => .nullValue

/-- The members of the receipt, as a node writes it. -/
def members : List (Str × JsonCpp) :=
  [("transactionHash".toList, .stringValue (Dev.toJSHash r.transactionHash)),
    ("index".toList, .stringValue (Dev.toJS r.index.toNat)),
    ("blockHash".toList, .stringValue (Dev.toJSHash r.blockHash)),
    ("epochNumber".toList, .stringValue (Dev.toJS r.epochNumber)),
    ("from".toList, .stringValue (r.fromAddr.text networkID)),
    ("to".toList, optionalText (r.toAddr.map (ChainAddress.text · networkID))),
    ("gasUsed".toList, .stringValue (Dev.toJS r.gasUsed)),
    ("gasFee".toList, .stringValue (Dev.toJS r.gasFee)),
    ("contractCreated".toList,
      optionalText (r.contractCreated.map (ChainAddress.text · networkID))),
    ("logs".toList, .arrayValue
      (r.logs.map fun log => .objectValue (log.coreMembers networkID ++ []))),
    ("logsBloom".toList, .stringValue (Dev.toJSHash (bloom e (r.logEntries networkID)))),
    ("stateRoot".toList, .stringValue (Dev.toJSHash r.stateRoot)),
    ("outcomeStatus".toList, .stringValue (Dev.toJS r.outcomeStatus.toNat)),
    ("txExecErrorMsg".toList, optionalText r.txExecErrorMsg),
    ("gasCoveredBySponsor".toList, .booleanValue r.gasCoveredBySponsor),
    ("storageCoveredBySponsor".toList, .booleanValue r.storageCoveredBySponsor),
    ("storageCollateralized".toList, .stringValue (Dev.toJS r.storageCollateralized)),
    ("storageReleased".toList, .arrayValue (r.storageReleased.map (NodeChange.toJson · networkID)))]

/-- The receipt, as a node writes it. -/
def toJson : JsonCpp := .objectValue (r.members e networkID)

/-- The receipt, as the client shows it. -/
def shown : TransactionReceipt where
  transactionHash := r.transactionHash
  index := readIndex r.index
  blockHash := r.blockHash
  epochNumber := r.epochNumber
  fromAddr := r.fromAddr.onNetwork networkID
  toAddr := r.toAddr.map (ChainAddress.onNetwork · networkID)
  gasUsed := r.gasUsed
  gasFee := r.gasFee
  contractCreated := r.contractCreated.map (ChainAddress.onNetwork · networkID)
  logs := r.logEntries networkID
  logsBloom := bloom e (r.logEntries networkID)
  stateRoot := r.stateRoot
  outcomeStatus := readIndex r.outcomeStatus
  txExecErrorMsg := r.txExecErrorMsg
  gasCoveredBySponsor := r.gasCoveredBySponsor
  storageCoveredBySponsor := r.storageCoveredBySponsor
  storageCollateralized := r.storageCollateralized
  storageReleased := r.storageReleased.map (NodeChange.shown · networkID)

end NodeReceipt

/-! ### Reading a receipt -/

section Reading

variable (boost : Boost) {networkID : UInt32} (hid : networkID.toNat < 2 ^ 31)

theorem jsStringValue_optionalText {js : JsonMembers} {mem : Str} {s : Option Str}
    (hmem : js.lookup mem = some (NodeReceipt.optionalText s).view) : jsStringValue js mem = s := by
  rw [jsStringValue, hmem]
  cases s with
  | none => rfl
  | some s => rfl

include hid

/-- An optional address is read back, null as none. -/
theorem jsMem2OptionalAddress_text {js : JsonMembers} {mem : Str} {a : Option ChainAddress}
    (hmem : jsStringValue js mem = a.map (ChainAddress.text · networkID)) :
    jsMem2OptionalAddress js mem none = some (a.map (ChainAddress.onNetwork · networkID)) := by
  cases a with
  | none =>
    rw [jsMem2OptionalAddress, jsMem2CfxAddress, hmem]
    rfl
  | some a =>
    rw [jsMem2OptionalAddress, a.jsMem2CfxAddress_text hid hmem]
    rfl

theorem TransactionReceipt.readChanges_toJson (changes : List NodeChange) :
    readChanges boost (changes.map (NodeChange.toJson · networkID)) =
      some (changes.map (NodeChange.shown · networkID)) := by
  induction changes with
  | nil => rfl
  | cons c changes ih =>
    rw [List.map_cons, readChanges, NodeChange.toJson, JsonCpp.members]
    simp only [Option.bind_eq_bind, Option.bind_some]
    rw [c.address.jsMem2CfxAddress_text hid rfl, jsMem2U256_toJS boost (n := c.collaterals) rfl, ih]
    rfl

theorem TransactionReceipt.readLogs_toJson (logs : List NodeLog) :
    readLogs boost (logs.map fun log => .objectValue (log.coreMembers networkID ++ [])) =
      some (logs.map (NodeLog.logEntry · networkID)) := by
  induction logs with
  | nil => rfl
  | cons log logs ih =>
    rw [List.map_cons, readLogs, JsonCpp.members]
    simp only [Option.bind_eq_bind, Option.bind_some]
    rw [LogEntry.ofMembers_toJson boost log hid, ih]
    rfl

namespace TransactionReceipt

variable (e : Ethash) (r : NodeReceipt) {retValue : TransactionReceipt}

theorem readParties_members (hto : retValue.toAddr = none)
    (hcreated : retValue.contractCreated = none) :
    readParties boost (r.members e networkID) retValue = some { retValue with
      transactionHash := r.transactionHash
      index := readIndex r.index
      blockHash := r.blockHash
      epochNumber := r.epochNumber
      fromAddr := r.fromAddr.onNetwork networkID
      toAddr := r.toAddr.map (ChainAddress.onNetwork · networkID)
      gasUsed := r.gasUsed
      gasFee := r.gasFee
      contractCreated := r.contractCreated.map (ChainAddress.onNetwork · networkID) } := by
  have hto' : jsStringValue (JsonCpp.viewMembers (r.members e networkID)) "to".toList =
      r.toAddr.map (ChainAddress.text · networkID) := jsStringValue_optionalText rfl
  have hcreated' : jsStringValue (JsonCpp.viewMembers (r.members e networkID))
      "contractCreated".toList = r.contractCreated.map (ChainAddress.text · networkID) :=
    jsStringValue_optionalText rfl
  rw [readParties, hto, hcreated, jsMem2OptionalAddress_text hid hto',
    jsMem2OptionalAddress_text hid hcreated',
    jsMem2Hash_toJSHash boost (by decide) (h := r.transactionHash) rfl,
    jsMem2Uint64_toJS (n := r.index) rfl,
    jsMem2Hash_toJSHash boost (by decide) (h := r.blockHash) rfl,
    jsMem2U256_toJS boost (n := r.epochNumber) rfl, r.fromAddr.jsMem2CfxAddress_text hid rfl,
    jsMem2U256_toJS boost (n := r.gasUsed) rfl, jsMem2U256_toJS boost (n := r.gasFee) rfl]
  rfl

omit hid in
theorem readOutcome_members (herror : retValue.txExecErrorMsg = none) :
    readOutcome boost (r.members e networkID) retValue = some { retValue with
      logsBloom := bloom e (r.logEntries networkID)
      stateRoot := r.stateRoot
      outcomeStatus := readIndex r.outcomeStatus
      txExecErrorMsg := r.txExecErrorMsg
      gasCoveredBySponsor := r.gasCoveredBySponsor
      storageCoveredBySponsor := r.storageCoveredBySponsor
      storageCollateralized := r.storageCollateralized } := by
  have herror' : jsStringValue (JsonCpp.viewMembers (r.members e networkID))
      "txExecErrorMsg".toList = r.txExecErrorMsg := jsStringValue_optionalText rfl
  have hmessage : (jsMem2String (r.members e networkID) "txExecErrorMsg".toList
      retValue.txExecErrorMsg).2 = r.txExecErrorMsg := by
    rw [jsMem2String, herror', herror]
    cases r.txExecErrorMsg with
    | none => rfl
    | some s => rfl
  have hgas : jsMem2Boolean (r.members e networkID) "gasCoveredBySponsor".toList
      retValue.gasCoveredBySponsor = (true, r.gasCoveredBySponsor) := rfl
  have hstorage : jsMem2Boolean (r.members e networkID) "storageCoveredBySponsor".toList
      retValue.storageCoveredBySponsor = (true, r.storageCoveredBySponsor) := rfl
  rw [readOutcome,
    jsMem2Hash_toJSHash boost (by decide) (h := bloom e (r.logEntries networkID)) rfl,
    jsMem2Hash_toJSHash boost (by decide) (h := r.stateRoot) rfl,
    jsMem2Uint64_toJS (n := r.outcomeStatus) rfl, hgas, hstorage,
    jsMem2U256_toJS boost (n := r.storageCollateralized) rfl]
  simp only [Option.bind_eq_bind, Option.bind_some, hmessage]

theorem readArrays_members (hchanges : retValue.storageReleased = []) (hlogs : retValue.logs = []) :
    readArrays boost (r.members e networkID) retValue = some { retValue with
      storageReleased := r.storageReleased.map (NodeChange.shown · networkID)
      logs := r.logEntries networkID } := by
  have hchanges' : arrayMember (r.members e networkID) "storageReleased".toList =
      r.storageReleased.map (NodeChange.toJson · networkID) := rfl
  have hlogs' : arrayMember (r.members e networkID) "logs".toList =
      r.logs.map fun log => .objectValue (log.coreMembers networkID ++ []) := rfl
  rw [readArrays, hchanges', hlogs', readChanges_toJson boost hid, readLogs_toJson boost hid,
    hchanges, hlogs]
  rfl

/-- A receipt is read as it is, into whatever was there. -/
theorem json2Struct_toJson (index outcomeStatus : Nat) (gas storage : Bool) :
    json2Struct boost (r.toJson e networkID) (.new index outcomeStatus gas storage) =
      some (true, r.shown e networkID) := by
  rw [NodeReceipt.toJson, json2Struct]
  rw [readParties_members boost hid e r rfl rfl]
  simp only [Option.bind_eq_bind, Option.bind_some]
  rw [readOutcome_members boost e r rfl]
  simp only [Option.bind_some]
  rw [readArrays_members boost hid e r rfl rfl]
  rfl

end TransactionReceipt

end Reading

/-! ### The bloom of a receipt -/

theorem NodeReceipt.positions_logEntries (e : Ethash) (r : NodeReceipt) (networkID : UInt32) :
    (bloom e (r.logEntries networkID)).positions =
      run (JoinFilter.add (BloomFilter.Item.positions e)) ⊥
        ((r.logEntries networkID).flatMap LogEntry.items) := by
  have hpositions := positions_bloom e
    (r.logs.map fun log => (log.address.onNetwork networkID, log.topics, log.data))
  rw [List.map_map] at hpositions
  exact hpositions

/-- What is read of a receipt is the receipt, and the bloom in it is the one of the logs in it: a
    filter of that bloom finds the contract and the topics of each log. -/
theorem receipt_filters_logs (boost : Boost) (e : Ethash) (r : NodeReceipt) {networkID : UInt32}
    (hid : networkID.toNat < 2 ^ 31) (index outcomeStatus : Nat) (gas storage : Bool) :
    ∃ res, TransactionReceipt.json2Struct boost (r.toJson e networkID)
        (.new index outcomeStatus gas storage) = some (true, res) ∧
      res = r.shown e networkID ∧ res.logsBloom = bloom e res.logs ∧
      ∀ l ∈ res.logs, ∀ x ∈ l.items, BloomFilter.contains e ⟨res.logsBloom⟩ x = true := by
  refine ⟨_, TransactionReceipt.json2Struct_toJson boost hid e r index outcomeStatus gas storage,
    rfl, rfl, fun l hl x hx => ?_⟩
  have hpositions := r.positions_logEntries e networkID
  rw [BloomFilter.contains_iff]
  show x.positions e ≤ (bloom e (r.logEntries networkID)).positions
  rw [hpositions]
  exact JoinFilter.part_le_run_add (List.mem_flatMap.mpr ⟨l, hl, hx⟩)

/-- The receipt of a contract that was created with one log. -/
def createdReceipt : NodeReceipt where
  transactionHash := .ofNat 32 2
  index := 0
  blockHash := .ofNat 32 1
  epochNumber := 100
  fromAddr := ⟨.ofNat 20 (1 * 16 ^ 39 + 1), by decide⟩
  toAddr := none
  gasUsed := 21000
  gasFee := 21000
  contractCreated := some (transferLog (.ofNat 32 5)).address
  logs := [transferLog (.ofNat 32 5)]
  stateRoot := .zero 32
  outcomeStatus := 0
  txExecErrorMsg := none
  gasCoveredBySponsor := false
  storageCoveredBySponsor := false
  storageCollateralized := 64
  storageReleased := []

/-- A hash that takes the last 32 bytes. -/
def lastBytes : Ethash where
  keccak256 data := .ofNat 32 (BigEndian.toNat data % 256 ^ 32)
  keccak256_32 data := .ofNat 32 (BigEndian.toNat data % 256 ^ 32)
  keccak256_32_eq _ _ := rfl

theorem receipt_filters_logs_created :
    ∃ res, TransactionReceipt.json2Struct .reader (createdReceipt.toJson lastBytes 1029)
        (.new 7 7 true true) = some (true, res) ∧
      res = createdReceipt.shown lastBytes 1029 ∧ res.logsBloom = bloom lastBytes res.logs ∧
      ∀ l ∈ res.logs, ∀ x ∈ l.items,
        BloomFilter.contains lastBytes ⟨res.logsBloom⟩ x = true := by
  have hid : (1029 : UInt32).toNat < 2 ^ 31 := by decide
  exact receipt_filters_logs .reader lastBytes createdReceipt hid 7 7 true true

end ConfluxSdk
