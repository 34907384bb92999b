import ConfluxSdk.Native.LogFilter
import ConfluxSdk.Spec.NodeTexts

/-!
# What a search for logs finds

A filter is built by calls, sent as a JSON object, and answered by a node with the logs that
it selects, which are read into entries again. A node that goes by the description of filter
objects in `log_filter.h` returns, and the client reads, the logs that the calls asked for:
one call after the other narrows no more than what it is about.

## Key results

- `LogFilterParam.holds_run`: what a filter holds after some calls
- `LogNode.selects_iff`: which logs the object selects
- `getLogs_finds`: the entries that are read are those of the logs asked for
-/

namespace ConfluxSdk

open LogFilterParam (Call)
open Runs (run)

/-! ### Logs and their texts -/

/-- A log, as a node keeps it. -/
structure NodeLog where
  address : ChainAddress
  topics : List (FixedHash 32)
  data : Bytes
  blockHash : FixedHash 32
  epochNumber : U256
  logIndex : UInt64
  transactionHash : FixedHash 32
  transactionIndex : UInt64
  transactionLogIndex : UInt64

/-- A node: its network, its logs in the order of the chain, and the epoch that a number or a
    tag stands for. -/
structure LogNode where
  networkID : UInt32
  networkID_lt : networkID.toNat < 2 ^ 31
  logs : List NodeLog
  epochOf : Str → Nat

namespace NodeLog

variable (log : NodeLog) (networkID : UInt32)

/-- The members that every log has. -/
def coreMembers : List (Str × JsonCpp) :=
  [("address".toList, .stringValue (log.address.text networkID)),
    ("topics".toList, .arrayValue (log.topics.map fun t => .stringValue (Dev.toJSHash t))),
    ("data".toList, .stringValue ("0x".toList ++ Dev.toHex log.data.toList))]

/-- The log, as a node writes it. -/
def toJson : JsonCpp :=
  .objectValue (log.coreMembers networkID ++
    [("blockHash".toList, .stringValue (Dev.toJSHash log.blockHash)),
    ("epochNumber".toList, .stringValue (Dev.toJS log.epochNumber)),
    ("transactionHash".toList, .stringValue (Dev.toJSHash log.transactionHash)),
    ("logIndex".toList, .stringValue (Dev.toJS log.logIndex.toNat)),
    ("transactionIndex".toList, .stringValue (Dev.toJS log.transactionIndex.toNat)),
    ("transactionLogIndex".toList, .stringValue (Dev.toJS log.transactionLogIndex.toNat))])

end NodeLog

/-- The log, as the client shows it. -/
def NodeLog.entry (log : NodeLog) (networkID : UInt32) : LocalisedLogEntry :=
  { LogEntry.new (log.address.onNetwork networkID) log.topics log.data with
    blockHash := log.blockHash
    epochNumber := .ofU256 log.epochNumber
    logIndex := readIndex log.logIndex
    transactionHash := log.transactionHash
    transactionIndex := readIndex log.transactionIndex
    transactionLogIndex := readIndex log.transactionLogIndex }

section Reading

variable (boost : Boost) (log : NodeLog) {networkID : UInt32} (hid : networkID.toNat < 2 ^ 31)
include hid

/-- Contract, topics and data are read back. -/
theorem LogEntry.ofMembers_toJson (rest : List (Str × JsonCpp)) :
    LogEntry.ofMembers boost (log.coreMembers networkID ++ rest) =
      some (.new (log.address.onNetwork networkID) log.topics log.data) := by
  have htopics : jsMem2Hashes boost (log.coreMembers networkID ++ rest) "topics".toList 32 [] =
      some log.topics := by
    have hmem : (log.coreMembers networkID ++ rest).lookup "topics".toList =
        some (.arrayValue (log.topics.map fun t => .stringValue (Dev.toJSHash t))) := rfl
    rw [jsMem2Hashes, hmem]
    dsimp only
    rw [readHashes_toJSHash boost (by decide)]
    rfl
  unfold LogEntry.ofMembers
  rw [log.address.jsMem2CfxAddress_text hid rfl, jsMem2Bytes_toHex (d := log.data.toList) rfl,
    htopics]
  simp only [Option.bind_eq_bind, Option.bind_some, dif_pos log.data.size_lt]

/-- A log is read as its entry. -/
theorem LocalisedLogEntry.fromJson_toJson (fresh : LocalisedLogEntry) :
    fromJson boost fresh (log.toJson networkID) = some (some (log.entry networkID)) := by
  rw [NodeLog.toJson, fromJson]
  simp only [LogEntry.ofMembers_toJson boost log hid, Option.bind_eq_bind, Option.bind_some]
  rw [jsMem2Hash_toJSHash boost (by decide) (h := log.blockHash) rfl,
    jsMem2U256_toJS boost (n := log.epochNumber) rfl,
    jsMem2Hash_toJSHash boost (by decide) (h := log.transactionHash) rfl]
  simp only [Option.bind_some]
  rw [jsMem2Uint64_toJS (n := log.logIndex) rfl, jsMem2Uint64_toJS (n := log.transactionIndex) rfl,
    jsMem2Uint64_toJS (n := log.transactionLogIndex) rfl]
  rfl

/-- A list of logs is read as their entries. -/
theorem LocalisedLogEntry.readEntries_toJson (fresh : LocalisedLogEntry) (logs : List NodeLog) :
    readEntries boost fresh (logs.map (NodeLog.toJson · networkID)) =
      some (logs.map (NodeLog.entry · networkID)) := by
  induction logs with
  | nil => rfl
  | cons log logs ih =>
    rw [List.map_cons, readEntries, fromJson_toJson boost log hid, Option.bind_eq_bind,
      Option.bind_some, ih]
    rfl

end Reading

/-! ### What the calls ask for -/

namespace LogFilterParam

namespace Call

/-- The epoch a call sets the search to start from. -/
def newFrom : Call → Option EpochNumber
  | .setFromEpoch v => some v
  | _ => none

/-- The epoch a call sets the search to end with. -/
def newTo : Call → Option EpochNumber
  | .setToEpoch v => some v
  | _ => none

/-- The block a call adds. -/
def newBlockHash : Call → Option (FixedHash 32)
  | .addBlockHash block_hash => some block_hash
  | _ => none

/-- The contract a call adds. -/
def newAddress : Call → Option Address
  | .addAddress addr => some addr
  | _ => none

/-- The topic a call adds for an index. -/
def newTopic (i : Nat) : Call → Option (FixedHash 32)
  | .addTopic index t => if index = i then some t else none
  | _ => none

/-- The limit a call sets. -/
def newLimit : Call → Option UInt64
  | .setLimit v => some v
  | _ => none

end Call

/-- A list, or none for the empty one. -/
def unlessEmpty {α : Type} (l : List α) : Option (List α) := if l = [] then none else some l

/-- What a filter holds after some calls: the epochs and the limit of the last call that set
    them, and everything that was added. -/
structure Holds (f : LogFilterParam) (calls : List Call) : Prop where
  fromEpoch : f.fromEpoch = (calls.filterMap Call.newFrom).getLastD .latest_checkpoint
  toEpoch : f.toEpoch = (calls.filterMap Call.newTo).getLastD .latest_state
  blockHashes : f.blockHashes = unlessEmpty (calls.filterMap Call.newBlockHash)
  addresses : f.addresses = unlessEmpty (calls.filterMap Call.newAddress)
  topics : ∀ (i : Fin 4) t, t ∈ f.topics.get i ↔ t ∈ calls.filterMap (Call.newTopic i)
  limit : f.limit = (calls.filterMap Call.newLimit).getLast?

theorem holds_new : Holds .new [] where
  fromEpoch := rfl
  toEpoch := rfl
  blockHashes := rfl
  addresses := rfl
  topics i t := by
    rw [new, List.Vector.get_replicate]
    simp
  limit := rfl

/-- A topic is added at its index only. -/
theorem mem_topics_addTopic (f : LogFilterParam) (index : Nat) (t t' : FixedHash 32) (i : Fin 4) :
    t' ∈ (f.addTopic index t).topics.get i ↔ t' ∈ f.topics.get i ∨ (index = i ∧ t' = t) := by
  unfold addTopic
  split
  · rename_i hlt
    by_cases hi : index = i
    · obtain rfl : (⟨index, hlt⟩ : Fin 4) = i := Fin.ext hi
      simp [List.Vector.get_set_same, or_comm]
    · have hne : (⟨index, hlt⟩ : Fin 4) ≠ i := fun h => hi (congrArg Fin.val h)
      simp [List.Vector.get_set_of_ne hne, hi]
  · rename_i hlt
    have hne : index ≠ i := fun h => hlt (h ▸ i.isLt)
    simp [hne]

/-- What one call does to the members of a filter. -/
structure Changes (f f' : LogFilterParam) (op : Call) : Prop where
  fromEpoch : f'.fromEpoch = op.newFrom.getD f.fromEpoch
  toEpoch : f'.toEpoch = op.newTo.getD f.toEpoch
  blockHashes : f'.blockHashes = op.newBlockHash.elim f.blockHashes
    fun h => some (f.blockHashes.getD [] ++ [h])
  addresses : f'.addresses = op.newAddress.elim f.addresses
    fun a => some (f.addresses.getD [] ++ [a])
  topics : ∀ (i : Fin 4) t, t ∈ f'.topics.get i ↔ t ∈ f.topics.get i ∨ op.newTopic i = some t
  limit : f'.limit = op.newLimit.or f.limit

theorem changes_call (f : LogFilterParam) (op : Call) : Changes f (f.call op) op := by
  cases op with
  | setFromEpoch v => exact ⟨rfl, rfl, rfl, rfl, by simp [call, setFromEpoch, Call.newTopic], rfl⟩
  | setToEpoch v => exact ⟨rfl, rfl, rfl, rfl, by simp [call, setToEpoch, Call.newTopic], rfl⟩
  | setLimit v => exact ⟨rfl, rfl, rfl, rfl, by simp [call, setLimit, Call.newTopic], rfl⟩
  | addAddress addr =>
    rw [call, addAddress]
    cases haddrs : f.addresses with
    | none => exact ⟨rfl, rfl, rfl, by simp [Call.newAddress, haddrs], by simp [Call.newTopic], rfl⟩
    | some addrs =>
      exact ⟨rfl, rfl, rfl, by simp [Call.newAddress, haddrs], by simp [Call.newTopic], rfl⟩
  | addBlockHash block_hash =>
    rw [call, addBlockHash]
    cases hhashes : f.blockHashes with
    | none => exact ⟨rfl, rfl, by simp [Call.newBlockHash, hhashes], rfl, by simp [Call.newTopic], rfl⟩
    | some hashes =>
      exact ⟨rfl, rfl, by simp [Call.newBlockHash, hhashes], rfl, by simp [Call.newTopic], rfl⟩
  | addTopic index t =>
    have htopics : ∀ (i : Fin 4) t', t' ∈ (f.addTopic index t).topics.get i ↔
        t' ∈ f.topics.get i ∨ (Call.addTopic index t).newTopic i = some t' := by
      intro i t'
      rw [mem_topics_addTopic, Call.newTopic]
      by_cases hi : index = i
      · simp [hi, eq_comm]
      · simp [hi]
    have hframe : ∃ topics, f.addTopic index t = { f with topics } := by
      unfold addTopic
      split
      · exact ⟨_, rfl⟩
      · exact ⟨f.topics, rfl⟩
    obtain ⟨topics, hframe⟩ := hframe
    rw [call]
    rw [hframe] at htopics ⊢
    exact ⟨rfl, rfl, rfl, rfl, htopics, rfl⟩

section Collect

variable {α β : Type} (pick : α → Option β) (l : List α) (a : α)

theorem filterMap_concat : (l ++ [a]).filterMap pick = l.filterMap pick ++ (pick a).toList := by
  cases h : pick a with
  | none => simp [List.filterMap_append, h]
  | some b => simp [List.filterMap_append, h]

theorem getLastD_concat (d : β) : ((l ++ [a]).filterMap pick).getLastD d =
    (pick a).getD ((l.filterMap pick).getLastD d) := by
  rw [filterMap_concat]
  cases pick a with
  | none => simp
  | some b => simp

theorem unlessEmpty_concat : unlessEmpty ((l ++ [a]).filterMap pick) =
    (pick a).elim (unlessEmpty (l.filterMap pick))
      fun b => some ((unlessEmpty (l.filterMap pick)).getD [] ++ [b]) := by
  rw [filterMap_concat]
  cases pick a with
  | none => simp
  | some b =>
    by_cases hnil : l.filterMap pick = []
    · rw [hnil]
      rfl
    · rw [unlessEmpty, if_neg (by simp), unlessEmpty, if_neg hnil]
      rfl

end Collect

/-- Every call changes what it is about, and nothing else. -/
theorem Holds.call {f : LogFilterParam} {calls : List Call} (h : Holds f calls) (op : Call) :
    Holds (f.call op) (calls ++ [op]) := by
  have hchanges := changes_call f op
  exact {
    fromEpoch := by rw [hchanges.fromEpoch, h.fromEpoch, getLastD_concat]
    toEpoch := by rw [hchanges.toEpoch, h.toEpoch, getLastD_concat]
    blockHashes := by rw [hchanges.blockHashes, h.blockHashes, unlessEmpty_concat]
    addresses := by rw [hchanges.addresses, h.addresses, unlessEmpty_concat]
    topics := by
      intro i t
      rw [hchanges.topics, h.topics, filterMap_concat, List.mem_append, Option.mem_toList]
    limit := by
      rw [hchanges.limit, h.limit, filterMap_concat]
      cases op.newLimit with
      | none => simp
      | some v => simp }

/-- What a filter holds after some calls. -/
theorem holds_run (calls : List Call) : Holds (run LogFilterParam.call .new calls) calls := by
  induction calls using List.reverseRecOn with
  | nil => exact holds_new
  | append_singleton calls op ih =>
    rw [run, List.foldl_append]
    exact ih.call op

end LogFilterParam

/-! ### What a node selects -/

namespace LogNode

variable (n : LogNode)

/-- A filter that is no array admits everything, an array what one of its texts stands for. -/
def admits (filter : Option JsonCpp) (standsFor : Str → Bool) : Bool :=
  match filter with
  | some (.arrayValue values) => values.any fun value =>
    match value with
    | .stringValue s => standsFor s
    | _ => false
  | _ => true

/-- The text of a hash. -/
def hashText (h : FixedHash 32) (s : Str) : Bool := Hex.decodeString (s.drop 2) == h.bytes

/-- A text of an address on the network of the node. -/
def addressText (address : ChainAddress) (s : Str) : Bool :=
  match Address.construct s n.networkID with
  | .ok a => a.isValid && (a.networkID == n.networkID && a.hex == address.bytes.bytes)
  | .error _ => false

/-- The epoch of a member. -/
def epochMember (ms : List (Str × JsonCpp)) (mem : Str) : Nat :=
  n.epochOf ((jsStringValue (JsonCpp.viewMembers ms) mem).getD [])

/-- The blocks a filter object is about; the hashes override the epochs. -/
def inBlocks (ms : List (Str × JsonCpp)) (log : NodeLog) : Bool :=
  match ms.lookup "blockHashes".toList with
  | some (.arrayValue hashes) => admits (some (.arrayValue hashes)) (hashText log.blockHash)
  | _ => decide (n.epochMember ms "fromEpoch".toList ≤ log.epochNumber.val ∧
      log.epochNumber.val ≤ n.epochMember ms "toEpoch".toList)

/-- The topics a filter object is about, one place after the other. -/
def hasTopics (ms : List (Str × JsonCpp)) (log : NodeLog) : Bool :=
  match ms.lookup "topics".toList with
  | some (.arrayValue filters) => filters.zipIdx.all fun filter =>
    admits (some filter.1) fun s => log.topics[filter.2]?.any (hashText · s)
  | _ => true

/-- The logs a filter object selects, as it is described. -/
def selects (ms : List (Str × JsonCpp)) (log : NodeLog) : Bool :=
  n.inBlocks ms log && (admits (ms.lookup "address".toList) (n.addressText log.address) &&
    hasTopics ms log)

/-- The last logs, if there is a limit. -/
def limited (ms : List (Str × JsonCpp)) (found : List NodeLog) : List NodeLog :=
  match jsStringValue (JsonCpp.viewMembers ms) "limit".toList with
  | some s => found.rtake (digitsValue 16 (s.drop 2))
  | none => found

/-- The reply to a filter object. -/
def getLogs : JsonCpp → JsonCpp
  | .objectValue ms => .arrayValue ((limited ms (n.logs.filter (n.selects ms))).map
    (NodeLog.toJson · n.networkID))
  | _ => .nullValue

/-- A valid address of the network of the node. -/
structure Knows (a : Address) : Prop where
  consistent : a.Consistent
  valid : a.addressType ≠ .invalid
  network : a.networkType = .ofID n.networkID

/-- The log is one that the calls ask for. -/
structure Wanted (calls : List Call) (log : NodeLog) : Prop where
  epochs : calls.filterMap Call.newBlockHash = [] →
    n.epochOf ((calls.filterMap Call.newFrom).getLastD .latest_checkpoint).epoch_number_js_str ≤
        log.epochNumber.val ∧
      log.epochNumber.val ≤
        n.epochOf ((calls.filterMap Call.newTo).getLastD .latest_state).epoch_number_js_str
  blockHash : calls.filterMap Call.newBlockHash ≠ [] →
    log.blockHash ∈ calls.filterMap Call.newBlockHash
  address : calls.filterMap Call.newAddress ≠ [] →
    ∃ a ∈ calls.filterMap Call.newAddress, a.hex = log.address.bytes.bytes
  topics : ∀ i : Fin 4, calls.filterMap (Call.newTopic i) ≠ [] →
    ∃ t ∈ calls.filterMap (Call.newTopic i), log.topics[i.val]? = some t

/-! ### Texts of hashes and addresses -/

theorem hashText_toJSHash (h h' : FixedHash 32) :
    hashText h (Dev.toJSHash h') = true ↔ h' = h := by
  have hdrop : (Dev.toJSHash h').drop 2 = Hex.encodeToString h'.bytes := rfl
  rw [hashText, hdrop, Hex.decodeString_encodeToString, beq_iff_eq]
  exact ⟨FixedHash.eq_of_bytes, congrArg FixedHash.bytes⟩

variable {n} in
theorem Knows.verboseText {a : Address} (h : n.Knows a) :
    a.getVerboseBase32Address = some a.verboseText := by
  have hlen := NetworkType.length_ofID_le n.networkID
  apply Address.printBuffer_verboseText h.consistent
  rw [h.network]
  omega

variable {n} in
theorem Knows.addressText_iff {a : Address} (h : n.Knows a) (address : ChainAddress) :
    n.addressText address a.verboseText = true ↔ a.hex = address.bytes.bytes := by
  have hnet : IsNetName a.networkType.net_work_type_str := by
    rw [h.network]
    exact NetworkType.isNetName_ofID n.networkID_lt
  have hid : a.networkID = n.networkID := by
    have hread := h.consistent.id_eq
    rw [h.network, NetworkType.toNetworkID_ofID] at hread
    exact (Except.ok.inj hread).symm
  obtain ⟨hparsed, hvalid⟩ := (h.consistent.parses h.valid hnet n.networkID).2
  rw [addressText, hparsed]
  simp [hvalid, hid]

theorem admits_null (standsFor : Str → Bool) : admits (some .nullValue) standsFor = true := rfl

theorem admits_strings {α : Type} (l : List α) (text : α → Str) (standsFor : Str → Bool) :
    admits (some (.arrayValue (l.map fun x => .stringValue (text x)))) standsFor = true ↔
      ∃ x ∈ l, standsFor (text x) = true := by
  simp [admits]

/-! ### The object that is sent -/

variable {n} in
theorem addressTexts_eq {addrs : List Address} (h : ∀ a ∈ addrs, n.Knows a) :
    LogFilterParam.addressTexts addrs =
      some (addrs.map fun a => .stringValue a.verboseText) := by
  induction addrs with
  | nil => rfl
  | cons a addrs ih =>
    rw [List.forall_mem_cons] at h
    rw [LogFilterParam.addressTexts, h.1.verboseText, Option.bind_eq_bind, Option.bind_some,
      ih h.2]
    rfl

/-- A list of texts, or null for no list. -/
def optionalTexts {α : Type} (text : α → Str) : Option (List α) → JsonCpp
  | some l => .arrayValue (l.map fun x => .stringValue (text x))
  | none => .nullValue

/-- The members of the object that is sent. -/
def request (f : LogFilterParam) (order : VisitOrder (FixedHash 32)) : List (Str × JsonCpp) :=
  [("fromEpoch".toList, .stringValue f.fromEpoch.epoch_number_js_str),
    ("toEpoch".toList, .stringValue f.toEpoch.epoch_number_js_str),
    ("blockHashes".toList, f.blockHashesJS),
    ("address".toList, optionalTexts Address.verboseText f.addresses),
    ("topics".toList, .arrayValue (f.topics.toList.map (LogFilterParam.topicsJS order))),
    ("limit".toList, f.limitJS)]

variable {n} {f : LogFilterParam} {calls : List Call}

theorem toJS_eq (hknown : ∀ a ∈ calls.filterMap Call.newAddress, n.Knows a)
    (hf : f.Holds calls) (order : VisitOrder (FixedHash 32)) :
    f.toJS order = some (.objectValue (request f order)) := by
  have haddress : f.addressJS = some (optionalTexts Address.verboseText f.addresses) := by
    rw [LogFilterParam.addressJS, hf.addresses, LogFilterParam.unlessEmpty]
    by_cases hnil : calls.filterMap Call.newAddress = []
    · rw [if_pos hnil]
      rfl
    · rw [if_neg hnil]
      dsimp only
      rw [addressTexts_eq hknown]
      rfl
  rw [LogFilterParam.toJS, haddress]
  rfl

theorem admits_unlessEmpty {α : Type} (l : List α) (text : α → Str) (standsFor : Str → Bool) :
    admits (some (optionalTexts text (LogFilterParam.unlessEmpty l))) standsFor = true ↔
      (l ≠ [] → ∃ x ∈ l, standsFor (text x) = true) := by
  by_cases hnil : l = []
  · simp [LogFilterParam.unlessEmpty, hnil, optionalTexts, admits_null]
  · simp [LogFilterParam.unlessEmpty, hnil, optionalTexts, admits_strings]

theorem admits_topicsJS (order : VisitOrder (FixedHash 32)) (tp_set : List (FixedHash 32))
    (topic : Option (FixedHash 32)) :
    admits (some (LogFilterParam.topicsJS order tp_set)) (fun s => topic.any (hashText · s)) = true ↔
      (tp_set ≠ [] → ∃ t ∈ tp_set, topic = some t) := by
  have htext : ∀ t, topic.any (hashText · (Dev.toJSHash t)) = true ↔ topic = some t := by
    intro t
    cases topic with
    | none => simp
    | some t' => rw [Option.any_some, hashText_toJSHash, Option.some_inj, eq_comm]
  by_cases hnil : tp_set = []
  · simp [LogFilterParam.topicsJS, hnil, admits_null]
  · rw [LogFilterParam.topicsJS, if_neg hnil, admits_strings]
    simp only [order.mem_visit, htext, ne_eq, hnil, not_false_eq_true, true_implies]

theorem hasTopics_iff (order : VisitOrder (FixedHash 32)) (hf : f.Holds calls) (log : NodeLog) :
    hasTopics (request f order) log = true ↔
      ∀ i : Fin 4, calls.filterMap (Call.newTopic i) ≠ [] →
        ∃ t ∈ calls.filterMap (Call.newTopic i), log.topics[i.val]? = some t := by
  have hempty : ∀ i : Fin 4, f.topics.get i = [] ↔ calls.filterMap (Call.newTopic i) = [] := by
    intro i
    rw [List.eq_nil_iff_forall_not_mem, List.eq_nil_iff_forall_not_mem]
    exact forall_congr' fun t => not_congr (hf.topics i t)
  have hone : ∀ i : Fin 4, admits (some (LogFilterParam.topicsJS order (f.topics.get i)))
      (fun s => log.topics[i.val]?.any (hashText · s)) = true ↔
        (calls.filterMap (Call.newTopic i) ≠ [] →
          ∃ t ∈ calls.filterMap (Call.newTopic i), log.topics[i.val]? = some t) := by
    intro i
    rw [admits_topicsJS, ne_eq, hempty]
    simp only [hf.topics]
  have hget : ∀ i : Fin 4, (f.topics.toList.map (LogFilterParam.topicsJS order))[i.val]? =
      some (LogFilterParam.topicsJS order (f.topics.get i)) := by
    intro i
    have hlt : i.val < f.topics.toList.length := by rw [f.topics.toList_length]; exact i.isLt
    rw [List.getElem?_map, List.getElem?_eq_getElem hlt, Option.map_some,
      List.Vector.get_eq_get_toList]
    rfl
  have hmember : (request f order).lookup "topics".toList =
      some (.arrayValue (f.topics.toList.map (LogFilterParam.topicsJS order))) := rfl
  rw [← forall_congr' hone, hasTopics, hmember]
  dsimp only
  rw [List.all_eq_true]
  constructor
  · intro h i
    exact h (_, i.val) (List.mem_zipIdx_iff_getElem?.mpr (hget i))
  · intro h filter hfilter
    obtain ⟨value, i⟩ := filter
    have hvalue := List.mem_zipIdx_iff_getElem?.mp hfilter
    have hlt : i < 4 := by
      have := (List.getElem?_eq_some_iff.mp hvalue).1
      rwa [List.length_map, f.topics.toList_length] at this
    have hi := hget ⟨i, hlt⟩
    obtain rfl := Option.some.inj (hvalue.symm.trans hi)
    exact h ⟨i, hlt⟩

theorem inBlocks_iff (order : VisitOrder (FixedHash 32)) (hf : f.Holds calls) (log : NodeLog) :
    n.inBlocks (request f order) log = true ↔
      (calls.filterMap Call.newBlockHash = [] →
        n.epochOf f.fromEpoch.epoch_number_js_str ≤ log.epochNumber.val ∧
          log.epochNumber.val ≤ n.epochOf f.toEpoch.epoch_number_js_str) ∧
      (calls.filterMap Call.newBlockHash ≠ [] →
        log.blockHash ∈ calls.filterMap Call.newBlockHash) := by
  have hfrom : n.epochMember (request f order) "fromEpoch".toList =
      n.epochOf f.fromEpoch.epoch_number_js_str := rfl
  have hto : n.epochMember (request f order) "toEpoch".toList =
      n.epochOf f.toEpoch.epoch_number_js_str := rfl
  have hmember : (request f order).lookup "blockHashes".toList = some f.blockHashesJS := rfl
  rw [inBlocks, hfrom, hto, hmember, LogFilterParam.blockHashesJS, hf.blockHashes,
    LogFilterParam.unlessEmpty]
  clear hfrom hto hmember
  by_cases hnil : calls.filterMap Call.newBlockHash = []
  · rw [if_pos hnil]
    simp only [decide_eq_true_eq, hnil, ne_eq, not_true_eq_false, true_implies, false_implies,
      and_true]
  · rw [if_neg hnil]
    dsimp only
    rw [admits_strings]
    simp [hnil, hashText_toJSHash]

/-- The object selects the logs that the calls ask for. -/
theorem selects_iff (order : VisitOrder (FixedHash 32)) (hf : f.Holds calls) (log : NodeLog)
    (hknown : ∀ a ∈ calls.filterMap Call.newAddress, n.Knows a) :
    n.selects (request f order) log = true ↔ n.Wanted calls log := by
  have hmember : (request f order).lookup "address".toList =
      some (optionalTexts Address.verboseText f.addresses) := rfl
  have haddress : admits (some (optionalTexts Address.verboseText f.addresses))
      (n.addressText log.address) = true ↔ (calls.filterMap Call.newAddress ≠ [] →
        ∃ a ∈ calls.filterMap Call.newAddress, a.hex = log.address.bytes.bytes) := by
    rw [hf.addresses, admits_unlessEmpty]
    refine forall_congr' fun _ => exists_congr fun a => and_congr_right fun ha => ?_
    exact (hknown a ha).addressText_iff log.address
  rw [selects, hmember, Bool.and_eq_true, Bool.and_eq_true, inBlocks_iff order hf,
    hasTopics_iff order hf, haddress, hf.fromEpoch, hf.toEpoch]
  constructor
  · rintro ⟨⟨hepochs, hblock⟩, hcontract, htopics⟩
    exact ⟨hepochs, hblock, hcontract, htopics⟩
  · intro h
    exact ⟨⟨h.epochs, h.blockHash⟩, h.address, h.topics⟩

/-- The last of some logs, if the calls set a limit. -/
def lastLogs (calls : List Call) (found : List NodeLog) : List NodeLog :=
  match (calls.filterMap Call.newLimit).getLast? with
  | some v => found.rtake v.toNat
  | none => found

theorem limited_eq (order : VisitOrder (FixedHash 32)) (hf : f.Holds calls)
    (found : List NodeLog) : limited (request f order) found = lastLogs calls found := by
  have hmember : jsStringValue (JsonCpp.viewMembers (request f order)) "limit".toList =
      f.limit.map Dev.toJSUint64 := by
    have hvalue : (JsonCpp.viewMembers (request f order)).lookup "limit".toList =
        some f.limitJS.view := rfl
    rw [jsStringValue, hvalue, LogFilterParam.limitJS]
    cases f.limit with
    | none => rfl
    | some v => rfl
  rw [limited, hmember, lastLogs, ← hf.limit]
  cases f.limit with
  | none => rfl
  | some v =>
    have hdrop : (Dev.toJSUint64 v).drop 2 = Nat.toDigits 16 v.toNat := rfl
    rw [Option.map_some]
    dsimp only
    rw [hdrop, digitsValue_toDigits]

end LogNode

open Classical LogNode in
/-- The filter that some calls build is sent, and what is read from the reply are the logs
    that the calls ask for, in their order: as many as the last limit admits. -/
theorem getLogs_finds (n : LogNode) (order : VisitOrder (FixedHash 32)) (boost : Boost)
    (fresh : LocalisedLogEntry) (calls : List Call)
    (hknown : ∀ a ∈ calls.filterMap Call.newAddress, n.Knows a) :
    ∃ js, (run LogFilterParam.call .new calls).toJS order = some js ∧
      LocalisedLogEntry.ofReply boost fresh (n.getLogs js) =
        some ((lastLogs calls (n.logs.filter fun log => n.Wanted calls log)).map
          (NodeLog.entry · n.networkID)) := by
  have hf := LogFilterParam.holds_run calls
  refine ⟨_, toJS_eq hknown hf order, ?_⟩
  have hfound : n.logs.filter (n.selects (request (run LogFilterParam.call .new calls) order)) =
      n.logs.filter fun log => n.Wanted calls log := by
    apply List.filter_congr
    intro log _
    rw [Bool.eq_iff_iff, selects_iff order hf log hknown, decide_eq_true_iff]
  rw [getLogs, LocalisedLogEntry.ofReply, hfound, limited_eq order hf]
  exact LocalisedLogEntry.readEntries_toJson boost n.networkID_lt fresh _

/-- A log of a contract with one topic. -/
def transferLog (topic : FixedHash 32) : NodeLog where
  address := ⟨.ofNat 20 (8 * 16 ^ 39 + 1), by decide⟩
  topics := [topic]
  data := ⟨[7], by decide⟩
  blockHash := .ofNat 32 1
  epochNumber := 100
  logIndex := 0
  transactionHash := .ofNat 32 2
  transactionIndex := 3
  transactionLogIndex := 0

/-- A node of the main network with two logs; all tags stand for epoch 100. -/
def transferNode : LogNode where
  networkID := 1029
  networkID_lt := by decide
  logs := [transferLog (.ofNat 32 5), transferLog (.ofNat 32 6)]
  epochOf _ := 100

/-- A search for one topic of one contract. -/
def transferCalls : List Call :=
  [.addAddress ((transferLog (.ofNat 32 5)).address.onNetwork 1029), .addTopic 0 (.ofNat 32 5), .setLimit 10]

open Classical LogNode in
theorem getLogs_finds_transfer :
    ∃ js, (run LogFilterParam.call .new transferCalls).toJS ⟨id, fun l => .refl l⟩ = some js ∧
      LocalisedLogEntry.ofReply .reader ((transferLog (.zero 32)).entry 1029)
          (transferNode.getLogs js) =
        some ((lastLogs transferCalls
          (transferNode.logs.filter fun log => transferNode.Wanted transferCalls log)).map
            (NodeLog.entry · 1029)) := by
  apply getLogs_finds transferNode
  intro a ha
  obtain rfl := List.mem_singleton.mp ha
  exact ⟨ChainAddress.consistent_onNetwork _ 1029, (transferLog (.ofNat 32 5)).address.valid, rfl⟩

end ConfluxSdk
