import ConfluxSdk.Native.RlpVector

/-!
# Bloom filters and log entries

Model of `libcfxcore/bloom_filter.h`, of the functions of `libdevcore/FixedHash` it is
made of, and of the bloom and the RLP of the log entries in
`libcfxcore/types/log_enrty`.

The library `ethash` is a parameter. `dev::sha3` has an overload for `h256` that calls
another function of it than the rest, the same hash for 32 bytes.
-/

namespace ConfluxSdk

/-! ### FixedHash -/

namespace FixedHash

variable {n : Nat}

/-- `FixedHash::operator|=`. -/
def or (a c : FixedHash n) : FixedHash n where
  bytes := List.zipWith (· ||| ·) a.bytes c.bytes
  size_eq := by rw [List.length_zipWith, a.size_eq, c.size_eq, Nat.min_self]

/-- `FixedHash::operator&`. -/
def and (a c : FixedHash n) : FixedHash n where
  bytes := List.zipWith (· &&& ·) a.bytes c.bytes
  size_eq := by rw [List.length_zipWith, a.size_eq, c.size_eq, Nat.min_self]

/-- `FixedHash::contains`. -/
def contains (a c : FixedHash n) : Bool := (a.and c).bytes == c.bytes

/-- `|=` on the byte at an index. -/
def orAt (h : FixedHash n) (i : Nat) (b : UInt8) : FixedHash n where
  bytes := h.bytes.modify i (· ||| b)
  size_eq := by rw [List.length_modify, h.size_eq]

/-- The inner loop of `bloomPart`: the index of a bit of a filter of `m` bytes. -/
def bloomIndex (m : Nat) (p : List UInt8) : UInt32 :=
  let c_mask := UInt32.ofNat (m * 8 - 1)
  p.foldl (fun (index : UInt32) b => (index <<< 8) ||| b.toUInt32) 0 &&& c_mask

/-- The outer loop of `bloomPart`, over the bytes that `p` points to. -/
def bloomLoop (m c_bloomBytes : Nat) : Nat → List UInt8 → FixedHash m → FixedHash m
  | 0, _, ret => ret
  | i + 1, p, ret =>
    -- The index counts bits from the end of the filter.
    let index := bloomIndex m (p.take c_bloomBytes)
    bloomLoop m c_bloomBytes i (p.drop c_bloomBytes)
      (ret.orAt (m - 1 - (index / 8).toNat) (1 <<< (index % 8).toUInt8))

/-- `FixedHash::bloomPart`; `StaticLog2` is the binary logarithm. -/
def bloomPart (p m : Nat) (h : FixedHash n) : FixedHash m :=
  let c_bloomBits := m * 8
  let c_bloomBytes := (Nat.log2 c_bloomBits + 7) / 8
  bloomLoop m c_bloomBytes p h.bytes (.zero m)

variable {k : Nat}

/-- `FixedHash::shiftBloom`. -/
def shiftBloom (p : Nat) (a : FixedHash n) (h : FixedHash k) : FixedHash n := a.or (h.bloomPart p n)

/-- `FixedHash::containsBloom`. -/
def containsBloom (p : Nat) (a : FixedHash n) (h : FixedHash k) : Bool :=
  a.contains (h.bloomPart p n)

end FixedHash

/-! ### Hashes -/

/-- The functions of `ethash` that are called. -/
structure Ethash where
  keccak256 : List UInt8 → FixedHash 32
  keccak256_32 : List UInt8 → FixedHash 32
  keccak256_32_eq : ∀ data, data.length = 32 → keccak256_32 data = keccak256 data

namespace Ethash

variable (e : Ethash)

/-- `sha3(bytesConstRef)`. -/
def sha3 (input : List UInt8) : FixedHash 32 := e.keccak256 input

/-- `sha3(FixedHash<N>)` and its overload for `h256`. -/
def sha3Hash {n : Nat} (input : FixedHash n) : FixedHash 32 :=
  if n = 32 then e.keccak256_32 input.bytes else e.sha3 input.bytes

/-- `sha3(std::string)`, of the bytes of the text. -/
def sha3String (input : Str) : FixedHash 32 := e.sha3 (input.map fun c => UInt8.ofNat c.toNat)

end Ethash

/-! ### BloomFilter -/

/-- `LogBloom`, an `h2048`. -/
abbrev LogBloom := FixedHash 256

/-- `BloomFilter`. -/
structure BloomFilter where
  bloom : LogBloom
  deriving DecidableEq, Repr

namespace BloomFilter

/-- `BloomFilter::BloomFilter()`. -/
def empty : BloomFilter := ⟨.zero 256⟩

variable (e : Ethash) (f : BloomFilter)

/-- `Add(cfx_cpp::Address)`. -/
def addAddress (addr : Address) : BloomFilter :=
  ⟨f.bloom.shiftBloom 3 (e.sha3Hash addr.toEthCommonAddr)⟩

/-- `Add(dev::FixedHash<M>)`. -/
def addHash {m : Nat} (hash : FixedHash m) : BloomFilter :=
  ⟨f.bloom.shiftBloom 3 (e.sha3Hash hash)⟩

/-- `Add(std::string)`. -/
def addString (str : Str) : BloomFilter := ⟨f.bloom.shiftBloom 3 (e.sha3String str)⟩

/-- `Contains(cfx_cpp::Address)`. -/
def containsAddress (addr : Address) : Bool :=
  f.bloom.containsBloom 3 (e.sha3Hash addr.toEthCommonAddr)

/-- `Contains(dev::FixedHash<M>)`; a `LogBloom` has an overload of its own. -/
def containsHash {m : Nat} (hash : FixedHash m) : Bool := f.bloom.containsBloom 3 (e.sha3Hash hash)

/-- `Contains(std::string)`. -/
def containsString (str : Str) : Bool := f.bloom.containsBloom 3 (e.sha3String str)

/-- `Contains(LogBloom)`. -/
def containsBloom (v : LogBloom) : Bool := f.bloom.contains v

/-- `Value`. -/
def value : LogBloom := f.bloom

/-- `Contains(BloomFilter)`. -/
def containsFilter (v : BloomFilter) : Bool := f.bloom.contains v.value

/-- What is added: an address, a topic or a string. -/
inductive Item where
  | address (addr : Address)
  | topic (hash : FixedHash 32)
  | string (str : Str)

/-- `Add` of an item. -/
def add : Item → BloomFilter
  | .address addr => f.addAddress e addr
  | .topic hash => f.addHash e hash
  | .string str => f.addString e str

/-- `Contains` of an item. -/
def contains : Item → Bool
  | .address addr => f.containsAddress e addr
  | .topic hash => f.containsHash e hash
  | .string str => f.containsString e str

end BloomFilter

/-! ### LogEntry -/

/-- `LogEntry`. -/
structure LogEntry where
  address : FixedHash 20
  cfx_address : Address
  topics : List (FixedHash 32)
  data : Bytes

/-- What ends the constructor from an RLP: an exception of the RLP or of the vector, or
    its assertion. -/
inductive LogEntryError where
  | rlp (e : RlpError)
  | std (e : StdError)
  | assertion
  deriving DecidableEq, Repr

namespace LogEntry

/-- The constructor from an address, topics and data. -/
def new (address : Address) (topics : List (FixedHash 32)) (data : Bytes) : LogEntry where
  address := address.toEthCommonAddr
  cfx_address := address
  topics
  data

/-- `LogEntry::streamRLP`. -/
def streamRLP (l : LogEntry) (s : RLPStream) : Except RlpError RLPStream := do
  -- The address is that of the chain, without its network.
  let s ← s.appendList 3
  let s ← s.append l.address.bytes false
  let s ← s.appendVector l.topics
  s.append l.data.toList false

/-- The constructor from an RLP. Its accesses share the cache of the argument. -/
def ofRLP (r : RLP) : Except LogEntryError LogEntry := do
  let count ← r.itemCount.mapError .rlp
  if count ≠ 3 then .error .assertion
  else
    let (item, r) ← (r.getItem 0).mapError .rlp
    let address ← (item.convertHash 20 RLP.strict).mapError .rlp
    let (item, r) ← (r.getItem 1).mapError .rlp
    -- The vector is read leniently: what is no list has no topics.
    let topics ← (item.toVector 32 RLP.laissezFaire).mapError .rlp
    let (item, _) ← (r.getItem 2).mapError .rlp
    let data ← (item.toBytes RLP.laissezFaire).mapError .rlp
    if h : data.length < 2 ^ 63 then
      -- The Conflux address is left as the default one.
      .ok { address, cfx_address := .default, topics, data := ⟨data, h⟩ }
    else .error (.std .lengthError)

/-- `LogEntry::bloom`. -/
def bloom (e : Ethash) (l : LogEntry) : LogBloom :=
  l.topics.foldl (fun ret t => ret.shiftBloom 3 (e.sha3 t.bytes))
    ((FixedHash.zero 256).shiftBloom 3 (e.sha3 l.address.bytes))

end LogEntry

/-- `bloom` of some log entries. -/
def bloom (e : Ethash) (logs : List LogEntry) : LogBloom :=
  logs.foldl (fun ret l => ret.or (l.bloom e)) (.zero 256)

end ConfluxSdk
