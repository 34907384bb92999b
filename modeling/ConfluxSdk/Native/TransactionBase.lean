import ConfluxSdk.Native.CfxAddress
import ConfluxSdk.Native.Rlp

/-!
# Transactions

Model of `libcfxcore/TransactionBase`: the fields of a transaction, their RLP
stream, and the methods that hash, sign and recover. A method that is called on a
transaction returns the transaction it leaves behind and, next to it, its result;
an exception does not undo what was assigned before it.

Hashing, signing and recovery are those of a `Crypto`. The member `m_from`, which no
method uses, is left out.
-/

namespace ConfluxSdk

/-! ### Hashes and signatures -/

/-- `FixedHash<N>`; a `SecureFixedHash<N>` is the same. -/
structure FixedHash (n : Nat) where
  bytes : List UInt8
  size_eq : bytes.length = n
  deriving DecidableEq, Repr

namespace FixedHash

variable {n : Nat}

/-- A hash is its bytes. -/
theorem eq_of_bytes {a b : FixedHash n} (h : a.bytes = b.bytes) : a = b := by
  cases a
  cases b
  cases h
  rfl

/-- `FixedHash::FixedHash()`. -/
def zero (n : Nat) : FixedHash n := ⟨List.replicate n 0, List.length_replicate⟩

/-- `FixedHash::operator bool`. -/
def toBool (h : FixedHash n) : Bool := h.bytes.any (· ≠ 0)

/-- `FixedHash::operator Arith`. -/
def toArith (h : FixedHash n) : Nat := Rlp.fromBigEndian n h.bytes

/-- The loop of `operator<`. -/
def ltBytes : List UInt8 → List UInt8 → Bool
  | a :: as, b :: bs => if a < b then true else if a > b then false else ltBytes as bs
  | _, _ => false

/-- `FixedHash::operator<`. -/
def lt (a b : FixedHash n) : Bool := ltBytes a.bytes b.bytes

/-- `FixedHash::operator>`, the negation of `operator<=`. -/
def gt (a b : FixedHash n) : Bool := !(a.bytes == b.bytes || a.lt b)

/-- The constructor from the number, which has no more than `n` bytes. -/
def ofNat (n v : Nat) : FixedHash n := ⟨BigEndian.fixed n v, BigEndian.length_fixed n v⟩

end FixedHash

/-- `right160`. -/
def right160 (h : FixedHash 32) : FixedHash 20 :=
  ⟨h.bytes.drop 12, by rw [List.length_drop, h.size_eq]⟩

/-- `MaxAddress`. -/
def MaxAddress : FixedHash 20 := ⟨List.replicate 20 0xff, List.length_replicate⟩

/-- `SignatureStruct`. -/
structure SignatureStruct where
  r : FixedHash 32
  s : FixedHash 32
  v : UInt8
  deriving DecidableEq, Repr

/-- `SignatureStruct::isValid`. -/
def SignatureStruct.isValid (sig : SignatureStruct) : Bool :=
  let s_max : FixedHash 32 :=
    .ofNat 32 0xfffffffffffffffffffffffffffffffebaaedce6af48a03bbfd25e8cd0364141
  let s_zero : FixedHash 32 := .zero 32
  decide (sig.v ≤ 1) && sig.r.gt s_zero && sig.s.gt s_zero && sig.r.lt s_max && sig.s.lt s_max

/-- `dev::sha3`, `dev::sign` and `dev::recover`. -/
structure Crypto where
  sha3 : List UInt8 → FixedHash 32
  sign : FixedHash 32 → FixedHash 32 → SignatureStruct
  recover : SignatureStruct → FixedHash 32 → FixedHash 64

/-! ### TransactionBase -/

/-- `u256`. -/
abbrev U256 := Fin (2 ^ 256)

instance neZero_two_pow_256 : NeZero (2 ^ 256) := ⟨by decide⟩

/-- `Invalid256`. -/
def Invalid256 : U256 := ⟨2 ^ 256 - 1, by decide⟩

/-- `IncludeSignature`. -/
inductive IncludeSignature where
  | withoutSignature | withSignature
  deriving DecidableEq, Repr

/-- `TransactionBase::Type`. -/
inductive TransactionType where
  | nullTransaction | contractCreation | messageCall
  deriving DecidableEq, Repr

/-- What the methods throw: an exception of the RLP stream or a text. The access to
    an empty `m_vrs` is undefined, and an error of its own here. -/
inductive TransactionError where
  | rlp (e : RlpError)
  | thrown (text : Str)
  | emptyOptional
  deriving DecidableEq, Repr

/-- `TransactionBase`. -/
structure TransactionBase where
  m_storageLimit : U256
  m_epochHeight : U256
  m_chainId : U256
  m_vrs : Option SignatureStruct
  m_nonce : U256
  m_value : U256
  m_receiveAddress : FixedHash 20
  m_cfx_receiveAddress : Address
  m_gasPrice : U256
  m_gas : U256
  m_data : Bytes
  m_sender : Option (FixedHash 20)
  m_hashWith : FixedHash 32
  m_type : TransactionType
  m_secret : FixedHash 32

/-- `Address::toEthCommonAddr`. The code reads the twenty bytes without a check; only an
    invalid address has fewer. -/
def Address.toEthCommonAddr (a : Address) : FixedHash 20 :=
  ⟨(List.range 20).map fun i => a.hex.getD i 0, by rw [List.length_map, List.length_range]⟩

/-- `Address::Address()`; the constructor does not throw on this text. -/
def Address.default : Address :=
  match Address.construct "0x0000000000000000000000000000000000000000".toList
      NetworkType.testnetID with
  | .ok a => a
  | .error _ => Address.init NetworkType.testnetID

namespace TransactionBase

/-! ### Constructors -/

/-- `TransactionBase::TransactionBase()`. -/
def null : TransactionBase where
  m_storageLimit := Invalid256
  m_epochHeight := Invalid256
  m_chainId := Invalid256
  m_vrs := none
  m_nonce := Invalid256
  m_value := 0
  m_receiveAddress := .zero 20
  m_cfx_receiveAddress := Address.default
  m_gasPrice := Invalid256
  m_gas := Invalid256
  m_data := ⟨[], by decide⟩
  m_sender := none
  m_hashWith := .zero 32
  m_type := .nullTransaction
  m_secret := .zero 32

/-- The constructor of a message call. -/
def ofMessageCall (dest : Address) (value : U256) (secret : FixedHash 32) : TransactionBase :=
  { null with
    m_type := .messageCall
    m_value := value
    m_receiveAddress := dest.toEthCommonAddr
    m_cfx_receiveAddress := dest
    m_secret := secret }

/-- The constructor of a contract creation. -/
def ofContractCreation (data : Bytes) (secret : FixedHash 32) : TransactionBase :=
  { null with m_type := .contractCreation, m_data := data, m_secret := secret }

/-! ### The stream -/

/-- The nine fields, as `streamRLP` appends them. -/
def streamFields (t : TransactionBase) (s : RLPStream) : Except RlpError RLPStream := do
  let s ← s.appendList 9
  let s ← s.appendInt t.m_nonce
  let s ← s.appendInt t.m_gasPrice
  let s ← s.appendInt t.m_gas
  -- A contract creation has an empty receiver.
  let s ← s.append (if t.m_type = .messageCall then t.m_receiveAddress.bytes else []) false
  let s ← s.appendInt t.m_value
  let s ← s.appendInt t.m_storageLimit
  let s ← s.appendInt t.m_epochHeight
  let s ← s.appendInt t.m_chainId
  s.append (if t.m_data.toList = [] then [] else t.m_data.toList) false

/-- The signature, as `streamRLP` appends it. -/
def streamSignature (vrs : SignatureStruct) (s : RLPStream) : Except RlpError RLPStream := do
  let s ← s.appendInt vrs.v.toNat
  let s ← s.appendInt vrs.r.toArith
  s.appendInt vrs.s.toArith

/-- `TransactionBase::streamRLP`. -/
def streamRLP (t : TransactionBase) (s : RLPStream) :
    IncludeSignature → Except TransactionError RLPStream
  | .withoutSignature => (t.streamFields s).mapError .rlp
  | .withSignature => do
    let s ← (s.appendList 4).mapError .rlp
    let s ← (t.streamFields s).mapError .rlp
    match t.m_vrs with
    | none => .error .emptyOptional
    | some vrs => (streamSignature vrs s).mapError .rlp

/-- The stream of a transaction, read with `out`. -/
def rlp (t : TransactionBase) (sig : IncludeSignature) : Except TransactionError (List UInt8) := do
  let s ← t.streamRLP .empty sig
  s.out.mapError .rlp

/-! ### Hash, signature and sender -/

variable (c : Crypto) (t : TransactionBase)

/-- `TransactionBase::hasZeroSignature`. -/
def hasZeroSignature : Bool :=
  match t.m_vrs with
  | none => false
  | some vrs => vrs.r.toArith = 0 && vrs.s.toArith = 0

/-- `TransactionBase::sha3`. -/
def sha3 (sig : IncludeSignature) : TransactionBase × Except TransactionError (FixedHash 32) :=
  if sig = .withSignature ∧ t.m_hashWith.toBool then (t, .ok t.m_hashWith)
  else
    match t.rlp sig with
    | .error e => (t, .error e)
    | .ok out =>
      -- Only the hash with the signature is cached.
      let ret := c.sha3 out
      (if sig = .withSignature then { t with m_hashWith := ret } else t, .ok ret)

/-- `TransactionBase::sign`. -/
def sign (priv : FixedHash 32) : TransactionBase × Except TransactionError Unit :=
  match t.sha3 c .withoutSignature with
  | (t, .error e) => (t, .error e)
  | (t, .ok hash) =>
    let sigStruct := c.sign priv hash
    -- An invalid signature is dropped without an error.
    (if sigStruct.isValid then { t with m_vrs := some sigStruct } else t, .ok ())

/-- `TransactionBase::SignTransaction`. -/
def signTransaction : TransactionBase × Except TransactionError (List UInt8) :=
  if !t.m_secret.toBool then (t, .error (.thrown "secret is empty!".toList))
  else
    match t.sign c t.m_secret with
    | (t, .error e) => (t, .error e)
    -- The signature that is sent is whatever is there now.
    | (t, .ok ()) => (t, t.rlp .withSignature)

/-- `TransactionBase::SignTransactionWithSecret`. -/
def signTransactionWithSecret (secret : FixedHash 32) :
    TransactionBase × Except TransactionError (List UInt8) :=
  signTransaction c { t with m_secret := secret }

/-- The address of the key that signed, computed by `sender`. -/
def recoverSender : TransactionBase × Except TransactionError (FixedHash 20) :=
  match t.m_vrs with
  | none => (t, .error (.thrown "TransactionIsUnsigned".toList))
  | some vrs =>
    match t.sha3 c .withoutSignature with
    | (t, .error e) => (t, .error e)
    | (t, .ok hash) =>
      let p := c.recover vrs hash
      if !p.toBool then (t, .error (.thrown "InvalidSignature".toList))
      else (t, .ok (right160 (c.sha3 p.bytes)))

/-- `TransactionBase::sender`. -/
def sender : TransactionBase × Except TransactionError (FixedHash 20) :=
  match t.m_sender with
  -- The cache is not cleared by any setter.
  | some a => (t, .ok a)
  | none =>
    if t.hasZeroSignature then ({ t with m_sender := some MaxAddress }, .ok MaxAddress)
    else
      match t.recoverSender c with
      | (t, .error e) => (t, .error e)
      | (t, .ok a) => ({ t with m_sender := some a }, .ok a)

/-! ### Getters and setters -/

/-- `receive_cfx`. -/
def receive_cfx : Address := t.m_cfx_receiveAddress

/-- `to_cfx`. -/
def to_cfx : Address := t.m_cfx_receiveAddress

/-- `isCreation`. -/
def isCreation : Bool := t.m_type = .contractCreation

/-- `withReceive`; the address that is streamed stays as it was. -/
def withReceive (addr : Address) : TransactionBase := { t with m_cfx_receiveAddress := addr }

/-- `withTo`. -/
def withTo (addr : Address) : TransactionBase := { t with m_cfx_receiveAddress := addr }

/-- `withNonce`. -/
def withNonce (value : U256) : TransactionBase := { t with m_nonce := value }

/-- `withChainId`. -/
def withChainId (value : U256) : TransactionBase := { t with m_chainId := value }

/-- `withGasPrice`. -/
def withGasPrice (value : U256) : TransactionBase := { t with m_gasPrice := value }

/-- `withEpochHeight`. -/
def withEpochHeight (value : U256) : TransactionBase := { t with m_epochHeight := value }

/-- `withGas`. -/
def withGas (value : U256) : TransactionBase := { t with m_gas := value }

/-- `withStorageLimit`. -/
def withStorageLimit (value : U256) : TransactionBase := { t with m_storageLimit := value }

/-- `withValue`. -/
def withValue (value : U256) : TransactionBase := { t with m_value := value }

/-- `withData`. -/
def withData (data : Bytes) : TransactionBase := { t with m_data := data }

/-- `withSecret`. -/
def withSecret (value : FixedHash 32) : TransactionBase := { t with m_secret := value }

/-- A call of one of the methods that change a transaction or its caches. -/
inductive Call where
  | withReceive (addr : Address)
  | withTo (addr : Address)
  | withNonce (value : U256)
  | withChainId (value : U256)
  | withGasPrice (value : U256)
  | withEpochHeight (value : U256)
  | withGas (value : U256)
  | withStorageLimit (value : U256)
  | withValue (value : U256)
  | withData (data : Bytes)
  | withSecret (value : FixedHash 32)
  | signTransaction
  | signTransactionWithSecret (secret : FixedHash 32)
  | sha3 (sig : IncludeSignature)
  | sender

/-- The transaction after a call, whether the call returns or throws. -/
def call : Call → TransactionBase
  | .withReceive addr => t.withReceive addr
  | .withTo addr => t.withTo addr
  | .withNonce value => t.withNonce value
  | .withChainId value => t.withChainId value
  | .withGasPrice value => t.withGasPrice value
  | .withEpochHeight value => t.withEpochHeight value
  | .withGas value => t.withGas value
  | .withStorageLimit value => t.withStorageLimit value
  | .withValue value => t.withValue value
  | .withData data => t.withData data
  | .withSecret value => t.withSecret value
  | .signTransaction => (t.signTransaction c).1
  | .signTransactionWithSecret secret => (t.signTransactionWithSecret c secret).1
  | .sha3 sig => (t.sha3 c sig).1
  | .sender => (t.sender c).1

end TransactionBase

end ConfluxSdk
