import ConfluxSdk.Native.SecretStore

/-!
# The account manager

Model of `libcfxcore/account`: the addresses of the keys in a secret store, and the
operations on them.

The map of addresses is ordered by `Address::operator<`, which compares the texts of
`GetVerboseBase32Address`. An address whose text overruns its buffer, where the
comparison is undefined, is not found here.
-/

namespace ConfluxSdk

/-- What `Address::operator<` compares. -/
def Address.orderKey (a : Address) : Str := a.getVerboseBase32Address.getD []

/-- `getCfxUserAddress`; the constructor does not throw on a text of twenty bytes. -/
def getCfxUserAddress (addr : FixedHash 20) (networkID : UInt32) : Address :=
  -- The first four bits become those of a user.
  let bytes := match addr.bytes with
    | b :: bs => (b &&& 0x0f ||| 0x10) :: bs
    | [] => []
  match Address.construct ("0x".toList ++ Dev.toHex bytes) networkID with
  | .ok a => a
  | .error _ => Address.init networkID

/-- `Secret2CfxAddr`. -/
def secret2CfxAddr (d : KeyDerivation) (key : FixedHash 32) (networkID : UInt32) : Address :=
  getCfxUserAddress (d.toAddress key) networkID

/-- `AccountManager`. -/
structure AccountManager where
  m_networkID : UInt32
  ks : SecretStore
  cfxAddressDic : OrderedMap Address.orderKey H128

namespace AccountManager

variable (env : StoreEnv)

/-- `AccountManager::initialize`, with the keys in the order the store lists them. -/
def initializeFrom (m_networkID : UInt32) (ks : SecretStore) (keys : List H128) : AccountManager where
  m_networkID
  ks
  cfxAddressDic := keys.foldl
    (fun dic k => dic.insert (getCfxUserAddress (ks.address k) m_networkID) k) .empty

variable (m : AccountManager)

/-- `AccountManager::Create`; `seed`, `r` and `random` are drawn. -/
def create (passphrase : Str) (seed : FixedHash 32) (r : H128) (random : List UInt8) :
    AccountManager × Address :=
  let k := env.sha3 seed.bytes
  let (ks, uuid) := m.ks.importSecret env k.bytes passphrase r random
  let cfxaddr := getCfxUserAddress (env.keyPairAddress k) m.m_networkID
  ({ m with ks, cfxAddressDic := m.cfxAddressDic.insert cfxaddr uuid }, cfxaddr)

/-- `AccountManager::List`. -/
def list : List Address := m.cfxAddressDic.keys

/-- `AccountManager::ImportKeystore`, on the content of the file, with `*ok`. -/
def importKeystore (content : Str) : AccountManager × Address × Bool :=
  let (ks, uuid) := m.ks.importKey env content
  -- The zero uuid stands for a text that was not stored.
  if uuid.toBool then
    let cfxaddr := getCfxUserAddress (ks.address uuid) m.m_networkID
    ({ m with ks, cfxAddressDic := m.cfxAddressDic.insert cfxaddr uuid }, cfxaddr, true)
  else ({ m with ks }, Address.default, false)

/-- `AccountManager::GetSecret`. -/
def getSecret (addr : Address) (passphrase : Str) : AccountManager × FixedHash 32 :=
  match m.cfxAddressDic.find? addr with
  | none => (m, .zero 32)
  | some uuid =>
    -- The cache is used: once a secret is in it, any passphrase will do.
    let (ks, secbytes) := m.ks.secret env uuid passphrase true
    ({ m with ks }, .ofBytes 32 secbytes)

/-- `AccountManager::ImportPrivateKey`; `r` and `random` are drawn. -/
def importPrivateKey (secret_key : FixedHash 32) (passphrase : Str) (r : H128)
    (random : List UInt8) : AccountManager × Address :=
  let addr := secret2CfxAddr env.toKeyDerivation secret_key m.m_networkID
  match m.cfxAddressDic.find? addr with
  -- A key that is known is not stored again.
  | some _ => (m, addr)
  | none =>
    let (ks, uuid) := m.ks.importSecret env secret_key.bytes passphrase r random
    ({ m with ks, cfxAddressDic := m.cfxAddressDic.insert addr uuid }, addr)

/-- `AccountManager::UpdatePassphrase`; `random` is drawn. -/
def updatePassphrase (addr : Address) (passphrase newPassphrase : Str) (random : List UInt8) :
    AccountManager × Bool :=
  match m.cfxAddressDic.find? addr with
  | none => (m, false)
  | some uuid =>
    let (ks, ok) := m.ks.recode env uuid newPassphrase passphrase random
    ({ m with ks }, ok)

/-- `AccountManager::Delete`. -/
def delete (addr : Address) (passphrase : Str) : AccountManager × Bool :=
  match m.cfxAddressDic.find? addr with
  | none => (m, false)
  | some uuid =>
    -- The cache is not used, so the passphrase is checked.
    let (ks, secbytes) := m.ks.secret env uuid passphrase false
    if (FixedHash.ofBytes 32 secbytes).toBool then
      ({ m with ks := ks.kill uuid, cfxAddressDic := m.cfxAddressDic.erase addr }, true)
    else ({ m with ks }, false)

/-- `AccountManager::GetDefault`, on one thread. -/
def getDefault : Address := m.list.headD Address.default

/-- A call of one of the operations. -/
inductive Call where
  | create (passphrase : Str) (seed : FixedHash 32) (r : H128) (random : List UInt8)
  | importPrivateKey (secret_key : FixedHash 32) (passphrase : Str) (r : H128)
    (random : List UInt8)
  | importKeystore (content : Str)
  | getSecret (addr : Address) (passphrase : Str)
  | updatePassphrase (addr : Address) (passphrase newPassphrase : Str) (random : List UInt8)
  | delete (addr : Address) (passphrase : Str)

/-- The account manager after a call. -/
def call : Call → AccountManager
  | .create passphrase seed r random => (m.create env passphrase seed r random).1
  | .importPrivateKey secret_key passphrase r random =>
    (m.importPrivateKey env secret_key passphrase r random).1
  | .importKeystore content => (m.importKeystore env content).1
  | .getSecret addr passphrase => (m.getSecret env addr passphrase).1
  | .updatePassphrase addr passphrase newPassphrase random =>
    (m.updatePassphrase env addr passphrase newPassphrase random).1
  | .delete addr passphrase => (m.delete env addr passphrase).1

end AccountManager

end ConfluxSdk
