import Mathlib.Data.List.AList
import ConfluxSdk.Native.KeyFile

/-!
# The secret store

Model of `libdevcrypto/SecretStore`: encrypted keys and a cache of decrypted ones, both
by uuid. The functions that encrypt and derive keys are parameters; what `random()`
draws is an argument of the operation that draws it.

The directory the store is written to is left out: `save` and the file names do not
change what the store holds in memory.
-/

namespace ConfluxSdk

/-! ### Keys and encryption -/

/-- `dev::toPublic` and `dev::sha3`. -/
structure KeyDerivation where
  toPublic : FixedHash 32 → FixedHash 64
  sha3 : List UInt8 → FixedHash 32

namespace KeyDerivation

variable (d : KeyDerivation)

/-- `toAddress(Public const&)`. -/
def toAddressOfPublic (pub : FixedHash 64) : FixedHash 20 := right160 (d.sha3 pub.bytes)

/-- `toAddress(Secret const&)`. -/
def toAddress (secret : FixedHash 32) : FixedHash 20 := d.toAddressOfPublic (d.toPublic secret)

/-- `KeyPair(secret).address()`: zero for a secret that has no public key. -/
def keyPairAddress (secret : FixedHash 32) : FixedHash 20 :=
  if (d.toPublic secret).toBool then d.toAddressOfPublic (d.toPublic secret) else .zero 20

end KeyDerivation

/-- `SecretStore::encrypt`, with the salt and the initial vector it draws, and
    `SecretStore::decrypt`. -/
structure Cipher where
  encrypt : List UInt8 → Str → List UInt8 → Str
  decrypt : Str → Str → List UInt8

/-- Everything the store uses from other libraries. -/
structure StoreEnv extends KeyDerivation, Cipher, JsonSpirit

/-! ### The store -/

/-- `SecretStore`. -/
structure SecretStore where
  m_cached : AList fun _ : H128 => List UInt8
  m_keys : AList fun _ : H128 => EncryptedKey

namespace SecretStore

variable (env : StoreEnv)

/-- `SecretStore::SecretStore()`. -/
def new : SecretStore := ⟨∅, ∅⟩

/-- `SecretStore::keys`, in some order. -/
def keys (ks : SecretStore) : List H128 := ks.m_keys.keys

/-- `SecretStore::contains`. -/
def contains (ks : SecretStore) (k : H128) : Bool := (ks.m_keys.lookup k).isSome

/-- `SecretStore::noteAddress`. -/
def noteAddress (ks : SecretStore) (uuid : H128) (address : FixedHash 20) : SecretStore × Bool :=
  match ks.m_keys.lookup uuid with
  | some key =>
    if key.address = .zero 20 then
      ({ ks with m_keys := ks.m_keys.insert uuid { key with address } }, true)
    else (ks, false)
  | none => (ks, false)

/-- `SecretStore::secret`. -/
def secret (ks : SecretStore) (uuid : H128) (pass : Str) (useCache : Bool) :
    SecretStore × List UInt8 :=
  match (if useCache then ks.m_cached.lookup uuid else none) with
  | some key => (ks, key)
  | none =>
    match ks.m_keys.lookup uuid with
    | none => (ks, [])
    | some stored =>
      -- A wrong passphrase decrypts to nothing.
      let key := env.decrypt stored.encryptedKey pass
      if key = [] then (ks, key)
      else
        -- The cache is written even if it was not to be read.
        let ks := { ks with m_cached := ks.m_cached.insert uuid key }
        ((ks.noteAddress uuid (env.toAddress (.ofBytes 32 key))).1, key)

/-- `SecretStore::importSecret`; `r` and `random` are drawn. -/
def importSecret (ks : SecretStore) (s : List UInt8) (pass : Str) (r : H128)
    (random : List UInt8) : SecretStore × H128 :=
  let key := ⟨env.encrypt s pass random, env.keyPairAddress (.ofBytes 32 s)⟩
  -- The secret goes to the cache at once.
  ({ ks with m_cached := ks.m_cached.insert r s, m_keys := ks.m_keys.insert r key }, r)

/-- `SecretStore::readKeyContent`. A text whose id is no uuid is stored under the zero
    uuid, which is returned like that of a text that is not stored. -/
def readKeyContent (ks : SecretStore) (content : Str) : SecretStore × H128 :=
  match readKeyFile env.toJsonSpirit content with
  | none => (ks, .zero 16)
  | some (uuid, key) => ({ ks with m_keys := ks.m_keys.insert uuid key }, uuid)

/-- `SecretStore::importKey`, on the content of the file. -/
def importKey (ks : SecretStore) (content : Str) : SecretStore × H128 :=
  ks.readKeyContent env content

/-- `SecretStore::load`, on the contents of the files of the directory. -/
def load (contents : List Str) : SecretStore :=
  contents.foldl (fun ks content => (ks.readKeyContent env content).1) new

/-- `SecretStore::kill`. -/
def kill (ks : SecretStore) (uuid : H128) : SecretStore where
  m_cached := ks.m_cached.erase uuid
  m_keys := ks.m_keys.erase uuid

/-- `m_keys[uuid]`, which adds an empty key where there is none. -/
def storedKey (ks : SecretStore) (uuid : H128) : EncryptedKey :=
  (ks.m_keys.lookup uuid).getD ⟨[], .zero 20⟩

/-- `SecretStore::recode`. -/
def recode (ks : SecretStore) (uuid : H128) (newPass pass : Str) (random : List UInt8) :
    SecretStore × Bool :=
  match ks.secret env uuid pass true with
  | (ks, []) => (ks, false)
  | (ks, b :: s) =>
    -- The address is that of the old entry.
    let key := { ks.storedKey uuid with encryptedKey := env.encrypt (b :: s) newPass random }
    ({ ks with m_cached := ks.m_cached.erase uuid, m_keys := ks.m_keys.insert uuid key }, true)

/-- `SecretStore::address`; the uuid is that of a stored key. -/
def address (ks : SecretStore) (uuid : H128) : FixedHash 20 := (ks.storedKey uuid).address

end SecretStore

end ConfluxSdk
