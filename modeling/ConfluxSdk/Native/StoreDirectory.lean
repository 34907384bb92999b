import ConfluxSdk.ForStd.Simulation
import ConfluxSdk.Native.KeyCrypto

/-!
# The directory of a secret store

Model of `libdevcrypto/SecretStore` with the files it keeps: every key is written to a
file named by its uuid, and the files of the directory are read when the store is opened.
What the store holds in memory is a `SecretStore`; the members `filename` of its keys and
the regular files are kept beside it.

A path is a text, and two texts are two files. Files can always be written. The orders in
which `unordered_map` and `directory_iterator` visit their elements are arguments of the
operations that visit them. An encryption that throws leaves no text.
-/

namespace ConfluxSdk

/-- `toUUID`. -/
def toUUID (uuid : H128) : Str :=
  [20, 16, 12, 8].foldl (fun ret i => ret.insertIdx i '-') (Dev.toHex uuid.bytes)

/-- What a store with a directory uses from other libraries. -/
structure DirectoryEnv extends KeyDerivation, Cipher where
  locale : JsonLocale

/-- What the store in memory uses. -/
def DirectoryEnv.toStoreEnv (env : DirectoryEnv) : StoreEnv where
  toKeyDerivation := env.toKeyDerivation
  toCipher := env.toCipher
  toJsonSpirit := JsonSpirit.ofLocale env.locale

/-- The environment of the program: keys are encrypted with `scrypt`. -/
def KeyCrypto.directoryEnv (lib : KeyCrypto) (toPublic : FixedHash 32 → FixedHash 64)
    (locale : JsonLocale) : DirectoryEnv where
  toPublic
  sha3 := lib.sha3
  toCipher := lib.cipher locale .scrypt
  locale

namespace Path

/-- A path with the separator that a name is appended to. -/
def asDirectory (path : Str) : Str := if path.getLast? = some '/' then path else path ++ ['/']

/-- `operator/` of a path and a name without a separator in front. -/
def append (path name : Str) : Str := if path = [] then name else asDirectory path ++ name

/-- Whether a file is one that the iterator of a directory visits. -/
def isChild (path file : Str) : Bool :=
  asDirectory path <+: file &&
    (file.drop (asDirectory path).length ≠ [] && '/' ∉ file.drop (asDirectory path).length)

end Path

/-- `SecretStore` with the files there are. A uuid without a key has no file name. -/
structure StoreDirectory where
  ks : SecretStore
  filename : H128 → Str
  m_path : Str
  files : AList fun _ : Str => Str

namespace StoreDirectory

variable (env : DirectoryEnv) (d : StoreDirectory)

/-- The file of a key: `(_keysPath / uuid).string() + ".json"`. -/
def keyPath (path : Str) (uuid : H128) : Str := Path.append path (toUUID uuid) ++ ".json".toList

/-- The object that is written for a key. -/
def fileObject (uuid : H128) (key : EncryptedKey) : List (Str × Json) :=
  let crypto := (JsonSpirit.readString env.locale key.encryptedKey).2
  let v := Json.assign [] "address".toList (.str key.address.hex)
  let v := Json.assign v "crypto".toList crypto
  let v := Json.assign v "id".toList (.str (toUUID uuid))
  Json.assign v "version".toList (.int KeyFile.c_keyFileVersion)

/-- The text that is written for a key. -/
def fileContent (uuid : H128) (key : EncryptedKey) : Str :=
  JsonSpirit.writeString env.locale (.obj (fileObject env uuid key)) true

/-- The loop of `save`, on one key. -/
def writeKey (path : Str) (d : StoreDirectory) (uuid : H128) : StoreDirectory :=
  match d.ks.m_keys.lookup uuid with
  | none => d
  | some key =>
    let filename := keyPath path uuid
    let files := d.files.insert filename (fileContent env uuid key)
    -- The names are swapped, and the file with the old name goes.
    let old := d.filename uuid
    { d with
      filename := Function.update d.filename uuid filename
      files := if old ≠ [] ∧ old ≠ filename then files.erase old else files }

/-- `SecretStore::save` to a path. -/
def saveTo (path : Str) (order : VisitOrder H128) : StoreDirectory :=
  if path = [] then d else (order.visit d.ks.keys).foldl (writeKey env path) d

/-- `SecretStore::save`. -/
def save (order : VisitOrder H128) : StoreDirectory := d.saveTo env d.m_path order

/-- `SecretStore::readKeyContent`. -/
def readKeyContent (content file : Str) : StoreDirectory × H128 :=
  match readKeyFile env.toStoreEnv.toJsonSpirit content with
  | none => (d, .zero 16)
  | some (uuid, key) =>
    ({ d with
      ks := { d.ks with m_keys := d.ks.m_keys.insert uuid key }
      filename := Function.update d.filename uuid file }, uuid)

/-- `contentsString`, which is empty for a file that is not there. -/
def contentsString (file : Str) : Str := (d.files.lookup file).getD []

/-- `SecretStore::readKey`. -/
def readKey (file : Str) (takeFileOwnership : Bool) : StoreDirectory × H128 :=
  d.readKeyContent env (d.contentsString file) (if takeFileOwnership then file else [])

/-- `SecretStore::load`. An empty path is no directory. -/
def load (listing : VisitOrder Str) : StoreDirectory :=
  if d.m_path = [] then d
  else (listing.visit (d.files.keys.filter (Path.isChild d.m_path))).foldl
    (fun d file => (d.readKey env file true).1) d

/-- `SecretStore::SecretStore(path)`. -/
def new (path : Str) (files : AList fun _ : Str => Str) (listing : VisitOrder Str) :
    StoreDirectory :=
  load env ⟨.new, fun _ => [], path, files⟩ listing

/-- `SecretStore::setPath`, which keeps the keys there are. -/
def setPath (path : Str) (listing : VisitOrder Str) : StoreDirectory :=
  load env { d with m_path := path } listing

/-- `SecretStore::importKeyContent`. -/
def importKeyContent (content : Str) (order : VisitOrder H128) : StoreDirectory × H128 :=
  let (d, ret) := d.readKeyContent env content []
  (if ret.toBool then d.save env order else d, ret)

/-- `SecretStore::importKey`, of a file that stays where it is. -/
def importKey (file : Str) (order : VisitOrder H128) : StoreDirectory × H128 :=
  let (d, ret) := d.readKey env file false
  (if ret.toBool then d.save env order else d, ret)

/-- `SecretStore::importSecret`; `r` and `random` are drawn. The file name is no path in
    the directory before the key is saved. `none` stands for the exception of `encrypt`. -/
def importSecret (s : List UInt8) (pass : Str) (r : H128) (random : List UInt8)
    (order : VisitOrder H128) : StoreDirectory × Option H128 :=
  if env.encrypt s pass random = [] then (d, none)
  else
    let d := { d with
      ks := (d.ks.importSecret env.toStoreEnv s pass r random).1
      filename := Function.update d.filename r (toUUID r) }
    (d.save env order, some r)

/-- `SecretStore::kill`. -/
def kill (uuid : H128) : StoreDirectory where
  ks := d.ks.kill uuid
  filename := Function.update d.filename uuid []
  m_path := d.m_path
  files := if d.ks.contains uuid then d.files.erase (d.filename uuid) else d.files

/-- `SecretStore::secret`. -/
def secret (uuid : H128) (pass : Str) (useCache : Bool) : StoreDirectory × List UInt8 :=
  let (ks, key) := d.ks.secret env.toStoreEnv uuid pass useCache
  ({ d with ks }, key)

/-- `SecretStore::clearCache`. -/
def clearCache : StoreDirectory := { d with ks := { d.ks with m_cached := ∅ } }

/-- `SecretStore::noteAddress`. -/
def noteAddress (uuid : H128) (address : FixedHash 20) : StoreDirectory × Bool :=
  let (ks, noted) := d.ks.noteAddress uuid address
  ({ d with ks }, noted)

/-- `SecretStore::recode`. `none` stands for the exception of `encrypt`. -/
def recode (uuid : H128) (newPass pass : Str) (random : List UInt8) (order : VisitOrder H128) :
    StoreDirectory × Option Bool :=
  match d.ks.secret env.toStoreEnv uuid pass true with
  | (ks, []) => ({ d with ks }, some false)
  | (ks, b :: s) =>
    -- The secret leaves the cache before it is encrypted.
    let ks := { ks with m_cached := ks.m_cached.erase uuid }
    let text := env.encrypt (b :: s) newPass random
    if text = [] then ({ d with ks }, none)
    else
      let key := { ks.storedKey uuid with encryptedKey := text }
      let d := { d with ks := { ks with m_keys := ks.m_keys.insert uuid key } }
      (d.save env order, some true)

/-! ### Keys by address -/

/-- `SecretStore::key`: the first one with the address. -/
def key (address : FixedHash 20) (order : VisitOrder H128) : Option H128 :=
  (order.visit d.ks.keys).find? fun uuid => d.ks.address uuid = address

/-- `SecretStore::secret` by address, which neither reads nor writes the cache. -/
def secretByAddress (address : FixedHash 20) (pass : Str) (order : VisitOrder H128) : List UInt8 :=
  match d.key address order with
  | none => []
  | some uuid => env.decrypt (d.ks.storedKey uuid).encryptedKey pass

/-- `SecretStore::recode` by address, which leaves the cache as it is. `none` stands for the
    exception of `encrypt`. -/
def recodeByAddress (address : FixedHash 20) (newPass pass : Str) (random : List UInt8)
    (order : VisitOrder H128) : StoreDirectory × Option Bool :=
  match d.key address order with
  | none => (d, some false)
  | some uuid =>
    match d.secretByAddress env address pass order with
    | [] => (d, some false)
    | b :: s =>
      let text := env.encrypt (b :: s) newPass random
      if text = [] then (d, none)
      else
        let key := { d.ks.storedKey uuid with encryptedKey := text }
        let d := { d with ks := { d.ks with m_keys := d.ks.m_keys.insert uuid key } }
        (d.save env order, some true)

end StoreDirectory

end ConfluxSdk
