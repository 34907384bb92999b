import ConfluxSdk.ForStd.OrderedMap
import ConfluxSdk.Native.CommonData

/-!
# Key files

Model of the part of `libdevcrypto/SecretStore.cpp` that reads a key file: the upgrade
of old versions and the members that are taken from the JSON object. Parsing and
printing of JSON are those of `json_spirit`, here a `JsonSpirit`.

Everything is read under `catch (...)`, so an exception is `none`.
-/

namespace ConfluxSdk

/-- `json_spirit::mValue`; the members of an object are ordered by name. -/
inductive Json where
  | null
  | bool (b : Bool)
  | int (n : Int)
  | real (x : Float)
  | str (s : Str)
  | arr (values : List Json)
  | obj (members : List (Str × Json))

/-- `js::read_string`, which leaves a null value when the text is no JSON, and
    `js::write_string`. -/
structure JsonSpirit where
  read_string : Str → Json
  write_string : Json → Str

namespace Json

/-- `get_str`, which throws on other types. -/
def get_str : Json → Option Str
  | str s => some s
  | _ => none

/-- `get_int`. -/
def get_int : Json → Option Int
  | int n => some n
  | _ => none

/-- `get_obj`. -/
def get_obj : Json → Option (List (Str × Json))
  | obj members => some members
  | _ => none

/-- `operator[]` of an object: a missing member is null. -/
def member (members : List (Str × Json)) (name : String) : Json :=
  (members.lookup name.toList).getD null

/-- `count`. -/
def count (members : List (Str × Json)) (name : String) : Bool :=
  (members.lookup name.toList).isSome

/-- An assignment to a member. -/
def assign (members : List (Str × Json)) (name : Str) (value : Json) : List (Str × Json) :=
  OrderedMap.insertEntry id name value members

end Json

namespace KeyFile

open Json (member count assign)

/-- `c_keyFileVersion`. -/
def c_keyFileVersion : Int := 3

/-- The version of a key file. -/
def version (ret : List (Str × Json)) : Option Int :=
  -- Old files spell the member with a capital letter, and its value is a text.
  if count ret "Version" then do
    let text ← (member ret "Version").get_str
    (stoi text).toOption
  else if count ret "version" then (member ret "version").get_int
  else some 0

/-- The parameters of the key derivation of a file of version 1. -/
def upgradeKdfParams (salt : Json) (old : List (Str × Json)) : List (Str × Json) :=
  old.foldl (fun kp i =>
    if i.1 ≠ "SaltLen".toList then assign kp (tolower_string i.1) i.2 else kp)
    (assign [] "salt".toList salt)

/-- The object of a file of version 1, in the form of version 2. -/
def upgradeVersion1 (text : Str) (old : List (Str × Json)) : Option (List (Str × Json)) := do
  let crypto ← (member old "Crypto").get_obj
  let keyHeader ← (member crypto "KeyHeader").get_obj
  let kdfParams ← (member keyHeader "KdfParams").get_obj
  let c := assign [] "ciphertext".toList (member crypto "CipherText")
  let c := assign c "cipher".toList (.str "aes-128-cbc".toList)
  let c := assign c "cipherparams".toList (.obj (assign [] "iv".toList (member crypto "IV")))
  let c := assign c "kdf".toList (member keyHeader "Kdf")
  let c := assign c "kdfparams".toList (.obj (upgradeKdfParams (member crypto "Salt") kdfParams))
  let c := assign c "sillymac".toList (member crypto "MAC")
  let c := assign c "sillymacjson".toList (.str text)
  some (assign (assign [] "id".toList (member old "Id")) "crypto".toList (.obj c))

/-- The spelling `Crypto` of the member `crypto`. -/
def renameCrypto (ret : List (Str × Json)) : List (Str × Json) :=
  if count ret "Crypto" && !count ret "crypto" then
    -- The member moves to its new name.
    (assign ret "crypto".toList (member ret "Crypto")).filter (·.1 ≠ "Crypto".toList)
  else ret

/-- The object of a file of version 2, in the form of version 3. -/
def upgradeVersion2 (ret : List (Str × Json)) : Option (List (Str × Json)) := do
  let crypto ← (member ret "crypto").get_obj
  let crypto := assign crypto "cipher".toList (.str "aes-128-ctr".toList)
  let crypto := assign crypto "compat".toList (.str "2".toList)
  some (assign ret "crypto".toList (.obj crypto))

/-- `upgraded`, on an object. -/
def upgradedObject (text : Str) (ret : List (Str × Json)) : Option Json :=
  match version ret with
  | none => none
  | some 1 => do
    let ret ← upgradeVersion1 text ret
    let ret ← upgradeVersion2 (renameCrypto ret)
    some (.obj ret)
  | some 2 => do
    let ret ← upgradeVersion2 (renameCrypto ret)
    some (.obj ret)
  -- Any other version is none that can be read.
  | some v => some (if v = c_keyFileVersion then .obj (renameCrypto ret) else .null)

/-- `upgraded`. -/
def upgraded (js : JsonSpirit) (text : Str) : Option Json :=
  match js.read_string text with
  | .obj ret => upgradedObject text ret
  | _ => some .null

/-- `Address address`, as it is read from the member `address`: zero where it is missing or
    no hex text, and where it does not have twenty bytes. -/
def readAddress (o : List (Str × Json)) : Option (FixedHash 20) :=
  if count o "address" then do
    let text ← (member o "address").get_str
    if Dev.isHex text then FixedHash.ofHex 20 text else some (.zero 20)
  else some (.zero 20)

end KeyFile

/-- `SecretStore::EncryptedKey`, without the name of its file. -/
structure EncryptedKey where
  encryptedKey : Str
  address : FixedHash 20
  deriving DecidableEq, Repr

/-- The key and its uuid that `readKeyContent` takes from a text, if it takes one. -/
def readKeyFile (js : JsonSpirit) (content : Str) : Option (H128 × EncryptedKey) :=
  match KeyFile.upgraded js content with
  | some (.obj o) => do
    let id ← (Json.member o "id").get_str
    let address ← KeyFile.readAddress o
    some (fromUUID id, ⟨js.write_string (Json.member o "crypto"), address⟩)
  | _ => none

end ConfluxSdk
