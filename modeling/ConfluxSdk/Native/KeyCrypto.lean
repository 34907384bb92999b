import ConfluxSdk.Native.JsonSpirit
import ConfluxSdk.Native.Rlp
import ConfluxSdk.Native.SecretStore

/-!
# Encrypted keys

Model of `SecretStore::encrypt`, `SecretStore::decrypt` and what they use of
`libdevcrypto/Common.cpp`: the derivation of a key from a passphrase, AES in counter mode
and the code that tells a wrong passphrase. The block cipher, the derivation functions and
Keccak are parameters; the salt and the initial vector that are drawn are arguments.
-/

namespace ConfluxSdk

/-- What is thrown while a key is encrypted or decrypted: `crypto::CryptoException`, the
    exception of a json_spirit value of another type, and `BadHexCharacter`. -/
inductive KeyError where
  | cryptoException (comment : Str)
  | valueType
  | badHexCharacter
  deriving DecidableEq, Repr

/-- The functions of `CryptoPP` and `libscrypt`, and `dev::sha3`. The derivation functions
    fill a buffer of the length they are given. -/
structure KeyCrypto where
  /-- `PKCS5_PBKDF2_HMAC<SHA256>::DeriveKey`: the rounds that were made, and the key. -/
  deriveKey : Str → List UInt8 → Nat → Nat → Nat × List UInt8
  deriveKey_length : ∀ pass salt iterations dkLen,
    (deriveKey pass salt iterations dkLen).2.length = dkLen
  /-- `libscrypt_scrypt`: its result, which is zero for success, and the key. -/
  libscrypt : Str → List UInt8 → Nat → Nat → Nat → Nat → Int × List UInt8
  libscrypt_length : ∀ pass salt n r p dkLen, (libscrypt pass salt n r p dkLen).2.length = dkLen
  /-- AES on one block. -/
  aes : List UInt8 → FixedHash 16 → FixedHash 16
  sha3 : List UInt8 → FixedHash 32

/-- `KDF`. -/
inductive KDF where
  | pbkdf2Sha256
  | scrypt
  deriving DecidableEq, Repr

namespace FixedHash

/-- The constructor from bytes with `AlignLeft`. -/
def ofBytesLeft (n : Nat) (b : List UInt8) : FixedHash n where
  bytes := b.take n ++ List.replicate (n - b.length) 0
  size_eq := by
    rw [List.length_append, List.length_take, List.length_replicate]
    omega

/-- The constructor from bytes with `AlignRight`. -/
def ofBytesRight (n : Nat) (b : List UInt8) : FixedHash n where
  bytes := List.replicate (n - b.length) 0 ++ b.drop (b.length - n)
  size_eq := by
    rw [List.length_append, List.length_drop, List.length_replicate]
    omega

end FixedHash

namespace KeyCrypto

variable (lib : KeyCrypto)

/-- `dev::pbkdf2`. -/
def pbkdf2 (pass : Str) (salt : List UInt8) (iterations dkLen : Nat) :
    Except KeyError (List UInt8) :=
  let (made, ret) := lib.deriveKey pass salt iterations dkLen
  if made ≠ iterations then .error (.cryptoException "Key derivation failed.".toList) else .ok ret

/-- `dev::scrypt`. -/
def scrypt (pass : Str) (salt : List UInt8) (n r p dkLen : Nat) : Except KeyError (List UInt8) :=
  let (result, ret) := lib.libscrypt pass salt n r p dkLen
  if result ≠ 0 then .error (.cryptoException "Key derivation failed.".toList) else .ok ret

/-! ### Counter mode -/

/-- The key stream of counter mode: the blocks from the initial vector on, enciphered. -/
def keyStream (key : List UInt8) (iv : FixedHash 16) (length : Nat) : List UInt8 :=
  ((List.range ((length + 15) / 16)).flatMap fun i =>
    let counter := BigEndian.fixed 16 (BigEndian.toNat iv.bytes + i)
    (lib.aes key ⟨counter, BigEndian.length_fixed _ _⟩).bytes).take length

/-- `ProcessData` of `CTR_Mode<AES>`, which is the same for both directions. -/
def processData (key : List UInt8) (iv : FixedHash 16) (data : List UInt8) : List UInt8 :=
  List.zipWith (· ^^^ ·) data (lib.keyStream key iv data.length)

/-- `encryptAES128CTR` and `decryptAES128CTR`. -/
def aes128CTR (k : List UInt8) (iv : FixedHash 16) (data : List UInt8) : List UInt8 :=
  if k.length ≠ 16 ∧ k.length ≠ 24 ∧ k.length ≠ 32 then [] else lib.processData k iv data

/-- `encryptSymNoAuth`. -/
def encryptSymNoAuth (k iv : FixedHash 16) (plain : List UInt8) : List UInt8 :=
  lib.aes128CTR k.bytes iv plain

/-- `decryptSymNoAuth`. -/
def decryptSymNoAuth (k iv : FixedHash 16) (cipher : List UInt8) : List UInt8 :=
  lib.aes128CTR k.bytes iv cipher

/-! ### Encryption -/

/-- `deriveNewKey`, with the members it adds to the object. -/
def deriveNewKey (pass : Str) (kdf : KDF) (salt : List UInt8) :
    Except KeyError (List UInt8) × List (Str × Json) :=
  let dklen : Nat := 32
  let iterations : Nat := 2 ^ 18
  match kdf with
  | .scrypt =>
    let p : Nat := 1
    let r : Nat := 8
    let params := Json.assign [] "n".toList (.int iterations)
    let params := Json.assign params "r".toList (.int r)
    let params := Json.assign params "p".toList (.int p)
    let params := Json.assign params "dklen".toList (.int dklen)
    let params := Json.assign params "salt".toList (.str (Dev.toHex salt))
    let ret := Json.assign [] "kdf".toList (.str "scrypt".toList)
    (lib.scrypt pass salt iterations r p dklen, Json.assign ret "kdfparams".toList (.obj params))
  | .pbkdf2Sha256 =>
    let params := Json.assign [] "prf".toList (.str "hmac-sha256".toList)
    let params := Json.assign params "c".toList (.int iterations)
    let params := Json.assign params "salt".toList (.str (Dev.toHex salt))
    let params := Json.assign params "dklen".toList (.int dklen)
    let ret := Json.assign [] "kdf".toList (.str "pbkdf2".toList)
    (lib.pbkdf2 pass salt iterations dklen, Json.assign ret "kdfparams".toList (.obj params))

/-- The object that `encrypt` writes, without the members of the key derivation. -/
def encryptObject (derivedKey : List UInt8) (ret : List (Str × Json)) (iv : FixedHash 16)
    (v : List UInt8) : Except KeyError (List (Str × Json)) :=
  let ret := Json.assign ret "cipher".toList (.str "aes-128-ctr".toList)
  let key := FixedHash.ofBytesLeft 16 derivedKey
  let params := Json.assign [] "iv".toList (.str iv.hex)
  let ret := Json.assign ret "cipherparams".toList (.obj params)
  let cipherText := lib.encryptSymNoAuth key iv v
  if cipherText = [] then .error (.cryptoException "Key encryption failed.".toList)
  else
    let ret := Json.assign ret "ciphertext".toList (.str (Dev.toHex cipherText))
    -- The second half of the derived key goes into the code, the first half is the key.
    let mac := lib.sha3 (Rlp.cropped derivedKey 16 16 ++ cipherText)
    .ok (Json.assign ret "mac".toList (.str mac.hex))

variable (env : JsonLocale)

/-- `SecretStore::encrypt`. -/
def encrypt (v : List UInt8) (pass : Str) (kdf : KDF) (salt : List UInt8) (iv : FixedHash 16) :
    Except KeyError Str := do
  let (derived, ret) := lib.deriveNewKey pass kdf salt
  let derivedKey ← derived
  if derivedKey = [] then .error (.cryptoException "Key derivation failed.".toList)
  else do
    let ret ← lib.encryptObject derivedKey ret iv v
    .ok (JsonSpirit.writeString env (.obj ret) true)

/-! ### Decryption -/

/-- `get_str`, with its exception. -/
def getStr (v : Json) : Except KeyError Str :=
  match v.get_str with
  | some s => .ok s
  | none => .error .valueType

/-- `get_obj`, with its exception. -/
def getObj (v : Json) : Except KeyError (List (Str × Json)) :=
  match v.get_obj with
  | some members => .ok members
  | none => .error .valueType

/-- `get_int`, with its exception: an `int`. -/
def getInt (v : Json) : Except KeyError Int :=
  match v.get_int with
  | some n => .ok (n.bmod (2 ^ 32))
  | none => .error .valueType

/-- An `int` that is passed as an unsigned number of some bits. -/
def toUnsigned (bits : Nat) (n : Int) : Nat := (n % 2 ^ bits).toNat

/-- The constructor of a hash from a hex text, with its exception. -/
def hashOfHex (n : Nat) (s : Str) : Except KeyError (FixedHash n) :=
  match FixedHash.ofHex n s with
  | some h => .ok h
  | none => .error .badHexCharacter

/-- `fromHex`, which gives no bytes for a bad text. -/
def fromHex (s : Str) : List UInt8 := (Dev.fromHex s).getD []

/-- `derivedKey.ref().cropped(derivedKey.size() - 16)`: nothing of a key that is shorter. -/
def lastHalf (derivedKey : List UInt8) : List UInt8 :=
  if derivedKey.length < 16 then [] else Rlp.croppedFrom derivedKey (derivedKey.length - 16)

/-- The key that a file says to derive; `none` for a method that is not supported. -/
def deriveOldKey (o : List (Str × Json)) (pass : Str) : Except KeyError (Option (List UInt8)) := do
  let kdf ← getStr (Json.member o "kdf")
  if kdf = "pbkdf2".toList then do
    let params ← getObj (Json.member o "kdfparams")
    let prf ← getStr (Json.member params "prf")
    if prf ≠ "hmac-sha256".toList then .ok none
    else do
      let iterations ← getInt (Json.member params "c")
      let salt ← getStr (Json.member params "salt")
      let dklen ← getInt (Json.member params "dklen")
      let key ← lib.pbkdf2 pass (fromHex salt) (toUnsigned 32 iterations) (toUnsigned 32 dklen)
      .ok (some key)
  else if kdf = "scrypt".toList then do
    let p ← getObj (Json.member o "kdfparams")
    let salt ← getStr (Json.member p "salt")
    let n ← getInt (Json.member p "n")
    let r ← getInt (Json.member p "r")
    let p' ← getInt (Json.member p "p")
    let dklen ← getInt (Json.member p "dklen")
    let key ← lib.scrypt pass (fromHex salt) (toUnsigned 64 n) (toUnsigned 32 r)
      (toUnsigned 32 p') (toUnsigned 32 dklen)
    .ok (some key)
  else .ok none

/-- `o.count("compat") && o["compat"].get_str() == "2"`. -/
def isCompat2 (o : List (Str × Json)) : Except KeyError Bool :=
  if Json.count o "compat" then do
    let compat ← getStr (Json.member o "compat")
    .ok (compat = "2".toList)
  else .ok false

/-- The check of the code; a file without one passes. -/
def checkMac (o : List (Str × Json)) (derivedKey cipherText : List UInt8) :
    Except KeyError Bool := do
  if Json.count o "mac" then do
    let text ← getStr (Json.member o "mac")
    let mac ← hashOfHex 32 text
    let compat ← isCompat2 o
    let macExp := if compat then lib.sha3 (lastHalf derivedKey ++ cipherText)
      else lib.sha3 (Rlp.cropped derivedKey 16 16 ++ cipherText)
    .ok (mac = macExp)
  else if Json.count o "sillymac" then do
    let text ← getStr (Json.member o "sillymac")
    let mac ← hashOfHex 32 text
    let json ← getStr (Json.member o "sillymacjson")
    let macExp := lib.sha3 (json.map (fun c => UInt8.ofNat c.toNat) ++ lastHalf derivedKey ++ cipherText)
    .ok (mac = macExp)
  else .ok true

/-- The decryption proper. -/
def decipher (o : List (Str × Json)) (derivedKey cipherText : List UInt8) :
    Except KeyError (List UInt8) := do
  let cipher ← getStr (Json.member o "cipher")
  if cipher = "aes-128-ctr".toList then do
    let params ← getObj (Json.member o "cipherparams")
    let text ← getStr (Json.member params "iv")
    let iv ← hashOfHex 16 text
    let compat ← isCompat2 o
    if compat then
      .ok (lib.decryptSymNoAuth
        (.ofBytesRight 16 (lib.sha3 (lastHalf derivedKey)).bytes) iv cipherText)
    else .ok (lib.decryptSymNoAuth (.ofBytesLeft 16 derivedKey) iv cipherText)
  else .ok []

/-- `SecretStore::decrypt`, on the object of the text. No bytes are returned where a
    warning is written. -/
def decryptObject (o : List (Str × Json)) (pass : Str) : Except KeyError (List UInt8) := do
  match ← lib.deriveOldKey o pass with
  | none => .ok []
  | some derivedKey => do
    let compat ← if derivedKey.length < 32 then isCompat2 o else .ok true
    if !compat then .ok []
    else do
      let text ← getStr (Json.member o "ciphertext")
      let cipherText := fromHex text
      let good ← lib.checkMac o derivedKey cipherText
      if good then lib.decipher o derivedKey cipherText else .ok []

/-- `SecretStore::decrypt`. -/
def decrypt (v : Str) (pass : Str) : Except KeyError (List UInt8) := do
  let o ← getObj (JsonSpirit.readString env v).2
  lib.decryptObject o pass

/-- `SecretStore::secret` of the content of a key file. -/
def secretOfContent (content pass : Str) : List UInt8 :=
  match KeyFile.upgraded (JsonSpirit.ofLocale env) content with
  | some (.obj u) =>
    match lib.decrypt env (JsonSpirit.writeString env (Json.member u "crypto") false) pass with
    | .ok key => key
    | .error _ => []
  | _ => []

/-- The cipher of a secret store, with the key derivation it encrypts with. What is drawn is
    the salt and the initial vector; an exception leaves no text and no key. -/
def cipher (kdf : KDF) : Cipher where
  encrypt v pass random :=
    match lib.encrypt env v pass kdf (random.take 32) (.ofBytesLeft 16 (random.drop 32)) with
    | .ok text => text
    | .error _ => []
  decrypt v pass :=
    match lib.decrypt env v pass with
    | .ok key => key
    | .error _ => []

end KeyCrypto

end ConfluxSdk
