import ConfluxSdk.Native.JsonCpp
import ConfluxSdk.Spec.AddressCache
import ConfluxSdk.Spec.AddressCase
import ConfluxSdk.Spec.KeyCryptoCorrect
import ConfluxSdk.Spec.QuantityInt
import ConfluxSdk.Spec.SignatureFields

/-!
# Texts that a node writes

A node writes quantities, hashes, bytes and addresses into its replies, and the readers of
members get them back: all of them but indices that are no `int`.

## Key results

- `jsMem2Hash_toJSHash`, `jsMem2U256_toJS`, `jsMem2Uint64_toJS`, `jsMem2Bytes_toHex`,
  `ChainAddress.jsMem2CfxAddress_text`: what is read of a text that a node writes
-/

namespace ConfluxSdk

/-! ### Hashes, quantities and bytes -/

/-- An index as it is read: it has to be an `int`. -/
def readIndex (n : UInt64) : Nat := if n.toNat < 2 ^ 31 then n.toNat else 0

/-- A text of bytes without digits is one of no bytes. -/
theorem Dev.eq_nil_of_short {d : List UInt8} (h : ¬ ("0x".toList ++ toHex d).length > 2) :
    d = [] := by
  have hcount := (Hex.encodeToString_digits d).1
  have htwo : "0x".toList.length = 2 := rfl
  rw [List.length_append, toHex, hcount, htwo] at h
  exact List.length_eq_zero_iff.mp (by omega)

theorem Dev.jsToFixed_toJSHash (boost : Boost) {n : Nat} (hn : 2 * n < 2 ^ 32) (h : FixedHash n) :
    jsToFixed boost n (toJSHash h) = some h := by
  have hlen : (Dev.toJSHash h).length = 2 + 2 * n := by
    rw [Dev.toJSHash, FixedHash.hex, List.length_append, Dev.toHex,
      (Hex.encodeToString_digits h.bytes).1, h.size_eq]
    rfl
  -- Nothing is cropped.
  have hcrop : 2 + max (n * 2) (((toJSHash h).length - 2) % 2 ^ 32) - n * 2 = 2 := by
    rw [hlen]
    omega
  have htake : (toJSHash h).take 2 = "0x".toList := rfl
  have hdrop : (toJSHash h).drop 2 = h.hex := rfl
  rw [jsToFixed, if_pos htake, hcrop, hdrop, FixedHash.ofHex, FixedHash.hex, Dev.fromHex_toHex,
    Option.map_some, FixedHash.ofBytes_bytes]

/-- Texts of hashes are read back in order. -/
theorem readHashes_toJSHash (boost : Boost) {n : Nat} (hn : 2 * n < 2 ^ 32)
    (hashes : List (FixedHash n)) :
    readHashes boost n (hashes.map fun h => .stringValue (Dev.toJSHash h)) = some hashes := by
  induction hashes with
  | nil => rfl
  | cons h hashes ih =>
    rw [List.map_cons, readHashes, JsonCpp.asString, Option.bind_eq_bind, Option.bind_some,
      Option.bind_eq_bind, Dev.jsToFixed_toJSHash boost hn, Option.bind_some, ih]
    rfl

section Members

variable (boost : Boost) {js : JsonMembers} {mem : Str}

theorem jsMem2Hash_toJSHash {n : Nat} (hn : 2 * n < 2 ^ 32) {h : FixedHash n}
    (hmem : jsStringValue js mem = some (Dev.toJSHash h)) (v : FixedHash n) :
    jsMem2Hash boost n js mem v = some (true, h) := by
  rw [jsMem2Hash, hmem]
  dsimp only
  rw [Dev.jsToFixed_toJSHash boost hn]
  rfl

theorem jsMem2U256_toJS {n : U256} (hmem : jsStringValue js mem = some (Dev.toJS n)) (v : U256) :
    jsMem2U256 boost js mem v = some (true, n) := by
  have hlen : (Nat.toDigits 16 (n : Nat)).length ≤ 64 := by
    rw [Nat.length_toDigits_le_iff (by decide) (by decide)]
    exact n.isLt
  rw [jsMem2U256, hmem]
  dsimp only
  rw [Dev.toJS_eq, Dev.jsToU256_hex boost (isHexText_toDigits n) hlen, digitsValue_toDigits,
    Option.map_some, Fin.ofNat_eq_cast, Fin.cast_val_eq_self]

theorem jsMem2Uint64_toJS {n : UInt64} (hmem : jsStringValue js mem = some (Dev.toJS n.toNat))
    (v : Nat) : jsMem2Uint64 64 js mem v = (true, readIndex n) := by
  rw [jsMem2Uint64, hmem]
  dsimp only
  rw [Dev.jsToInt_quantity (isQuantity_toJS n.toNat), readIndex]
  split
  · rw [castUint64_of_nonneg 64 n.toNat_lt, Nat.mod_eq_of_lt n.toNat_lt]
  · rfl

theorem jsMem2Bytes_toHex {d : List UInt8}
    (hmem : jsStringValue js mem = some ("0x".toList ++ Dev.toHex d)) :
    jsMem2Bytes js mem [] = (true, d) := by
  have hdrop : ("0x".toList ++ Dev.toHex d).drop 2 = Hex.encodeToString d := rfl
  rw [jsMem2Bytes, hmem]
  dsimp only
  split
  · rw [hdrop, Hex.decodeString_encodeToString]
  · -- Without digits there are no bytes.
    rename_i hshort
    rw [Dev.eq_nil_of_short hshort]

end Members

/-! ### Addresses -/

/-- Twenty bytes of an address, of one of the types there are. -/
structure ChainAddress where
  bytes : FixedHash 20
  valid : calcAddressType bytes.bytes ≠ .invalid

namespace ChainAddress

variable (a : ChainAddress) (networkID : UInt32)

/-- The address on a network. -/
def onNetwork : Address := .ofBytes a.bytes.bytes networkID

/-- The text of the address, in capital letters. -/
def text : Str := toupper_string (a.onNetwork networkID).verboseText

theorem consistent_onNetwork : (a.onNetwork networkID).Consistent :=
  Address.consistent_ofBytes a.bytes.size_eq _

variable {networkID}

/-- The text of an address is read back. -/
theorem jsMem2CfxAddress_text (hid : networkID.toNat < 2 ^ 31) {js : JsonMembers} {mem : Str}
    (hmem : jsStringValue js mem = some (a.text networkID)) (v : Address) :
    jsMem2CfxAddress js mem v = some (true, a.onNetwork networkID) := by
  have hparsed : Address.construct (tolower_string (a.text networkID)) NetworkType.testnetID =
      .ok (a.onNetwork networkID) := by
    rw [construct_tolower, text, construct_toupper]
    exact ((a.consistent_onNetwork networkID).parses a.valid
      (NetworkType.isNetName_ofID hid) _).2.1
  rw [jsMem2CfxAddress, hmem]
  dsimp only
  rw [hparsed]
  rfl

end ChainAddress

end ConfluxSdk
