import ConfluxSdk.Native.KeyCrypto
import ConfluxSdk.Spec.AddressBytes
import ConfluxSdk.Spec.JsonSpiritCorrect

/-!
# Encrypted keys are decrypted by their passphrase

A text that `encrypt` returns is read as the object that was written, the key is derived
from the passphrase in the same way, and counter mode undoes itself. Another passphrase
is refused unless the code of the file, which is a hash, comes out the same.

## Key results

- `KeyCrypto.processData_processData`: counter mode undoes itself
- `Dev.fromHex_toHex`, `Json.member_assign`: the texts and members that are read back
- `KeyCrypto.decryptObject_encryptObject`: what any passphrase makes of an encrypted key
-/

namespace ConfluxSdk

/-! ### Hex texts -/

namespace Dev

private theorem nibbles (b : UInt8) :
    (b >>> 4).toNat = b.toNat / 16 ∧ (b &&& 0x0f).toNat = b.toNat % 16 := by
  constructor
  · rw [UInt8.toNat_shiftRight, Nat.shiftRight_eq_div_pow]
    rfl
  · rw [UInt8.toNat_and]
    exact Nat.and_two_pow_sub_one_eq_mod b.toNat 4

theorem fromHexPairs_encodeByte (b : UInt8) (s : Str) :
    fromHexPairs (Hex.encodeByte b ++ s) = (fromHexPairs s).map (b :: ·) := by
  have htable : ∀ n < 16, Hex.fromHexChar (Hex.hextable.getD n ' ') = some (UInt8.ofNat n) := by
    decide
  have hb := b.toNat_lt
  obtain ⟨hhigh, hlow⟩ := nibbles b
  have hbyte : UInt8.ofNat (b.toNat / 16) * 16 + UInt8.ofNat (b.toNat % 16) = b := by
    apply UInt8.toNat_inj.mp
    rw [UInt8.toNat_add, UInt8.toNat_mul, UInt8.toNat_ofNat', UInt8.toNat_ofNat']
    show (b.toNat / 16 % 256 * 16 % 256 + b.toNat % 16 % 256) % 256 = b.toNat
    omega
  show fromHexPairs (Hex.hextable.getD (b >>> 4).toNat ' ' ::
    Hex.hextable.getD (b &&& 0x0f).toNat ' ' :: s) = _
  rw [hhigh, hlow, fromHexPairs, htable _ (by omega), htable _ (by omega)]
  dsimp only
  rw [hbyte]

theorem fromHexPairs_toHex (data : List UInt8) : fromHexPairs (toHex data) = some data := by
  unfold toHex Hex.encodeToString
  induction data with
  | nil => rfl
  | cons b data ih => rw [List.flatMap_cons, fromHexPairs_encodeByte, ih, Option.map_some]

/-- Bytes are read back from their digits. -/
theorem fromHex_toHex (data : List UInt8) : fromHex (toHex data) = some data := by
  obtain ⟨hlen, hdigits⟩ := Hex.encodeToString_digits data
  have hprefix : "0x".toList.isPrefixOf (toHex data) = false := by
    rw [Bool.eq_false_iff]
    intro h
    obtain ⟨rest, hrest⟩ := List.isPrefixOf_iff_prefix.mp h
    have hx : 'x' ∈ Regex.hexDigits := hdigits 'x' (by
      show 'x' ∈ toHex data
      rw [← hrest]
      simp)
    exact absurd hx (by decide)
  have heven : ¬ (toHex data).length % 2 = 1 := by
    show ¬ (Hex.encodeToString data).length % 2 = 1
    omega
  rw [fromHex, hprefix, if_neg heven]
  exact fromHexPairs_toHex data

theorem ofBytes_toHex (data : List UInt8) : JsonSpirit.OfBytes (toHex data) := by
  intro c hc
  have hall : Regex.hexDigits.all (fun c => c.toNat < 256) = true := by decide
  exact of_decide_eq_true (List.all_eq_true.mp hall c ((Hex.encodeToString_digits data).2 c hc))

end Dev

theorem FixedHash.ofHex_hex {n : Nat} (h : FixedHash n) : FixedHash.ofHex n h.hex = some h := by
  rw [FixedHash.ofHex, FixedHash.hex, Dev.fromHex_toHex, Option.map_some, FixedHash.ofBytes_bytes]

/-! ### Members -/

namespace Json

private theorem lookup_entry (e : Str × Json) (members : List (Str × Json)) (x : Str) :
    (e :: members).lookup x = if x = e.1 then some e.2 else members.lookup x := by
  rw [List.lookup_cons]
  by_cases hx : x = e.1
  · rw [if_pos hx, beq_iff_eq.mpr hx]
  · rw [if_neg hx, beq_eq_false_iff_ne.mpr hx]

/-- A lookup after an assignment. -/
theorem lookup_assign (members : List (Str × Json)) (name x : Str) (v : Json) :
    (assign members name v).lookup x = if x = name then some v else members.lookup x := by
  unfold assign
  induction members with
  | nil => exact lookup_entry _ _ _
  | cons m members ih =>
    rw [OrderedMap.insertEntry]
    split
    · exact lookup_entry _ _ _
    split
    · rename_i hlt
      have hne : m.1 ≠ name := ne_of_lt hlt
      rw [lookup_entry, lookup_entry, ih]
      by_cases hm : x = m.1
      · -- The member that is passed is not the one that is assigned.
        rw [if_pos hm, if_neg (hm ▸ hne), if_pos hm]
      · rw [if_neg hm, if_neg hm]
    · have heq : m.1 = name := le_antisymm (not_lt.mp ‹_›) (not_lt.mp ‹_›)
      rw [lookup_entry, lookup_entry, heq]
      by_cases hx : x = name
      · rw [if_pos hx, if_pos hx]
      · rw [if_neg hx, if_neg hx, if_neg hx]

theorem member_assign (members : List (Str × Json)) (name : Str) (v : Json) (x : String) :
    member (assign members name v) x = if x.toList = name then v else member members x := by
  unfold member
  rw [lookup_assign]
  split
  · rfl
  · rfl

theorem count_assign (members : List (Str × Json)) (name : Str) (v : Json) (x : String) :
    count (assign members name v) x = (decide (x.toList = name) || count members x) := by
  unfold count
  rw [lookup_assign]
  split
  · rename_i h
    rw [decide_eq_true h]
    rfl
  · rename_i h
    rw [decide_eq_false h]
    rfl

end Json

namespace KeyCrypto

variable {lib : KeyCrypto} {env : JsonLocale}

/-! ### Counter mode -/

theorem length_keyStream (key : List UInt8) (iv : FixedHash 16) (n : Nat) :
    (lib.keyStream key iv n).length = n := by
  have hblocks : ∀ (l : List Nat) (f : Nat → FixedHash 16),
      (l.flatMap fun i => (f i).bytes).length = 16 * l.length := by
    intro l f
    induction l with
    | nil => rfl
    | cons i l ih =>
      rw [List.flatMap_cons, List.length_append, ih, (f i).size_eq, List.length_cons]
      omega
  rw [keyStream, List.length_take, hblocks, List.length_range]
  omega

theorem length_processData (key : List UInt8) (iv : FixedHash 16) (data : List UInt8) :
    (lib.processData key iv data).length = data.length := by
  rw [processData, List.length_zipWith, length_keyStream, Nat.min_self]

/-- Exclusive or with the same stream twice. -/
theorem zipWith_xor_cancel {data stream : List UInt8} (h : data.length ≤ stream.length) :
    List.zipWith (· ^^^ ·) (List.zipWith (· ^^^ ·) data stream) stream = data := by
  induction data generalizing stream with
  | nil => rfl
  | cons b data ih =>
    cases stream with
    | nil => exact absurd h (by simp)
    | cons k stream =>
      have hbyte : b ^^^ k ^^^ k = b := by
        rw [UInt8.xor_assoc, UInt8.xor_self, UInt8.xor_zero]
      rw [List.zipWith_cons_cons, List.zipWith_cons_cons, ih (by simpa using h), hbyte]

/-- Counter mode undoes itself. -/
theorem processData_processData (key : List UInt8) (iv : FixedHash 16) (data : List UInt8) :
    lib.processData key iv (lib.processData key iv data) = data := by
  rw [processData, length_processData, processData, zipWith_xor_cancel]
  rw [length_keyStream]

theorem symNoAuth_eq (k iv : FixedHash 16) (data : List UInt8) :
    lib.encryptSymNoAuth k iv data = lib.processData k.bytes iv data ∧
      lib.decryptSymNoAuth k iv data = lib.processData k.bytes iv data := by
  have hsize : ¬ (k.bytes.length ≠ 16 ∧ k.bytes.length ≠ 24 ∧ k.bytes.length ≠ 32) :=
    fun h => h.1 k.size_eq
  exact ⟨if_neg hsize, if_neg hsize⟩

/-! ### The derived key -/

/-- The key that `encrypt` derives. -/
def derive (lib : KeyCrypto) (pass : Str) (kdf : KDF) (salt : List UInt8) :
    Except KeyError (List UInt8) := (lib.deriveNewKey pass kdf salt).1

/-- What `encrypt` says about the derivation. -/
def kdfMembers (lib : KeyCrypto) (kdf : KDF) (salt : List UInt8) : List (Str × Json) :=
  (lib.deriveNewKey [] kdf salt).2

theorem length_derive {pass : Str} {kdf : KDF} {salt dk : List UInt8}
    (h : lib.derive pass kdf salt = .ok dk) : dk.length = 32 := by
  cases kdf with
  | scrypt =>
    unfold derive deriveNewKey at h
    dsimp only [scrypt] at h
    split at h
    · cases h
    · rw [← Except.ok.inj h]
      exact lib.libscrypt_length _ _ _ _ _ _
  | pbkdf2Sha256 =>
    unfold derive deriveNewKey at h
    dsimp only [pbkdf2] at h
    split at h
    · cases h
    · rw [← Except.ok.inj h]
      exact lib.deriveKey_length _ _ _ _

/-- The derivation is repeated from what the file says about it. -/
theorem deriveOldKey_eq {o : List (Str × Json)} {kdf : KDF} {salt : List UInt8}
    (hkdf : Json.member o "kdf" = Json.member (lib.kdfMembers kdf salt) "kdf")
    (hparams : Json.member o "kdfparams" = Json.member (lib.kdfMembers kdf salt) "kdfparams")
    (pass : Str) : lib.deriveOldKey o pass = (lib.derive pass kdf salt).map some := by
  have hsalt : fromHex (Dev.toHex salt) = salt := by
    rw [fromHex, Dev.fromHex_toHex]
    rfl
  unfold deriveOldKey
  rw [hkdf, hparams]
  cases kdf with
  | scrypt =>
    show (lib.scrypt pass (fromHex (Dev.toHex salt)) (2 ^ 18) 8 1 32 >>= fun key => .ok (some key)) = _
    rw [hsalt]
    show _ = (lib.scrypt pass salt (2 ^ 18) 8 1 32).map some
    cases lib.scrypt pass salt (2 ^ 18) 8 1 32 <;> rfl
  | pbkdf2Sha256 =>
    show (lib.pbkdf2 pass (fromHex (Dev.toHex salt)) (2 ^ 18) 32 >>= fun key => .ok (some key)) = _
    rw [hsalt]
    show _ = (lib.pbkdf2 pass salt (2 ^ 18) 32).map some
    cases lib.pbkdf2 pass salt (2 ^ 18) 32 <;> rfl

/-! ### The object -/

/-- The code of a derived key and an encrypted text. -/
def macOf (lib : KeyCrypto) (dk cipherText : List UInt8) : FixedHash 32 :=
  lib.sha3 (dk.drop 16 ++ cipherText)

theorem cropped_second_half {dk : List UInt8} (h : dk.length = 32) :
    Rlp.cropped dk 16 16 = dk.drop 16 := by
  have hsum : sizeT (16 + 16) = 32 := rfl
  rw [Rlp.cropped, hsum, if_pos (by omega), List.take_of_length_le]
  rw [List.length_drop, h]

theorem ofBytesLeft_first_half {dk : List UInt8} (h : dk.length = 32) :
    (FixedHash.ofBytesLeft 16 dk).bytes = dk.take 16 := by
  show dk.take 16 ++ List.replicate (16 - dk.length) 0 = _
  rw [h]
  exact List.append_nil _

/-- What `encrypt` writes: the members by name. -/
structure Encrypted (lib : KeyCrypto) (o : List (Str × Json)) (kdf : KDF) (salt dk : List UInt8)
    (iv : FixedHash 16) (cipherText : List UInt8) : Prop where
  kdf_eq : Json.member o "kdf" = Json.member (lib.kdfMembers kdf salt) "kdf"
  kdfparams_eq : Json.member o "kdfparams" = Json.member (lib.kdfMembers kdf salt) "kdfparams"
  compat_eq : Json.count o "compat" = false
  cipher_eq : Json.member o "cipher" = .str "aes-128-ctr".toList
  cipherparams_eq : Json.member o "cipherparams" =
    .obj (Json.assign [] "iv".toList (.str iv.hex))
  ciphertext_eq : Json.member o "ciphertext" = .str (Dev.toHex cipherText)
  count_mac : Json.count o "mac" = true
  mac_eq : Json.member o "mac" = .str (lib.macOf dk cipherText).hex

theorem encrypted_encryptObject {kdf : KDF} {salt dk v : List UInt8} {iv : FixedHash 16}
    {o : List (Str × Json)} (hdk : dk.length = 32)
    (h : lib.encryptObject dk (lib.kdfMembers kdf salt) iv v = .ok o) :
    lib.Encrypted o kdf salt dk iv (lib.processData (dk.take 16) iv v) := by
  have hcipher : lib.encryptSymNoAuth (FixedHash.ofBytesLeft 16 dk) iv v =
      lib.processData (dk.take 16) iv v := by
    rw [(symNoAuth_eq _ iv v).1, ofBytesLeft_first_half hdk]
  unfold encryptObject at h
  dsimp only at h
  rw [hcipher, cropped_second_half hdk] at h
  split at h
  · cases h
  obtain rfl := Except.ok.inj h
  have hcompat : Json.count (lib.kdfMembers kdf salt) "compat" = false := by
    cases kdf <;> rfl
  constructor
  case compat_eq =>
    simp only [Json.count_assign, hcompat]
    rfl
  case count_mac =>
    rw [Json.count_assign]
    rfl
  all_goals
    simp only [Json.member_assign]
    rfl

/-- What any passphrase makes of an encrypted key: it is decrypted if the code of the key
    derived from the passphrase is that of the file, and nothing is returned otherwise. -/
theorem Encrypted.decryptObject {o : List (Str × Json)} {kdf : KDF}
    {salt dk cipherText : List UInt8} {iv : FixedHash 16}
    (h : lib.Encrypted o kdf salt dk iv cipherText) (pass : Str) :
    lib.decryptObject o pass = (lib.derive pass kdf salt).map fun dk' =>
      if lib.macOf dk cipherText = lib.macOf dk' cipherText then
        lib.processData (dk'.take 16) iv cipherText
      else [] := by
  have hcompat : isCompat2 o = .ok false := by
    rw [isCompat2, h.compat_eq]
    rfl
  have htext : fromHex (Dev.toHex cipherText) = cipherText := by
    rw [fromHex, Dev.fromHex_toHex]
    rfl
  have hhash {n : Nat} (x : FixedHash n) : hashOfHex n x.hex = .ok x := by
    rw [hashOfHex, FixedHash.ofHex_hex]
  unfold KeyCrypto.decryptObject
  rw [deriveOldKey_eq h.kdf_eq h.kdfparams_eq]
  cases hderive : lib.derive pass kdf salt with
  | error e => rfl
  | ok dk' =>
    have hlen := length_derive hderive
    have hcheck : lib.checkMac o dk' cipherText =
        .ok (decide (lib.macOf dk cipherText = lib.macOf dk' cipherText)) := by
      rw [checkMac, if_pos h.count_mac, h.mac_eq]
      show (hashOfHex 32 (lib.macOf dk cipherText).hex >>= _) = _
      rw [hhash]
      show (isCompat2 o >>= _) = _
      rw [hcompat]
      show Except.ok (decide (_ = lib.sha3 (Rlp.cropped dk' 16 16 ++ cipherText))) = _
      rw [cropped_second_half hlen]
      rfl
    have hdecipher : lib.decipher o dk' cipherText =
        .ok (lib.processData (dk'.take 16) iv cipherText) := by
      rw [decipher, h.cipher_eq, h.cipherparams_eq]
      show (hashOfHex 16 iv.hex >>= _) = _
      rw [hhash]
      show (isCompat2 o >>= _) = _
      rw [hcompat]
      show Except.ok (lib.decryptSymNoAuth _ iv cipherText) = _
      rw [(symNoAuth_eq _ iv cipherText).2, ofBytesLeft_first_half hlen]
    show (if dk'.length < 32 then _ else _) = _
    rw [if_neg (by omega)]
    show (getStr (Json.member o "ciphertext") >>= _) = _
    rw [h.ciphertext_eq]
    show (lib.checkMac o dk' (fromHex (Dev.toHex cipherText)) >>= _) = _
    rw [htext, hcheck]
    by_cases hmac : lib.macOf dk cipherText = lib.macOf dk' cipherText
    · rw [decide_eq_true hmac]
      show lib.decipher o dk' cipherText =
        Except.ok (if lib.macOf dk cipherText = lib.macOf dk' cipherText then _ else _)
      rw [hdecipher, if_pos hmac]
    · rw [decide_eq_false hmac]
      show Except.ok [] =
        Except.ok (if lib.macOf dk cipherText = lib.macOf dk' cipherText then _ else _)
      rw [if_neg hmac]

/-! ### The text -/

private theorem wellFormed_empty {realOk : Float → Prop} : (Json.obj []).WellFormed realOk :=
  .obj List.Pairwise.nil (fun _ hm => absurd hm List.not_mem_nil)
    (fun _ hm => absurd hm List.not_mem_nil)

/-- Names of members that are written down in the source. -/
private theorem ofBytes_of_all {s : Str} (h : s.all (fun c => c.toNat < 256) = true) :
    JsonSpirit.OfBytes s := fun c hc => of_decide_eq_true (List.all_eq_true.mp h c hc)

private theorem wellFormed_member {realOk : Float → Prop} {members : List (Str × Json)}
    {name : Str} {v : Json} (h : (Json.obj members).WellFormed realOk)
    (hv : v.WellFormed realOk) (hname : name.all (fun c => c.toNat < 256) = true) :
    (Json.obj (Json.assign members name v)).WellFormed realOk :=
  JsonSpirit.wellFormed_assign h (ofBytes_of_all hname) hv

theorem wellFormed_kdfMembers (lib : KeyCrypto) (realOk : Float → Prop) (kdf : KDF)
    (salt : List UInt8) : (Json.obj (lib.kdfMembers kdf salt)).WellFormed realOk := by
  have hsalt : (Json.str (Dev.toHex salt)).WellFormed realOk := .str (Dev.ofBytes_toHex salt)
  have hint {n : Int} (hlo : -2 ^ 63 ≤ n) (hhi : n < 2 ^ 64) : (Json.int n).WellFormed realOk :=
    .int hlo hhi
  have hstr {s : Str} (h : s.all (fun c => c.toNat < 256) = true) :
      (Json.str s).WellFormed realOk := .str (ofBytes_of_all h)
  cases kdf with
  | scrypt =>
    refine wellFormed_member (wellFormed_member wellFormed_empty (hstr (by decide)) (by decide))
      ?_ (by decide)
    refine wellFormed_member (wellFormed_member (wellFormed_member (wellFormed_member
      (wellFormed_member wellFormed_empty ?_ (by decide)) ?_ (by decide)) ?_ (by decide)) ?_
      (by decide)) hsalt (by decide)
    all_goals exact hint (by decide) (by decide)
  | pbkdf2Sha256 =>
    refine wellFormed_member (wellFormed_member wellFormed_empty (hstr (by decide)) (by decide))
      ?_ (by decide)
    exact wellFormed_member (wellFormed_member (wellFormed_member (wellFormed_member
      wellFormed_empty (hstr (by decide)) (by decide)) (hint (by decide) (by decide)) (by decide))
      hsalt (by decide)) (hint (by decide) (by decide)) (by decide)

theorem wellFormed_encryptObject {realOk : Float → Prop} {kdf : KDF} {salt dk v : List UInt8}
    {iv : FixedHash 16} {o : List (Str × Json)}
    (h : lib.encryptObject dk (lib.kdfMembers kdf salt) iv v = .ok o) :
    (Json.obj o).WellFormed realOk := by
  unfold encryptObject at h
  dsimp only at h
  split at h
  · cases h
  obtain rfl := Except.ok.inj h
  have hhex (data : List UInt8) : (Json.str (Dev.toHex data)).WellFormed realOk :=
    .str (Dev.ofBytes_toHex data)
  refine wellFormed_member (wellFormed_member (wellFormed_member (wellFormed_member
    (wellFormed_kdfMembers lib realOk kdf salt) ?_ (by decide)) ?_ (by decide)) (hhex _)
    (by decide)) (hhex _) (by decide)
  · exact .str (ofBytes_of_all (by decide))
  · exact wellFormed_member wellFormed_empty (hhex _) (by decide)

/-- What a text that `encrypt` returned was written from. -/
theorem encrypt_inv {v : List UInt8} {pass text : Str} {kdf : KDF} {salt : List UInt8}
    {iv : FixedHash 16} (h : lib.encrypt env v pass kdf salt iv = .ok text) :
    ∃ dk o, lib.derive pass kdf salt = .ok dk ∧
      lib.Encrypted o kdf salt dk iv (lib.processData (dk.take 16) iv v) ∧
      (Json.obj o).WellFormed (fun _ => False) ∧
      text = JsonSpirit.writeString env (.obj o) true := by
  have hmembers : (lib.deriveNewKey pass kdf salt).2 = lib.kdfMembers kdf salt := by
    cases kdf <;> rfl
  unfold encrypt at h
  dsimp only at h
  rw [hmembers] at h
  cases hderive : (lib.deriveNewKey pass kdf salt).1 with
  | error e =>
    rw [hderive] at h
    cases h
  | ok dk =>
    rw [hderive] at h
    have hlen : dk.length = 32 := length_derive hderive
    have hne : dk ≠ [] := by
      rintro rfl
      exact absurd hlen (by decide)
    replace h : (if dk = [] then _ else _) = Except.ok text := h
    rw [if_neg hne] at h
    cases hobject : lib.encryptObject dk (lib.kdfMembers kdf salt) iv v with
    | error e =>
      rw [hobject] at h
      cases h
    | ok o =>
      rw [hobject] at h
      exact ⟨dk, o, hderive, encrypted_encryptObject hlen hobject, wellFormed_encryptObject hobject,
        (Except.ok.inj h).symm⟩

theorem readString_encrypted {o : List (Str × Json)} (pretty : Bool)
    (h : (Json.obj o).WellFormed fun _ => False) :
    (JsonSpirit.readString env (JsonSpirit.writeString env (.obj o) pretty)).2 = .obj o := by
  have hend : JsonSpirit.Ends [] := fun c hc => absurd hc (by simp)
  have hread : JsonSpirit.readString env (JsonSpirit.writeString env (.obj o) pretty ++ []) = _ :=
    JsonSpirit.readString_output h pretty hend
  rw [List.append_nil] at hread
  rw [hread]

/-- Decryption looks at the object of the text only. -/
theorem decrypt_of_read {t : Str} {o : List (Str × Json)}
    (h : (JsonSpirit.readString env t).2 = .obj o) (pass : Str) :
    lib.decrypt env t pass = lib.decryptObject o pass := by
  rw [decrypt, h]
  rfl

theorem decrypt_same {v : List UInt8} {pass text : Str} {kdf : KDF} {salt : List UInt8}
    {iv : FixedHash 16} (h : lib.encrypt env v pass kdf salt iv = .ok text) {t : Str}
    (ht : (JsonSpirit.readString env t).2 = (JsonSpirit.readString env text).2) :
    lib.decrypt env t pass = .ok v := by
  obtain ⟨dk, o, hderive, hencrypted, hwf, rfl⟩ := encrypt_inv h
  rw [readString_encrypted true hwf] at ht
  rw [decrypt_of_read ht, hencrypted.decryptObject, hderive]
  show Except.ok (if lib.macOf dk _ = lib.macOf dk _ then _ else _) = _
  rw [if_pos rfl, processData_processData]

/-- A text that `encrypt` returned, or any other text of the same object, is decrypted by
    its passphrase. Any other passphrase is judged by the code of the key derived from it. -/
theorem decrypt_encrypt {v : List UInt8} {pass text : Str} {kdf : KDF} {salt : List UInt8}
    {iv : FixedHash 16} (h : lib.encrypt env v pass kdf salt iv = .ok text) {t : Str}
    (ht : (JsonSpirit.readString env t).2 = (JsonSpirit.readString env text).2) :
    lib.decrypt env t pass = .ok v ∧
      ∃ dk, lib.derive pass kdf salt = .ok dk ∧ ∀ pass',
        lib.decrypt env t pass' = (lib.derive pass' kdf salt).map fun dk' =>
          if lib.macOf dk (lib.processData (dk.take 16) iv v) =
              lib.macOf dk' (lib.processData (dk.take 16) iv v) then
            lib.processData (dk'.take 16) iv (lib.processData (dk.take 16) iv v)
          else [] := by
  refine ⟨decrypt_same h ht, ?_⟩
  obtain ⟨dk, o, hderive, hencrypted, hwf, rfl⟩ := encrypt_inv h
  rw [readString_encrypted true hwf] at ht
  refine ⟨dk, hderive, fun pass' => ?_⟩
  rw [decrypt_of_read ht, hencrypted.decryptObject]

/-! ### The cipher of a store -/

theorem cipher_encrypt_ok {kdf : KDF} {v : List UInt8} {pass text : Str} {random : List UInt8}
    (h : lib.encrypt env v pass kdf (random.take 32) (.ofBytesLeft 16 (random.drop 32)) = .ok text) :
    (lib.cipher env kdf).encrypt v pass random = text := by
  unfold cipher
  dsimp only
  rw [h]

theorem cipher_encrypt_error {kdf : KDF} {v : List UInt8} {pass : Str} {random : List UInt8}
    {e : KeyError}
    (h : lib.encrypt env v pass kdf (random.take 32) (.ofBytesLeft 16 (random.drop 32)) = .error e) :
    (lib.cipher env kdf).encrypt v pass random = [] := by
  unfold cipher
  dsimp only
  rw [h]

theorem cipher_decrypt_congr {kdf : KDF} {t t' : Str}
    (h : (JsonSpirit.readString env t).2 = (JsonSpirit.readString env t').2) (pass : Str) :
    (lib.cipher env kdf).decrypt t pass = (lib.cipher env kdf).decrypt t' pass := by
  unfold cipher
  dsimp only
  rw [decrypt, decrypt, h]

/-- The cipher decrypts what it encrypted, in any text of the same value. -/
theorem cipher_decrypt_encrypt {kdf : KDF} {v : List UInt8} {pass text : Str} {random : List UInt8}
    (h : lib.encrypt env v pass kdf (random.take 32) (.ofBytesLeft 16 (random.drop 32)) = .ok text)
    {t : Str} (ht : (JsonSpirit.readString env t).2 = (JsonSpirit.readString env text).2) :
    (lib.cipher env kdf).decrypt t pass = v := by
  unfold cipher
  dsimp only
  rw [decrypt_same h ht]

/-- A buffer of a given length with a key in front. -/
def buffer (key : List UInt8) (n : Nat) : List UInt8 := (key ++ List.replicate n 0).take n

theorem length_buffer (key : List UInt8) (n : Nat) : (buffer key n).length = n := by
  rw [buffer, List.length_take, List.length_append, List.length_replicate]
  omega

/-- The libraries as far as one key file needs them. -/
def oneFile : KeyCrypto where
  deriveKey _ _ iterations dkLen := (iterations,
    buffer (fromHex "f06d69cdc7da0faffb1008270bca38f5e31891a3a773950e6d0fea48a7188551".toList) dkLen)
  deriveKey_length _ _ _ _ := length_buffer _ _
  libscrypt _ _ _ _ _ dkLen := (-1, buffer [] dkLen)
  libscrypt_length _ _ _ _ _ _ := length_buffer _ _
  aes _ counter :=
    if counter.bytes = fromHex "6087dab2f9fdbbfaddc31a909735c1e6".toList then
      .ofBytes 16 (fromHex "2930016feb17bbe5fe552ec8dcb40116".toList)
    else .ofBytes 16 (fromHex "174cabcc136c71b9ec5645998d7d54db".toList)
  sha3 _ := .ofBytes 32
    (fromHex "517ead924a9d0dc3124507e3393d175ce3ff7c1e96529c6c555ce9e51205e9b2".toList)

/-- The secret of that file and its passphrase. -/
theorem decrypt_encrypt_oneFile :
    let v := fromHex "7a28b5ba57c53603b0b07b56bba752f7784bf506fa95edc395f5cf6c7514fe9d".toList
    let env : JsonLocale := ⟨fun c => 32 ≤ c ∧ c < 127, fun _ => [], fun _ => 0⟩
    ∃ text, oneFile.encrypt env v "testpassword".toList .pbkdf2Sha256
        (fromHex "ae3cd4e7013836a3df6bd7241b12db061dbe2c6785853cce422d148a624ce0bd".toList)
        (.ofBytes 16 (fromHex "6087dab2f9fdbbfaddc31a909735c1e6".toList)) = .ok text ∧
      oneFile.decrypt env text "testpassword".toList = .ok v := by
  refine ⟨_, rfl, ?_⟩
  exact (decrypt_encrypt (show oneFile.encrypt _ _ "testpassword".toList .pbkdf2Sha256
    (fromHex "ae3cd4e7013836a3df6bd7241b12db061dbe2c6785853cce422d148a624ce0bd".toList)
    (.ofBytes 16 (fromHex "6087dab2f9fdbbfaddc31a909735c1e6".toList)) = _ from rfl) rfl).1

end KeyCrypto

end ConfluxSdk
