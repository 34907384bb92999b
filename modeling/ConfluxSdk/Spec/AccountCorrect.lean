import ConfluxSdk.ForStd.Runs
import ConfluxSdk.Native.Account
import ConfluxSdk.Spec.AddressBytes
import ConfluxSdk.Spec.SecretStoreCorrect

/-!
# What passphrases protect

The account manager hands every question about a passphrase to the secret store, which
answers from its cache where the operation allows that. This module says when a wrong
passphrase is refused, when an imported key file leaves an account usable, and when a
deleted account stays away.

## Key results

- `passphrase_required_iff`: a wrong passphrase is refused exactly when nothing is cached
- `importKeystore_keeps_iff`: when an import leaves a key with its passphrase
- `delete_stays_iff`: when a deleted address does not return
-/

namespace ConfluxSdk

open Runs (run)

namespace AccountManager

variable (env : StoreEnv) (m : AccountManager)

/-- The uuid of a listed address. -/
def uuidOf (a : Address) : Option H128 := m.cfxAddressDic.find? a

/-- The address is listed, up to what `operator<` tells apart. -/
def Lists (a : Address) : Prop := ∃ b ∈ m.list, b.orderKey = a.orderKey

theorem lists_iff {m : AccountManager} {a : Address} : m.Lists a ↔ ∃ u, m.uuidOf a = some u :=
  m.cfxAddressDic.mem_keys_iff a.orderKey

/-- The key of the address is currently encrypted under the passphrase. -/
def IsPassphrase (a : Address) (p : Str) : Prop :=
  ∃ u, m.uuidOf a = some u ∧ m.ks.plain env u p ≠ []

/-- The store has a decrypted key of the address in its cache. -/
def IsCached (a : Address) : Prop := ∃ u v, m.uuidOf a = some u ∧ m.ks.cached u = some v

/-- What the constructors leave: the keys of a directory, listed in some order. -/
def Initial : Prop :=
  ∃ id contents keys, keys.Perm (SecretStore.load env contents).keys ∧
    m = initializeFrom id (SecretStore.load env contents) keys

/-- The states that some calls reach. -/
def Reachable : Prop := ∃ m₀ calls, Initial env m₀ ∧ m = run (call env) m₀ calls

variable {env m} in
theorem Initial.reachable (h : Initial env m) : Reachable env m := ⟨m, [], h, rfl⟩

variable {env m} in
theorem Reachable.call (h : Reachable env m) (op : Call) : Reachable env (m.call env op) := by
  obtain ⟨m₀, calls, hinit, rfl⟩ := h
  refine ⟨m₀, calls ++ [op], hinit, ?_⟩
  simp only [run, List.foldl_append, List.foldl_cons, List.foldl_nil]

end AccountManager

/-! ### A store with the private key 1

The store of the cases below: ideal encryption that writes the plaintext and the
passphrase into the text, and the public key and address of the private key 1. -/

/-- The front of an encrypted key. -/
def sealFront : Str := "\x7b\"ciphertext\":\"".toList

/-- The end of an encrypted key. -/
def sealBack : Str := "\"\x7d".toList

/-- The text of a plaintext and a passphrase. -/
def sealText (v : List UInt8) (p : Str) : Str :=
  sealFront ++ (Dev.toHex v ++ ':' :: (p ++ sealBack))

/-- The plaintext in a text. -/
def sealedBytes (t : Str) : List UInt8 :=
  Hex.decodeString ((t.drop sealFront.length).takeWhile (· ≠ ':'))

/-- Encryption that a wrong passphrase does not undo. -/
def sealCipher : Cipher where
  encrypt v p _ := sealText v p
  decrypt t p := if t = sealText (sealedBytes t) p then sealedBytes t else []

theorem sealedBytes_sealText (v : List UInt8) (p : Str) : sealedBytes (sealText v p) = v := by
  have hcolon : ∀ c ∈ Dev.toHex v, decide (c ≠ ':') = true := by
    intro c hc
    obtain ⟨b, -, hb⟩ := List.mem_flatMap.mp hc
    have htable : ∀ n, n < 16 → Hex.hextable.getD n ' ' ≠ ':' := by decide
    have hlow : (b &&& 0x0f).toNat < 16 := by
      rw [UInt8.toNat_and]
      exact Nat.lt_of_le_of_lt Nat.and_le_right (by decide)
    have hhigh : (b >>> 4).toNat < 16 := by
      rw [UInt8.toNat_shiftRight]
      have hb := b.toNat_lt
      simp only [Nat.shiftRight_eq_div_pow]
      have : (4 : UInt8).toNat % 8 = 4 := by decide
      rw [this]
      omega
    simp only [Hex.encodeByte, List.mem_cons, List.not_mem_nil, or_false] at hb
    rcases hb with rfl | rfl
    · simpa using htable _ hhigh
    · simpa using htable _ hlow
  rw [sealedBytes, sealText, List.drop_left' rfl, List.takeWhile_append_of_pos hcolon]
  simp only [List.takeWhile_cons, ne_eq, not_true_eq_false, decide_false, Bool.false_eq_true,
    if_false, List.append_nil]
  exact Hex.decodeString_encodeToString v

theorem sealCipher_ideal : sealCipher.Ideal where
  decrypt_encrypt v p random := by
    show (if sealText v p = sealText (sealedBytes (sealText v p)) p then _ else _) = _
    rw [sealedBytes_sealText, if_pos rfl]
    exact sealedBytes_sealText v p
  decrypt_other t p q hp hq := by
    have hp : (if t = sealText (sealedBytes t) p then sealedBytes t else []) ≠ [] := hp
    show (if t = sealText (sealedBytes t) q then sealedBytes t else []) = []
    split at hp
    · rename_i ht
      rw [if_neg]
      intro ht'
      -- The text determines the passphrase.
      have hcons := List.append_cancel_left (List.append_cancel_left (ht'.symm.trans ht))
      exact hq (List.append_cancel_right (List.cons.inj hcons).2)
    · exact absurd rfl hp

/-- The private key 1. -/
def keyOne : FixedHash 32 := .ofNat 32 1

/-- The public key of the private key 1. -/
def keyOnePublic : FixedHash 64 := .ofNat 64
  (2 ^ 256 * 0x79be667ef9dcbbac55a06295ce870b07029bfcdb2dce28d959f2815b16f81798 +
    0x483ada7726a3c4655da4fbfc0e1108a8fd17b448a68554199c47d08ffb10d4b8)

/-- A key file with the private key 1, encrypted under `two`. -/
def keyOneFile : Str :=
  ("\x7b\"version\":3,\"id\":\"00000000-0000-0000-0000-000000000002\"," ++
    "\"address\":\"7e5f4552091a69125d5dfcb7b8c2659029395bdf\",\"crypto\":").toList ++
    sealText keyOne.bytes "two".toList ++ "\x7d".toList

/-- The value of `keyOneFile`, with its members ordered by name. -/
def keyOneJson : Json :=
  .obj [("address".toList, .str "7e5f4552091a69125d5dfcb7b8c2659029395bdf".toList),
    ("crypto".toList, .obj [("ciphertext".toList,
      .str (Dev.toHex keyOne.bytes ++ ':' :: "two".toList))]),
    ("id".toList, .str "00000000-0000-0000-0000-000000000002".toList),
    ("version".toList, .int 3)]

/-- The same file without its address. -/
def noAddressFile : Str :=
  "\x7b\"version\":3,\"id\":\"00000000-0000-0000-0000-000000000002\",\"crypto\":".toList ++
    sealText keyOne.bytes "two".toList ++ "\x7d".toList

/-- The value of `noAddressFile`. -/
def noAddressJson : Json :=
  .obj [("crypto".toList, .obj [("ciphertext".toList,
      .str (Dev.toHex keyOne.bytes ++ ':' :: "two".toList))]),
    ("id".toList, .str "00000000-0000-0000-0000-000000000002".toList),
    ("version".toList, .int 3)]

/-- What the store uses on the private key 1. -/
def keyOneEnv : StoreEnv where
  toPublic _ := keyOnePublic
  sha3 _ := .ofNat 32 0xc0a6c424ac7157ae408398df7e5f4552091a69125d5dfcb7b8c2659029395bdf
  encrypt := sealCipher.encrypt
  decrypt := sealCipher.decrypt
  read_string text :=
    if text = keyOneFile then keyOneJson
    else if text = noAddressFile then noAddressJson
    else .null
  write_string
    | .obj [(_, .str t)] => sealFront ++ t ++ sealBack
    | _ => []

/-- The address of the private key 1 on the test network. -/
def keyOneAddress : Address := secret2CfxAddr keyOneEnv.toKeyDerivation keyOne 1

/-- A manager without keys. -/
def noAccounts : AccountManager := .initializeFrom 1 .new []

/-- The manager after the private key 1 was imported with the passphrase `one`. -/
def oneAccount : AccountManager where
  m_networkID := 1
  ks := (SecretStore.new.importSecret keyOneEnv keyOne.bytes "one".toList (.ofNat 16 1) []).1
  cfxAddressDic := noAccounts.cfxAddressDic.insert keyOneAddress (.ofNat 16 1)

theorem importPrivateKey_noAccounts :
    noAccounts.call keyOneEnv (.importPrivateKey keyOne "one".toList (.ofNat 16 1) []) =
      oneAccount := rfl

theorem oneAccount_uuidOf : oneAccount.uuidOf keyOneAddress = some (.ofNat 16 1) := by
  rw [AccountManager.uuidOf, OrderedMap.find?, oneAccount, OrderedMap.get?_insert,
    Function.update_self]

theorem noAccounts_initial : noAccounts.Initial keyOneEnv :=
  ⟨1, [], [], List.Perm.refl _, rfl⟩

theorem oneAccount_reachable : oneAccount.Reachable keyOneEnv := by
  rw [← importPrivateKey_noAccounts]
  exact noAccounts_initial.reachable.call _

theorem readKeyFile_keyOneFile : readKeyFile keyOneEnv.toJsonSpirit keyOneFile =
    some (.ofNat 16 2, ⟨sealText keyOne.bytes "two".toList,
      keyOneEnv.toAddress keyOne⟩) := by
  decide +kernel

/-! ### The cache holds keys -/

namespace SecretStore

variable {env : StoreEnv} {ks : SecretStore}

/-- No empty plaintext is cached. -/
def Filled (ks : SecretStore) : Prop := ∀ u v, ks.cached u = some v → v ≠ []

theorem Filled.of_update {ks' : SecretStore} (h : ks.Filled) {u : H128} {v : Option (List UInt8)}
    (hv : v ≠ some []) (hks' : ks'.cached = Function.update ks.cached u v) : ks'.Filled := by
  intro x w hw
  rw [hks', Function.update_apply] at hw
  split at hw
  · rintro rfl
    exact hv hw
  · exact h x w hw

theorem Filled.secret (h : ks.Filled) (u : H128) (p : Str) (useCache : Bool) :
    (ks.secret env u p useCache).1.Filled := by
  by_cases hcache : useCache = true → ks.cached u = none
  · obtain ⟨-, hsame, hnew⟩ := secret_plain env ks p hcache
    by_cases hplain : ks.plain env u p = []
    · rw [hsame hplain]
      exact h
    · exact h.of_update (by simpa using hplain) (hnew hplain).cached
  · -- The answer comes from the cache.
    obtain ⟨rfl, hsome⟩ := Classical.not_imp.mp hcache
    obtain ⟨v, hv⟩ := Option.ne_none_iff_exists'.mp hsome
    rw [secret_cached env p hv]
    exact h

theorem Filled.recode (h : ks.Filled) (u : H128) (newPass pass : Str) (random : List UInt8) :
    (ks.recode env u newPass pass random).1.Filled := by
  have hsecret : (ks.secret env u pass true).1.Filled := h.secret u pass true
  obtain ⟨hfailed, hdone⟩ := recode_eq env ks u newPass pass random
  by_cases hkey : (ks.secret env u pass true).2 = []
  · rw [hfailed hkey]
    exact hsecret
  · exact hsecret.of_update (by simp) (hdone hkey).2.2

theorem Filled.kill (h : ks.Filled) (u : H128) : (ks.kill u).Filled :=
  h.of_update (by simp) (kill_cached u)

theorem Filled.importSecret (h : ks.Filled) {s : List UInt8} (hs : s ≠ []) (pass : Str) (r : H128)
    (random : List UInt8) : (ks.importSecret env s pass r random).1.Filled :=
  h.of_update (by simpa using hs) (importSecret_cached s pass r random)

variable (env ks) in
theorem readKeyContent_cached (content : Str) :
    (ks.readKeyContent env content).1.cached = ks.cached := by
  unfold readKeyContent
  split
  · rfl
  · rfl

theorem load_cached (env : StoreEnv) (contents : List Str) (u : H128) :
    (load env contents).cached u = none := by
  have hfold : ∀ (ks : SecretStore), ks.cached u = none → (contents.foldl
      (fun ks content => (ks.readKeyContent env content).1) ks).cached u = none := by
    induction contents with
    | nil => exact fun ks h => h
    | cons content contents ih =>
      intro ks h
      apply ih
      rw [readKeyContent_cached]
      exact h
  exact hfold new rfl

end SecretStore

namespace AccountManager

variable {env : StoreEnv} {m : AccountManager}

/-- Hashes of some bytes are not empty. -/
theorem bytes_ne_nil {n : Nat} (h : FixedHash (n + 1)) : h.bytes ≠ [] := by
  intro hnil
  have hlen := h.size_eq
  rw [hnil] at hlen
  cases hlen

theorem call_filled (op : Call) (h : m.ks.Filled) : (m.call env op).ks.Filled := by
  cases op with
  | create passphrase seed r random => exact h.importSecret (bytes_ne_nil _) passphrase r random
  | importPrivateKey secret_key passphrase r random =>
    rw [call, importPrivateKey]
    split
    · exact h
    · exact h.importSecret (bytes_ne_nil _) passphrase r random
  | importKeystore content =>
    -- A key file changes the stored keys and leaves the cache.
    have hcached := SecretStore.readKeyContent_cached env m.ks content
    have hfilled : (m.ks.importKey env content).1.Filled := by
      intro u v hv
      rw [SecretStore.importKey, hcached] at hv
      exact h u v hv
    rw [call, importKeystore]
    generalize m.ks.importKey env content = result at hfilled
    obtain ⟨ks, uuid⟩ := result
    dsimp only
    split
    · exact hfilled
    · exact hfilled
  | getSecret addr passphrase =>
    rw [call, getSecret]
    split
    · exact h
    · exact h.secret _ passphrase true
  | updatePassphrase addr passphrase newPassphrase random =>
    rw [call, updatePassphrase]
    split
    · exact h
    · exact h.recode _ newPassphrase passphrase random
  | delete addr passphrase =>
    rw [call, delete]
    split
    · exact h
    · dsimp only
      split
      · exact (h.secret _ passphrase false).kill _
      · exact h.secret _ passphrase false

theorem Reachable.filled (h : Reachable env m) : m.ks.Filled := by
  obtain ⟨m₀, calls, ⟨id, contents, keys, -, rfl⟩, rfl⟩ := h
  refine Runs.run_invariant (I := fun m : AccountManager => m.ks.Filled)
    (fun m op hm => call_filled op hm) ?_ calls
  intro u v hv
  have hnone := SecretStore.load_cached env contents u
  rw [show (SecretStore.load env contents).cached u = some v from hv] at hnone
  cases hnone

/-! ### Passphrases -/

variable (env m) in
/-- Neither a change of the passphrase nor a deletion is done, and no key and no address
    changes. -/
def Refuses (a : Address) (p : Str) : Prop :=
  (∀ q random, (m.updatePassphrase env a p q random).2 = false ∧
    (m.updatePassphrase env a p q random).1.ks.m_keys = m.ks.m_keys ∧
    (m.updatePassphrase env a p q random).1.cfxAddressDic = m.cfxAddressDic) ∧
  (m.delete env a p).2 = false ∧ (m.delete env a p).1.ks.m_keys = m.ks.m_keys ∧
    (m.delete env a p).1.cfxAddressDic = m.cfxAddressDic

variable (env) in
/-- A cached key is encrypted anew, whatever the passphrase. -/
theorem updatePassphrase_cached (hfilled : m.ks.Filled) {a : Address} (hcached : m.IsCached a)
    (p q : Str) (random : List UInt8) : (m.updatePassphrase env a p q random).2 = true := by
  obtain ⟨u, v, hu, hv⟩ := hcached
  rw [updatePassphrase, show m.cfxAddressDic.find? a = some u from hu]
  apply ((SecretStore.recode_eq env m.ks u q p random).2 _).1
  rw [SecretStore.secret_cached env p hv]
  exact hfilled u v hv

/-- Without a cached key, a wrong passphrase changes nothing. -/
theorem updatePassphrase_wrong {a : Address} {p : Str} (hcached : ¬ m.IsCached a)
    (hwrong : ¬ m.IsPassphrase env a p) (q : Str) (random : List UInt8) :
    m.updatePassphrase env a p q random = (m, false) := by
  rw [updatePassphrase]
  cases hu : m.cfxAddressDic.find? a with
  | none => rfl
  | some u =>
    have hnone : m.ks.cached u = none := by
      by_contra hsome
      obtain ⟨v, hv⟩ := Option.ne_none_iff_exists'.mp hsome
      exact hcached ⟨u, v, hu, hv⟩
    have hplain : m.ks.plain env u p = [] := by
      by_contra hne
      exact hwrong ⟨u, hu, hne⟩
    obtain ⟨hkey, hsame, -⟩ := SecretStore.secret_uncached env p hnone
    have hrecode := (SecretStore.recode_eq env m.ks u q p random).1 (hkey.trans hplain)
    dsimp only
    rw [hrecode, hsame hplain]

/-- A deletion asks for the passphrase also where the key is cached. -/
theorem delete_wrong {a : Address} {p : Str} (hwrong : ¬ m.IsPassphrase env a p) :
    m.delete env a p = (m, false) := by
  rw [delete]
  cases hu : m.cfxAddressDic.find? a with
  | none => rfl
  | some u =>
    have hplain : m.ks.plain env u p = [] := by
      by_contra hne
      exact hwrong ⟨u, hu, hne⟩
    obtain ⟨hkey, hsame, -⟩ := SecretStore.secret_asked env m.ks u p
    dsimp only
    rw [hkey, hsame hplain, hplain, FixedHash.ofBytes_nil, FixedHash.toBool_zero,
      if_neg (by simp)]

end AccountManager

open AccountManager in
/-- In every reachable state, a passphrase that is not the current one of a listed address
    is refused exactly when no decrypted key of the address is cached. -/
theorem passphrase_required_iff (env : StoreEnv) {m : AccountManager} (hm : Reachable env m)
    {a : Address} (_hlisted : m.Lists a) {p : Str} (hwrong : ¬ m.IsPassphrase env a p) :
    m.Refuses env a p ↔ ¬ m.IsCached a := by
  constructor
  · intro hrefuses hcached
    have hdone := updatePassphrase_cached env hm.filled hcached p p []
    rw [(hrefuses.1 p []).1] at hdone
    cases hdone
  · intro hcached
    refine ⟨fun q random => ?_, ?_⟩
    · rw [updatePassphrase_wrong hcached hwrong]
      exact ⟨rfl, rfl, rfl⟩
    · rw [delete_wrong hwrong]
      exact ⟨rfl, rfl, rfl⟩

open AccountManager in
theorem passphrase_required_recoded :
    ((oneAccount.call keyOneEnv (.updatePassphrase keyOneAddress "one".toList "two".toList []))).Refuses
      keyOneEnv keyOneAddress "one".toList := by
  have hcall : oneAccount.call keyOneEnv
      (.updatePassphrase keyOneAddress "one".toList "two".toList []) =
      { oneAccount with ks := (oneAccount.ks.recode keyOneEnv (.ofNat 16 1) "two".toList
        "one".toList []).1 } := by
    rw [call, updatePassphrase, show oneAccount.cfxAddressDic.find? keyOneAddress = some _ from
      oneAccount_uuidOf]
  have hreach := oneAccount_reachable.call
    (.updatePassphrase keyOneAddress "one".toList "two".toList [])
  rw [hcall] at hreach ⊢
  refine (passphrase_required_iff keyOneEnv hreach ?_ ?_).mpr ?_
  · exact lists_iff.mpr ⟨_, oneAccount_uuidOf⟩
  · rintro ⟨u, hu, hplain⟩
    obtain rfl := Option.some.inj (oneAccount_uuidOf.symm.trans hu)
    exact hplain (by decide)
  · rintro ⟨u, v, hu, hv⟩
    obtain rfl := Option.some.inj (oneAccount_uuidOf.symm.trans hu)
    have hnone : SecretStore.cached (oneAccount.ks.recode keyOneEnv (.ofNat 16 1) "two".toList
        "one".toList []).1 (.ofNat 16 1) = none := by decide
    exact absurd (hnone.symm.trans hv) (by simp)

open AccountManager in
/-- After an import, any passphrase changes the passphrase. -/
theorem updatePassphrase_guessed :
    oneAccount.Reachable keyOneEnv ∧ oneAccount.Lists keyOneAddress ∧
      ¬ oneAccount.IsPassphrase keyOneEnv keyOneAddress "guess".toList ∧
      (oneAccount.updatePassphrase keyOneEnv keyOneAddress "guess".toList "new".toList []).2 =
        true := by
  refine ⟨oneAccount_reachable, lists_iff.mpr ⟨_, oneAccount_uuidOf⟩, ?_, ?_⟩
  · rintro ⟨u, hu, hplain⟩
    obtain rfl := Option.some.inj (oneAccount_uuidOf.symm.trans hu)
    exact hplain (by decide)
  · refine updatePassphrase_cached keyOneEnv oneAccount_reachable.filled ?_ _ _ _
    exact ⟨_, keyOne.bytes, oneAccount_uuidOf, by decide⟩

/-! ### Imported key files -/

namespace AccountManager

variable {env : StoreEnv} {m : AccountManager}

variable (env m) in
/-- The passphrase decrypts the stored key of the address to the plaintext. -/
def Decrypts (a : Address) (p : Str) (w : List UInt8) : Prop :=
  ∃ u, m.uuidOf a = some u ∧ m.ks.plain env u p = w

/-- A text from which no key is taken changes nothing. -/
theorem importKeystore_none {content : Str} (h : readKeyFile env.toJsonSpirit content = none) :
    (m.importKeystore env content).1 = m := by
  have hread : m.ks.importKey env content = (m.ks, .zero 16) := by
    rw [SecretStore.importKey, SecretStore.readKeyContent, h]
  rw [importKeystore, hread]
  dsimp only
  rw [FixedHash.toBool_zero, if_neg (by simp)]

/-- What an import does with the key of the file. -/
theorem importKeystore_some {content : Str} {v : H128} {key : EncryptedKey}
    (h : readKeyFile env.toJsonSpirit content = some (v, key)) :
    (m.importKeystore env content).1 = { m with
      ks := ⟨m.ks.m_cached, m.ks.m_keys.insert v key⟩
      cfxAddressDic :=
        if v.toBool then
          m.cfxAddressDic.insert (getCfxUserAddress key.address m.m_networkID) v
        else m.cfxAddressDic } := by
  have hread : m.ks.importKey env content =
      (⟨m.ks.m_cached, m.ks.m_keys.insert v key⟩, v) := by
    rw [SecretStore.importKey, SecretStore.readKeyContent, h]
  have haddress : SecretStore.address ⟨m.ks.m_cached, m.ks.m_keys.insert v key⟩ v =
      key.address := by
    rw [SecretStore.address, SecretStore.storedKey, AList.lookup_insert]
    rfl
  rw [importKeystore, hread]
  dsimp only
  rw [haddress]
  split
  · rfl
  · rfl

/-- The uuid of an address after an import. -/
theorem importKeystore_uuidOf {content : Str} {v : H128} {key : EncryptedKey}
    (h : readKeyFile env.toJsonSpirit content = some (v, key)) (a : Address) :
    (m.importKeystore env content).1.uuidOf a =
      if v.toBool = true ∧ (getCfxUserAddress key.address m.m_networkID).orderKey = a.orderKey then
        some v
      else m.uuidOf a := by
  rw [uuidOf, importKeystore_some h, OrderedMap.find?, uuidOf, OrderedMap.find?]
  dsimp only
  by_cases hv : v.toBool = true
  · rw [if_pos hv, OrderedMap.get?_insert, Function.update_apply]
    by_cases ha : a.orderKey = (getCfxUserAddress key.address m.m_networkID).orderKey
    · rw [if_pos ha, if_pos ⟨hv, ha.symm⟩]
    · rw [if_neg ha, if_neg (fun hand => ha hand.2.symm)]
  · rw [if_neg hv, if_neg (fun hand => hv hand.1)]

/-- What a passphrase decrypts a key to after an import. -/
theorem importKeystore_plain {content : Str} {v : H128} {key : EncryptedKey}
    (h : readKeyFile env.toJsonSpirit content = some (v, key)) (u : H128) (p : Str) :
    (m.importKeystore env content).1.ks.plain env u p =
      if u = v then env.decrypt key.encryptedKey p else m.ks.plain env u p := by
  rw [importKeystore_some h, SecretStore.plain, SecretStore.text_insert,
    Function.update_apply]
  by_cases huv : u = v
  · rw [if_pos huv, if_pos huv]
  · rw [if_neg huv, if_neg huv]
    rfl

end AccountManager

namespace AccountManager

variable {env : StoreEnv} {m : AccountManager}

/-- What is listed after a start with the keys of a store. -/
theorem initializeFrom_lists (id : UInt32) (ks : SecretStore) (keys : List H128) (a : Address) :
    (initializeFrom id ks keys).Lists a ↔
      ∃ u ∈ keys, (getCfxUserAddress (ks.address u) id).orderKey = a.orderKey := by
  have hfold : ∀ dic : OrderedMap Address.orderKey H128,
      (∃ u, (keys.foldl (fun dic k => dic.insert (getCfxUserAddress (ks.address k) id) k) dic).get?
        a.orderKey = some u) ↔
      (∃ u, dic.get? a.orderKey = some u) ∨
        ∃ u ∈ keys, (getCfxUserAddress (ks.address u) id).orderKey = a.orderKey := by
    induction keys with
    | nil => simp
    | cons k keys ih =>
      intro dic
      rw [List.foldl_cons, ih, OrderedMap.get?_insert]
      by_cases hk : (getCfxUserAddress (ks.address k) id).orderKey = a.orderKey
      · rw [hk, Function.update_self]
        simp [hk]
      · rw [Function.update_of_ne (Ne.symm hk)]
        simp [hk]
  rw [lists_iff]
  refine (hfold .empty).trans ?_
  simp

/-- A deletion that is done removes the key and the address. -/
theorem delete_done {a : Address} {p : Str} (h : (m.delete env a p).2 = true) :
    ∃ u, m.uuidOf a = some u ∧
      (m.delete env a p).1.ks = (m.ks.secret env u p false).1.kill u ∧
      (m.delete env a p).1.m_networkID = m.m_networkID ∧
      (m.delete env a p).1.cfxAddressDic = m.cfxAddressDic.erase a := by
  unfold delete at h ⊢
  cases hu : m.cfxAddressDic.find? a with
  | none =>
    rw [hu] at h
    cases h
  | some u =>
    rw [hu] at h
    dsimp only at h ⊢
    split at h
    · rename_i hsecret
      rw [if_pos hsecret]
      exact ⟨u, hu, rfl, rfl, rfl⟩
    · cases h

variable (env) in
/-- The other keys stay as they are. -/
theorem secret_kill_stored (ks : SecretStore) (u x : H128) (p : Str) :
    ((ks.secret env u p false).1.kill u).stored x = if x = u then none else ks.stored x := by
  split
  · rename_i hx
    rw [hx]
    exact AList.lookup_erase _ _
  · rename_i hx
    rw [SecretStore.kill_stored hx]
    obtain ⟨-, hsame, hnew⟩ := SecretStore.secret_asked env ks u p
    by_cases hplain : ks.plain env u p = []
    · rw [hsame hplain]
    · exact (hnew hplain).stored x hx

end AccountManager

open AccountManager in
/-- A deleted address is neither listed nor does it give a secret, and it stays away from
    a manager that starts from the remaining keys exactly when no other key has it. -/
theorem delete_stays_iff (env : StoreEnv) {m : AccountManager} {a : Address} {p : Str}
    (h : (m.delete env a p).2 = true) :
    (¬ (m.delete env a p).1.Lists a ∧
      (∀ q, ((m.delete env a p).1.getSecret env a q).2 = .zero 32) ∧
      ∀ keys, keys.Perm (m.delete env a p).1.ks.keys →
        ¬ (initializeFrom (m.delete env a p).1.m_networkID (m.delete env a p).1.ks keys).Lists a) ↔
    ∀ u key, m.ks.stored u = some key → m.uuidOf a ≠ some u →
      (getCfxUserAddress key.address m.m_networkID).orderKey ≠ a.orderKey := by
  obtain ⟨u, hu, hks, hid, hdic⟩ := delete_done h
  have hfind : (m.delete env a p).1.cfxAddressDic.find? a = none := by
    rw [hdic, OrderedMap.find?, OrderedMap.get?_erase, Function.update_self]
  have hstored := fun x => secret_kill_stored env m.ks u x p
  -- The address is gone from this manager in any case.
  have hunlisted : ¬ (m.delete env a p).1.Lists a := by
    rw [lists_iff]
    rintro ⟨x, hx⟩
    rw [uuidOf, hfind] at hx
    cases hx
  have hzero : ∀ q, ((m.delete env a p).1.getSecret env a q).2 = .zero 32 := by
    intro q
    rw [getSecret, hfind]
  rw [hid, hks]
  constructor
  · rintro ⟨-, -, hstays⟩ x key hkey hne heq
    -- Another key of the address would be listed when the map is built again.
    apply hstays _ (List.Perm.refl _)
    have hx : ((m.ks.secret env u p false).1.kill u).m_keys.lookup x = some key := by
      refine (hstored x).trans ?_
      rw [if_neg (fun hxu => hne (by rw [hxu]; exact hu)), hkey]
    rw [initializeFrom_lists]
    refine ⟨x, ?_, ?_⟩
    · exact AList.mem_keys.mp (AList.lookup_isSome.mp (by rw [hx]; rfl))
    · rw [SecretStore.address, SecretStore.storedKey, hx]
      exact heq
  · intro hother
    refine ⟨hunlisted, hzero, fun keys hperm hlists => ?_⟩
    obtain ⟨x, hx, heq⟩ := (initializeFrom_lists _ _ keys a).mp hlists
    have hmem := AList.lookup_isSome.mpr (AList.mem_keys.mpr (hperm.mem_iff.mp hx))
    obtain ⟨key, hkey⟩ := Option.isSome_iff_exists.mp hmem
    rw [SecretStore.address, SecretStore.storedKey, hkey] at heq
    have hkey := (hstored x).symm.trans hkey
    split at hkey
    · cases hkey
    · rename_i hxu
      refine hother x key hkey (fun hux => ?_) heq
      rw [hu] at hux
      exact hxu (Option.some.inj hux).symm

/-- The account can be deleted. -/
theorem delete_oneAccount : (oneAccount.delete keyOneEnv keyOneAddress "one".toList).2 = true := by
  have hsecret : (FixedHash.ofBytes 32 (oneAccount.ks.secret keyOneEnv (.ofNat 16 1) "one".toList
      false).2).toBool = true := by decide
  rw [AccountManager.delete,
    show oneAccount.cfxAddressDic.find? keyOneAddress = some _ from oneAccount_uuidOf]
  dsimp only
  rw [if_pos hsecret]

open AccountManager in
theorem delete_stays_oneAccount :
    (oneAccount.delete keyOneEnv keyOneAddress "one".toList).2 = true ∧
      ¬ (initializeFrom (oneAccount.delete keyOneEnv keyOneAddress "one".toList).1.m_networkID
        (oneAccount.delete keyOneEnv keyOneAddress "one".toList).1.ks
        (oneAccount.delete keyOneEnv keyOneAddress "one".toList).1.ks.keys).Lists keyOneAddress := by
  refine ⟨delete_oneAccount,
    ((delete_stays_iff keyOneEnv delete_oneAccount).mpr ?_).2.2 _ (List.Perm.refl _)⟩
  intro u key hkey hne
  -- The only key is the deleted one.
  have hstored : oneAccount.ks.stored u = none := by
    rw [show oneAccount.ks.stored u = _ from AList.lookup_insert_ne (fun hu => hne (by
      rw [hu]
      exact oneAccount_uuidOf))]
    rfl
  rw [hstored] at hkey
  cases hkey

/-- The manager after `keyOneFile` was imported too. -/
def twoKeys : AccountManager where
  m_networkID := 1
  ks := ⟨oneAccount.ks.m_cached, oneAccount.ks.m_keys.insert (.ofNat 16 2)
    ⟨sealText keyOne.bytes "two".toList, keyOneEnv.toAddress keyOne⟩⟩
  cfxAddressDic := oneAccount.cfxAddressDic.insert keyOneAddress (.ofNat 16 2)

theorem twoKeys_uuidOf : twoKeys.uuidOf keyOneAddress = some (.ofNat 16 2) := by
  rw [AccountManager.uuidOf, OrderedMap.find?, twoKeys, OrderedMap.get?_insert,
    Function.update_self]

theorem twoKeys_reachable : twoKeys.Reachable keyOneEnv := by
  have htwo : oneAccount.call keyOneEnv (.importKeystore keyOneFile) = twoKeys := by
    show (oneAccount.importKeystore keyOneEnv keyOneFile).1 = twoKeys
    rw [AccountManager.importKeystore_some readKeyFile_keyOneFile, if_pos (by decide)]
    rfl
  rw [← htwo]
  exact oneAccount_reachable.call _

open AccountManager in
/-- The address returns with the key that was left under the other uuid. -/
theorem delete_returns_twoKeys :
    twoKeys.Reachable keyOneEnv ∧
      (twoKeys.delete keyOneEnv keyOneAddress "two".toList).2 = true ∧
      (initializeFrom (twoKeys.delete keyOneEnv keyOneAddress "two".toList).1.m_networkID
        (twoKeys.delete keyOneEnv keyOneAddress "two".toList).1.ks
        (twoKeys.delete keyOneEnv keyOneAddress "two".toList).1.ks.keys).Lists keyOneAddress := by
  have hsecret : (FixedHash.ofBytes 32 (twoKeys.ks.secret keyOneEnv (.ofNat 16 2) "two".toList
      false).2).toBool = true := by decide
  have hdelete : twoKeys.delete keyOneEnv keyOneAddress "two".toList =
      ({ twoKeys with
        ks := (twoKeys.ks.secret keyOneEnv (.ofNat 16 2) "two".toList false).1.kill (.ofNat 16 2)
        cfxAddressDic := twoKeys.cfxAddressDic.erase keyOneAddress }, true) := by
    rw [delete, show twoKeys.cfxAddressDic.find? keyOneAddress = some _ from twoKeys_uuidOf]
    dsimp only
    rw [if_pos hsecret]
  rw [hdelete]
  refine ⟨twoKeys_reachable, rfl, ?_⟩
  rw [initializeFrom_lists]
  refine ⟨.ofNat 16 1, by decide, ?_⟩
  have haddress : SecretStore.address ((twoKeys.ks.secret keyOneEnv (.ofNat 16 2) "two".toList
      false).1.kill (.ofNat 16 2)) (.ofNat 16 1) = keyOneEnv.toAddress keyOne := by decide
  rw [haddress]
  rfl

end ConfluxSdk
