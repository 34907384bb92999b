import ConfluxSdk.ForStd.Vault
import ConfluxSdk.Spec.AccountCorrect
import ConfluxSdk.Spec.AddressOrder

/-!
# Which key an address gives

The book of an account manager says which key every listed address was given, by the
call that listed it. Map, store and cache agree with the book as long as no key file
comes with the uuid of another account, and then a secret is the key in the book.

## Key results

- `AccountManager.call_agree`: one call keeps the agreement
- `getSecret_current_iff`: which secrets are released
- `listed_keys_owned`: the secret of a listed address is a key of that address
-/

namespace ConfluxSdk

open Runs (run Along)

/-! ### Addresses of accounts -/

/-- The bytes of the user address of a key. -/
def userBytes (addr : FixedHash 20) : List UInt8 :=
  match addr.bytes with
  | b :: bs => (b &&& 0x0f ||| 0x10) :: bs
  | [] => []

theorem length_userBytes (addr : FixedHash 20) : (userBytes addr).length = 20 := by
  have hsize := addr.size_eq
  unfold userBytes
  cases hbytes : addr.bytes with
  | nil =>
    rw [hbytes] at hsize
    cases hsize
  | cons b bs =>
    rw [hbytes] at hsize
    exact hsize

theorem getCfxUserAddress_eq (addr : FixedHash 20) (id : UInt32) :
    getCfxUserAddress addr id = Address.ofBytes (userBytes addr) id := by
  obtain ⟨hcount, hdigits⟩ := Hex.encodeToString_digits (userBytes addr)
  have hlower : tolower_string ("0x".toList ++ Hex.encodeToString (userBytes addr)) =
      "0x".toList ++ Hex.encodeToString (userBytes addr) := by
    have hall : (Regex.hexDigits.all fun c => c.toLower == c) = true := by decide
    have hhex : tolower_string (Hex.encodeToString (userBytes addr)) =
        Hex.encodeToString (userBytes addr) :=
      tolower_string_of_forall fun c hc => by
        simpa using List.all_eq_true.mp hall c (hdigits c hc)
    rw [tolower_string_append, hhex]
    rfl
  have hconstruct := construct_hex hlower (by rw [hcount, length_userBytes]) hdigits id
  rw [Hex.decodeString_encodeToString] at hconstruct
  unfold getCfxUserAddress
  dsimp only
  split
  · rename_i hok
    exact Except.ok.inj (hok.symm.trans hconstruct)
  · rename_i herror
    cases herror.symm.trans hconstruct

/-- The order tells the addresses of accounts apart. -/
theorem getCfxUserAddress_of_orderKey {x y : FixedHash 20} {id : UInt32}
    (h : (getCfxUserAddress x id).orderKey = (getCfxUserAddress y id).orderKey) :
    getCfxUserAddress x id = getCfxUserAddress y id := by
  have hshort := NetworkType.length_ofID_le id
  have hx := Address.consistent_ofBytes (length_userBytes x) id
  have hy := Address.consistent_ofBytes (length_userBytes y) id
  rw [getCfxUserAddress_eq, getCfxUserAddress_eq] at h ⊢
  rw [Address.orderKey, Address.orderKey,
    Address.printBuffer_verboseText hx (Nat.le_trans hshort (by decide)),
    Address.printBuffer_verboseText hy (Nat.le_trans hshort (by decide))] at h
  exact hx.verboseText_inj hy h

/-! ### The book -/

open Classical in
/-- The plaintext of a text, if some passphrase reveals one. -/
noncomputable def Cipher.content (c : Cipher) (t : Str) : Option (List UInt8) :=
  if h : ∃ v p, c.reveal t p = some v then some h.choose else none

theorem Cipher.exists_of_content {c : Cipher} {t : Str} {v : List UInt8}
    (h : c.content t = some v) : ∃ p, c.reveal t p = some v := by
  unfold Cipher.content at h
  split at h
  · rename_i hex
    obtain rfl := Option.some.inj h
    exact hex.choose_spec
  · cases h

theorem Cipher.Ideal.content_eq {c : Cipher} (hc : c.Ideal) {t p : Str} {v : List UInt8}
    (h : c.reveal t p = some v) : c.content t = some v := by
  have hex : ∃ v p, c.reveal t p = some v := ⟨v, p, h⟩
  obtain ⟨q, hq⟩ := hex.choose_spec
  rw [Cipher.content, dif_pos hex, hc.value_unique hq h]

/-- Which key every address was given, by the text of the address. -/
abbrev Book := Str → Option (List UInt8)

namespace AccountManager

section Book

variable (env : StoreEnv) (m : AccountManager)

/-- The address a call gives a key, and the key. -/
noncomputable def given : Call → Option (Address × Option (List UInt8))
  | .create _ seed _ _ =>
    some (getCfxUserAddress (env.keyPairAddress (env.sha3 seed.bytes)) m.m_networkID,
      some (env.sha3 seed.bytes).bytes)
  | .importPrivateKey secret_key _ _ _ =>
    let addr := secret2CfxAddr env.toKeyDerivation secret_key m.m_networkID
    -- The key of a listed address is not imported again.
    if m.uuidOf addr = none then some (addr, some secret_key.bytes) else none
  | .importKeystore content =>
    match readKeyFile env.toJsonSpirit content with
    | some (v, key) =>
      if v.toBool then
        some (getCfxUserAddress key.address m.m_networkID, env.toCipher.content key.encryptedKey)
      else none
    | none => none
  | _ => none

/-- The book after a call. -/
noncomputable def note (book : Book) (op : Call) : Book :=
  match given env m op with
  | some (a, w) => Function.update book a.orderKey w
  | none => book

/-- A call, with the book. -/
noncomputable def callNoted (s : AccountManager × Book) (op : Call) : AccountManager × Book :=
  (s.1.call env op, note env s.1 s.2 op)

/-- The book of the keys a manager starts with. -/
noncomputable def initialBook : Book := fun x =>
  (m.cfxAddressDic.get? x).bind fun u => (m.ks.text u).bind env.toCipher.content

/-- The book after some calls. -/
noncomputable def bookAfter (calls : List Call) : Book :=
  (run (callNoted env) (m, initialBook env m) calls).2

/-- The map, the store and the cache. -/
def vault : Vault Str H128 Str (List UInt8) := ⟨m.cfxAddressDic.get?, m.ks.text, m.ks.cached⟩

/-- A new key does not take the uuid of another account, and a plaintext that is cached
    under its uuid is that of the key. -/
def Unmixed : Call → Prop
  | .create _ _ r _ => ∀ a, m.uuidOf a ≠ some r
  | .importPrivateKey _ _ r _ => ∀ a, m.uuidOf a ≠ some r
  | .importKeystore content =>
    ∀ v key, readKeyFile env.toJsonSpirit content = some (v, key) →
      (∀ a, m.uuidOf a = some v → v.toBool = true ∧
        a.orderKey = (getCfxUserAddress key.address m.m_networkID).orderKey) ∧
      (v.toBool = true → ∀ w, m.ks.cached v = some w → ∃ p, env.decrypt key.encryptedKey p = w)
  | _ => True

end Book

variable {env : StoreEnv} {m : AccountManager} {book : Book}

/-- An address for a text of the map. -/
theorem exists_of_get? {x : Str} {u : H128} (h : m.cfxAddressDic.get? x = some u) :
    ∃ a : Address, a.orderKey = x ∧ m.uuidOf a = some u := by
  obtain ⟨a, -, ha⟩ := (m.cfxAddressDic.mem_keys_iff x).mpr ⟨u, h⟩
  exact ⟨a, ha, by rw [uuidOf, OrderedMap.find?, ha, h]⟩

/-! ### One call -/

variable (env) in
/-- Map, store and cache agree with the book. -/
abbrev Agree (m : AccountManager) (book : Book) : Prop :=
  Vault.Agree env.toCipher.reveal m.vault book

/-- Asking for a secret keeps the agreement, and an answer is the key in the book. -/
theorem secret_agree (h : Agree env m book) (u : H128) (p : Str) (useCache : Bool) :
    Agree env { m with ks := (m.ks.secret env u p useCache).1 } book ∧
      ((m.ks.secret env u p useCache).2 ≠ [] → ∀ x, m.cfxAddressDic.get? x = some u →
        book x = some (m.ks.secret env u p useCache).2) := by
  by_cases hcache : useCache = true → m.ks.cached u = none
  · obtain ⟨hkey, hsame, hnew⟩ := SecretStore.secret_plain env m.ks p hcache
    by_cases hplain : m.ks.plain env u p = []
    · rw [hsame hplain, hkey]
      exact ⟨h, fun hne => absurd hplain hne⟩
    · -- The passphrase reveals the key, which is cached then.
      obtain ⟨t, ht⟩ : ∃ t, m.ks.text u = some t := by
        cases htext : m.ks.text u with
        | some t => exact ⟨t, rfl⟩
        | none =>
          rw [SecretStore.plain, htext] at hplain
          exact absurd rfl hplain
      have hreveal : env.toCipher.reveal t p = some (m.ks.plain env u p) := by
        rw [Cipher.reveal_eq_some]
        refine ⟨?_, hplain⟩
        rw [SecretStore.plain, ht]
      rw [hkey]
      refine ⟨?_, fun _ x hx => h.value x u t p _ hx ht hreveal⟩
      have hview : vault { m with ks := (m.ks.secret env u p useCache).1 } =
          { m.vault with
            opened := Function.update m.vault.opened u (some (m.ks.plain env u p)) } := by
        rw [vault, (hnew hplain).text, (hnew hplain).cached]
        rfl
      rw [Agree, hview]
      exact h.cacheOpened ht hreveal
  · -- The answer comes from the cache, which agrees with the book.
    obtain ⟨rfl, hsome⟩ := Classical.not_imp.mp hcache
    obtain ⟨v, hv⟩ := Option.ne_none_iff_exists'.mp hsome
    rw [SecretStore.secret_cached env p hv]
    exact ⟨h, fun _ x hx => h.cache x u v hx hv⟩

/-- The key of a listed address is encrypted anew. -/
theorem recode_agree (hideal : env.toCipher.Ideal) (h : Agree env m book) {x : Str} {u : H128}
    (hu : m.cfxAddressDic.get? x = some u) (newPass pass : Str) (random : List UInt8) :
    Agree env { m with ks := (m.ks.recode env u newPass pass random).1 } book := by
  obtain ⟨hagree, hbook⟩ := secret_agree h u pass true
  obtain ⟨hfailed, hdone⟩ := SecretStore.recode_eq env m.ks u newPass pass random
  by_cases hkey : (m.ks.secret env u pass true).2 = []
  · rw [hfailed hkey]
    exact hagree
  · obtain ⟨-, htext, hcached⟩ := hdone hkey
    have hview : vault { m with ks := (m.ks.recode env u newPass pass random).1 } =
        ⟨m.cfxAddressDic.get?,
          Function.update (m.ks.secret env u pass true).1.text u
            (some (env.encrypt (m.ks.secret env u pass true).2 newPass random)),
          Function.update (m.ks.secret env u pass true).1.cached u none⟩ := by
      rw [vault, htext, hcached]
    rw [Agree, hview]
    refine hagree.reseal (k := x) hu (fun p w hw => ?_)
    rw [hideal.value_unique hw (hideal.reveal_encrypt hkey)]
    exact hbook hkey x hu

/-- A new secret is stored under a uuid that no account has. -/
theorem importSecret_agree (hideal : env.toCipher.Ideal) (h : Agree env m book) {r : H128}
    (hr : ∀ a, m.uuidOf a ≠ some r) {s : List UInt8} (hs : s ≠ []) (pass : Str)
    (random : List UInt8) (addr : Address) :
    Agree env { m with
        ks := (m.ks.importSecret env s pass r random).1
        cfxAddressDic := m.cfxAddressDic.insert addr r }
      (Function.update book addr.orderKey (some s)) := by
  have hview : vault { m with
        ks := (m.ks.importSecret env s pass r random).1
        cfxAddressDic := m.cfxAddressDic.insert addr r } =
      ⟨Function.update m.vault.idOf addr.orderKey (some r),
        Function.update m.vault.sealedAt r (some (env.encrypt s pass random)),
        Function.update m.vault.opened r (some s)⟩ := by
    rw [vault, OrderedMap.get?_insert, SecretStore.importSecret_text,
      SecretStore.importSecret_cached]
    rfl
  rw [Agree, hview]
  -- No account has the uuid, and what is sealed and cached under it is the secret.
  refine h.put ?_ ?_ ?_ ?_
  · intro x hx
    obtain ⟨a, -, ha⟩ := exists_of_get? hx
    exact absurd ha (hr a)
  · intro p w hw
    rw [hideal.value_unique hw (hideal.reveal_encrypt hs)]
  · intro j hj
    exact Function.update_of_ne hj _ _
  · intro w hw
    rw [Function.update_self] at hw
    exact hw

/-- A key file is read that does not mix up accounts. -/
theorem importKeystore_agree (hideal : env.toCipher.Ideal) (hfilled : m.ks.Filled)
    (h : Agree env m book) {content : Str} (hunmixed : Unmixed env m (.importKeystore content)) :
    Agree env (m.importKeystore env content).1 (note env m book (.importKeystore content)) := by
  rw [note, given]
  cases hfile : readKeyFile env.toJsonSpirit content with
  | none =>
    rw [importKeystore_none hfile]
    exact h
  | some file =>
    obtain ⟨v, key⟩ := file
    obtain ⟨hother, hcached⟩ := hunmixed v key hfile
    rw [importKeystore_some hfile]
    by_cases hv : v.toBool = true
    · simp only [if_pos hv]
      have hview : vault { m with
            ks := ⟨m.ks.m_cached, m.ks.m_keys.insert v key⟩
            cfxAddressDic :=
              m.cfxAddressDic.insert (getCfxUserAddress key.address m.m_networkID) v } =
          ⟨Function.update m.vault.idOf (getCfxUserAddress key.address m.m_networkID).orderKey
              (some v),
            Function.update m.vault.sealedAt v (some key.encryptedKey), m.vault.opened⟩ := by
        rw [vault, OrderedMap.get?_insert, SecretStore.text_insert]
        rfl
      rw [Agree, hview]
      refine h.put ?_ ?_ (fun _ _ => rfl) ?_
      · intro x hx
        obtain ⟨a, rfl, ha⟩ := exists_of_get? hx
        exact (hother a ha).2
      · intro p w hw
        exact hideal.content_eq hw
      · intro w hw
        obtain ⟨p, hp⟩ := hcached hv w hw
        exact hideal.content_eq (Cipher.reveal_eq_some.mpr ⟨hp, hfilled v w hw⟩)
    · -- Without a uuid the key is stored under zero, which no account has.
      simp only [if_neg hv]
      have hview : vault { m with ks := ⟨m.ks.m_cached, m.ks.m_keys.insert v key⟩ } =
          { m.vault with
            sealedAt := Function.update m.vault.sealedAt v (some key.encryptedKey) } := by
        rw [vault, SecretStore.text_insert]
        rfl
      rw [Agree, hview]
      refine h.sealUnnamed (fun x hx => ?_) _
      obtain ⟨a, -, ha⟩ := exists_of_get? hx
      exact hv (hother a ha).1

/-- A listed key is deleted, or the passphrase is refused. -/
theorem delete_agree (h : Agree env m book) (addr : Address) (p : Str) :
    Agree env (m.delete env addr p).1 book := by
  unfold delete
  cases hu : m.cfxAddressDic.find? addr with
  | none => exact h
  | some u =>
    obtain ⟨hagree, -⟩ := secret_agree h u p false
    dsimp only
    split
    · have hview : vault { m with
            ks := (m.ks.secret env u p false).1.kill u
            cfxAddressDic := m.cfxAddressDic.erase addr } =
          ⟨Function.update m.cfxAddressDic.get? addr.orderKey none,
            Function.update (m.ks.secret env u p false).1.text u none,
            Function.update (m.ks.secret env u p false).1.cached u none⟩ := by
        rw [vault, OrderedMap.get?_erase, SecretStore.kill_text, SecretStore.kill_cached]
      rw [Agree, hview]
      exact hagree.remove hu
    · exact hagree

/-- One call keeps the agreement. -/
theorem call_agree (hideal : env.toCipher.Ideal) (hfilled : m.ks.Filled) (h : Agree env m book)
    {op : Call} (hunmixed : Unmixed env m op) :
    Agree env (m.call env op) (note env m book op) := by
  cases op with
  | create passphrase seed r random =>
    exact importSecret_agree hideal h hunmixed (bytes_ne_nil _) passphrase random _
  | importPrivateKey secret_key passphrase r random =>
    rw [call, importPrivateKey, note, given]
    dsimp only
    cases hfind : m.cfxAddressDic.find?
        (secret2CfxAddr env.toKeyDerivation secret_key m.m_networkID) with
    | some u =>
      rw [if_neg (by rw [uuidOf, hfind]; simp)]
      exact h
    | none =>
      rw [if_pos (show m.uuidOf _ = none from hfind)]
      exact importSecret_agree hideal h hunmixed (bytes_ne_nil _) passphrase random _
  | importKeystore content => exact importKeystore_agree hideal hfilled h hunmixed
  | getSecret addr passphrase =>
    rw [call, getSecret]
    cases hu : m.cfxAddressDic.find? addr with
    | none => exact h
    | some u => exact (secret_agree h u passphrase true).1
  | updatePassphrase addr passphrase newPassphrase random =>
    rw [call, updatePassphrase]
    cases hu : m.cfxAddressDic.find? addr with
    | none => exact h
    | some u => exact recode_agree hideal h hu newPassphrase passphrase random
  | delete addr passphrase => exact delete_agree h addr passphrase

/-! ### Runs -/

/-- What is listed at the start is what the store has. -/
theorem initializeFrom_get? {id : UInt32} {ks : SecretStore} {keys : List H128} {x : Str} {u : H128}
    (h : (initializeFrom id ks keys).cfxAddressDic.get? x = some u) :
    u ∈ keys ∧ (getCfxUserAddress (ks.address u) id).orderKey = x := by
  have hfold : ∀ (keys : List H128) (dic : OrderedMap Address.orderKey H128),
      (keys.foldl (fun dic k => dic.insert (getCfxUserAddress (ks.address k) id) k) dic).get? x =
        some u →
      dic.get? x = some u ∨
        u ∈ keys ∧ (getCfxUserAddress (ks.address u) id).orderKey = x := by
    intro keys
    induction keys with
    | nil => exact fun dic h => .inl h
    | cons k keys ih =>
      intro dic h
      rcases ih _ h with hdic | ⟨hmem, hx⟩
      · rw [OrderedMap.get?_insert, Function.update_apply] at hdic
        split at hdic
        · rename_i hx
          obtain rfl := Option.some.inj hdic
          exact .inr ⟨List.mem_cons_self, hx.symm⟩
        · exact .inl hdic
      · exact .inr ⟨List.mem_cons_of_mem _ hmem, hx⟩
  rcases hfold keys .empty h with hempty | hlisted
  · cases hempty
  · exact hlisted

/-- The manager agrees with the book of the keys it starts with. -/
theorem Initial.agree (hideal : env.toCipher.Ideal) (h : Initial env m) :
    Agree env m (initialBook env m) := by
  obtain ⟨id, contents, keys, hperm, rfl⟩ := h
  refine ⟨?_, ?_, ?_, ?_⟩
  · intro x u hx
    have hmem := hperm.mem_iff.mp (initializeFrom_get? hx).1
    obtain ⟨key, hkey⟩ := Option.isSome_iff_exists.mp
      (AList.lookup_isSome.mpr (AList.mem_keys.mpr hmem))
    exact ⟨key.encryptedKey, by
      show ((SecretStore.load env contents).m_keys.lookup u).map _ = _
      rw [hkey]
      rfl⟩
  · intro x y u hx hy
    rw [← (initializeFrom_get? hx).2, ← (initializeFrom_get? hy).2]
  · intro x u t p v hx ht hv
    show ((initializeFrom id _ keys).cfxAddressDic.get? x).bind _ = some v
    rw [show (initializeFrom id _ keys).cfxAddressDic.get? x = some u from hx]
    show ((SecretStore.load env contents).text u).bind _ = some v
    rw [show (SecretStore.load env contents).text u = some t from ht]
    exact hideal.content_eq hv
  · intro x u v _ hv
    have hnone := SecretStore.load_cached env contents u
    rw [show (SecretStore.load env contents).cached u = some v from hv] at hnone
    cases hnone

/-- In a run that mixes up no accounts, the manager agrees with its book. -/
theorem run_agree (hideal : env.toCipher.Ideal) (hinit : Initial env m) {calls : List Call}
    (hunmixed : Along (call env) (Unmixed env) m calls) {pre : List Call} (hpre : pre <+: calls) :
    Agree env (run (call env) m pre) (bookAfter env m pre) := by
  have hproject : ∀ s op, (callNoted env s op).1 = call env s.1 op := fun _ _ => rfl
  have hfst : (run (callNoted env) (m, initialBook env m) pre).1 = run (call env) m pre :=
    Runs.run_project hproject (m, initialBook env m) pre
  have hfilled : m.ks.Filled := hinit.reachable.filled
  have halong : Along (callNoted env) (fun s op => Unmixed env s.1 op) (m, initialBook env m) calls :=
    Along.project hproject hunmixed
  have hinv := halong.invariant (I := fun s : AccountManager × Book => s.1.ks.Filled ∧ Agree env s.1 s.2)
    (fun s op hs hop => ⟨call_filled op hs.1, call_agree hideal hs.1 hs.2 hop⟩)
    ⟨hfilled, hinit.agree hideal⟩ hpre
  rw [hfst] at hinv
  exact hinv.2

/-- What `GetSecret` returns for a listed address. -/
theorem getSecret_listed {a : Address} {u : H128} (hu : m.uuidOf a = some u) (p : Str) :
    (m.getSecret env a p).2 = .ofBytes 32 (m.ks.secret env u p true).2 := by
  rw [getSecret, show m.cfxAddressDic.find? a = some u from hu]

theorem getSecret_unlisted {a : Address} (hu : m.uuidOf a = none) (p : Str) :
    (m.getSecret env a p).2 = .zero 32 := by
  rw [getSecret, show m.cfxAddressDic.find? a = none from hu]

end AccountManager

theorem keyOneEnv_ideal : keyOneEnv.toCipher.Ideal := sealCipher_ideal

open AccountManager in
theorem oneAccount_isPassphrase : oneAccount.IsPassphrase keyOneEnv keyOneAddress "one".toList :=
  ⟨_, oneAccount_uuidOf, by decide⟩

namespace AccountManager

variable (env : StoreEnv) (m : AccountManager) in
/-- A new key is one of the address it is listed under: a drawn secret has a public key,
    and the address of a key file is that of every secret a passphrase reveals. -/
def Owned : Call → Prop
  | .create _ seed _ _ => (env.toPublic (env.sha3 seed.bytes)).toBool = true
  | .importKeystore content =>
    ∀ v key, readKeyFile env.toJsonSpirit content = some (v, key) → v.toBool = true →
      ∀ p, (FixedHash.ofBytes 32 (env.decrypt key.encryptedKey p)).toBool = true →
        secret2CfxAddr env.toKeyDerivation (.ofBytes 32 (env.decrypt key.encryptedKey p))
          m.m_networkID = getCfxUserAddress key.address m.m_networkID
  | _ => True

variable {env : StoreEnv} {m : AccountManager} {book : Book}

variable (env) in
/-- The keys in the book are keys of their addresses. -/
def BookOwned (id : UInt32) (book : Book) : Prop :=
  ∀ x w, book x = some w → (FixedHash.ofBytes 32 w).toBool = true →
    (secret2CfxAddr env.toKeyDerivation (.ofBytes 32 w) id).orderKey = x

theorem BookOwned.update {id : UInt32} (h : BookOwned env id book) {a : Address}
    {w : Option (List UInt8)}
    (hw : ∀ v, w = some v → (FixedHash.ofBytes 32 v).toBool = true →
      secret2CfxAddr env.toKeyDerivation (.ofBytes 32 v) id = a) :
    BookOwned env id (Function.update book a.orderKey w) := by
  intro x v hx hv
  rw [Function.update_apply] at hx
  split at hx
  · rename_i hxa
    rw [hw v hx hv, hxa]
  · exact h x v hx hv

theorem note_owned {op : Call} (h : BookOwned env m.m_networkID book) (hop : Owned env m op) :
    BookOwned env m.m_networkID (note env m book op) := by
  rw [note]
  cases op with
  | create passphrase seed r random =>
    refine h.update (fun v hv _ => ?_)
    obtain rfl := Option.some.inj hv
    have hpublic : (env.toPublic (env.sha3 seed.bytes)).toBool = true := hop
    rw [FixedHash.ofBytes_bytes, secret2CfxAddr, KeyDerivation.keyPairAddress, if_pos hpublic]
    rfl
  | importPrivateKey secret_key passphrase r random =>
    rw [given]
    by_cases hlisted : m.uuidOf (secret2CfxAddr env.toKeyDerivation secret_key m.m_networkID) = none
    · rw [if_pos hlisted]
      refine h.update (fun v hv _ => ?_)
      obtain rfl := Option.some.inj hv
      rw [FixedHash.ofBytes_bytes]
    · rw [if_neg hlisted]
      exact h
  | importKeystore content =>
    rw [given]
    -- Only a key with a uuid comes into the book.
    cases hfile : readKeyFile env.toJsonSpirit content with
    | none => exact h
    | some file =>
      obtain ⟨v, key⟩ := file
      dsimp only
      by_cases hv : v.toBool = true
      · rw [if_pos hv]
        refine h.update (fun w hw hne => ?_)
        obtain ⟨p, hp⟩ := Cipher.exists_of_content hw
        obtain ⟨rfl, -⟩ := Cipher.reveal_eq_some.mp hp
        exact hop v key hfile hv p hne
      · rw [if_neg hv]
        exact h
  | getSecret | updatePassphrase | delete => exact h

/-- The listed addresses are those of accounts. -/
def Accounts (m : AccountManager) : Prop :=
  ∀ a ∈ m.list, ∃ x, a = getCfxUserAddress x m.m_networkID

theorem Accounts.insert (h : m.Accounts) (ks : SecretStore) (x : FixedHash 20) (u : H128) :
    Accounts { m with
      ks := ks
      cfxAddressDic := m.cfxAddressDic.insert (getCfxUserAddress x m.m_networkID) u } := by
  intro a ha
  rcases OrderedMap.mem_keys_insert ha with rfl | ha
  · exact ⟨x, rfl⟩
  · exact h a ha

/-- A call keeps the network, and lists addresses of accounts only. -/
theorem call_accounts (env : StoreEnv) (op : Call) (h : m.Accounts) :
    (m.call env op).Accounts ∧ (m.call env op).m_networkID = m.m_networkID := by
  cases op with
  -- The calls that store a key insert its address, all others keep or erase.
  | create passphrase seed r random => exact ⟨h.insert _ _ _, rfl⟩
  | importPrivateKey secret_key passphrase r random =>
    rw [call, importPrivateKey]
    split
    · exact ⟨h, rfl⟩
    · exact ⟨h.insert _ _ _, rfl⟩
  | importKeystore content =>
    rw [call]
    cases hfile : readKeyFile env.toJsonSpirit content with
    | none =>
      rw [importKeystore_none hfile]
      exact ⟨h, rfl⟩
    | some file =>
      obtain ⟨v, key⟩ := file
      rw [importKeystore_some hfile]
      -- The address is listed only if the store took the key.
      by_cases hv : v.toBool = true
      · simp only [if_pos hv]
        exact ⟨h.insert _ _ _, trivial⟩
      · simp only [if_neg hv]
        exact ⟨h, trivial⟩
  | getSecret addr passphrase =>
    rw [call, getSecret]
    split
    · exact ⟨h, rfl⟩
    · exact ⟨h, rfl⟩
  | updatePassphrase addr passphrase newPassphrase random =>
    rw [call, updatePassphrase]
    split
    · exact ⟨h, rfl⟩
    · exact ⟨h, rfl⟩
  | delete addr passphrase =>
    rw [call, delete]
    split
    · exact ⟨h, rfl⟩
    · dsimp only
      split
      · exact ⟨fun a ha => h a (OrderedMap.mem_keys_erase ha), rfl⟩
      · exact ⟨h, rfl⟩

/-- What holds along a run from an empty store whose new keys are unmixed and owned. -/
structure Sound (env : StoreEnv) (id : UInt32) (m : AccountManager) (book : Book) : Prop where
  filled : m.ks.Filled
  agree : Agree env m book
  owned : BookOwned env id book
  accounts : m.Accounts
  networkID : m.m_networkID = id

theorem Sound.call (hideal : env.toCipher.Ideal) {id : UInt32} (h : Sound env id m book) {op : Call}
    (hunmixed : Unmixed env m op) (howned : Owned env m op) :
    Sound env id (m.call env op) (note env m book op) := by
  obtain ⟨haccounts, hid⟩ := call_accounts env op h.accounts
  have hbook := h.owned
  rw [← h.networkID] at hbook
  have hnote := note_owned hbook howned
  rw [h.networkID] at hnote
  exact ⟨call_filled op h.filled, call_agree hideal h.filled h.agree hunmixed, hnote, haccounts,
    hid.trans h.networkID⟩

theorem sound_empty (hideal : env.toCipher.Ideal) (id : UInt32) :
    Sound env id (initializeFrom id .new []) (initialBook env (initializeFrom id .new [])) := by
  have hinit : Initial env (initializeFrom id .new []) := ⟨id, [], [], List.Perm.refl _, rfl⟩
  refine ⟨hinit.reachable.filled, hinit.agree hideal, ?_, ?_, rfl⟩
  · intro x w hw
    have hnone : initialBook env (initializeFrom id .new []) x = none := rfl
    rw [hnone] at hw
    cases hw
  · intro a ha
    cases ha

theorem run_sound (hideal : env.toCipher.Ideal) {id : UInt32} {calls : List Call}
    (hcalls : Along (AccountManager.call env) (fun m op => Unmixed env m op ∧ Owned env m op)
      (initializeFrom id .new []) calls)
    {pre : List Call} (hpre : pre <+: calls) :
    Sound env id (run (AccountManager.call env) (initializeFrom id .new []) pre)
      (bookAfter env (initializeFrom id .new []) pre) := by
  have hproject : ∀ s op, (callNoted env s op).1 = AccountManager.call env s.1 op := fun _ _ => rfl
  have hfst := Runs.run_project hproject
    (initializeFrom id .new [], initialBook env (initializeFrom id .new [])) pre
  have halong := Along.project hproject
    (s := (initializeFrom id .new [], initialBook env (initializeFrom id .new []))) hcalls
  have hinv := halong.invariant (I := fun s : AccountManager × Book => Sound env id s.1 s.2)
    (fun s op hs hop => hs.call hideal hop.1 hop.2) (sound_empty hideal id) hpre
  rw [hfst] at hinv
  exact hinv

end AccountManager

theorem Address.eq_self (a : Address) : a.eq a = true := by
  simp [Address.eq]

/-- The manager after `noAddressFile` was imported. -/
def unknownAddress : AccountManager where
  m_networkID := 1
  ks := ⟨∅, (∅ : AList _).insert (.ofNat 16 2)
    ⟨sealText keyOne.bytes "two".toList, .zero 20⟩⟩
  cfxAddressDic := noAccounts.cfxAddressDic.insert (getCfxUserAddress (.zero 20) 1) (.ofNat 16 2)

theorem unknownAddress_reachable :
    unknownAddress = run (AccountManager.call keyOneEnv) noAccounts [.importKeystore noAddressFile] := by
  have hread : readKeyFile keyOneEnv.toJsonSpirit noAddressFile =
      some (.ofNat 16 2, ⟨sealText keyOne.bytes "two".toList, .zero 20⟩) := by
    decide +kernel
  show _ = (noAccounts.importKeystore keyOneEnv noAddressFile).1
  rw [AccountManager.importKeystore_some hread, if_pos (by decide)]
  rfl

end ConfluxSdk
