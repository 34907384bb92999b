import ConfluxSdk.Native.SecretStore

/-!
# What the operations of the secret store do

Every operation is described by the texts of the encrypted keys and by the cached
plaintexts, as functions of the uuid.

## Key results

- `SecretStore.secret_cached`, `SecretStore.secret_decrypted`: what `secret` returns and
  leaves behind
- `SecretStore.recode_eq`: `recode` works on what `secret` returns with the cache
- `Cipher.Ideal.value_unique`: with ideal encryption, a text holds one plaintext
-/

namespace ConfluxSdk

/-! ### Ideal encryption -/

/-- A text that was encrypted is decrypted by its passphrase, and no text is decrypted by
    two passphrases. -/
structure Cipher.Ideal (c : Cipher) : Prop where
  decrypt_encrypt : ∀ v p random, c.decrypt (c.encrypt v p random) p = v
  decrypt_other : ∀ t p q, c.decrypt t p ≠ [] → q ≠ p → c.decrypt t q = []

/-- What a passphrase reveals of a text, if anything. -/
def Cipher.reveal (c : Cipher) (t p : Str) : Option (List UInt8) :=
  if c.decrypt t p = [] then none else some (c.decrypt t p)

theorem Cipher.reveal_eq_some {c : Cipher} {t p : Str} {v : List UInt8} :
    c.reveal t p = some v ↔ c.decrypt t p = v ∧ v ≠ [] := by
  unfold Cipher.reveal
  split
  · rename_i h
    simp only [h, reduceCtorEq, false_iff, not_and, not_not]
    exact fun hv => hv.symm
  · rename_i h
    simp only [Option.some.injEq]
    exact ⟨fun hv => ⟨hv, hv ▸ h⟩, fun hv => hv.1⟩

theorem Cipher.Ideal.value_unique {c : Cipher} (hc : c.Ideal) {t p q : Str} {v w : List UInt8}
    (hv : c.reveal t p = some v) (hw : c.reveal t q = some w) : v = w := by
  rw [Cipher.reveal_eq_some] at hv hw
  obtain ⟨rfl, hv⟩ := hv
  obtain ⟨rfl, hw⟩ := hw
  by_cases hpq : q = p
  · rw [hpq]
  · exact absurd (hc.decrypt_other t p q hv hpq) hw

theorem Cipher.Ideal.reveal_encrypt {c : Cipher} (hc : c.Ideal) {v : List UInt8} {p : Str}
    {random : List UInt8} (hv : v ≠ []) : c.reveal (c.encrypt v p random) p = some v := by
  rw [Cipher.reveal_eq_some, hc.decrypt_encrypt]
  exact ⟨rfl, hv⟩

/-! ### Association lists as functions -/

theorem lookup_insert_update {α β : Type} [DecidableEq α] (s : AList fun _ : α => β) (a : α) (b : β) :
    (fun x => (s.insert a b).lookup x) = Function.update (fun x => s.lookup x) a (some b) := by
  funext x
  rw [Function.update_apply]
  split
  · rename_i h
    rw [h, AList.lookup_insert]
  · rw [AList.lookup_insert_ne ‹_›]

theorem lookup_erase_update {α β : Type} [DecidableEq α] (s : AList fun _ : α => β) (a : α) :
    (fun x => (s.erase a).lookup x) = Function.update (fun x => s.lookup x) a none := by
  funext x
  rw [Function.update_apply]
  split
  · rename_i h
    rw [h, AList.lookup_erase]
  · rw [AList.lookup_erase_ne ‹_›]

namespace SecretStore

variable (env : StoreEnv) (ks : SecretStore)

/-- The cached plaintext of a uuid. -/
def cached (u : H128) : Option (List UInt8) := ks.m_cached.lookup u

/-- The stored key of a uuid. -/
def stored (u : H128) : Option EncryptedKey := ks.m_keys.lookup u

/-- The text of the encrypted key of a uuid. -/
def text (u : H128) : Option Str := (ks.stored u).map EncryptedKey.encryptedKey

/-- What a passphrase decrypts the key of a uuid to; empty where there is no key. -/
def plain (u : H128) (p : Str) : List UInt8 :=
  match ks.text u with
  | none => []
  | some t => env.decrypt t p

/-! ### Views of an updated store -/

/-- A store with an assigned key. -/
theorem stored_insert (u : H128) (key : EncryptedKey) (m_cached : AList fun _ : H128 => List UInt8) :
    stored ⟨m_cached, ks.m_keys.insert u key⟩ = Function.update ks.stored u (some key) :=
  lookup_insert_update ks.m_keys u key

theorem text_insert (u : H128) (key : EncryptedKey) (m_cached : AList fun _ : H128 => List UInt8) :
    text ⟨m_cached, ks.m_keys.insert u key⟩ =
      Function.update ks.text u (some key.encryptedKey) := by
  funext x
  rw [text, stored_insert, Function.update_apply, Function.update_apply]
  split
  · rfl
  · rfl

theorem cached_insert (u : H128) (v : List UInt8) (m_keys : AList fun _ : H128 => EncryptedKey) :
    cached ⟨ks.m_cached.insert u v, m_keys⟩ = Function.update ks.cached u (some v) :=
  lookup_insert_update ks.m_cached u v

theorem cached_erase (u : H128) (m_keys : AList fun _ : H128 => EncryptedKey) :
    cached ⟨ks.m_cached.erase u, m_keys⟩ = Function.update ks.cached u none :=
  lookup_erase_update ks.m_cached u

/-! ### noteAddress -/

/-- Noting an address changes no text, no cached plaintext and no other key. -/
theorem noteAddress_spec (u : H128) (address : FixedHash 20) :
    (ks.noteAddress u address).1.text = ks.text ∧
      (ks.noteAddress u address).1.cached = ks.cached ∧
      ∀ x, x ≠ u → (ks.noteAddress u address).1.stored x = ks.stored x := by
  unfold noteAddress
  cases hkey : ks.m_keys.lookup u with
  | none => exact ⟨rfl, rfl, fun _ _ => rfl⟩
  | some key =>
    dsimp only
    split
    · refine ⟨?_, rfl, fun x hx => ?_⟩
      · rw [text_insert]
        funext x
        rw [Function.update_apply]
        split
        · rename_i hx
          rw [hx, text, stored, hkey]
          rfl
        · rfl
      · rw [stored_insert, Function.update_of_ne hx]
    · exact ⟨rfl, rfl, fun _ _ => rfl⟩

/-! ### secret -/

variable {u : H128} {useCache : Bool}

variable {ks} in
/-- A cached key is returned, whatever the passphrase. -/
theorem secret_cached (p : Str) {v : List UInt8} (h : ks.cached u = some v) :
    ks.secret env u p true = (ks, v) := by
  unfold secret
  rw [if_pos rfl, show ks.m_cached.lookup u = some v from h]

/-- What is left of the store when a key was decrypted. -/
structure Decrypted (ks ks' : SecretStore) (u : H128) (key : List UInt8) : Prop where
  text : ks'.text = ks.text
  cached : ks'.cached = Function.update ks.cached u (some key)
  stored : ∀ x, x ≠ u → ks'.stored x = ks.stored x

/-- Without a cached key, the passphrase decides. -/
theorem secret_plain (p : Str) (h : useCache = true → ks.cached u = none) :
    (ks.secret env u p useCache).2 = ks.plain env u p ∧
      (ks.plain env u p = [] → (ks.secret env u p useCache).1 = ks) ∧
      (ks.plain env u p ≠ [] →
        Decrypted ks (ks.secret env u p useCache).1 u (ks.plain env u p)) := by
  -- Whatever `useCache` says, the cache gives no secret.
  have hcache : (if useCache then ks.m_cached.lookup u else none) = none := by
    split
    · exact h ‹_›
    · rfl
  unfold secret
  rw [hcache]
  dsimp only
  cases hkey : ks.m_keys.lookup u with
  | none =>
    have hplain : ks.plain env u p = [] := by
      rw [plain, text, stored, hkey]
      rfl
    rw [hplain]
    exact ⟨rfl, fun _ => rfl, fun hne => absurd rfl hne⟩
  | some key =>
    have hplain : ks.plain env u p = env.decrypt key.encryptedKey p := by
      rw [plain, text, stored, hkey]
      rfl
    rw [hplain]
    dsimp only
    split
    · -- A passphrase that does not fit decrypts to nothing.
      rename_i hnil
      exact ⟨rfl, fun _ => rfl, fun hne => absurd hnil hne⟩
    · -- The secret is cached, and the key file learns its address.
      rename_i hne
      obtain ⟨htext, hcached, hstored⟩ := noteAddress_spec
        (⟨ks.m_cached.insert u (env.decrypt key.encryptedKey p), ks.m_keys⟩ : SecretStore) u
        (env.toAddress (.ofBytes 32 (env.decrypt key.encryptedKey p)))
      refine ⟨rfl, fun hnil => absurd hnil hne, fun _ => ⟨htext, ?_, hstored⟩⟩
      rw [hcached, cached_insert]

variable {ks} in
theorem secret_uncached (p : Str) (h : ks.cached u = none) :
    (ks.secret env u p true).2 = ks.plain env u p ∧
      (ks.plain env u p = [] → (ks.secret env u p true).1 = ks) ∧
      (ks.plain env u p ≠ [] → Decrypted ks (ks.secret env u p true).1 u (ks.plain env u p)) :=
  secret_plain env ks p fun _ => h

/-- Where the cache is not to be used, the passphrase decides always. -/
theorem secret_asked (u : H128) (p : Str) :
    (ks.secret env u p false).2 = ks.plain env u p ∧
      (ks.plain env u p = [] → (ks.secret env u p false).1 = ks) ∧
      (ks.plain env u p ≠ [] → Decrypted ks (ks.secret env u p false).1 u (ks.plain env u p)) :=
  secret_plain env ks p fun h => by cases h

/-! ### importSecret, readKeyContent, kill -/

variable {env ks}

theorem importSecret_text (s : List UInt8) (pass : Str) (r : H128) (random : List UInt8) :
    (ks.importSecret env s pass r random).1.text =
      Function.update ks.text r (some (env.encrypt s pass random)) :=
  text_insert ks r _ _

theorem importSecret_cached (s : List UInt8) (pass : Str) (r : H128) (random : List UInt8) :
    (ks.importSecret env s pass r random).1.cached = Function.update ks.cached r (some s) :=
  cached_insert ks r s _

theorem kill_text (u : H128) : (ks.kill u).text = Function.update ks.text u none := by
  funext x
  have hlookup := congrFun (lookup_erase_update ks.m_keys u) x
  rw [text, stored, kill, hlookup, Function.update_apply, Function.update_apply]
  split
  · rfl
  · rfl

theorem kill_cached (u : H128) : (ks.kill u).cached = Function.update ks.cached u none :=
  cached_erase ks u _

theorem kill_stored {x : H128} (h : x ≠ u) : (ks.kill u).stored x = ks.stored x :=
  AList.lookup_erase_ne h

/-! ### recode -/

variable (env ks) in
/-- `recode` on what `secret` returns with the cache. -/
theorem recode_eq (u : H128) (newPass pass : Str) (random : List UInt8) :
    ((ks.secret env u pass true).2 = [] → ks.recode env u newPass pass random =
      ((ks.secret env u pass true).1, false)) ∧
    ((ks.secret env u pass true).2 ≠ [] →
      (ks.recode env u newPass pass random).2 = true ∧
      (ks.recode env u newPass pass random).1.text =
        Function.update (ks.secret env u pass true).1.text u
          (some (env.encrypt (ks.secret env u pass true).2 newPass random)) ∧
      (ks.recode env u newPass pass random).1.cached =
        Function.update (ks.secret env u pass true).1.cached u none) := by
  unfold recode
  generalize ks.secret env u pass true = result
  obtain ⟨ks', key⟩ := result
  cases key with
  | nil => exact ⟨fun _ => rfl, fun hne => absurd rfl hne⟩
  | cons b s =>
    refine ⟨fun h => absurd h (List.cons_ne_nil b s), fun _ => ⟨rfl, ?_, ?_⟩⟩
    · exact text_insert ks' u _ _
    · exact cached_erase ks' u _

end SecretStore

end ConfluxSdk
