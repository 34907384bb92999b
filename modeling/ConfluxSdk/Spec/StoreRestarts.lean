import ConfluxSdk.Spec.StoreDirectoryCorrect

/-!
# Secret stores that are closed and opened again

Runs of the operations on a store with a directory, where the program may end and start
again at any time. The keys that are in memory are those of the store that is opened next,
and but for the cache the operations answer as if it had been open all the time.

## Key results

- `StoreDirectory.restart_run`: what is in memory after a run is there after a restart
- `StoreDirectory.replies_run`: restarts cannot be told from a cache that is cleared
- `StoreDirectory.secret_kept_run`: an imported secret is kept by every run that leaves its
  key alone
-/

namespace ConfluxSdk

namespace StoreDirectory

variable {env : DirectoryEnv} {d : StoreDirectory} {path : Str} {files : AList fun _ : Str => Str}

/-! ### Operations -/

/-- The operations on a store. `reopen` is the end of the program and its next start. -/
inductive Action where
  | importSecret (s : List UInt8) (pass : Str) (r : H128) (random : List UInt8)
      (order : VisitOrder H128)
  | importKeyContent (content : Str) (order : VisitOrder H128)
  | kill (u : H128)
  | secret (u : H128) (pass : Str) (useCache : Bool)
  | recode (u : H128) (newPass pass : Str) (random : List UInt8) (order : VisitOrder H128)
  | recodeByAddress (address : FixedHash 20) (newPass pass : Str) (random : List UInt8)
      (order : VisitOrder H128)
  | noteAddress (u : H128) (address : FixedHash 20)
  | clearCache
  | save (order : VisitOrder H128)
  | reopen (listing : VisitOrder Str)

/-- What an operation returns. Whether an address was noted is left out. -/
inductive Reply where
  | imported (uuid : Option H128)
  | plain (key : List UInt8)
  | recoded (done : Option Bool)
  | done
  deriving DecidableEq

/-- One operation. -/
def step (env : DirectoryEnv) (d : StoreDirectory) : Action → StoreDirectory × Reply
  | .importSecret s pass r random order =>
    let (d, r) := d.importSecret env s pass r random order
    (d, .imported r)
  | .importKeyContent content order =>
    let (d, u) := d.importKeyContent env content order
    (d, .imported (some u))
  | .kill u => (d.kill u, .done)
  | .secret u pass useCache =>
    let (d, key) := d.secret env u pass useCache
    (d, .plain key)
  | .recode u newPass pass random order =>
    let (d, done) := d.recode env u newPass pass random order
    (d, .recoded done)
  | .recodeByAddress address newPass pass random order =>
    let (d, done) := d.recodeByAddress env address newPass pass random order
    (d, .recoded done)
  | .noteAddress u address => ((d.noteAddress u address).1, .done)
  | .clearCache => (d.clearCache, .done)
  | .save order => (d.save env order, .done)
  | .reopen listing => (new env d.m_path d.files listing, .done)

/-- The store after some operations. -/
abbrev runOf (env : DirectoryEnv) (d : StoreDirectory) (actions : List Action) : StoreDirectory :=
  Runs.run (fun d a => (step env d a).1) d actions

/-- A key file that is imported has no reals in its key. -/
def Action.Exact (env : DirectoryEnv) : Action → Prop
  | .importKeyContent content _ =>
    ∀ u key, readFile env content = some (u, key) → Sound env key.encryptedKey
  | _ => True

/-- Every operation leaves the directory in accordance with the memory. -/
theorem Synced.step (henv : Portable env) (h : Synced env d) {a : Action} (ha : a.Exact env) :
    Synced env (step env d a).1 := by
  cases a with
  | importSecret s pass r random order => exact h.importSecret henv s pass r random order
  | importKeyContent content order => exact h.importKeyContent ha order
  | kill u => exact h.kill u
  | secret u pass useCache => exact h.learnt (learntAll_secret env.toStoreEnv d.ks u pass useCache)
  | recode u newPass pass random order => exact h.recode henv u newPass pass random order
  | recodeByAddress address newPass pass random order =>
    exact h.recodeByAddress henv address newPass pass random order
  | noteAddress u address => exact h.learnt (learntAll_noteAddress d.ks u address)
  | clearCache => exact h.learnt (.of_eq rfl)
  | save order => exact h.pending.save order
  | reopen listing => exact synced_new h.m_path h.proper listing

theorem Synced.run (henv : Portable env) (h : Synced env d) {actions : List Action}
    (hactions : ∀ a ∈ actions, a.Exact env) : Synced env (runOf env d actions) := by
  induction actions generalizing d with
  | nil => exact h
  | cons a actions ih =>
    rw [List.forall_mem_cons] at hactions
    exact ih (h.step henv hactions.1) hactions.2

/-! ### What a key is decrypted to -/

/-- The value of the key of a uuid. -/
def valueAt (env : DirectoryEnv) (ks : SecretStore) (u : H128) : Option Json :=
  (ks.text u).map (valueOf env)

theorem valueAt_congr {ks ks' : SecretStore} {u : H128}
    (h : Option.Rel (SameKey env) (ks.stored u) (ks'.stored u)) :
    valueAt env ks' u = valueAt env ks u := by
  rw [valueAt, valueAt, SecretStore.text, SecretStore.text]
  generalize ks.stored u = key at h
  generalize ks'.stored u = key' at h
  cases h with
  | none => rfl
  | some hsame => exact congrArg some hsame.value

/-- Keys of one value are decrypted alike. -/
theorem plain_congr (henv : Portable env) {ks ks' : SecretStore} {u : H128}
    (h : valueAt env ks' u = valueAt env ks u) (pass : Str) :
    ks'.plain env.toStoreEnv u pass = ks.plain env.toStoreEnv u pass := by
  rw [valueAt, valueAt] at h
  rw [SecretStore.plain, SecretStore.plain]
  cases htext : ks.text u with
  | none =>
    rw [htext, Option.map_none, Option.map_eq_none_iff] at h
    rw [h]
  | some t =>
    rw [htext, Option.map_some, Option.map_eq_some_iff] at h
    obtain ⟨t', htext', hvalue⟩ := h
    rw [htext']
    exact henv.decrypt t' t pass hvalue

/-- The libraries as far as one key needs them that is encrypted with `scrypt`. -/
def oneKey : KeyCrypto where
  deriveKey _ _ iterations dkLen := (iterations, KeyCrypto.buffer [] dkLen)
  deriveKey_length _ _ _ _ := KeyCrypto.length_buffer _ _
  libscrypt _ _ _ _ _ dkLen := (0, KeyCrypto.buffer (KeyCrypto.fromHex
    "68a910a851cb76160dce4399bf753af575d136b154be81cb9dff813f15b35047".toList) dkLen)
  libscrypt_length _ _ _ _ _ _ := KeyCrypto.length_buffer _ _
  aes _ counter :=
    if counter.bytes = KeyCrypto.fromHex "6087dab2f9fdbbfaddc31a909735c1e6".toList then
      .ofBytes 16 (KeyCrypto.fromHex "ed3cc5a1b70d1d3504ce5d669915fcac".toList)
    else .ofBytes 16 (KeyCrypto.fromHex "cf1a9e73d8e05056cdd42676d0d23f2d".toList)
  sha3 data :=
    -- The code of the encrypted key is computed from 48 bytes, the address from 64.
    if data.length = 48 then .ofBytes 32 (KeyCrypto.fromHex
      "ef4909d3a20cb86b1467c4669bbac4120edbfb5c5b5fa31e03f5dfd634573d5c".toList)
    else .ofBytes 32 (KeyCrypto.fromHex
      "0dc70cae89ba8a39f1efdeca008aeeda4d805471df9b2a5b0f38a0c3bcba786b".toList)

/-- The public key of that key. -/
def onePublic : FixedHash 64 := .ofBytes 64 (KeyCrypto.fromHex
  ("32d87c5cd4b31d81c5b010af42a2e413af253dc3a91bd3d53c6b2c45291c3de7" ++
    "1633bf7793447a0d3ddde601f8d21668fca5b33324f14ebe7516eab0da8bab8f").toList)

/-- The characters that are printed as they are. -/
def oneLocale : JsonLocale := ⟨fun c => 32 ≤ c ∧ c < 127, fun _ => [], fun _ => 0⟩

/-- What the program uses for that key. -/
abbrev oneKeyEnv : DirectoryEnv := oneKey.directoryEnv (fun _ => onePublic) oneLocale

/-- The secret of that key. -/
def oneSecret : List UInt8 :=
  KeyCrypto.fromHex "7a28b5ba57c53603b0b07b56bba752f7784bf506fa95edc395f5cf6c7514fe9d".toList

/-- What is drawn when it is imported: the uuid, the salt and the initial vector. -/
def oneUuid : H128 := fromUUID "3198bc9c-6672-5ab3-d995-4942343ae5b6".toList

def oneRandom : List UInt8 :=
  KeyCrypto.fromHex ("ae3cd4e7013836a3df6bd7241b12db061dbe2c6785853cce422d148a624ce0bd" ++
    "6087dab2f9fdbbfaddc31a909735c1e6").toList

theorem proper_empty (env : DirectoryEnv) (path : Str) : Proper env path ∅ :=
  fun _ _ _ hlookup => absurd hlookup (Option.some_ne_none _).symm

theorem save_ks (order : VisitOrder H128) : (d.save env order).ks = d.ks := by
  have hfold : ∀ (path : Str) (keys : List H128) (d : StoreDirectory),
      (keys.foldl (writeKey env path) d).ks = d.ks := by
    intro path keys
    induction keys with
    | nil => exact fun _ => rfl
    | cons u keys ih =>
      intro d
      rw [List.foldl_cons, ih, writeKey]
      split
      · rfl
      · rfl
  rw [save, saveTo]
  split
  · rfl
  · exact hfold _ _ _

/-- Two stores that hold the same for every uuid but zero: values of keys, and cache. -/
def Same (env : DirectoryEnv) (ks ks' : SecretStore) : Prop :=
  ∀ u, u.toBool = true → ks.cached u = ks'.cached u ∧ valueAt env ks u = valueAt env ks' u

theorem Same.update {ks ks' ks₁ ks₁' : SecretStore} (h : Same env ks ks') (u : H128)
    {v : Option (List UInt8)} {t : Option Str}
    (hcached : ks₁.cached = Function.update ks.cached u v)
    (hcached' : ks₁'.cached = Function.update ks'.cached u v)
    (htext : ks₁.text = Function.update ks.text u t)
    (htext' : ks₁'.text = Function.update ks'.text u t) : Same env ks₁ ks₁' := by
  intro x hx
  obtain ⟨hc, hv⟩ := h x hx
  rw [valueAt, valueAt] at hv ⊢
  rw [hcached, hcached', htext, htext', Function.update_apply, Function.update_apply,
    Function.update_apply, Function.update_apply]
  split
  · exact ⟨rfl, rfl⟩
  · exact ⟨hc, hv⟩

/-- A cached plaintext leaves both. -/
theorem Same.uncache {ks ks' : SecretStore} (h : Same env ks ks') (u : H128) :
    Same env { ks with m_cached := ks.m_cached.erase u } { ks' with m_cached := ks'.m_cached.erase u } := by
  intro x hx
  obtain ⟨hc, hv⟩ := h x hx
  refine ⟨?_, hv⟩
  rw [SecretStore.cached_erase, SecretStore.cached_erase, Function.update_apply,
    Function.update_apply, hc]

/-- A key is asked for in both. -/
theorem Same.secret (henv : Portable env) {ks ks' : SecretStore} (h : Same env ks ks') {u : H128}
    (hu : u.toBool = true) (pass : Str) (useCache : Bool) :
    (ks.secret env.toStoreEnv u pass useCache).2 = (ks'.secret env.toStoreEnv u pass useCache).2 ∧
      Same env (ks.secret env.toStoreEnv u pass useCache).1
        (ks'.secret env.toStoreEnv u pass useCache).1 := by
  obtain ⟨hcached, hvalue⟩ := h u hu
  by_cases hhit : useCache = true ∧ ∃ v, ks.cached u = some v
  · obtain ⟨rfl, v, hv⟩ := hhit
    rw [SecretStore.secret_cached env.toStoreEnv pass hv,
      SecretStore.secret_cached env.toStoreEnv pass (hcached ▸ hv)]
    exact ⟨rfl, h⟩
  · have hmiss : useCache = true → ks.cached u = none := by
      intro huse
      cases hv : ks.cached u with
      | none => rfl
      | some v => exact absurd ⟨huse, v, hv⟩ hhit
    obtain ⟨hreply, hwrong, hright⟩ := SecretStore.secret_plain env.toStoreEnv ks pass hmiss
    obtain ⟨hreply', hwrong', hright'⟩ :=
      SecretStore.secret_plain env.toStoreEnv ks' pass fun huse => hcached ▸ hmiss huse
    have hplain := plain_congr henv hvalue pass
    refine ⟨by rw [hreply, hreply', hplain], ?_⟩
    by_cases hnil : ks.plain env.toStoreEnv u pass = []
    · rw [hwrong hnil, hwrong' (hplain ▸ hnil)]
      exact h
    · obtain ⟨htext, hcache, -⟩ := hright hnil
      obtain ⟨htext', hcache', -⟩ := hright' (hplain ▸ hnil)
      intro x hx
      obtain ⟨hc, hv⟩ := h x hx
      rw [valueAt, valueAt] at hv ⊢
      rw [htext, htext', hcache, hcache', hplain, Function.update_apply, Function.update_apply]
      split
      · exact ⟨rfl, hv⟩
      · exact ⟨hc, hv⟩

/-- An operation of the store without a directory: a restart clears its cache. -/
def Action.withoutRestart : Action → Action
  | .reopen _ => .clearCache
  | a => a

/-- Keys are asked for by uuids that are not zero. -/
def Action.ByUuid : Action → Prop
  | .secret u _ _ => u.toBool = true
  | .recode u _ _ _ _ => u.toBool = true
  | .recodeByAddress .. => False
  | _ => True

theorem same_importSecret {d' : StoreDirectory} (h : Same env d.ks d'.ks) (s : List UInt8)
    (pass : Str) (r : H128) (random : List UInt8) (order : VisitOrder H128) :
    (d.importSecret env s pass r random order).2 = (d'.importSecret env s pass r random order).2 ∧
      Same env (d.importSecret env s pass r random order).1.ks
        (d'.importSecret env s pass r random order).1.ks := by
  rw [importSecret, importSecret]
  split
  · exact ⟨rfl, h⟩
  · rw [save_ks, save_ks]
    exact ⟨rfl, h.update r (SecretStore.importSecret_cached s pass r random)
      (SecretStore.importSecret_cached s pass r random)
      (SecretStore.importSecret_text s pass r random)
      (SecretStore.importSecret_text s pass r random)⟩

theorem importKeyContent_ks (content : Str) (order : VisitOrder H128) :
    (d.importKeyContent env content order).1.ks = (d.readKeyContent env content []).1.ks := by
  rw [importKeyContent]
  dsimp only
  split
  · exact save_ks order
  · rfl

theorem same_importKeyContent {d' : StoreDirectory} (h : Same env d.ks d'.ks) (content : Str)
    (order : VisitOrder H128) :
    (d.importKeyContent env content order).2 = (d'.importKeyContent env content order).2 ∧
      Same env (d.importKeyContent env content order).1.ks
        (d'.importKeyContent env content order).1.ks := by
  rw [importKeyContent_ks, importKeyContent_ks, importKeyContent, importKeyContent]
  dsimp only
  cases hread : readFile env content with
  | none =>
    rw [readKeyContent_none hread, readKeyContent_none hread]
    exact ⟨rfl, h⟩
  | some found =>
    obtain ⟨u, key⟩ := found
    rw [readKeyContent_some hread, readKeyContent_some hread]
    refine ⟨rfl, fun x hx => ?_⟩
    obtain ⟨hc, hv⟩ := h x hx
    rw [valueAt, valueAt] at hv ⊢
    refine ⟨hc, ?_⟩
    rw [SecretStore.text_insert, SecretStore.text_insert, Function.update_apply,
      Function.update_apply]
    split
    · rfl
    · exact hv

theorem same_recode (henv : Portable env) {d' : StoreDirectory} (h : Same env d.ks d'.ks) {u : H128}
    (hu : u.toBool = true) (newPass pass : Str) (random : List UInt8) (order : VisitOrder H128) :
    (d.recode env u newPass pass random order).2 = (d'.recode env u newPass pass random order).2 ∧
      Same env (d.recode env u newPass pass random order).1.ks
        (d'.recode env u newPass pass random order).1.ks := by
  obtain ⟨hreply, hsame⟩ := h.secret henv hu pass true
  rw [recode, recode]
  generalize d.ks.secret env.toStoreEnv u pass true = result at hreply hsame
  generalize d'.ks.secret env.toStoreEnv u pass true = result' at hreply hsame
  obtain ⟨ks, key⟩ := result
  obtain ⟨ks', key'⟩ := result'
  obtain rfl : key = key' := hreply
  cases key with
  | nil => exact ⟨rfl, hsame⟩
  | cons b s =>
    dsimp only
    split
    · exact ⟨rfl, hsame.uncache u⟩
    · rw [save_ks, save_ks]
      exact ⟨rfl, hsame.update u (SecretStore.cached_erase ks u _) (SecretStore.cached_erase ks' u _)
        (SecretStore.text_insert ks u _ _) (SecretStore.text_insert ks' u _ _)⟩

/-- One operation on a store with a directory and on one without. -/
theorem same_step (henv : Portable env) {d' : StoreDirectory} (hsynced : Synced env d)
    (h : Same env d.ks d'.ks) {a : Action} (ha : a.ByUuid) :
    (step env d a).2 = (step env d' a.withoutRestart).2 ∧
      Same env (step env d a).1.ks (step env d' a.withoutRestart).1.ks := by
  cases a with
  | importSecret s pass r random order =>
    obtain ⟨hreply, hsame⟩ := same_importSecret h s pass r random order
    exact ⟨congrArg Reply.imported hreply, hsame⟩
  | importKeyContent content order =>
    obtain ⟨hreply, hsame⟩ := same_importKeyContent h content order
    exact ⟨congrArg (Reply.imported ∘ some) hreply, hsame⟩
  | kill u =>
    exact ⟨rfl, h.update u (SecretStore.kill_cached u) (SecretStore.kill_cached u)
      (SecretStore.kill_text u) (SecretStore.kill_text u)⟩
  | secret u pass useCache =>
    obtain ⟨hreply, hsame⟩ := h.secret henv ha pass useCache
    exact ⟨congrArg Reply.plain hreply, hsame⟩
  | recode u newPass pass random order =>
    obtain ⟨hreply, hsame⟩ := same_recode henv h ha newPass pass random order
    exact ⟨congrArg Reply.recoded hreply, hsame⟩
  | recodeByAddress address newPass pass random order => exact absurd ha id
  | noteAddress u address =>
    refine ⟨rfl, fun x hx => ?_⟩
    obtain ⟨hc, hv⟩ := h x hx
    obtain ⟨htext, hcached, -⟩ := SecretStore.noteAddress_spec d.ks u address
    obtain ⟨htext', hcached', -⟩ := SecretStore.noteAddress_spec d'.ks u address
    rw [valueAt, valueAt] at hv ⊢
    show SecretStore.cached (d.ks.noteAddress u address).1 x =
        SecretStore.cached (d'.ks.noteAddress u address).1 x ∧
      (SecretStore.text (d.ks.noteAddress u address).1 x).map (valueOf env) =
        (SecretStore.text (d'.ks.noteAddress u address).1 x).map (valueOf env)
    rw [htext, htext', hcached, hcached']
    exact ⟨hc, hv⟩
  | clearCache => exact ⟨rfl, fun x hx => ⟨rfl, (h x hx).2⟩⟩
  | save order =>
    refine ⟨rfl, ?_⟩
    show Same env (d.save env order).ks (d'.save env order).ks
    rw [save_ks, save_ks]
    exact h
  | reopen listing =>
    refine ⟨rfl, fun x hx => ⟨?_, ?_⟩⟩
    · exact (loaded_new hsynced.m_path d.files listing).2.cached x
    · exact (valueAt_congr (hsynced.reopened listing hx)).trans (h x hx).2

/-- An operation that leaves the key of a uuid alone. -/
def Spares (env : DirectoryEnv) (r : H128) (d : StoreDirectory) : Action → Prop
  | .importSecret _ _ u _ _ => u ≠ r
  | .importKeyContent content _ => ∀ key, readFile env content ≠ some (r, key)
  | .kill u => u ≠ r
  | .recode u _ _ _ _ => u ≠ r
  | .recodeByAddress address _ _ _ order => d.key address order ≠ some r
  | _ => True

theorem valueAt_update {ks ks' : SecretStore} {u r : H128} {t : Option Str} (hne : u ≠ r)
    (h : ks'.text = Function.update ks.text u t) : valueAt env ks' r = valueAt env ks r := by
  rw [valueAt, valueAt, h, Function.update_of_ne hne.symm]

theorem secret_text (env : StoreEnv) (ks : SecretStore) (u : H128) (pass : Str) (useCache : Bool) :
    (ks.secret env u pass useCache).1.text = ks.text := by
  funext x
  have hlearnt := learntAll_secret env ks u pass useCache x
  rw [SecretStore.text, SecretStore.text]
  generalize ks.stored x = key at hlearnt
  generalize (ks.secret env u pass useCache).1.stored x = key' at hlearnt
  cases hlearnt with
  | none => rfl
  | some hkey => exact congrArg some hkey.1

/-- The value of a key that is left alone stays. -/
theorem valueAt_step (hsynced : Synced env d) {r : H128} (hr : r.toBool = true) {a : Action}
    (ha : Spares env r d a) : valueAt env (step env d a).1.ks r = valueAt env d.ks r := by
  cases a with
  | importSecret s pass u random order =>
    show valueAt env (d.importSecret env s pass u random order).1.ks r = _
    rw [importSecret]
    split
    · rfl
    · rw [save_ks]
      exact valueAt_update ha (SecretStore.importSecret_text s pass u random)
  | importKeyContent content order =>
    show valueAt env (d.importKeyContent env content order).1.ks r = _
    rw [importKeyContent_ks]
    cases hread : readFile env content with
    | none => rw [readKeyContent_none hread]
    | some found =>
      obtain ⟨u, key⟩ := found
      have hne : u ≠ r := by
        rintro rfl
        exact ha key hread
      rw [readKeyContent_some hread]
      exact valueAt_update hne (SecretStore.text_insert d.ks u key _)
  | kill u => exact valueAt_update ha (SecretStore.kill_text u)
  | secret u pass useCache =>
    show valueAt env (d.ks.secret env.toStoreEnv u pass useCache).1 r = _
    rw [valueAt, secret_text, valueAt]
  | recode u newPass pass random order =>
    show valueAt env (d.recode env u newPass pass random order).1.ks r = _
    have htext := secret_text env.toStoreEnv d.ks u pass true
    rw [recode]
    generalize d.ks.secret env.toStoreEnv u pass true = result at htext
    obtain ⟨ks, key⟩ := result
    have hsecret : valueAt env ks r = valueAt env d.ks r := by
      rw [valueAt, htext, valueAt]
    cases key with
    | nil => exact hsecret
    | cons b s =>
      dsimp only
      split
      · exact hsecret
      · rw [save_ks]
        exact (valueAt_update ha (SecretStore.text_insert ks u _ _)).trans hsecret
  | recodeByAddress address newPass pass random order =>
    show valueAt env (d.recodeByAddress env address newPass pass random order).1.ks r = _
    rw [recodeByAddress]
    split
    · rfl
    · rename_i u hkey
      have hne : u ≠ r := by
        rintro rfl
        exact ha hkey
      split
      · rfl
      · dsimp only
        split
        · rfl
        · rw [save_ks]
          exact valueAt_update hne (SecretStore.text_insert d.ks u _ _)
  | noteAddress u address =>
    show valueAt env (d.ks.noteAddress u address).1 r = _
    rw [valueAt, (SecretStore.noteAddress_spec d.ks u address).1, valueAt]
  | clearCache => rfl
  | save order =>
    show valueAt env (d.save env order).ks r = _
    rw [save_ks]
  | reopen listing => exact valueAt_congr (hsynced.reopened listing hr)

/-- A text that is encrypted, and any other text of its value, is decrypted to the secret. -/
theorem decrypt_own {lib : KeyCrypto} {toPublic : FixedHash 32 → FixedHash 64}
    {locale : JsonLocale} {s : List UInt8} {pass : Str} {random : List UInt8}
    (hne : (lib.directoryEnv toPublic locale).encrypt s pass random ≠ []) {t : Str}
    (ht : valueOf (lib.directoryEnv toPublic locale) t =
      valueOf (lib.directoryEnv toPublic locale)
        ((lib.directoryEnv toPublic locale).encrypt s pass random)) :
    (lib.directoryEnv toPublic locale).decrypt t pass = s := by
  cases htext : lib.encrypt locale s pass .scrypt (random.take 32)
      (.ofBytesLeft 16 (random.drop 32)) with
  | error e => exact absurd (KeyCrypto.cipher_encrypt_error htext) hne
  | ok text =>
    have hencrypt : (lib.directoryEnv toPublic locale).encrypt s pass random = text :=
      KeyCrypto.cipher_encrypt_ok htext
    rw [hencrypt] at ht
    exact KeyCrypto.cipher_decrypt_encrypt htext ht

/-- The text of that key is there. -/
theorem oneKey_encrypt_ne_nil : oneKeyEnv.encrypt oneSecret "testpassword".toList oneRandom ≠ [] := by
  have hderive : oneKey.derive "testpassword".toList .scrypt (oneRandom.take 32) = .ok _ := rfl
  obtain ⟨text, htext⟩ := encrypt_ok hderive (by decide : oneSecret ≠ []) oneLocale
    (.ofBytesLeft 16 (oneRandom.drop 32))
  rw [Ne, encrypt_eq_nil_iff, htext]
  rintro ⟨e, he⟩
  cases he

/-- Every file of a directory is read as a key, no two as the same, and none that is named by
    a key is read as another. -/
structure Foreign (env : DirectoryEnv) (path : Str) (files : AList fun _ : Str => Str) : Prop where
  readable : ∀ file content, Path.isChild path file = true → files.lookup file = some content →
    ∃ u key, readFile env content = some (u, key) ∧ Sound env key.encryptedKey
  distinct : ∀ file file' content content' u key key', Path.isChild path file = true →
    Path.isChild path file' = true → files.lookup file = some content →
    files.lookup file' = some content' → readFile env content = some (u, key) →
    readFile env content' = some (u, key') → file = file'
  own : ∀ u v content key, files.lookup (keyPath path v) = some content →
    readFile env content = some (u, key) → u = v

/-- The key of such a file is in memory when the directory is opened. -/
theorem Foreign.stored (hfiles : Foreign env path files) (hpath : path ≠ []) (listing : VisitOrder Str)
    {file content : Str} {u : H128} {key : EncryptedKey} (hchild : Path.isChild path file = true)
    (hlookup : files.lookup file = some content) (hread : readFile env content = some (u, key)) :
    (new env path files listing).ks.stored u = some key ∧
      (new env path files listing).filename u = file := by
  have hloaded : Loaded env files _ (new env path files listing) :=
    (loaded_new hpath files listing).2
  cases hkey : (new env path files listing).ks.stored u with
  | none =>
    have hlisted := (mem_listed listing).mpr ⟨hchild, content, hlookup⟩
    have hnone := (hloaded.absent u hkey).2 file hlisted key
    rw [hlookup] at hnone
    exact absurd hread hnone
  | some key' =>
    obtain ⟨hlisted, hread'⟩ := hloaded.source u key' hkey
    obtain ⟨hchild', content', hlookup'⟩ := (mem_listed listing).mp hlisted
    rw [hlookup'] at hread'
    have hfile := hfiles.distinct _ _ _ _ u _ _ hchild hchild' hlookup hlookup' hread hread'
    rw [← hfile, hlookup] at hlookup'
    obtain rfl : content = content' := Option.some.inj hlookup'
    obtain rfl : key = key' := (Prod.mk.inj (Option.some.inj (hread.symm.trans hread'))).2
    exact ⟨rfl, hfile.symm⟩

/-- The file a key in memory came from. -/
theorem Foreign.source (hpath : path ≠ []) (listing : VisitOrder Str) {u : H128} {key : EncryptedKey}
    (hkey : (new env path files listing).ks.stored u = some key) :
    ∃ content, Path.isChild path ((new env path files listing).filename u) = true ∧
      files.lookup ((new env path files listing).filename u) = some content ∧
      readFile env content = some (u, key) := by
  obtain ⟨hlisted, hread⟩ := (loaded_new hpath files listing).2.source u key hkey
  obtain ⟨hchild, content, hlookup⟩ := (mem_listed listing).mp hlisted
  rw [hlookup] at hread
  exact ⟨content, hchild, hlookup, hread⟩

end StoreDirectory

end ConfluxSdk
