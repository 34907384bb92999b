import ConfluxSdk.Spec.StoreFiles

/-!
# A secret store and its directory

After every operation the directory holds, for each key in memory, one file of its name
that is read as that key; only an address that was learnt since is missing from it. So a
store that is opened anew has the keys it had.

A key whose uuid is zero, which stands for an import that failed, is not followed.

## Key results

- `StoreDirectory.Pending.save`: saving brings the directory up to date
- `StoreDirectory.synced_new`, `StoreDirectory.Synced.reopened`: what is stored when the
  directory is opened
- `StoreDirectory.Synced.kill`, `StoreDirectory.Synced.recode`, ...: every operation leaves
  the directory in accordance with the memory
-/

namespace ConfluxSdk

namespace StoreDirectory

variable {env : DirectoryEnv} {d : StoreDirectory}

/-- The key of a text and its uuid. -/
abbrev readFile (env : DirectoryEnv) (content : Str) : Option (H128 × EncryptedKey) :=
  readKeyFile env.toStoreEnv.toJsonSpirit content

/-- Two keys with texts of one value, where the second may have lost the address. -/
structure SameKey (env : DirectoryEnv) (key key' : EncryptedKey) : Prop where
  value : valueOf env key'.encryptedKey = valueOf env key.encryptedKey
  address : key'.address = key.address ∨ key'.address = .zero 20

theorem SameKey.refl (key : EncryptedKey) : SameKey env key key := ⟨rfl, .inl rfl⟩

/-- A content that is read as a key. -/
def Holds (env : DirectoryEnv) (content : Str) (u : H128) (key : EncryptedKey) : Prop :=
  ∃ key', readFile env content = some (u, key') ∧ Sound env key'.encryptedKey ∧ SameKey env key key'

theorem holds_fileContent {u : H128} {key : EncryptedKey} (h : Sound env key.encryptedKey) :
    Holds env (fileContent env u key) u key :=
  ⟨_, readKeyFile_fileContent h, sound_rewritten h, valueOf_rewritten h, .inl rfl⟩

/-- Every file of the directory is that of a key. -/
def Proper (env : DirectoryEnv) (path : Str) (files : AList fun _ : Str => Str) : Prop :=
  ∀ file content, Path.isChild path file = true → files.lookup file = some content →
    ∃ u key, file = keyPath path u ∧ Holds env content u key

/-- The directory holds the keys that are in memory, and no others. -/
structure Synced (env : DirectoryEnv) (d : StoreDirectory) : Prop where
  m_path : d.m_path ≠ []
  sound : ∀ u key, d.ks.stored u = some key → Sound env key.encryptedKey
  filename : ∀ u, d.filename u = [] ∨ d.filename u = keyPath d.m_path u
  held : ∀ u key, u.toBool = true → d.ks.stored u = some key →
    d.filename u = keyPath d.m_path u ∧
      ∃ content, d.files.lookup (keyPath d.m_path u) = some content ∧ Holds env content u key
  proper : Proper env d.m_path d.files
  known : ∀ u content, u.toBool = true → d.files.lookup (keyPath d.m_path u) = some content →
    ∃ key, d.ks.stored u = some key

/-- The directory holds nothing but keys that are in memory, some of which are not saved. -/
structure Pending (env : DirectoryEnv) (d : StoreDirectory) : Prop where
  m_path : d.m_path ≠ []
  sound : ∀ u key, d.ks.stored u = some key → Sound env key.encryptedKey
  filename : ∀ u, d.filename u = [] ∨ d.filename u = keyPath d.m_path u ∨
    (d.filename u = toUUID u ∧ ∃ key, d.ks.stored u = some key)
  proper : Proper env d.m_path d.files
  known : ∀ u content, u.toBool = true → d.files.lookup (keyPath d.m_path u) = some content →
    ∃ key, d.ks.stored u = some key

/-! ### Saving -/

/-- No file of the directory has the name that a key has before it is saved. -/
theorem isChild_toUUID (path : Str) (u : H128) : Path.isChild path (toUUID u) = false := by
  have hslash : '/' ∈ Path.asDirectory path := by
    rw [Path.asDirectory]
    split
    · exact List.mem_of_getLast? ‹_›
    · simp
  rw [Bool.eq_false_iff]
  intro h
  rw [Path.isChild, Bool.and_eq_true, decide_eq_true_eq] at h
  exact slash_not_mem_toUUID u (h.1.subset hslash)

theorem isChild_nil (path : Str) : Path.isChild path [] = false := by
  rw [Bool.eq_false_iff]
  intro h
  simp [Path.isChild] at h

/-- Saving brings the directory up to date. -/
theorem Pending.save (h : Pending env d) (order : VisitOrder H128) : Synced env (d.save env order) := by
  have hsaved : Saved env d.m_path d.ks.keys d (d.save env order) := by
    refine saved h.m_path order fun v _ w _ heq => ?_
    rcases h.filename v with hname | hname | ⟨hname, -⟩
    · exact absurd (heq.symm.trans hname) (keyPath_ne_nil w)
    · exact keyPath_injective h.m_path (hname.symm.trans heq)
    · exact absurd (heq.symm.trans hname) (keyPath_ne_toUUID h.m_path w v)
  generalize d.save env order = d' at hsaved
  have hstored : d'.ks = d.ks := hsaved.ks
  have hpath : d'.m_path = d.m_path := hsaved.m_path
  -- A file of the directory that is not written is the file of no key in memory.
  have hfiles : ∀ file content, Path.isChild d.m_path file = true →
      d'.files.lookup file = some content →
      (∃ u key, file = keyPath d.m_path u ∧ d.ks.stored u = some key ∧
        content = fileContent env u key) ∨ d.files.lookup file = some content := by
    intro file content hchild hlookup
    by_cases hfile : ∃ u ∈ d.ks.keys, file = keyPath d.m_path u
    · obtain ⟨u, hu, rfl⟩ := hfile
      obtain ⟨key, hkey⟩ := mem_keys_iff.mp hu
      rw [hsaved.written u hu key hkey] at hlookup
      exact .inl ⟨u, key, rfl, hkey, (Option.some.inj hlookup).symm⟩
    · rw [hsaved.kept file fun u hu => ⟨fun heq => hfile ⟨u, hu, heq⟩, fun heq => ?_⟩] at hlookup
      · exact .inr hlookup
      · rcases h.filename u with hname | hname | ⟨hname, -⟩
        · rw [heq, hname, isChild_nil] at hchild
          cases hchild
        · exact hfile ⟨u, hu, heq.trans hname⟩
        · rw [heq, hname, isChild_toUUID] at hchild
          cases hchild
  refine ⟨hpath ▸ h.m_path, hstored ▸ h.sound, ?_, ?_, ?_, ?_⟩
  · intro u
    rw [hsaved.filename, hpath]
    split
    · exact .inr rfl
    · rename_i hu
      rcases h.filename u with hname | hname | ⟨-, hkey⟩
      · exact .inl hname
      · exact .inr hname
      · exact absurd (mem_keys_iff.mpr hkey) hu
  · intro u key _ hkey
    rw [hstored] at hkey
    have hu : u ∈ d.ks.keys := mem_keys_iff.mpr ⟨key, hkey⟩
    rw [hpath, hsaved.filename, if_pos hu]
    exact ⟨rfl, _, hsaved.written u hu key hkey, holds_fileContent (h.sound u key hkey)⟩
  · intro file content hchild hlookup
    rw [hpath] at hchild ⊢
    rcases hfiles file content hchild hlookup with ⟨u, key, hname, hkey, rfl⟩ | hold
    · exact ⟨u, key, hname, holds_fileContent (h.sound u key hkey)⟩
    · exact h.proper file content hchild hold
  · intro u content hu hlookup
    rw [hpath] at hlookup
    rw [hstored]
    rcases hfiles _ content (isChild_keyPath h.m_path u) hlookup with ⟨v, key, hname, hkey, -⟩ | hold
    · exact ⟨key, keyPath_injective h.m_path hname ▸ hkey⟩
    · exact h.known u content hu hold

theorem Synced.pending (h : Synced env d) : Pending env d where
  m_path := h.m_path
  sound := h.sound
  filename u := (h.filename u).imp_right .inl
  proper := h.proper
  known := h.known

/-- A key is put into memory. -/
theorem Synced.assign (h : Synced env d) {u : H128} {key : EncryptedKey}
    (hkey : Sound env key.encryptedKey) (m_cached : AList fun _ : H128 => List UInt8) {name : Str}
    (hname : name = [] ∨ name = keyPath d.m_path u ∨ name = toUUID u) :
    Pending env { d with
      ks := ⟨m_cached, d.ks.m_keys.insert u key⟩
      filename := Function.update d.filename u name } := by
  have hstored : SecretStore.stored ⟨m_cached, d.ks.m_keys.insert u key⟩ =
      Function.update d.ks.stored u (some key) := SecretStore.stored_insert d.ks u key m_cached
  have hpresent : ∀ v, (∃ key', d.ks.stored v = some key') →
      ∃ key', Function.update d.ks.stored u (some key) v = some key' := by
    intro v hv
    rw [Function.update_apply]
    split
    · exact ⟨key, rfl⟩
    · exact hv
  refine ⟨h.m_path, ?_, ?_, h.proper, ?_⟩
  · intro v key' hv
    rw [hstored, Function.update_apply] at hv
    split at hv
    · rw [← Option.some.inj hv]
      exact hkey
    · exact h.sound v key' hv
  · intro v
    dsimp only
    rw [hstored, Function.update_apply]
    split
    · rename_i hv
      subst hv
      rw [Function.update_self]
      exact hname.imp_right (Or.imp_right fun hn => ⟨hn, key, rfl⟩)
    · exact (h.filename v).imp_right .inl
  · intro v content hv hlookup
    rw [hstored]
    exact hpresent v (h.known v content hv hlookup)

/-! ### Changes of the memory alone -/

/-- Two keys of one text, where the second may have learnt an address. -/
def Learnt (key key' : EncryptedKey) : Prop :=
  key'.encryptedKey = key.encryptedKey ∧ (key.address = key'.address ∨ key.address = .zero 20)

/-- The same keys, up to what was learnt. -/
def LearntAll (ks ks' : SecretStore) : Prop := ∀ u, Option.Rel Learnt (ks.stored u) (ks'.stored u)

theorem Learnt.refl (key : EncryptedKey) : Learnt key key := ⟨rfl, .inl rfl⟩

theorem LearntAll.of_eq {ks ks' : SecretStore} (h : ks'.m_keys = ks.m_keys) : LearntAll ks ks' := by
  intro u
  rw [SecretStore.stored, SecretStore.stored, h]
  cases ks.m_keys.lookup u with
  | none => exact .none
  | some key => exact .some (.refl key)

theorem learntAll_noteAddress (ks : SecretStore) (u : H128) (address : FixedHash 20) :
    LearntAll ks (ks.noteAddress u address).1 := by
  have hself : LearntAll ks ks := .of_eq rfl
  unfold SecretStore.noteAddress
  cases hkey : ks.m_keys.lookup u with
  | none => exact .of_eq rfl
  | some key =>
    dsimp only
    split
    · rename_i hzero
      intro v
      rw [SecretStore.stored_insert, Function.update_apply]
      split
      · rename_i hv
        rw [hv, show ks.stored u = some key from hkey]
        exact .some ⟨rfl, .inr hzero⟩
      · exact hself v
    · exact hself

theorem learntAll_secret (env : StoreEnv) (ks : SecretStore) (u : H128) (pass : Str) (useCache : Bool) :
    LearntAll ks (ks.secret env u pass useCache).1 := by
  -- The cache does not matter to the keys.
  have hnote : ∀ m_cached address,
      LearntAll ks (SecretStore.noteAddress ⟨m_cached, ks.m_keys⟩ u address).1 :=
    fun m_cached address v => learntAll_noteAddress ⟨m_cached, ks.m_keys⟩ u address v
  unfold SecretStore.secret
  split
  · exact .of_eq rfl
  · split
    · exact .of_eq rfl
    · dsimp only
      split
      · exact .of_eq rfl
      · exact hnote _ _

/-- A file holds a key also after its address is learnt. -/
theorem Holds.learnt {content : Str} {u : H128} {key key' : EncryptedKey}
    (h : Holds env content u key) (hkey : Learnt key key') : Holds env content u key' := by
  obtain ⟨read, hread, hsound, hvalue, haddress⟩ := h
  refine ⟨read, hread, hsound, ?_, ?_⟩
  · rw [hkey.1]
    exact hvalue
  · rcases haddress with heq | hzero
    · rcases hkey.2 with heq' | hzero
      · exact .inl (heq.trans heq')
      · exact .inr (heq.trans hzero)
    · exact .inr hzero

/-- What is learnt leaves the directory as it is. -/
theorem Synced.learnt (h : Synced env d) {ks : SecretStore} (hks : LearntAll d.ks ks) :
    Synced env { d with ks } := by
  -- Every key of the new memory is one of the old.
  have hold : ∀ u key', ks.stored u = some key' → ∃ key, d.ks.stored u = some key ∧ Learnt key key' := by
    intro u key' hkey'
    have hu := hks u
    rw [hkey'] at hu
    cases hkey : d.ks.stored u with
    | none =>
      rw [hkey] at hu
      cases hu
    | some key =>
      rw [hkey] at hu
      cases hu with
      | some hlearnt => exact ⟨key, rfl, hlearnt⟩
  refine ⟨h.m_path, ?_, h.filename, ?_, h.proper, ?_⟩
  · intro u key' hkey'
    obtain ⟨key, hkey, htext, -⟩ := hold u key' hkey'
    rw [htext]
    exact h.sound u key hkey
  · intro u key' hu hkey'
    obtain ⟨key, hkey, hlearnt⟩ := hold u key' hkey'
    obtain ⟨hname, content, hlookup, hholds⟩ := h.held u key hu hkey
    exact ⟨hname, content, hlookup, hholds.learnt hlearnt⟩
  · intro u content hu hlookup
    obtain ⟨key, hkey⟩ := h.known u content hu hlookup
    have hrel := hks u
    rw [hkey] at hrel
    cases hkey' : ks.stored u with
    | none =>
      rw [hkey'] at hrel
      cases hrel
    | some key' => exact ⟨key', rfl⟩

/-! ### Reading the directory -/

/-- What is in memory when some files of a directory were read: for every uuid the last of
    the files that are read as it. -/
structure Loaded (env : DirectoryEnv) (files : AList fun _ : Str => Str) (listed : List Str)
    (d : StoreDirectory) : Prop where
  files_eq : d.files = files
  cached : ∀ u, d.ks.cached u = none
  source : ∀ u key, d.ks.stored u = some key →
    d.filename u ∈ listed ∧ readFile env ((files.lookup (d.filename u)).getD []) = some (u, key)
  absent : ∀ u, d.ks.stored u = none → d.filename u = [] ∧
    ∀ file ∈ listed, ∀ key, readFile env ((files.lookup file).getD []) ≠ some (u, key)

theorem readKeyContent_none {content : Str} (h : readFile env content = none) (file : Str) :
    d.readKeyContent env content file = (d, .zero 16) := by
  rw [readKeyContent, show readKeyFile env.toStoreEnv.toJsonSpirit content = none from h]

theorem readKeyContent_some {content : Str} {u : H128} {key : EncryptedKey}
    (h : readFile env content = some (u, key)) (file : Str) :
    d.readKeyContent env content file = ({ d with
      ks := ⟨d.ks.m_cached, d.ks.m_keys.insert u key⟩
      filename := Function.update d.filename u file }, u) := by
  rw [readKeyContent, show readKeyFile env.toStoreEnv.toJsonSpirit content = some (u, key) from h]

/-- One more file is read. -/
theorem Loaded.readKey {files : AList fun _ : Str => Str} {listed : List Str}
    (h : Loaded env files listed d) (file : Str) :
    Loaded env files (listed ++ [file]) (d.readKey env file true).1 := by
  have hmem {f : Str} (hf : f ∈ listed ++ [file]) : f ∈ listed ∨ f = file := by
    simpa using hf
  have hcontent : d.contentsString file = (files.lookup file).getD [] := by
    rw [contentsString, h.files_eq]
  rw [StoreDirectory.readKey, hcontent, if_pos rfl]
  cases hread : readFile env ((files.lookup file).getD []) with
  | none =>
    rw [readKeyContent_none hread]
    refine ⟨h.files_eq, h.cached, fun u key hkey => ?_, fun u hnone => ?_⟩
    · obtain ⟨hlisted, hsource⟩ := h.source u key hkey
      exact ⟨List.mem_append_left _ hlisted, hsource⟩
    · obtain ⟨hname, hfiles⟩ := h.absent u hnone
      refine ⟨hname, fun f hf key => ?_⟩
      rcases hmem hf with hf | rfl
      · exact hfiles f hf key
      · rw [hread]
        exact fun heq => absurd heq.symm (Option.some_ne_none _)
  | some found =>
    obtain ⟨v, keyv⟩ := found
    rw [readKeyContent_some hread]
    have hstored : SecretStore.stored ⟨d.ks.m_cached, d.ks.m_keys.insert v keyv⟩ =
        Function.update d.ks.stored v (some keyv) := SecretStore.stored_insert d.ks v keyv _
    refine ⟨h.files_eq, h.cached, fun u key hkey => ?_, fun u hnone => ?_⟩
    · dsimp only at hkey ⊢
      rw [hstored, Function.update_apply] at hkey
      rw [Function.update_apply]
      split at hkey
      · rename_i hu
        rw [if_pos hu, hu, ← Option.some.inj hkey]
        exact ⟨List.mem_append_right _ (List.mem_singleton_self file), hread⟩
      · rename_i hu
        rw [if_neg hu]
        obtain ⟨hlisted, hsource⟩ := h.source u key hkey
        exact ⟨List.mem_append_left _ hlisted, hsource⟩
    · dsimp only at hnone ⊢
      rw [hstored, Function.update_apply] at hnone
      rw [Function.update_apply]
      split at hnone
      · cases hnone
      · rename_i hu
        rw [if_neg hu]
        obtain ⟨hname, hfiles⟩ := h.absent u hnone
        refine ⟨hname, fun f hf key => ?_⟩
        rcases hmem hf with hf | rfl
        · exact hfiles f hf key
        · rw [hread]
          intro heq
          exact hu (Prod.mk.inj (Option.some.inj heq)).1.symm

theorem readKey_m_path (file : Str) (own : Bool) : (d.readKey env file own).1.m_path = d.m_path := by
  rw [readKey, readKeyContent]
  split
  · rfl
  · rfl

/-- The files of the directory are read, in whatever order. -/
theorem loaded_new {path : Str} (hpath : path ≠ []) (files : AList fun _ : Str => Str)
    (listing : VisitOrder Str) :
    (new env path files listing).m_path = path ∧
      Loaded env files (listing.visit (files.keys.filter (Path.isChild path)))
        (new env path files listing) := by
  rw [new, load, if_neg hpath]
  dsimp only
  generalize listing.visit (files.keys.filter (Path.isChild path)) = listed
  induction listed using List.reverseRecOn with
  | nil =>
    refine ⟨rfl, rfl, fun _ => rfl, ?_, fun u _ => ⟨rfl, ?_⟩⟩
    · intro u key hkey
      cases hkey
    · intro file hfile
      exact absurd hfile List.not_mem_nil
  | append_singleton listed file ih =>
    rw [List.foldl_concat]
    exact ⟨(readKey_m_path file true).trans ih.1, ih.2.readKey file⟩

variable {path : Str} {files : AList fun _ : Str => Str}

theorem mem_listed (listing : VisitOrder Str) {file : Str} :
    file ∈ listing.visit (files.keys.filter (Path.isChild path)) ↔
      Path.isChild path file = true ∧ ∃ content, files.lookup file = some content := by
  rw [VisitOrder.mem_visit, List.mem_filter, ← Option.isSome_iff_exists, AList.lookup_isSome,
    AList.mem_keys]
  exact and_comm

/-- A key of a store that is opened is that of its file. -/
theorem stored_new (hpath : path ≠ []) (hfiles : Proper env path files) (listing : VisitOrder Str)
    {u : H128} {key : EncryptedKey} (h : (new env path files listing).ks.stored u = some key) :
    (new env path files listing).filename u = keyPath path u ∧ Sound env key.encryptedKey ∧
      ∃ content, files.lookup (keyPath path u) = some content ∧
        readFile env content = some (u, key) := by
  obtain ⟨hlisted, hread⟩ := (loaded_new hpath files listing).2.source u key h
  obtain ⟨hchild, content, hlookup⟩ := (mem_listed listing).mp hlisted
  obtain ⟨v, key', hname, read, hread', hsound, -⟩ := hfiles _ content hchild hlookup
  rw [hlookup] at hread
  obtain ⟨rfl, rfl⟩ := Prod.mk.inj (Option.some.inj (hread'.symm.trans hread))
  rw [hname] at hlookup
  exact ⟨hname, hsound, content, hlookup, hread⟩

/-- A key that has a file is there when the store is opened. -/
theorem known_new (hpath : path ≠ []) (hfiles : Proper env path files) (listing : VisitOrder Str)
    {u : H128} {content : Str} (h : files.lookup (keyPath path u) = some content) :
    ∃ key, (new env path files listing).ks.stored u = some key := by
  cases hkey : (new env path files listing).ks.stored u with
  | some key => exact ⟨key, rfl⟩
  | none =>
    have hchild := isChild_keyPath hpath u
    obtain ⟨v, -, hname, read, hread, -⟩ := hfiles _ content hchild h
    obtain rfl := keyPath_injective hpath hname
    have hlisted := (mem_listed listing).mpr ⟨hchild, content, h⟩
    have hnone := ((loaded_new hpath files listing).2.absent u hkey).2 _ hlisted read
    rw [h] at hnone
    exact absurd hread hnone

/-- A directory of key files is opened. -/
theorem synced_new (hpath : path ≠ []) (hfiles : Proper env path files)
    (listing : VisitOrder Str) : Synced env (new env path files listing) := by
  have hnew : (new env path files listing).m_path = path ∧ Loaded env files _ _ :=
    loaded_new hpath files listing
  obtain ⟨hm_path, hloaded⟩ := hnew
  refine ⟨fun hnil => hpath (hm_path.symm.trans hnil), fun u key hkey => ?_, fun u => ?_, ?_, ?_, ?_⟩
  · exact (stored_new hpath hfiles listing hkey).2.1
  · rw [hm_path]
    cases hkey : (new env path files listing).ks.stored u with
    | none => exact .inl (hloaded.absent u hkey).1
    | some key => exact .inr (stored_new hpath hfiles listing hkey).1
  · intro u key _ hkey
    obtain ⟨hname, hsound, content, hlookup, hread⟩ := stored_new hpath hfiles listing hkey
    rw [hm_path, hloaded.files_eq]
    exact ⟨hname, content, hlookup, key, hread, hsound, .refl key⟩
  · rw [hm_path, hloaded.files_eq]
    exact hfiles
  · intro u content _ hlookup
    rw [hm_path, hloaded.files_eq] at hlookup
    exact known_new hpath hfiles listing hlookup

/-- When the directory is opened anew, its keys are those that were in memory. -/
theorem Synced.reopened (h : Synced env d) (listing : VisitOrder Str) {u : H128}
    (hu : u.toBool = true) :
    Option.Rel (SameKey env) (d.ks.stored u) ((new env d.m_path d.files listing).ks.stored u) := by
  cases hkey : d.ks.stored u with
  | some key =>
    obtain ⟨-, content, hlookup, read, hread, -, hsame⟩ := h.held u key hu hkey
    obtain ⟨key', hkey'⟩ := known_new h.m_path h.proper listing hlookup
    obtain ⟨-, -, content', hlookup', hread'⟩ := stored_new h.m_path h.proper listing hkey'
    obtain rfl : content = content' := Option.some.inj (hlookup.symm.trans hlookup')
    obtain ⟨-, rfl⟩ := Prod.mk.inj (Option.some.inj (hread.symm.trans hread'))
    rw [hkey']
    exact .some hsame
  | none =>
    cases hkey' : (new env d.m_path d.files listing).ks.stored u with
    | none => exact .none
    | some key' =>
      obtain ⟨-, -, content, hlookup, -⟩ := stored_new h.m_path h.proper listing hkey'
      obtain ⟨key, hkey''⟩ := h.known u content hu hlookup
      rw [hkey] at hkey''
      cases hkey''

/-! ### The operations -/

/-- The texts that are encrypted are texts of values without reals, and what is decrypted
    depends on the value of a text only. -/
structure Portable (env : DirectoryEnv) : Prop where
  sound : ∀ v pass random, Sound env (env.encrypt v pass random)
  decrypt : ∀ t t' pass, valueOf env t = valueOf env t' → env.decrypt t pass = env.decrypt t' pass

theorem portable_directoryEnv (lib : KeyCrypto) (toPublic : FixedHash 32 → FixedHash 64)
    (locale : JsonLocale) : Portable (lib.directoryEnv toPublic locale) where
  sound v pass random := by
    show Sound (lib.directoryEnv toPublic locale) ((lib.cipher locale .scrypt).encrypt v pass random)
    cases htext : lib.encrypt locale v pass .scrypt (random.take 32)
        (.ofBytesLeft 16 (random.drop 32)) with
    | error e =>
      rw [KeyCrypto.cipher_encrypt_error htext]
      exact .null
    | ok text =>
      rw [KeyCrypto.cipher_encrypt_ok htext]
      obtain ⟨dk, o, -, -, hwf, rfl⟩ := KeyCrypto.encrypt_inv htext
      have hvalue : valueOf (lib.directoryEnv toPublic locale)
          (JsonSpirit.writeString locale (.obj o) true) = .obj o := valueOf_writeString hwf true
      rw [Sound, hvalue]
      exact hwf
  decrypt t t' pass h := KeyCrypto.cipher_decrypt_congr h pass

/-- A text is written for every secret whose key is derived. -/
theorem encrypt_ok {lib : KeyCrypto} {pass : Str} {kdf : KDF} {salt dk : List UInt8}
    (hderive : lib.derive pass kdf salt = .ok dk) {v : List UInt8} (hv : v ≠ []) (locale : JsonLocale)
    (iv : FixedHash 16) : ∃ text, lib.encrypt locale v pass kdf salt iv = .ok text := by
  have hlen : dk.length = 32 := KeyCrypto.length_derive hderive
  have hdk : dk ≠ [] := by
    rintro rfl
    exact absurd hlen (by decide)
  have hcipher : lib.encryptSymNoAuth (.ofBytesLeft 16 dk) iv v ≠ [] := by
    rw [(KeyCrypto.symNoAuth_eq _ iv v).1, ← List.length_pos_iff, KeyCrypto.length_processData,
      List.length_pos_iff]
    exact hv
  have hderived : (lib.deriveNewKey pass kdf salt).1 = .ok dk := hderive
  obtain ⟨o, ho⟩ : ∃ o, lib.encryptObject dk (lib.deriveNewKey pass kdf salt).2 iv v = .ok o := by
    rw [KeyCrypto.encryptObject]
    dsimp only
    rw [if_neg hcipher]
    exact ⟨_, rfl⟩
  refine ⟨JsonSpirit.writeString locale (.obj o) true, ?_⟩
  rw [KeyCrypto.encrypt]
  dsimp only
  rw [hderived]
  show (if dk = [] then _ else _) = _
  rw [if_neg hdk, ho]
  rfl

/-- There is no text exactly where `encrypt` throws. -/
theorem encrypt_eq_nil_iff {lib : KeyCrypto} {toPublic : FixedHash 32 → FixedHash 64}
    {locale : JsonLocale} {v : List UInt8} {pass : Str} {random : List UInt8} :
    (lib.directoryEnv toPublic locale).encrypt v pass random = [] ↔
      ∃ e, lib.encrypt locale v pass .scrypt (random.take 32) (.ofBytesLeft 16 (random.drop 32)) =
        .error e := by
  show (lib.cipher locale .scrypt).encrypt v pass random = [] ↔ _
  cases htext : lib.encrypt locale v pass .scrypt (random.take 32)
      (.ofBytesLeft 16 (random.drop 32)) with
  | error e =>
    rw [KeyCrypto.cipher_encrypt_error htext]
    exact ⟨fun _ => ⟨e, rfl⟩, fun _ => rfl⟩
  | ok text =>
    rw [KeyCrypto.cipher_encrypt_ok htext]
    constructor
    · rintro rfl
      obtain ⟨dk, o, -, -, hwf, htext⟩ := KeyCrypto.encrypt_inv htext
      -- The empty text has the value null.
      have hvalue : valueOf (lib.directoryEnv toPublic locale)
          (JsonSpirit.writeString locale (.obj o) true) = .obj o := valueOf_writeString hwf true
      rw [← htext] at hvalue
      cases hvalue
    · rintro ⟨e, he⟩
      cases he

/-- A key is removed with its file. -/
theorem Synced.kill (h : Synced env d) (u : H128) : Synced env (d.kill u) := by
  have hstored : (d.ks.kill u).stored = Function.update d.ks.stored u none := by
    funext v
    exact congrFun (lookup_erase_update d.ks.m_keys u) v
  -- What is left of the files was there before.
  have hfiles : ∀ file content, (d.kill u).files.lookup file = some content →
      d.files.lookup file = some content := by
    intro file content hlookup
    rw [StoreDirectory.kill] at hlookup
    dsimp only at hlookup
    split at hlookup
    · by_cases hfile : file = d.filename u
      · rw [hfile, AList.lookup_erase] at hlookup
        cases hlookup
      · rwa [AList.lookup_erase_ne hfile] at hlookup
    · exact hlookup
  have hsome : ∀ v key, (d.kill u).ks.stored v = some key → v ≠ u ∧ d.ks.stored v = some key := by
    intro v key hkey
    rw [show (d.kill u).ks.stored = _ from hstored, Function.update_apply] at hkey
    split at hkey
    · cases hkey
    · exact ⟨‹_›, hkey⟩
  refine ⟨h.m_path, fun v key hkey => h.sound v key (hsome v key hkey).2, fun v => ?_, ?_, ?_, ?_⟩
  · rw [StoreDirectory.kill]
    dsimp only
    rw [Function.update_apply]
    split
    · exact .inl rfl
    · exact h.filename v
  · intro v key hv hkey
    obtain ⟨hne, hkey⟩ := hsome v key hkey
    obtain ⟨hname, content, hlookup, hholds⟩ := h.held v key hv hkey
    refine ⟨?_, content, ?_, hholds⟩
    · rw [StoreDirectory.kill]
      dsimp only
      rw [Function.update_of_ne hne]
      exact hname
    · rw [StoreDirectory.kill]
      dsimp only
      split
      · rw [AList.lookup_erase_ne]
        · exact hlookup
        · rcases h.filename u with hold | hold
          · rw [hold]
            exact keyPath_ne_nil v
          · rw [hold]
            exact fun heq => hne (keyPath_injective h.m_path heq)
      · exact hlookup
  · intro file content hchild hlookup
    exact h.proper file content hchild (hfiles file content hlookup)
  · intro v content hv hlookup
    obtain ⟨key, hkey⟩ := h.known v content hv (hfiles _ content hlookup)
    refine ⟨key, ?_⟩
    rw [show (d.kill u).ks.stored = _ from hstored, Function.update_apply, if_neg]
    · exact hkey
    · -- The file of the key that goes is gone.
      rintro rfl
      have hcontains : d.ks.contains v = true := by
        rw [SecretStore.contains, show d.ks.m_keys.lookup v = some key from hkey]
        rfl
      rw [StoreDirectory.kill] at hlookup
      dsimp only at hlookup
      rw [if_pos hcontains, (h.held v key hv hkey).1, AList.lookup_erase] at hlookup
      cases hlookup

/-- A key file is imported. -/
theorem Synced.importKeyContent (h : Synced env d) {content : Str}
    (hcontent : ∀ u key, readFile env content = some (u, key) → Sound env key.encryptedKey)
    (order : VisitOrder H128) : Synced env (d.importKeyContent env content order).1 := by
  rw [StoreDirectory.importKeyContent]
  cases hread : readFile env content with
  | none =>
    rw [readKeyContent_none hread]
    dsimp only
    rw [FixedHash.toBool_zero, if_neg (by simp)]
    exact h
  | some found =>
    obtain ⟨u, key⟩ := found
    have hsound := hcontent u key hread
    rw [readKeyContent_some hread]
    dsimp only
    have hpending := h.assign hsound d.ks.m_cached (u := u) (.inl rfl)
    split
    · exact hpending.save order
    · -- A key whose uuid is zero stays in memory.
      rename_i hzero
      refine ⟨hpending.m_path, hpending.sound, fun v => ?_, fun v key' hv hkey' => ?_,
        hpending.proper, hpending.known⟩
      · dsimp only
        rw [Function.update_apply]
        split
        · exact .inl rfl
        · exact h.filename v
      · have hne : v ≠ u := fun heq => hzero (heq ▸ hv)
        dsimp only at hkey' ⊢
        rw [SecretStore.stored_insert, Function.update_of_ne hne] at hkey'
        rw [Function.update_of_ne hne]
        exact h.held v key' hv hkey'

/-- A secret is imported. -/
theorem Synced.importSecret (henv : Portable env) (h : Synced env d) (s : List UInt8) (pass : Str)
    (r : H128) (random : List UInt8) (order : VisitOrder H128) :
    Synced env (d.importSecret env s pass r random order).1 := by
  rw [StoreDirectory.importSecret]
  split
  · exact h
  · have hkey : Sound env (EncryptedKey.mk (env.encrypt s pass random)
        (env.keyPairAddress (.ofBytes 32 s))).encryptedKey := henv.sound s pass random
    exact (h.assign hkey _ (.inr (.inr rfl))).save order

/-- A key in memory is encrypted anew. -/
theorem Synced.reencrypt (h : Synced env d) (u : H128) {key : EncryptedKey}
    (hkey : Sound env key.encryptedKey) (m_cached : AList fun _ : H128 => List UInt8)
    (order : VisitOrder H128) :
    Synced env (StoreDirectory.save env
      { d with ks := ⟨m_cached, d.ks.m_keys.insert u key⟩ } order) := by
  have hpending := h.assign hkey m_cached ((h.filename u).imp_right .inl)
  rw [Function.update_eq_self] at hpending
  exact hpending.save order

theorem Synced.recode (henv : Portable env) (h : Synced env d) (u : H128) (newPass pass : Str)
    (random : List UInt8) (order : VisitOrder H128) :
    Synced env (d.recode env u newPass pass random order).1 := by
  have hlearnt := learntAll_secret env.toStoreEnv d.ks u pass true
  rw [StoreDirectory.recode]
  split
  · rename_i ks hsecret
    rw [hsecret] at hlearnt
    exact h.learnt hlearnt
  · rename_i ks b s hsecret
    rw [hsecret] at hlearnt
    have hsynced := h.learnt hlearnt
    dsimp only
    split
    · exact hsynced.learnt (.of_eq rfl)
    · exact hsynced.reencrypt u (henv.sound (b :: s) newPass random) _ order

theorem Synced.recodeByAddress (henv : Portable env) (h : Synced env d) (address : FixedHash 20)
    (newPass pass : Str) (random : List UInt8) (order : VisitOrder H128) :
    Synced env (d.recodeByAddress env address newPass pass random order).1 := by
  rw [StoreDirectory.recodeByAddress]
  split
  · exact h
  · rename_i u _
    split
    · exact h
    · rename_i b s _
      dsimp only
      split
      · exact h
      · exact h.reencrypt u (henv.sound (b :: s) newPass random) _ order

end StoreDirectory

end ConfluxSdk
