import ConfluxSdk.Native.StoreDirectory
import ConfluxSdk.Spec.KeyCryptoCorrect
import ConfluxSdk.Spec.SecretStoreCorrect

/-!
# The files of a secret store

The name of a key's file determines the uuid, and its content determines the key up to
the spelling of its JSON. `save` brings every key into the file of its name and removes
the file it came from.

## Key results

- `readKeyFile_fileContent`: the file that is written for a key is read as that key
- `StoreDirectory.saved`: the files after `save`, in whatever order the keys are visited
-/

namespace ConfluxSdk

/-! ### Uuids -/

theorem filter_insertIdx {α : Type} {p : α → Bool} {a : α} (ha : p a = false) (i : Nat)
    (l : List α) : (l.insertIdx i a).filter p = l.filter p := by
  induction l generalizing i with
  | nil =>
    cases i with
    | zero => simp [ha]
    | succ i => rfl
  | cons b l ih =>
    cases i with
    | zero => simp [ha]
    | succ i => rw [List.insertIdx_succ_cons, List.filter_cons, List.filter_cons, ih]

theorem length_toUUID (u : H128) : (toUUID u).length = 36 := by
  have hlen : (Dev.toHex u.bytes).length = 32 := by
    rw [Dev.toHex, (Hex.encodeToString_digits u.bytes).1, u.size_eq]
  simp [toUUID, List.length_insertIdx, hlen]

theorem mem_toUUID {u : H128} {c : Char} (hc : c ∈ toUUID u) : c = '-' ∨ c ∈ Regex.hexDigits := by
  have hfold : ∀ (is : List Nat) (l : Str),
      c ∈ is.foldl (fun ret i => ret.insertIdx i '-') l → c = '-' ∨ c ∈ l := by
    intro is
    induction is with
    | nil => exact fun l hl => .inr hl
    | cons i is ih =>
      intro l hl
      rcases ih _ hl with hdash | hmem
      · exact .inl hdash
      · exact List.eq_or_mem_of_mem_insertIdx hmem
  rcases hfold _ _ hc with hdash | hmem
  · exact .inl hdash
  · exact .inr ((Hex.encodeToString_digits u.bytes).2 c hmem)

theorem slash_not_mem_toUUID (u : H128) : '/' ∉ toUUID u := by
  intro h
  rcases mem_toUUID h with h | h
  · exact absurd h (by decide)
  · exact absurd h (by decide)

theorem ofBytes_toUUID (u : H128) : JsonSpirit.OfBytes (toUUID u) := by
  intro c hc
  rcases mem_toUUID hc with rfl | hc
  · decide
  · have hall : Regex.hexDigits.all (fun c => c.toNat < 256) = true := by decide
    exact of_decide_eq_true (List.all_eq_true.mp hall c hc)

/-- The text of a uuid is read as that uuid. -/
theorem fromUUID_toUUID (u : H128) : fromUUID (toUUID u) = u := by
  have hfold : ∀ (is : List Nat) (l : Str),
      (is.foldl (fun ret i => ret.insertIdx i '-') l).filter (· ≠ '-') = l.filter (· ≠ '-') := by
    intro is
    induction is with
    | nil => exact fun _ => rfl
    | cons i is ih => exact fun l => (ih _).trans (filter_insertIdx (by decide) i l)
  have hfilter : (toUUID u).filter (· ≠ '-') = u.hex := by
    rw [toUUID, hfold]
    refine List.filter_eq_self.mpr fun c hc => ?_
    have hdigit : c ∈ Regex.hexDigits := (Hex.encodeToString_digits u.bytes).2 c hc
    rw [decide_eq_true_eq]
    rintro rfl
    exact absurd hdigit (by decide)
  rw [fromUUID, hfilter, FixedHash.ofHex_hex]

theorem toUUID_injective {u v : H128} (h : toUUID u = toUUID v) : u = v := by
  rw [← fromUUID_toUUID u, h, fromUUID_toUUID]

/-! ### Names of files -/

namespace StoreDirectory

variable {path : Str}

theorem keyPath_eq (hpath : path ≠ []) (u : H128) :
    keyPath path u = Path.asDirectory path ++ (toUUID u ++ ".json".toList) := by
  rw [keyPath, Path.append, if_neg hpath, List.append_assoc]

theorem keyPath_injective (hpath : path ≠ []) {u v : H128} (h : keyPath path u = keyPath path v) :
    u = v := by
  rw [keyPath_eq hpath, keyPath_eq hpath] at h
  exact toUUID_injective (List.append_cancel_right (List.append_cancel_left h))

theorem keyPath_ne_nil (u : H128) : keyPath path u ≠ [] := by
  intro h
  rw [keyPath] at h
  exact absurd (List.append_eq_nil_iff.mp h).2 (by decide)

/-- The name that a key has before it is saved is no file of the directory. -/
theorem keyPath_ne_toUUID (hpath : path ≠ []) (u r : H128) : keyPath path u ≠ toUUID r := by
  intro h
  have hlen := congrArg List.length h
  rw [keyPath_eq hpath, List.length_append, List.length_append, length_toUUID, length_toUUID,
    show ".json".toList.length = 5 from rfl] at hlen
  omega

theorem isChild_append {name : Str} (hne : name ≠ []) (hslash : '/' ∉ name) :
    Path.isChild path (Path.asDirectory path ++ name) = true := by
  simp [Path.isChild, hne, hslash]

/-- The file of a key is one that the directory lists. -/
theorem isChild_keyPath (hpath : path ≠ []) (u : H128) :
    Path.isChild path (keyPath path u) = true := by
  rw [keyPath_eq hpath]
  refine isChild_append ?_ ?_
  · exact fun h => absurd (List.append_eq_nil_iff.mp h).2 (by decide)
  · rw [List.mem_append, not_or]
    exact ⟨slash_not_mem_toUUID u, by decide⟩

end StoreDirectory

/-! ### Contents of files -/

/-- The value of the text of an encrypted key. -/
def valueOf (env : DirectoryEnv) (t : Str) : Json := (JsonSpirit.readString env.locale t).2

/-- A text whose value is the same when it is written and read again. -/
def Sound (env : DirectoryEnv) (t : Str) : Prop := (valueOf env t).WellFormed fun _ => False

variable {env : DirectoryEnv}

theorem valueOf_writeString {v : Json} (hv : v.WellFormed fun _ => False) (pretty : Bool) :
    valueOf env (JsonSpirit.writeString env.locale v pretty) = v := by
  have hend : JsonSpirit.Ends [] := fun c hc => absurd hc (by simp)
  have hread : JsonSpirit.readString env.locale (_ ++ []) = _ :=
    JsonSpirit.readString_output hv pretty hend
  rw [List.append_nil] at hread
  rw [valueOf, hread]

/-- The text of a key as it comes back from its file. -/
def rewritten (env : DirectoryEnv) (t : Str) : Str :=
  JsonSpirit.writeString env.locale (valueOf env t) false

theorem valueOf_rewritten {t : Str} (ht : Sound env t) : valueOf env (rewritten env t) = valueOf env t :=
  valueOf_writeString ht false

theorem sound_rewritten {t : Str} (ht : Sound env t) : Sound env (rewritten env t) := by
  rw [Sound, valueOf_rewritten ht]
  exact ht

namespace StoreDirectory

theorem fileObject_eq (u : H128) (key : EncryptedKey) :
    fileObject env u key =
      [("address".toList, .str key.address.hex), ("crypto".toList, valueOf env key.encryptedKey),
        ("id".toList, .str (toUUID u)), ("version".toList, .int 3)] := rfl

theorem wellFormed_fileObject {u : H128} {key : EncryptedKey} (h : Sound env key.encryptedKey) :
    (Json.obj (fileObject env u key)).WellFormed fun _ => False := by
  rw [fileObject_eq]
  have hsorted : ["address".toList, "crypto".toList, "id".toList, "version".toList].Pairwise
      (· < ·) := by decide
  refine .obj (List.pairwise_map.mp hsorted) ?_ ?_
  · have hnames : ["address".toList, "crypto".toList, "id".toList, "version".toList].all
        (fun name => name.all fun c => c.toNat < 256) = true := by decide
    intro m hm c hc
    have hname : m.1 ∈ ["address".toList, "crypto".toList, "id".toList, "version".toList] :=
      List.mem_map_of_mem hm
    exact of_decide_eq_true (List.all_eq_true.mp (List.all_eq_true.mp hnames _ hname) c hc)
  · intro m hm
    simp only [List.mem_cons, List.not_mem_nil, or_false] at hm
    rcases hm with rfl | rfl | rfl | rfl
    · exact .str (Dev.ofBytes_toHex _)
    · exact h
    · exact .str (ofBytes_toUUID u)
    · exact .int (by decide) (by decide)

end StoreDirectory

theorem isHex_hex {n : Nat} (h : FixedHash n) : Dev.isHex h.hex = true := by
  have hdigits : ∀ c ∈ h.hex, (Hex.fromHexChar c).isSome = true := by
    intro c hc
    have hall : Regex.hexDigits.all (fun c => (Hex.fromHexChar c).isSome) = true := by decide
    exact List.all_eq_true.mp hall c ((Hex.encodeToString_digits h.bytes).2 c hc)
  refine List.all_eq_true.mpr fun c hc => hdigits c ?_
  split at hc
  · exact List.mem_of_mem_drop hc
  · exact hc

/-- The file that is written for a key is read as that key, with the text written anew. -/
theorem readKeyFile_fileContent {u : H128} {key : EncryptedKey} (h : Sound env key.encryptedKey) :
    readKeyFile env.toStoreEnv.toJsonSpirit (StoreDirectory.fileContent env u key) =
      some (u, ⟨rewritten env key.encryptedKey, key.address⟩) := by
  have hread : env.toStoreEnv.read_string (StoreDirectory.fileContent env u key) =
      .obj (StoreDirectory.fileObject env u key) :=
    valueOf_writeString (StoreDirectory.wellFormed_fileObject h) true
  have hupgraded : KeyFile.upgraded env.toStoreEnv.toJsonSpirit
      (StoreDirectory.fileContent env u key) = some (.obj (StoreDirectory.fileObject env u key)) := by
    rw [KeyFile.upgraded, hread]
    rfl
  have haddress : KeyFile.readAddress (StoreDirectory.fileObject env u key) = some key.address := by
    show (if Dev.isHex key.address.hex = true then FixedHash.ofHex 20 key.address.hex else _) = _
    rw [if_pos (isHex_hex _), FixedHash.ofHex_hex]
  rw [readKeyFile, hupgraded]
  show (do
    let address ← KeyFile.readAddress (StoreDirectory.fileObject env u key)
    some (fromUUID (toUUID u), EncryptedKey.mk (rewritten env key.encryptedKey) address)) = _
  rw [haddress, fromUUID_toUUID]
  rfl

/-! ### save -/

namespace StoreDirectory

/-- What is left of a store when some of its keys were written to a path: each one is in
    the file of its name, and the files they came from are gone. -/
structure Saved (env : DirectoryEnv) (path : Str) (keys : List H128) (d d' : StoreDirectory) :
    Prop where
  ks : d'.ks = d.ks
  m_path : d'.m_path = d.m_path
  filename : ∀ u, d'.filename u = if u ∈ keys then keyPath path u else d.filename u
  written : ∀ u ∈ keys, ∀ key, d.ks.stored u = some key →
    d'.files.lookup (keyPath path u) = some (fileContent env u key)
  removed : ∀ u ∈ keys, d.filename u ≠ [] → (∀ v ∈ keys, d.filename u ≠ keyPath path v) →
    d'.files.lookup (d.filename u) = none
  kept : ∀ file, (∀ u ∈ keys, file ≠ keyPath path u ∧ file ≠ d.filename u) →
    d'.files.lookup file = d.files.lookup file

variable {path : Str} {d : StoreDirectory}

/-- One key is written. -/
theorem saved_writeKey {u : H128} {key : EncryptedKey} (h : d.ks.stored u = some key) :
    Saved env path [u] d (writeKey env path d u) := by
  have hlookup : d.ks.m_keys.lookup u = some key := h
  rw [writeKey, hlookup]
  refine ⟨rfl, rfl, ?_, ?_, ?_, ?_⟩
  · intro v
    simp only [Function.update_apply, List.mem_singleton]
    split
    · rename_i hv
      rw [hv]
    · rfl
  · intro v hv key' hkey'
    obtain rfl := List.mem_singleton.mp hv
    obtain rfl : key = key' := Option.some.inj (h.symm.trans hkey')
    dsimp only
    split
    · rename_i hold
      rw [AList.lookup_erase_ne hold.2.symm, AList.lookup_insert]
    · rw [AList.lookup_insert]
  · intro v hv hne hother
    obtain rfl := List.mem_singleton.mp hv
    dsimp only
    rw [if_pos ⟨hne, hother v hv⟩, AList.lookup_erase]
  · intro file hfile
    obtain ⟨hpath, hold⟩ := hfile u (List.mem_singleton_self u)
    dsimp only
    split
    · rw [AList.lookup_erase_ne hold, AList.lookup_insert_ne hpath]
    · rw [AList.lookup_insert_ne hpath]

/-- A key is written, and then others, none of which came from a file named by another. -/
theorem Saved.cons (hpath : path ≠ []) {u : H128} {keys : List H128} (hu : u ∉ keys)
    (hnames : ∀ v ∈ u :: keys, ∀ w ∈ u :: keys, d.filename v = keyPath path w → v = w)
    {d' d'' : StoreDirectory} (h : Saved env path [u] d d') (h' : Saved env path keys d' d'') :
    Saved env path (u :: keys) d d'' := by
  have hself : u ∈ u :: keys := List.mem_cons_self
  have htail {v : H128} (hv : v ∈ keys) : v ∈ u :: keys := List.mem_cons_of_mem u hv
  -- The keys that come later keep their old names.
  have hname {v : H128} (hv : v ∈ keys) : d'.filename v = d.filename v := by
    rw [h.filename, if_neg]
    rintro hmem
    obtain rfl := List.mem_singleton.mp hmem
    exact hu hv
  refine ⟨h'.ks.trans h.ks, h'.m_path.trans h.m_path, fun v => ?_, ?_, ?_, ?_⟩
  · rw [h'.filename, h.filename]
    by_cases hv : v ∈ keys
    · rw [if_pos hv, if_pos (htail hv)]
    · rw [if_neg hv]
      by_cases hvu : v = u
      · rw [hvu, if_pos (List.mem_singleton_self u), if_pos hself]
      · rw [if_neg (fun hmem => hvu (List.mem_singleton.mp hmem)), if_neg]
        rw [List.mem_cons, not_or]
        exact ⟨hvu, hv⟩
  · intro v hv key hkey
    rcases List.mem_cons.mp hv with rfl | hv
    · -- The file of the first key is none of those that are written or removed later.
      rw [h'.kept _ fun w hw => ⟨fun heq => ?_, fun heq => ?_⟩]
      · exact h.written _ (List.mem_singleton_self _) key hkey
      · exact hu (keyPath_injective hpath heq ▸ hw)
      · rw [hname hw] at heq
        exact hu (hnames w (htail hw) _ hself heq.symm ▸ hw)
    · exact h'.written v hv key (h.ks ▸ hkey)
  · intro v hv hne hother
    have hlater {w : H128} (hw : w ∈ keys) (heq : d.filename v = d.filename w) :
        d''.files.lookup (d.filename v) = none := by
      rw [heq] at hne hother ⊢
      rw [← hname hw] at hne hother ⊢
      exact h'.removed w hw hne fun x hx => hother x (htail hx)
    by_cases hmem : ∃ w ∈ keys, d.filename v = d.filename w
    · obtain ⟨w, hw, heq⟩ := hmem
      exact hlater hw heq
    · rcases List.mem_cons.mp hv with rfl | hv
      · rw [h'.kept _ fun w hw => ⟨hother w (htail hw), fun heq => ?_⟩]
        · refine h.removed _ (List.mem_singleton_self _) hne fun w hw => ?_
          rw [List.mem_singleton.mp hw]
          exact hother _ hself
        · exact hmem ⟨w, hw, heq.trans (hname hw)⟩
      · exact hlater hv rfl
  · intro file hfile
    rw [h'.kept file fun w hw => ?_]
    · refine h.kept file fun w hw => ?_
      rw [List.mem_singleton.mp hw]
      exact hfile u hself
    · rw [hname hw]
      exact hfile w (htail hw)

theorem saved_foldl (hpath : path ≠ []) {keys : List H128} (hnodup : keys.Nodup)
    (hstored : ∀ u ∈ keys, ∃ key, d.ks.stored u = some key)
    (hnames : ∀ v ∈ keys, ∀ w ∈ keys, d.filename v = keyPath path w → v = w) :
    Saved env path keys d (keys.foldl (writeKey env path) d) := by
  induction keys generalizing d with
  | nil =>
    exact ⟨rfl, rfl, fun _ => by simp, by simp, by simp, fun _ _ => rfl⟩
  | cons u keys ih =>
    obtain ⟨hu, hnodup⟩ := List.nodup_cons.mp hnodup
    obtain ⟨key, hkey⟩ := hstored u List.mem_cons_self
    have hfirst : Saved env path [u] d (writeKey env path d u) := saved_writeKey hkey
    refine hfirst.cons hpath hu hnames (ih hnodup (fun v hv => ?_) fun v hv w hw heq => ?_)
    · rw [hfirst.ks]
      exact hstored v (List.mem_cons_of_mem u hv)
    · rw [hfirst.filename, if_neg] at heq
      · exact hnames v (List.mem_cons_of_mem u hv) w (List.mem_cons_of_mem u hw) heq
      · intro hmem
        exact hu (List.mem_singleton.mp hmem ▸ hv)

theorem mem_keys_iff {ks : SecretStore} {u : H128} : u ∈ ks.keys ↔ ∃ key, ks.stored u = some key := by
  rw [SecretStore.stored, ← Option.isSome_iff_exists, AList.lookup_isSome]
  exact AList.mem_keys.symm

/-- Every key is saved, in whatever order they are visited, if none of them came from a
    file that is named by another one. -/
theorem saved (hpath : d.m_path ≠ []) (order : VisitOrder H128)
    (hnames : ∀ v ∈ d.ks.keys, ∀ w ∈ d.ks.keys, d.filename v = keyPath d.m_path w → v = w) :
    Saved env d.m_path d.ks.keys d (d.save env order) := by
  have hfold : Saved env d.m_path (order.visit d.ks.keys) d (d.save env order) := by
    rw [save, saveTo, if_neg hpath]
    refine saved_foldl hpath (order.nodup_visit.mpr d.ks.m_keys.keys_nodup) (fun u hu => ?_) ?_
    · exact mem_keys_iff.mp (order.mem_visit.mp hu)
    · simpa only [VisitOrder.mem_visit] using hnames
  obtain ⟨hks, hm_path, hfilename, hwritten, hremoved, hkept⟩ := hfold
  simp only [VisitOrder.mem_visit] at hfilename hwritten hremoved hkept
  exact ⟨hks, hm_path, hfilename, hwritten, hremoved, hkept⟩

end StoreDirectory

end ConfluxSdk
