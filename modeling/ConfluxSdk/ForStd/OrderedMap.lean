import Mathlib

/-!
# Maps ordered by a key

A map as a list of entries whose keys increase, in the way of a search tree: two keys
are the same when the linear order of what `key` reads from them does not tell them
apart. An assignment to a key that is there keeps the key object and changes the value.

## Key results

- `OrderedMap.get?_insert`, `OrderedMap.get?_erase`: what a lookup finds afterwards
- `OrderedMap.mem_keys_iff`: the keys are those a lookup finds
-/

/-- A map ordered by `key`. -/
structure OrderedMap {κ τ : Type} [LinearOrder τ] (key : κ → τ) (α : Type) where
  entries : List (κ × α)
  sorted : entries.Pairwise fun x y => key x.1 < key y.1

namespace OrderedMap

variable {κ τ α : Type} [LinearOrder τ] {key : κ → τ}

/-- The empty map. -/
def empty : OrderedMap key α := ⟨[], List.Pairwise.nil⟩

/-- The value at a key, by what is read from it. -/
def get? (m : OrderedMap key α) (x : τ) : Option α :=
  (m.entries.find? fun e => key e.1 = x).map Prod.snd

/-- The value at a key. -/
def find? (m : OrderedMap key α) (k : κ) : Option α := m.get? (key k)

/-- The keys, in order. -/
def keys (m : OrderedMap key α) : List κ := m.entries.map Prod.fst

variable (key) in
/-- The entries after an assignment. -/
def insertEntry (k : κ) (v : α) : List (κ × α) → List (κ × α)
  | [] => [(k, v)]
  | e :: es =>
    if key k < key e.1 then (k, v) :: e :: es
    else if key e.1 < key k then e :: insertEntry k v es
    else (e.1, v) :: es

/-- The keys after an assignment are the old ones and the new one. -/
theorem key_mem_insertEntry {k : κ} {v : α} {es : List (κ × α)} {e : κ × α}
    (h : e ∈ insertEntry key k v es) : key e.1 = key k ∨ ∃ e' ∈ es, key e.1 = key e'.1 := by
  induction es with
  | nil =>
    rw [insertEntry, List.mem_singleton] at h
    exact .inl (by rw [h])
  | cons x es ih =>
    rw [insertEntry] at h
    split at h
    · rcases List.mem_cons.mp h with rfl | h
      · exact .inl rfl
      · exact .inr ⟨e, h, rfl⟩
    · split at h
      · rcases List.mem_cons.mp h with rfl | h
        · exact .inr ⟨e, List.mem_cons_self, rfl⟩
        · rcases ih h with heq | ⟨e', he', heq⟩
          · exact .inl heq
          · exact .inr ⟨e', List.mem_cons_of_mem _ he', heq⟩
      · rcases List.mem_cons.mp h with rfl | h
        · exact .inr ⟨x, List.mem_cons_self, rfl⟩
        · exact .inr ⟨e, List.mem_cons_of_mem _ h, rfl⟩

theorem sorted_insertEntry {k : κ} {v : α} {es : List (κ × α)}
    (h : es.Pairwise fun x y => key x.1 < key y.1) :
    (insertEntry key k v es).Pairwise fun x y => key x.1 < key y.1 := by
  induction es with
  | nil => exact List.pairwise_singleton _ _
  | cons x es ih =>
    obtain ⟨hx, hes⟩ := List.pairwise_cons.mp h
    rw [insertEntry]
    split
    · rename_i hlt
      refine List.pairwise_cons.mpr ⟨fun y hy => ?_, h⟩
      rcases List.mem_cons.mp hy with rfl | hy
      · exact hlt
      · exact lt_trans hlt (hx y hy)
    · split
      · rename_i hlt
        refine List.pairwise_cons.mpr ⟨fun y hy => ?_, ih hes⟩
        rcases key_mem_insertEntry hy with heq | ⟨e', he', heq⟩
        · rwa [heq]
        · rw [heq]
          exact hx e' he'
      · exact List.pairwise_cons.mpr ⟨hx, hes⟩

/-- The assignment of a value to a key. -/
def insert (m : OrderedMap key α) (k : κ) (v : α) : OrderedMap key α :=
  ⟨insertEntry key k v m.entries, sorted_insertEntry m.sorted⟩

/-- The map without a key. -/
def erase (m : OrderedMap key α) (k : κ) : OrderedMap key α :=
  ⟨m.entries.filter fun e => key e.1 ≠ key k, m.sorted.filter _⟩

@[simp] theorem get?_empty (x : τ) : (empty : OrderedMap key α).get? x = none := rfl

theorem find?_insertEntry (k : κ) (x : τ) (v : α) (es : List (κ × α)) :
    ((insertEntry key k v es).find? fun e => key e.1 = x).map Prod.snd =
      if x = key k then some v else (es.find? fun e => key e.1 = x).map Prod.snd := by
  induction es with
  | nil =>
    rw [insertEntry, List.find?_cons]
    by_cases h : x = key k
    · simp [h]
    · simp [h, Ne.symm h]
  | cons y es ih =>
    rw [insertEntry]
    split
    · by_cases h : x = key k
      · simp [h]
      · simp [h, Ne.symm h, List.find?_cons]
    · split
      · rename_i hlt
        rw [List.find?_cons, List.find?_cons]
        by_cases hy : key y.1 = x
        · -- The entry that is passed is not the one that is assigned.
          have hne : x ≠ key k := by
            rw [← hy]
            exact ne_of_lt hlt
          simp [hy, hne]
        · simp only [hy, decide_false]
          exact ih
      · have heq : key y.1 = key k := le_antisymm (not_lt.mp ‹_›) (not_lt.mp ‹_›)
        rw [List.find?_cons, List.find?_cons]
        by_cases h : x = key k
        · simp [h, heq]
        · simp [h, heq, Ne.symm h]

/-- An assignment changes the value at its key. -/
theorem get?_insert [DecidableEq τ] (m : OrderedMap key α) (k : κ) (v : α) :
    (m.insert k v).get? = Function.update m.get? (key k) (some v) := by
  funext x
  have hfind : (m.insert k v).get? x = _ := find?_insertEntry k x v m.entries
  rw [hfind, Function.update_apply]
  by_cases h : x = key k
  · rw [if_pos h, if_pos h]
  · rw [if_neg h, if_neg h]
    rfl

theorem get?_erase [DecidableEq τ] (m : OrderedMap key α) (k : κ) :
    (m.erase k).get? = Function.update m.get? (key k) none := by
  funext x
  rw [Function.update_apply, get?, get?, erase, List.find?_filter]
  split
  · rename_i h
    rw [List.find?_eq_none.mpr, Option.map_none]
    intro e _ he
    simp only [ne_eq, decide_not, Bool.decide_and, Bool.and_eq_true, Bool.not_eq_eq_eq_not,
      Bool.not_true, decide_eq_false_iff_not, decide_eq_true_eq] at he
    exact he.1 (he.2.trans h)
  · rename_i h
    congr 2
    funext e
    by_cases he : key e.1 = x
    · simp [he, h]
    · simp [he]

/-- The keys are those a lookup finds. -/
theorem mem_keys_iff (m : OrderedMap key α) (x : τ) :
    (∃ k ∈ m.keys, key k = x) ↔ ∃ v, m.get? x = some v := by
  rw [get?, keys]
  constructor
  · intro hkey
    obtain ⟨k, hk, heq⟩ := hkey
    obtain ⟨e, he, rfl⟩ := List.mem_map.mp hk
    cases hfind : m.entries.find? fun e => key e.1 = x with
    | none => exact absurd heq (by simpa using List.find?_eq_none.mp hfind e he)
    | some e' => exact ⟨e'.2, rfl⟩
  · intro hfound
    obtain ⟨v, hv⟩ := hfound
    obtain ⟨e, he, -⟩ := Option.map_eq_some_iff.mp hv
    exact ⟨e.1, List.mem_map_of_mem (List.mem_of_find?_eq_some he), by
      simpa using List.find?_some he⟩

/-- An entry is found. -/
theorem get?_of_mem {m : OrderedMap key α} {e : κ × α} (h : e ∈ m.entries) :
    m.get? (key e.1) = some e.2 := by
  have hsorted := m.sorted
  rw [get?]
  induction hes : m.entries generalizing m with
  | nil =>
    rw [hes] at h
    cases h
  | cons x es ih =>
    rw [hes] at h hsorted
    obtain ⟨hx, hes'⟩ := List.pairwise_cons.mp hsorted
    rw [List.find?_cons]
    rcases List.mem_cons.mp h with rfl | h
    · simp
    · have hne : key x.1 ≠ key e.1 := ne_of_lt (hx e h)
      simp only [hne, decide_false]
      exact ih (m := ⟨es, hes'⟩) h hes' rfl

/-- The keys after an assignment. -/
theorem mem_keys_insert {m : OrderedMap key α} {k k' : κ} {v : α}
    (h : k' ∈ (m.insert k v).keys) : k' = k ∨ k' ∈ m.keys := by
  obtain ⟨e, he, rfl⟩ := List.mem_map.mp h
  have hentries : ∀ es : List (κ × α), e ∈ insertEntry key k v es →
      e.1 = k ∨ e.1 ∈ es.map Prod.fst := by
    intro es
    induction es with
    | nil =>
      intro he
      rw [insertEntry, List.mem_singleton] at he
      exact .inl (by rw [he])
    | cons x es ih =>
      intro he
      rw [insertEntry] at he
      split at he
      · rcases List.mem_cons.mp he with rfl | he
        · exact .inl rfl
        · exact .inr (List.mem_map_of_mem he)
      · split at he
        · rcases List.mem_cons.mp he with rfl | he
          · exact .inr (by simp)
          · rcases ih he with heq | hmem
            · exact .inl heq
            · exact .inr (List.mem_cons_of_mem _ hmem)
        · rcases List.mem_cons.mp he with rfl | he
          · exact .inr (by simp)
          · exact .inr (List.mem_cons_of_mem _ (List.mem_map_of_mem he))
  exact hentries m.entries he

theorem mem_keys_erase {m : OrderedMap key α} {k k' : κ} (h : k' ∈ (m.erase k).keys) :
    k' ∈ m.keys := by
  obtain ⟨e, he, rfl⟩ := List.mem_map.mp h
  exact List.mem_map_of_mem (List.mem_of_mem_filter he)

theorem keys_insert_ne_nil (m : OrderedMap key α) (k : κ) (v : α) : (m.insert k v).keys ≠ [] := by
  have hget : (m.insert k v).get? (key k) = some v := by
    rw [get?_insert, Function.update_self]
  obtain ⟨k', hmem, -⟩ := ((m.insert k v).mem_keys_iff (key k)).mpr ⟨v, hget⟩
  exact List.ne_nil_of_mem hmem

/-- Of two or more keys, one is left. -/
theorem keys_erase_ne_nil {m : OrderedMap key α} (k : κ) (h : 1 < m.keys.length) :
    (m.erase k).keys ≠ [] := by
  obtain ⟨x, y, es, hes⟩ : ∃ x y es, m.entries = x :: y :: es := by
    rw [keys, List.length_map] at h
    cases hes : m.entries with
    | nil => simp [hes] at h
    | cons x es =>
      cases es with
      | nil => simp [hes] at h
      | cons y es => exact ⟨x, y, es, rfl⟩
  have hsorted := m.sorted
  rw [hes] at hsorted
  have hlt : key x.1 < key y.1 := List.rel_of_pairwise_cons hsorted List.mem_cons_self
  -- The two keys differ, so one of them is not the one that goes.
  have hmem : ∃ e ∈ m.entries, key e.1 ≠ key k := by
    by_cases hx : key x.1 = key k
    · exact ⟨y, by simp [hes], fun hy => absurd (hx.trans hy.symm) (ne_of_lt hlt)⟩
    · exact ⟨x, by simp [hes], hx⟩
  obtain ⟨e, he, hne⟩ := hmem
  exact List.ne_nil_of_mem (List.mem_map_of_mem (List.mem_filter.mpr ⟨he, by simpa using hne⟩))

end OrderedMap
