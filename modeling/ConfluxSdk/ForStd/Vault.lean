import Mathlib

/-!
# Vaults

A vault keeps sealed values by id, an index of names for the ids, and a cache of
values that were unsealed. The invariant `Agree` relates it to a book, which says what
value every name was given: what is sealed under a name and what is cached for it is
the value in the book.

## Key results

- `Vault.Agree.put`, `Vault.Agree.reseal`, `Vault.Agree.remove`, ...: what each change
  needs to keep the vault in agreement with its book
-/

variable {κ ι σ π ν : Type}

/-- A vault. -/
structure Vault (κ ι σ ν : Type) where
  idOf : κ → Option ι
  sealedAt : ι → Option σ
  opened : ι → Option ν

namespace Vault

variable (reveal : σ → π → Option ν)

/-- The vault holds what the book says. -/
structure Agree (V : Vault κ ι σ ν) (book : κ → Option ν) : Prop where
  present : ∀ k i, V.idOf k = some i → ∃ t, V.sealedAt i = some t
  inj : ∀ k k' i, V.idOf k = some i → V.idOf k' = some i → k = k'
  value : ∀ k i t p v, V.idOf k = some i → V.sealedAt i = some t → reveal t p = some v →
    book k = some v
  cache : ∀ k i v, V.idOf k = some i → V.opened i = some v → book k = some v

variable {reveal} {V : Vault κ ι σ ν} {book : κ → Option ν}

variable [DecidableEq ι]

/-- An unsealed value is cached. -/
theorem Agree.cacheOpened (h : Agree reveal V book) {i : ι} {t : σ} {p : π} {v : ν}
    (ht : V.sealedAt i = some t) (hv : reveal t p = some v) :
    Agree reveal { V with opened := Function.update V.opened i (some v) } book where
  present := h.present
  inj := h.inj
  value := h.value
  cache := by
    intro k j w hk hw
    simp only [Function.update_apply] at hw
    split at hw
    · rename_i hj
      rw [hj] at hk
      rw [← hw]
      exact h.value k i t p v hk ht hv
    · exact h.cache k j w hk hw

/-- Something is sealed under an id without a name. -/
theorem Agree.sealUnnamed (h : Agree reveal V book) {i : ι} (hi : ∀ k, V.idOf k ≠ some i) (t : σ) :
    Agree reveal { V with sealedAt := Function.update V.sealedAt i (some t) } book := by
  have hne : ∀ k j, V.idOf k = some j → j ≠ i := by
    intro k j hj hji
    rw [hji] at hj
    exact hi k hj
  refine ⟨?_, h.inj, ?_, h.cache⟩
  · intro k j hj
    show ∃ t', Function.update V.sealedAt i (some t) j = some t'
    rw [Function.update_of_ne (hne k j hj)]
    exact h.present k j hj
  · intro k j t' p v hj ht' hv
    have ht' : Function.update V.sealedAt i (some t) j = some t' := ht'
    rw [Function.update_of_ne (hne k j hj)] at ht'
    exact h.value k j t' p v hj ht' hv

/-- The value under a name is sealed anew and leaves the cache. -/
theorem Agree.reseal (h : Agree reveal V book) {k : κ} {i : ι} (hk : V.idOf k = some i) {t : σ}
    (ht : ∀ p w, reveal t p = some w → book k = some w) :
    Agree reveal ⟨V.idOf, Function.update V.sealedAt i (some t), Function.update V.opened i none⟩
      book := by
  refine ⟨?_, h.inj, ?_, ?_⟩
  · intro k' j hj
    simp only [Function.update_apply]
    split
    · exact ⟨t, rfl⟩
    · exact h.present k' j hj
  · intro k' j t' p w hj ht' hw
    simp only [Function.update_apply] at ht'
    split at ht'
    · obtain rfl := Option.some.inj ht'
      rename_i hji
      rw [hji] at hj
      rw [h.inj k' k i hj hk]
      exact ht p w hw
    · exact h.value k' j t' p w hj ht' hw
  · intro k' j w hj hw
    simp only [Function.update_apply] at hw
    split at hw
    · cases hw
    · exact h.cache k' j w hj hw

variable [DecidableEq κ]

/-- A value is sealed under an id that no other name has, and given a name. -/
theorem Agree.put (h : Agree reveal V book) {k : κ} {i : ι} {t : σ} {v : Option ν}
    {opened : ι → Option ν} (hother : ∀ k', V.idOf k' = some i → k' = k)
    (hsealed : ∀ p w, reveal t p = some w → v = some w)
    (hopened : ∀ j, j ≠ i → opened j = V.opened j) (hcached : ∀ w, opened i = some w → v = some w) :
    Agree reveal ⟨Function.update V.idOf k (some i), Function.update V.sealedAt i (some t), opened⟩
      (Function.update book k v) := by
  -- The other names keep their ids, which differ from the new one.
  have hne : ∀ k' j, k' ≠ k → V.idOf k' = some j → j ≠ i := by
    intro k' j hk' hj hji
    rw [hji] at hj
    exact hk' (hother k' hj)
  refine ⟨?_, ?_, ?_, ?_⟩
  · intro k' j hj
    simp only [Function.update_apply] at hj ⊢
    split at hj
    · obtain rfl := Option.some.inj hj
      exact ⟨t, if_pos rfl⟩
    · rw [if_neg (hne k' j ‹_› hj)]
      exact h.present k' j hj
  · intro k₁ k₂ j h₁ h₂
    simp only [Function.update_apply] at h₁ h₂
    split at h₁
    · obtain rfl := Option.some.inj h₁
      split at h₂
      · rw [‹k₁ = k›, ‹k₂ = k›]
      · exact absurd rfl (hne k₂ i ‹_› h₂)
    · split at h₂
      · obtain rfl := Option.some.inj h₂
        exact absurd rfl (hne k₁ i ‹_› h₁)
      · exact h.inj k₁ k₂ j h₁ h₂
  · intro k' j t' p w hj ht' hw
    simp only [Function.update_apply] at hj ht' ⊢
    split at hj
    · obtain rfl := Option.some.inj hj
      rw [if_pos rfl] at ht'
      obtain rfl := Option.some.inj ht'
      rw [if_pos ‹_›]
      exact hsealed p w hw
    · rw [if_neg (hne k' j ‹_› hj)] at ht'
      rw [if_neg ‹_›]
      exact h.value k' j t' p w hj ht' hw
  · intro k' j w hj hw
    simp only [Function.update_apply] at hj hw ⊢
    split at hj
    · obtain rfl := Option.some.inj hj
      rw [if_pos ‹_›]
      exact hcached w hw
    · rw [hopened j (hne k' j ‹_› hj)] at hw
      rw [if_neg ‹_›]
      exact h.cache k' j w hj hw

/-- A name and its value are removed. -/
theorem Agree.remove (h : Agree reveal V book) {k : κ} {i : ι} (hk : V.idOf k = some i) :
    Agree reveal ⟨Function.update V.idOf k none, Function.update V.sealedAt i none,
      Function.update V.opened i none⟩ book := by
  -- No other name had the id.
  have hne : ∀ k' j, k' ≠ k → V.idOf k' = some j → j ≠ i := by
    intro k' j hk' hj hji
    rw [hji] at hj
    exact hk' (h.inj k' k i hj hk)
  have hkept : ∀ k' j, Function.update V.idOf k none k' = some j → V.idOf k' = some j ∧ j ≠ i := by
    intro k' j hj
    rw [Function.update_apply] at hj
    split at hj
    · cases hj
    · exact ⟨hj, hne k' j ‹_› hj⟩
  refine ⟨?_, ?_, ?_, ?_⟩
  · intro k' j hj
    obtain ⟨hj, hji⟩ := hkept k' j hj
    show ∃ t, Function.update V.sealedAt i none j = some t
    rw [Function.update_of_ne hji]
    exact h.present k' j hj
  · intro k₁ k₂ j h₁ h₂
    exact h.inj k₁ k₂ j (hkept k₁ j h₁).1 (hkept k₂ j h₂).1
  · intro k' j t p v hj ht hv
    obtain ⟨hj, hji⟩ := hkept k' j hj
    have ht : Function.update V.sealedAt i none j = some t := ht
    rw [Function.update_of_ne hji] at ht
    exact h.value k' j t p v hj ht hv
  · intro k' j v hj hv
    obtain ⟨hj, hji⟩ := hkept k' j hj
    have hv : Function.update V.opened i none j = some v := hv
    rw [Function.update_of_ne hji] at hv
    exact h.cache k' j v hj hv

end Vault
