import ConfluxSdk.Spec.AbiLayout

/-!
# Predicted and produced sizes

`ParamSet::encode` trusts `getSize`. `ParamSet::getSize` charges an offset word
for every member larger than a word, while `ParamSet::encode` writes a static
fixed array in place, without one. The prediction is therefore never too small
(`SizeFacts.length_le`), and it is exact for the `regular` parameters only:
those in which every element of an array is dynamic or a single word.

## Key results

- `Param.sizeFacts`: how `encode` and `getSize` compare, by induction over the tree
- `Param.laid_of_regular`: regular parameters are laid out as predicted
- `Param.length_encode_iff_regular`: the exact condition, and what it gives for
  the offsets of a set
-/

namespace ConfluxSdk.Abi

/-! ### The parameters considered -/

mutual
/-- A fixed byte array holds as many bytes as its type says, at most a word, and
    a fixed array is not empty. -/
def Param.wellFormed : Param → Bool
  | .byteArrayFix n bytes => decide (1 ≤ n ∧ n ≤ 32 ∧ bytes.length = n)
  | .array ps | .parameters ps => allWellFormed ps
  | .arrayFix ps => !ps.isEmpty && allWellFormed ps
  | _ => true

def allWellFormed : List Param → Bool
  | [] => true
  | p :: ps => p.wellFormed && allWellFormed ps
end

mutual
/-- A static parameter that is a single word: a static leaf, or a fixed array
    whose only element is a single word. -/
def Param.oneWord : Param → Bool
  | .number .. | .uintN .. | .intN .. | .address _ | .byteArrayFix .. => true
  | .arrayFix ps => onlyOneWord ps
  | .byteArray _ | .string _ | .array _ | .parameters _ => false

def onlyOneWord : List Param → Bool
  | [p] => p.oneWord
  | _ => false
end

mutual
/-- In every collection of the tree, every element is dynamic or a single word. -/
def Param.regular : Param → Bool
  | .array ps | .arrayFix ps | .parameters ps => regularElems ps
  | _ => true

def regularElems : List Param → Bool
  | [] => true
  | p :: ps => (p.isDynamic || p.oneWord) && p.regular && regularElems ps
end

theorem allWellFormed_iff {ps : List Param} :
    allWellFormed ps = true ↔ ∀ p ∈ ps, p.wellFormed = true := by
  induction ps with
  | nil => simp [allWellFormed]
  | cons p ps ih => simp [allWellFormed, ih]

theorem regularElems_iff {ps : List Param} :
    regularElems ps = true ↔
      ∀ p ∈ ps, (p.isDynamic = true ∨ p.oneWord = true) ∧ p.regular = true := by
  induction ps with
  | nil => simp [regularElems]
  | cons p ps ih => simp [regularElems, ih, and_assoc]

/-! ### Sizes of a set -/

/-- Bytes a member adds to what `ParamSet::getSize` predicts. -/
def Param.charged (p : Param) : Nat :=
  (if p.isDynamic ∨ p.getSize > encodedIntSize then 32 else 0) + p.getSize

/-- Bytes a member adds to what `ParamSet::encode` writes. -/
def Param.written (p : Param) : Nat :=
  (if p.inTail then 32 else 0) + (p.encode []).length

private theorem length_encodeHeads_add_tails (headSize off : Nat) (ps : List Param)
    (d e : Data) :
    (encodeHeads headSize off ps d).length + (encodeTails ps e).length =
      d.length + e.length + (ps.map Param.written).sum := by
  induction ps generalizing off d e with
  | nil => simp [encodeHeads, encodeTails]
  | cons p ps ih =>
    rw [encodeHeads_cons, encodeTails_cons, List.map_cons, List.sum_cons, Param.written]
    split
    · rw [ih, encodeUInt256_uint256, p.encode_append e, List.length_append, List.length_append,
        SolidityAbi.length_word]
      omega
    · rw [ih, p.encode_append d, List.length_append]
      omega

/-- The length `ParamSet::encode` produces. -/
theorem ParamSet.length_encode (ps : List Param) :
    (ParamSet.encode ps []).length = (ps.map Param.written).sum := by
  have htails : ∀ d : Data, (encodeTails ps d).length =
      d.length + (encodeTails ps []).length := by
    intro d
    induction ps generalizing d with
    | nil => simp [encodeTails]
    | cons p ps ih =>
      rw [encodeTails_cons, encodeTails_cons]
      split
      · rw [ih, p.encode_append d, ih (p.encode []), List.length_append]
        omega
      · exact ih d
  have hsum := length_encodeHeads_add_tails (getHeadSize ps) 0 ps [] []
  rw [ParamSet.encode, htails]
  simpa using hsum

theorem sizeSum_eq (ps : List Param) : sizeSum ps = (ps.map Param.charged).sum := by
  induction ps with
  | nil => rfl
  | cons p ps ih => rw [sizeSum, ih, List.map_cons, List.sum_cons, Param.charged]

theorem paddedTo32_of_dvd {n : Nat} (h : 32 ∣ n) : paddedTo32 n = n := by
  simp only [paddedTo32]
  omega

private theorem dvd_paddedTo32 (n : Nat) : 32 ∣ paddedTo32 n := by
  simp only [paddedTo32]
  omega

theorem length_padRight (b : Data) :
    (SolidityAbi.padRight b).length = paddedTo32 b.length := by
  simp only [SolidityAbi.padRight, List.length_append, List.length_replicate, paddedTo32]
  omega

/-! ### Comparing the two -/

/-- How the produced length of a parameter compares with the predicted one. -/
structure SizeFacts (p : Param) : Prop where
  dvd_size : 32 ∣ p.getSize
  length_le : (p.encode []).length ≤ p.getSize
  length_eq_iff : (p.encode []).length = p.getSize ↔ p.regular = true
  static_size : p.isDynamic = false → 32 ≤ p.getSize ∧ (p.getSize ≤ 32 ↔ p.oneWord = true)
  static_fix : p.isDynamic = false → p.isFixArray = true ∨ p.getSize ≤ 32

namespace SizeFacts

variable {p : Param} (h : SizeFacts p)
include h

theorem inTail_eq : p.inTail = p.isDynamic := by
  rw [Param.inTail]
  cases hd : p.isDynamic with
  | true => rfl
  | false =>
    rcases h.static_fix hd with hf | hs
    · simp [hf]
    · simp [encodedIntSize, Nat.not_lt.mpr hs]

theorem dvd_charged : 32 ∣ p.charged := by
  have := h.dvd_size
  rw [Param.charged]
  split <;> omega

theorem le_charged : 32 ≤ p.charged := by
  rw [Param.charged]
  cases hd : p.isDynamic with
  | true => simp
  | false =>
    have := (h.static_size hd).1
    omega

theorem written_le : p.written ≤ p.charged := by
  have hle := h.length_le
  rw [Param.written, Param.charged, h.inTail_eq]
  cases hd : p.isDynamic with
  | true => simp; omega
  | false => simp only [Bool.false_eq_true, if_false]; omega

/-- A member is charged what it writes exactly when it is regular and either
    dynamic or a single word. -/
theorem written_eq_iff :
    p.written = p.charged ↔ (p.isDynamic = true ∨ p.oneWord = true) ∧ p.regular = true := by
  have hle := h.length_le
  rw [← h.length_eq_iff, Param.written, Param.charged, h.inTail_eq]
  cases hd : p.isDynamic with
  | true => simp
  | false =>
    obtain ⟨hge, hone⟩ := h.static_size hd
    rw [← hone]
    simp only [Bool.false_eq_true, if_false, false_or, encodedIntSize]
    split <;> omega

end SizeFacts

section Sets

variable {ps : List Param} (h : ∀ p ∈ ps, SizeFacts p)
include h

private theorem dvd_sum_charged : 32 ∣ (ps.map Param.charged).sum := by
  apply List.dvd_sum
  intro x hx
  obtain ⟨p, hp, rfl⟩ := List.mem_map.mp hx
  exact (h p hp).dvd_charged

theorem paddedTo32_sizeSum : paddedTo32 (sizeSum ps) = (ps.map Param.charged).sum := by
  rw [sizeSum_eq, paddedTo32_of_dvd (dvd_sum_charged h)]

private theorem sum_written_le : (ps.map Param.written).sum ≤ (ps.map Param.charged).sum :=
  List.sum_le_sum (fun p hp => (h p hp).written_le)

/-- The prediction for a set is exact when it is exact for every member: no
    member is charged less than it writes, so nothing can cancel. -/
private theorem sum_written_eq_iff :
    (ps.map Param.written).sum = (ps.map Param.charged).sum ↔ regularElems ps = true := by
  induction ps with
  | nil => simp [regularElems]
  | cons p ps ih =>
    have hp := h p List.mem_cons_self
    have hps := fun q hq => h q (List.mem_cons_of_mem p hq)
    have hle := hp.written_le
    have hles := sum_written_le hps
    have hsplit : p.written + (ps.map Param.written).sum =
          p.charged + (ps.map Param.charged).sum ↔
        p.written = p.charged ∧ (ps.map Param.written).sum = (ps.map Param.charged).sum := by
      omega
    rw [List.map_cons, List.map_cons, List.sum_cons, List.sum_cons, hsplit, hp.written_eq_iff,
      ih hps, regularElems_iff, regularElems_iff, List.forall_mem_cons]

end Sets

/-- A collection inherits the comparison from its elements; `extra` is the
    length word of a dynamic array. -/
private theorem collection_facts {ps : List Param} (h : ∀ p ∈ ps, SizeFacts p) (extra : Nat) :
    extra + (ParamSet.encode ps []).length ≤ extra + paddedTo32 (sizeSum ps) ∧
      (extra + (ParamSet.encode ps []).length = extra + paddedTo32 (sizeSum ps) ↔
        regularElems ps = true) := by
  rw [ParamSet.length_encode, paddedTo32_sizeSum h]
  refine ⟨Nat.add_le_add_left (sum_written_le h) extra, ?_⟩
  rw [Nat.add_left_cancel_iff]
  exact sum_written_eq_iff h

/-- A static fixed array is a single word exactly when its only element is. -/
private theorem arrayFix_static_size {ps : List Param} (h : ∀ p ∈ ps, SizeFacts p)
    (hne : ps ≠ []) (hd : firstIsDynamic ps = false) :
    32 ≤ (ps.map Param.charged).sum ∧
      ((ps.map Param.charged).sum ≤ 32 ↔ onlyOneWord ps = true) := by
  rcases ps with _ | ⟨p, _ | ⟨q, rest⟩⟩
  · exact absurd rfl hne
  · obtain ⟨hge, hone⟩ := (h p List.mem_cons_self).static_size hd
    simp only [List.map_cons, List.map_nil, List.sum_cons, List.sum_nil, Nat.add_zero,
      onlyOneWord, ← hone, Param.charged]
    simp only [firstIsDynamic] at hd
    simp only [hd, Bool.false_eq_true, false_or, encodedIntSize]
    split <;> omega
  · have hp := (h p List.mem_cons_self).le_charged
    have hq := (h q (List.mem_cons_of_mem _ List.mem_cons_self)).le_charged
    simp only [List.map_cons, List.sum_cons, onlyOneWord, Bool.false_eq_true, iff_false]
    omega

private theorem leaf_facts {p : Param} (hlen : (p.encode []).length = 32)
    (hsize : p.getSize = 32) (hreg : p.regular = true) (hone : p.oneWord = true) :
    SizeFacts p where
  dvd_size := by rw [hsize]
  length_le := by omega
  length_eq_iff := by simp [hlen, hsize, hreg]
  static_size _ := by simp [hsize, hone]
  static_fix _ := Or.inr (by omega)

private theorem bytes_facts {p : Param} {b : Data}
    (hlen : p.encode [] = encodeBytes b []) (hsize : p.getSize = 32 + paddedTo32 b.length)
    (hreg : p.regular = true) (hdyn : p.isDynamic = true) : SizeFacts p where
  dvd_size := by
    have := dvd_paddedTo32 b.length
    omega
  length_le := by
    rw [hlen, hsize, encodeBytes_eq]
    simp [length_padRight]
  length_eq_iff := by
    rw [hlen, hsize, encodeBytes_eq]
    simp [length_padRight, hreg]
  static_size hd := by simp [hdyn] at hd
  static_fix hd := by simp [hdyn] at hd

/-- How `encode` and `getSize` compare, for every well-formed parameter tree. -/
theorem Param.sizeFacts (p : Param) (hwf : p.wellFormed = true) : SizeFacts p := by
  induction p using Param.inductionOn with
  -- The leaves are words, or counted bytes.
  | number t val =>
    exact leaf_facts (by simp [Param.encode, encodeUInt256_eq]) rfl rfl rfl
  | uintN bits val =>
    exact leaf_facts (by simp [Param.encode, encodeUInt256_eq]) rfl rfl rfl
  | intN bits val =>
    exact leaf_facts (by simp [Param.encode, encodeUInt256_eq]) rfl rfl rfl
  | address val =>
    exact leaf_facts (by simp [Param.encode, encodeUInt256_eq]) rfl rfl rfl
  | byteArray bytes => exact bytes_facts rfl rfl rfl rfl
  | string str => exact bytes_facts rfl rfl rfl rfl
  | byteArrayFix n bytes =>
    simp only [Param.wellFormed, decide_eq_true_eq] at hwf
    have hsize : paddedTo32 bytes.length = 32 := by simp only [paddedTo32]; omega
    refine leaf_facts ?_ hsize rfl rfl
    rw [Param.encode, encodeBytesFix_eq, List.nil_append, length_padRight, hsize]
  | array ps ih =>
    have h : ∀ p ∈ ps, SizeFacts p := fun p hp => ih p hp (allWellFormed_iff.mp hwf p hp)
    -- The count takes 32 bytes that the sizes of the elements do not cover.
    obtain ⟨hle, hiff⟩ := collection_facts h 32
    have hlen : (Param.encode (.array ps) []).length = 32 + (ParamSet.encode ps []).length := by
      rw [Param.encode_array, List.length_append, SolidityAbi.length_word]
    exact {
      dvd_size := by
        have := dvd_paddedTo32 (sizeSum ps)
        simp only [Param.getSize]
        omega
      length_le := by rw [hlen]; exact hle
      length_eq_iff := by rw [hlen]; exact hiff
      static_size := fun hd => by simp [Param.isDynamic] at hd
      static_fix := fun hd => by simp [Param.isDynamic] at hd }
  | arrayFix ps ih =>
    rw [Param.wellFormed, Bool.and_eq_true] at hwf
    have h : ∀ p ∈ ps, SizeFacts p := fun p hp => ih p hp (allWellFormed_iff.mp hwf.2 p hp)
    have hne : ps ≠ [] := by
      rintro rfl
      exact absurd hwf.1 (by decide)
    -- A fixed array has no count, and only it may be static.
    obtain ⟨hle, hiff⟩ := collection_facts h 0
    simp only [Nat.zero_add] at hle hiff
    exact {
      dvd_size := dvd_paddedTo32 (sizeSum ps)
      length_le := hle
      length_eq_iff := hiff
      static_size := fun hd => by
        rw [Param.getSize, paddedTo32_sizeSum h]
        exact arrayFix_static_size h hne hd
      static_fix := fun _ => Or.inl rfl }
  | parameters ps ih =>
    have h : ∀ p ∈ ps, SizeFacts p := fun p hp => ih p hp (allWellFormed_iff.mp hwf p hp)
    obtain ⟨hle, hiff⟩ := collection_facts h 0
    simp only [Nat.zero_add] at hle hiff
    exact {
      dvd_size := dvd_paddedTo32 (sizeSum ps)
      length_le := hle
      length_eq_iff := hiff
      static_size := fun hd => by simp [Param.isDynamic] at hd
      static_fix := fun hd => by simp [Param.isDynamic] at hd }

/-- Regular parameters are laid out where the first pass predicts. -/
theorem Param.laid_of_regular {p : Param} (hwf : p.wellFormed = true)
    (hreg : p.regular = true) : p.Laid where
  length_eq := (p.sizeFacts hwf).length_eq_iff.mpr hreg
  one_word := (p.sizeFacts hwf).static_fix

/-! ### Offsets -/

/-- What the first pass has added up in `dynamicOffset` after the members `ps`. -/
def dynamicOffset (ps : List Param) : Nat := ((ps.filter Param.isDynamic).map Param.getSize).sum

/-- Every offset word of the set, derived from `getSize` of the members before
    it, is the distance from the start of the heads to the matching tail. -/
def OffsetsExact (ps : List Param) : Prop :=
  ∀ pre p post, ps = pre ++ p :: post → p.isDynamic = true →
    encodeUInt256 (uint256 (getHeadSize ps + dynamicOffset pre)) [] <+:
        (ParamSet.encode ps []).drop (getHeadSize pre) ∧
      p.encode [] <+: (ParamSet.encode ps []).drop (getHeadSize ps + dynamicOffset pre)

private theorem length_tails_part {ps : List Param} (h : ∀ p ∈ ps, p.Laid) :
    (HeadTail.tails (ps.map Param.part)).length = dynamicOffset ps := by
  induction ps with
  | nil => rfl
  | cons p ps ih =>
    have hp := h p List.mem_cons_self
    have ih' := ih (fun q hq => h q (List.mem_cons_of_mem _ hq))
    rw [List.map_cons, HeadTail.tails_cons, List.length_append, ih', HeadTail.Part.tail,
      dynamicOffset, dynamicOffset]
    cases hd : p.isDynamic with
    | true => simp [Param.part, hd, hp.length_eq]
    | false => simp [Param.part, hd]

theorem offsetsExact_of_laid {ps : List Param} (h : ∀ p ∈ ps, p.Laid) : OffsetsExact ps := by
  rintro pre p post rfl hd
  have hpre : ∀ q ∈ pre, q.Laid := fun q hq => h q (List.mem_append_left _ hq)
  -- The offset of the layout is the one the first pass predicts.
  have hoff : HeadTail.offset 32 ((pre ++ p :: post).map Param.part) (pre.map Param.part).length =
      getHeadSize (pre ++ p :: post) + dynamicOffset pre := by
    rw [HeadTail.offset, ← getHeadSize_eq_headsLength _ h, List.map_append, List.take_left,
      length_tails_part hpre]
  rw [ParamSet.encode_eq_layout _ h, List.nil_append, encodeUInt256_uint256, List.nil_append,
    getHeadSize_eq_headsLength pre hpre, ← hoff, List.map_append, List.map_cons]
  exact ⟨HeadTail.layout_pointer SolidityAbi.length_pointer _ _ p.part hd,
    HeadTail.layout_body SolidityAbi.length_pointer _ _ p.part hd⟩

/-- `encode` appends as many bytes as `getSize` predicts exactly for the regular
    parameters, and in a set of such parameters every offset leads to its tail. -/
theorem Param.length_encode_iff_regular (p : Param) (hwf : p.wellFormed = true) (data : Data) :
    ((p.encode data).length = data.length + p.getSize ↔ p.regular = true) ∧
      ∀ ps : List Param, (∀ q ∈ ps, q.wellFormed = true ∧ q.regular = true) →
        OffsetsExact ps := by
  constructor
  · rw [p.encode_append, List.length_append, Nat.add_left_cancel_iff]
    exact (p.sizeFacts hwf).length_eq_iff
  · intro ps hps
    exact offsetsExact_of_laid fun q hq => Param.laid_of_regular (hps q hq).1 (hps q hq).2

/-- `uint256[2][]` holding the single element `[1, 2]`. -/
def pairInArray : Param :=
  .array [.arrayFix [.number .uint256 ⟨1, by decide⟩, .number .uint256 ⟨2, by decide⟩]]

theorem length_encode_singleton :
    (Param.encode (.arrayFix [.number .uint256 ⟨1, by decide⟩]) []).length =
      Param.getSize (.arrayFix [.number .uint256 ⟨1, by decide⟩]) := by
  have h := (Param.length_encode_iff_regular
    (.arrayFix [.number .uint256 ⟨1, by decide⟩]) (by decide) []).1
  rw [List.length_nil, Nat.zero_add] at h
  exact h.mpr (by decide)

/-- 96 bytes are written where 128 are predicted: the element of two words is
    charged an offset word that is never written. -/
theorem length_encode_pairInArray :
    pairInArray.wellFormed = true ∧
      (pairInArray.encode []).length ≠ ([] : Data).length + pairInArray.getSize := by
  decide

end ConfluxSdk.Abi
