import ConfluxSdk.Spec.AbiEncodeCorrect

/-!
# Static tuples are never encoded in place

`Parameters::isDynamic` answers `true` whatever the members are, so a tuple always
gets an offset word and a tail. The ABI has no such word for a tuple of static
members. Nothing can make up for it: no object is written in fewer bytes than the ABI
takes for its value, so the argument list comes out too long.

## Key results

- `Param.atLeast`: an object is written in at least the bytes the ABI takes
- `staticTuple_not_inPlace`: no list with a static tuple is encoded per the ABI
-/

namespace ConfluxSdk.Abi

open SolidityAbi (Ty Val enc encArgs elemParts memberParts pointer)

/-! ### Room an object takes -/

/-- The object is dynamic if its type is, and takes no fewer bytes than its value does
    in the ABI. -/
structure AtLeast (p : Param) (t : Ty) : Prop where
  isDynamic : t.isDynamic = true → p.isDynamic = true
  length_le : (enc t p.toVal).length ≤ (p.encode []).length

theorem Conforms.atLeast {p : Param} {t : Ty} (h : Conforms p t) : AtLeast p t where
  isDynamic ht := h.isDynamic_eq.trans ht
  length_le := by rw [h.encode_eq]

/-- The part of the layout the ABI has for an object. -/
def abiPart (p : Param) (t : Ty) : HeadTail.Part UInt8 := ⟨t.isDynamic, enc t p.toVal⟩

theorem AtLeast.room_le {p : Param} {t : Ty} (h : AtLeast p t) :
    (abiPart p t).room 32 ≤ p.written := by
  have hlen := h.length_le
  rw [HeadTail.Part.room_eq, Param.written]
  cases ht : t.isDynamic with
  | true =>
    have htail : p.inTail = true := by rw [Param.inTail, h.isDynamic ht, Bool.true_or]
    simp only [abiPart, ht, htail, if_true]
    omega
  | false =>
    simp only [abiPart, ht, Bool.false_eq_true, if_false]
    omega

section Layouts

theorem length_elemParts_le {ps : List Param} {e : Ty} (h : ∀ p ∈ ps, AtLeast p e) :
    ((elemParts e (toVals ps)).map (HeadTail.Part.room 32)).sum ≤ (ps.map Param.written).sum := by
  induction ps with
  | nil => exact Nat.le_refl _
  | cons p ps ih =>
    rw [List.forall_mem_cons] at h
    have hp := h.1.room_le
    have hps := ih h.2
    rw [toVals, elemParts, List.map_cons, List.sum_cons, List.map_cons, List.sum_cons]
    exact Nat.add_le_add hp hps

theorem length_memberParts_le {ps : List Param} {ts : List Ty} (h : List.Forall₂ AtLeast ps ts) :
    ((memberParts ts (toVals ps)).map (HeadTail.Part.room 32)).sum ≤
      (ps.map Param.written).sum := by
  induction h with
  | nil => exact Nat.le_refl _
  | cons hp _ ih =>
    rw [toVals, memberParts, List.map_cons, List.sum_cons, List.map_cons, List.sum_cons]
    exact Nat.add_le_add hp.room_le ih

/-- The elements of an array take at least the room of their layout. -/
theorem length_elems_le {ps : List Param} {e : Ty} (h : ∀ p ∈ ps, AtLeast p e) :
    (HeadTail.layout pointer 32 (elemParts e (toVals ps))).length ≤
      (ParamSet.encode ps []).length := by
  rw [HeadTail.length_layout_eq_sum SolidityAbi.length_pointer, ParamSet.length_encode]
  exact length_elemParts_le h

theorem length_members_le {ps : List Param} {ts : List Ty} (h : List.Forall₂ AtLeast ps ts) :
    (HeadTail.layout pointer 32 (memberParts ts (toVals ps))).length ≤
      (ParamSet.encode ps []).length := by
  rw [HeadTail.length_layout_eq_sum SolidityAbi.length_pointer, ParamSet.length_encode]
  exact length_memberParts_le h

end Layouts

private theorem forall₂_atLeast {ps : List Param} {ts : List Ty}
    (hall : ∀ p ∈ ps, ∀ t, p.HasTy t → AtLeast p t) (h : List.Forall₂ Param.HasTy ps ts) :
    List.Forall₂ AtLeast ps ts := by
  induction h with
  | nil => exact .nil
  | cons hp _ ih =>
    rw [List.forall_mem_cons] at hall
    exact .cons (hall.1 _ hp) (ih hall.2)

/-- No object is written in fewer bytes than the ABI takes. -/
theorem Param.atLeast (p : Param) (t : Ty) (hty : p.HasTy t) (hwf : p.wellFormed = true) :
    AtLeast p t := by
  induction p using Param.inductionOn generalizing t with
  | array ps ih =>
    obtain ⟨e, rfl, helems⟩ := hty
    have h : ∀ p ∈ ps, AtLeast p e := fun p hp =>
      ih p hp e (elemsHaveTy_iff.mp helems p hp) (allWellFormed_iff.mp hwf p hp)
    refine ⟨fun _ => rfl, ?_⟩
    -- Both sides start with the length word.
    have hle := length_elems_le h
    rw [Param.encode_array, Param.toVal, enc, List.length_append, List.length_append,
      SolidityAbi.length_word, SolidityAbi.length_word]
    omega
  | arrayFix ps ih =>
    obtain ⟨e, rfl, helems⟩ := hty
    rw [Param.wellFormed, Bool.and_eq_true] at hwf
    have h : ∀ p ∈ ps, AtLeast p e := fun p hp =>
      ih p hp e (elemsHaveTy_iff.mp helems p hp) (allWellFormed_iff.mp hwf.2 p hp)
    refine ⟨fun he => ?_, length_elems_le h⟩
    cases ps with
    | nil => exact absurd hwf.1 (by decide)
    | cons p ps => exact (h p List.mem_cons_self).isDynamic he
  | parameters ps ih =>
    obtain ⟨ts, rfl, hmembers⟩ := hty
    refine ⟨fun _ => rfl, length_members_le ?_⟩
    refine forall₂_atLeast ?_ (membersHaveTy_iff.mp hmembers)
    exact fun p hp t ht => ih p hp t ht (allWellFormed_iff.mp hwf p hp)
  | _ => exact (Param.conforms _ t hty hwf rfl rfl).atLeast

/-! ### Lists with a static tuple -/

/-- The list is encoded as the ABI prescribes: static members, tuples among them, stand in
    the head, and every offset word counts the heads and tails before it. -/
def EncodesPerAbi (ps : List Param) (ts : List Ty) : Prop :=
  ParamSet.encode ps [] = encArgs ts (ps.map Param.toVal)

/-- A static tuple is given an offset word that the ABI does not have. -/
theorem staticTuple_room_lt {qs : List Param} {us : List Ty}
    (h : AtLeast (.parameters qs) (.tuple us)) (hstatic : (Ty.tuple us).isDynamic = false) :
    (abiPart (.parameters qs) (.tuple us)).room 32 < (Param.parameters qs).written := by
  have hlen := h.length_le
  have htail : (Param.parameters qs).inTail = true := rfl
  rw [HeadTail.Part.room_eq, Param.written, htail]
  simp only [abiPart, hstatic, Bool.false_eq_true, if_false, if_true]
  omega

theorem memberParts_append {ts₁ : List Ty} {vs₁ : List Val} (h : ts₁.length = vs₁.length)
    (ts₂ : List Ty) (vs₂ : List Val) :
    memberParts (ts₁ ++ ts₂) (vs₁ ++ vs₂) = memberParts ts₁ vs₁ ++ memberParts ts₂ vs₂ := by
  induction ts₁ generalizing vs₁ with
  | nil =>
    have hnil : memberParts [] [] = [] := rfl
    rw [List.eq_nil_of_length_eq_zero h.symm, hnil]
    rfl
  | cons t ts₁ ih =>
    obtain ⟨v, vs₁, rfl⟩ := List.exists_cons_of_length_eq_add_one h.symm
    rw [List.cons_append, List.cons_append, memberParts, memberParts, List.cons_append,
      ih (by simpa using h)]

/-- With a static tuple anywhere in it, a parameter list is not encoded as the ABI
    prescribes. -/
theorem staticTuple_not_inPlace (before qs after : List Param) (ts₁ us ts₂ : List Ty)
    (hbefore : List.Forall₂ Param.HasTy before ts₁) (hqs : List.Forall₂ Param.HasTy qs us)
    (hafter : List.Forall₂ Param.HasTy after ts₂) (hstatic : (Ty.tuple us).isDynamic = false)
    (hwf : ∀ p ∈ before ++ .parameters qs :: after, p.wellFormed = true) :
    ¬ EncodesPerAbi (before ++ .parameters qs :: after) (ts₁ ++ .tuple us :: ts₂) := by
  have hmem : ∀ ps : List Param, (∀ p ∈ ps, p ∈ before ++ .parameters qs :: after) →
      ∀ p ∈ ps, ∀ t, p.HasTy t → AtLeast p t :=
    fun ps hps p hp t ht => p.atLeast t ht (hwf p (hps p hp))
  -- No member takes fewer bytes than the ABI gives it, and the tuple takes more.
  have hle₁ := length_memberParts_le (forall₂_atLeast
    (hmem before fun p hp => List.mem_append_left _ hp) hbefore)
  have hle₂ := length_memberParts_le (forall₂_atLeast
    (hmem after fun p hp => List.mem_append_right _ (List.mem_cons_of_mem _ hp)) hafter)
  have htuple : AtLeast (.parameters qs) (.tuple us) :=
    Param.atLeast _ _ ⟨us, rfl, membersHaveTy_iff.mpr hqs⟩ (hwf _ (by simp))
  have hlt := staticTuple_room_lt htuple hstatic
  have hparts : memberParts (ts₁ ++ .tuple us :: ts₂)
      ((before ++ .parameters qs :: after).map Param.toVal) =
      memberParts ts₁ (before.map Param.toVal) ++
        abiPart (.parameters qs) (.tuple us) :: memberParts ts₂ (after.map Param.toVal) := by
    rw [List.map_append, memberParts_append (by rw [List.length_map, hbefore.length_eq])]
    rfl
  -- So the bytes written are too many for the prescribed encoding.
  intro hper
  have hlen := congrArg List.length hper
  rw [encArgs, HeadTail.length_layout_eq_sum SolidityAbi.length_pointer, ParamSet.length_encode,
    hparts] at hlen
  simp only [List.map_append, List.sum_append, List.map_cons, List.sum_cons] at hlen
  rw [toVals_eq_map] at hle₁ hle₂
  omega

/-- A pair of numbers, as a tuple. -/
def pairTuple : Param :=
  .parameters [.number .uint256 (NumberType.ofUInt256 _ (uint256 1)),
    .number .uint256 (NumberType.ofUInt256 _ (uint256 2))]

theorem staticTuple_not_inPlace_pair :
    ¬ EncodesPerAbi [.byteArray [100], pairTuple] [.bytes, .tuple [.uint 256, .uint 256]] :=
  staticTuple_not_inPlace [.byteArray [100]] _ [] [.bytes] [.uint 256, .uint 256] []
    (.cons rfl .nil) (.cons rfl (.cons rfl .nil)) .nil rfl (by decide)

/-- The pair alone: the ABI has the two words, the encoder puts an offset word in front. -/
theorem encode_pairTuple :
    ParamSet.encode [pairTuple] [] =
      SolidityAbi.word 32 ++ SolidityAbi.word 1 ++ SolidityAbi.word 2 ∧
    encArgs [.tuple [.uint 256, .uint 256]] [pairTuple.toVal] =
      SolidityAbi.word 1 ++ SolidityAbi.word 2 ∧
    ParamSet.encode [pairTuple] [] ≠ encArgs [.tuple [.uint 256, .uint 256]] [pairTuple.toVal] := by
  decide

end ConfluxSdk.Abi
