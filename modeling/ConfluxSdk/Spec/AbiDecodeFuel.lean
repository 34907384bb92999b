import ConfluxSdk.Spec.AbiFactoryCorrect

/-!
# The decoder's fuel does not matter

`Param.decodeTo` stops below the nesting depth it is given. The source has no
such bound: `ParamArray::decode` calls the elements' `decode`, and the elements
it makes itself are no deeper than the first one. The depth of the object
therefore always suffices, and `Param.decode` satisfies the equations of the
source.

## Key results

- `decodeHeads_members`, `decodeTails_members`: what a pass does to the members
- `depth_decodeTo`: decoding does not make an object deeper
- `Param.decodeTo_eq_decode`: any fuel that covers the depth gives the same result
- `Param.decode_array`, `Param.decode_array_eq_ok`: the equation of the source
-/

namespace ConfluxSdk.Abi

open Except (ensures_ok ensures_ite)

theorem maxDepth_le_iff {ps : List Param} {k : Nat} :
    maxDepth ps ≤ k ↔ ∀ p ∈ ps, p.depth ≤ k := by
  induction ps with
  | nil => simp [maxDepth]
  | cons p ps ih =>
    simp only [maxDepth, List.forall_mem_cons, ← ih]
    omega

/-! ### The passes, member by member -/

section Members

variable (buf : Bytes) {dec : Param → Nat → Except StdError (Bool × Param × Nat)}
  {R : Param → Param → Prop} (hrefl : ∀ p, R p p)
include hrefl

/-- The first pass reads static members. What is not reached stays as it is. -/
theorem decodeHeads_members
    (hdec : ∀ p offset, ¬ p.isDynamic = true → (dec p offset).Ensures fun res => R p res.2.1)
    (ps : List Param) (offset : Nat) :
    (decodeHeads buf dec ps offset).Ensures fun res => List.Forall₂ R ps res.2.1 := by
  have hsame : ∀ ps, List.Forall₂ R ps ps := fun ps => List.forall₂_same.mpr fun p _ => hrefl p
  induction ps generalizing offset with
  | nil => exact ensures_ok .nil
  | cons p ps ih =>
    unfold decodeHeads
    refine ensures_ite ?_ ?_
    · -- A dynamic member is left, with its offset read but not kept.
      intro _
      cases decodeWord buf offset with
      | none => exact ensures_ok (hsame _)
      | some w =>
        refine (ih w.2).bind ?_
        intro res hps'
        obtain ⟨ok, ps', off⟩ := res
        exact ensures_ok (.cons (hrefl p) hps')
    · intro hstatic
      refine (hdec p offset hstatic).bind ?_
      intro res hp'
      obtain ⟨ok, p', offset'⟩ := res
      -- A failure leaves the members behind it.
      refine ensures_ite ?_ fun _ => ensures_ok (.cons hp' (hsame ps))
      intro _
      refine (ih offset').bind ?_
      intro res hps'
      obtain ⟨ok', ps', off⟩ := res
      exact ensures_ok (.cons hp' hps')

/-- The second pass reads dynamic members. -/
theorem decodeTails_members
    (hdec : ∀ p offset, p.isDynamic = true → (dec p offset).Ensures fun res => R p res.2.1)
    (ps : List Param) (offset : Nat) :
    (decodeTails dec ps offset).Ensures fun res => List.Forall₂ R ps res.2.1 := by
  have hsame : ∀ ps, List.Forall₂ R ps ps := fun ps => List.forall₂_same.mpr fun p _ => hrefl p
  induction ps generalizing offset with
  | nil => exact ensures_ok .nil
  | cons p ps ih =>
    unfold decodeTails
    refine ensures_ite ?_ ?_
    · -- A dynamic member is read where the one before it ended.
      intro hdynamic
      refine (hdec p offset hdynamic).bind ?_
      intro res hp'
      obtain ⟨ok, p', offset'⟩ := res
      refine ensures_ite ?_ fun _ => ensures_ok (.cons hp' (hsame ps))
      intro _
      refine (ih offset').bind ?_
      intro res hps'
      obtain ⟨ok', ps', off⟩ := res
      exact ensures_ok (.cons hp' hps')
    · intro _
      refine (ih offset).bind ?_
      intro res hps'
      obtain ⟨ok, ps', off⟩ := res
      exact ensures_ok (.cons (hrefl p) hps')

omit hrefl in
/-- What members keep holds of all of them. -/
theorem forall_mem_of_members {P : Param → Prop} {ps ps' : List Param}
    (h : List.Forall₂ (fun p p' => P p → P p') ps ps') (hps : ∀ p ∈ ps, P p) : ∀ p ∈ ps', P p := by
  induction h with
  | nil => exact hps
  | cons hp _ ih =>
    obtain ⟨hfirst, hrest⟩ := List.forall_mem_cons.mp hps
    exact List.forall_mem_cons.mpr ⟨hp hfirst, ih hrest⟩

end Members

/-! ### Depth -/

section Depth

variable (buf : Bytes) {dec : Param → Nat → Except StdError (Bool × Param × Nat)} {k : Nat}
  (hdec : ∀ p offset, p.depth ≤ k → (dec p offset).Ensures fun res => res.2.1.depth ≤ k)
include hdec

theorem depth_decodeHeads {ps : List Param} (hps : ∀ p ∈ ps, p.depth ≤ k) (offset : Nat) :
    (decodeHeads buf dec ps offset).Ensures fun res => ∀ p ∈ res.2.1, p.depth ≤ k := by
  have hmembers := decodeHeads_members (R := fun p p' => p.depth ≤ k → p'.depth ≤ k) buf
    (fun _ h => h) (fun p off _ res hres hp => hdec p off hp res hres) ps offset
  exact fun res hres => forall_mem_of_members (hmembers res hres) hps

theorem depth_decodeTails {ps : List Param} (hps : ∀ p ∈ ps, p.depth ≤ k) (offset : Nat) :
    (decodeTails dec ps offset).Ensures fun res => ∀ p ∈ res.2.1, p.depth ≤ k := by
  have hmembers := decodeTails_members (R := fun p p' => p.depth ≤ k → p'.depth ≤ k)
    (fun _ h => h) (fun p off _ res hres hp => hdec p off hp res hres) ps offset
  exact fun res hres => forall_mem_of_members (hmembers res hres) hps

theorem depth_decodeSet {ps : List Param} (hps : ∀ p ∈ ps, p.depth ≤ k) (offset : Nat) :
    (decodeSet buf dec ps offset).Ensures fun res => ∀ p ∈ res.2.1, p.depth ≤ k := by
  unfold decodeSet
  refine (depth_decodeHeads buf hdec hps offset).bind ?_
  intro res hps'
  obtain ⟨ok, ps', off⟩ := res
  dsimp only at hps' ⊢
  exact ensures_ite (fun _ => depth_decodeTails hdec hps' off) fun _ => ensures_ok hps'

theorem depth_decodeValues {ps : List Param} (hps : ∀ p ∈ ps, p.depth ≤ k)
    (origOffset offset : Nat) :
    (decodeValues buf dec ps origOffset offset).Ensures fun res => ∀ p ∈ res.2.1, p.depth ≤ k := by
  unfold decodeValues
  refine (depth_decodeSet buf hdec hps offset).bind ?_
  intro res hps'
  obtain ⟨ok, ps', off⟩ := res
  dsimp only at hps' ⊢
  refine ensures_ok ?_
  exact hps'

omit hdec in
theorem depth_growTo {ps : List Param} (hps : ∀ p ∈ ps, p.depth ≤ k) (len : Nat) :
    (growTo ps len).Ensures fun ps' => ∀ p ∈ ps', p.depth ≤ k := by
  unfold growTo
  refine ensures_ite ?_ fun _ => ensures_ok hps
  intro _
  -- An element that is made takes its type from the first one.
  have hmake : (make (getFirstType ps)).Ensures fun o => ∀ q, o = some q → q.depth ≤ k := by
    intro o ho q hq
    rw [hq] at ho
    cases ps with
    | nil => exact depth_le_of_make k (by decide : isArrayType "empty".toList = false) ho
    | cons p ps =>
      exact Nat.le_trans (depth_le_of_make_getType p ho) (hps p List.mem_cons_self)
  refine hmake.bind ?_
  intro o ho
  cases o with
  | none => exact ensures_ok hps
  | some q =>
    refine ensures_ok ?_
    intro p hp
    rcases List.mem_append.mp hp with hp | hp
    · exact hps p hp
    · rw [List.eq_of_mem_replicate hp]
      exact ho q rfl

theorem depth_decodeElems (readLength : Bool) {ps : List Param} (hps : ∀ p ∈ ps, p.depth ≤ k)
    (offset : Nat) :
    (decodeElems buf dec readLength ps offset).Ensures
      fun res => ∀ p ∈ res.2.1, p.depth ≤ k := by
  unfold decodeElems
  refine ensures_ite ?_ fun _ => depth_decodeValues buf hdec hps offset offset
  intro _
  cases decodeWord buf offset with
  | none => exact ensures_ok hps
  | some w =>
    refine ensures_ite (fun _ => ensures_ok hps) fun _ => ?_
    refine ensures_ite (fun _ => ensures_ok hps) fun _ => ?_
    exact (depth_growTo hps _).bind fun ps' hps' => depth_decodeValues buf hdec hps' _ _

end Depth

theorem depth_decodeTo_leaf (buf : Bytes) (fuel k : Nat) {p : Param} (hleaf : p.depth = 0)
    (offset : Nat) : (p.decodeTo buf fuel offset).Ensures fun res => res.2.1.depth ≤ k := by
  cases p with
  | number t val | uintN bits val | intN bits val | address val =>
    rw [Param.decodeTo]
    cases decodeWord buf offset <;> exact ensures_ok (Nat.zero_le k)
  | byteArrayFix n bytes =>
    rw [Param.decodeTo]
    exact ensures_ok (Nat.zero_le k)
  | byteArray bytes | string str =>
    rw [Param.decodeTo]
    exact Except.ensures_bind _ fun _ => ensures_ok (Nat.zero_le k)
  | array ps | arrayFix ps | parameters ps => cases hleaf

/-- Decoding does not make an object deeper. -/
theorem depth_decodeTo (buf : Bytes) (fuel k : Nat) (p : Param) (offset : Nat) (hp : p.depth ≤ k) :
    (p.decodeTo buf fuel offset).Ensures fun res => res.2.1.depth ≤ k := by
  induction fuel generalizing k p offset with
  | zero =>
    cases p with
    | array ps | arrayFix ps | parameters ps => exact ensures_ok hp
    | _ => exact depth_decodeTo_leaf buf 0 k rfl offset
  | succ fuel ih =>
    cases p with
    | array ps | arrayFix ps | parameters ps =>
      -- The elements are one level below.
      obtain ⟨k, rfl⟩ : ∃ k', k = k' + 1 := ⟨k - 1, by simp only [Param.depth] at hp; omega⟩
      have hps : ∀ p ∈ ps, p.depth ≤ k := maxDepth_le_iff.mp (Nat.le_of_succ_le_succ hp)
      rw [Param.decodeTo]
      first
        | refine (depth_decodeElems buf (ih k) _ hps offset).bind ?_
        | refine (depth_decodeSet buf (ih k) hps offset).bind ?_
      intro res hps'
      obtain ⟨ok, ps', off⟩ := res
      exact ensures_ok (Nat.succ_le_succ (maxDepth_le_iff.mpr hps'))
    | _ => exact depth_decodeTo_leaf buf (fuel + 1) k rfl offset

/-! ### Fuel -/

section Congr

variable (buf : Bytes) {dec dec' : Param → Nat → Except StdError (Bool × Param × Nat)}

theorem decodeHeads_congr {ps : List Param} (h : ∀ p ∈ ps, dec p = dec' p) (offset : Nat) :
    decodeHeads buf dec ps offset = decodeHeads buf dec' ps offset := by
  induction ps generalizing offset with
  | nil => rfl
  | cons p ps ih =>
    rw [List.forall_mem_cons] at h
    unfold decodeHeads
    simp only [h.1, ih h.2]

theorem decodeTails_congr {ps : List Param} (h : ∀ p ∈ ps, dec p = dec' p) (offset : Nat) :
    decodeTails dec ps offset = decodeTails dec' ps offset := by
  induction ps generalizing offset with
  | nil => rfl
  | cons p ps ih =>
    rw [List.forall_mem_cons] at h
    unfold decodeTails
    simp only [h.1, ih h.2]

variable {k : Nat} (hdec : ∀ p offset, p.depth ≤ k →
    (dec p offset).Ensures fun res => res.2.1.depth ≤ k)
  (h : ∀ p, p.depth ≤ k → dec p = dec' p)
include hdec h

theorem decodeSet_congr {ps : List Param} (hps : ∀ p ∈ ps, p.depth ≤ k) (offset : Nat) :
    decodeSet buf dec ps offset = decodeSet buf dec' ps offset := by
  unfold decodeSet
  rw [← decodeHeads_congr buf fun p hp => h p (hps p hp)]
  refine (depth_decodeHeads buf hdec hps offset).bind_congr ?_
  intro res hps'
  obtain ⟨ok, ps', off⟩ := res
  simp only [decodeTails_congr fun p hp => h p (hps' p hp)]

theorem decodeValues_congr {ps : List Param} (hps : ∀ p ∈ ps, p.depth ≤ k)
    (origOffset offset : Nat) :
    decodeValues buf dec ps origOffset offset = decodeValues buf dec' ps origOffset offset := by
  unfold decodeValues
  rw [decodeSet_congr buf hdec h hps]

theorem decodeElems_congr (readLength : Bool) {ps : List Param} (hps : ∀ p ∈ ps, p.depth ≤ k)
    (offset : Nat) :
    decodeElems buf dec readLength ps offset = decodeElems buf dec' readLength ps offset := by
  unfold decodeElems
  rw [decodeValues_congr buf hdec h hps]
  cases decodeWord buf offset with
  | none => rfl
  | some w =>
    have hgrow : (growTo ps (sizeT w.1.val) >>= fun ps' =>
          decodeValues buf dec ps' offset w.2) =
        growTo ps (sizeT w.1.val) >>= fun ps' => decodeValues buf dec' ps' offset w.2 :=
      (depth_growTo hps _).bind_congr fun ps' hps' => decodeValues_congr buf hdec h hps' _ _
    simp only [hgrow]

end Congr

/-- One more unit of fuel than the depth makes no difference. -/
theorem decodeTo_succ (buf : Bytes) (fuel : Nat) (p : Param) (hp : p.depth ≤ fuel) :
    p.decodeTo buf (fuel + 1) = p.decodeTo buf fuel := by
  induction fuel generalizing p with
  | zero =>
    cases p with
    | array ps | arrayFix ps | parameters ps => simp [Param.depth] at hp
    | _ => rfl
  | succ fuel ih =>
    cases p with
    | array ps | arrayFix ps | parameters ps =>
      have hps : ∀ p ∈ ps, p.depth ≤ fuel := maxDepth_le_iff.mp (Nat.le_of_succ_le_succ hp)
      have hdec := fun q offset hq => depth_decodeTo buf (fuel + 1) fuel q offset hq
      funext offset
      rw [Param.decodeTo, Param.decodeTo]
      first
        | rw [decodeElems_congr buf hdec ih _ hps]
        | rw [decodeSet_congr buf hdec ih hps]
    | _ => rfl

/-- Any fuel that covers the depth of the object gives the same result. -/
theorem Param.decodeTo_eq_decode (buf : Bytes) (p : Param) (fuel : Nat) (hp : p.depth ≤ fuel)
    (offset : Nat) : p.decodeTo buf fuel offset = p.decode buf offset := by
  obtain ⟨extra, rfl⟩ := Nat.exists_eq_add_of_le hp
  rw [Param.decode]
  induction extra with
  | zero => rfl
  | succ extra ih =>
    rw [← Nat.add_assoc, decodeTo_succ buf _ p (Nat.le_add_right _ _)]
    exact ih (Nat.le_add_right _ _)

/-- The equation of `ParamArray::decode`: the elements' own `decode` is called. -/
theorem Param.decode_array (buf : Bytes) (ps : List Param) (offset : Nat) :
    (Param.array ps).decode buf offset =
      decodeElems buf (Param.decode buf) true ps offset >>= fun (ok, ps', off) =>
        .ok (ok, .array ps', off) := by
  have hcongr := decodeElems_congr buf (fun q off hq => depth_decodeTo buf (maxDepth ps) _ q off hq)
    (fun q hq => funext (q.decodeTo_eq_decode buf (maxDepth ps) hq)) true
    (maxDepth_le_iff.mp (Nat.le_refl (maxDepth ps))) offset
  rw [← hcongr]
  rfl

/-- What `ParamArray::decode` returns is what becomes of the elements. -/
theorem Param.decode_array_eq_ok {buf : Bytes} {ps ps' : List Param} {offset off : Nat}
    {ok : Bool} :
    (Param.array ps).decode buf offset = .ok (ok, .array ps', off) ↔
      decodeElems buf (Param.decode buf) true ps offset = .ok (ok, ps', off) := by
  rw [Param.decode_array]
  cases decodeElems buf (Param.decode buf) true ps offset with
  | error e => simp [bind, Except.bind]
  | ok res => simp [bind, Except.bind, Prod.ext_iff]

end ConfluxSdk.Abi
