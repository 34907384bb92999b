import ConfluxSdk.Spec.AbiDecodeCorrect
import ConfluxSdk.Spec.AbiDecodeFuel

/-!
# Fixed arrays of dynamic elements

`ParamArrayFix::encode` writes the offsets and the elements, and no count.
`ParamArrayFix::decode` reads a count first if the elements are dynamic, and takes the
first offset for it. Whatever it makes of that count, a decoder that succeeds has read
the bytes of what it returns, and these are a word more than were written.

## Key results

- `decodeTo_span`: a decoder that succeeds stops behind the span of what it returns
- `Param.length_encode_le_span`: the encoder writes no more than the span
- `arrayFix_never_readsBack`: no fixed array of dynamic elements is read back
-/

namespace ConfluxSdk.Abi

open Except (ensures_ok ensures_error ensures_failed ensures_ite)
open SolidityAbi (Ty Val)

/-! ### What a decoder reads -/

mutual
/-- The bytes a decoder reads for an object it returns. -/
def Param.span : Param → Nat
  | .number .. | .uintN .. | .intN .. | .address _ => 32
  | .byteArray bytes => 32 + paddedTo32 bytes.length
  | .byteArrayFix n _ => paddedTo32 n
  | .string str => 32 + paddedTo32 str.length
  | .array ps => 32 + (headSpan ps + tailSpan ps)
  | .arrayFix ps => (if firstIsDynamic ps then 32 else 0) + (headSpan ps + tailSpan ps)
  | .parameters ps => headSpan ps + tailSpan ps

/-- The bytes read in the first pass over a set. -/
def headSpan : List Param → Nat
  | [] => 0
  | p :: ps => (if p.isDynamic then 32 else p.span) + headSpan ps

/-- The bytes read in the second pass. -/
def tailSpan : List Param → Nat
  | [] => 0
  | p :: ps => (if p.isDynamic then p.span else 0) + tailSpan ps
end

theorem dvd_headSpan {ps : List Param} (h : ∀ p ∈ ps, 32 ∣ p.span) : 32 ∣ headSpan ps := by
  induction ps with
  | nil => simp [headSpan]
  | cons p ps ih =>
    rw [List.forall_mem_cons] at h
    have hps := ih h.2
    have hp := h.1
    rw [headSpan]
    split <;> omega

theorem dvd_tailSpan {ps : List Param} (h : ∀ p ∈ ps, 32 ∣ p.span) : 32 ∣ tailSpan ps := by
  induction ps with
  | nil => simp [tailSpan]
  | cons p ps ih =>
    rw [List.forall_mem_cons] at h
    have hps := ih h.2
    have hp := h.1
    rw [tailSpan]
    split <;> omega

theorem Param.dvd_span (p : Param) : 32 ∣ p.span := by
  induction p using Param.inductionOn with
  | number | uintN | intN | address => simp [Param.span]
  | byteArray | byteArrayFix | string =>
    simp only [Param.span, paddedTo32]
    omega
  | array ps ih | arrayFix ps ih | parameters ps ih =>
    have hhead := dvd_headSpan ih
    have htail := dvd_tailSpan ih
    simp only [Param.span]
    first
      | omega
      | split <;> omega

/-- The encoder writes no more for a set than its members' spans. -/
theorem length_encode_set_le {ps : List Param} (hwf : ∀ p ∈ ps, p.wellFormed = true)
    (h : ∀ p ∈ ps, (p.encode []).length ≤ p.span) :
    (ParamSet.encode ps []).length ≤ headSpan ps + tailSpan ps := by
  rw [ParamSet.length_encode]
  induction ps with
  | nil => simp [headSpan, tailSpan]
  | cons p ps ih =>
    rw [List.forall_mem_cons] at h hwf
    have hps := ih hwf.2 h.2
    have hp := h.1
    rw [List.map_cons, List.sum_cons, Param.written, (p.sizeFacts hwf.1).inTail_eq, headSpan,
      tailSpan]
    split <;> omega

/-- The encoder writes no more than the span. -/
theorem Param.length_encode_le_span (p : Param) (hwf : p.wellFormed = true) :
    (p.encode []).length ≤ p.span := by
  have hle := (p.sizeFacts hwf).length_le
  induction p using Param.inductionOn with
  | number | uintN | intN | address | byteArray | string => exact hle
  | byteArrayFix n bytes =>
    simp only [Param.wellFormed, decide_eq_true_eq] at hwf
    rw [Param.span, ← hwf.2.2]
    exact hle
  -- The count is in front of the members.
  | array ps ih =>
    have hall := allWellFormed_iff.mp hwf
    have hset := length_encode_set_le hall fun p hp =>
      ih p hp (hall p hp) (p.sizeFacts (hall p hp)).length_le
    rw [Param.encode_array, List.length_append, SolidityAbi.length_word, Param.span]
    omega
  | arrayFix ps ih =>
    simp only [Param.wellFormed, Bool.and_eq_true] at hwf
    have hall := allWellFormed_iff.mp hwf.2
    have hset := length_encode_set_le hall fun p hp =>
      ih p hp (hall p hp) (p.sizeFacts (hall p hp)).length_le
    rw [Param.encode, ← ParamSet.encode, Param.span]
    omega
  | parameters ps ih =>
    have hall := allWellFormed_iff.mp hwf
    have hset := length_encode_set_le hall fun p hp =>
      ih p hp (hall p hp) (p.sizeFacts (hall p hp)).length_le
    rw [Param.encode, ← ParamSet.encode, Param.span]
    omega

/-! ### Decoding keeps what is dynamic -/

section Dynamic

variable (buf : Bytes) {dec : Param → Nat → Except StdError (Bool × Param × Nat)}
  (hdec : ∀ p offset, (dec p offset).Ensures fun res => res.2.1.isDynamic = p.isDynamic)
include hdec

/-- The first pass leaves the dynamic members. -/
theorem isDynamic_decodeHeads (ps : List Param) (offset : Nat) :
    (decodeHeads buf dec ps offset).Ensures fun res =>
      List.Forall₂ (fun p p' => p'.isDynamic = p.isDynamic ∧ (p.isDynamic = true → p' = p)) ps
        res.2.1 := by
  apply decodeHeads_members buf
  · exact fun p => ⟨rfl, fun _ => rfl⟩
  · intro p offset hstatic res hres
    exact ⟨hdec p offset res hres, fun hdynamic => absurd hdynamic hstatic⟩

/-- The second pass leaves the static members. -/
theorem isDynamic_decodeTails (ps : List Param) (offset : Nat) :
    (decodeTails dec ps offset).Ensures fun res =>
      List.Forall₂ (fun p p' => p'.isDynamic = p.isDynamic ∧ (p.isDynamic = false → p' = p)) ps
        res.2.1 := by
  apply decodeTails_members
  · exact fun p => ⟨rfl, fun _ => rfl⟩
  · intro p offset hdynamic res hres
    refine ⟨hdec p offset res hres, fun hstatic => ?_⟩
    rw [hdynamic] at hstatic
    cases hstatic

omit hdec in
theorem map_isDynamic_of_forall₂ {R : Param → Param → Prop} {ps ps' : List Param}
    (h : List.Forall₂ (fun p p' => p'.isDynamic = p.isDynamic ∧ R p p') ps ps') :
    ps'.map Param.isDynamic = ps.map Param.isDynamic := by
  induction h with
  | nil => rfl
  | cons hp _ ih => rw [List.map_cons, List.map_cons, hp.1, ih]

theorem isDynamic_decodeSet (ps : List Param) (offset : Nat) :
    (decodeSet buf dec ps offset).Ensures fun res =>
      res.2.1.map Param.isDynamic = ps.map Param.isDynamic := by
  unfold decodeSet
  refine (isDynamic_decodeHeads buf hdec ps offset).bind ?_
  intro res hps'
  obtain ⟨ok, ps', off⟩ := res
  have hheads := map_isDynamic_of_forall₂ hps'
  refine ensures_ite ?_ fun _ => ensures_ok hheads
  intro _ res hres
  have htails := map_isDynamic_of_forall₂ (isDynamic_decodeTails hdec ps' off res hres)
  exact htails.trans hheads

theorem firstIsDynamic_decodeValues (ps : List Param) (origOffset offset : Nat) :
    (decodeValues buf dec ps origOffset offset).Ensures fun res =>
      res.2.1.length = ps.length ∧ firstIsDynamic res.2.1 = firstIsDynamic ps := by
  unfold decodeValues
  refine (isDynamic_decodeSet buf hdec ps offset).bind ?_
  intro res hps'
  obtain ⟨ok, ps', off⟩ := res
  refine ensures_ok ⟨by simpa using congrArg List.length hps', ?_⟩
  cases ps with
  | nil => rw [List.map_eq_nil_iff.mp hps']
  | cons p ps =>
    obtain ⟨p', ps'', rfl, hp', _⟩ := List.map_eq_cons_iff.mp hps'
    exact hp'

theorem firstIsDynamic_decodeElems (readLength : Bool) (ps : List Param) (offset : Nat) :
    (decodeElems buf dec readLength ps offset).Ensures fun res =>
      firstIsDynamic res.2.1 = firstIsDynamic ps := by
  have hvalues : ∀ ps origOffset offset, (decodeValues buf dec ps origOffset offset).Ensures
      fun res => firstIsDynamic res.2.1 = firstIsDynamic ps :=
    fun ps origOffset offset res hres =>
      (firstIsDynamic_decodeValues buf hdec ps origOffset offset res hres).2
  unfold decodeElems
  refine ensures_ite ?_ fun _ => hvalues ps offset offset
  intro _
  cases decodeWord buf offset with
  | none => exact ensures_ok rfl
  | some w =>
    refine ensures_ite (fun _ => ensures_ok rfl) fun _ => ?_
    refine ensures_ite (fun _ => ensures_ok rfl) fun hcount => ?_
    have hgrow : (growTo ps (sizeT w.1.val)).Ensures fun ps' =>
        firstIsDynamic ps' = firstIsDynamic ps := by
      -- What is made goes behind the first element.
      obtain ⟨p, ps, rfl⟩ : ∃ p ps', ps = p :: ps' :=
        List.exists_cons_of_ne_nil fun hnil => hcount (.inl (by rw [hnil]; rfl))
      unfold growTo
      refine ensures_ite ?_ fun _ => ensures_ok rfl
      intro _
      refine Except.ensures_bind _ fun made => ?_
      cases made <;> exact ensures_ok rfl
    refine hgrow.bind ?_
    intro ps' hps' res hres
    rw [← hps']
    exact hvalues ps' _ _ res hres

end Dynamic

theorem isDynamic_decodeTo_leaf (buf : Bytes) (fuel : Nat) {p : Param} (hleaf : p.depth = 0)
    (offset : Nat) :
    (p.decodeTo buf fuel offset).Ensures fun res => res.2.1.isDynamic = p.isDynamic := by
  cases p with
  | number t val | uintN bits val | intN bits val | address val =>
    rw [Param.decodeTo]
    cases decodeWord buf offset <;> exact ensures_ok rfl
  | byteArrayFix n bytes =>
    rw [Param.decodeTo]
    exact ensures_ok rfl
  | byteArray bytes | string str =>
    rw [Param.decodeTo]
    exact Except.ensures_bind _ fun _ => ensures_ok rfl
  | array ps | arrayFix ps | parameters ps => cases hleaf

theorem isDynamic_decodeTo (buf : Bytes) (fuel : Nat) (p : Param) (offset : Nat) :
    (p.decodeTo buf fuel offset).Ensures fun res => res.2.1.isDynamic = p.isDynamic := by
  induction fuel generalizing p offset with
  | zero =>
    cases p with
    | array ps | arrayFix ps | parameters ps => exact ensures_ok rfl
    | _ => exact isDynamic_decodeTo_leaf buf 0 rfl offset
  | succ fuel ih =>
    cases p with
    | array ps | parameters ps =>
      rw [Param.decodeTo]
      exact Except.ensures_bind _ fun _ => ensures_ok rfl
    | arrayFix ps =>
      -- A fixed array is as its first element, which stays what it is.
      rw [Param.decodeTo]
      refine (firstIsDynamic_decodeElems buf ih _ ps offset).bind ?_
      intro res hps'
      obtain ⟨ok, ps', off⟩ := res
      exact ensures_ok hps'
    | _ => exact isDynamic_decodeTo_leaf buf (fuel + 1) rfl offset

/-! ### A decoder stops behind what it returns -/

theorem alignFrom_dvd {offset n : Nat} (hdvd : 32 ∣ n) (hlt : offset + n < 2 ^ 64 - 32) :
    alignFrom offset (offset + n) = offset + n := by
  have hround : (n + 31) / 32 * 32 = n := by omega
  have hsize : sizeT (n + 31) = n + 31 := sizeT_of_lt (by omega)
  have hsum : sizeT (offset + n) = offset + n := sizeT_of_lt (by omega)
  rw [alignFrom, sizeSub_of_le (by omega) (by omega), Nat.add_sub_cancel_left, sizePaddedTo32,
    hsize, hround, hsum]

section Span

variable {buf : Bytes}

theorem decodeWord_stops {offset offset' : Nat} {w : UInt256}
    (h : decodeWord buf offset = some (w, offset')) (hlt : offset < buf.size + 32) :
    offset' = offset + 32 ∧ offset' < buf.size + 32 := by
  have hsize := buf.size_lt
  simp only [Bytes.size] at hlt ⊢
  unfold Abi.decodeWord at h
  rw [encodedIntSize, sizeT_of_lt (by omega), sizeT_of_lt (by omega)] at h
  split at h
  · cases h
  · rename_i hroom
    simp only [Bytes.size, not_or] at hroom
    obtain ⟨-, rfl⟩ := Prod.mk.inj (Option.some.inj h)
    omega

theorem decodeBytes_span (decoded : Data) {offset : Nat} (hlt : offset < buf.size + 32) :
    (decodeBytes buf decoded offset).Ensures fun res => res.1 = true →
      res.2.2 = offset + (32 + paddedTo32 res.2.1.length) ∧ res.2.2 < buf.size + 32 := by
  have hsize : buf.size < 2 ^ 63 := buf.size_lt
  unfold Abi.decodeBytes
  cases hword : decodeWord buf offset with
  | none => exact ensures_failed _
  | some w =>
    obtain ⟨w, offset₁⟩ := w
    obtain ⟨rfl, hlt₁⟩ := decodeWord_stops hword hlt
    dsimp only
    refine ensures_ite (fun _ => ensures_failed _) fun _ => ?_
    refine ensures_ite (fun _ => ensures_failed _) fun hroom => ?_
    refine ensures_ite (fun _ => ensures_error _) fun hforward => ?_
    generalize hlen : sizeT w.val = len at hroom hforward
    have hlen64 : len < 2 ^ 64 := by
      rw [← hlen]
      exact Nat.mod_lt _ (by decide)
    -- The sum did not wrap, so all the bytes are there.
    have hsum : sizeT (offset + 32 + len) = offset + 32 + len := by
      rw [sizeT] at hforward ⊢
      omega
    rw [hsum] at hroom
    refine ensures_ok fun _ => ?_
    have htake : ((buf.toList.drop (offset + 32)).take len).length = len := by
      rw [List.length_take, List.length_drop]
      simp only [Bytes.size] at hroom
      omega
    have hround : paddedTo32 (32 + len) = 32 + paddedTo32 len := by
      simp only [paddedTo32]
      omega
    dsimp only
    rw [hsum, htake, Nat.add_assoc, alignFrom_add (by omega), hround]
    refine ⟨rfl, ?_⟩
    simp only [paddedTo32]
    omega

theorem decodeBytesFix_span {n : Nat} (hn : n ≤ 32) (decoded : Data) {offset : Nat}
    (hlt : offset < buf.size + 32) (hok : (decodeBytesFix buf n decoded offset).1 = true) :
    (decodeBytesFix buf n decoded offset).2.2 = offset + paddedTo32 n ∧
      (decodeBytesFix buf n decoded offset).2.2 < buf.size + 32 := by
  have hsize : buf.size < 2 ^ 63 := buf.size_lt
  have hsum : sizeT (offset + n) = offset + n := sizeT_of_lt (by omega)
  unfold Abi.decodeBytesFix at hok ⊢
  rw [hsum] at hok ⊢
  by_cases hroom : buf.size < offset + n
  · rw [if_pos hroom] at hok
    cases hok
  · rw [if_neg hroom]
    dsimp only
    rw [alignFrom_add (by omega)]
    refine ⟨rfl, ?_⟩
    simp only [paddedTo32]
    omega

section Passes

variable {dec : Param → Nat → Except StdError (Bool × Param × Nat)}
  (hdec : ∀ p offset, (dec p offset).Ensures fun res => res.2.1.isDynamic = p.isDynamic)
  (hspan : ∀ p offset, offset < buf.size + 32 → (dec p offset).Ensures fun res =>
    res.1 = true → res.2.1.wellFormed = true →
      res.2.2 = offset + res.2.1.span ∧ res.2.2 < buf.size + 32)
include hdec hspan

/-- The first pass, if the static members that are read are well formed. -/
theorem decodeHeads_span (ps : List Param) {offset : Nat} (hlt : offset < buf.size + 32) :
    (decodeHeads buf dec ps offset).Ensures fun res => res.1 = true →
      (∀ p ∈ res.2.1, p.isDynamic = false → p.wellFormed = true) →
      res.2.2 = offset + headSpan res.2.1 ∧ res.2.2 < buf.size + 32 := by
  induction ps generalizing offset with
  | nil => exact ensures_ok fun _ _ => ⟨rfl, hlt⟩
  | cons p ps ih =>
    unfold decodeHeads
    refine ensures_ite ?_ ?_
    · intro hdynamic
      cases hword : decodeWord buf offset with
      | none => exact ensures_failed _
      | some w =>
        obtain ⟨w, offset'⟩ := w
        obtain ⟨rfl, hlt'⟩ := decodeWord_stops hword hlt
        refine (ih hlt').bind ?_
        intro res hps'
        obtain ⟨ok, ps', off⟩ := res
        refine ensures_ok fun hok hwf => ?_
        obtain ⟨heq, hoff⟩ := hps' hok (List.forall_mem_cons.mp hwf).2
        dsimp only at heq hoff ⊢
        rw [headSpan, if_pos hdynamic]
        omega
    · intro hstatic
      refine ((hdec p offset).and (hspan p offset hlt)).bind ?_
      intro res hres
      obtain ⟨ok, p', offset'⟩ := res
      obtain ⟨hp', hread⟩ := hres
      dsimp only at hp' hread ⊢
      rw [Bool.not_eq_true] at hstatic
      have hstatic' := hp'.trans hstatic
      refine ensures_ite ?_ fun _ => ensures_failed _
      intro hok
      by_cases hwf' : p'.wellFormed = true
      · obtain ⟨heq, hlt'⟩ := hread hok hwf'
        refine (ih hlt').bind ?_
        intro res hps'
        obtain ⟨ok', ps', off⟩ := res
        refine ensures_ok fun hok' hwf => ?_
        obtain ⟨heq', hoff⟩ := hps' hok' (List.forall_mem_cons.mp hwf).2
        dsimp only at heq' hoff ⊢
        rw [headSpan, hstatic', if_neg Bool.false_ne_true]
        omega
      · -- The member stays in the result, so that is not well formed.
        refine Except.ensures_bind _ fun res => ensures_ok fun _ hwf => ?_
        exact absurd ((List.forall_mem_cons.mp hwf).1 hstatic') hwf'

theorem decodeTails_span (ps : List Param) {offset : Nat} (hlt : offset < buf.size + 32) :
    (decodeTails dec ps offset).Ensures fun res => res.1 = true →
      (∀ p ∈ res.2.1, p.wellFormed = true) →
      res.2.2 = offset + tailSpan res.2.1 ∧ res.2.2 < buf.size + 32 := by
  -- The induction carries the offset, which each dynamic member moves by its span.
  induction ps generalizing offset with
  | nil => exact ensures_ok fun _ _ => ⟨rfl, hlt⟩
  | cons p ps ih =>
    unfold decodeTails
    refine ensures_ite ?_ ?_
    · intro hdynamic
      refine ((hdec p offset).and (hspan p offset hlt)).bind ?_
      intro res hres
      obtain ⟨ok, p', offset'⟩ := res
      obtain ⟨hp', hread⟩ := hres
      dsimp only at hp' hread ⊢
      have hdynamic' := hp'.trans hdynamic
      refine ensures_ite ?_ fun _ => ensures_failed _
      intro hok
      by_cases hwf' : p'.wellFormed = true
      · obtain ⟨heq, hlt'⟩ := hread hok hwf'
        refine (ih hlt').bind ?_
        intro res hps'
        obtain ⟨ok', ps', off⟩ := res
        refine ensures_ok fun hok' hwf => ?_
        obtain ⟨heq', hoff⟩ := hps' hok' (List.forall_mem_cons.mp hwf).2
        dsimp only at heq' hoff ⊢
        rw [tailSpan, if_pos hdynamic']
        omega
      · -- The member stays in the result, so that is not well formed.
        refine Except.ensures_bind _ fun res => ensures_ok fun _ hwf => ?_
        exact absurd (List.forall_mem_cons.mp hwf).1 hwf'
    · -- Static members were read in the first pass.
      intro hstatic
      refine (ih hlt).bind ?_
      intro res hps'
      obtain ⟨ok, ps', off⟩ := res
      refine ensures_ok fun hok hwf => ?_
      obtain ⟨heq, hoff⟩ := hps' hok (List.forall_mem_cons.mp hwf).2
      dsimp only at heq hoff ⊢
      rw [tailSpan, if_neg hstatic]
      omega

/-- Both passes. The second one leaves the static members, whose heads were read in the
    first. -/
theorem decodeSet_span (ps : List Param) {offset : Nat} (hlt : offset < buf.size + 32) :
    (decodeSet buf dec ps offset).Ensures fun res => res.1 = true →
      (∀ p ∈ res.2.1, p.wellFormed = true) →
      res.2.2 = offset + (headSpan res.2.1 + tailSpan res.2.1) ∧ res.2.2 < buf.size + 32 := by
  unfold decodeSet
  refine (decodeHeads_span hdec hspan ps hlt).bind ?_
  intro res hheads
  obtain ⟨ok, ps', off⟩ := res
  refine ensures_ite ?_ fun _ => ensures_failed _
  intro hok res hres hok' hwf
  obtain ⟨ok', ps'', off'⟩ := res
  have hkept := isDynamic_decodeTails hdec ps' off _ hres
  dsimp only at hheads hkept hwf hok'
  -- The second pass keeps the static members, so the heads have the span of the first pass.
  have hsame : headSpan ps'' = headSpan ps' ∧
      ∀ p ∈ ps', p.isDynamic = false → p.wellFormed = true := by
    clear hres hheads
    induction hkept with
    | nil => exact ⟨rfl, fun p hp => absurd hp List.not_mem_nil⟩
    | @cons p p' ps ps' hp _ ih =>
      rw [List.forall_mem_cons] at hwf
      obtain ⟨hspans, hstatics⟩ := ih hwf.2
      refine ⟨?_, List.forall_mem_cons.mpr ⟨fun hstatic => ?_, hstatics⟩⟩
      · rw [headSpan, headSpan, hspans, hp.1]
        cases hdynamic : p.isDynamic with
        | true => rfl
        | false => rw [hp.2 hdynamic]
      · rw [← hp.2 hstatic]
        exact hwf.1
  obtain ⟨heq, hlt'⟩ := hheads hok hsame.2
  obtain ⟨heq', hoff⟩ := decodeTails_span hdec hspan ps' hlt' _ hres hok' hwf
  dsimp only at heq' hoff ⊢
  rw [hsame.1]
  omega

/-- The values of an array, `skip` bytes behind its start. -/
theorem decodeValues_span (ps : List Param) {origOffset skip : Nat} (hskip : 32 ∣ skip)
    (hlt : origOffset + skip < buf.size + 32) :
    (decodeValues buf dec ps origOffset (origOffset + skip)).Ensures fun res => res.1 = true →
      (∀ p ∈ res.2.1, p.wellFormed = true) →
      res.2.2 = origOffset + (skip + (headSpan res.2.1 + tailSpan res.2.1)) ∧
        res.2.2 < buf.size + 32 := by
  have hbuf : buf.size < 2 ^ 63 := buf.size_lt
  unfold decodeValues
  refine (decodeSet_span hdec hspan ps hlt).bind ?_
  intro res hset
  obtain ⟨ok, ps', off⟩ := res
  refine ensures_ok fun hok hwf => ?_
  obtain ⟨heq, hoff⟩ := hset hok hwf
  have hhead := dvd_headSpan fun p (_ : p ∈ ps') => p.dvd_span
  have htail := dvd_tailSpan fun p (_ : p ∈ ps') => p.dvd_span
  dsimp only at heq hoff ⊢
  rw [Nat.add_assoc] at heq
  rw [heq] at hoff ⊢
  rw [alignFrom_dvd (by omega) (by omega)]
  exact ⟨rfl, hoff⟩

/-- The elements of an array, behind the count if there is one. -/
theorem decodeElems_span (readLength : Bool) (ps : List Param) {offset : Nat}
    (hlt : offset < buf.size + 32) :
    (decodeElems buf dec readLength ps offset).Ensures fun res => res.1 = true →
      (∀ p ∈ res.2.1, p.wellFormed = true) →
      res.2.2 = offset + ((if readLength then 32 else 0) + (headSpan res.2.1 + tailSpan res.2.1)) ∧
        res.2.2 < buf.size + 32 := by
  unfold decodeElems
  refine ensures_ite ?_ ?_
  · intro hread
    rw [if_pos hread]
    cases hword : decodeWord buf offset with
    | none => exact ensures_failed _
    | some w =>
      obtain ⟨w, offset'⟩ := w
      obtain ⟨rfl, hlt'⟩ := decodeWord_stops hword hlt
      refine ensures_ite (fun _ => ensures_failed _) fun _ => ?_
      refine ensures_ite (fun _ => ensures_failed _) fun _ => ?_
      refine Except.ensures_bind _ fun ps' => ?_
      exact decodeValues_span hdec hspan ps' (by decide) hlt'
  · intro hread
    rw [if_neg hread]
    exact decodeValues_span hdec hspan ps (Nat.dvd_zero 32) hlt

end Passes

theorem decodeTo_span_leaf (fuel : Nat) {p : Param} (hleaf : p.depth = 0) {offset : Nat}
    (hlt : offset < buf.size + 32) :
    (p.decodeTo buf fuel offset).Ensures fun res => res.1 = true → res.2.1.wellFormed = true →
      res.2.2 = offset + res.2.1.span ∧ res.2.2 < buf.size + 32 := by
  cases p with
  | number t val | uintN bits val | intN bits val | address val =>
    rw [Param.decodeTo]
    cases hword : decodeWord buf offset with
    | none => exact ensures_failed _
    | some w => exact ensures_ok fun _ _ => decodeWord_stops hword hlt
  | byteArray bytes | string bytes =>
    rw [Param.decodeTo]
    refine (decodeBytes_span bytes hlt).bind ?_
    intro res hread
    obtain ⟨ok, bytes', off⟩ := res
    exact ensures_ok fun hok _ => hread hok
  | byteArrayFix n bytes =>
    rw [Param.decodeTo]
    refine ensures_ok fun hok hwf => ?_
    simp only [Param.wellFormed, decide_eq_true_eq] at hwf
    exact decodeBytesFix_span hwf.2.1 bytes hlt hok
  | array ps | arrayFix ps | parameters ps => cases hleaf

/-- A decoder that returns a well formed object stops behind its span. -/
theorem decodeTo_span (fuel : Nat) (p : Param) {offset : Nat} (hlt : offset < buf.size + 32) :
    (p.decodeTo buf fuel offset).Ensures fun res => res.1 = true → res.2.1.wellFormed = true →
      res.2.2 = offset + res.2.1.span ∧ res.2.2 < buf.size + 32 := by
  by_cases hleaf : p.depth = 0
  · exact decodeTo_span_leaf fuel hleaf hlt
  induction fuel generalizing p offset with
  | zero =>
    cases p with
    | array ps | arrayFix ps | parameters ps =>
      exact ensures_failed _
    | _ => exact absurd rfl hleaf
  | succ fuel ih =>
    have hdec := isDynamic_decodeTo buf fuel
    -- The induction hypothesis is for collections, the leaves need no fuel.
    have hspan : ∀ (p : Param) (offset : Nat), offset < buf.size + 32 →
        (p.decodeTo buf fuel offset).Ensures fun res => res.1 = true → res.2.1.wellFormed = true →
          res.2.2 = offset + res.2.1.span ∧ res.2.2 < buf.size + 32 := by
      intro p offset hlt
      by_cases hleaf : p.depth = 0
      · exact decodeTo_span_leaf fuel hleaf hlt
      · exact ih p hlt hleaf
    cases p with
    | array ps =>
      rw [Param.decodeTo]
      refine (decodeElems_span hdec hspan true ps hlt).bind ?_
      intro res helems
      obtain ⟨ok, ps', off⟩ := res
      exact ensures_ok fun hok hwf => helems hok (allWellFormed_iff.mp hwf)
    | arrayFix ps =>
      rw [Param.decodeTo]
      have helems := (firstIsDynamic_decodeElems buf hdec (firstIsDynamic ps) ps offset).and
        (decodeElems_span hdec hspan (firstIsDynamic ps) ps hlt)
      refine helems.bind ?_
      intro res hres
      obtain ⟨ok, ps', off⟩ := res
      obtain ⟨hfirst, hread⟩ := hres
      refine ensures_ok fun hok hwf => ?_
      simp only [Param.wellFormed, Bool.and_eq_true] at hwf
      dsimp only at hfirst hread hok ⊢
      rw [Param.span, hfirst]
      exact hread hok (allWellFormed_iff.mp hwf.2)
    | parameters ps =>
      rw [Param.decodeTo]
      refine (decodeSet_span hdec hspan ps hlt).bind ?_
      intro res hset
      obtain ⟨ok, ps', off⟩ := res
      exact ensures_ok fun hok hwf => hset hok (allWellFormed_iff.mp hwf)
    | _ => exact absurd rfl hleaf

end Span

/-! ### Objects of one type -/

/-- Two objects of a type whose fixed arrays are not empty are both dynamic or both static. -/
theorem isDynamic_of_hasTy (p : Param) (hwf : p.wellFormed = true) {r : Param} {t : Ty}
    (hp : p.HasTy t) (hr : r.HasTy t) : r.isDynamic = p.isDynamic := by
  induction p using Param.inductionOn generalizing r t with
  | number nt val =>
    obtain rfl : t = nt.solType := hp
    obtain ⟨nt', val', rfl, _⟩ := number_of_hasTy hr
    rfl
  | uintN bits val =>
    obtain rfl : t = .uint bits.val := hp
    obtain ⟨val', rfl⟩ := uintN_of_hasTy hr
    rfl
  | intN bits val =>
    obtain rfl : t = .int bits.val := hp
    obtain ⟨val', rfl⟩ := intN_of_hasTy hr
    rfl
  | address val =>
    obtain rfl : t = .address := hp
    obtain ⟨val', rfl⟩ := address_of_hasTy hr
    rfl
  | byteArray bytes =>
    obtain rfl : t = .bytes := hp
    obtain ⟨bytes', rfl⟩ := byteArray_of_hasTy hr
    rfl
  | byteArrayFix n bytes =>
    obtain rfl : t = .bytesN n := hp
    obtain ⟨bytes', rfl⟩ := byteArrayFix_of_hasTy hr
    rfl
  | string str =>
    obtain rfl : t = .string := hp
    obtain ⟨str', rfl⟩ := string_of_hasTy hr
    rfl
  | array ps =>
    obtain ⟨e, rfl, _⟩ := hp
    obtain ⟨rs, rfl, _⟩ := array_of_hasTy hr
    rfl
  | arrayFix ps ih =>
    obtain ⟨e, rfl, hps⟩ := hp
    obtain ⟨rs, rfl, hlen, hrs⟩ := arrayFix_of_hasTy hr
    simp only [Param.wellFormed, Bool.and_eq_true] at hwf
    -- The first elements decide, and both arrays have one.
    cases ps with
    | nil => exact absurd hwf.1 (by decide)
    | cons p ps =>
      obtain ⟨r, rs, rfl⟩ : ∃ r rs', rs = r :: rs' :=
        List.exists_cons_of_length_pos (by rw [hlen]; simp)
      have hfirst : r.isDynamic = p.isDynamic := ih p List.mem_cons_self
        (allWellFormed_iff.mp hwf.2 p List.mem_cons_self) hps.1 (hrs r List.mem_cons_self)
      exact hfirst
  | parameters ps =>
    obtain ⟨ts, rfl, _⟩ := hp
    obtain ⟨rs, rfl, _⟩ := parameters_of_hasTy hr
    rfl

/-- Two objects of one type with one value. -/
def Alike (p r : Param) : Prop := ∃ t, p.HasTy t ∧ r.HasTy t ∧ r.toVal = p.toVal

theorem forall₂_alike_elems {ps rs : List Param} {e : Ty} (hps : ∀ p ∈ ps, p.HasTy e)
    (hrs : ∀ r ∈ rs, r.HasTy e) (hvals : toVals rs = toVals ps) : List.Forall₂ Alike ps rs := by
  induction ps generalizing rs with
  | nil =>
    cases rs with
    | nil => exact .nil
    | cons r rs => cases hvals
  | cons p ps ih =>
    cases rs with
    | nil => cases hvals
    | cons r rs =>
      obtain ⟨hval, hvals⟩ := List.cons.inj hvals
      rw [List.forall_mem_cons] at hps hrs
      exact .cons ⟨e, hps.1, hrs.1, hval⟩ (ih hps.2 hrs.2 hvals)

theorem forall₂_alike_members {ps rs : List Param} {ts : List Ty}
    (hps : List.Forall₂ Param.HasTy ps ts) (hrs : List.Forall₂ Param.HasTy rs ts)
    (hvals : toVals rs = toVals ps) : List.Forall₂ Alike ps rs := by
  induction hps generalizing rs with
  | nil =>
    cases hrs
    exact .nil
  | cons hp _ ih =>
    cases hrs with
    | cons hr hrs =>
      obtain ⟨hval, hvals⟩ := List.cons.inj hvals
      exact .cons ⟨_, hp, hr, hval⟩ (ih hrs hvals)

/-- What two such objects share. -/
structure SameSpan (p r : Param) : Prop where
  wellFormed : r.wellFormed = true
  isDynamic_eq : r.isDynamic = p.isDynamic
  span_eq : r.span = p.span

theorem sameSpan_set {ps rs : List Param} (h : List.Forall₂ SameSpan ps rs) :
    allWellFormed rs = true ∧ headSpan rs = headSpan ps ∧ tailSpan rs = tailSpan ps := by
  induction h with
  | nil => exact ⟨rfl, rfl, rfl⟩
  | cons hp _ ih =>
    obtain ⟨hwf, hheads, htails⟩ := ih
    refine ⟨?_, ?_, ?_⟩
    · rw [allWellFormed, hp.wellFormed, hwf, Bool.and_true]
    · rw [headSpan, headSpan, hp.isDynamic_eq, hp.span_eq, hheads]
    · rw [tailSpan, tailSpan, hp.isDynamic_eq, hp.span_eq, htails]

/-- What `Alike` says of the elements gives the same span, if it does for each of them. -/
theorem sameSpan_elems {ps rs : List Param} (halike : List.Forall₂ Alike ps rs)
    (h : ∀ p ∈ ps, ∀ r, Alike p r → SameSpan p r) : List.Forall₂ SameSpan ps rs := by
  induction halike with
  | nil => exact .nil
  | cons hp _ ih =>
    rw [List.forall_mem_cons] at h
    exact .cons (h.1 _ hp) (ih h.2)

theorem Alike.sameSpan (p : Param) (hwf : p.wellFormed = true) {r : Param} (h : Alike p r) :
    SameSpan p r := by
  induction p using Param.inductionOn generalizing r with
  -- The value of a number is not part of its span, that of bytes is.
  | number nt val =>
    obtain ⟨t, rfl, hr, _⟩ := h
    obtain ⟨nt', val', rfl, _⟩ := number_of_hasTy hr
    exact ⟨rfl, rfl, rfl⟩
  | uintN bits val =>
    obtain ⟨t, rfl, hr, _⟩ := h
    obtain ⟨val', rfl⟩ := uintN_of_hasTy hr
    exact ⟨rfl, rfl, rfl⟩
  | intN bits val =>
    obtain ⟨t, rfl, hr, _⟩ := h
    obtain ⟨val', rfl⟩ := intN_of_hasTy hr
    exact ⟨rfl, rfl, rfl⟩
  | address val =>
    obtain ⟨t, rfl, hr, _⟩ := h
    obtain ⟨val', rfl⟩ := address_of_hasTy hr
    exact ⟨rfl, rfl, rfl⟩
  | byteArray bytes =>
    obtain ⟨t, rfl, hr, hval⟩ := h
    obtain ⟨bytes', rfl⟩ := byteArray_of_hasTy hr
    obtain rfl : bytes' = bytes := Val.bytes.inj hval
    exact ⟨rfl, rfl, rfl⟩
  | byteArrayFix n bytes =>
    obtain ⟨t, rfl, hr, hval⟩ := h
    obtain ⟨bytes', rfl⟩ := byteArrayFix_of_hasTy hr
    obtain rfl : bytes' = bytes := Val.bytes.inj hval
    exact ⟨hwf, rfl, rfl⟩
  | string str =>
    obtain ⟨t, rfl, hr, hval⟩ := h
    obtain ⟨str', rfl⟩ := string_of_hasTy hr
    obtain rfl : str' = str := Val.bytes.inj hval
    exact ⟨rfl, rfl, rfl⟩
  | array ps ih =>
    have hall := allWellFormed_iff.mp hwf
    obtain ⟨t, ⟨e, rfl, hps⟩, hr, hval⟩ := h
    obtain ⟨rs, rfl, hrs⟩ := array_of_hasTy hr
    have halike := forall₂_alike_elems (elemsHaveTy_iff.mp hps) hrs (Val.seq.inj hval)
    obtain ⟨hwf', hheads, htails⟩ :=
      sameSpan_set (sameSpan_elems halike fun p hp r => ih p hp (hall p hp))
    exact ⟨hwf', rfl, by rw [Param.span, Param.span, hheads, htails]⟩
  | arrayFix ps ih =>
    obtain ⟨t, hp, hr, hval⟩ := h
    -- The heads of a fixed array are in place or offsets, as its first element says.
    have hsame := isDynamic_of_hasTy (.arrayFix ps) hwf hp hr
    simp only [Param.wellFormed, Bool.and_eq_true] at hwf
    have hall := allWellFormed_iff.mp hwf.2
    obtain ⟨e, rfl, hps⟩ := hp
    obtain ⟨rs, rfl, hlen, hrs⟩ := arrayFix_of_hasTy hr
    have halike := forall₂_alike_elems (elemsHaveTy_iff.mp hps) hrs (Val.seq.inj hval)
    obtain ⟨hwf', hheads, htails⟩ :=
      sameSpan_set (sameSpan_elems halike fun p hp r => ih p hp (hall p hp))
    have hfirst : firstIsDynamic rs = firstIsDynamic ps := hsame
    have hempty : rs.isEmpty = ps.isEmpty := by
      rw [Bool.eq_iff_iff, List.isEmpty_iff_length_eq_zero, List.isEmpty_iff_length_eq_zero, hlen]
    refine ⟨?_, hsame, ?_⟩
    · rw [Param.wellFormed, hempty, hwf', hwf.1, Bool.and_true]
    · rw [Param.span, Param.span, hfirst, hheads, htails]
  | parameters ps ih =>
    have hall := allWellFormed_iff.mp hwf
    obtain ⟨t, ⟨ts, rfl, hps⟩, hr, hval⟩ := h
    obtain ⟨rs, rfl, hrs⟩ := parameters_of_hasTy hr
    have halike := forall₂_alike_members (membersHaveTy_iff.mp hps) hrs (Val.seq.inj hval)
    obtain ⟨hwf', hheads, htails⟩ :=
      sameSpan_set (sameSpan_elems halike fun p hp r => ih p hp (hall p hp))
    exact ⟨hwf', rfl, by rw [Param.span, Param.span, hheads, htails]⟩

/-! ### Reading a fixed array back -/

/-- Decoding at a position of a buffer reads the elements of `ps` into the array of `rs`,
    and stops behind their encoding. -/
def ReadsFixArray (buf : Bytes) (offset : Nat) (ps rs : List Param) : Prop :=
  ∃ rs', (Param.arrayFix rs).decode buf offset =
      .ok (true, .arrayFix rs', offset + ((Param.arrayFix ps).encode []).length) ∧
    List.Forall₂ Holds ps rs'

/-- The decoder reads a word more than the encoder writes. -/
theorem length_encode_arrayFix_lt {ps : List Param} (hne : ps ≠ [])
    (hdynamic : ∀ p ∈ ps, p.isDynamic = true) (hwf : ∀ p ∈ ps, p.wellFormed = true) :
    ((Param.arrayFix ps).encode []).length + 32 ≤ (Param.arrayFix ps).span := by
  have hset := length_encode_set_le hwf fun p hp => p.length_encode_le_span (hwf p hp)
  have hfirst : firstIsDynamic ps = true := by
    obtain ⟨p, ps, rfl⟩ := List.exists_cons_of_ne_nil hne
    exact hdynamic p List.mem_cons_self
  rw [Param.encode, ← ParamSet.encode, Param.span, hfirst, if_pos rfl]
  omega

/-- No fixed array of dynamic elements is read back into any array, wherever its encoding
    stands. -/
theorem arrayFix_never_readsBack (ps rs : List Param) (e : Ty) (hne : ps ≠ [])
    (hps : ∀ p ∈ ps, p.HasTy e ∧ p.isDynamic = true ∧ p.wellFormed = true)
    (buf : Bytes) (pre post : Data)
    (hbuf : buf.toList = pre ++ (Param.arrayFix ps).encode [] ++ post) :
    ¬ ReadsFixArray buf pre.length ps rs := by
  intro hreads
  obtain ⟨rs', hdecode, hholds⟩ := hreads
  have hlt : pre.length < buf.size + 32 := by
    rw [Bytes.size, hbuf, List.length_append, List.length_append]
    omega
  have hwf : (Param.arrayFix ps).wellFormed = true := by
    rw [Param.wellFormed, allWellFormed_iff.mpr fun p hp => (hps p hp).2.2]
    simpa using hne
  -- What was read is like what was written, so the decoder read the same bytes for it.
  obtain ⟨hvals, htys, hlen⟩ := holds_of_forall₂ hholds
  have helems : ElemsHaveTy ps e := elemsHaveTy_iff.mpr fun p hp => (hps p hp).1
  have halike : Alike (.arrayFix ps) (.arrayFix rs') :=
    ⟨.fixArray e ps.length, ⟨e, rfl, helems⟩, ⟨e, by rw [hlen], htys e helems⟩,
      congrArg Val.seq hvals⟩
  have hsame := halike.sameSpan (.arrayFix ps) hwf
  obtain ⟨hstop, -⟩ := decodeTo_span _ _ hlt _ hdecode rfl hsame.wellFormed
  have hless := length_encode_arrayFix_lt hne (fun p hp => (hps p hp).2.1)
    fun p hp => (hps p hp).2.2
  dsimp only at hstop
  rw [hsame.span_eq] at hstop
  omega

/-- Two strings, the fixed array of the test of its encoding. -/
def twoStrings : List Param :=
  [.string (bytesOfStr "012345678901234567890123456789012345".toList),
    .string (bytesOfStr "0123".toList)]

/-- Two empty strings to read them into. -/
def twoReceivers : List Param := [.string [], .string []]

/-- The encoding of the two strings. -/
def twoStringsCode : Bytes := ⟨(Param.arrayFix twoStrings).encode [], by decide +kernel⟩

theorem arrayFix_never_readsBack_twoStrings :
    ¬ ReadsFixArray twoStringsCode 0 twoStrings twoReceivers :=
  arrayFix_never_readsBack twoStrings twoReceivers .string (by decide)
    (by
      intro p hp
      simp only [twoStrings, List.mem_cons, List.not_mem_nil, or_false] at hp
      rcases hp with rfl | rfl <;> exact ⟨rfl, rfl, rfl⟩)
    twoStringsCode [] [] (by simp [twoStringsCode])

/-- The first offset of the two strings, 64, is taken for their number, and there are not as
    many heads. -/
theorem decode_twoStrings :
    ((Param.arrayFix twoReceivers).decode twoStringsCode 0).map (fun res => res.1) = .ok false ∧
      ¬ ReadsFixArray twoStringsCode 0 twoStrings twoReceivers := by
  have hfails : ((Param.arrayFix twoReceivers).decode twoStringsCode 0).map (fun res => res.1) =
      .ok false := by decide +kernel
  refine ⟨hfails, fun hreads => ?_⟩
  obtain ⟨rs', hdecode, _⟩ := hreads
  rw [hdecode] at hfails
  cases hfails

end ConfluxSdk.Abi
