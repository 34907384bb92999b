import ConfluxSdk.Spec.AbiFactoryCorrect

/-!
# ParamSet::decode over a head/tail layout

`ParamSet::decode` reads the offset words and ignores them: it relies on every
tail starting where the previous one ended. Over a layout written by
`ParamSet::encode` this is right as soon as every member's decoder stops exactly
behind the member's own bytes (`Reads`).

## Key results

- `At.decodeWord`, `At.decodeBytes`, `At.decodeBytesFix`: the elementary readers,
  at any position of a buffer
- `decodeSet_reads`: the two passes of `ParamSet::decode` undo those of
  `ParamSet::encode`
-/

namespace ConfluxSdk.Abi

open SolidityAbi (Ty Val word padRight pointer)

/-! ### Reading at a position -/

/-- The bytes `chunk` stand in the buffer from position `offset` on. -/
structure At (buf : Bytes) (offset : Nat) (chunk : Data) : Prop where
  size_le : offset + chunk.length ≤ buf.size
  take_drop : (buf.toList.drop offset).take chunk.length = chunk

theorem At.lt {buf : Bytes} {offset : Nat} {chunk : Data} (h : At buf offset chunk) :
    offset + chunk.length < 2 ^ 63 := Nat.lt_of_le_of_lt h.size_le buf.size_lt

theorem at_append {buf : Bytes} {pre chunk post : Data} (h : buf.toList = pre ++ chunk ++ post) :
    At buf pre.length chunk := by
  refine ⟨?_, ?_⟩
  · rw [Bytes.size, h]
    simp
  · rw [h, List.append_assoc, List.drop_left, List.take_left]

/-- A chunk that stands somewhere puts its two parts next to each other. -/
theorem At.split {buf : Bytes} {offset : Nat} {a b : Data} (h : At buf offset (a ++ b)) :
    At buf offset a ∧ At buf (offset + a.length) b := by
  have hsize := h.size_le
  have htake := h.take_drop
  rw [List.length_append] at hsize htake
  rw [List.take_add, List.drop_drop] at htake
  have hlen : ((buf.toList.drop offset).take a.length).length = a.length := by
    rw [List.length_take, List.length_drop]
    simp only [Bytes.size] at hsize
    omega
  obtain ⟨ha, hb⟩ := List.append_inj htake hlen
  exact ⟨⟨by omega, ha⟩, ⟨by omega, hb⟩⟩

theorem load_word (x : Int) : load (word x) = uint256OfInt x := by
  have hlt : (x % 2 ^ 256).toNat < 256 ^ 32 := by norm_num; omega
  apply Fin.ext
  simp only [load, word, uint256OfInt, BigEndian.toNat_fixed_of_lt hlt]
  omega

/-- Where a word stands, `ABI::decode` reads it. -/
theorem At.decodeWord {buf : Bytes} {offset : Nat} {x : Int} (h : At buf offset (word x)) :
    decodeWord buf offset = some (uint256OfInt x, offset + 32) := by
  have hlt := h.lt
  have hsize := h.size_le
  have htake := h.take_drop
  rw [SolidityAbi.length_word] at hlt hsize htake
  have hadd : sizeT (32 + offset) = 32 + offset := sizeT_of_lt (by omega)
  have hroom : ¬ (buf.toList = [] ∨ buf.size < 32 + offset) := by
    rintro (hnil | hlt')
    · simp only [Bytes.size, hnil, List.length_nil] at hsize
      omega
    · omega
  rw [Abi.decodeWord, encodedIntSize, hadd, if_neg hroom, loadWithOffset, hadd, if_neg hroom,
    htake, load_word, sizeT_of_lt (by omega)]

theorem uint256OfInt_natCast {n : Nat} (h : n < 2 ^ 256) : (uint256OfInt n).val = n := by
  simp only [uint256OfInt]
  omega

theorem sizePaddedTo32_of_lt {n : Nat} (h : n < 2 ^ 63) : sizePaddedTo32 n = paddedTo32 n := by
  rw [sizePaddedTo32, sizeT_of_lt (by omega), paddedTo32]

/-- Rounding the offset in the middle of a buffer. -/
theorem alignFrom_add {offset n : Nat} (h : offset + n < 2 ^ 63) :
    alignFrom offset (offset + n) = offset + paddedTo32 n := by
  rw [alignFrom, sizeSub_of_le (by omega) (by omega), Nat.add_sub_cancel_left,
    sizePaddedTo32_of_lt (by omega), sizeT_of_lt]
  simp only [paddedTo32]
  omega

theorem At.decodeBytes {buf : Bytes} {offset : Nat} {b : Data}
    (h : At buf offset (word b.length ++ padRight b)) (decoded : Data) :
    decodeBytes buf decoded offset =
      .ok (true, b, offset + (word b.length ++ padRight b).length) := by
  obtain ⟨hword, hpad⟩ := h.split
  rw [SolidityAbi.length_word] at hpad
  have hb := (At.split (a := b) hpad).1
  have hlt := hb.lt
  have hsize := hb.size_le
  have hval : (uint256OfInt (b.length : Int)).val = b.length := uint256OfInt_natCast (by omega)
  have hlen : sizeT b.length = b.length := sizeT_of_lt (by omega)
  have hsum : sizeT (offset + 32 + b.length) = offset + 32 + b.length := sizeT_of_lt (by omega)
  have halign : alignFrom offset (offset + (32 + b.length)) =
      offset + paddedTo32 (32 + b.length) := alignFrom_add (by omega)
  have hround : paddedTo32 (32 + b.length) = 32 + paddedTo32 b.length := by
    simp only [paddedTo32]
    omega
  have hforward : ¬ offset + 32 + b.length < offset + 32 := by omega
  rw [Abi.decodeBytes, hword.decodeWord]
  simp only [hval, hlen, hsum, ne_eq, not_true_eq_false, if_false, if_neg (Nat.not_lt.mpr hsize),
    if_neg hforward, hb.take_drop]
  rw [Nat.add_assoc, halign, hround, List.length_append, SolidityAbi.length_word, length_padRight]

/-- The bytes are read without their padding; the offset is rounded up past it. -/
theorem At.decodeBytesFix {buf : Bytes} {offset : Nat} {b : Data} (h : At buf offset b)
    (decoded : Data) (hle : decoded.length ≤ b.length) :
    decodeBytesFix buf b.length decoded offset = (true, b, offset + paddedTo32 b.length) := by
  have hlt := h.lt
  have hsize := h.size_le
  have hsum : sizeT (offset + b.length) = offset + b.length := sizeT_of_lt (by omega)
  -- The old bytes are grown to exactly the size that is then overwritten.
  have hroom : ((if decoded.length < b.length then
      decoded ++ List.replicate (b.length - decoded.length) 0 else decoded).drop b.length) = [] := by
    apply List.drop_eq_nil_of_le
    split
    · rw [List.length_append, List.length_replicate]
      omega
    · exact hle
  rw [Abi.decodeBytesFix, hsum, if_neg (Nat.not_lt.mpr hsize), h.take_drop, alignFrom_add hlt]
  simp only [hroom, List.append_nil]

/-! ### One member -/

/-- The object `r'` holds what `p` holds. -/
structure Holds (p r' : Param) : Prop where
  toVal_eq : r'.toVal = p.toVal
  hasTy : ∀ t, p.HasTy t → r'.HasTy t
  isDynamic_eq : r'.isDynamic = p.isDynamic

/-- Wherever the encoding of `p` stands, `dec` reads it into `r` and stops right
    behind it. -/
structure Reads (buf : Bytes) (dec : Param → Nat → Except StdError (Bool × Param × Nat))
    (p r : Param) : Prop where
  isDynamic_eq : r.isDynamic = p.isDynamic
  reads : ∀ offset, At buf offset (p.encode []) →
    ∃ r', dec r offset = .ok (true, r', offset + (p.encode []).length) ∧ Holds p r'

/-! ### The two passes -/

/-- After the first pass: static members are read, dynamic ones are still to be. -/
def AfterHeads (buf : Bytes) (dec : Param → Nat → Except StdError (Bool × Param × Nat))
    (p r : Param) : Prop :=
  if p.isDynamic then Reads buf dec p r else Holds p r

section Passes

variable {buf : Bytes} {dec : Param → Nat → Except StdError (Bool × Param × Nat)}

/-- The first pass reads the static members; whatever is known of a dynamic one is
    still so after it. -/
theorem decodeHeads_pass {R : Param → Param → Prop}
    (hR : ∀ p r, R p r → r.isDynamic = p.isDynamic) {ps rs : List Param}
    (h : List.Forall₂ (fun p r => if p.isDynamic then R p r else Reads buf dec p r) ps rs)
    (acc offset : Nat) (hat : At buf offset (HeadTail.headsFrom pointer acc (ps.map Param.part))) :
    ∃ rs', decodeHeads buf dec rs offset =
        .ok (true, rs', offset + (HeadTail.headsFrom pointer acc (ps.map Param.part)).length) ∧
      List.Forall₂ (fun p r => if p.isDynamic then R p r else Holds p r) ps rs' := by
  induction h generalizing acc offset with
  | nil => exact ⟨[], rfl, .nil⟩
  | @cons p r ps rs hp _ ih =>
    rw [List.map_cons, HeadTail.headsFrom] at hat ⊢
    obtain ⟨hhead, hrest⟩ := hat.split
    obtain ⟨rs', hrs', hall⟩ := ih _ _ hrest
    cases hd : p.isDynamic with
    | true =>
      -- Only the pointer is read here; the member itself keeps its state.
      rw [if_pos hd] at hp
      simp only [Param.part, hd, if_true] at hhead hrs' ⊢
      rw [pointer] at hhead hrs'
      rw [SolidityAbi.length_word] at hrs'
      refine ⟨r :: rs', ?_, .cons ?_ hall⟩
      · rw [decodeHeads, hR p r hp, hd, hhead.decodeWord]
        simp only [hrs', bind, Except.bind, if_true]
        rw [List.length_append, SolidityAbi.length_pointer, Nat.add_assoc]
      · rw [if_pos hd]
        exact hp
    | false =>
      rw [if_neg (by simp [hd])] at hp
      simp only [Param.part, hd, Bool.false_eq_true, if_false] at hhead hrs' ⊢
      obtain ⟨r', hr', hholds⟩ := hp.reads offset hhead
      refine ⟨r' :: rs', ?_, .cons ?_ hall⟩
      · rw [decodeHeads, hp.isDynamic_eq, hd]
        simp only [hr', hrs', bind, Except.bind, if_true, Bool.false_eq_true, if_false]
        rw [List.length_append, Nat.add_assoc]
      · rw [if_neg (by simp [hd])]
        exact hholds

theorem decodeHeads_reads {ps rs : List Param} (h : List.Forall₂ (Reads buf dec) ps rs)
    (acc offset : Nat) (hat : At buf offset (HeadTail.headsFrom pointer acc (ps.map Param.part))) :
    ∃ rs', decodeHeads buf dec rs offset =
        .ok (true, rs', offset + (HeadTail.headsFrom pointer acc (ps.map Param.part)).length) ∧
      List.Forall₂ (AfterHeads buf dec) ps rs' :=
  decodeHeads_pass (fun _ _ hp => hp.isDynamic_eq) (h.imp fun _ _ hp => by rwa [ite_self]) acc offset
    hat

theorem decodeTails_reads {ps rs : List Param} (h : List.Forall₂ (AfterHeads buf dec) ps rs)
    (offset : Nat) (hat : At buf offset (HeadTail.tails (ps.map Param.part))) :
    ∃ rs', decodeTails dec rs offset =
        .ok (true, rs', offset + (HeadTail.tails (ps.map Param.part)).length) ∧
      List.Forall₂ Holds ps rs' := by
  induction h generalizing offset with
  | nil => exact ⟨[], rfl, .nil⟩
  | @cons p r ps rs hp _ ih =>
    rw [List.map_cons, HeadTail.tails_cons] at hat ⊢
    obtain ⟨htail, hrest⟩ := hat.split
    obtain ⟨rs', hrs', hall⟩ := ih _ hrest
    rw [AfterHeads] at hp
    cases hd : p.isDynamic with
    | true =>
      rw [if_pos hd] at hp
      simp only [Param.part, HeadTail.Part.tail, hd, if_true] at htail hrs' ⊢
      obtain ⟨r', hr', hholds⟩ := hp.reads offset htail
      refine ⟨r' :: rs', ?_, .cons hholds hall⟩
      rw [decodeTails, hp.isDynamic_eq, hd]
      simp only [hr', hrs', bind, Except.bind, if_true]
      rw [List.length_append, Nat.add_assoc]
    | false =>
      rw [if_neg (by simp [hd])] at hp
      simp only [Param.part, HeadTail.Part.tail, hd, Bool.false_eq_true, if_false,
        List.length_nil, Nat.add_zero, List.nil_append] at hrs' ⊢
      refine ⟨r :: rs', ?_, .cons hp hall⟩
      rw [decodeTails, hp.isDynamic_eq, hd]
      simp only [hrs', bind, Except.bind, Bool.false_eq_true, if_false]

/-- `ParamSet::decode` reads back the layout of its members. -/
theorem decodeSet_reads {ps rs : List Param} (hlaid : ∀ p ∈ ps, p.Laid)
    (h : List.Forall₂ (Reads buf dec) ps rs) (offset : Nat)
    (hat : At buf offset (ParamSet.encode ps [])) :
    ∃ rs', decodeSet buf dec rs offset =
        .ok (true, rs', offset + (ParamSet.encode ps []).length) ∧
      List.Forall₂ Holds ps rs' := by
  rw [ParamSet.encode_eq_layout ps hlaid, List.nil_append, HeadTail.layout,
    HeadTail.heads_eq_headsFrom] at hat ⊢
  obtain ⟨hheads, htails⟩ := hat.split
  obtain ⟨mid, hmid, hafter⟩ := decodeHeads_reads h _ _ hheads
  obtain ⟨rs', hrs', hholds⟩ := decodeTails_reads hafter _ htails
  refine ⟨rs', ?_, hholds⟩
  rw [decodeSet, hmid]
  simp only [bind, Except.bind, if_true, hrs']
  rw [List.length_append, Nat.add_assoc]

end Passes

end ConfluxSdk.Abi
