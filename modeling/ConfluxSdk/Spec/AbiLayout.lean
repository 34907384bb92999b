import ConfluxSdk.Native.AbiParam
import ConfluxSdk.Spec.SolidityAbi

/-!
# ParamSet::encode as a head/tail layout

`ParamSet::encode` makes two passes over its members and predicts in the first
one, from `getSize`, where the second one will put the tails. Whenever the
prediction is right for every member, the two passes write the layout
`HeadTail.layout` of the members' own encodings (`ParamSet.encode_eq_layout`).

## Key results

- `Param.inductionOn`: induction over parameter trees, with the hypothesis for
  every element of an array
- `encodeUInt256_eq`: a number is written as its 32-byte word
- `Param.encode_append`: `encode` only ever appends
- `ParamSet.encode_eq_layout`: the two passes are a head/tail layout
-/

namespace ConfluxSdk.Abi

open SolidityAbi (word pointer)

/-- Induction over parameter trees: an array may assume the statement for each
    of its elements. -/
@[elab_as_elim]
protected theorem Param.inductionOn {motive : Param → Prop}
    (number : ∀ t val, motive (.number t val))
    (uintN : ∀ bits val, motive (.uintN bits val))
    (intN : ∀ bits val, motive (.intN bits val))
    (address : ∀ val, motive (.address val))
    (byteArray : ∀ bytes, motive (.byteArray bytes))
    (byteArrayFix : ∀ n bytes, motive (.byteArrayFix n bytes))
    (string : ∀ str, motive (.string str))
    (array : ∀ ps, (∀ p ∈ ps, motive p) → motive (.array ps))
    (arrayFix : ∀ ps, (∀ p ∈ ps, motive p) → motive (.arrayFix ps))
    (parameters : ∀ ps, (∀ p ∈ ps, motive p) → motive (.parameters ps))
    (p : Param) : motive p := by
  refine @Param.rec motive (fun ps => ∀ q ∈ ps, motive q) number uintN intN address
    byteArray byteArrayFix string array arrayFix parameters ?_ ?_ p
  · intro q hq
    exact absurd hq List.not_mem_nil
  · intro q qs hq hqs r hr
    rcases List.mem_cons.mp hr with rfl | hr
    · exact hq
    · exact hqs r hr

/-! ### Words -/

private theorem pow_256 : (256 : Nat) ^ 32 = 2 ^ 256 := by norm_num

theorem paddedOnLeft_store (v : UInt256) : paddedOnLeft (store v) = BigEndian.fixed 32 v.val := by
  have hlt : v.val < 256 ^ 32 := by rw [pow_256]; exact v.isLt
  by_cases h0 : v.val = 0
  · rw [store, if_pos h0, h0]
    decide
  · rw [store, if_neg h0, BigEndian.fixed_eq_pad hlt, paddedOnLeft]
    have hle := (BigEndian.length_ofNat_le_iff v.val 32).mpr hlt
    split
    · rename_i hge
      have hlen : 32 - (BigEndian.ofNat v.val).length = 0 := by
        simp only [encodedIntSize] at hge
        omega
      rw [hlen, List.replicate_zero, List.nil_append]
    · rfl

theorem word_natCast (n : Nat) : word n = BigEndian.fixed 32 n := by
  have hmod : ((n : Int) % 2 ^ 256).toNat = n % 256 ^ 32 := by rw [pow_256]; omega
  rw [word, hmod, BigEndian.fixed_mod]

/-- `encodeUInt256` appends the word of its argument. -/
theorem encodeUInt256_eq (v : UInt256) (data : Data) :
    encodeUInt256 v data = data ++ word v.val := by
  rw [encodeUInt256, paddedOnLeft_store, word_natCast]

theorem encodeUInt256_uint256 (n : Nat) (data : Data) :
    encodeUInt256 (uint256 n) data = data ++ word n := by
  have hval : (uint256 n).val = n % 256 ^ 32 := by rw [pow_256]; rfl
  rw [encodeUInt256_eq, word_natCast, word_natCast, hval, BigEndian.fixed_mod]

theorem encodeUInt256_uint256OfInt (v : Int) (data : Data) :
    encodeUInt256 (uint256OfInt v) data = data ++ word v := by
  have hmod : ((v % 2 ^ 256).toNat : Int) % 2 ^ 256 = v % 2 ^ 256 := by omega
  rw [encodeUInt256_eq, uint256OfInt, word, word, hmod]

theorem padNeeded32_eq (n : Nat) : padNeeded32 n = (32 - n % 32) % 32 := by
  simp only [padNeeded32]
  omega

theorem encodeBytesFix_eq (bytes data : Data) :
    encodeBytesFix bytes data = data ++ SolidityAbi.padRight bytes := by
  rw [encodeBytesFix, SolidityAbi.padRight, padNeeded32_eq, List.append_assoc]

theorem encodeBytes_eq (bytes data : Data) :
    encodeBytes bytes data = data ++ (word bytes.length ++ SolidityAbi.padRight bytes) := by
  rw [encodeBytes, SolidityAbi.padRight, encodeUInt256_uint256, padNeeded32_eq]
  simp only [List.append_assoc]

/-! ### Which members go to the tail -/

/-- The test both passes of `ParamSet::encode` make: a dynamic member, or a
    static one that is no fixed array and larger than a word. -/
def Param.inTail (p : Param) : Bool :=
  p.isDynamic || (!p.isFixArray && decide (p.getSize > encodedIntSize))

theorem encodeHeads_cons (headSize off : Nat) (p : Param) (ps : List Param) (data : Data) :
    encodeHeads headSize off (p :: ps) data =
      if p.inTail then
        encodeHeads headSize (off + p.getSize) ps (encodeUInt256 (uint256 (headSize + off)) data)
      else encodeHeads headSize off ps (p.encode data) := by
  rw [encodeHeads, Param.inTail]
  cases p.isDynamic <;> cases p.isFixArray <;> simp

theorem encodeTails_cons (p : Param) (ps : List Param) (data : Data) :
    encodeTails (p :: ps) data =
      if p.inTail then encodeTails ps (p.encode data) else encodeTails ps data := by
  rw [encodeTails, Param.inTail]
  cases p.isDynamic <;> cases p.isFixArray <;> simp

/-! ### Appending -/

private theorem encodeHeads_append (ps : List Param)
    (h : ∀ p ∈ ps, ∀ data, p.encode data = data ++ p.encode []) (headSize off : Nat)
    (data : Data) :
    encodeHeads headSize off ps data = data ++ encodeHeads headSize off ps [] := by
  induction ps generalizing off data with
  | nil => simp [encodeHeads]
  | cons p ps ih =>
    have ih' := ih (fun q hq => h q (List.mem_cons_of_mem _ hq))
    rw [encodeHeads_cons, encodeHeads_cons]
    split
    · rw [ih' _ (encodeUInt256 _ data), ih' _ (encodeUInt256 _ []), encodeUInt256_uint256,
        encodeUInt256_uint256, List.nil_append, List.append_assoc]
    · rw [ih' _ (p.encode data), ih' _ (p.encode []), h p List.mem_cons_self data,
        List.append_assoc]

private theorem encodeTails_append (ps : List Param)
    (h : ∀ p ∈ ps, ∀ data, p.encode data = data ++ p.encode []) (data : Data) :
    encodeTails ps data = data ++ encodeTails ps [] := by
  induction ps generalizing data with
  | nil => simp [encodeTails]
  | cons p ps ih =>
    have ih' := ih (fun q hq => h q (List.mem_cons_of_mem _ hq))
    rw [encodeTails_cons, encodeTails_cons]
    split
    · rw [ih' (p.encode data), ih' (p.encode []), h p List.mem_cons_self data,
        List.append_assoc]
    · exact ih' data

private theorem encodePasses_append (ps : List Param)
    (h : ∀ p ∈ ps, ∀ data, p.encode data = data ++ p.encode []) (data : Data) :
    encodeTails ps (encodeHeads (getHeadSize ps) 0 ps data) =
      data ++ encodeTails ps (encodeHeads (getHeadSize ps) 0 ps []) := by
  rw [encodeTails_append ps h, encodeHeads_append ps h,
    encodeTails_append ps h (encodeHeads _ _ _ []), List.append_assoc]

/-- `encode` appends to the buffer and does not look at what it holds. -/
theorem Param.encode_append (p : Param) (data : Data) : p.encode data = data ++ p.encode [] := by
  induction p using Param.inductionOn generalizing data with
  | number t val => simp only [Param.encode, encodeUInt256_eq, List.nil_append]
  | uintN bits val => simp only [Param.encode, encodeUInt256_eq, List.nil_append]
  | intN bits val => simp only [Param.encode, encodeUInt256_eq, List.nil_append]
  | address val => simp only [Param.encode, encodeUInt256_eq, List.nil_append]
  | byteArray bytes => simp only [Param.encode, encodeBytes_eq, List.nil_append]
  | byteArrayFix n bytes => simp only [Param.encode, encodeBytesFix_eq, List.nil_append]
  | string str => simp only [Param.encode, encodeBytes_eq, List.nil_append]
  | array ps ih =>
    rw [Param.encode, Param.encode, encodePasses_append ps ih, encodePasses_append ps ih
      (encodeUInt256 _ []), encodeUInt256_eq, encodeUInt256_eq, List.nil_append,
      List.append_assoc]
  | arrayFix ps ih => rw [Param.encode, Param.encode, encodePasses_append ps ih]
  | parameters ps ih => rw [Param.encode, Param.encode, encodePasses_append ps ih]

theorem ParamSet.encode_append (ps : List Param) (data : Data) :
    ParamSet.encode ps data = data ++ ParamSet.encode ps [] :=
  encodePasses_append ps (fun p _ => p.encode_append) data

/-- An array is its length and a set. -/
theorem Param.encode_array (ps : List Param) :
    (Param.array ps).encode [] = word ps.length ++ ParamSet.encode ps [] := by
  rw [Param.encode, ← ParamSet.encode, ParamSet.encode_append, encodeUInt256_uint256,
    List.nil_append]

/-! ### The two passes as a layout -/

/-- A member as a part of the set's layout. -/
def Param.part (p : Param) : HeadTail.Part UInt8 := ⟨p.isDynamic, p.encode []⟩

/-- What the first pass relies on: the predicted size is the produced one, and
    only fixed arrays are static and longer than a word. -/
structure Param.Laid (p : Param) : Prop where
  length_eq : (p.encode []).length = p.getSize
  one_word : p.isDynamic = false → p.isFixArray = true ∨ p.getSize ≤ encodedIntSize

theorem Param.Laid.inTail_eq {p : Param} (h : p.Laid) : p.inTail = p.isDynamic := by
  rw [Param.inTail]
  cases hd : p.isDynamic with
  | true => rfl
  | false =>
    rcases h.one_word hd with hf | hs
    · simp [hf]
    · simp [Nat.not_lt.mpr hs]

theorem encodeHeads_eq_headsFrom (ps : List Param) (h : ∀ p ∈ ps, p.Laid) (headSize off : Nat)
    (data : Data) :
    encodeHeads headSize off ps data =
      data ++ HeadTail.headsFrom pointer (headSize + off) (ps.map Param.part) := by
  induction ps generalizing off data with
  | nil => simp [encodeHeads, HeadTail.headsFrom]
  | cons p ps ih =>
    have hp := h p List.mem_cons_self
    have ih' := ih (fun q hq => h q (List.mem_cons_of_mem _ hq))
    rw [encodeHeads_cons, hp.inTail_eq, List.map_cons, HeadTail.headsFrom]
    cases hd : p.isDynamic with
    | true =>
      simp only [Param.part, hd, if_true, HeadTail.Part.tail]
      rw [ih', encodeUInt256_uint256, hp.length_eq, pointer, List.append_assoc, Nat.add_assoc]
    | false =>
      simp only [Param.part, hd, Bool.false_eq_true, if_false, HeadTail.Part.tail,
        List.length_nil, Nat.add_zero]
      rw [ih', p.encode_append, List.append_assoc]

theorem encodeTails_eq_tails (ps : List Param) (h : ∀ p ∈ ps, p.Laid) (data : Data) :
    encodeTails ps data = data ++ HeadTail.tails (ps.map Param.part) := by
  induction ps generalizing data with
  | nil => simp [encodeTails]
  | cons p ps ih =>
    have hp := h p List.mem_cons_self
    have ih' := ih (fun q hq => h q (List.mem_cons_of_mem _ hq))
    rw [encodeTails_cons, hp.inTail_eq, List.map_cons, HeadTail.tails_cons]
    cases hd : p.isDynamic with
    | true =>
      simp only [Param.part, hd, if_true, HeadTail.Part.tail]
      rw [ih', p.encode_append, List.append_assoc]
    | false =>
      simp only [Param.part, hd, Bool.false_eq_true, if_false, HeadTail.Part.tail,
        List.nil_append]
      exact ih' data

theorem getHeadSize_eq_headsLength (ps : List Param) (h : ∀ p ∈ ps, p.Laid) :
    getHeadSize ps = HeadTail.headsLength 32 (ps.map Param.part) := by
  induction ps with
  | nil => rfl
  | cons p ps ih =>
    have hp := h p List.mem_cons_self
    rw [getHeadSize, List.map_cons, HeadTail.headsLength_cons,
      ih (fun q hq => h q (List.mem_cons_of_mem _ hq)), HeadTail.Part.headLength, Param.part,
      hp.length_eq]

/-- The two passes of `ParamSet::encode` write the head/tail layout of the
    members' own encodings. -/
theorem ParamSet.encode_eq_layout (ps : List Param) (h : ∀ p ∈ ps, p.Laid) (data : Data) :
    ParamSet.encode ps data = data ++ HeadTail.layout pointer 32 (ps.map Param.part) := by
  rw [ParamSet.encode, encodeHeads_eq_headsFrom ps h, encodeTails_eq_tails ps h,
    HeadTail.layout, HeadTail.heads_eq_headsFrom, getHeadSize_eq_headsLength ps h,
    Nat.add_zero, List.append_assoc]

end ConfluxSdk.Abi
