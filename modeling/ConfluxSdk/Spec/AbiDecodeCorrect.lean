import ConfluxSdk.Spec.AbiDecodePasses
import ConfluxSdk.Spec.AbiTypes

/-!
# ABI decoding undoes encoding

The parameters that can be read back are the `decodable` ones: signed built-in
integers saturate when they are read, so they are left out, and an empty array
cannot be read at all, since its receiver would have to be empty too and then
has no type to grow from.

The receiver has the same types and its arrays hold one element each, from which
`ParamArray::decode` makes the others. The induction is over the encoded
parameter; the fuel of `Param.decodeTo` only has to cover the depth of the
receiver.

## Key results

- `Param.readBack`: one parameter is read back, wherever it stands
- `decode_encode`: the same for `ParamSet` and for the input of a `Function`
-/

namespace ConfluxSdk.Abi

open SolidityAbi (Ty Val word padRight pointer)

/-! ### Parameters that can be read back -/

/-- The numeric types that are read back unchanged. -/
def NumberType.unsigned : NumberType → Bool
  | uint256 | uint | bool | uint8 | uint16 | uint32 | uint64 => true
  | int256 | int8 | int16 | int32 | int64 => false

mutual
/-- Parameters built from unsigned numbers, byte strings and non-empty dynamic
    arrays of such. -/
def Param.decodable : Param → Bool
  | .number t _ => t.unsigned
  | .uintN .. | .intN .. | .address _ | .byteArray _ | .string _ => true
  | .byteArrayFix n bytes => decide (1 ≤ n ∧ n ≤ 32 ∧ bytes.length = n)
  | .array ps => !ps.isEmpty && allDecodable ps
  | .arrayFix _ | .parameters _ => false

def allDecodable : List Param → Bool
  | [] => true
  | p :: ps => p.decodable && allDecodable ps
end

/-- At the top level, fixed arrays of single static words are admitted too. -/
def Param.decodableTop : Param → Bool
  | .arrayFix ps => !ps.isEmpty && ps.all fun p => p.decodable && !p.isDynamic
  | p => p.decodable

/-- What such a parameter can be read into. -/
def Param.receiver : Param → Bool
  | .arrayFix rs => rs.all Param.prototype
  | r => r.prototype

theorem allDecodable_iff {ps : List Param} :
    allDecodable ps = true ↔ ∀ p ∈ ps, p.decodable = true := by
  induction ps with
  | nil => simp [allDecodable]
  | cons p ps ih => simp [allDecodable, ih]

theorem decodable_array_iff {ps : List Param} :
    (Param.array ps).decodable = true ↔ ps ≠ [] ∧ ∀ p ∈ ps, p.decodable = true := by
  rw [Param.decodable, Bool.and_eq_true, allDecodable_iff]
  cases ps <;> simp

mutual
/-- The same with arrays of any length. -/
def Param.readable : Param → Bool
  | .number t _ => t.unsigned
  | .uintN .. | .intN .. | .address _ | .byteArray _ | .string _ => true
  | .byteArrayFix n bytes => decide (1 ≤ n ∧ n ≤ 32 ∧ bytes.length = n)
  | .array ps => allReadable ps
  | .arrayFix _ | .parameters _ => false

def allReadable : List Param → Bool
  | [] => true
  | p :: ps => p.readable && allReadable ps
end

theorem allReadable_iff {ps : List Param} :
    allReadable ps = true ↔ ∀ p ∈ ps, p.readable = true := by
  induction ps with
  | nil => simp [allReadable]
  | cons p ps ih => simp [allReadable, ih]

theorem Param.readable_of_decodable (p : Param) (h : p.decodable = true) : p.readable = true := by
  induction p using Param.inductionOn with
  | array ps ih =>
    have hall := (decodable_array_iff.mp h).2
    exact allReadable_iff.mpr fun p hp => ih p hp (hall p hp)
  | arrayFix ps _ => exact absurd h (by simp [Param.decodable])
  | parameters ps _ => exact absurd h (by simp [Param.decodable])
  | _ => exact h

/-- A readable parameter is well formed and regular, and a single word if it is
    static. -/
theorem Param.facts_of_readable (p : Param) (h : p.readable = true) :
    p.wellFormed = true ∧ p.regular = true ∧ (p.isDynamic = true ∨ p.oneWord = true) := by
  induction p using Param.inductionOn with
  | number t val => exact ⟨rfl, rfl, .inr rfl⟩
  | uintN bits val => exact ⟨rfl, rfl, .inr rfl⟩
  | intN bits val => exact ⟨rfl, rfl, .inr rfl⟩
  | address val => exact ⟨rfl, rfl, .inr rfl⟩
  | byteArray bytes => exact ⟨rfl, rfl, .inl rfl⟩
  | byteArrayFix n bytes => exact ⟨h, rfl, .inr rfl⟩
  | string str => exact ⟨rfl, rfl, .inl rfl⟩
  | array ps ih =>
    have hall := allReadable_iff.mp h
    refine ⟨allWellFormed_iff.mpr fun p hp => (ih p hp (hall p hp)).1, ?_, .inl rfl⟩
    refine regularElems_iff.mpr fun p hp => ?_
    obtain ⟨_, hreg, hword⟩ := ih p hp (hall p hp)
    exact ⟨hword, hreg⟩
  | arrayFix ps _ => exact absurd h (by simp [Param.readable])
  | parameters ps _ => exact absurd h (by simp [Param.readable])

theorem Param.laid_of_readable {p : Param} (h : p.readable = true) : p.Laid :=
  let facts := p.facts_of_readable h
  Param.laid_of_regular facts.1 facts.2.1

theorem Param.facts_of_decodable (p : Param) (h : p.decodable = true) :
    p.wellFormed = true ∧ p.regular = true ∧ (p.isDynamic = true ∨ p.oneWord = true) :=
  p.facts_of_readable (p.readable_of_decodable h)

theorem Param.laid_of_decodable {p : Param} (h : p.decodable = true) : p.Laid :=
  Param.laid_of_readable (p.readable_of_decodable h)

/-- Every element takes up at least a word of a set. -/
theorem length_le_length_encode {ps : List Param} (h : ∀ p ∈ ps, p.readable = true) :
    ps.length ≤ (ParamSet.encode ps []).length := by
  have hone : ∀ x ∈ ps.map Param.written, 1 ≤ x := by
    intro x hx
    obtain ⟨p, hp, rfl⟩ := List.mem_map.mp hx
    have hlaid := Param.laid_of_readable (h p hp)
    have hsize := p.sizeFacts (p.facts_of_readable (h p hp)).1
    rw [Param.written, hlaid.inTail_eq, hlaid.length_eq]
    cases hd : p.isDynamic with
    | true => simp only [if_true]; omega
    | false =>
      have := (hsize.static_size hd).1
      omega
  have hsum := List.card_nsmul_le_sum _ 1 hone
  rw [List.length_map, smul_eq_mul, Nat.mul_one] at hsum
  rw [ParamSet.length_encode]
  exact hsum

/-! ### Numbers -/

theorem castDown_congr {nt nt' : NumberType} (h : nt'.solType = nt.solType) :
    nt'.castDown = nt.castDown := by
  funext u
  cases nt <;> cases nt' <;> first | rfl | cases h

/-- An unsigned number survives the cast to `uint256_t` and back. -/
theorem castDown_uint256OfInt {nt : NumberType} (h : nt.unsigned = true) (val : nt.Val) :
    nt.castDown (uint256OfInt val.1) = val.1 := by
  obtain ⟨x, hlo, hhi⟩ := val
  have hval : 0 ≤ x → x < 2 ^ 256 → ((uint256OfInt x).val : Int) = x := by
    intro h0 h1
    simp only [uint256OfInt]
    omega
  cases nt <;> simp only [NumberType.unsigned, Bool.false_eq_true] at h <;>
    simp only [NumberType.least, NumberType.greatest] at hlo hhi <;>
    have hval' := hval (by omega) (by omega) <;> simp only [NumberType.castDown] <;> omega

theorem uintNSetVal_uint256 {bits : BitSize} (val : UIntN bits) :
    uintNSetVal bits (uint256OfInt val.val) = val := by
  have hle := bits.two_pow_le
  have hlt := val.isLt
  have hval : (uint256OfInt (val.val : Int)).val = val.val := uint256OfInt_natCast (by omega)
  apply Fin.ext
  simp only [uintNSetVal, and_maskForBits, hval]
  exact Nat.mod_eq_of_lt hlt

/-- Reading the two's complement word of a signed number. -/
theorem int256FromUint256_uint256OfInt {x : Int} (hlo : -2 ^ 255 < x) (hhi : x ≤ 2 ^ 255) :
    int256FromUint256 (uint256OfInt x) = x := by
  by_cases hneg : x < 0
  · have hval : ((uint256OfInt x).val : Int) = x + 2 ^ 256 := by
      simp only [uint256OfInt]
      omega
    rw [int256FromUint256, if_neg (by omega)]
    simp only [complement]
    omega
  · have hval : ((uint256OfInt x).val : Int) = x := by
      simp only [uint256OfInt]
      omega
    rw [int256FromUint256, if_pos (by omega), hval]

theorem intNMasked_of_mem {bits : BitSize} (val : IntN bits) :
    intNMasked bits val.1 = uint256OfInt val.1 := by
  obtain ⟨x, hlo, hhi⟩ := val
  have hle := bits.two_pow_le
  have hcast : ((2 ^ bits.val : Nat) : Int) = 2 ^ bits.val := by push_cast; rfl
  rw [← hcast] at hlo hhi
  apply Fin.ext
  by_cases hneg : x < 0
  · have hsmall : (complement (uint256OfInt x)).val < 2 ^ bits.val := by
      simp only [complement, uint256OfInt]
      omega
    simp only [intNMasked, if_pos hneg, and_maskForBits, Nat.mod_eq_of_lt hsmall]
    simp only [complement]
    omega
  · have hsmall : (uint256OfInt x).val < 2 ^ bits.val := by
      simp only [uint256OfInt]
      omega
    simp only [intNMasked, if_neg hneg, and_maskForBits, Nat.mod_eq_of_lt hsmall]

theorem IntN.bounds {bits : BitSize} (val : IntN bits) : -2 ^ 248 ≤ val.1 ∧ val.1 < 2 ^ 248 := by
  obtain ⟨x, hlo, hhi⟩ := val
  have hle := bits.two_pow_le
  have hcast : ((2 ^ bits.val : Nat) : Int) = 2 ^ bits.val := by push_cast; rfl
  rw [← hcast] at hlo hhi
  show -2 ^ 248 ≤ x ∧ x < 2 ^ 248
  omega

theorem intNSetVal_of_mem {bits : BitSize} (val : IntN bits) :
    intNSetVal bits (int256FromUint256 (uint256OfInt val.1)) = val := by
  have hmem := val.bounds
  have hread : int256FromUint256 (uint256OfInt val.1) = val.1 :=
    int256FromUint256_uint256OfInt (by omega) (by omega)
  apply Subtype.ext
  rw [hread]
  show int256FromUint256 (intNMasked bits val.1) = val.1
  rw [intNMasked_of_mem, hread]

/-! ### One parameter -/

/-- What the induction proves of a parameter: every receiver of its type reads it
    back, as long as the fuel covers the receiver's depth. -/
def ReadBack (buf : Bytes) (p : Param) : Prop :=
  ∀ (t : Ty) (r : Param) (fuel : Nat), p.HasTy t → r.HasTy t → r.prototype = true →
    r.depth ≤ fuel → Reads buf (Param.decodeTo buf fuel) p r

theorem forall₂_of_forall_mem {R : Param → Param → Prop} {ps rs : List Param}
    (hlen : ps.length = rs.length) (h : ∀ p ∈ ps, ∀ r ∈ rs, R p r) : List.Forall₂ R ps rs := by
  induction ps generalizing rs with
  | nil =>
    obtain rfl := List.length_eq_zero_iff.mp hlen.symm
    exact .nil
  | cons p ps ih =>
    cases rs with
    | nil => simp at hlen
    | cons r rs =>
      refine .cons (h p List.mem_cons_self r List.mem_cons_self) (ih (by simpa using hlen) ?_)
      intro p' hp' r' hr'
      exact h p' (List.mem_cons_of_mem _ hp') r' (List.mem_cons_of_mem _ hr')

/-- The prototype of an array, grown to the encoded length. -/
theorem growTo_prototype {r : Param} (hr : r.prototype = true) {len : Nat} (hlen : 1 ≤ len) :
    ∃ rs, growTo [r] len = .ok rs ∧ rs.length = len ∧ ∀ r' ∈ rs, Replaces r' r := by
  have hself : Replaces r r := ⟨hr, fun t ht => ht, Nat.le_refl _⟩
  rw [growTo, List.length_singleton]
  by_cases hone : 1 < len
  · obtain ⟨q, hq, hrep⟩ := make_getType r hr
    refine ⟨r :: List.replicate (len - 1) q, ?_, ?_, ?_⟩
    · rw [if_pos hone, getFirstType, hq]
      rfl
    · rw [List.length_cons, List.length_replicate]
      omega
    · intro r' hr'
      rcases List.mem_cons.mp hr' with rfl | hr'
      · exact hself
      · rw [List.eq_of_mem_replicate hr']
        exact hrep
  · refine ⟨[r], if_neg hone, ?_, ?_⟩
    · rw [List.length_singleton]
      omega
    · intro r' hr'
      rw [List.mem_singleton.mp hr']
      exact hself

theorem holds_of_forall₂ {ps rs : List Param} (h : List.Forall₂ Holds ps rs) :
    toVals rs = toVals ps ∧ (∀ e, ElemsHaveTy ps e → ElemsHaveTy rs e) ∧ rs.length = ps.length := by
  induction h with
  | nil => exact ⟨rfl, fun _ h => h, rfl⟩
  | cons hp _ ih =>
    obtain ⟨hvals, htys, hlen⟩ := ih
    refine ⟨?_, ?_, ?_⟩
    · rw [toVals, toVals, hp.toVal_eq, hvals]
    · intro e he
      exact ⟨hp.hasTy e he.1, htys e he.2⟩
    · rw [List.length_cons, List.length_cons, hlen]

/-- The end of `ParamArray::decode`, behind a length word (`skip` is 32) or not. -/
theorem decodeValues_reads {buf : Bytes} {fuel : Nat} {ps rs : List Param}
    (hdec : ∀ p ∈ ps, p.decodable = true) (hlen : ps.length = rs.length)
    (hreads : ∀ p ∈ ps, ∀ r ∈ rs, Reads buf (Param.decodeTo buf fuel) p r)
    (offset skip : Nat) (hskip : 32 ∣ skip) (hat : At buf (offset + skip) (ParamSet.encode ps [])) :
    ∃ rs', decodeValues buf (Param.decodeTo buf fuel) rs offset (offset + skip) =
        .ok (true, rs', offset + skip + (ParamSet.encode ps []).length) ∧
      List.Forall₂ Holds ps rs' := by
  have hlaid : ∀ p ∈ ps, p.Laid := fun p hp => Param.laid_of_decodable (hdec p hp)
  obtain ⟨rs', hrs', hholds⟩ :=
    decodeSet_reads hlaid (forall₂_of_forall_mem hlen hreads) _ hat
  refine ⟨rs', ?_, hholds⟩
  -- The bytes of a set fill whole words, so rounding the offset changes nothing.
  have hdvd : 32 ∣ (ParamSet.encode ps []).length := by
    rw [ParamSet.length_encode]
    apply List.dvd_sum
    intro x hx
    obtain ⟨p, hp, rfl⟩ := List.mem_map.mp hx
    have hfacts := p.facts_of_decodable (hdec p hp)
    have hsize := p.sizeFacts hfacts.1
    rw [hsize.written_eq_iff.mpr ⟨hfacts.2.2, hfacts.2.1⟩]
    exact hsize.dvd_charged
  have hlt := hat.lt
  rw [Nat.add_assoc] at hlt
  rw [decodeValues, hrs']
  simp only [bind, Except.bind]
  rw [Nat.add_assoc, alignFrom_add hlt, paddedTo32_of_dvd (Nat.dvd_add hskip hdvd)]

/-- A parameter that is read back where it stands, whatever the fuel. -/
private theorem Reads.leaf {buf : Bytes} {fuel : Nat} {p r : Param} (chunk : Data)
    (hd : r.isDynamic = p.isDynamic) (hchunk : p.encode [] = chunk)
    (h : ∀ offset, At buf offset chunk → ∃ r', r.decodeTo buf fuel offset =
      .ok (true, r', offset + chunk.length) ∧ Holds p r') :
    Reads buf (Param.decodeTo buf fuel) p r := by
  refine ⟨hd, fun offset hat => ?_⟩
  rw [hchunk] at hat ⊢
  exact h offset hat

/-- An object that can receive an array holds one element, which can receive its elements. -/
theorem receiver_array {r : Param} {e : Ty} {fuel : Nat} (hr : r.HasTy (.array e))
    (hproto : r.prototype = true) (hfuel : r.depth ≤ fuel) :
    ∃ r' fuel', r = .array [r'] ∧ fuel = fuel' + 1 ∧ r'.HasTy e ∧ r'.prototype = true ∧
      r'.depth ≤ fuel' := by
  obtain ⟨rs, rfl, hrs⟩ := array_of_hasTy hr
  obtain ⟨r', rfl, hproto'⟩ := onePrototype_iff.mp hproto
  simp only [Param.depth, maxDepth] at hfuel
  exact ⟨r', fuel - 1, rfl, by omega, hrs r' List.mem_cons_self, hproto', by omega⟩

/-- What `ParamArray::decode` does at an encoded array, with one element to start from. -/
theorem At.decodeElems {buf : Bytes} {offset : Nat} {ps : List Param}
    (h : At buf offset (word ps.length ++ ParamSet.encode ps []))
    (hread : ∀ p ∈ ps, p.readable = true)
    (dec : Param → Nat → Except StdError (Bool × Param × Nat)) (r : Param) :
    At buf (offset + 32) (ParamSet.encode ps []) ∧
      Abi.decodeElems buf dec true [r] offset =
        if ps = [] then .ok (false, [r], offset + 32)
        else growTo [r] ps.length >>= fun rs => decodeValues buf dec rs offset (offset + 32) := by
  obtain ⟨hword, hset⟩ := h.split
  rw [SolidityAbi.length_word] at hset
  have hcount : ps.length < 2 ^ 63 := by
    have := length_le_length_encode hread
    have := hset.lt
    omega
  have hval : (uint256OfInt (ps.length : Int)).val = ps.length := uint256OfInt_natCast (by omega)
  refine ⟨hset, ?_⟩
  rw [Abi.decodeElems, if_pos rfl, hword.decodeWord]
  simp only [hval, sizeT_of_lt (Nat.lt_trans hcount (by decide)), ne_eq, not_true_eq_false,
    if_false, List.length_singleton]
  by_cases hempty : ps = []
  · rw [if_pos hempty, if_pos (.inr (by simp [hempty]))]
  · have hpos : 1 ≤ ps.length := List.length_pos_iff.mpr hempty
    rw [if_neg hempty, if_neg (by omega)]

theorem Param.readBack_array {buf : Bytes} {ps : List Param} (hne : ps ≠ [])
    (hdec : ∀ p ∈ ps, p.decodable = true) (ih : ∀ p ∈ ps, ReadBack buf p) :
    ReadBack buf (.array ps) := by
  rintro t r fuel ⟨e, rfl, helems⟩ hr hproto hfuel
  obtain ⟨r, fuel, rfl, rfl, hre, hr1, hdepth⟩ := receiver_array hr hproto hfuel
  -- The grown receiver: as many prototypes as there are encoded elements.
  obtain ⟨rs, hgrow, hlen, hrep⟩ := growTo_prototype hr1 (List.length_pos_iff.mpr hne)
  have hreads : ∀ p ∈ ps, ∀ r' ∈ rs, Reads buf (Param.decodeTo buf fuel) p r' := by
    intro p hp r' hr'
    have h := hrep r' hr'
    exact ih p hp e r' fuel (elemsHaveTy_iff.mp helems p hp) (h.hasTy e hre) h.prototype
      (Nat.le_trans h.depth_le hdepth)
  refine Reads.leaf _ rfl (Param.encode_array ps) fun offset hat => ?_
  obtain ⟨hset, helemsRead⟩ :=
    hat.decodeElems (fun p hp => p.readable_of_decodable (hdec p hp)) (Param.decodeTo buf fuel) r
  obtain ⟨rs', hrs', hholds⟩ :=
    decodeValues_reads hdec hlen.symm hreads offset 32 (Nat.dvd_refl 32) hset
  obtain ⟨hvals, htys, _⟩ := holds_of_forall₂ hholds
  refine ⟨.array rs', ?_, ⟨?_, ?_, rfl⟩⟩
  · rw [Param.decodeTo, helemsRead, if_neg hne, hgrow]
    simp only [bind, Except.bind, hrs']
    rw [List.length_append, SolidityAbi.length_word, Nat.add_assoc]
  · rw [Param.toVal, Param.toVal, hvals]
  · rintro t ⟨e', rfl, he'⟩
    exact ⟨e', rfl, htys e' he'⟩

/-- Every decodable parameter is read back. -/
theorem Param.readBack (buf : Bytes) (p : Param) (hdec : p.decodable = true) : ReadBack buf p := by
  -- Every leaf has a lemma about its bytes; only arrays need the hypotheses for their elements.
  induction p using Param.inductionOn with
  | number nt val =>
    rintro t r fuel rfl hr _ _
    obtain ⟨nt', val', rfl, hnt⟩ := number_of_hasTy hr
    refine Reads.leaf (word val.1) rfl ?_ fun offset hat => ?_
    · rw [Param.encode, encodeUInt256_uint256OfInt, List.nil_append]
    refine ⟨.number nt' (nt'.ofUInt256 (uint256OfInt val.1)), ?_, ⟨?_, ?_, rfl⟩⟩
    · rw [Param.decodeTo, hat.decodeWord, SolidityAbi.length_word]
    · show Val.num (nt'.castDown (uint256OfInt val.1)) = Val.num val.1
      -- The receiver may be of another C++ type for the same ABI type.
      rw [castDown_congr hnt, castDown_uint256OfInt hdec]
    · rintro t rfl
      exact hnt.symm
  | uintN bits val =>
    rintro t r fuel rfl hr _ _
    obtain ⟨val', rfl⟩ := uintN_of_hasTy hr
    refine Reads.leaf (word (val.val : Int)) rfl ?_ fun offset hat => ?_
    · rw [Param.encode, encodeUInt256_uint256, List.nil_append]
    refine ⟨.uintN bits val, ?_, ⟨rfl, fun t ht => ht, rfl⟩⟩
    rw [Param.decodeTo, hat.decodeWord, SolidityAbi.length_word]
    simp only [uintNSetVal_uint256]
  | intN bits val =>
    rintro t r fuel rfl hr _ _
    obtain ⟨val', rfl⟩ := intN_of_hasTy hr
    refine Reads.leaf (word val.1) rfl ?_ fun offset hat => ?_
    · rw [Param.encode, encodeUInt256_uint256OfInt, List.nil_append]
    refine ⟨.intN bits val, ?_, ⟨rfl, fun t ht => ht, rfl⟩⟩
    rw [Param.decodeTo, hat.decodeWord, SolidityAbi.length_word]
    simp only [intNSetVal_of_mem]
  | address val =>
    rintro t r fuel rfl hr _ _
    obtain ⟨val', rfl⟩ := address_of_hasTy hr
    refine Reads.leaf (word (val.val : Int)) rfl ?_ fun offset hat => ?_
    · rw [Param.encode, encodeUInt256_uint256, List.nil_append]
    have hlt := val.isLt
    have hval : (uint256OfInt (val.val : Int)).val = val.val := uint256OfInt_natCast (by omega)
    refine ⟨.address val, ?_, ⟨rfl, fun t ht => ht, rfl⟩⟩
    rw [Param.decodeTo, hat.decodeWord, SolidityAbi.length_word]
    simp only [hval, Nat.mod_eq_of_lt hlt]
  | byteArray bytes =>
    rintro t r fuel rfl hr _ _
    obtain ⟨bytes', rfl⟩ := byteArray_of_hasTy hr
    refine Reads.leaf (word bytes.length ++ padRight bytes) rfl ?_ fun offset hat => ?_
    · rw [Param.encode, encodeBytes_eq, List.nil_append]
    refine ⟨.byteArray bytes, ?_, ⟨rfl, fun t ht => ht, rfl⟩⟩
    rw [Param.decodeTo, hat.decodeBytes]
    rfl
  | byteArrayFix n bytes =>
    rintro t r fuel rfl hr hproto _
    obtain ⟨bytes', rfl⟩ := byteArrayFix_of_hasTy hr
    simp only [Param.decodable, Param.prototype, decide_eq_true_eq] at hdec hproto
    -- Only values as long as the type says are decodable.
    obtain ⟨_, _, rfl⟩ := hdec
    refine Reads.leaf (padRight bytes) rfl ?_ fun offset hat => ?_
    · rw [Param.encode, encodeBytesFix_eq, List.nil_append]
    refine ⟨.byteArrayFix bytes.length bytes, ?_, ⟨rfl, fun t ht => ht, rfl⟩⟩
    rw [Param.decodeTo, (At.split (a := bytes) hat).1.decodeBytesFix _ hproto.2.2, length_padRight]
  | string str =>
    rintro t r fuel rfl hr _ _
    obtain ⟨str', rfl⟩ := string_of_hasTy hr
    refine Reads.leaf (word str.length ++ padRight str) rfl ?_ fun offset hat => ?_
    · rw [Param.encode, encodeBytes_eq, List.nil_append]
    refine ⟨.string str, ?_, ⟨rfl, fun t ht => ht, rfl⟩⟩
    rw [Param.decodeTo, hat.decodeBytes]
    rfl
  | array ps ih =>
    obtain ⟨hne, hall⟩ := decodable_array_iff.mp hdec
    exact Param.readBack_array hne hall fun p hp => ih p hp (hall p hp)
  -- Fixed arrays and tuples are not decodable.
  | arrayFix ps _ => exact absurd hdec (by simp [Param.decodable])
  | parameters ps _ => exact absurd hdec (by simp [Param.decodable])

/-! ### Top-level parameters -/

theorem receiver_arrayFix_iff {rs : List Param} :
    (Param.arrayFix rs).receiver = true ↔ ∀ r ∈ rs, r.prototype = true := List.all_eq_true

theorem decodableTop_arrayFix_iff {ps : List Param} :
    (Param.arrayFix ps).decodableTop = true ↔
      ps ≠ [] ∧ ∀ p ∈ ps, p.decodable = true ∧ p.isDynamic = false := by
  rw [Param.decodableTop, Bool.and_eq_true, List.all_eq_true]
  cases ps <;> simp

theorem depth_le_maxDepth {ps : List Param} {p : Param} (hp : p ∈ ps) : p.depth ≤ maxDepth ps := by
  induction ps with
  | nil => exact absurd hp List.not_mem_nil
  | cons q qs ih =>
    simp only [maxDepth]
    rcases List.mem_cons.mp hp with rfl | hp
    · omega
    · have := ih hp
      omega

theorem Param.reads_arrayFix {buf : Bytes} {ps rs : List Param} {e : Ty} {fuel : Nat}
    (hps : ∀ p ∈ ps, p.HasTy e) (hrs : ∀ r ∈ rs, r.HasTy e) (hlen : rs.length = ps.length)
    (hdec : (Param.arrayFix ps).decodableTop = true)
    (hrec : (Param.arrayFix rs).receiver = true) (hfuel : (Param.arrayFix rs).depth ≤ fuel) :
    Reads buf (Param.decodeTo buf fuel) (.arrayFix ps) (.arrayFix rs) := by
  obtain ⟨hne, hall⟩ := decodableTop_arrayFix_iff.mp hdec
  have hproto := receiver_arrayFix_iff.mp hrec
  obtain ⟨fuel, rfl⟩ : ∃ f, fuel = f + 1 := by
    simp only [Param.depth] at hfuel
    exact ⟨fuel - 1, by omega⟩
  have hreads : ∀ p ∈ ps, ∀ r ∈ rs, Reads buf (Param.decodeTo buf fuel) p r := by
    intro p hp r hr
    have hdepth := depth_le_maxDepth hr
    simp only [Param.depth] at hfuel
    exact p.readBack buf (hall p hp).1 e r fuel (hps p hp) (hrs r hr) (hproto r hr) (by omega)
  -- Both arrays have a first element, and it decides that they are static.
  obtain ⟨p, ps', rfl⟩ := List.exists_cons_of_ne_nil hne
  obtain ⟨r, rs', rfl⟩ : ∃ r rs', rs = r :: rs' :=
    List.exists_cons_of_length_pos (by rw [hlen]; simp)
  have hpd := (hall p List.mem_cons_self).2
  have hrd : r.isDynamic = false := by
    rw [(hreads p List.mem_cons_self r List.mem_cons_self).isDynamic_eq, hpd]
  have hchunk : (Param.arrayFix (p :: ps')).encode [] = ParamSet.encode (p :: ps') [] := by
    rw [Param.encode, ← ParamSet.encode]
  refine Reads.leaf _ (hrd.trans hpd.symm) hchunk fun offset hat => ?_
  obtain ⟨out, hout, hholds⟩ := decodeValues_reads (fun q hq => (hall q hq).1) hlen.symm hreads
    offset 0 (Nat.dvd_zero 32) hat
  obtain ⟨hvals, htys, hlen'⟩ := holds_of_forall₂ hholds
  refine ⟨.arrayFix out, ?_, ⟨?_, ?_, ?_⟩⟩
  · rw [Param.decodeTo, decodeElems, firstIsDynamic, hrd, if_neg (by decide)]
    rw [Nat.add_zero] at hout
    simp only [hout, bind, Except.bind]
  · rw [Param.toVal, Param.toVal, hvals]
  · rintro t ⟨e', rfl, he'⟩
    exact ⟨e', by rw [hlen'], htys e' he'⟩
  · cases hholds with
    | cons hp _ => exact hp.isDynamic_eq

theorem Param.laid_of_decodableTop {p : Param} (h : p.decodableTop = true) : p.Laid := by
  cases p with
  | arrayFix ps =>
    obtain ⟨hne, hall⟩ := decodableTop_arrayFix_iff.mp h
    apply Param.laid_of_regular
    · rw [Param.wellFormed, Bool.and_eq_true, allWellFormed_iff]
      refine ⟨?_, fun p hp => (p.facts_of_decodable (hall p hp).1).1⟩
      cases ps with
      | nil => exact absurd rfl hne
      | cons p ps => rfl
    · rw [Param.regular, regularElems_iff]
      intro p hp
      obtain ⟨_, hreg, hword⟩ := p.facts_of_decodable (hall p hp).1
      exact ⟨hword, hreg⟩
  | _ => exact Param.laid_of_decodable h

/-- Every top-level parameter is read back into a receiver of its type. -/
theorem Param.reads_top {buf : Bytes} {p r : Param} {t : Ty} {fuel : Nat}
    (hp : p.HasTy t) (hr : r.HasTy t) (hdec : p.decodableTop = true) (hrec : r.receiver = true)
    (hfuel : r.depth ≤ fuel) : Reads buf (Param.decodeTo buf fuel) p r := by
  by_cases hfix : ∃ ps, p = .arrayFix ps
  · obtain ⟨ps, rfl⟩ := hfix
    obtain ⟨e, rfl, helems⟩ := hp
    obtain ⟨rs, rfl, hlen, hrs⟩ := arrayFix_of_hasTy hr
    exact Param.reads_arrayFix (elemsHaveTy_iff.mp helems) hrs hlen hdec hrec hfuel
  · have hdec' : p.decodable = true := by
      cases p with
      | arrayFix ps => exact absurd ⟨ps, rfl⟩ hfix
      | _ => exact hdec
    have hproto : r.prototype = true := by
      cases r with
      | arrayFix rs =>
        -- A fixed array would make the type, and so `p`, one too.
        obtain ⟨e, rfl, _⟩ := hr
        obtain ⟨ps, rfl, _⟩ := arrayFix_of_hasTy hp
        exact absurd ⟨ps, rfl⟩ hfix
      | _ => exact hrec
    exact p.readBack buf hdec' t r fuel hp hr hproto hfuel

/-! ### Type texts of receivers -/

theorem Param.named_of_decodable (p : Param) (h : p.decodable = true) : p.named = true := by
  induction p using Param.inductionOn with
  | array ps ih =>
    obtain ⟨hne, hall⟩ := decodable_array_iff.mp h
    cases ps with
    | nil => exact absurd rfl hne
    | cons p ps => exact ih p List.mem_cons_self (hall p List.mem_cons_self)
  | arrayFix ps _ => exact absurd h (by simp [Param.decodable])
  | parameters ps _ => exact absurd h (by simp [Param.decodable])
  | _ => rfl

theorem Param.named_of_decodableTop {p : Param} (h : p.decodableTop = true) : p.named = true := by
  cases p with
  | arrayFix ps =>
    obtain ⟨hne, hall⟩ := decodableTop_arrayFix_iff.mp h
    cases ps with
    | nil => exact absurd rfl hne
    | cons p ps => exact p.named_of_decodable (hall p List.mem_cons_self).1
  | _ => exact Param.named_of_decodable _ h

theorem Param.named_of_prototype (r : Param) (h : r.prototype = true) : r.named = true := by
  induction r using Param.inductionOn with
  | array rs ih =>
    obtain ⟨r, rfl, hr⟩ := onePrototype_iff.mp h
    exact ih r List.mem_cons_self hr
  | arrayFix rs _ => exact absurd h (by simp [Param.prototype])
  | parameters rs _ => exact absurd h (by simp [Param.prototype])
  | _ => rfl

/-- The receiver of a parameter has the same type text. -/
theorem Param.getType_receiver {p r : Param} {t : Ty} (hp : p.HasTy t) (hr : r.HasTy t)
    (hdec : p.decodableTop = true) (hrec : r.receiver = true) : r.getType = p.getType := by
  have hpn := Param.named_of_decodableTop hdec
  have hrn : r.named = true := by
    cases r with
    | arrayFix rs =>
      -- The receiver is as long as the array it receives, so it is not empty.
      obtain ⟨e, rfl, _⟩ := hr
      obtain ⟨ps, rfl, hlen, _⟩ := arrayFix_of_hasTy hp
      have hne := (decodableTop_arrayFix_iff.mp hdec).1
      cases rs with
      | nil => exact absurd (List.length_eq_zero_iff.mp hlen) hne
      | cons r rs => exact r.named_of_prototype (receiver_arrayFix_iff.mp hrec r List.mem_cons_self)
    | _ => exact Param.named_of_prototype _ hrec
  rw [r.getType_eq_typeText hrn t hr, p.getType_eq_typeText hpn t hp]

/-! ### Sets and functions -/

/-- A parameter to be encoded and the object it is to be read into. -/
structure Pairs (p r : Param) (t : Ty) : Prop where
  sent : p.HasTy t
  expected : r.HasTy t
  decodable : p.decodableTop = true
  receiver : r.receiver = true

/-- The receiver holds exactly what was sent. -/
def Received (ps rs' : List Param) (ts : List Ty) : Prop :=
  rs'.map Param.toVal = ps.map Param.toVal ∧ List.Forall₂ Param.HasTy rs' ts

section Sets

variable {ps rs : List Param} {ts : List Ty} (hsent : List.Forall₂ Param.HasTy ps ts)
  (hexpected : List.Forall₂ Param.HasTy rs ts) (hdec : ∀ p ∈ ps, p.decodableTop = true)
  (hrec : ∀ r ∈ rs, r.receiver = true)
include hsent hexpected hdec hrec

private theorem forall₂_pairs :
    List.Forall₂ (fun p r => ∃ t, Pairs p r t ∧ r ∈ rs) ps rs := by
  suffices h : ∀ rs', (∀ r ∈ rs', r ∈ rs) → List.Forall₂ Param.HasTy rs' ts →
      List.Forall₂ (fun p r => ∃ t, Pairs p r t ∧ r ∈ rs) ps rs' from
    h rs (fun _ hr => hr) hexpected
  clear hexpected
  induction hsent with
  | nil =>
    intro rs' _ h
    cases h
    exact .nil
  | @cons p t ps ts hp _ ih =>
    intro rs' hmem h
    cases h with
    | @cons r _ rs' _ hr hrs =>
      rw [List.forall_mem_cons] at hdec
      have hrmem := hmem r List.mem_cons_self
      refine .cons ⟨t, ⟨hp, hr, hdec.1, hrec r hrmem⟩, hrmem⟩ ?_
      exact ih hdec.2 rs' (fun q hq => hmem q (List.mem_cons_of_mem _ hq)) hrs

private theorem decodeSet_received (buf : Bytes) (offset : Nat)
    (hat : At buf offset (ParamSet.encode ps [])) :
    ∃ rs', ParamSet.decode buf rs offset =
        .ok (true, rs', offset + (ParamSet.encode ps []).length) ∧ Received ps rs' ts := by
  have hpairs := forall₂_pairs hsent hexpected hdec hrec
  have hreads : List.Forall₂ (Reads buf (Param.decodeTo buf (maxDepth rs))) ps rs := by
    refine hpairs.imp fun p r hpair => ?_
    obtain ⟨t, h, hr⟩ := hpair
    exact Param.reads_top h.sent h.expected h.decodable h.receiver (depth_le_maxDepth hr)
  obtain ⟨rs', hrs', hholds⟩ :=
    decodeSet_reads (fun p hp => Param.laid_of_decodableTop (hdec p hp)) hreads offset hat
  refine ⟨rs', hrs', ?_, ?_⟩
  · have hvals := (holds_of_forall₂ hholds).1
    rwa [toVals_eq_map, toVals_eq_map] at hvals
  · clear hpairs hreads hrs' hexpected hdec hat
    induction hholds generalizing ts with
    | nil => cases hsent; exact .nil
    | cons hp _ ih =>
      cases hsent with
      | cons ht hts => exact .cons (hp.hasTy _ ht) (ih hts)

end Sets

/-- `ParamSet::decode` undoes `ParamSet::encode` at any position of a buffer, and
    `Function::decodeInput` undoes `Function::encode`. -/
theorem decode_encode (ps rs : List Param) (ts : List Ty)
    (hsent : List.Forall₂ Param.HasTy ps ts) (hexpected : List.Forall₂ Param.HasTy rs ts)
    (hdec : ∀ p ∈ ps, p.decodableTop = true) (hrec : ∀ r ∈ rs, r.receiver = true) :
    (∀ (buf : Bytes) (pre post : Data), buf.toList = pre ++ ParamSet.encode ps [] ++ post →
      ∃ rs', ParamSet.decode buf rs pre.length =
          .ok (true, rs', pre.length + (ParamSet.encode ps []).length) ∧ Received ps rs' ts) ∧
    (∀ (keccak256 : Function.Keccak) (name : Str) (outParams outParams' : List Param)
      (buf : Bytes) (pre post : Data),
      buf.toList = pre ++ Function.encode keccak256 ⟨name, ps, outParams⟩ [] ++ post →
      ∃ rs', Function.decodeInput keccak256 ⟨name, rs, outParams'⟩ buf pre.length =
          .ok (true, ⟨name, rs', outParams'⟩,
            pre.length + (Function.encode keccak256 ⟨name, ps, outParams⟩ []).length) ∧
        Received ps rs' ts) := by
  refine ⟨fun buf pre post hbuf => ?_, fun keccak256 name outs outs' buf pre post hbuf => ?_⟩
  · exact decodeSet_received hsent hexpected hdec hrec buf pre.length (at_append hbuf)
  · -- Both objects have the same type text, so the same signature.
    have htypes : List.Forall₂ (fun p r => r.getType = p.getType) ps rs := by
      refine (forall₂_pairs hsent hexpected hdec hrec).imp fun p r hpair => ?_
      obtain ⟨t, h, _⟩ := hpair
      exact Param.getType_receiver h.sent h.expected h.decodable h.receiver
    have hsig : Function.getSignature keccak256 ⟨name, rs, outs'⟩ =
        Function.getSignature keccak256 ⟨name, ps, outs⟩ := by
      rw [Function.getSignature, Function.getSignature, Function.getType, Function.getType,
        ParamSet.getType_congr htypes]
    have hlen : (Function.getSignature keccak256 ⟨name, ps, outs⟩).length = 4 := by
      rw [Function.getSignature, List.length_take, List.Vector.toList_length]
      rfl
    have hcode : Function.encode keccak256 ⟨name, ps, outs⟩ [] =
        Function.getSignature keccak256 ⟨name, ps, outs⟩ ++ ParamSet.encode ps [] := by
      rw [Function.encode, List.nil_append, ParamSet.encode_append]
    rw [hcode] at hbuf ⊢
    generalize Function.getSignature keccak256 ⟨name, ps, outs⟩ = sig at hbuf hlen hsig ⊢
    obtain ⟨hhash, hset⟩ := (at_append hbuf).split
    rw [hlen] at hset
    obtain ⟨rs', hrs', hreceived⟩ :=
      decodeSet_received hsent hexpected hdec hrec buf (pre.length + 4) hset
    refine ⟨rs', ?_, hreceived⟩
    have hread := hhash.decodeBytesFix (List.replicate 4 0) (by simp [hlen])
    rw [hlen, show paddedTo32 4 = 32 from rfl] at hread
    -- The offset is rounded up past the signature, then set right behind it.
    have hback : sizeT (sizeSub (pre.length + 32) 32 + 4) = pre.length + 4 := by
      have hlt := hset.lt
      rw [sizeSub_of_le (by omega) (by omega), sizeT_of_lt (by omega)]
      omega
    rw [Function.decodeInput, hread]
    simp only [Bool.not_true, Bool.false_eq_true, if_false, hback, hsig, ne_eq, not_true_eq_false,
      hrs', bind, Except.bind]
    rw [List.length_append, hlen, Nat.add_assoc]

/-- An object for the arguments of `sam` to be read into. -/
def samReceiver : List Param :=
  [.byteArray [], .number .bool (NumberType.ofUInt256 _ (uint256 0)),
    .array [.number .uint256 (NumberType.ofUInt256 _ (uint256 0))]]

/-- The Keccak-256 of `sam(bytes,bool,uint256[])`. -/
def samKeccak : Function.Keccak := fun _ =>
  ⟨[165, 100, 59, 242, 126, 39, 134, 129, 102, 19, 211, 238, 176, 182, 38, 80, 32, 11, 90, 152,
    118, 109, 252, 253, 68, 40, 242, 150, 251, 86, 208, 67], rfl⟩

/-- A call of `sam` behind one other byte. -/
def samCall : Bytes :=
  ⟨0 :: Function.encode samKeccak ⟨"sam".toList, samArgs, []⟩ [], by decide +kernel⟩

theorem decode_encode_samArgs :
    (∃ rs', ParamSet.decode samCall samReceiver 5 =
        .ok (true, rs', 5 + (ParamSet.encode samArgs []).length) ∧
      Received samArgs rs' [.bytes, .bool, .array (.uint 256)]) ∧
    (∃ rs', Function.decodeInput samKeccak ⟨"sam".toList, samReceiver, []⟩ samCall 1 =
        .ok (true, ⟨"sam".toList, rs', []⟩,
          1 + (Function.encode samKeccak ⟨"sam".toList, samArgs, []⟩ []).length) ∧
      Received samArgs rs' [.bytes, .bool, .array (.uint 256)]) := by
  have h := decode_encode samArgs samReceiver [.bytes, .bool, .array (.uint 256)]
    (.cons rfl (.cons rfl (.cons ⟨_, rfl, rfl, rfl, trivial⟩ .nil)))
    (.cons rfl (.cons rfl (.cons ⟨_, rfl, rfl, trivial⟩ .nil))) (by decide) (by decide)
  have hset := h.1 samCall [0, 165, 100, 59, 242] [] (by decide +kernel)
  have hfun := h.2 samKeccak "sam".toList [] [] samCall [0] [] (by decide +kernel)
  simp only [List.length_cons, List.length_nil, Nat.zero_add, Nat.reduceAdd] at hset hfun
  exact ⟨hset, hfun⟩

end ConfluxSdk.Abi
