import ConfluxSdk.Spec.AbiSizeCorrect

/-!
# ParamSet::encode conforms to the Solidity ABI

A parameter object stands for a value (`Param.toVal`) of an ABI type
(`Param.HasTy`). The type is a relation: an empty `ParamArray` stands for the
empty array of every element type.

The four functions the encoder predicts offsets from (`getSize`, `getHeadSize`,
`isDynamic`, `isFixArray`) agree with the type for regular parameters, so the
encoder writes what the ABI prescribes (`ParamSet.encode_eq_encArgs`).
-/

namespace ConfluxSdk.Abi

open SolidityAbi (Ty Val enc encArgs elemParts memberParts)

/-! ### Types and values of parameters -/

/-- The ABI type a numeric parameter class stands for. -/
def NumberType.solType : NumberType → Ty
  | uint256 | uint => .uint 256
  | int256 => .int 256
  | bool => .bool
  | uint8 => .uint 8
  | int8 => .int 8
  | uint16 => .uint 16
  | int16 => .int 16
  | uint32 => .uint 32
  | int32 => .int 32
  | uint64 => .uint 64
  | int64 => .int 64

mutual
/-- The value a parameter object holds. -/
def Param.toVal : Param → Val
  | .number _ val => .num val.1
  | .uintN _ val => .num val.val
  | .intN _ val => .num val.1
  | .address val => .num val.val
  | .byteArray bytes => .bytes bytes
  | .byteArrayFix _ bytes => .bytes bytes
  | .string str => .bytes str
  | .array ps | .arrayFix ps | .parameters ps => .seq (toVals ps)

def toVals : List Param → List Val
  | [] => []
  | p :: ps => p.toVal :: toVals ps
end

mutual
/-- The object holds a value of the type. -/
def Param.HasTy : Param → Ty → Prop
  | .number nt _, t => t = nt.solType
  | .uintN bits _, t => t = .uint bits.val
  | .intN bits _, t => t = .int bits.val
  | .address _, t => t = .address
  | .byteArray _, t => t = .bytes
  | .byteArrayFix n _, t => t = .bytesN n
  | .string _, t => t = .string
  | .array ps, t => ∃ e, t = .array e ∧ ElemsHaveTy ps e
  | .arrayFix ps, t => ∃ e, t = .fixArray e ps.length ∧ ElemsHaveTy ps e
  | .parameters ps, t => ∃ ts, t = .tuple ts ∧ MembersHaveTy ps ts

def ElemsHaveTy : List Param → Ty → Prop
  | [], _ => True
  | p :: ps, t => p.HasTy t ∧ ElemsHaveTy ps t

def MembersHaveTy : List Param → List Ty → Prop
  | [], [] => True
  | p :: ps, t :: ts => p.HasTy t ∧ MembersHaveTy ps ts
  | _, _ => False
end

mutual
/-- No `Parameters` object occurs in the tree. -/
def Param.tupleFree : Param → Bool
  | .array ps | .arrayFix ps => allTupleFree ps
  | .parameters _ => false
  | _ => true

def allTupleFree : List Param → Bool
  | [] => true
  | p :: ps => p.tupleFree && allTupleFree ps
end

theorem toVals_eq_map (ps : List Param) : toVals ps = ps.map Param.toVal := by
  induction ps with
  | nil => rfl
  | cons p ps ih => rw [toVals, ih, List.map_cons]

theorem elemsHaveTy_iff {ps : List Param} {t : Ty} :
    ElemsHaveTy ps t ↔ ∀ p ∈ ps, p.HasTy t := by
  induction ps with
  | nil => simp [ElemsHaveTy]
  | cons p ps ih => rw [ElemsHaveTy, ih, List.forall_mem_cons]

theorem membersHaveTy_iff {ps : List Param} {ts : List Ty} :
    MembersHaveTy ps ts ↔ List.Forall₂ Param.HasTy ps ts := by
  induction ps generalizing ts with
  | nil => cases ts <;> simp [MembersHaveTy]
  | cons p ps ih => cases ts <;> simp [MembersHaveTy, ih]

theorem allTupleFree_iff {ps : List Param} :
    allTupleFree ps = true ↔ ∀ p ∈ ps, p.tupleFree = true := by
  induction ps with
  | nil => simp [allTupleFree]
  | cons p ps ih => simp [allTupleFree, ih]

/-! ### Parts of a layout -/

/-- The parameter is dynamic when its type is, and encodes to what the ABI says. -/
structure Conforms (p : Param) (t : Ty) : Prop where
  isDynamic_eq : p.isDynamic = t.isDynamic
  encode_eq : p.encode [] = enc t p.toVal

theorem Conforms.part_eq {p : Param} {t : Ty} (h : Conforms p t) :
    p.part = ⟨t.isDynamic, enc t p.toVal⟩ := by
  rw [Param.part, h.isDynamic_eq, h.encode_eq]

private theorem map_part_eq_elemParts {ps : List Param} {t : Ty}
    (h : ∀ p ∈ ps, Conforms p t) : ps.map Param.part = elemParts t (toVals ps) := by
  induction ps with
  | nil => rfl
  | cons p ps ih =>
    rw [List.map_cons, toVals, elemParts, (h p List.mem_cons_self).part_eq,
      ih fun q hq => h q (List.mem_cons_of_mem _ hq)]

private theorem map_part_eq_memberParts {ps : List Param} {ts : List Ty}
    (h : List.Forall₂ Conforms ps ts) :
    ps.map Param.part = memberParts ts (ps.map Param.toVal) := by
  induction h with
  | nil => rfl
  | cons hp _ ih => rw [List.map_cons, List.map_cons, memberParts, hp.part_eq, ih]

/-! ### Every parameter -/

private theorem enc_number (nt : NumberType) (x : Int) :
    enc nt.solType (.num x) = SolidityAbi.word x := by
  cases nt <;> rfl

private theorem encode_elems {ps : List Param} {e : Ty} (hwf : ∀ p ∈ ps, p.wellFormed = true)
    (hreg : regularElems ps = true) (h : ∀ p ∈ ps, Conforms p e) :
    ParamSet.encode ps [] = HeadTail.layout SolidityAbi.pointer 32 (elemParts e (toVals ps)) := by
  have hlaid : ∀ p ∈ ps, p.Laid := fun p hp =>
    Param.laid_of_regular (hwf p hp) (regularElems_iff.mp hreg p hp).2
  rw [ParamSet.encode_eq_layout ps hlaid, List.nil_append, map_part_eq_elemParts h]

theorem Param.conforms (p : Param) (t : Ty) (hty : p.HasTy t) (hwf : p.wellFormed = true)
    (hreg : p.regular = true) (htf : p.tupleFree = true) : Conforms p t := by
  induction p using Param.inductionOn generalizing t with
  | number nt val =>
    obtain rfl : t = nt.solType := hty
    refine ⟨by cases nt <;> rfl, ?_⟩
    rw [Param.encode, Param.toVal, encodeUInt256_uint256OfInt, enc_number, List.nil_append]
  | uintN bits val =>
    obtain rfl : t = .uint bits.val := hty
    exact ⟨rfl, by rw [Param.encode, Param.toVal, enc, encodeUInt256_uint256, List.nil_append]⟩
  | intN bits val =>
    obtain rfl : t = .int bits.val := hty
    exact ⟨rfl, by rw [Param.encode, Param.toVal, enc, encodeUInt256_uint256OfInt, List.nil_append]⟩
  | address val =>
    obtain rfl : t = .address := hty
    exact ⟨rfl, by rw [Param.encode, Param.toVal, enc, encodeUInt256_uint256, List.nil_append]⟩
  | byteArray bytes =>
    obtain rfl : t = .bytes := hty
    exact ⟨rfl, by rw [Param.encode, Param.toVal, enc, encodeBytes_eq, List.nil_append]⟩
  | byteArrayFix n bytes =>
    obtain rfl : t = .bytesN n := hty
    exact ⟨rfl, by rw [Param.encode, Param.toVal, enc, encodeBytesFix_eq, List.nil_append]⟩
  | string str =>
    obtain rfl : t = .string := hty
    exact ⟨rfl, by rw [Param.encode, Param.toVal, enc, encodeBytes_eq, List.nil_append]⟩
  | array ps ih =>
    obtain ⟨e, rfl, helems⟩ := hty
    have hwf' := allWellFormed_iff.mp hwf
    have h : ∀ p ∈ ps, Conforms p e := fun p hp =>
      ih p hp e (elemsHaveTy_iff.mp helems p hp) (hwf' p hp)
        (regularElems_iff.mp hreg p hp).2 (allTupleFree_iff.mp htf p hp)
    refine ⟨rfl, ?_⟩
    -- The length word, then the layout of the elements.
    have hlen : ps.length = (toVals ps).length := by rw [toVals_eq_map, List.length_map]
    rw [Param.encode_array, encode_elems hwf' hreg h, hlen]
    rfl
  | arrayFix ps ih =>
    obtain ⟨e, rfl, helems⟩ := hty
    rw [Param.wellFormed, Bool.and_eq_true] at hwf
    have hwf' := allWellFormed_iff.mp hwf.2
    have h : ∀ p ∈ ps, Conforms p e := fun p hp =>
      ih p hp e (elemsHaveTy_iff.mp helems p hp) (hwf' p hp)
        (regularElems_iff.mp hreg p hp).2 (allTupleFree_iff.mp htf p hp)
    refine ⟨?_, encode_elems hwf' hreg h⟩
    -- The first element, which decides for the whole array, exists.
    cases ps with
    | nil => exact absurd hwf.1 (by decide)
    | cons p ps => exact (h p List.mem_cons_self).isDynamic_eq
  | parameters ps ih => exact absurd htf (by simp [Param.tupleFree])

theorem forall₂_conforms {ps : List Param} {ts : List Ty} (hty : List.Forall₂ Param.HasTy ps ts)
    (hwf : ∀ p ∈ ps, p.wellFormed = true) (hreg : ∀ p ∈ ps, p.regular = true)
    (htf : ∀ p ∈ ps, p.tupleFree = true) : List.Forall₂ Conforms ps ts := by
  induction hty with
  | nil => exact .nil
  | cons hp _ ih =>
    simp only [List.forall_mem_cons] at hwf hreg htf
    exact .cons (Param.conforms _ _ hp hwf.1 hreg.1 htf.1) (ih hwf.2 hreg.2 htf.2)

/-- Conforming members are laid out as the ABI lays out their values. -/
theorem encode_of_conforms {ps : List Param} {ts : List Ty} (h : List.Forall₂ Conforms ps ts)
    (hlaid : ∀ p ∈ ps, p.Laid) (data : Data) :
    ParamSet.encode ps data = data ++ encArgs ts (ps.map Param.toVal) := by
  rw [ParamSet.encode_eq_layout ps hlaid, map_part_eq_memberParts h]
  rfl

/-- `ParamSet::encode` appends the ABI encoding of the argument list, and every
    offset word in it is the distance from the start of the heads to its tail. -/
theorem ParamSet.encode_eq_encArgs (ps : List Param) (ts : List Ty)
    (hty : List.Forall₂ Param.HasTy ps ts) (hwf : ∀ p ∈ ps, p.wellFormed = true)
    (hreg : ∀ p ∈ ps, p.regular = true) (htf : ∀ p ∈ ps, p.tupleFree = true) (data : Data) :
    ParamSet.encode ps data = data ++ encArgs ts (ps.map Param.toVal) ∧ OffsetsExact ps := by
  have hlaid : ∀ p ∈ ps, p.Laid := fun p hp => Param.laid_of_regular (hwf p hp) (hreg p hp)
  exact ⟨encode_of_conforms (forall₂_conforms hty hwf hreg htf) hlaid data,
    offsetsExact_of_laid hlaid⟩

/-- The argument list of `sam("dave", true, [1, 2])`. -/
def samArgs : List Param :=
  [.byteArray [100, 97, 118, 101], .number .bool (NumberType.ofUInt256 _ (uint256 1)),
    .array [.number .uint256 (NumberType.ofUInt256 _ (uint256 1)),
      .number .uint256 (NumberType.ofUInt256 _ (uint256 2))]]

theorem encode_samArgs :
    ParamSet.encode samArgs [] =
        encArgs [.bytes, .bool, .array (.uint 256)] (samArgs.map Param.toVal) ∧
      OffsetsExact samArgs :=
  ParamSet.encode_eq_encArgs samArgs [.bytes, .bool, .array (.uint 256)]
    (.cons rfl (.cons rfl (.cons ⟨_, rfl, rfl, rfl, trivial⟩ .nil)))
    (by decide) (by decide) (by decide) []

end ConfluxSdk.Abi
