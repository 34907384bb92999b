import ConfluxSdk.Native.AbiDecode
import ConfluxSdk.ForStd.Except
import ConfluxSdk.Spec.AbiEncodeCorrect

/-!
# Objects made from the type of another object

`ParamArray::decode` fills the array up with `ParamFactory::make(first->getType())`.
The type text identifies enough of the first element for the new object to take
its place: it has the same ABI type and is no deeper nested.

## Key results

- `make_getType`: for a prototype, the factory makes another prototype of the
  same type
- `depth_le_of_make_getType`: whatever the factory makes is no deeper than the
  object the type was taken from
-/

namespace ConfluxSdk.Abi

open SolidityAbi (Ty)

mutual
/-- An object the decoder can write to: every `ParamArray` in it holds just one
    element, and a fixed byte array has no more bytes than its type says. -/
def Param.prototype : Param → Bool
  | .number .. | .uintN .. | .intN .. | .address _ | .byteArray _ | .string _ => true
  | .byteArrayFix n bytes => decide (1 ≤ n ∧ n ≤ 32 ∧ bytes.length ≤ n)
  | .array ps => onePrototype ps
  | .arrayFix _ | .parameters _ => false

def onePrototype : List Param → Bool
  | [p] => p.prototype
  | _ => false
end

theorem onePrototype_iff {ps : List Param} :
    onePrototype ps = true ↔ ∃ p, ps = [p] ∧ p.prototype = true := by
  cases ps with
  | nil => simp [onePrototype]
  | cons p ps => cases ps <;> simp [onePrototype]

/-! ### Texts that are no array types -/

/-- Only a text that ends in a bracket is taken for an array type. -/
theorem not_isArrayType_concat {type : Str} {c : Char} (hc : c ≠ ']') :
    isArrayType (type ++ [c]) = false := by
  have hsuff : "[]".toList.isSuffixOf (type ++ [c]) = false := by
    rw [← Bool.not_eq_true, List.isSuffixOf_iff_suffix]
    rintro ⟨l, hl⟩
    have hl' : l ++ ['['] ++ [']'] = type ++ [c] := by rw [← hl, List.append_assoc]; rfl
    exact hc (List.singleton_inj.mp (List.append_inj' hl' rfl).2).symm
  rw [isArrayType, hsuff, Bool.false_and]

/-- A `]` after anything but a `[` does not make an array type either. -/
theorem not_isArrayType_concat_concat {type : Str} {c : Char} (hc : c ≠ '[') :
    isArrayType (type ++ [c] ++ [']']) = false := by
  have hsuff : "[]".toList.isSuffixOf (type ++ [c] ++ [']']) = false := by
    rw [← Bool.not_eq_true, List.isSuffixOf_iff_suffix]
    rintro ⟨l, hl⟩
    have hl' : l ++ ['['] ++ [']'] = type ++ [c] ++ [']'] := by
      rw [← hl, List.append_assoc]; rfl
    have hinit := (List.append_inj' hl' rfl).1
    exact hc (List.singleton_inj.mp (List.append_inj' hinit rfl).2).symm
  rw [isArrayType, hsuff, Bool.false_and]

/-- The last digit of a decimal text. -/
theorem to_string_eq_concat (n : Nat) : ∃ init d, to_string n = init ++ [d] ∧ d.isDigit := by
  have hne := to_string_ne_nil n
  refine ⟨(to_string n).dropLast, (to_string n).getLast hne, ?_, ?_⟩
  · exact (List.dropLast_append_getLast hne).symm
  · exact isDigit_of_mem_to_string (List.getLast_mem hne)

theorem not_isArrayType_digits (type : Str) (n : Nat) :
    isArrayType (type ++ to_string n) = false := by
  obtain ⟨init, d, hd, hdigit⟩ := to_string_eq_concat n
  rw [hd, ← List.append_assoc]
  apply not_isArrayType_concat
  rintro rfl
  exact absurd hdigit (by decide)

theorem not_isArrayType_number (t : NumberType) : isArrayType t.getType = false := by
  cases t <;> decide

/-! ### What the factory makes of elementary types -/

theorem make_of_not_array (type : Str) (h : isArrayType type = false) :
    make type = makeElementary type := by
  rw [make, dif_neg (by simp [h])]

theorem makeElementary_number (t : NumberType) :
    ∃ q, makeElementary t.getType = .ok (some q) ∧ q.prototype = true ∧ q.HasTy t.solType ∧
      q.depth = 0 := by
  cases t <;> exact ⟨_, rfl, rfl, rfl, rfl⟩

/-- The text is a stem and a size text, which `std::stoi` reads as an admitted number. -/
structure Sized (admitted : Int → Prop) (stem type size : Str) (n : Int) : Prop where
  eq_append : type = stem ++ size
  stoi_eq : stoi size = .ok n
  admitted : admitted n

namespace Sized

variable {admitted : Int → Prop} {stem type size : Str} {n : Int}

/-- A sized type is told from a text with a size that is not admitted. -/
theorem ne (h : Sized admitted stem type size n) {text size' : Str} (m : Int)
    (htext : text = stem ++ size') (hm : stoi size' = .ok m) (hno : ¬ admitted m) :
    type ≠ text := by
  intro heq
  have hsize : size = size' :=
    List.append_cancel_left (h.eq_append.symm.trans (heq.trans htext))
  have hn := h.stoi_eq
  rw [hsize, hm] at hn
  rw [Except.ok.inj hn] at hno
  exact hno h.admitted

/-- A sized type is told from the bare one. -/
theorem ne_stem (h : Sized admitted stem type size n) : type ≠ stem := by
  intro heq
  have hsize : size = [] :=
    List.append_cancel_left (h.eq_append.symm.trans (heq.trans (List.append_nil _).symm))
  have hn := h.stoi_eq
  rw [hsize] at hn
  cases hn

theorem isPrefixOf (h : Sized admitted stem type size n) : stem.isPrefixOf type = true := by
  rw [h.eq_append]
  exact List.isPrefixOf_iff_prefix.mpr (List.prefix_append _ _)

/-- The decimal text of an admitted number is a size text for it. -/
theorem of_to_string {k : Nat} (hk : k < 2 ^ 31) (hadm : admitted k) :
    Sized admitted stem (stem ++ to_string k) (to_string k) k :=
  ⟨rfl, stoi_to_string hk, hadm⟩

/-- A sized number is none of the names with a class of its own, nor one with another first
    letter. -/
theorem ne_name (h : Sized admittedBitSize stem type size n) {text : Str}
    (htext : text ∈ ["8".toList, "16".toList, "32".toList, "64".toList, "256".toList, []].map
      (stem ++ ·) ∨ text.head? ≠ type.head?) : type ≠ text := by
  rcases htext with hname | hhead
  · obtain ⟨size', hsize', rfl⟩ := List.mem_map.mp hname
    simp only [List.mem_cons, List.not_mem_nil, or_false] at hsize'
    -- None of the five widths is admitted, and the bare name has no width.
    rcases hsize' with rfl | rfl | rfl | rfl | rfl | rfl
    · exact h.ne 8 rfl (by decide) (by decide)
    · exact h.ne 16 rfl (by decide) (by decide)
    · exact h.ne 32 rfl (by decide) (by decide)
    · exact h.ne 64 rfl (by decide) (by decide)
    · exact h.ne 256 rfl (by decide) (by decide)
    · rw [List.append_nil]
      exact h.ne_stem
  · rintro rfl
    exact hhead rfl

theorem ne_uint_name (h : Sized admittedBitSize "uint".toList type size n) (text : Str)
    (htext : text ∈ ["uint8".toList, "uint16".toList, "uint32".toList, "uint64".toList,
      "uint256".toList, "uint".toList] ∨ text.head? ≠ some 'u') : type ≠ text := by
  apply h.ne_name
  rw [h.eq_append]
  exact htext

theorem ne_int_name (h : Sized admittedBitSize "int".toList type size n) (text : Str)
    (htext : text ∈ ["int8".toList, "int16".toList, "int32".toList, "int64".toList,
      "int256".toList, "int".toList] ∨ text.head? ≠ some 'i') : type ≠ text := by
  apply h.ne_name
  rw [h.eq_append]
  exact htext

theorem not_uint_prefix (h : Sized admittedBitSize "int".toList type size n) :
    ¬ "uint".toList.isPrefixOf type = true := by
  rw [h.eq_append]
  simp

end Sized

/-- Of the other names only `bool` starts with the same letter as a sized `bytes`. -/
theorem ne_bytes_name {type size : Str} (h : type = "bytes".toList ++ size) (text : Str)
    (htext : text.take 2 ≠ "by".toList) : type ≠ text := by
  rintro rfl
  rw [h] at htext
  exact htext rfl

theorem BitSize.sized (bits : BitSize) (stem : Str) :
    Sized admittedBitSize stem (stem ++ to_string bits.val) (to_string bits.val) bits.val := by
  have hle := bits.val_le
  exact .of_to_string (by omega) bits.admitted

theorem parseBitSize_of_stoi {size : Str} {n : Int} (hn : stoi size = .ok n)
    (hadm : admittedBitSize n) : parseBitSize size = .ok ⟨n.toNat, hadm⟩ := by
  rw [parseBitSize, hn]
  show (if h : admittedBitSize n then _ else _) = _
  rw [dif_pos hadm]

theorem makeElementary_uint {type size : Str} {n : Int}
    (h : Sized admittedBitSize "uint".toList type size n) :
    makeElementary type = .ok (some (.uintN ⟨n.toNat, h.admitted⟩ ⟨0, Nat.two_pow_pos _⟩)) := by
  have hne := h.ne_uint_name
  have hdrop : type.drop 4 = size := by rw [h.eq_append]; rfl
  rw [makeElementary, if_neg (hne _ (by decide)), if_neg (hne _ (by decide)),
    if_neg (hne _ (by decide)), if_neg (hne _ (by decide)), if_neg (hne _ (by decide)),
    if_neg (not_or.mpr ⟨hne _ (by decide), hne _ (by decide)⟩), if_neg (hne _ (by decide)),
    if_neg (hne _ (by decide)), if_neg (hne _ (by decide)), if_neg (hne _ (by decide)),
    if_neg (not_or.mpr ⟨hne _ (by decide), hne _ (by decide)⟩), if_pos h.isPrefixOf, makeUInt,
    hdrop, parseBitSize_of_stoi h.stoi_eq h.admitted]
  rfl

theorem makeElementary_int {type size : Str} {n : Int}
    (h : Sized admittedBitSize "int".toList type size n) :
    ∃ val, makeElementary type = .ok (some (.intN ⟨n.toNat, h.admitted⟩ val)) := by
  have hne := h.ne_int_name
  have hdrop : type.drop 3 = size := by rw [h.eq_append]; rfl
  refine ⟨⟨0, ?_⟩, ?_⟩
  · show -2 ^ n.toNat ≤ (0 : Int) ∧ (0 : Int) < 2 ^ n.toNat
    have : (0 : Int) < 2 ^ n.toNat := by positivity
    omega
  rw [makeElementary, if_neg (hne _ (by decide)), if_neg (hne _ (by decide)),
    if_neg (hne _ (by decide)), if_neg (hne _ (by decide)), if_neg (hne _ (by decide)),
    if_neg (not_or.mpr ⟨hne _ (by decide), hne _ (by decide)⟩), if_neg (hne _ (by decide)),
    if_neg (hne _ (by decide)), if_neg (hne _ (by decide)), if_neg (hne _ (by decide)),
    if_neg (not_or.mpr ⟨hne _ (by decide), hne _ (by decide)⟩), if_neg h.not_uint_prefix,
    if_pos h.isPrefixOf, makeInt, hdrop, parseBitSize_of_stoi h.stoi_eq h.admitted]
  rfl

theorem makeElementary_bytes {type size : Str} {n : Int}
    (h : Sized (0 ≤ ·) "bytes".toList type size n) :
    makeElementary type = .ok (some (.byteArrayFix n.toNat (List.replicate n.toNat 0))) := by
  have hne := ne_bytes_name h.eq_append
  have hdrop : type.drop 5 = size := by rw [h.eq_append]; rfl
  have hnn : ¬ n < 0 := not_lt.mpr h.admitted
  have huint : ¬ "uint".toList.isPrefixOf type = true := by
    rw [h.eq_append]
    simp
  have hint : ¬ "int".toList.isPrefixOf type = true := by
    rw [h.eq_append]
    simp
  rw [makeElementary, if_neg (hne _ (by decide)), if_neg (hne _ (by decide)),
    if_neg (hne _ (by decide)), if_neg (hne _ (by decide)), if_neg (hne _ (by decide)),
    if_neg (not_or.mpr ⟨hne _ (by decide), hne _ (by decide)⟩), if_neg (hne _ (by decide)),
    if_neg (hne _ (by decide)), if_neg (hne _ (by decide)), if_neg (hne _ (by decide)),
    if_neg (not_or.mpr ⟨hne _ (by decide), hne _ (by decide)⟩), if_neg huint, if_neg hint,
    if_neg (hne _ (by decide)), if_neg h.ne_stem, if_pos h.isPrefixOf, hdrop, h.stoi_eq]
  simp only [bind, Except.bind, if_neg hnn]

/-! ### Objects made from a type -/

theorem Param.getType_ne_nil (p : Param) : p.getType ≠ [] := by
  cases p with
  | number t val =>
    show t.getType ≠ []
    cases t <;> decide
  | uintN bits val => exact List.append_ne_nil_of_left_ne_nil (by decide) _
  | intN bits val => exact List.append_ne_nil_of_left_ne_nil (by decide) _
  | address val => exact (by decide : "address".toList ≠ [])
  | byteArray bytes => exact (by decide : "bytes".toList ≠ [])
  | byteArrayFix n bytes => exact List.append_ne_nil_of_left_ne_nil (by decide) _
  | string str => exact (by decide : "string".toList ≠ [])
  | array ps => exact List.append_ne_nil_of_right_ne_nil _ (by decide)
  | arrayFix ps => exact List.append_ne_nil_of_right_ne_nil _ (by decide)
  | parameters ps => exact List.append_ne_nil_of_right_ne_nil _ (by decide)

/-- What an array takes from the factory can stand in for its first element. -/
structure Replaces (q r : Param) : Prop where
  prototype : q.prototype = true
  hasTy : ∀ t, r.HasTy t → q.HasTy t
  depth_le : q.depth ≤ r.depth

/-- For a prototype, the factory makes an object that can replace it. -/
theorem make_getType (r : Param) (hr : r.prototype = true) :
    ∃ q, make r.getType = .ok (some q) ∧ Replaces q r := by
  induction r using Param.inductionOn with
  -- Names of elementary types are no array types, so the factory looks at their stems.
  | number t val =>
    obtain ⟨q, hq, hproto, hty, hdepth⟩ := makeElementary_number t
    refine ⟨q, ?_, hproto, ?_, by omega⟩
    · show make t.getType = _
      rw [make_of_not_array _ (not_isArrayType_number t), hq]
    intro t' ht'
    obtain rfl : t' = t.solType := ht'
    exact hty
  | uintN bits val =>
    refine ⟨.uintN bits ⟨0, Nat.two_pow_pos _⟩, ?_, rfl, fun t ht => ht, Nat.le_refl _⟩
    show make ("uint".toList ++ to_string bits.val) = _
    rw [make_of_not_array _ (not_isArrayType_digits _ _), makeElementary_uint (bits.sized _)]
    rfl
  | intN bits val =>
    obtain ⟨zero, hzero⟩ := makeElementary_int (bits.sized _)
    refine ⟨.intN bits zero, ?_, rfl, fun t ht => ht, Nat.le_refl _⟩
    show make ("int".toList ++ to_string bits.val) = _
    rw [make_of_not_array _ (not_isArrayType_digits _ _), hzero]
    rfl
  | address val =>
    have hmake := make_of_not_array "address".toList (by decide)
    exact ⟨.address ⟨0, by decide⟩, hmake, rfl, fun t ht => ht, Nat.le_refl _⟩
  | byteArray bytes =>
    have hmake := make_of_not_array "bytes".toList (by decide)
    exact ⟨.byteArray [], hmake, rfl, fun t ht => ht, Nat.le_refl _⟩
  | byteArrayFix n bytes =>
    have hn : 1 ≤ n ∧ n ≤ 32 ∧ bytes.length ≤ n := of_decide_eq_true hr
    refine ⟨.byteArrayFix n (List.replicate n 0), ?_, ?_, fun t ht => ht, Nat.le_refl _⟩
    · show make ("bytes".toList ++ to_string n) = _
      have hsized : Sized (0 ≤ ·) "bytes".toList ("bytes".toList ++ to_string n) (to_string n) n :=
        .of_to_string (by omega) (Int.natCast_nonneg n)
      rw [make_of_not_array _ (not_isArrayType_digits _ _), makeElementary_bytes hsized]
      rfl
    · simp only [Param.prototype, List.length_replicate, decide_eq_true_eq]
      omega
  | string str =>
    have hmake := make_of_not_array "string".toList (by decide)
    exact ⟨.string [], hmake, rfl, fun t ht => ht, Nat.le_refl _⟩
  -- An array is made from its element, which the hypothesis makes.
  | array rs ih =>
    obtain ⟨r, rfl, hproto⟩ := onePrototype_iff.mp hr
    obtain ⟨q, hq, hrep⟩ := ih r List.mem_cons_self hproto
    refine ⟨.array [q], ?_, hrep.prototype, ?_, ?_⟩
    · show make (r.getType ++ "[]".toList) = _
      rw [make_array r.getType_ne_nil, hq]
      rfl
    · rintro t ⟨e, rfl, hty⟩
      exact ⟨e, rfl, hrep.hasTy e hty.1, trivial⟩
    · simpa [Param.depth, maxDepth] using hrep.depth_le
  | arrayFix rs _ => exact absurd hr (by simp [Param.prototype])
  | parameters rs _ => exact absurd hr (by simp [Param.prototype])

/-! ### Depth of what the factory makes -/

/-- Nothing is made, or an object that is no collection. -/
private def Flat (o : Option Param) : Prop := ∀ q, o = some q → q.depth = 0

private theorem flat_some {q : Param} (h : q.depth = 0) : Flat (some q) := by
  intro q' hq'
  rw [← Option.some.inj hq']
  exact h

theorem depth_makeElementary {type : Str} {q : Param} (h : makeElementary type = .ok (some q)) :
    q.depth = 0 := by
  suffices hflat : (makeElementary type).Ensures Flat from hflat (some q) h q rfl
  unfold makeElementary makeNumber makeUInt makeInt
  -- One goal for each type text; those with a size read it first.
  repeat' refine Except.ensures_ite (fun _ => ?_) (fun _ => ?_)
  all_goals first
    | exact Except.ensures_ok (flat_some rfl)
    | exact Except.ensures_bind _ fun _ => Except.ensures_ok (flat_some rfl)
    | skip
  · refine Except.ensures_bind _ fun n => ?_
    exact Except.ensures_ite (fun _ => Except.ensures_error _)
      fun _ => Except.ensures_ok (flat_some rfl)
  · refine Except.ensures_ok ?_
    intro q hq
    cases hq

/-- Away from arrays the factory makes a leaf. -/
theorem depth_le_of_make {type : Str} {q : Param} (k : Nat) (hnot : isArrayType type = false)
    (h : make type = .ok (some q)) : q.depth ≤ k := by
  rw [make_of_not_array _ hnot] at h
  rw [depth_makeElementary h]
  exact Nat.zero_le k

/-- Whatever the factory makes of the type of an object is no deeper than it. -/
theorem depth_le_of_make_getType (p : Param) {q : Param} (h : make p.getType = .ok (some q)) :
    q.depth ≤ p.depth := by
  induction p using Param.inductionOn generalizing q with
  | number t val => exact depth_le_of_make _ (not_isArrayType_number t) h
  | uintN bits val => exact depth_le_of_make _ (not_isArrayType_digits _ _) h
  | intN bits val => exact depth_le_of_make _ (not_isArrayType_digits _ _) h
  | address val => exact depth_le_of_make _ (by decide : isArrayType "address".toList = false) h
  | byteArray bytes => exact depth_le_of_make _ (by decide : isArrayType "bytes".toList = false) h
  | byteArrayFix n bytes => exact depth_le_of_make _ (not_isArrayType_digits _ _) h
  | string str => exact depth_le_of_make _ (by decide : isArrayType "string".toList = false) h
  | array ps ih =>
    cases ps with
    | nil =>
      -- The type of an empty array is "empty[]", which the factory rejects.
      have hnone : make "empty".toList = .ok none := make_of_not_array _ (by decide)
      replace h : make ("empty".toList ++ "[]".toList) = _ := h
      rw [make_array (by decide), hnone] at h
      cases h
    | cons p ps =>
      replace h : make (p.getType ++ "[]".toList) = _ := h
      rw [make_array p.getType_ne_nil] at h
      cases hp : make p.getType with
      | error e => rw [hp] at h; cases h
      | ok o =>
        cases o with
        | none => rw [hp] at h; cases h
        | some elem =>
          rw [hp] at h
          obtain rfl := Option.some.inj (Except.ok.inj h)
          have hle := ih p List.mem_cons_self hp
          simp only [Param.depth, maxDepth]
          omega
  | arrayFix ps _ =>
    obtain ⟨init, d, hd, hdigit⟩ := to_string_eq_concat ps.length
    refine depth_le_of_make _ ?_ h
    show isArrayType (getFirstType ps ++ "[".toList ++ to_string ps.length ++ [']']) = false
    rw [hd, ← List.append_assoc]
    apply not_isArrayType_concat_concat
    rintro rfl
    exact absurd hdigit (by decide)
  | parameters ps _ => exact depth_le_of_make _ (not_isArrayType_concat (by decide)) h

end ConfluxSdk.Abi
