import ConfluxSdk.Native.AbiCollection
import ConfluxSdk.Spec.AbiTypes

/-!
# Arrays keep their elements and their type

`ParamArray` takes the text of its type from its first element, and from the first
element of that, down to a leaf. An empty array on the way has none and is called
`empty`: then elements of one type have two texts, and those that differ from the
first are refused.

## Key results

- `Param.m_mem_getType_iff`: an object is called by its type unless an empty array is
  asked for one
- `setVal_keeps_iff`: which lists of elements of a type make the array of that type
-/

namespace ConfluxSdk.Abi

open SolidityAbi (Ty)

/-! ### The letter that tells `empty` -/

theorem m_not_mem_to_string (n : Nat) : 'm' ∉ to_string n := by
  intro h
  exact absurd (isDigit_of_mem_to_string h) (by decide)

private theorem mem_append_iff_left {c : Char} {s t : Str} (h : c ∉ t) : c ∈ s ++ t ↔ c ∈ s := by
  rw [List.mem_append, or_iff_left h]

private theorem mem_append_iff_right {c : Char} {s t : Str} (h : c ∉ s) : c ∈ s ++ t ↔ c ∈ t := by
  rw [List.mem_append, or_iff_right h]

/-- The punctuation of type texts has no `m`. -/
theorem m_not_mem_punctuation :
    'm' ∉ "[]".toList ∧ 'm' ∉ "[".toList ∧ 'm' ∉ "]".toList ∧ 'm' ∉ "(".toList ∧ 'm' ∉ ")".toList ∧
      'm' ∉ ",".toList := by
  decide

/-- No text of a type has an `m`, but `empty` has. -/
theorem m_not_mem_typeText (t : Ty) : 'm' ∉ typeText t := by
  obtain ⟨harray, hopen, hclose, hleft, hright, hcomma⟩ := m_not_mem_punctuation
  have hsized : ∀ stem : Str, 'm' ∉ stem → ∀ n, 'm' ∉ stem ++ to_string n :=
    fun stem hstem n => List.not_mem_append hstem (m_not_mem_to_string n)
  induction t using Ty.inductionOn with
  | uint bits => exact hsized "uint".toList (by decide) bits
  | int bits => exact hsized "int".toList (by decide) bits
  | bool => exact (by decide : 'm' ∉ "bool".toList)
  | address => exact (by decide : 'm' ∉ "address".toList)
  | bytesN n => exact hsized "bytes".toList (by decide) n
  | bytes => exact (by decide : 'm' ∉ "bytes".toList)
  | string => exact (by decide : 'm' ∉ "string".toList)
  | array t ih => exact List.not_mem_append ih harray
  | fixArray t k ih =>
    have hlength := List.not_mem_append (List.not_mem_append ih hopen) (m_not_mem_to_string k)
    exact List.not_mem_append hlength hclose
  | tuple ts ih =>
    -- The members behind the first have a comma in front.
    have hrest : ∀ us : List Ty, (∀ u ∈ us, u ∈ ts) → 'm' ∉ restTexts us := by
      intro us hus
      induction us with
      | nil => exact List.not_mem_nil
      | cons u us ihus =>
        rw [List.forall_mem_cons] at hus
        exact List.not_mem_append (List.not_mem_append hcomma (ih u hus.1)) (ihus hus.2)
    have hjoin : 'm' ∉ joinTexts ts := by
      cases ts with
      | nil => exact List.not_mem_nil
      | cons t ts =>
        exact List.not_mem_append (ih t List.mem_cons_self)
          (hrest ts fun u hu => List.mem_cons_of_mem t hu)
    exact List.not_mem_append (List.not_mem_append hleft hjoin) hright

theorem m_mem_joinTypes_iff {ps : List Param}
    (ih : ∀ p ∈ ps, 'm' ∈ p.getType ↔ p.named = false) :
    'm' ∈ joinTypes ps ↔ allNamed ps = false := by
  have hrest : ∀ qs : List Param, (∀ q ∈ qs, q ∈ ps) → ('m' ∈ joinRest qs ↔ allNamed qs = false) := by
    intro qs hqs
    induction qs with
    | nil => simp [joinRest, allNamed]
    | cons q qs ihqs =>
      rw [List.forall_mem_cons] at hqs
      have hcomma := m_not_mem_punctuation.2.2.2.2.2
      rw [joinRest, allNamed, Bool.and_eq_false_iff, List.mem_append, List.mem_append, ih q hqs.1,
        ihqs hqs.2, or_iff_right hcomma]
  cases ps with
  | nil => simp [joinTypes, allNamed]
  | cons p ps =>
    rw [joinTypes, allNamed, Bool.and_eq_false_iff, List.mem_append, ih p List.mem_cons_self,
      hrest ps fun q hq => List.mem_cons_of_mem p hq]

theorem m_mem_firstType_iff {ps : List Param}
    (ih : ∀ p ∈ ps, 'm' ∈ p.getType ↔ p.named = false) :
    'm' ∈ getFirstType ps ↔ firstNamed ps = false := by
  cases ps with
  | nil => simp [getFirstType, firstNamed]
  | cons p ps => exact ih p List.mem_cons_self

/-- An object whose type has to be taken from an empty array is given away by its text. -/
theorem Param.m_mem_getType_iff (p : Param) : 'm' ∈ p.getType ↔ p.named = false := by
  obtain ⟨harray, hopen, hclose, hleft, hright, _⟩ := m_not_mem_punctuation
  -- A leaf has a type of its own.
  have hleaf : ∀ text : Str, 'm' ∉ text → ('m' ∈ text ↔ true = false) :=
    fun text hno => iff_of_false hno Bool.noConfusion
  induction p using Param.inductionOn with
  | number nt val =>
    apply hleaf nt.getType
    cases nt <;> decide
  | uintN bits val => exact hleaf _ (m_not_mem_typeText (.uint bits.val))
  | intN bits val => exact hleaf _ (m_not_mem_typeText (.int bits.val))
  | address val => exact hleaf _ (m_not_mem_typeText .address)
  | byteArray bytes => exact hleaf _ (m_not_mem_typeText .bytes)
  | byteArrayFix n bytes => exact hleaf _ (m_not_mem_typeText (.bytesN n))
  | string str => exact hleaf _ (m_not_mem_typeText .string)
  | array ps ih => exact (mem_append_iff_left harray).trans (m_mem_firstType_iff ih)
  | arrayFix ps ih =>
    have hlength : 'm' ∈ getFirstType ps ++ "[".toList ++ to_string ps.length ↔
        'm' ∈ getFirstType ps :=
      (mem_append_iff_left (m_not_mem_to_string ps.length)).trans (mem_append_iff_left hopen)
    exact (mem_append_iff_left hclose).trans (hlength.trans (m_mem_firstType_iff ih))
  | parameters ps ih =>
    have hinner : 'm' ∈ "(".toList ++ joinTypes ps ↔ 'm' ∈ joinTypes ps := mem_append_iff_right hleft
    exact (mem_append_iff_left hright).trans (hinner.trans (m_mem_joinTypes_iff ih))

/-- An object of a type is called by the type's text exactly when it is named. -/
theorem Param.getType_eq_typeText_iff {p : Param} {t : Ty} (h : p.HasTy t) :
    p.getType = typeText t ↔ p.named = true := by
  constructor
  · intro htext
    by_contra hno
    have hm := p.m_mem_getType_iff.mpr (by simpa using hno)
    rw [htext] at hm
    exact m_not_mem_typeText t hm
  · intro hnamed
    exact p.getType_eq_typeText hnamed t h

/-! ### What is stored -/

/-- Behind a first element, another one is added if it has the same type text. -/
theorem addParam_cons (p q : Param) (params : List Param) :
    (ParamArray.addParam (p :: params) (some q)).2 =
      if q.getType = p.getType then p :: params ++ [q] else p :: params := by
  have hfirst : getFirstType (p :: params) = p.getType := by rw [getFirstType]
  have hlen : 1 ≤ (p :: params).length := Nat.le_add_left 1 params.length
  simp only [ParamArray.addParam, hfirst, hlen, true_and, ne_eq, ite_not]
  split
  · rfl
  · rfl

theorem addParams_cons (p : Param) (params ps : List Param) :
    ParamArray.addParams (p :: params) (ps.map some) =
      p :: params ++ ps.filter fun q => q.getType = p.getType := by
  induction ps generalizing params with
  | nil => simp [ParamArray.addParams]
  | cons q qs ih =>
    have hrest : ParamArray.addParams (p :: params) ((q :: qs).map some) =
        ParamArray.addParams (ParamArray.addParam (p :: params) (some q)).2 (qs.map some) := rfl
    rw [hrest, addParam_cons, List.filter_cons]
    by_cases hq : q.getType = p.getType
    · rw [if_pos hq, if_pos (decide_eq_true hq), List.cons_append, ih, List.cons_append,
        List.append_assoc, List.singleton_append, List.cons_append]
    · rw [if_neg hq, if_neg (by simpa using hq), ih]

theorem setVal_cons (p : Param) (ps : List Param) :
    ParamArray.setVal [] ((p :: ps).map some) = p :: ps.filter fun q => q.getType = p.getType := by
  have hfirst : ParamArray.setVal [] ((p :: ps).map some) =
      ParamArray.addParams [p] (ps.map some) := rfl
  rw [hfirst, addParams_cons, List.singleton_append]

/-- All elements are kept exactly when they have one type text. -/
theorem setVal_eq_iff (p : Param) (ps : List Param) :
    ParamArray.setVal [] ((p :: ps).map some) = p :: ps ↔ ∀ q ∈ ps, q.getType = p.getType := by
  rw [setVal_cons, List.cons_eq_cons, and_iff_right rfl, List.filter_eq_self]
  simp

/-! ### Arrays of a type -/

/-- The array built from the list stores all elements in order, is as long as the list
    and has the array type of the elements' type; in a function it leads to the same
    selector as anything else of that type. -/
structure KeepsAll (T : Ty) (ps : List Param) : Prop where
  stored : ParamArray.getVal (ParamArray.construct (ps.map some)) = ps
  count : ParamArray.getCount (ParamArray.construct (ps.map some)) = ps.length
  type_eq : (ParamArray.construct (ps.map some)).getType = typeText T ++ "[]".toList
  selector : ∀ (keccak256 : Function.Keccak) (name : Str) (before after outs : List Param)
    (q : Param), q.getType = typeText (.array T) →
    Function.getSignature keccak256
        ⟨name, before ++ ParamArray.construct (ps.map some) :: after, outs⟩ =
      Function.getSignature keccak256 ⟨name, before ++ q :: after, outs⟩

/-- The selector only depends on the type texts of the parameters. -/
theorem getSignature_congr (keccak256 : Function.Keccak) (name : Str)
    (before after outs : List Param) {p q : Param} (h : p.getType = q.getType) :
    Function.getSignature keccak256 ⟨name, before ++ p :: after, outs⟩ =
      Function.getSignature keccak256 ⟨name, before ++ q :: after, outs⟩ := by
  have hsame : ∀ ps : List Param,
      List.Forall₂ (fun p r : Param => r.getType = p.getType) ps ps := by
    intro ps
    exact List.forall₂_same.mpr fun _ _ => rfl
  have htypes : List.Forall₂ (fun p r : Param => r.getType = p.getType) (before ++ q :: after)
      (before ++ p :: after) := List.rel_append (hsame before) (.cons h (hsame after))
  rw [Function.getSignature, Function.getSignature, Function.getType, Function.getType,
    ParamSet.getType_congr htypes]

theorem setVal_keeps_iff (T : Ty) (ps : List Param) (h : ∀ p ∈ ps, p.HasTy T) :
    KeepsAll T ps ↔ ps ≠ [] ∧ ∀ p ∈ ps, p.named = true := by
  cases ps with
  | nil =>
    refine iff_of_false ?_ fun hne => absurd rfl hne.1
    -- The type of an empty array is `empty[]`.
    intro hkeeps
    have htext : "empty".toList ++ "[]".toList = typeText T ++ "[]".toList := hkeeps.type_eq
    have hm : 'm' ∉ "empty".toList := List.append_cancel_right htext ▸ m_not_mem_typeText T
    exact hm (by decide)
  | cons p ps =>
    have hnamed : ∀ q ∈ p :: ps, (q.getType = typeText T ↔ q.named = true) :=
      fun q hq => Param.getType_eq_typeText_iff (h q hq)
    have hstored : ParamArray.getVal (ParamArray.construct ((p :: ps).map some)) =
        p :: ps ↔ ∀ q ∈ ps, q.getType = p.getType := setVal_eq_iff p ps
    have htype : (ParamArray.construct ((p :: ps).map some)).getType = p.getType ++ "[]".toList := by
      rw [ParamArray.construct, setVal_cons]
      rfl
    constructor
    · intro hkeeps
      have hfirst : p.getType = typeText T :=
        List.append_cancel_right (htype.symm.trans hkeeps.type_eq)
      have hrest := hstored.mp hkeeps.stored
      refine ⟨List.cons_ne_nil p ps, fun q hq => (hnamed q hq).mp ?_⟩
      rcases List.mem_cons.mp hq with rfl | hq
      · exact hfirst
      · exact (hrest q hq).trans hfirst
    · rintro ⟨_, hall⟩
      have htext : ∀ q ∈ p :: ps, q.getType = typeText T := fun q hq => (hnamed q hq).mpr (hall q hq)
      have hfirst := htext p List.mem_cons_self
      have hvals := hstored.mpr fun q hq =>
        (htext q (List.mem_cons_of_mem p hq)).trans hfirst.symm
      have harray := htype.trans (congrArg (· ++ "[]".toList) hfirst)
      refine ⟨hvals, congrArg List.length hvals, harray, ?_⟩
      intro keccak256 name before after outs q hq
      exact getSignature_congr keccak256 name before after outs (harray.trans hq.symm)

/-- Two arrays of numbers. -/
def twoArrays : List Param :=
  [.array [.number .uint256 (NumberType.ofUInt256 _ (uint256 1)),
      .number .uint256 (NumberType.ofUInt256 _ (uint256 2))],
    .array [.number .uint256 (NumberType.ofUInt256 _ (uint256 3))]]

theorem hasTy_twoArrays : ∀ p ∈ twoArrays, p.HasTy (.array (.uint 256)) :=
  List.forall_mem_cons.mpr ⟨⟨_, rfl, rfl, rfl, trivial⟩,
    List.forall_mem_singleton.mpr ⟨_, rfl, rfl, trivial⟩⟩

theorem setVal_keeps_twoArrays :
    (∀ p ∈ twoArrays, p.HasTy (.array (.uint 256))) ∧ KeepsAll (.array (.uint 256)) twoArrays := by
  have hnamed : ∀ p ∈ twoArrays, p.named = true :=
    List.forall_mem_cons.mpr ⟨rfl, List.forall_mem_singleton.mpr rfl⟩
  exact ⟨hasTy_twoArrays,
    (setVal_keeps_iff _ _ hasTy_twoArrays).mpr ⟨List.cons_ne_nil _ _, hnamed⟩⟩

/-- Behind an empty array one with an element is dropped, and the type is `empty[][]`. -/
theorem setVal_drops :
    (∀ p ∈ [Param.array [], .array [.number .uint256 ⟨1, by decide⟩]],
      p.HasTy (.array (.uint 256))) ∧
    ParamArray.getCount (ParamArray.construct
      ([.array [], .array [.number .uint256 ⟨1, by decide⟩]].map some)) = 1 ∧
    (ParamArray.construct
      ([.array [], .array [.number .uint256 ⟨1, by decide⟩]].map some)).getType =
      "empty[][]".toList := by
  have htys : ∀ p ∈ [Param.array [], .array [.number .uint256 ⟨1, by decide⟩]],
      p.HasTy (.array (.uint 256)) :=
    List.forall_mem_cons.mpr ⟨⟨_, rfl, trivial⟩,
      List.forall_mem_singleton.mpr ⟨_, rfl, rfl, trivial⟩⟩
  refine ⟨htys, ?_⟩
  rw [ParamArray.construct, setVal_cons]
  decide

end ConfluxSdk.Abi
