import ConfluxSdk.Spec.AbiEncodeCorrect

/-!
# ABI types of parameter objects

`Param.HasTy` read backwards: which class an object of a given ABI type belongs
to, and which text `getType` returns for it. Only `uint256` has two classes,
`ParamUInt256` and `ParamUInt`.
-/

namespace ConfluxSdk.Abi

open SolidityAbi (Ty)

/-! ### Objects of a given type -/

theorem number_of_hasTy {r : Param} {nt : NumberType} (h : r.HasTy nt.solType) :
    ∃ nt' val, r = .number nt' val ∧ nt'.solType = nt.solType := by
  cases r with
  | number nt' val => exact ⟨nt', val, rfl, h.symm⟩
  | uintN bits val =>
    -- The sizes of `ParamUIntN` are none of those that have a class of their own.
    have hadm := bits.admitted
    cases nt <;> simp [Param.HasTy, NumberType.solType] at h <;> omega
  | intN bits val =>
    have hadm := bits.admitted
    cases nt <;> simp [Param.HasTy, NumberType.solType] at h <;> omega
  | _ => cases nt <;> simp [Param.HasTy, NumberType.solType] at h

theorem uintN_of_hasTy {r : Param} {bits : BitSize} (h : r.HasTy (.uint bits.val)) :
    ∃ val, r = .uintN bits val := by
  cases r with
  | number nt val =>
    have hadm := bits.admitted
    cases nt <;> simp [Param.HasTy, NumberType.solType] at h <;> omega
  | uintN bits' val =>
    obtain ⟨b, hb⟩ := bits
    obtain ⟨b', hb'⟩ := bits'
    obtain rfl : b = b' := Ty.uint.inj h
    exact ⟨val, rfl⟩
  | _ => simp [Param.HasTy] at h

theorem intN_of_hasTy {r : Param} {bits : BitSize} (h : r.HasTy (.int bits.val)) :
    ∃ val, r = .intN bits val := by
  cases r with
  | number nt val =>
    have hadm := bits.admitted
    cases nt <;> simp [Param.HasTy, NumberType.solType] at h <;> omega
  | intN bits' val =>
    obtain ⟨b, hb⟩ := bits
    obtain ⟨b', hb'⟩ := bits'
    obtain rfl : b = b' := Ty.int.inj h
    exact ⟨val, rfl⟩
  | _ => simp [Param.HasTy] at h

theorem bool_of_hasTy {r : Param} (h : r.HasTy .bool) : ∃ val, r = .number .bool val := by
  have hbool : r.HasTy NumberType.bool.solType := h
  obtain ⟨nt, val, rfl, hnt⟩ := number_of_hasTy hbool
  cases nt <;> cases hnt
  exact ⟨val, rfl⟩

theorem address_of_hasTy {r : Param} (h : r.HasTy .address) : ∃ val, r = .address val := by
  cases r with
  | number nt val => cases nt <;> cases h
  | address val => exact ⟨val, rfl⟩
  | _ => simp [Param.HasTy] at h

theorem byteArray_of_hasTy {r : Param} (h : r.HasTy .bytes) : ∃ bytes, r = .byteArray bytes := by
  cases r with
  | number nt val => cases nt <;> cases h
  | byteArray bytes => exact ⟨bytes, rfl⟩
  | _ => simp [Param.HasTy] at h

theorem byteArrayFix_of_hasTy {r : Param} {n : Nat} (h : r.HasTy (.bytesN n)) :
    ∃ bytes, r = .byteArrayFix n bytes := by
  cases r with
  | number nt val => cases nt <;> cases h
  | byteArrayFix n' bytes =>
    obtain rfl : n = n' := Ty.bytesN.inj h
    exact ⟨bytes, rfl⟩
  | _ => simp [Param.HasTy] at h

theorem string_of_hasTy {r : Param} (h : r.HasTy .string) : ∃ str, r = .string str := by
  cases r with
  | number nt val => cases nt <;> cases h
  | string str => exact ⟨str, rfl⟩
  | _ => simp [Param.HasTy] at h

theorem array_of_hasTy {r : Param} {e : Ty} (h : r.HasTy (.array e)) :
    ∃ rs, r = .array rs ∧ ∀ r ∈ rs, r.HasTy e := by
  cases r with
  | number nt val => cases nt <;> cases h
  | array rs =>
    obtain ⟨e', he, helems⟩ := h
    obtain rfl : e = e' := Ty.array.inj he
    exact ⟨rs, rfl, elemsHaveTy_iff.mp helems⟩
  | _ => simp [Param.HasTy] at h

theorem arrayFix_of_hasTy {r : Param} {e : Ty} {k : Nat} (h : r.HasTy (.fixArray e k)) :
    ∃ rs, r = .arrayFix rs ∧ rs.length = k ∧ ∀ r ∈ rs, r.HasTy e := by
  cases r with
  | number nt val => cases nt <;> cases h
  | arrayFix rs =>
    obtain ⟨e', he, helems⟩ := h
    obtain ⟨rfl, rfl⟩ := Ty.fixArray.inj he
    exact ⟨rs, rfl, rfl, elemsHaveTy_iff.mp helems⟩
  | _ => simp [Param.HasTy] at h

theorem parameters_of_hasTy {r : Param} {ts : List Ty} (h : r.HasTy (.tuple ts)) :
    ∃ rs, r = .parameters rs ∧ List.Forall₂ Param.HasTy rs ts := by
  cases r with
  | number nt val => cases nt <;> cases h
  | parameters rs =>
    obtain ⟨ts', hts, hmembers⟩ := h
    obtain rfl : ts = ts' := Ty.tuple.inj hts
    exact ⟨rs, rfl, membersHaveTy_iff.mp hmembers⟩
  | _ => simp [Param.HasTy] at h

/-! ### Type texts -/

mutual
/-- Every array has a first element to take the name of its type from. -/
def Param.named : Param → Bool
  | .array ps | .arrayFix ps => firstNamed ps
  | .parameters ps => allNamed ps
  | _ => true

def firstNamed : List Param → Bool
  | [] => false
  | p :: _ => p.named

def allNamed : List Param → Bool
  | [] => true
  | p :: ps => p.named && allNamed ps
end

mutual
/-- The text of an ABI type. -/
def typeText : Ty → Str
  | .uint bits => "uint".toList ++ to_string bits
  | .int bits => "int".toList ++ to_string bits
  | .bool => "bool".toList
  | .address => "address".toList
  | .bytesN n => "bytes".toList ++ to_string n
  | .bytes => "bytes".toList
  | .string => "string".toList
  | .array t => typeText t ++ "[]".toList
  | .fixArray t k => typeText t ++ "[".toList ++ to_string k ++ "]".toList
  | .tuple ts => "(".toList ++ joinTexts ts ++ ")".toList

/-- The texts of a tuple's members, separated by commas. -/
def joinTexts : List Ty → Str
  | [] => []
  | t :: ts => typeText t ++ restTexts ts

def restTexts : List Ty → Str
  | [] => []
  | t :: ts => ",".toList ++ typeText t ++ restTexts ts
end

theorem firstType_of_hasTy {ps : List Param} {e : Ty} (hnamed : firstNamed ps = true)
    (ih : ∀ p ∈ ps, p.named = true → ∀ t, p.HasTy t → p.getType = typeText t)
    (h : ElemsHaveTy ps e) : getFirstType ps = typeText e := by
  cases ps with
  | nil => simp [firstNamed] at hnamed
  | cons p ps => exact ih p List.mem_cons_self hnamed e h.1

theorem allNamed_iff {ps : List Param} :
    allNamed ps = true ↔ ∀ p ∈ ps, p.named = true := by
  induction ps with
  | nil => simp [allNamed]
  | cons p ps ih => simp [allNamed, ih]

theorem joinTypes_of_hasTy {ps : List Param} {ts : List Ty} (hnamed : allNamed ps = true)
    (ih : ∀ p ∈ ps, p.named = true → ∀ t, p.HasTy t → p.getType = typeText t)
    (h : List.Forall₂ Param.HasTy ps ts) : joinTypes ps = joinTexts ts := by
  have hmem := allNamed_iff.mp hnamed
  -- Behind the first member a comma stands in front of each.
  have hrest : ∀ {qs : List Param} {us : List Ty}, (∀ q ∈ qs, q ∈ ps) →
      List.Forall₂ Param.HasTy qs us → joinRest qs = restTexts us := by
    intro qs us hqs hty
    induction hty with
    | nil => rfl
    | @cons q u qs us hq _ ihqs =>
      rw [List.forall_mem_cons] at hqs
      rw [joinRest, restTexts, ih q hqs.1 (hmem q hqs.1) u hq, ihqs hqs.2]
  cases h with
  | nil => rfl
  | @cons p t ps ts hp hps =>
    rw [joinTypes, joinTexts, ih p List.mem_cons_self (hmem p List.mem_cons_self) t hp,
      hrest (fun q hq => List.mem_cons_of_mem p hq) hps]

/-- The class of an object only matters up to its ABI type. -/
theorem Param.getType_eq_typeText (p : Param) (hnamed : p.named = true) (t : Ty) (h : p.HasTy t) :
    p.getType = typeText t := by
  induction p using Param.inductionOn generalizing t with
  | number nt val =>
    obtain rfl : t = nt.solType := h
    cases nt <;> rfl
  | uintN bits val | intN bits val | address val | byteArray bytes | byteArrayFix n bytes
  | string str =>
    cases h
    rfl
  | array ps ih =>
    obtain ⟨e, rfl, helems⟩ := h
    show getFirstType ps ++ "[]".toList = typeText e ++ "[]".toList
    rw [firstType_of_hasTy hnamed ih helems]
  | arrayFix ps ih =>
    obtain ⟨e, rfl, helems⟩ := h
    show getFirstType ps ++ _ ++ _ ++ _ = typeText e ++ "[".toList ++ to_string ps.length ++ _
    rw [firstType_of_hasTy hnamed ih helems]
  | parameters ps ih =>
    obtain ⟨ts, rfl, hmembers⟩ := h
    show "(".toList ++ joinTypes ps ++ ")".toList = "(".toList ++ joinTexts ts ++ ")".toList
    rw [joinTypes_of_hasTy hnamed ih (membersHaveTy_iff.mp hmembers)]

theorem joinRest_congr {ps rs : List Param}
    (h : List.Forall₂ (fun p r : Param => r.getType = p.getType) ps rs) :
    joinRest rs = joinRest ps := by
  induction h with
  | nil => rfl
  | @cons p r ps rs hp _ ih =>
    show ",".toList ++ r.getType ++ joinRest rs = ",".toList ++ p.getType ++ joinRest ps
    rw [hp, ih]

theorem ParamSet.getType_congr {ps rs : List Param}
    (h : List.Forall₂ (fun p r : Param => r.getType = p.getType) ps rs) :
    ParamSet.getType rs = ParamSet.getType ps := by
  cases h with
  | nil => rfl
  | @cons p r ps rs hp hps =>
    show _ ++ (r.getType ++ joinRest rs) ++ _ = _ ++ (p.getType ++ joinRest ps) ++ _
    rw [hp, joinRest_congr hps]

end ConfluxSdk.Abi
