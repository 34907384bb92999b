import ConfluxSdk.Spec.AbiDecodeCorrect

/-!
# Outputs with empty arrays are refused

`ParamArray::decode` grows its receiver from the one element the factory gave it, and
refuses an encoded length below the number of elements it has. An array of length zero
is encoded as that length, so it is refused wherever it stands, and the call that was
reading it fails. Everything before it is read.

## Key results

- `decodeSet_fails`: a member that cannot be read ends the second pass
- `Param.refused`: a parameter with an empty array in it is refused
- `decodeOutput_accepts_iff`: which outputs `Function::decodeOutput` accepts
-/

namespace ConfluxSdk.Abi

open SolidityAbi (Ty Val word encArgs pointer)

/-! ### Members that are refused -/

/-- Wherever the encoding of `p` stands, `dec` does not read it into `r`. -/
structure Fails (buf : Bytes) (dec : Param → Nat → Except StdError (Bool × Param × Nat))
    (p r : Param) : Prop where
  isDynamic_eq : r.isDynamic = p.isDynamic
  fails : ∀ offset, At buf offset (p.encode []) → ∃ r' off, dec r offset = .ok (false, r', off)

/-- A decodable member is read, any other one is refused. -/
def Outcome (buf : Bytes) (dec : Param → Nat → Except StdError (Bool × Param × Nat))
    (p r : Param) : Prop :=
  if p.decodable then Reads buf dec p r else Fails buf dec p r

theorem Outcome.of_reads {buf : Bytes} {dec : Param → Nat → Except StdError (Bool × Param × Nat)}
    {p r : Param} (hdec : p.decodable = true) (h : Reads buf dec p r) : Outcome buf dec p r := by
  rwa [Outcome, if_pos hdec]

theorem Outcome.isDynamic_eq {buf : Bytes} {dec : Param → Nat → Except StdError (Bool × Param × Nat)}
    {p r : Param} (h : Outcome buf dec p r) : r.isDynamic = p.isDynamic := by
  rw [Outcome] at h
  split at h
  · exact Reads.isDynamic_eq h
  · exact Fails.isDynamic_eq h

/-- Only an array can be refused, so static members are read. -/
theorem Param.isDynamic_of_refused {p : Param} (hread : p.readable = true)
    (hnot : p.decodable = false) : p.isDynamic = true := by
  cases p with
  | array ps => rfl
  | arrayFix ps => exact absurd hread (by simp [Param.readable])
  | parameters ps => exact absurd hread (by simp [Param.readable])
  | byteArray bytes | string str => rfl
  | _ => exact absurd (hread.symm.trans hnot) (by decide)

section Passes

variable {buf : Bytes} {dec : Param → Nat → Except StdError (Bool × Param × Nat)}

/-- The second pass ends at the first member that is refused. -/
theorem decodeTails_fails {ps rs : List Param}
    (h : List.Forall₂ (fun p r => if p.isDynamic then Outcome buf dec p r else Holds p r) ps rs)
    (hread : ∀ p ∈ ps, p.readable = true) (hbad : ∃ p ∈ ps, p.decodable = false) (offset : Nat)
    (hat : At buf offset (HeadTail.tails (ps.map Param.part))) :
    ∃ rs' off, decodeTails dec rs offset = .ok (false, rs', off) := by
  induction h generalizing offset with
  | nil =>
    obtain ⟨p, hp, _⟩ := hbad
    exact absurd hp List.not_mem_nil
  | @cons p r ps rs hp _ ih =>
    rw [List.forall_mem_cons] at hread
    rw [List.map_cons, HeadTail.tails_cons] at hat
    obtain ⟨htail, hrest⟩ := hat.split
    by_cases hdec : p.decodable = true
    · -- This one is read or has been; the refused one is further on.
      have hbad' : ∃ q ∈ ps, q.decodable = false := by
        obtain ⟨q, hq, hqbad⟩ := hbad
        rcases List.mem_cons.mp hq with rfl | hq
        · rw [hdec] at hqbad
          cases hqbad
        · exact ⟨q, hq, hqbad⟩
      obtain ⟨rs', off, hrs'⟩ := ih hread.2 hbad' _ hrest
      -- A tail is read before the pass goes on, where there is one.
      cases hd : p.isDynamic with
      | true =>
        rw [if_pos hd, Outcome, if_pos hdec] at hp
        simp only [Param.part, HeadTail.Part.tail, hd, if_true] at htail hrs'
        obtain ⟨r', hr', _⟩ := hp.reads offset htail
        refine ⟨r' :: rs', off, ?_⟩
        rw [decodeTails, hp.isDynamic_eq, hd]
        simp only [hr', hrs', bind, Except.bind, if_true]
      | false =>
        rw [if_neg (by simp [hd])] at hp
        simp only [Param.part, HeadTail.Part.tail, hd, Bool.false_eq_true, if_false,
          List.length_nil, Nat.add_zero] at hrs'
        refine ⟨r :: rs', off, ?_⟩
        rw [decodeTails, hp.isDynamic_eq, hd]
        simp only [hrs', bind, Except.bind, Bool.false_eq_true, if_false]
    · -- What is refused is dynamic, so this pass meets it.
      have hd := Param.isDynamic_of_refused hread.1 (by simpa using hdec)
      rw [if_pos hd, Outcome, if_neg hdec] at hp
      simp only [Param.part, HeadTail.Part.tail, hd, if_true] at htail
      obtain ⟨r', off, hr'⟩ := hp.fails offset htail
      refine ⟨r' :: rs, off, ?_⟩
      rw [decodeTails, hp.isDynamic_eq, hd]
      simp only [hr', bind, Except.bind, if_true, Bool.false_eq_true, if_false]

theorem decodeSet_fails {ps rs : List Param} (h : List.Forall₂ (Outcome buf dec) ps rs)
    (hread : ∀ p ∈ ps, p.readable = true) (hbad : ∃ p ∈ ps, p.decodable = false) (offset : Nat)
    (hat : At buf offset (ParamSet.encode ps [])) :
    ∃ rs' off, decodeSet buf dec rs offset = .ok (false, rs', off) := by
  have hlaid : ∀ p ∈ ps, p.Laid := fun p hp => Param.laid_of_readable (hread p hp)
  -- A static member is never refused, so the first pass succeeds.
  have hheads : List.Forall₂
      (fun p r => if p.isDynamic then Outcome buf dec p r else Reads buf dec p r) ps rs := by
    clear hat hlaid hbad
    induction h with
    | nil => exact .nil
    | @cons p r ps rs hp _ ih =>
      rw [List.forall_mem_cons] at hread
      refine .cons ?_ (ih hread.2)
      split
      · exact hp
      · rename_i hd
        have hdec : p.decodable = true := by
          by_contra hno
          exact hd (Param.isDynamic_of_refused hread.1 (by simpa using hno))
        rwa [Outcome, if_pos hdec] at hp
  rw [ParamSet.encode_eq_layout ps hlaid, List.nil_append, HeadTail.layout,
    HeadTail.heads_eq_headsFrom] at hat
  obtain ⟨hat₁, hat₂⟩ := hat.split
  obtain ⟨mid, hmid, hafter⟩ := decodeHeads_pass (fun _ _ hp => hp.isDynamic_eq) hheads _ _ hat₁
  obtain ⟨rs', off, hrs'⟩ := decodeTails_fails hafter hread hbad _ hat₂
  refine ⟨rs', off, ?_⟩
  rw [decodeSet, hmid]
  simp only [bind, Except.bind, if_true, hrs']

end Passes

/-! ### One parameter -/

/-- What the induction proves of a parameter: every receiver of its type reads it back or
    refuses it. -/
def Settled (buf : Bytes) (p : Param) : Prop :=
  ∀ (t : Ty) (r : Param) (fuel : Nat), p.HasTy t → r.HasTy t → r.prototype = true →
    r.depth ≤ fuel → Outcome buf (Param.decodeTo buf fuel) p r

theorem Param.settled_of_decodable {buf : Bytes} {p : Param} (hdec : p.decodable = true) :
    Settled buf p :=
  fun t r fuel hty hr hproto hfuel =>
    .of_reads hdec (Param.readBack buf p hdec t r fuel hty hr hproto hfuel)

theorem Param.settled_array {buf : Bytes} {ps : List Param} (hread : ∀ p ∈ ps, p.readable = true)
    (ih : ∀ p ∈ ps, Settled buf p) : Settled buf (.array ps) := by
  intro t r fuel hty hr hproto hfuel
  by_cases hdec : (Param.array ps).decodable = true
  · exact Param.settled_of_decodable hdec t r fuel hty hr hproto hfuel
  rw [Outcome, if_neg hdec]
  obtain ⟨e, rfl, helems⟩ := hty
  obtain ⟨r, fuel, rfl, rfl, hre, hr1, hdepth⟩ := receiver_array hr hproto hfuel
  refine ⟨rfl, fun offset hat => ?_⟩
  rw [Param.encode_array] at hat
  obtain ⟨hset, helemsRead⟩ := hat.decodeElems hread (Param.decodeTo buf fuel) r
  rw [Param.decodeTo, helemsRead]
  by_cases hempty : ps = []
  · -- The length is below the one element of the receiver.
    rw [if_pos hempty]
    exact ⟨_, _, rfl⟩
  · obtain ⟨rs, hgrow, hlen, hrep⟩ := growTo_prototype hr1 (List.length_pos_iff.mpr hempty)
    have houtcome : List.Forall₂ (Outcome buf (Param.decodeTo buf fuel)) ps rs := by
      refine forall₂_of_forall_mem hlen.symm fun p hp r' hr' => ?_
      have h := hrep r' hr'
      exact ih p hp e r' fuel (elemsHaveTy_iff.mp helems p hp) (h.hasTy e hre) h.prototype
        (Nat.le_trans h.depth_le hdepth)
    have hbad : ∃ p ∈ ps, p.decodable = false := by
      by_contra hno
      refine hdec (decodable_array_iff.mpr ⟨hempty, fun p hp => ?_⟩)
      by_contra hp'
      exact hno ⟨p, hp, by simpa using hp'⟩
    obtain ⟨rs', off, hrs'⟩ := decodeSet_fails houtcome hread hbad _ hset
    rw [if_neg hempty, hgrow]
    simp only [bind, Except.bind, decodeValues, hrs']
    exact ⟨_, _, rfl⟩

theorem Param.settled (buf : Bytes) (p : Param) (hread : p.readable = true) : Settled buf p := by
  induction p using Param.inductionOn with
  | array ps ih =>
    have hall := allReadable_iff.mp hread
    exact Param.settled_array hall fun p hp => ih p hp (hall p hp)
  | arrayFix ps _ => exact absurd hread (by simp [Param.readable])
  | parameters ps _ => exact absurd hread (by simp [Param.readable])
  | _ => exact Param.settled_of_decodable hread

theorem Param.tupleFree_of_readable (p : Param) (h : p.readable = true) : p.tupleFree = true := by
  induction p using Param.inductionOn with
  | array ps ih =>
    have hall := allReadable_iff.mp h
    exact allTupleFree_iff.mpr fun p hp => ih p hp (hall p hp)
  | arrayFix ps _ => exact absurd h (by simp [Param.readable])
  | parameters ps _ => exact absurd h (by simp [Param.readable])
  | _ => rfl

/-! ### Types and values of outputs -/

/-- The types considered: unsigned numbers, `bool`, `address`, `bytesN`, `bytes`, `string`
    and dynamic arrays of such. -/
def IsOutput : Ty → Prop
  | .uint bits => bits % 8 = 0 ∧ 8 ≤ bits ∧ bits ≤ 256
  | .bool | .address | .bytes | .string => True
  | .bytesN n => 1 ≤ n ∧ n ≤ 32
  | .array t => IsOutput t
  | .int _ | .fixArray _ _ | .tuple _ => False

/-- The values of these types; an array may have any length. -/
def IsValue : Ty → Val → Prop
  | .uint bits, .num x => 0 ≤ x ∧ x < 2 ^ bits
  | .bool, .num x => 0 ≤ x ∧ x ≤ 1
  | .address, .num x => 0 ≤ x ∧ x < 2 ^ 160
  | .bytesN n, .bytes b => b.length = n
  | .bytes, .bytes _ | .string, .bytes _ => True
  | .array t, .seq vs => ∀ v ∈ vs, IsValue t v
  | _, _ => False

mutual
/-- No array of length zero occurs in the value. -/
def noEmptyArray : Val → Bool
  | .num _ | .bytes _ => true
  | .seq vs => !vs.isEmpty && allNoEmptyArray vs

def allNoEmptyArray : List Val → Bool
  | [] => true
  | v :: vs => noEmptyArray v && allNoEmptyArray vs
end

mutual
/-- The lengths of the arrays in a value, at every level. -/
def lengths : Val → Val
  | .num _ | .bytes _ => .num 0
  | .seq vs => .seq (allLengths vs)

def allLengths : List Val → List Val
  | [] => []
  | v :: vs => lengths v :: allLengths vs
end

theorem allNoEmptyArray_toVals {ps : List Param} :
    allNoEmptyArray (toVals ps) = true ↔ ∀ p ∈ ps, noEmptyArray p.toVal = true := by
  induction ps with
  | nil => simp [allNoEmptyArray, toVals]
  | cons p ps ih => simp [allNoEmptyArray, toVals, ih]

/-- A readable parameter can be read back exactly when no array in it is empty. -/
theorem Param.decodable_iff (p : Param) (hread : p.readable = true) :
    p.decodable = true ↔ noEmptyArray p.toVal = true := by
  induction p using Param.inductionOn with
  | array ps ih =>
    have hall := allReadable_iff.mp hread
    have hvals : (toVals ps).isEmpty = ps.isEmpty := by cases ps <;> rfl
    rw [decodable_array_iff, Param.toVal, noEmptyArray, Bool.and_eq_true, hvals,
      allNoEmptyArray_toVals, Bool.not_eq_true', List.isEmpty_eq_false_iff]
    exact and_congr_right fun _ => forall₂_congr fun p hp => ih p hp (hall p hp)
  | arrayFix ps _ => exact absurd hread (by simp [Param.readable])
  | parameters ps _ => exact absurd hread (by simp [Param.readable])
  | _ => exact iff_of_true hread rfl

/-- An unsigned number has an object of its width. -/
theorem exists_uint {bits : Nat} (hbits : IsOutput (.uint bits)) {x : Int} (hlo : 0 ≤ x)
    (hhi : x < 2 ^ bits) :
    ∃ p : Param, p.HasTy (.uint bits) ∧ p.readable = true ∧ p.prototype = true ∧
      p.toVal = .num x := by
  have hmul : bits % 8 = 0 ∧ 8 ≤ bits ∧ bits ≤ 256 := hbits
  by_cases h8 : bits = 8
  · subst h8
    exact ⟨.number .uint8 ⟨x, hlo, by simp only [NumberType.greatest]; omega⟩, rfl, rfl, rfl, rfl⟩
  by_cases h16 : bits = 16
  · subst h16
    exact ⟨.number .uint16 ⟨x, hlo, by simp only [NumberType.greatest]; omega⟩, rfl, rfl, rfl, rfl⟩
  by_cases h32 : bits = 32
  · subst h32
    exact ⟨.number .uint32 ⟨x, hlo, by simp only [NumberType.greatest]; omega⟩, rfl, rfl, rfl, rfl⟩
  by_cases h64 : bits = 64
  · subst h64
    exact ⟨.number .uint64 ⟨x, hlo, by simp only [NumberType.greatest]; omega⟩, rfl, rfl, rfl, rfl⟩
  by_cases h256 : bits = 256
  · subst h256
    exact ⟨.number .uint256 ⟨x, hlo, by simp only [NumberType.greatest]; omega⟩, rfl, rfl, rfl, rfl⟩
  · -- The other widths are those of `ParamUIntN`.
    obtain ⟨n, rfl⟩ := Int.eq_ofNat_of_zero_le hlo
    have hn : n < 2 ^ bits := by exact_mod_cast hhi
    refine ⟨.uintN ⟨bits, by omega⟩ ⟨n, hn⟩, rfl, rfl, rfl, rfl⟩

/-- Every value is that of a readable object. -/
theorem exists_readable (t : Ty) (ht : IsOutput t) (v : Val) (hv : IsValue t v) :
    ∃ p : Param, p.HasTy t ∧ p.readable = true ∧ p.toVal = v := by
  induction t using Ty.inductionOn generalizing v with
  | uint bits =>
    cases v with
    | num x =>
      obtain ⟨p, hty, hread, _, hval⟩ := exists_uint ht hv.1 hv.2
      exact ⟨p, hty, hread, hval⟩
    | _ => exact hv.elim
  | bool =>
    cases v with
    | num x => exact ⟨.number .bool ⟨x, hv⟩, rfl, rfl, rfl⟩
    | _ => exact hv.elim
  | address =>
    cases v with
    | num x =>
      obtain ⟨n, rfl⟩ := Int.eq_ofNat_of_zero_le hv.1
      have hn : n < 2 ^ 160 := by exact_mod_cast hv.2
      exact ⟨.address ⟨n, hn⟩, rfl, rfl, rfl⟩
    | _ => exact hv.elim
  | bytesN n =>
    cases v with
    | bytes b =>
      have hread : (Param.byteArrayFix n b).readable = true := decide_eq_true ⟨ht.1, ht.2, hv⟩
      exact ⟨.byteArrayFix n b, rfl, hread, rfl⟩
    | _ => exact hv.elim
  | bytes =>
    cases v with
    | bytes b => exact ⟨.byteArray b, rfl, rfl, rfl⟩
    | _ => exact hv.elim
  | string =>
    cases v with
    | bytes b => exact ⟨.string b, rfl, rfl, rfl⟩
    | _ => exact hv.elim
  | array t ih =>
    cases v with
    | seq vs =>
      -- One object for each element.
      have helems : ∃ ps : List Param, (∀ p ∈ ps, p.HasTy t ∧ p.readable = true) ∧
          toVals ps = vs := by
        replace hv : ∀ v ∈ vs, IsValue t v := hv
        induction vs with
        | nil => exact ⟨[], by simp, rfl⟩
        | cons v vs ihvs =>
          rw [List.forall_mem_cons] at hv
          obtain ⟨p, hty, hread, hval⟩ := ih ht v hv.1
          obtain ⟨ps, hps, hvals⟩ := ihvs hv.2
          exact ⟨p :: ps, List.forall_mem_cons.mpr ⟨⟨hty, hread⟩, hps⟩, by rw [toVals, hval, hvals]⟩
      obtain ⟨ps, hps, hvals⟩ := helems
      refine ⟨.array ps, ⟨t, rfl, elemsHaveTy_iff.mpr fun p hp => (hps p hp).1⟩, ?_, ?_⟩
      · exact allReadable_iff.mpr fun p hp => (hps p hp).2
      · rw [Param.toVal, hvals]
    | _ => exact hv.elim
  | int bits => exact ht.elim
  | fixArray t k _ => exact ht.elim
  | tuple ts _ => exact ht.elim

/-- Every type has a prototype. -/
theorem exists_prototype (t : Ty) (ht : IsOutput t) :
    ∃ r : Param, r.HasTy t ∧ r.prototype = true := by
  induction t using Ty.inductionOn with
  | uint bits =>
    obtain ⟨p, hty, _, hproto, _⟩ := exists_uint ht (Int.le_refl 0) (by positivity)
    exact ⟨p, hty, hproto⟩
  | bool => exact ⟨.number .bool ⟨0, by decide⟩, rfl, rfl⟩
  | address => exact ⟨.address ⟨0, by decide⟩, rfl, rfl⟩
  | bytesN n =>
    exact ⟨.byteArrayFix n [], rfl, decide_eq_true ⟨ht.1, ht.2, Nat.zero_le n⟩⟩
  | bytes => exact ⟨.byteArray [], rfl, rfl⟩
  | string => exact ⟨.string [], rfl, rfl⟩
  | array t ih =>
    obtain ⟨r, hty, hproto⟩ := ih ht
    exact ⟨.array [r], ⟨t, rfl, hty, trivial⟩, hproto⟩
  | int bits => exact ht.elim
  | fixArray t k _ => exact ht.elim
  | tuple ts _ => exact ht.elim

/-- What the factory makes of a type text can receive a value of the type. -/
theorem make_typeText {t : Ty} (ht : IsOutput t) {r : Param}
    (hr : make (typeText t) = .ok (some r)) : r.HasTy t ∧ r.prototype = true := by
  obtain ⟨r₀, hty, hproto⟩ := exists_prototype t ht
  obtain ⟨q, hq, hrep⟩ := make_getType r₀ hproto
  rw [r₀.getType_eq_typeText (r₀.named_of_prototype hproto) t hty, hr] at hq
  rw [Option.some.inj (Except.ok.inj hq)]
  exact ⟨hrep.hasTy t hty, hrep.prototype⟩

/-! ### Outputs of a function -/

/-- `decodeOutput` succeeds and leaves every array with the encoded number of elements. -/
def AcceptsOutput (f : Function) (buf : Bytes) (offset : Nat) (vs : List Val) : Prop :=
  ∃ f' off, f.decodeOutput buf offset = .ok (true, f', off) ∧
    f'.outParams.map (fun r => lengths r.toVal) = vs.map lengths

theorem exists_readables {ts : List Ty} {vs : List Val} (hts : ∀ t ∈ ts, IsOutput t)
    (hvs : List.Forall₂ IsValue ts vs) :
    ∃ ps : List Param, List.Forall₂ Param.HasTy ps ts ∧ (∀ p ∈ ps, p.readable = true) ∧
      ps.map Param.toVal = vs := by
  induction hvs with
  | nil => exact ⟨[], .nil, by simp, rfl⟩
  | @cons t v ts vs hv _ ih =>
    rw [List.forall_mem_cons] at hts
    obtain ⟨p, hty, hread, hval⟩ := exists_readable t hts.1 v hv
    obtain ⟨ps, htys, hreads, hvals⟩ := ih hts.2
    exact ⟨p :: ps, .cons hty htys, List.forall_mem_cons.mpr ⟨hread, hreads⟩,
      by rw [List.map_cons, hval, hvals]⟩

/-- The objects the factory made settle what the encoded parameters are. -/
theorem outcomes_of_made {buf : Bytes} {ps rs : List Param} {ts : List Ty}
    (hps : List.Forall₂ Param.HasTy ps ts) (hread : ∀ p ∈ ps, p.readable = true)
    (hts : ∀ t ∈ ts, IsOutput t)
    (hrs : List.Forall₂ (fun t r => make (typeText t) = .ok (some r)) ts rs) {fuel : Nat}
    (hfuel : ∀ r ∈ rs, r.depth ≤ fuel) :
    List.Forall₂ (Outcome buf (Param.decodeTo buf fuel)) ps rs := by
  induction hps generalizing rs with
  | nil =>
    cases hrs
    exact .nil
  | cons hp _ ih =>
    cases hrs with
    | cons hr hrs =>
      rw [List.forall_mem_cons] at hread hts hfuel
      obtain ⟨hty, hproto⟩ := make_typeText hts.1 hr
      exact .cons (Param.settled buf _ hread.1 _ _ fuel hp hty hproto hfuel.1)
        (ih hread.2 hts.2 hrs hfuel.2)

theorem reads_of_outcomes {buf : Bytes}
    {dec : Param → Nat → Except StdError (Bool × Param × Nat)} {ps rs : List Param}
    (h : List.Forall₂ (Outcome buf dec) ps rs) (hdec : ∀ p ∈ ps, p.decodable = true) :
    List.Forall₂ (Reads buf dec) ps rs := by
  induction h with
  | nil => exact .nil
  | cons hp _ ih =>
    rw [List.forall_mem_cons] at hdec
    rw [Outcome, if_pos hdec.1] at hp
    exact .cons hp (ih hdec.2)

section Output

variable {ts : List Ty} {vs : List Val} {rs : List Param} {buf : Bytes} {pre post : Data}

/-- The buffer holds what some objects with the values encode to, and each of them is read
    or refused. -/
theorem exists_outcomes (hts : ∀ t ∈ ts, IsOutput t) (hvs : List.Forall₂ IsValue ts vs)
    (hrs : List.Forall₂ (fun t r => make (typeText t) = .ok (some r)) ts rs)
    (hbuf : buf.toList = pre ++ encArgs ts vs ++ post) :
    ∃ ps : List Param, ps.map Param.toVal = vs ∧ (∀ p ∈ ps, p.readable = true) ∧
      (∀ p ∈ ps, p.Laid) ∧ At buf pre.length (ParamSet.encode ps []) ∧
      List.Forall₂ (Outcome buf (Param.decodeTo buf (maxDepth rs))) ps rs := by
  obtain ⟨ps, hps, hread, rfl⟩ := exists_readables hts hvs
  have hconf : List.Forall₂ Conforms ps ts := forall₂_conforms hps
    (fun p hp => (p.facts_of_readable (hread p hp)).1)
    (fun p hp => (p.facts_of_readable (hread p hp)).2.1)
    (fun p hp => p.tupleFree_of_readable (hread p hp))
  have hlaid : ∀ p ∈ ps, p.Laid := fun p hp => Param.laid_of_readable (hread p hp)
  have hat : At buf pre.length (ParamSet.encode ps []) := by
    rw [encode_of_conforms hconf hlaid, List.nil_append]
    exact at_append hbuf
  exact ⟨ps, rfl, hread, hlaid, hat,
    outcomes_of_made hps hread hts hrs fun r hr => depth_le_maxDepth hr⟩

theorem noEmptyArray_toVal_iff {ps : List Param} (hread : ∀ p ∈ ps, p.readable = true) :
    (∀ v ∈ ps.map Param.toVal, noEmptyArray v = true) ↔ ∀ p ∈ ps, p.decodable = true := by
  rw [List.forall_mem_map]
  exact forall₂_congr fun p hp => (p.decodable_iff (hread p hp)).symm

/-- Values without an empty array are read. -/
theorem decodeOutput_reads (hts : ∀ t ∈ ts, IsOutput t) (hvs : List.Forall₂ IsValue ts vs)
    (hrs : List.Forall₂ (fun t r => make (typeText t) = .ok (some r)) ts rs)
    (hbuf : buf.toList = pre ++ encArgs ts vs ++ post)
    (hne : ∀ v ∈ vs, noEmptyArray v = true) (name : Str) (inParams : List Param) :
    ∃ rs' off, Function.decodeOutput ⟨name, inParams, rs⟩ buf pre.length =
        .ok (true, ⟨name, inParams, rs'⟩, off) ∧ rs'.map Param.toVal = vs := by
  obtain ⟨ps, rfl, hread, hlaid, hat, houtcomes⟩ := exists_outcomes hts hvs hrs hbuf
  have hdec := (noEmptyArray_toVal_iff hread).mp hne
  obtain ⟨rs', hrs', hholds⟩ :=
    decodeSet_reads hlaid (reads_of_outcomes houtcomes hdec) pre.length hat
  have hvals := (holds_of_forall₂ hholds).1
  rw [toVals_eq_map, toVals_eq_map] at hvals
  refine ⟨rs', pre.length + (ParamSet.encode ps []).length, ?_, hvals⟩
  rw [Function.decodeOutput, ParamSet.decode, hrs']
  rfl

end Output

/-- `decodeOutput` accepts the encoding of a list of values, anywhere in a buffer, exactly
    when no array of length zero occurs in them. -/
theorem decodeOutput_accepts_iff (ts : List Ty) (vs : List Val) (rs : List Param)
    (hts : ∀ t ∈ ts, IsOutput t) (hvs : List.Forall₂ IsValue ts vs)
    (hrs : List.Forall₂ (fun t r => make (typeText t) = .ok (some r)) ts rs)
    (name : Str) (inParams : List Param) (buf : Bytes) (pre post : Data)
    (hbuf : buf.toList = pre ++ encArgs ts vs ++ post) :
    AcceptsOutput ⟨name, inParams, rs⟩ buf pre.length vs ↔ ∀ v ∈ vs, noEmptyArray v = true := by
  constructor
  · rintro ⟨f', off, hok, _⟩
    obtain ⟨ps, rfl, hread, -, hat, houtcomes⟩ := exists_outcomes hts hvs hrs hbuf
    rw [noEmptyArray_toVal_iff hread]
    by_contra hno
    have hbad : ∃ p ∈ ps, p.decodable = false := by simpa using hno
    obtain ⟨rs', off', hrs'⟩ := decodeSet_fails houtcomes hread hbad pre.length hat
    rw [Function.decodeOutput, ParamSet.decode, hrs'] at hok
    cases hok
  · intro hne
    obtain ⟨rs', off, hok, hvals⟩ := decodeOutput_reads hts hvs hrs hbuf hne name inParams
    refine ⟨_, off, hok, ?_⟩
    rw [← hvals, List.map_map]
    rfl

/-- What the factory makes of `uint256[]`. -/
def numbers : Param := .array [.number .uint256 (NumberType.ofUInt256 _ (uint256 0))]

theorem make_numbers : make (typeText (.array (.uint 256))) = .ok (some numbers) := by
  have helem : make "uint256".toList = .ok (some (.number .uint256 ⟨0, by decide⟩)) :=
    make_of_not_array _ (by decide)
  have htext : typeText (.array (.uint 256)) = "uint256".toList ++ "[]".toList := by decide
  rw [htext, make_array (by decide), helem]
  rfl

/-- The output of a function that returns `[7]`. -/
def oneNumber : Bytes := ⟨word 32 ++ word 1 ++ word 7, by decide⟩

theorem decodeOutput_accepts_oneNumber :
    AcceptsOutput ⟨"f".toList, [], [numbers]⟩ oneNumber 0 [.seq [.num 7]] :=
  (decodeOutput_accepts_iff [.array (.uint 256)] [.seq [.num 7]] [numbers]
    (by simp [IsOutput]) (.cons (by simp [IsValue]) .nil) (.cons make_numbers .nil) "f".toList []
    oneNumber [] [] (by decide)).mpr (by decide)

/-- The output of a function that returns an empty array. -/
def noNumber : Bytes := ⟨word 32 ++ word 0, by decide⟩

/-- It is the canonical encoding, and `decodeOutput` returns false. -/
theorem decodeOutput_refuses_noNumber :
    make (typeText (.array (.uint 256))) = .ok (some numbers) ∧
    noNumber.toList = encArgs [.array (.uint 256)] [.seq []] ∧
    Function.decodeOutput ⟨"f".toList, [], [numbers]⟩ noNumber 0 =
      .ok (false, ⟨"f".toList, [], [numbers]⟩, 64) := by
  exact ⟨make_numbers, by decide, rfl⟩

end ConfluxSdk.Abi
