import ConfluxSdk.Spec.AbiFactoryCorrect

/-!
# Which type texts the factory represents

`ParamFactory::make` tells types apart by prefix, and reads a size with `std::stoi`,
which skips white space, takes a sign and leading zeros and ignores whatever follows
the digits. The object is built from the number alone, so it has the type that was
asked for only when the size stands there as its decimal text.

## Key results

- `make_eq_or`: what the factory makes of a text that is no array type, in four cases
- `make_represents_iff`: the type of what is made is the text, and no unsupported width
  is taken, exactly when sizes are decimal texts, and those of `bytes` in range
-/

namespace ConfluxSdk.Abi

/-! ### Type texts -/

/-- The type with a base type `uint` or `int` written out. -/
def writtenOut (type : Str) : Str :=
  if _h : isArrayType type = true then writtenOut (getArrayElemType type) ++ "[]".toList
  else if type = "uint".toList then "uint256".toList
  else if type = "int".toList then "int256".toList
  else type
termination_by type.length
decreasing_by exact length_getArrayElemType_lt _h

/-- The type below all trailing `[]`. -/
def baseType (type : Str) : Str :=
  if _h : isArrayType type = true then baseType (getArrayElemType type) else type
termination_by type.length
decreasing_by exact length_getArrayElemType_lt _h

theorem writtenOut_array {elem : Str} (h : elem ≠ []) :
    writtenOut (elem ++ "[]".toList) = writtenOut elem ++ "[]".toList := by
  rw [writtenOut, dif_pos (isArrayType_append h), getArrayElemType_append h]

theorem baseType_array {elem : Str} (h : elem ≠ []) :
    baseType (elem ++ "[]".toList) = baseType elem := by
  rw [baseType, dif_pos (isArrayType_append h), getArrayElemType_append h]

theorem baseType_of_not_array {type : Str} (h : isArrayType type = false) :
    baseType type = type := by
  rw [baseType, dif_neg (by simp [h])]

theorem writtenOut_of_not_array {type : Str} (h : isArrayType type = false)
    (huint : type ≠ "uint".toList) (hint : type ≠ "int".toList) : writtenOut type = type := by
  rw [writtenOut, dif_neg (by simp [h]), if_neg huint, if_neg hint]

/-- An array type is an element type and a `[]`. -/
theorem eq_append_of_isArrayType {type : Str} (h : isArrayType type = true) :
    ∃ elem, elem ≠ [] ∧ type = elem ++ "[]".toList := by
  rw [isArrayType, Bool.and_eq_true, List.isSuffixOf_iff_suffix, decide_eq_true_eq] at h
  obtain ⟨⟨elem, rfl⟩, hlen⟩ := h
  refine ⟨elem, ?_, rfl⟩
  rintro rfl
  simp at hlen

/-- Induction over the trailing `[]` of a type. -/
theorem typeInduction {P : Str → Prop} (base : ∀ type, isArrayType type = false → P type)
    (array : ∀ elem, elem ≠ [] → P elem → P (elem ++ "[]".toList)) (type : Str) : P type := by
  induction hlen : type.length using Nat.strong_induction_on generalizing type with
  | _ n ih =>
    cases harr : isArrayType type with
    | false => exact base type harr
    | true =>
      obtain ⟨elem, hne, rfl⟩ := eq_append_of_isArrayType harr
      have hlt : elem.length < n := by
        rw [← hlen, List.length_append]
        simp
      exact array elem hne (ih _ hlt elem rfl)

/-! ### What the factory makes of a text that is no array type -/

/-- No size text follows a stem that the factory reads sizes after. -/
structure Unsized (type : Str) : Prop where
  uint : ∀ size n, ¬ Sized admittedBitSize "uint".toList type size n
  int : ∀ size n, ¬ Sized admittedBitSize "int".toList type size n
  bytes : ∀ size n, ¬ Sized (0 ≤ ·) "bytes".toList type size n

theorem stoi_of_parseBitSize {size : Str} {bits : BitSize} (h : parseBitSize size = .ok bits) :
    ∃ n, stoi size = .ok n ∧ admittedBitSize n := by
  rw [parseBitSize] at h
  cases hn : stoi size with
  | error e =>
    rw [hn] at h
    cases h
  | ok n =>
    rw [hn] at h
    by_cases hadm : admittedBitSize n
    · exact ⟨n, rfl, hadm⟩
    · replace h : (if h : admittedBitSize n then _ else _) = _ := h
      rw [dif_neg hadm] at h
      cases h

/-- Nothing is made, or an object of the type the text names, of a supported width. -/
private def Fits (type : Str) (o : Option Param) : Prop :=
  ∀ p, o = some p → p.getType = writtenOut type ∧ p.prototype = true

private theorem fits_some {type : Str} {p : Param} (h : p.getType = writtenOut type)
    (hproto : p.prototype = true) :
    (Except.ok (some p) : Except StdError (Option Param)).Ensures (Fits type) := by
  refine Except.ensures_ok ?_
  intro q hq
  rw [← Option.some.inj hq]
  exact ⟨h, hproto⟩

private theorem fits_name {type text : Str} {p : Param} (htype : type = text)
    (hp : p.getType = text) (hproto : p.prototype = true) (harr : isArrayType text = false)
    (hnot : text ≠ "uint".toList ∧ text ≠ "int".toList) :
    (Except.ok (some p) : Except StdError (Option Param)).Ensures (Fits type) := by
  refine fits_some ?_ hproto
  rw [htype, hp, writtenOut_of_not_array harr hnot.1 hnot.2]

/-- No size is read after a stem of an unsized text. -/
theorem Unsized.parseBitSize_fails {type stem : Str} (k : Nat) (hk : stem.length = k)
    (hno : ∀ size n, ¬ Sized admittedBitSize stem type size n)
    (hpre : stem.isPrefixOf type = true) :
    (parseBitSize (type.drop k)).Ensures fun _ => False := by
  intro bits hbits
  obtain ⟨n, hn, hadm⟩ := stoi_of_parseBitSize hbits
  obtain ⟨size, rfl⟩ := List.isPrefixOf_iff_prefix.mp hpre
  rw [← hk, List.drop_left] at hn
  exact hno size n ⟨rfl, hn, hadm⟩

/-- Away from sizes the factory goes by the whole name. -/
theorem Unsized.getType_eq {type : Str} (h : Unsized type) {p : Param}
    (hp : makeElementary type = .ok (some p)) :
    p.getType = writtenOut type ∧ p.prototype = true := by
  suffices hfits : (makeElementary type).Ensures (Fits type) from hfits (some p) hp p rfl
  rw [makeElementary]
  refine Except.ensures_ite (fun ht => fits_name ht rfl rfl (by decide) (by decide)) fun _ => ?_
  refine Except.ensures_ite (fun ht => fits_name ht rfl rfl (by decide) (by decide)) fun _ => ?_
  refine Except.ensures_ite (fun ht => fits_name ht rfl rfl (by decide) (by decide)) fun _ => ?_
  refine Except.ensures_ite (fun ht => fits_name ht rfl rfl (by decide) (by decide)) fun _ => ?_
  refine Except.ensures_ite (fun ht => fits_name ht rfl rfl (by decide) (by decide)) fun _ => ?_
  refine Except.ensures_ite (fun ht => ?_) fun _ => ?_
  · rcases ht with ht | ht
    · exact fits_name ht rfl rfl (by decide) (by decide)
    · -- The bare name is written out.
      refine fits_some ?_ rfl
      rw [ht, writtenOut, dif_neg (by decide), if_pos rfl]
      rfl
  refine Except.ensures_ite (fun ht => fits_name ht rfl rfl (by decide) (by decide)) fun _ => ?_
  refine Except.ensures_ite (fun ht => fits_name ht rfl rfl (by decide) (by decide)) fun _ => ?_
  refine Except.ensures_ite (fun ht => fits_name ht rfl rfl (by decide) (by decide)) fun _ => ?_
  refine Except.ensures_ite (fun ht => fits_name ht rfl rfl (by decide) (by decide)) fun _ => ?_
  refine Except.ensures_ite (fun ht => ?_) fun _ => ?_
  · rcases ht with ht | ht
    · exact fits_name ht rfl rfl (by decide) (by decide)
    · refine fits_some ?_ rfl
      rw [ht, writtenOut, dif_neg (by decide), if_neg (by decide), if_pos rfl]
      rfl
  -- After a stem there is no size to read.
  refine Except.ensures_ite (fun hpre => ?_) fun _ => ?_
  · exact Except.Ensures.bind (Unsized.parseBitSize_fails 4 rfl h.uint hpre) fun _ hf => hf.elim
  refine Except.ensures_ite (fun hpre => ?_) fun _ => ?_
  · exact Except.Ensures.bind (Unsized.parseBitSize_fails 3 rfl h.int hpre) fun _ hf => hf.elim
  refine Except.ensures_ite (fun ht => fits_name ht rfl rfl (by decide) (by decide)) fun _ => ?_
  refine Except.ensures_ite (fun ht => fits_name ht rfl rfl (by decide) (by decide)) fun _ => ?_
  refine Except.ensures_ite (fun hpre => ?_) fun _ => ?_
  · obtain ⟨size, rfl⟩ := List.isPrefixOf_iff_prefix.mp hpre
    have hdrop : ("bytes".toList ++ size).drop 5 = size := rfl
    have hneg : (stoi size).Ensures fun n => n < 0 := by
      intro n hn
      by_contra hnn
      exact h.bytes size n ⟨rfl, hn, not_lt.mp hnn⟩
    rw [hdrop]
    refine hneg.bind fun n hn => ?_
    rw [if_pos hn]
    exact Except.ensures_error _
  refine Except.ensures_ite (fun ht => fits_name ht rfl rfl (by decide) (by decide)) fun _ => ?_
  refine Except.ensures_ok ?_
  intro q hq
  cases hq

/-! ### What is represented -/

/-- What the factory makes has the type that was asked for. -/
def KeepsType (type : Str) : Prop :=
  ∀ p, make type = .ok (some p) → p.getType = writtenOut type

/-- The factory makes no object of a width that Solidity does not have. -/
def WidthsSupported (type : Str) : Prop :=
  ∀ p, make type = .ok (some p) → p.prototype = true

/-- An admitted size after the stem stands there as its decimal text. -/
def PlainSize (admitted : Int → Prop) (stem type : Str) : Prop :=
  ∀ size n, Sized admitted stem type size n → size = to_string n.toNat

/-- The sizes the factory reads in the base type are decimal texts. -/
structure SizeAsWritten (type : Str) : Prop where
  uint : PlainSize admittedBitSize "uint".toList (baseType type)
  int : PlainSize admittedBitSize "int".toList (baseType type)
  bytes : PlainSize (0 ≤ ·) "bytes".toList (baseType type)

/-- A base type `bytesN` has a length Solidity knows. -/
def BytesInRange (type : Str) : Prop :=
  ∀ size n, Sized (0 ≤ ·) "bytes".toList (baseType type) size n → 1 ≤ n ∧ n ≤ 32

theorem keepsType_iff {type : Str} {p : Param} (h : make type = .ok (some p)) :
    KeepsType type ↔ p.getType = writtenOut type := by
  constructor
  · intro hkeeps
    exact hkeeps p h
  · intro hp q hq
    rw [h] at hq
    rwa [← Option.some.inj (Except.ok.inj hq)]

theorem widthsSupported_iff {type : Str} {p : Param} (h : make type = .ok (some p)) :
    WidthsSupported type ↔ p.prototype = true := by
  constructor
  · intro hwidths
    exact hwidths p h
  · intro hp q hq
    rw [h] at hq
    rwa [← Option.some.inj (Except.ok.inj hq)]

section
variable {admitted admitted' : Int → Prop} {stem stem' type size : Str} {n : Int}

/-- After a stem there is one size text, and it is read as one number. -/
theorem Sized.unique (h : Sized admitted stem type size n) {size' : Str} {n' : Int}
    (h' : Sized admitted stem type size' n') : size = size' ∧ n = n' := by
  have heq : size = size' := List.append_cancel_left (h.eq_append.symm.trans h'.eq_append)
  refine ⟨heq, ?_⟩
  have hread := h.stoi_eq
  rw [heq, h'.stoi_eq] at hread
  exact (Except.ok.inj hread).symm

theorem Sized.plainSize_iff (h : Sized admitted stem type size n) :
    PlainSize admitted stem type ↔ size = to_string n.toNat := by
  constructor
  · intro hplain
    exact hplain size n h
  · intro hsize size' n' h'
    rw [(h'.unique h).1, (h'.unique h).2, hsize]

theorem plainSize_of_none (h : ∀ size n, ¬ Sized admitted stem type size n) :
    PlainSize admitted stem type :=
  fun size n hs => absurd hs (h size n)

/-- A text has a size after one stem only. -/
theorem Sized.not_sized (h : Sized admitted stem type size n) {c c' : Char} (hc : stem.head? = some c)
    (hc' : stem'.head? = some c') (hne : c ≠ c') (size' : Str) (n' : Int) :
    ¬ Sized admitted' stem' type size' n' := by
  intro h'
  have hhead : type.head? = some c := by rw [h.eq_append, List.head?_append, hc]; rfl
  have hhead' : type.head? = some c' := by rw [h'.eq_append, List.head?_append, hc']; rfl
  exact hne (Option.some.inj (hhead.symm.trans hhead'))

/-- The type of an object made from a size text is the text just when the size is
    written as its decimal text. -/
theorem Sized.keepsType_iff (h : Sized admitted stem type size n) {p : Param}
    (hmake : make type = .ok (some p)) (hp : p.getType = stem ++ to_string n.toNat)
    (hout : writtenOut type = type) : KeepsType type ↔ size = to_string n.toNat := by
  rw [Abi.keepsType_iff hmake, hp, hout, h.eq_append, List.append_cancel_left_eq]
  exact eq_comm

end

/-! ### Texts that are no array types, and array types -/

/-- A text has a size after one of the stems, or after none. -/
theorem unsized_or (type : Str) :
    Unsized type ∨ (∃ size n, Sized admittedBitSize "uint".toList type size n) ∨
      (∃ size n, Sized admittedBitSize "int".toList type size n) ∨
      ∃ size n, Sized (0 ≤ ·) "bytes".toList type size n := by
  by_cases huint : ∃ size n, Sized admittedBitSize "uint".toList type size n
  · exact .inr (.inl huint)
  by_cases hint : ∃ size n, Sized admittedBitSize "int".toList type size n
  · exact .inr (.inr (.inl hint))
  by_cases hbytes : ∃ size n, Sized (0 ≤ ·) "bytes".toList type size n
  · exact .inr (.inr (.inr hbytes))
  · exact .inl ⟨fun size n h => huint ⟨size, n, h⟩, fun size n h => hint ⟨size, n, h⟩,
      fun size n h => hbytes ⟨size, n, h⟩⟩

/-- Both conditions speak of the base type only. -/
theorem sizeAsWritten_iff {type base : Str} (h : baseType type = base) :
    SizeAsWritten type ↔ PlainSize admittedBitSize "uint".toList base ∧
      PlainSize admittedBitSize "int".toList base ∧ PlainSize (0 ≤ ·) "bytes".toList base := by
  subst h
  exact ⟨fun h => ⟨h.uint, h.int, h.bytes⟩, fun h => ⟨h.1, h.2.1, h.2.2⟩⟩

theorem bytesInRange_iff {type base : Str} (h : baseType type = base) :
    BytesInRange type ↔
      ∀ size n, Sized (0 ≤ ·) "bytes".toList base size n → 1 ≤ n ∧ n ≤ 32 := by
  rw [BytesInRange, h]

/-- The factory keeps the type, and makes no unsupported width, exactly when the sizes of
    the base type are as they should be. -/
def Represents (type : Str) : Prop :=
  (KeepsType type ↔ SizeAsWritten type) ∧ (WidthsSupported type ↔ BytesInRange type)

section Elementary

variable {type size : Str} {n : Int} (harr : isArrayType type = false)
include harr

/-- No size is read, and both conditions speak of none. -/
theorem represents_unsized (h : Unsized type) : Represents type := by
  have hmake := make_of_not_array type harr
  rw [Represents, sizeAsWritten_iff (baseType_of_not_array harr),
    bytesInRange_iff (baseType_of_not_array harr)]
  have hplain := And.intro (plainSize_of_none h.uint)
    (And.intro (plainSize_of_none h.int) (plainSize_of_none h.bytes))
  refine ⟨iff_of_true ?_ hplain, iff_of_true ?_ ?_⟩
  · intro p hp
    exact (h.getType_eq (hmake.symm.trans hp)).1
  · intro p hp
    exact (h.getType_eq (hmake.symm.trans hp)).2
  · intro size n hs
    exact absurd hs (h.bytes size n)

theorem represents_uint (h : Sized admittedBitSize "uint".toList type size n) :
    Represents type := by
  have hmade := (make_of_not_array type harr).trans (makeElementary_uint h)
  have hint : ∀ size n, ¬ Sized admittedBitSize "int".toList type size n :=
    h.not_sized rfl rfl (by decide)
  have hbytes : ∀ size n, ¬ Sized (0 ≤ ·) "bytes".toList type size n :=
    h.not_sized rfl rfl (by decide)
  have hout : writtenOut type = type := by
    refine writtenOut_of_not_array harr h.ne_stem ?_
    rintro rfl
    exact absurd h.eq_append (by simp)
  have hothers := And.intro (plainSize_of_none hint) (plainSize_of_none hbytes)
  rw [Represents, sizeAsWritten_iff (baseType_of_not_array harr),
    bytesInRange_iff (baseType_of_not_array harr), h.keepsType_iff hmade rfl hout,
    widthsSupported_iff hmade, h.plainSize_iff]
  refine ⟨(and_iff_left hothers).symm, iff_of_true rfl ?_⟩
  intro size n hs
  exact absurd hs (hbytes size n)

theorem represents_int (h : Sized admittedBitSize "int".toList type size n) :
    Represents type := by
  obtain ⟨val, hval⟩ := makeElementary_int h
  have hmade := (make_of_not_array type harr).trans hval
  have huint : ∀ size n, ¬ Sized admittedBitSize "uint".toList type size n :=
    h.not_sized rfl rfl (by decide)
  have hbytes : ∀ size n, ¬ Sized (0 ≤ ·) "bytes".toList type size n :=
    h.not_sized rfl rfl (by decide)
  have hout : writtenOut type = type := by
    refine writtenOut_of_not_array harr ?_ h.ne_stem
    rintro rfl
    exact absurd h.eq_append (by simp)
  rw [Represents, sizeAsWritten_iff (baseType_of_not_array harr),
    bytesInRange_iff (baseType_of_not_array harr), h.keepsType_iff hmade rfl hout,
    widthsSupported_iff hmade, h.plainSize_iff, and_iff_right (plainSize_of_none huint),
    and_iff_left (plainSize_of_none hbytes)]
  refine ⟨Iff.rfl, iff_of_true rfl ?_⟩
  intro size n hs
  exact absurd hs (hbytes size n)

theorem represents_bytes (h : Sized (0 ≤ ·) "bytes".toList type size n) : Represents type := by
  have hmade := (make_of_not_array type harr).trans (makeElementary_bytes h)
  have huint : ∀ size n, ¬ Sized admittedBitSize "uint".toList type size n :=
    h.not_sized rfl rfl (by decide)
  have hint : ∀ size n, ¬ Sized admittedBitSize "int".toList type size n :=
    h.not_sized rfl rfl (by decide)
  have hout : writtenOut type = type := by
    refine writtenOut_of_not_array harr ?_ ?_
    · rintro rfl
      exact absurd h.eq_append (by simp)
    · rintro rfl
      exact absurd h.eq_append (by simp)
  -- The bytes of a new object are as many as its type says.
  have hlen : (Param.byteArrayFix n.toNat (List.replicate n.toNat 0)).prototype = true ↔
      1 ≤ n ∧ n ≤ 32 := by
    simp only [Param.prototype, List.length_replicate, decide_eq_true_eq]
    omega
  rw [Represents, sizeAsWritten_iff (baseType_of_not_array harr),
    bytesInRange_iff (baseType_of_not_array harr), h.keepsType_iff hmade rfl hout,
    widthsSupported_iff hmade, h.plainSize_iff, and_iff_right (plainSize_of_none huint),
    and_iff_right (plainSize_of_none hint), hlen]
  refine ⟨Iff.rfl, ?_⟩
  constructor
  · intro hn size' n' h'
    rwa [(h'.unique h).2]
  · intro hall
    exact hall size n h

theorem represents_of_not_array : Represents type := by
  rcases unsized_or type with h | ⟨size, n, h⟩ | ⟨size, n, h⟩ | ⟨size, n, h⟩
  · exact represents_unsized harr h
  · exact represents_uint harr h
  · exact represents_int harr h
  · exact represents_bytes harr h

end Elementary

theorem represents_array {elem : Str} (hne : elem ≠ []) :
    (KeepsType (elem ++ "[]".toList) ↔ KeepsType elem) ∧
      (WidthsSupported (elem ++ "[]".toList) ↔ WidthsSupported elem) := by
  have hmake := make_array hne
  have hout := writtenOut_array hne
  -- What is made of the array type is an array of what is made of the element type.
  have hmade : ∀ p, make (elem ++ "[]".toList) = .ok (some p) ↔
      ∃ q, make elem = .ok (some q) ∧ p = .array [q] := by
    intro p
    rw [hmake]
    cases make elem with
    | error e => simp [Except.map]
    | ok o => cases o <;> simp [Except.map, eq_comm]
  constructor
  · constructor
    · intro h q hq
      have htype : q.getType ++ "[]".toList = writtenOut elem ++ "[]".toList :=
        (h (.array [q]) ((hmade _).mpr ⟨q, hq, rfl⟩)).trans hout
      exact List.append_cancel_right htype
    · rintro h p hp
      obtain ⟨q, hq, rfl⟩ := (hmade p).mp hp
      rw [hout, ← h q hq]
      rfl
  · constructor
    · intro h q hq
      exact h (.array [q]) ((hmade _).mpr ⟨q, hq, rfl⟩)
    · rintro h p hp
      obtain ⟨q, hq, rfl⟩ := (hmade p).mp hp
      exact h q hq

/-- The factory keeps the type it was asked for exactly when every size it reads stands
    there as decimal text, and makes no unsupported width exactly when the length of
    `bytesN` is in range. -/
theorem make_represents_iff (type : Str) :
    (KeepsType type ↔ SizeAsWritten type) ∧ (WidthsSupported type ↔ BytesInRange type) := by
  induction type using typeInduction with
  | base type harr => exact represents_of_not_array harr
  | array elem hne ih =>
    have hbase := baseType_array hne
    have hwritten : SizeAsWritten (elem ++ "[]".toList) ↔ SizeAsWritten elem :=
      (sizeAsWritten_iff hbase).trans (sizeAsWritten_iff rfl).symm
    have hrange : BytesInRange (elem ++ "[]".toList) ↔ BytesInRange elem :=
      (bytesInRange_iff hbase).trans (bytesInRange_iff rfl).symm
    rw [(represents_array hne).1, (represents_array hne).2, hwritten, hrange]
    exact ih

/-- `uint24[3]` is taken for `uint24`, `bytes32abc` for `bytes32`, `uint024` for `uint24`
    and `bytes+4[]` for `bytes4[]`; `bytes33` is made as it stands. -/
theorem make_otherType :
    (∃ p, make "uint24[3]".toList = .ok (some p) ∧ p.getType = "uint24".toList) ∧
    (∃ p, make "bytes32abc".toList = .ok (some p) ∧ p.getType = "bytes32".toList) ∧
    (∃ p, make "uint024".toList = .ok (some p) ∧ p.getType = "uint24".toList) ∧
    (∃ p, make "bytes+4[]".toList = .ok (some p) ∧ p.getType = "bytes4[]".toList) ∧
    ∃ p, make "bytes33".toList = .ok (some p) ∧ p.prototype = false := by
  have huint : Sized admittedBitSize "uint".toList "uint24[3]".toList "24[3]".toList 24 :=
    ⟨rfl, by decide, by decide⟩
  have hbytes : Sized (0 ≤ ·) "bytes".toList "bytes32abc".toList "32abc".toList 32 :=
    ⟨rfl, by decide, by decide⟩
  have hzero : Sized admittedBitSize "uint".toList "uint024".toList "024".toList 24 :=
    ⟨rfl, by decide, by decide⟩
  have hsign : Sized (0 ≤ ·) "bytes".toList "bytes+4".toList "+4".toList 4 :=
    ⟨rfl, by decide, by decide⟩
  have hwide : Sized (0 ≤ ·) "bytes".toList "bytes33".toList "33".toList 33 :=
    ⟨rfl, by decide, by decide⟩
  have htype : "uint".toList ++ to_string 24 = "uint24".toList := by decide
  have helem := (make_of_not_array _ (by decide)).trans (makeElementary_bytes hsign)
  have harray : make "bytes+4[]".toList = _ := make_array (by decide : "bytes+4".toList ≠ [])
  rw [helem] at harray
  exact ⟨⟨_, (make_of_not_array _ (by decide)).trans (makeElementary_uint huint), htype⟩,
    ⟨_, (make_of_not_array _ (by decide)).trans (makeElementary_bytes hbytes), by decide⟩,
    ⟨_, (make_of_not_array _ (by decide)).trans (makeElementary_uint hzero), htype⟩,
    ⟨_, harray, by decide⟩,
    ⟨_, (make_of_not_array _ (by decide)).trans (makeElementary_bytes hwide), rfl⟩⟩

end ConfluxSdk.Abi
