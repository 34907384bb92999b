import ConfluxSdk.Spec.AbiValueTexts
import ConfluxSdk.Spec.JsonScalars

/-!
# Texts of arrays

`ParamFactory::getValue` of an array dumps the JSON values that are read from the texts of
its elements. A dump determines its value, so two arrays are confused exactly when their
elements are read as the same values: integers beyond 64 bits that round to the same
`double`, and strings that spell the same JSON value, or one of which spells the other.

## Key results

- `getValue_returns`: the text of an array of elementary objects, and when there is none
- `reading_ne_iff`: when two elements are read as different values
- `getValue_distinguishes_iff`: two arrays have different texts exactly when one index has
  such elements or the lengths differ, and integers keep their digits exactly within 64 bits
-/

namespace ConfluxSdk.Abi

open SolidityAbi (Ty Val)
open Delimited (separated)
open Nlohmann (Fits64 nearestDouble decimal Utf8 allUtf8)

/-- Integers, booleans, addresses, byte strings and texts. -/
def isElementaryTy : Ty → Bool
  | .array _ | .fixArray _ _ | .tuple _ => false
  | _ => true

/-! ### When arrays are told apart -/

section Apart

variable (json : Nlohmann)

/-- The object can be rendered in an array: a text that is no JSON becomes a JSON string,
    which has to be UTF-8. -/
def Shown : Param → Prop
  | .number .uint _ => False
  | .string str => json.parse str ≠ none ∨ Utf8 str
  | _ => True

/-- Two texts spell different JSON values; what spells none stands for itself. -/
def TextsApart (s t : Data) : Prop :=
  match json.parse s, json.parse t with
  | some v, some w => v ≠ w
  | some v, none => v ≠ .string t
  | none, some w => w ≠ .string s
  | none, none => s ≠ t

/-- Two elements that are no integers have different values or, as texts, are apart. -/
def ValuesApart : Param → Param → Prop
  | .string s, .string t => TextsApart json s t
  | p, q => p.toVal ≠ q.toVal

/-- Two elements of one type have different values, and reading them does not hide it. -/
def Apart (p q : Param) : Prop :=
  match p.integer, q.integer with
  | some n, some m => n ≠ m ∧ (Fits64 n ∨ Fits64 m ∨ nearestDouble n ≠ nearestDouble m)
  | _, _ => ValuesApart json p q

/-- All elements can be rendered, and the lengths or two elements at one index differ. -/
def RenderedApart (ps qs : List Param) : Prop :=
  (∀ p ∈ ps ++ qs, Shown json p) ∧
    (ps.length ≠ qs.length ∨
      ∃ (i : Nat) (p q : Param), ps[i]? = some p ∧ qs[i]? = some q ∧ Apart json p q)

end Apart

/-- The text of an array of integers with all their digits. -/
def exactText (ns : List Int) : Data :=
  bytesOfStr "[".toList ++ separated 44 decimal ns ++ bytesOfStr "]".toList

/-! ### The text of an array -/

theorem elementary_of_hasTy {p : Param} {t : Ty} (h : p.HasTy t) (ht : isElementaryTy t = true) :
    p.elementary = true ∧ p.getType = typeText t := by
  have helem : p.elementary = true := by
    cases p with
    | array ps =>
      obtain ⟨e, rfl, -⟩ := h
      cases ht
    | arrayFix ps =>
      obtain ⟨e, rfl, -⟩ := h
      cases ht
    | parameters ps =>
      obtain ⟨ts, rfl, -⟩ := h
      cases ht
    | _ => rfl
  have hnamed : p.named = true := by
    cases p <;> first | rfl | cases helem
  exact ⟨helem, p.getType_eq_typeText hnamed t h⟩

theorem not_isArrayType_elementary {p : Param} (h : p.elementary = true) :
    isArrayType p.getType = false := by
  cases p with
  | number t val => exact not_isArrayType_number t
  | uintN bits val => exact not_isArrayType_digits _ _
  | intN bits val => exact not_isArrayType_digits _ _
  | address val => exact (by decide : isArrayType "address".toList = false)
  | byteArray bytes => exact (by decide : isArrayType "bytes".toList = false)
  | byteArrayFix n bytes => exact not_isArrayType_digits _ _
  | string str => exact (by decide : isArrayType "string".toList = false)
  | _ => cases h

theorem typeText_ne_nil {t : Ty} (ht : isElementaryTy t = true) : typeText t ≠ [] := by
  cases t with
  | uint bits => exact List.append_ne_nil_of_left_ne_nil (by decide) _
  | int bits => exact List.append_ne_nil_of_left_ne_nil (by decide) _
  | bytesN n => exact List.append_ne_nil_of_left_ne_nil (by decide) _
  | bool => exact (by decide : "bool".toList ≠ [])
  | address => exact (by decide : "address".toList ≠ [])
  | bytes => exact (by decide : "bytes".toList ≠ [])
  | string => exact (by decide : "string".toList ≠ [])
  | array t => cases ht
  | fixArray t k => cases ht
  | tuple ts => cases ht

theorem allUtf8_map {f : Param → Nlohmann.Json} {ps : List Param} :
    allUtf8 (ps.map f) = true ↔ ∀ p ∈ ps, (f p).utf8 = true := by
  induction ps with
  | nil => simp [allUtf8]
  | cons p ps ih => simp [allUtf8, ih]

/-- Lists differ in length or at some index. -/
private theorem map_ne_map_iff {α β : Type} {f : α → β} {l m : List α} : l.map f ≠ m.map f ↔
    l.length ≠ m.length ∨
      ∃ (i : Nat) (a b : α), l[i]? = some a ∧ m[i]? = some b ∧ f a ≠ f b := by
  constructor
  · intro hne
    by_contra hno
    rw [not_or, not_not] at hno
    obtain ⟨hlen, hsame⟩ := hno
    apply hne
    apply List.ext_getElem (by rw [List.length_map, List.length_map, hlen])
    intro i hl hm
    rw [List.length_map] at hl hm
    rw [List.getElem_map, List.getElem_map]
    by_contra hi
    exact hsame ⟨i, _, _, List.getElem?_eq_getElem hl, List.getElem?_eq_getElem hm, hi⟩
  · rintro (hlen | ⟨i, a, b, ha, hb, hab⟩) heq
    · exact hlen (by rw [← List.length_map f, heq, List.length_map])
    · have hi := congrArg (·[i]?) heq
      simp only [List.getElem?_map, ha, hb, Option.map_some] at hi
      exact hab (Option.some.inj hi)

section Json

theorem joinArrayElems_returns (json : Nlohmann) (strings : List Data) :
    (joinArrayElems json strings).Returns (allUtf8 (strings.map (readElem json)) = true)
      ((Nlohmann.Json.array (strings.map (readElem json))).text json) := by
  have hdump : (json.dump (.array (strings.map (readElem json)))).Returns _ _ :=
    Nlohmann.dump_returns _
  rw [joinArrayElems]
  constructor
  · intro h
    rw [hdump.1 h]
  · intro h
    obtain ⟨e, he⟩ := hdump.2 h
    exact ⟨.typeError e, by rw [he]⟩

variable {json : Nlohmann} (hdoc : json.Documented)
include hdoc

/-- What is read from an element can be dumped if the element can be shown. -/
theorem shown_iff {p : Param} (hp : p.elementary = true) :
    p.castable ∧ (p.reading json).utf8 = true ↔ Shown json p := by
  have hnumber : ∀ {n : Int}, p.integer = some n → (p.reading json).utf8 = true := by
    intro n hn
    rcases reading_integer hdoc hn with ⟨-, h⟩ | ⟨d, -, -, h⟩ <;> rw [h] <;> rfl
  have hhex : ∀ {data : Data}, p.text = hexEncoded data → (p.reading json).utf8 = true := by
    intro data htext
    rw [Param.reading, htext, readElem_hexEncoded hdoc]
    exact decide_eq_true (utf8_hexEncoded data)
  cases p with
  | number t val =>
    cases t with
    | uint => exact ⟨fun h => h.1, fun h => h.elim⟩
    | bool =>
      refine ⟨fun _ => trivial, fun _ => ⟨trivial, ?_⟩⟩
      rw [reading_bool hdoc]
      rfl
    | _ => exact ⟨fun _ => trivial, fun _ => ⟨trivial, hnumber rfl⟩⟩
  | uintN bits val => exact ⟨fun _ => trivial, fun _ => ⟨trivial, hnumber rfl⟩⟩
  | intN bits val => exact ⟨fun _ => trivial, fun _ => ⟨trivial, hnumber rfl⟩⟩
  | address val => exact ⟨fun _ => trivial, fun _ => ⟨trivial, hhex rfl⟩⟩
  | byteArray bytes => exact ⟨fun _ => trivial, fun _ => ⟨trivial, hhex rfl⟩⟩
  | byteArrayFix n bytes => exact ⟨fun _ => trivial, fun _ => ⟨trivial, hhex rfl⟩⟩
  | string str =>
    show True ∧ (readElem json str).utf8 = true ↔ json.parse str ≠ none ∨ Utf8 str
    rw [true_and, readElem]
    cases hparse : json.parse str with
    | none => simp [Nlohmann.Json.utf8]
    | some v => simp [hdoc.parse_utf8 str v hparse]
  | _ => cases hp

/-- The text of an array of elementary objects. -/
theorem getValue_returns {t : Ty} (ht : isElementaryTy t = true) {ps : List Param}
    (hps : ∀ p ∈ ps, p.HasTy t) :
    (getValue json (.array ps) (typeText (.array t))).Returns (∀ p ∈ ps, Shown json p)
      ((Nlohmann.Json.array (ps.map (Param.reading json))).text json) := by
  have hne := typeText_ne_nil ht
  have harr : isArrayType (typeText (.array t)) = true := isArrayType_append hne
  have helem : getArrayElemType (typeText (.array t)) = typeText t := getArrayElemType_append hne
  have helems : ∀ p ∈ ps, (getValue json p (typeText t)).Returns p.castable p.text := by
    intro p hp
    obtain ⟨hel, htype⟩ := elementary_of_hasTy (hps p hp) ht
    have hnot := not_isArrayType_elementary hel
    rw [← htype, getValue, dif_neg (by rw [hnot]; decide)]
    exact getElementaryValue_returns hel
  have hvalues : (getArrayValue json (.array ps) (typeText (.array t))).Returns
      (∀ p ∈ ps, p.castable) (ps.map Param.text) := by
    rw [getArrayValue, if_pos harr, helem]
    exact Except.returns_mapM helems
  rw [getValue_array json _ harr]
  have htext := hvalues.bind (joinArrayElems_returns json (ps.map Param.text))
  rw [List.map_map] at htext
  refine htext.congr (allUtf8_map (f := readElem json ∘ Param.text) |> and_congr_right' |>.trans ?_)
  -- Each element is cast, and what is read from its text is dumped.
  rw [← forall₂_and]
  exact forall₂_congr fun p hp => shown_iff hdoc (elementary_of_hasTy (hps p hp) ht).1

/-! ### Elements -/

omit hdoc in
theorem readElem_ne_iff (s t : Data) :
    readElem json s ≠ readElem json t ↔ TextsApart json s t := by
  rw [readElem, readElem, TextsApart]
  cases json.parse s with
  | none =>
    cases json.parse t with
    | none => simp
    | some w => exact ne_comm
  | some v => cases json.parse t <;> simp

/-- Two integers are read as different values if they differ, unless both are rounded to one. -/
theorem reading_integer_ne_iff {p q : Param} {n m : Int} (hp : p.integer = some n)
    (hq : q.integer = some m) : p.reading json ≠ q.reading json ↔
      n ≠ m ∧ (Fits64 n ∨ Fits64 m ∨ nearestDouble n ≠ nearestDouble m) := by
  -- A number that fits 64 bits is read exactly, another one as a double.
  rcases reading_integer hdoc hp with ⟨hn, hpr⟩ | ⟨d, hn, hd, hpr⟩
  · rcases reading_integer hdoc hq with ⟨hm, hqr⟩ | ⟨e, hm, he, hqr⟩
    · rw [hpr, hqr]
      simp [hn]
    · have hne : n ≠ m := fun h => hm (h ▸ hn)
      rw [hpr, hqr]
      simp [hn, hne]
  · rcases reading_integer hdoc hq with ⟨hm, hqr⟩ | ⟨e, hm, he, hqr⟩
    · have hne : n ≠ m := fun h => hn (h ▸ hm)
      rw [hpr, hqr]
      simp [hm, hne]
    · rw [hpr, hqr, hd, he]
      constructor
      · intro hread
        -- Both are rounded, so the doubles decide.
        have hde : d ≠ e := fun h => hread (by rw [h])
        refine ⟨?_, .inr (.inr fun h => hde (Option.some.inj h))⟩
        rintro rfl
        exact hde (Option.some.inj (hd.symm.trans he))
      · rintro ⟨-, h | h | h⟩ hread
        · exact hn h
        · exact hm h
        · exact h (congrArg some (Nlohmann.Json.number_float.inj hread))

omit hdoc in
theorem integer_of_hasTy {p : Param} {t : Ty} (h : p.HasTy t)
    (ht : (∃ bits, t = .uint bits) ∨ ∃ bits, t = .int bits) : ∃ n, p.integer = some n := by
  cases p with
  | number nt val =>
    cases nt with
    | bool =>
      obtain rfl : t = .bool := h
      simp at ht
    | _ => exact ⟨_, rfl⟩
  | uintN bits val => exact ⟨_, rfl⟩
  | intN bits val => exact ⟨_, rfl⟩
  | array ps =>
    obtain ⟨e, rfl, -⟩ := h
    simp at ht
  | arrayFix ps =>
    obtain ⟨e, rfl, -⟩ := h
    simp at ht
  | parameters ps =>
    obtain ⟨ts, rfl, -⟩ := h
    simp at ht
  | _ =>
    rw [Param.HasTy] at h
    simp [h] at ht

/-- Elements that are read from hexadecimal texts. -/
theorem reading_hex_ne_iff {p q : Param} {a b : Data} (hp : p.text = hexEncoded a)
    (hq : q.text = hexEncoded b) : p.reading json ≠ q.reading json ↔ a ≠ b := by
  rw [Param.reading, Param.reading, hp, hq, readElem_hexEncoded hdoc, readElem_hexEncoded hdoc]
  apply not_congr
  constructor
  · intro h
    exact hexEncoded_injective (Nlohmann.Json.string.inj h)
  · intro h
    rw [h]

/-- Elements of one type are read as different values exactly when they are apart. -/
theorem reading_ne_iff {t : Ty} (ht : isElementaryTy t = true) {p q : Param} (hp : p.HasTy t)
    (hq : q.HasTy t) : p.reading json ≠ q.reading json ↔ Apart json p q := by
  cases t with
  -- Numbers go through the numbers of the parser, which rounds the large ones.
  | uint bits | int bits =>
    obtain ⟨n, hn⟩ := integer_of_hasTy hp (by simp)
    obtain ⟨m, hm⟩ := integer_of_hasTy hq (by simp)
    rw [reading_integer_ne_iff hdoc hn hm, Apart, hn, hm]
  | bool =>
    obtain ⟨val, rfl⟩ := bool_of_hasTy hp
    obtain ⟨val', rfl⟩ := bool_of_hasTy hq
    rw [reading_bool hdoc, reading_bool hdoc]
    show _ ↔ Val.num val.1 ≠ Val.num val'.1
    obtain ⟨v, hl, hh⟩ := val
    obtain ⟨v', hl', hh'⟩ := val'
    simp only [NumberType.least, NumberType.greatest] at hl hh hl' hh'
    interval_cases v <;> interval_cases v' <;> simp
  -- What is written in hexadecimal digits is read exactly.
  | address =>
    obtain ⟨val, rfl⟩ := address_of_hasTy hp
    obtain ⟨val', rfl⟩ := address_of_hasTy hq
    rw [reading_hex_ne_iff hdoc rfl rfl]
    show _ ↔ Val.num val.val ≠ Val.num val'.val
    rw [getData_injective.ne_iff, Ne, Ne, Val.num.injEq, Int.natCast_inj, Fin.ext_iff]
  | bytesN n =>
    obtain ⟨bytes, rfl⟩ := byteArrayFix_of_hasTy hp
    obtain ⟨bytes', rfl⟩ := byteArrayFix_of_hasTy hq
    rw [reading_hex_ne_iff hdoc rfl rfl]
    show _ ↔ Val.bytes bytes ≠ Val.bytes bytes'
    rw [Ne, Ne, Val.bytes.injEq]
  | bytes =>
    obtain ⟨bytes, rfl⟩ := byteArray_of_hasTy hp
    obtain ⟨bytes', rfl⟩ := byteArray_of_hasTy hq
    rw [reading_hex_ne_iff hdoc rfl rfl]
    show _ ↔ Val.bytes bytes ≠ Val.bytes bytes'
    rw [Ne, Ne, Val.bytes.injEq]
  | string =>
    obtain ⟨str, rfl⟩ := string_of_hasTy hp
    obtain ⟨str', rfl⟩ := string_of_hasTy hq
    exact readElem_ne_iff str str'
  -- The other types are not elementary.
  | array t => cases ht
  | fixArray t k => cases ht
  | tuple ts => cases ht

/-! ### Arrays -/

/-- The arrays have different texts. -/
def DifferentTexts (json : Nlohmann) (t : Ty) (ps qs : List Param) : Prop :=
  ∃ s s', getValue json (.array ps) (typeText (.array t)) = .ok s ∧
    getValue json (.array qs) (typeText (.array t)) = .ok s' ∧ s ≠ s'

theorem differentTexts_iff {t : Ty} (ht : isElementaryTy t = true) {ps qs : List Param}
    (hps : ∀ p ∈ ps, p.HasTy t) (hqs : ∀ q ∈ qs, q.HasTy t) :
    DifferentTexts json t ps qs ↔ RenderedApart json ps qs := by
  have hp := getValue_returns hdoc ht hps
  have hq := getValue_returns hdoc ht hqs
  -- A dump determines the array it was made from.
  have htexts : (Nlohmann.Json.array (ps.map (Param.reading json))).text json ≠
      (Nlohmann.Json.array (qs.map (Param.reading json))).text json ↔
      ps.map (Param.reading json) ≠ qs.map (Param.reading json) := by
    rw [(Nlohmann.text_injective hdoc).ne_iff, Ne, Nlohmann.Json.array.injEq]
  have hapart : ps.map (Param.reading json) ≠ qs.map (Param.reading json) ↔
      ps.length ≠ qs.length ∨
        ∃ (i : Nat) (p q : Param), ps[i]? = some p ∧ qs[i]? = some q ∧ Apart json p q := by
    rw [map_ne_map_iff]
    apply or_congr_right
    constructor
    · rintro ⟨i, p, q, hi, hi', hread⟩
      have hiff := reading_ne_iff hdoc ht (hps p (List.mem_of_getElem? hi))
        (hqs q (List.mem_of_getElem? hi'))
      exact ⟨i, p, q, hi, hi', hiff.mp hread⟩
    · rintro ⟨i, p, q, hi, hi', hread⟩
      have hiff := reading_ne_iff hdoc ht (hps p (List.mem_of_getElem? hi))
        (hqs q (List.mem_of_getElem? hi'))
      exact ⟨i, p, q, hi, hi', hiff.mpr hread⟩
  rw [RenderedApart, List.forall_mem_append, ← hapart, ← htexts]
  rw [DifferentTexts]
  constructor
  · rintro ⟨s, s', hs, hs', hne⟩
    obtain ⟨hshown, rfl⟩ := hp.eq_ok_iff.mp hs
    obtain ⟨hshown', rfl⟩ := hq.eq_ok_iff.mp hs'
    exact ⟨⟨hshown, hshown'⟩, hne⟩
  · rintro ⟨⟨hshown, hshown'⟩, hne⟩
    exact ⟨_, _, hp.1 hshown, hq.1 hshown', hne⟩

omit hdoc in
theorem shown_of_integer {p : Param} {n : Int} (h : p.integer = some n) :
    Shown json p ↔ p.castable := by
  cases p with
  | number nt val => cases nt <;> rfl
  | string str => cases h
  | _ => rfl

theorem reading_eq_integer_iff {p : Param} {n : Int} (h : p.integer = some n) :
    p.reading json = .number_integer n ↔ Fits64 n := by
  rcases reading_integer hdoc h with ⟨hn, hp⟩ | ⟨d, hn, -, hp⟩
  · rw [hp]
    exact ⟨fun _ => hn, fun _ => rfl⟩
  · rw [hp]
    constructor
    · intro heq
      cases heq
    · intro hfits
      exact absurd hfits hn

theorem readings_eq_integers_iff {ps : List Param} {ns : List Int}
    (h : ps.map Param.integer = ns.map some) :
    ps.map (Param.reading json) = ns.map .number_integer ↔ ∀ n ∈ ns, Fits64 n := by
  induction ps generalizing ns with
  | nil =>
    obtain rfl : ns = [] := List.map_eq_nil_iff.mp h.symm
    simp
  | cons p ps ih =>
    cases ns with
    | nil => cases h
    | cons n ns =>
      obtain ⟨hp, hps⟩ := List.cons_eq_cons.mp h
      rw [List.map_cons, List.map_cons, List.cons_eq_cons, ih hps, reading_eq_integer_iff hdoc hp,
        List.forall_mem_cons]

/-- Integers keep all their digits exactly when they fit 64 bits. -/
theorem getValue_eq_exactText_iff {t : Ty} (ht : isElementaryTy t = true) {ps : List Param}
    {ns : List Int} (hps : ∀ p ∈ ps, p.HasTy t) (hns : ps.map Param.integer = ns.map some) :
    getValue json (.array ps) (typeText (.array t)) = .ok (exactText ns) ↔
      (∀ p ∈ ps, p.castable) ∧ ∀ n ∈ ns, Fits64 n := by
  have hexact : exactText ns =
      (Nlohmann.Json.array (ns.map Nlohmann.Json.number_integer)).text json := by
    rw [exactText, Nlohmann.Json.text, Nlohmann.textElems_eq, Delimited.separated_map]
    rfl
  have hshown : (∀ p ∈ ps, Shown json p) ↔ ∀ p ∈ ps, p.castable := by
    apply forall₂_congr
    intro p hp
    have hmem : p.integer ∈ ns.map some := hns ▸ List.mem_map_of_mem hp
    obtain ⟨n, -, hn⟩ := List.mem_map.mp hmem
    exact shown_of_integer hn.symm
  rw [(getValue_returns hdoc ht hps).eq_ok_iff, hexact, (Nlohmann.text_injective hdoc).eq_iff,
    Nlohmann.Json.array.injEq, hshown, eq_comm (a := ns.map _), readings_eq_integers_iff hdoc hns]

omit hdoc in
/-- An empty array has the same text for every array type. -/
theorem getValue_nil {type : Str} (h : isArrayType type = true) :
    getValue json (.array []) type = joinArrayElems json [] := by
  rw [getValue_array json _ h, getArrayValue, if_pos h]
  rfl

omit hdoc in
/-- `ValueDecoder::decodeValue` shows what `getValue` does. -/
theorem decodeValue_eq {t : Ty} (ht : isElementaryTy t = true) {ps : List Param}
    (hps : ∀ p ∈ ps, p.HasTy t) {data : Bytes} {proto : Param} {off : Nat}
    (hmake : make (typeText (.array t)) = .ok (some proto))
    (hdecode : proto.decode data 0 = .ok (true, .array ps, off)) :
    decodeValue json data (typeText (.array t)) =
      getValue json (.array ps) (typeText (.array t)) := by
  rw [decodeValue, hmake]
  simp only [hdecode]
  cases ps with
  | nil =>
    -- The object is called `empty[]`.
    show getValue json (.array []) ("empty".toList ++ "[]".toList) = _
    have harr : isArrayType (typeText (.array t)) = true := isArrayType_append (typeText_ne_nil ht)
    rw [getValue_nil (by decide), getValue_nil harr]
  | cons p ps =>
    have htype : p.getType = typeText t :=
      (elementary_of_hasTy (hps p List.mem_cons_self) ht).2
    show getValue json (.array (p :: ps)) (p.getType ++ "[]".toList) = _
    rw [htype]
    rfl

end Json

/-! ### Arrays that are confused -/

/-- Two arrays are told apart by their texts unless an index where they differ is read as one
    value, and integers keep their digits unless they are longer than 64 bits. -/
theorem getValue_distinguishes_iff (json : Nlohmann) (hdoc : json.Documented) (t : Ty)
    (ht : isElementaryTy t = true) :
    (∀ ps qs : List Param, (∀ p ∈ ps, p.HasTy t) → (∀ q ∈ qs, q.HasTy t) →
      (DifferentTexts json t ps qs ↔ RenderedApart json ps qs)) ∧
    (∀ (ps : List Param) (ns : List Int), (∀ p ∈ ps, p.HasTy t) →
      ps.map Param.integer = ns.map some →
      (getValue json (.array ps) (typeText (.array t)) = .ok (exactText ns) ↔
        (∀ p ∈ ps, p.castable) ∧ ∀ n ∈ ns, Fits64 n)) ∧
    (∀ (ps : List Param) (data : Bytes) (proto : Param) (off : Nat), (∀ p ∈ ps, p.HasTy t) →
      make (typeText (.array t)) = .ok (some proto) →
      proto.decode data 0 = .ok (true, .array ps, off) →
      decodeValue json data (typeText (.array t)) =
        getValue json (.array ps) (typeText (.array t))) :=
  ⟨fun _ _ hps hqs => differentTexts_iff hdoc ht hps hqs,
    fun _ _ hps hns => getValue_eq_exactText_iff hdoc ht hps hns,
    fun _ _ _ _ hps hmake hdecode => decodeValue_eq ht hps hmake hdecode⟩

theorem amount_bounds (n : Fin (2 ^ 256)) :
    NumberType.uint256.least ≤ (n.val : Int) ∧ (n.val : Int) ≤ NumberType.uint256.greatest := by
  have hlt := n.isLt
  simp only [NumberType.least, NumberType.greatest]
  omega

/-- `ParamUInt256` of a number. -/
def amount (n : Fin (2 ^ 256)) : Param := .number .uint256 ⟨n.val, amount_bounds n⟩

/-- The encoding of the array of one amount of 1. -/
def oneAmount : Bytes :=
  ⟨List.replicate 31 0 ++ [1] ++ List.replicate 31 0 ++ [1], by decide⟩

/-- `getValue_distinguishes_iff` at amounts of 1 and 2. -/
theorem getValue_distinguishes_one_two :
    DifferentTexts Nlohmann.Scalars.json (.uint 256) [amount 1] [amount 2] ∧
      decodeValue Nlohmann.Scalars.json oneAmount (typeText (.array (.uint 256))) =
        .ok (exactText [1]) := by
  obtain ⟨hdifferent, hexact, hdecode⟩ := getValue_distinguishes_iff Nlohmann.Scalars.json
    Nlohmann.Scalars.documented (.uint 256) rfl
  have hty : ∀ n : Fin (2 ^ 256), ∀ p ∈ [amount n], p.HasTy (.uint 256) := by
    intro n p hp
    rw [List.mem_singleton.mp hp]
    rfl
  have hmake : make (typeText (.array (.uint 256))) = .ok (some (.array [amount 0])) := by
    show make ("uint256".toList ++ "[]".toList) = _
    rw [make_array (by decide), make_of_not_array _ (by decide)]
    rfl
  constructor
  · rw [hdifferent _ _ (hty 1) (hty 2)]
    refine ⟨?_, .inr ⟨0, _, _, rfl, rfl, by decide, .inl (by decide)⟩⟩
    intro p hp
    rcases List.mem_cons.mp hp with rfl | hp
    · trivial
    · rw [List.mem_singleton.mp hp]
      trivial
  · rw [hdecode [amount 1] oneAmount _ 64 (hty 1) hmake rfl, hexact [amount 1] [1] (hty 1) rfl]
    refine ⟨?_, by simp [Fits64]⟩
    intro p hp
    rw [List.mem_singleton.mp hp]
    trivial

/-- An amount beyond 64 bits is shown as the nearest `double`. -/
theorem getValue_large {json : Nlohmann} (hdoc : json.Documented) {n : Fin (2 ^ 256)}
    {d : Nlohmann.Double} (hn : ¬ Fits64 n.val) (hd : nearestDouble n.val = some d) :
    getValue json (.array [amount n]) (typeText (.array (.uint 256))) =
      .ok (bytesOfStr "[".toList ++ json.toChars d ++ bytesOfStr "]".toList) := by
  have hty : ∀ p ∈ [amount n], p.HasTy (.uint 256) := by
    intro p hp
    rw [List.mem_singleton.mp hp]
    rfl
  have hshown : ∀ p ∈ [amount n], Shown json p := by
    intro p hp
    rw [List.mem_singleton.mp hp]
    trivial
  have hread : (amount n).reading json = .number_float d := by
    rcases reading_integer hdoc (p := amount n) rfl with ⟨hfits, -⟩ | ⟨e, -, he, hread⟩
    · exact absurd hfits hn
    · obtain rfl := Option.some.inj (hd.symm.trans he)
      exact hread
  rw [(getValue_returns hdoc rfl hty).1 hshown, List.map_singleton, hread]
  simp [Nlohmann.Json.text, Nlohmann.textElems]

/-- Two different amounts have one text, with the digits of neither. -/
theorem getValue_confuses_amounts : Nlohmann.Scalars.json.Documented ∧
    [amount ⟨2 ^ 64, by decide⟩].map Param.toVal ≠
      [amount ⟨2 ^ 64 + 1, by decide⟩].map Param.toVal ∧
    getValue Nlohmann.Scalars.json (.array [amount ⟨2 ^ 64, by decide⟩])
        (typeText (.array (.uint 256))) =
      .ok (bytesOfStr "[1.8446744073709552e+19]".toList) ∧
    getValue Nlohmann.Scalars.json (.array [amount ⟨2 ^ 64 + 1, by decide⟩])
        (typeText (.array (.uint 256))) =
      .ok (bytesOfStr "[1.8446744073709552e+19]".toList) := by
  have hround : ∀ n ∈ [2 ^ 64, 2 ^ 64 + 1], Nlohmann.roundNearest n = 2 ^ 64 := by decide
  have htext : ∀ n : Fin (2 ^ 256), ¬ Fits64 n.val → Nlohmann.roundNearest n.val = 2 ^ 64 →
      getValue Nlohmann.Scalars.json (.array [amount n]) (typeText (.array (.uint 256))) =
        .ok (bytesOfStr "[1.8446744073709552e+19]".toList) := by
    intro n hn hr
    obtain ⟨d, hd, hchars⟩ := Nlohmann.Scalars.toChars_of_round (Int.natCast_nonneg n.val) hr
    rw [getValue_large Nlohmann.Scalars.documented hn hd, hchars]
    rfl
  refine ⟨Nlohmann.Scalars.documented, ?_, htext _ (by decide) (hround _ (by simp)),
    htext _ (by decide) (hround _ (by simp))⟩
  intro heq
  have hval := Val.num.inj (List.head_eq_of_cons_eq heq)
  exact absurd hval (by decide)

end ConfluxSdk.Abi
