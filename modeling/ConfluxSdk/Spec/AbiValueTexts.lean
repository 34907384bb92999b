import ConfluxSdk.Native.AbiValue
import ConfluxSdk.Spec.AbiFactoryCorrect
import ConfluxSdk.Spec.AbiTypes
import ConfluxSdk.Spec.AddressBytes
import ConfluxSdk.Spec.JsonDump

/-!
# Texts of elementary values

The text `ParamFactory::getValue` gives an elementary object of the type it is asked for, and the
JSON value that is read from that text inside an array: integers are read as integers up to 64
bits and rounded beyond, booleans as booleans, hexadecimal texts as strings, and a string as
whatever it spells.

## Key results

- `getElementaryValue_returns`: the text of an object; only `ParamUInt` has none
- `reading_integer`, `reading_bool`, `readElem_hexEncoded`: what is read from the text
- `natAbs_le_of_integer`: every ABI integer is far from being too large for a `double`
-/

namespace ConfluxSdk.Abi

open SolidityAbi (Ty)
open Nlohmann (Fits64 nearestDouble decimal Utf8)

/-- An object of a class that is no collection. -/
def Param.elementary : Param → Bool
  | .array _ | .arrayFix _ | .parameters _ => false
  | _ => true

/-- The class is one that `getValue` casts to; `ParamUInt` is not. -/
def Param.castable : Param → Prop
  | .number .uint _ => False
  | _ => True

/-- The text of an elementary object. -/
def Param.text : Param → Data
  | .number .bool val => bytesOfStr (if val.1 ≠ 0 then "true".toList else "false".toList)
  | .number _ val => lexicalCast val.1
  | .uintN _ val => lexicalCast val.val
  | .intN _ val => lexicalCast val.1
  | .address val => hexEncoded (getData val)
  | .byteArray bytes => hexEncoded bytes
  | .byteArrayFix _ bytes => hexEncoded bytes
  | .string str => str
  | _ => []

/-! ### Rendering -/

theorem getElementaryValue_uint {param : Param} {type size : Str} {n : Int}
    (h : Sized admittedBitSize "uint".toList type size n) :
    getElementaryValue param type = (uintNVal param).map fun n => lexicalCast n := by
  have hne := h.ne_uint_name
  rw [getElementaryValue, if_neg (hne _ (by decide)), if_neg (hne _ (by decide)),
    if_neg (hne _ (by decide)), if_neg (hne _ (by decide)), if_neg (hne _ (by decide)),
    if_neg (not_or.mpr ⟨hne _ (by decide), hne _ (by decide)⟩), if_neg (hne _ (by decide)),
    if_neg (hne _ (by decide)), if_neg (hne _ (by decide)), if_neg (hne _ (by decide)),
    if_neg (not_or.mpr ⟨hne _ (by decide), hne _ (by decide)⟩), if_pos h.isPrefixOf]

theorem getElementaryValue_int {param : Param} {type size : Str} {n : Int}
    (h : Sized admittedBitSize "int".toList type size n) :
    getElementaryValue param type = (intNVal param).map lexicalCast := by
  have hne := h.ne_int_name
  rw [getElementaryValue, if_neg (hne _ (by decide)), if_neg (hne _ (by decide)),
    if_neg (hne _ (by decide)), if_neg (hne _ (by decide)), if_neg (hne _ (by decide)),
    if_neg (not_or.mpr ⟨hne _ (by decide), hne _ (by decide)⟩), if_neg (hne _ (by decide)),
    if_neg (hne _ (by decide)), if_neg (hne _ (by decide)), if_neg (hne _ (by decide)),
    if_neg (not_or.mpr ⟨hne _ (by decide), hne _ (by decide)⟩), if_neg h.not_uint_prefix,
    if_pos h.isPrefixOf]

theorem getElementaryValue_bytesN (param : Param) (n : Nat) :
    getElementaryValue param ("bytes".toList ++ to_string n) =
      (byteArrayFixVal param).map hexEncoded := by
  have hne : ∀ text : Str, text.take 2 ≠ "by".toList → "bytes".toList ++ to_string n ≠ text :=
    ne_bytes_name rfl
  have huint : ¬ "uint".toList.isPrefixOf ("bytes".toList ++ to_string n) = true := by simp
  have hint : ¬ "int".toList.isPrefixOf ("bytes".toList ++ to_string n) = true := by simp
  have hbytes : "bytes".toList ++ to_string n ≠ "bytes".toList := by simp
  have hstem : "bytes".toList.isPrefixOf ("bytes".toList ++ to_string n) = true :=
    List.isPrefixOf_iff_prefix.mpr (List.prefix_append _ _)
  rw [getElementaryValue, if_neg (hne _ (by decide)), if_neg (hne _ (by decide)),
    if_neg (hne _ (by decide)), if_neg (hne _ (by decide)), if_neg (hne _ (by decide)),
    if_neg (not_or.mpr ⟨hne _ (by decide), hne _ (by decide)⟩), if_neg (hne _ (by decide)),
    if_neg (hne _ (by decide)), if_neg (hne _ (by decide)), if_neg (hne _ (by decide)),
    if_neg (not_or.mpr ⟨hne _ (by decide), hne _ (by decide)⟩), if_neg huint, if_neg hint,
    if_neg (hne _ (by decide)), if_neg hbytes, if_pos hstem]

/-- The text of an object of the type that is asked for. -/
theorem getElementaryValue_returns {p : Param} (hp : p.elementary = true) :
    (getElementaryValue p p.getType).Returns p.castable p.text := by
  cases p with
  | number t val =>
    cases t with
    | uint => exact Except.returns_error (fun h => h) ValueError.nullPointer _
    | _ => exact Except.returns_ok trivial _
  | uintN bits val =>
    show (getElementaryValue _ ("uint".toList ++ to_string bits.val)).Returns _ _
    rw [getElementaryValue_uint (bits.sized _)]
    exact Except.returns_ok trivial _
  | intN bits val =>
    show (getElementaryValue _ ("int".toList ++ to_string bits.val)).Returns _ _
    rw [getElementaryValue_int (bits.sized _)]
    exact Except.returns_ok trivial _
  | address val => exact Except.returns_ok trivial _
  | byteArray bytes => exact Except.returns_ok trivial _
  | byteArrayFix n bytes =>
    show (getElementaryValue _ ("bytes".toList ++ to_string n)).Returns _ _
    rw [getElementaryValue_bytesN]
    exact Except.returns_ok trivial _
  | string str => exact Except.returns_ok trivial _
  | array ps => cases hp
  | arrayFix ps => cases hp
  | parameters ps => cases hp

/-! ### Different texts of different values -/

theorem lexicalCast_eq (n : Int) : lexicalCast n = decimal n := by
  rw [lexicalCast, decimal]
  split
  · rfl
  · rw [List.nil_append]

private theorem toHex_ascii {data : Data} {c : Char} (hc : c ∈ "0x".toList ++ Dev.toHex data) :
    c.toNat < 128 := by
  have hdigits : (Regex.hexDigits.all fun c => decide (c.toNat < 128)) = true := by decide
  rcases List.mem_append.mp hc with hc | hc
  · rcases List.mem_cons.mp hc with rfl | hc
    · decide
    · rw [List.mem_singleton.mp hc]
      decide
  · have hmem := (Hex.encodeToString_digits data).2 c hc
    exact of_decide_eq_true (List.all_eq_true.mp hdigits c hmem)

theorem hexEncoded_injective : Function.Injective hexEncoded := by
  intro a b h
  have hascii : ∀ d : Data, ∀ c ∈ "0x".toList ++ Dev.toHex d, c.toNat < 256 := by
    intro d c hc
    exact Nat.lt_trans (toHex_ascii hc) (by decide)
  exact Hex.encodeToString_inj
    (List.append_cancel_left (Nlohmann.bytesOfStr_inj (hascii a) (hascii b) h))

theorem utf8_hexEncoded (data : Data) : Utf8 (hexEncoded data) := by
  apply Nlohmann.utf8_of_ascii
  intro b hb
  obtain ⟨c, hc, rfl⟩ := List.mem_map.mp hb
  have hlt := toHex_ascii hc
  rw [UInt8.toNat_ofNat_of_lt' (by rw [UInt8.size]; omega)]
  exact hlt

theorem toNat_getData (val : Fin (2 ^ 160)) : BigEndian.toNat (getData val) = val.val := by
  have hlt : val.val < 2 ^ 256 := Nat.lt_trans val.isLt (by decide)
  have hval : (uint256 val.val).val = val.val := Nat.mod_eq_of_lt hlt
  have hstore : BigEndian.toNat (store (uint256 val.val)) = val.val := by
    rw [store, hval]
    split
    · next h0 =>
      rw [h0]
      rfl
    · exact BigEndian.toNat_ofNat _
  simp only [getData]
  split
  · exact hstore
  · rw [BigEndian.toNat_replicate_zero_append, hstore]

theorem getData_injective : Function.Injective getData := by
  intro a b h
  apply Fin.ext
  rw [← toNat_getData a, h, toNat_getData b]

/-! ### Integers -/

/-- The value of an object of an integer class. -/
def Param.integer : Param → Option Int
  | .number .bool _ => none
  | .number _ val => some val.1
  | .uintN _ val => some val.val
  | .intN _ val => some val.1
  | _ => none

theorem natAbs_le_of_integer {p : Param} {n : Int} (h : p.integer = some n) :
    n.natAbs ≤ 2 ^ 256 := by
  cases p with
  | number t val =>
    obtain ⟨v, hl, hh⟩ := val
    cases t <;> simp only [Param.integer, Option.some.injEq, reduceCtorEq] at h <;> subst h <;>
      simp only [NumberType.least, NumberType.greatest] at hl hh <;> omega
  | uintN bits val =>
    have hle := bits.two_pow_le
    have hval := val.isLt
    obtain rfl := Option.some.inj h
    omega
  | intN bits val =>
    have hle := bits.two_pow_le
    obtain ⟨v, hl, hh⟩ := val
    have hcast : ((2 ^ bits.val : Nat) : Int) = 2 ^ bits.val := by push_cast; rfl
    rw [← hcast] at hl hh
    obtain rfl := Option.some.inj h
    show v.natAbs ≤ 2 ^ 256
    omega
  | _ => cases h

/-! ### Readings -/

section Reading

variable (json : Nlohmann)

/-- What is read from the text of an array element. -/
def Param.reading (p : Param) : Nlohmann.Json := readElem json p.text

variable {json} (hdoc : json.Documented)
include hdoc

/-- An integer is read as one up to 64 bits, and rounded beyond. -/
theorem reading_integer {p : Param} {n : Int} (h : p.integer = some n) :
    (Fits64 n ∧ p.reading json = .number_integer n) ∨
      ∃ d, ¬ Fits64 n ∧ nearestDouble n = some d ∧ p.reading json = .number_float d := by
  have htext : p.text = decimal n := by
    rw [← lexicalCast_eq]
    cases p with
    | number t val => cases t <;> cases h <;> rfl
    | uintN bits val => cases h; rfl
    | intN bits val => cases h; rfl
    | _ => cases h
  have hsome := Nlohmann.nearestDouble_isSome (natAbs_le_of_integer h) (by decide)
  obtain ⟨d, hd⟩ := Option.isSome_iff_exists.mp hsome
  rw [Param.reading, readElem, htext]
  by_cases hfits : Fits64 n
  · left
    rw [hdoc.parse_integer n hfits]
    exact ⟨hfits, rfl⟩
  · right
    refine ⟨d, hfits, hd, ?_⟩
    rw [hdoc.parse_large n hfits, hd]
    rfl

/-- A hexadecimal text is read as a string. -/
theorem readElem_hexEncoded (data : Data) :
    readElem json (hexEncoded data) = .string (hexEncoded data) := by
  have hparse : json.parse (hexEncoded data) = none := by
    rw [hexEncoded, Nlohmann.bytesOfStr_append]
    exact hdoc.parse_hex _
  rw [readElem, hparse]
  rfl

/-- A boolean is read as one. -/
theorem reading_bool (val : NumberType.bool.Val) :
    (Param.number .bool val).reading json = .boolean (decide (val.1 ≠ 0)) := by
  rw [Param.reading, Param.text, readElem]
  by_cases h : val.1 = 0
  · rw [if_neg (not_not.mpr h), hdoc.parse_false, decide_eq_false (not_not.mpr h)]
    rfl
  · rw [if_pos h, hdoc.parse_true, decide_eq_true h]
    rfl

end Reading

end ConfluxSdk.Abi
