import ConfluxSdk.Spec.JsonDump

/-!
# JSON numbers and booleans

A parser of decimal integers and booleans, and a way of writing floating-point numbers, that
behave as `nlohmann::json` documents. All other texts are discarded; `2 ^ 64` is written as
the library writes it, other numbers only so that they can be told apart.

## Key results

- `documented`: the parameters of the model can be chosen as the library documents them
-/

namespace ConfluxSdk.Nlohmann.Scalars

open Abi (Data bytesOfStr)

/-- The parser on decimal texts and booleans. -/
def parse (text : Data) : Option Json :=
  if text = bytesOfStr "true".toList then some (.boolean true)
  else if text = bytesOfStr "false".toList then some (.boolean false)
  else
    let n := ofDecimal text
    if decimal n = text then
      if Fits64 n then some (.number_integer n) else (nearestDouble n).map .number_float
    else none

/-- The sign, and the magnitude in units of the least number. -/
def unitText (d : Double) : Data :=
  (if d.negative then bytesOfStr "-".toList else []) ++ bytesOfStr (to_string d.magnitude) ++
    bytesOfStr ".0".toList

/-- The text of a floating-point number. -/
def toChars (d : Double) : Data :=
  if d.negative = false ∧ d.magnitude = 2 ^ 64 * 2 ^ 1074 then
    bytesOfStr "1.8446744073709552e+19".toList
  else unitText d

/-- `nlohmann::json` on the texts of numbers and booleans. -/
def json : Nlohmann := ⟨parse, toChars⟩

/-! ### Parsing -/

theorem decimal_ne {n : Int} {text : Data} {c : UInt8} (hc : c ∈ text) (hnot : c ∉ numeralBytes) :
    decimal n ≠ text := by
  intro heq
  rw [← heq] at hc
  exact hnot (decimal_numeral hc).1

theorem parse_decimal (n : Int) : parse (decimal n) =
    if Fits64 n then some (.number_integer n) else (nearestDouble n).map .number_float := by
  have htrue : decimal n ≠ bytesOfStr "true".toList :=
    decimal_ne (c := 116) (by decide) (by decide)
  have hfalse : decimal n ≠ bytesOfStr "false".toList :=
    decimal_ne (c := 102) (by decide) (by decide)
  rw [parse, if_neg htrue, if_neg hfalse, ofDecimal_decimal]
  simp only [if_true]

theorem parse_hex (text : Data) : parse (bytesOfStr "0x".toList ++ text) = none := by
  have htrue : bytesOfStr "0x".toList ++ text ≠ bytesOfStr "true".toList :=
    fun h => absurd (List.head_eq_of_cons_eq h) (by decide)
  have hfalse : bytesOfStr "0x".toList ++ text ≠ bytesOfStr "false".toList :=
    fun h => absurd (List.head_eq_of_cons_eq h) (by decide)
  have hx : 120 ∈ bytesOfStr "0x".toList ++ text := List.mem_append_left _ (by decide)
  rw [parse, if_neg htrue, if_neg hfalse]
  exact if_neg (decimal_ne hx (by decide))

theorem parse_utf8 {text : Data} {v : Json} (h : parse text = some v) : v.utf8 = true := by
  rw [parse] at h
  split at h
  · rw [← Option.some.inj h]
    rfl
  split at h
  · rw [← Option.some.inj h]
    rfl
  simp only at h
  split at h
  · split at h
    · rw [← Option.some.inj h]
      rfl
    · obtain ⟨d, -, rfl⟩ := Option.map_eq_some_iff.mp h
      rfl
  · cases h

/-! ### Writing -/

theorem mem_unitText {d : Double} {c : UInt8} (hc : c ∈ unitText d) :
    c ∈ numeralBytes ∧ c ≠ 101 := by
  rcases List.mem_append.mp hc with hc | hc
  · rcases List.mem_append.mp hc with hc | hc
    · split at hc
      · rw [List.mem_singleton.mp hc]
        decide
      · cases hc
    · have hdigit : c ∈ decimal d.magnitude := by
        rw [decimal, if_neg (by omega)]
        exact hc
      exact ⟨(decimal_numeral hdigit).1, (decimal_numeral hdigit).2.2⟩
  · have hall : (bytesOfStr ".0".toList).all
        (fun c => decide (c ∈ numeralBytes ∧ c ≠ 101)) = true := by decide
    exact of_decide_eq_true (List.all_eq_true.mp hall c hc)

theorem unitText_injective : Function.Injective unitText := by
  intro d d' h
  have hsign : ∀ {n : Nat} {u : Data}, bytesOfStr (to_string n) ≠ 45 :: u := by
    intro n u heq
    have hmem : 45 ∈ bytesOfStr (to_string n) := by
      rw [heq]
      exact List.mem_cons_self
    exact absurd (mem_digits hmem) (by decide)
  have hdigits : ∀ {n m : Nat}, bytesOfStr (to_string n) = bytesOfStr (to_string m) → n = m := by
    intro n m heq
    rw [← ofDigits_to_string n, heq, ofDigits_to_string]
  have hstart := (List.append_inj' h rfl).1
  cases hd : d.negative with
  | false =>
    cases hd' : d'.negative with
    | false =>
      rw [hd, hd'] at hstart
      exact Double.ext (hd.trans hd'.symm) (hdigits hstart)
    | true =>
      rw [hd, hd'] at hstart
      exact absurd hstart hsign
  | true =>
    cases hd' : d'.negative with
    | false =>
      rw [hd, hd'] at hstart
      exact absurd hstart.symm hsign
    | true =>
      rw [hd, hd'] at hstart
      exact Double.ext (hd.trans hd'.symm) (hdigits (List.tail_eq_of_cons_eq hstart))

theorem toChars_injective : Function.Injective toChars := by
  intro d d' h
  have hexp : ∀ {e : Double}, bytesOfStr "1.8446744073709552e+19".toList ≠ unitText e := by
    intro e heq
    have hmem : 101 ∈ unitText e := by
      rw [← heq]
      decide
    exact (mem_unitText hmem).2 rfl
  rw [toChars, toChars] at h
  split at h
  · next hd =>
    split at h
    · next hd' =>
      exact Double.ext (hd.1.trans hd'.1.symm) (hd.2.trans hd'.2.symm)
    · exact absurd h hexp
  · split at h
    · exact absurd h.symm hexp
    · exact unitText_injective h

/-- An integer that rounds to 2^64 is written like it. -/
theorem toChars_of_round {n : Int} (hn : 0 ≤ n) (h : roundNearest n.natAbs = 2 ^ 64) :
    ∃ d, nearestDouble n = some d ∧
      json.toChars d = bytesOfStr "1.8446744073709552e+19".toList := by
  have hfinite := mul_two_pow_lt 1074 (b := 1024) (Nat.le_of_eq h) (by decide)
  refine ⟨⟨decide (n < 0), _, roundNearest_significant n.natAbs, hfinite⟩, ?_, ?_⟩
  · simp only [nearestDouble]
    rw [dif_pos hfinite]
  · exact if_pos ⟨decide_eq_false (by omega), congrArg (fun m => m * 2 ^ 1074) h⟩

theorem documented : json.Documented where
  parse_true := rfl
  parse_false := rfl
  parse_integer n hn := by
    show parse (decimal n) = _
    rw [parse_decimal, if_pos hn]
  parse_large n hn := by
    show parse (decimal n) = _
    rw [parse_decimal, if_neg hn]
  parse_hex := parse_hex
  parse_utf8 _ _ h := parse_utf8 h
  toChars_injective := toChars_injective
  toChars_numeral d := by
    show ∀ c ∈ toChars d, c ∈ numeralBytes
    rw [toChars]
    have hall : (bytesOfStr "1.8446744073709552e+19".toList).all
        (fun c => decide (c ∈ numeralBytes)) = true := by decide
    split
    · exact fun c hc => of_decide_eq_true (List.all_eq_true.mp hall c hc)
    · exact fun c hc => (mem_unitText hc).1
  toChars_point d := by
    show 46 ∈ toChars d ∨ 101 ∈ toChars d
    rw [toChars]
    left
    split
    · decide
    · exact List.mem_append_right _ (by decide)

end ConfluxSdk.Nlohmann.Scalars
