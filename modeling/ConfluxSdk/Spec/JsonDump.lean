import ConfluxSdk.Spec.JsonStrings

/-!
# Dumped JSON texts

A compact dump determines the value it was made from. Null, booleans and numbers are words
without a comma or a bracket, strings end at their quote, and arrays and objects at their
bracket; the first byte tells which of these a text is.

What the library documents of the functions that are parameters is `Documented`.

## Key results

- `dump_returns`: the text of a value whose strings are UTF-8; other values throw
- `text_reads`: a text in front of a comma or a closing bracket is the text of one value
-/

namespace ConfluxSdk.Nlohmann

open Abi (Data bytesOfStr)
open Delimited

/-! ### Decimal texts -/

/-- The bytes of a number. -/
def numeralBytes : Data := bytesOfStr "+-.0123456789e".toList

/-- The decimal text of an integer. -/
def decimal (n : Int) : Data :=
  bytesOfStr ((if n < 0 then "-".toList else []) ++ to_string n.natAbs)

theorem bytesOfStr_append (s t : Str) : bytesOfStr (s ++ t) = bytesOfStr s ++ bytesOfStr t :=
  List.map_append

private theorem digitChar_toNat :
    ∀ d < 10, UInt8.ofNat (Nat.digitChar d).toNat = UInt8.ofNat (48 + d) := by
  decide

theorem digitsTo99_eq {x : Nat} (h : 10 ≤ x) (hlt : x < 100) :
    digitsTo99 x = bytesOfStr (to_string x) := by
  rw [to_string, Nat.toDigits_of_base_le (by decide) h, Nat.toDigits_of_lt_base (by omega),
    digitsTo99, ← digitChar_toNat _ (by omega), ← digitChar_toNat _ (by omega)]
  rfl

/-- Two digits at a time give the decimal digits. -/
theorem dumpDigits_eq (x : Nat) : dumpDigits x = bytesOfStr (to_string x) := by
  induction x using Nat.strong_induction_on with
  | _ x ih =>
    rw [dumpDigits]
    split
    · next h =>
      have hlow : x % 100 % 10 = x % 10 := by omega
      have hhigh : x % 100 / 10 = x / 10 % 10 := by omega
      have hsplit : to_string x =
          to_string (x / 100) ++ ([Nat.digitChar (x / 10 % 10)] ++ [Nat.digitChar (x % 10)]) := by
        rw [to_string, Nat.toDigits_of_base_le (by decide) (by omega),
          Nat.toDigits_of_base_le (n := x / 10) (by decide) (by omega), Nat.div_div_eq_div_mul,
          List.append_assoc]
        rfl
      rw [ih (x / 100) (by omega), hsplit, bytesOfStr_append, digitsTo99, hlow, hhigh,
        ← digitChar_toNat _ (by omega), ← digitChar_toNat _ (by omega)]
      rfl
    · split
      · next h => exact digitsTo99_eq h (by omega)
      · next h =>
        rw [to_string, Nat.toDigits_of_lt_base (by omega), ← digitChar_toNat x (by omega)]
        rfl

theorem dumpInteger_eq (n : Int) : dumpInteger n = decimal n := by
  rw [dumpInteger, decimal]
  split
  · next h =>
    rw [h]
    rfl
  · split
    · next h => rw [bytesOfStr_append, dumpDigits_eq]
    · rw [dumpDigits_eq, List.nil_append]

/-- The text that bytes were made from. -/
theorem map_bytesOfStr {s : Str} (h : ∀ c ∈ s, c.toNat < 256) :
    (bytesOfStr s).map (fun b => Char.ofNat b.toNat) = s := by
  rw [bytesOfStr, List.map_map]
  calc s.map _ = s.map id := by
        apply List.map_congr_left
        intro c hc
        show Char.ofNat (UInt8.ofNat c.toNat).toNat = c
        rw [UInt8.toNat_ofNat_of_lt' (h c hc), Char.ofNat_toNat]
    _ = s := List.map_id _

theorem bytesOfStr_inj {s t : Str} (hs : ∀ c ∈ s, c.toNat < 256) (ht : ∀ c ∈ t, c.toNat < 256)
    (h : bytesOfStr s = bytesOfStr t) : s = t := by
  rw [← map_bytesOfStr hs, h, map_bytesOfStr ht]

theorem toNat_of_isDigit {d : Char} (h : d.isDigit) : 48 ≤ d.toNat ∧ d.toNat ≤ 57 := by
  rw [Char.isDigit, Bool.and_eq_true, decide_eq_true_eq, decide_eq_true_eq] at h
  exact h

theorem mem_digits {n : Nat} {c : UInt8} (hc : c ∈ bytesOfStr (to_string n)) :
    48 ≤ c.toNat ∧ c.toNat ≤ 57 := by
  obtain ⟨d, hd, rfl⟩ := List.mem_map.mp hc
  have hdigit := toNat_of_isDigit (isDigit_of_mem_to_string hd)
  rw [UInt8.toNat_ofNat_of_lt' (by rw [UInt8.size]; omega)]
  exact hdigit

theorem mem_decimal {n : Int} {c : UInt8} (hc : c ∈ decimal n) :
    c = 45 ∨ 48 ≤ c.toNat ∧ c.toNat ≤ 57 := by
  rw [decimal, bytesOfStr_append] at hc
  rcases List.mem_append.mp hc with hc | hc
  · left
    split at hc
    · exact List.mem_singleton.mp hc
    · cases hc
  · exact .inr (mem_digits hc)

/-- The number a text of decimal digits stands for. -/
def ofDigits (digits : Data) : Nat :=
  Nat.ofDigitChars 10 (digits.map fun c => Char.ofNat c.toNat) 0

/-- The integer a decimal text stands for. -/
def ofDecimal : Data → Int
  | 45 :: digits => -ofDigits digits
  | digits => ofDigits digits

theorem ofDigits_to_string (n : Nat) : ofDigits (bytesOfStr (to_string n)) = n := by
  have hascii : ∀ c ∈ to_string n, c.toNat < 256 := by
    intro c hc
    have hdigit := toNat_of_isDigit (isDigit_of_mem_to_string hc)
    omega
  rw [ofDigits, map_bytesOfStr hascii]
  exact Nat.ofDigitChars_ten_toDigits

theorem ofDecimal_of_not_mem {digits : Data} (h : 45 ∉ digits) :
    ofDecimal digits = ofDigits digits := by
  cases digits with
  | nil => rfl
  | cons c digits =>
    have hc : c ≠ 45 := fun hc => h (hc ▸ List.mem_cons_self)
    simp [ofDecimal, hc]

theorem ofDecimal_decimal (n : Int) : ofDecimal (decimal n) = n := by
  rw [decimal]
  by_cases h : n < 0
  · rw [if_pos h, bytesOfStr_append]
    show -((ofDigits (bytesOfStr (to_string n.natAbs)) : Nat) : Int) = n
    rw [ofDigits_to_string]
    omega
  · have hsign : 45 ∉ bytesOfStr (to_string n.natAbs) := by
      intro hmem
      exact absurd (mem_digits hmem) (by decide)
    rw [if_neg h, List.nil_append, ofDecimal_of_not_mem hsign, ofDigits_to_string]
    omega

/-- Different integers have different decimal texts. -/
theorem decimal_injective : Function.Injective decimal :=
  Function.LeftInverse.injective ofDecimal_decimal

/-! ### Rounded integers -/

/-- Rounding adds at most one bit. -/
theorem roundNearest_le {n k : Nat} (h : n ≤ 2 ^ k) : roundNearest n ≤ 2 ^ (k + 1) := by
  obtain ⟨q, -, heq, hq⟩ := roundNearest_eq n
  have hlog : n.log2 - 52 ≤ k := by
    by_cases h0 : n = 0
    · rw [h0, Nat.log2_zero]
      omega
    · have hlt : n < 2 ^ (k + 1) := Nat.lt_of_le_of_lt h (Nat.pow_lt_pow_succ (by decide))
      have hlog2 : n.log2 < k + 1 := (Nat.log2_lt h0).mpr hlt
      omega
  calc roundNearest n = q * 2 ^ (n.log2 - 52) := heq
    _ ≤ (n / 2 ^ (n.log2 - 52) + 1) * 2 ^ (n.log2 - 52) := Nat.mul_le_mul_right _ hq
    _ = n / 2 ^ (n.log2 - 52) * 2 ^ (n.log2 - 52) + 2 ^ (n.log2 - 52) := by
      rw [Nat.add_mul, Nat.one_mul]
    _ ≤ 2 ^ k + 2 ^ k :=
      Nat.add_le_add ((Nat.div_mul_le_self _ _).trans h) (Nat.pow_le_pow_right (by decide) hlog)
    _ = 2 ^ (k + 1) := by rw [← Nat.two_mul, ← Nat.pow_succ']

theorem mul_two_pow_lt {m k b : Nat} (a : Nat) (hm : m ≤ 2 ^ k) (hk : k < b) :
    m * 2 ^ a < 2 ^ (a + b) := by
  rw [Nat.pow_add, Nat.mul_comm]
  apply Nat.mul_lt_mul_of_pos_left _ (Nat.two_pow_pos a)
  exact Nat.lt_of_le_of_lt hm (Nat.pow_lt_pow_right (by decide) hk)

/-- An integer that is not too long has a nearest `double`. -/
theorem nearestDouble_isSome {n : Int} {k : Nat} (h : n.natAbs ≤ 2 ^ k) (hk : k + 1 < 1024) :
    (nearestDouble n).isSome := by
  simp only [nearestDouble]
  rw [dif_pos (mul_two_pow_lt 1074 (roundNearest_le h) hk)]
  rfl

/-! ### What the library documents -/

/-- The integers that `nlohmann::json` stores as integers, signed or unsigned. -/
def Fits64 (n : Int) : Prop := -2 ^ 63 ≤ n ∧ n < 2 ^ 64

instance (n : Int) : Decidable (Fits64 n) := inferInstanceAs (Decidable (_ ∧ _))

mutual
/-- Every string in the value is UTF-8. -/
def Json.utf8 : Json → Bool
  | .string s => decide (Utf8 s)
  | .array elems => allUtf8 elems
  | .object members => membersUtf8 members
  | _ => true

def allUtf8 : List Json → Bool
  | [] => true
  | elem :: elems => elem.utf8 && allUtf8 elems

def membersUtf8 : List (Data × Json) → Bool
  | [] => true
  | (key, val) :: members => decide (Utf8 key) && val.utf8 && membersUtf8 members
end

/-- The documented behaviour of the parser and of `to_chars`. -/
structure Documented (json : Nlohmann) : Prop where
  parse_true : json.parse (bytesOfStr "true".toList) = some (.boolean true)
  parse_false : json.parse (bytesOfStr "false".toList) = some (.boolean false)
  parse_integer : ∀ n, Fits64 n → json.parse (decimal n) = some (.number_integer n)
  /-- Larger integers become the nearest floating-point number. -/
  parse_large : ∀ n, ¬ Fits64 n → json.parse (decimal n) = (nearestDouble n).map .number_float
  /-- Nothing may follow the leading zero of a number but a point or an exponent. -/
  parse_hex : ∀ text, json.parse (bytesOfStr "0x".toList ++ text) = none
  /-- Only UTF-8 is parsed. -/
  parse_utf8 : ∀ text v, json.parse text = some v → v.utf8 = true
  /-- The text is read back as the same number. -/
  toChars_injective : Function.Injective json.toChars
  toChars_numeral : ∀ d, ∀ c ∈ json.toChars d, c ∈ numeralBytes
  /-- The text is never that of an integer. -/
  toChars_point : ∀ d, 46 ∈ json.toChars d ∨ 101 ∈ json.toChars d

/-! ### Texts -/

section Text

variable (json : Nlohmann)

mutual
/-- The text of a value whose strings are all UTF-8. -/
def Json.text : Json → Data
  | .null => bytesOfStr "null".toList
  | .boolean b => bytesOfStr (if b then "true".toList else "false".toList)
  | .number_integer n => decimal n
  | .number_float d => json.toChars d
  | .string s =>
    bytesOfStr "\"".toList ++ s.flatMap escapeByte ++ bytesOfStr "\"".toList
  | .array elems => bytesOfStr "[".toList ++ textElems elems ++ bytesOfStr "]".toList
  | .object members => bytesOfStr "\x7b".toList ++ textMembers members ++ bytesOfStr "\x7d".toList

def textElems : List Json → Data
  | [] => []
  | elem :: elems =>
    elem.text ++ (if elems.isEmpty then [] else bytesOfStr ",".toList) ++ textElems elems

def textMembers : List (Data × Json) → Data
  | [] => []
  | (key, val) :: members =>
    bytesOfStr "\"".toList ++ key.flatMap escapeByte ++ bytesOfStr "\":".toList ++ val.text ++
      (if members.isEmpty then [] else bytesOfStr ",".toList) ++ textMembers members
end

end Text

protected theorem Json.inductionOn {motive : Json → Prop}
    (null : motive .null)
    (boolean : ∀ b, motive (.boolean b))
    (number_integer : ∀ n, motive (.number_integer n))
    (number_float : ∀ d, motive (.number_float d))
    (string : ∀ s, motive (.string s))
    (array : ∀ elems, (∀ e ∈ elems, motive e) → motive (.array elems))
    (object : ∀ members, (∀ m ∈ members, motive m.2) → motive (.object members))
    (v : Json) : motive v := by
  refine @Json.rec motive (fun elems => ∀ e ∈ elems, motive e)
    (fun members => ∀ m ∈ members, motive m.2) (fun m => motive m.2) null boolean number_integer
    number_float string array object ?_ ?_ ?_ ?_ ?_ v
  · intro e he
    cases he
  · intro e elems he helems f hf
    rcases List.mem_cons.mp hf with rfl | hf
    · exact he
    · exact helems f hf
  · intro m hm
    cases hm
  · intro m members hm hmembers f hf
    rcases List.mem_cons.mp hf with rfl | hf
    · exact hm
    · exact hmembers f hf
  · intro key val hval
    exact hval

/-! ### Dumping -/

section Dump

variable {json : Nlohmann}

theorem dumpElems_returns {elems : List Json}
    (h : ∀ e ∈ elems, (json.dump e).Returns (e.utf8 = true) (e.text json)) :
    (json.dumpElems elems).Returns (allUtf8 elems = true) (textElems json elems) := by
  induction elems with
  | nil => exact Except.returns_ok rfl []
  | cons e elems ih =>
    rw [dumpElems, allUtf8, textElems, Bool.and_eq_true]
    have htail := ih fun f hf => h f (List.mem_cons_of_mem _ hf)
    exact (h e List.mem_cons_self).bind (htail.bind_ok _)

theorem dumpMembers_returns {members : List (Data × Json)}
    (h : ∀ m ∈ members, (json.dump m.2).Returns (m.2.utf8 = true) (m.2.text json)) :
    (json.dumpMembers members).Returns (membersUtf8 members = true) (textMembers json members) := by
  induction members with
  | nil => exact Except.returns_ok rfl []
  | cons m members ih =>
    obtain ⟨key, val⟩ := m
    rw [dumpMembers, membersUtf8, textMembers, Bool.and_eq_true, Bool.and_eq_true,
      decide_eq_true_eq, and_assoc]
    have htail := ih fun f hf => h f (List.mem_cons_of_mem _ hf)
    refine (dumpEscaped_returns key).bind ?_
    refine (h (key, val) List.mem_cons_self).bind ?_
    exact htail.bind_ok _

/-- A value is dumped if all its strings are UTF-8. -/
theorem dump_returns (v : Json) : (json.dump v).Returns (v.utf8 = true) (v.text json) := by
  induction v using Json.inductionOn with
  | null => exact Except.returns_ok rfl _
  | boolean b => exact Except.returns_ok rfl _
  | number_integer n =>
    rw [dump, dumpInteger_eq]
    exact Except.returns_ok rfl _
  | number_float d => exact Except.returns_ok rfl _
  | string s =>
    rw [dump, Json.utf8, decide_eq_true_eq]
    exact (dumpEscaped_returns s).bind_ok _
  | array elems ih =>
    rw [dump, Json.utf8]
    exact (dumpElems_returns ih).bind_ok _
  | object members ih =>
    rw [dump, Json.utf8]
    exact (dumpMembers_returns ih).bind_ok _

end Dump

/-! ### Reading a text back -/

/-- The bytes that end or start the text of a value. -/
def structural : Data := bytesOfStr "\",[]\x7b\x7d".toList

/-- The text of a member. -/
def textMember (json : Nlohmann) (m : Data × Json) : Data :=
  bytesOfStr "\"".toList ++ m.1.flatMap escapeByte ++ bytesOfStr "\":".toList ++ m.2.text json

/-- What may follow the text of a value inside an array or an object. -/
def Stop (c : UInt8) : Prop := c = 44 ∨ c = 93 ∨ c = 125

/-- The first byte of a value that is no word. -/
def Json.bracket : Json → Option UInt8
  | .string _ => some 34
  | .array _ => some 91
  | .object _ => some 123
  | _ => none

/-- A text without structural bytes. -/
def isWord (text : Data) : Bool := text.all fun c => !structural.contains c

theorem isWord_iff {text : Data} : isWord text = true ↔ ∀ c ∈ text, c ∉ structural := by
  simp [isWord]

theorem stop_structural {c : UInt8} (hc : Stop c) : c ∈ structural := by
  rcases hc with rfl | rfl | rfl <;> decide

/-- Which word a text is: null, true, false, a floating-point number or an integer. -/
def wordKind (text : Data) : Nat :=
  if 110 ∈ text then 0
  else if 116 ∈ text then 1
  else if 102 ∈ text then 2
  else if 46 ∈ text ∨ 101 ∈ text then 3
  else 4

/-- `wordKind` of the text of a value. -/
def Json.kind : Json → Nat
  | .null => 0
  | .boolean true => 1
  | .boolean false => 2
  | .number_float _ => 3
  | .number_integer _ => 4
  | _ => 5

section Reads

variable {json : Nlohmann} (hdoc : json.Documented)

/-- The bytes of a number are no letters but `e`. -/
theorem not_mem_of_numeral {text : Data} (h : ∀ c ∈ text, c ∈ numeralBytes) {b : UInt8}
    (hb : b ∉ numeralBytes) : b ∉ text :=
  fun hmem => hb (h b hmem)

theorem decimal_numeral {n : Int} {c : UInt8} (hc : c ∈ decimal n) :
    c ∈ numeralBytes ∧ c ≠ 46 ∧ c ≠ 101 := by
  rcases mem_decimal hc with rfl | ⟨hl, hh⟩
  · decide
  · have hall : ∀ n < 58, 48 ≤ n → UInt8.ofNat n ∈ numeralBytes ∧ UInt8.ofNat n ≠ 46 ∧
        UInt8.ofNat n ≠ 101 := by decide
    have h := hall c.toNat (by omega) hl
    rwa [UInt8.ofNat_toNat] at h

include hdoc

/-- Null, booleans and numbers are written without commas, quotes and brackets. -/
theorem isWord_text {v : Json} (hv : v.bracket = none) : isWord (v.text json) = true := by
  have hnumeral : isWord numeralBytes = true := by decide
  rw [isWord_iff] at hnumeral
  cases v with
  | null => simp only [Json.text]; decide
  | boolean b => cases b <;> simp only [Json.text] <;> decide
  | number_integer n =>
    rw [isWord_iff]
    exact fun c hc => hnumeral c (decimal_numeral hc).1
  | number_float d =>
    rw [isWord_iff]
    exact fun c hc => hnumeral c (hdoc.toChars_numeral d c hc)
  | string s => cases hv
  | array elems => cases hv
  | object members => cases hv

/-- A word is not empty. -/
theorem text_ne_nil {v : Json} (hv : v.bracket = none) : v.text json ≠ [] := by
  cases v with
  | null => exact List.cons_ne_nil _ _
  | boolean b => cases b <;> exact List.cons_ne_nil _ _
  | number_integer n => simp [Json.text, decimal, bytesOfStr]
  | number_float d =>
    intro hnil
    have hpoint := hdoc.toChars_point d
    rw [Json.text] at hnil
    rw [hnil] at hpoint
    rcases hpoint with h | h <;> cases h
  | string s => cases hv
  | array elems => cases hv
  | object members => cases hv

/-- The text of a word tells what kind of value it is. -/
theorem wordKind_text {v : Json} (hv : v.bracket = none) : wordKind (v.text json) = v.kind := by
  cases v with
  | null => simp only [Json.text]; decide
  | boolean b => cases b <;> simp only [Json.text] <;> decide
  | number_integer n =>
    have hnum : ∀ c ∈ decimal n, c ∈ numeralBytes := fun c hc => (decimal_numeral hc).1
    have hpoint : ¬ (46 ∈ decimal n ∨ 101 ∈ decimal n) := by
      rintro (h | h)
      · exact (decimal_numeral h).2.1 rfl
      · exact (decimal_numeral h).2.2 rfl
    rw [Json.text, wordKind, if_neg (not_mem_of_numeral hnum (by decide)),
      if_neg (not_mem_of_numeral hnum (by decide)), if_neg (not_mem_of_numeral hnum (by decide)),
      if_neg hpoint, Json.kind]
  | number_float d =>
    have hnum := hdoc.toChars_numeral d
    rw [Json.text, wordKind, if_neg (not_mem_of_numeral hnum (by decide)),
      if_neg (not_mem_of_numeral hnum (by decide)), if_neg (not_mem_of_numeral hnum (by decide)),
      if_pos (hdoc.toChars_point d), Json.kind]
  | string s => cases hv
  | array elems => cases hv
  | object members => cases hv

/-- Words of different values are different. -/
theorem word_inj {v w : Json} (hv : v.bracket = none) (hw : w.bracket = none)
    (h : v.text json = w.text json) : v = w := by
  have hkind : v.kind = w.kind := by rw [← wordKind_text hdoc hv, h, wordKind_text hdoc hw]
  cases v with
  | null =>
    cases w with
    | null => rfl
    | boolean b => cases b <;> cases hkind
    | _ => cases hkind
  | boolean b =>
    cases w with
    | boolean b' => cases b <;> cases b' <;> first | rfl | cases hkind
    | _ => cases b <;> cases hkind
  | number_integer n =>
    cases w with
    | number_integer m => rw [decimal_injective h]
    | boolean b => cases b <;> cases hkind
    | _ => cases hkind
  | number_float d =>
    cases w with
    | number_float d' => rw [hdoc.toChars_injective h]
    | boolean b => cases b <;> cases hkind
    | _ => cases hkind
  | string s => cases hv
  | array elems => cases hv
  | object members => cases hv

/-- The first byte of a text. -/
theorem text_eq_cons (v : Json) :
    ∃ c t, v.text json = c :: t ∧ (v.bracket = none → c ∉ structural) ∧
      ∀ b, v.bracket = some b → c = b := by
  cases hv : v.bracket with
  | none =>
    obtain ⟨c, t, heq⟩ := List.exists_cons_of_ne_nil (text_ne_nil hdoc hv)
    have hword := isWord_iff.mp (isWord_text hdoc hv)
    refine ⟨c, t, heq, fun _ => hword c ?_, fun b hb => by cases hb⟩
    rw [heq]
    exact List.mem_cons_self
  | some b =>
    refine ⟨b, (v.text json).tail, ?_, (fun hno => by cases hno), fun c hc => Option.some.inj hc⟩
    cases v <;> cases hv <;> rfl

/-- The first byte tells words, strings, arrays and objects apart. -/
theorem bracket_eq {v w : Json} {u u' : Data} (h : v.text json ++ u = w.text json ++ u') :
    v.bracket = w.bracket := by
  obtain ⟨c, t, hv, hvword, hvb⟩ := text_eq_cons hdoc v
  obtain ⟨d, t', hw, hwword, hwb⟩ := text_eq_cons hdoc w
  rw [hv, hw] at h
  obtain rfl : c = d := List.head_eq_of_cons_eq h
  have hstruct : ∀ (x : Json) b, x.bracket = some b → b ∈ structural := by
    intro x b hb
    cases x <;> cases hb <;> decide
  cases hv' : v.bracket with
  | none =>
    cases hw' : w.bracket with
    | none => rfl
    | some b => exact absurd (hwb b hw' ▸ hstruct w b hw') (hvword hv')
  | some b =>
    cases hw' : w.bracket with
    | none => exact absurd (hvb b hv' ▸ hstruct v b hv') (hwword hw')
    | some b' => rw [← hvb b hv', hwb b' hw']

theorem reads_word {v : Json} (hv : v.bracket = none) : Reads Stop (Json.text json) v := by
  intro w u u' hu hu' h
  have hw : w.bracket = none := by rw [← bracket_eq hdoc h, hv]
  have hstop : ∀ {x : Json}, x.bracket = none → ∀ c ∈ x.text json, ¬ Stop c :=
    fun hx c hc hs => isWord_iff.mp (isWord_text hdoc hx) c hc (stop_structural hs)
  obtain ⟨heq, huu'⟩ := word_append_inj (hstop hv) (hstop hw) hu hu' h
  exact ⟨word_inj hdoc hv hw heq, huu'⟩

theorem text_append_ne {c : UInt8} (hc : Stop c) (v : Json) (w t : Data) :
    v.text json ++ w ≠ c :: t := by
  obtain ⟨d, t', hv, hword, hb⟩ := text_eq_cons hdoc v
  intro h
  rw [hv] at h
  obtain rfl : d = c := List.head_eq_of_cons_eq h
  cases hbracket : v.bracket with
  | none => exact hword hbracket (stop_structural hc)
  | some b =>
    obtain rfl := hb b hbracket
    -- A value does not start with a comma or a closing bracket.
    rcases hc with rfl | rfl | rfl <;> cases v <;> cases hbracket

omit hdoc in
theorem textElems_eq (elems : List Json) :
    textElems json elems = separated 44 (Json.text json) elems := by
  induction elems with
  | nil => rfl
  | cons e elems ih =>
    rw [textElems, separated_cons, ih]
    rfl

omit hdoc in
theorem textMembers_eq (members : List (Data × Json)) :
    textMembers json members = separated 44 (textMember json) members := by
  induction members with
  | nil => rfl
  | cons m members ih =>
    rw [textMembers, separated_cons, ih]
    rfl

omit hdoc in
theorem reads_member {m : Data × Json} (h : Reads Stop (Json.text json) m.2) :
    Reads Stop (textMember json) m := by
  intro m' u u' hu hu' heq
  simp only [textMember, List.append_assoc] at heq
  obtain ⟨hkey, hrest⟩ := escapeCode.quoted_inj (List.tail_eq_of_cons_eq heq)
  obtain ⟨hval, huu'⟩ := h m'.2 u u' hu hu' (List.tail_eq_of_cons_eq hrest)
  exact ⟨Prod.ext hkey hval, huu'⟩

/-- A text in front of a comma or a closing bracket is the text of one value only. -/
theorem text_reads (v : Json) : Reads Stop (Json.text json) v := by
  induction v using Json.inductionOn with
  -- The first byte tells strings, arrays and objects from the words.
  | null => exact reads_word hdoc rfl
  | boolean b => exact reads_word hdoc rfl
  | number_integer n => exact reads_word hdoc rfl
  | number_float d => exact reads_word hdoc rfl
  | string s =>
    intro w u u' hu hu' h
    have hw := bracket_eq hdoc h
    cases w <;> cases hw
    next s' =>
    simp only [Json.text, List.append_assoc] at h
    obtain ⟨rfl, huu'⟩ := escapeCode.quoted_inj (List.tail_eq_of_cons_eq h)
    exact ⟨rfl, huu'⟩
  -- The elements are compared one by one, as long as none ends like the array.
  | array elems ih =>
    intro w u u' hu hu' h
    have hw := bracket_eq hdoc h
    cases w <;> cases hw
    next elems' =>
    simp only [Json.text, textElems_eq, List.append_assoc] at h
    obtain ⟨rfl, huu'⟩ := separated_inj (.inl rfl) (.inr (.inl rfl)) (by decide)
      (text_append_ne hdoc (.inr (.inl rfl))) ih (List.tail_eq_of_cons_eq h)
    exact ⟨rfl, huu'⟩
  | object members ih =>
    intro w u u' hu hu' h
    have hw := bracket_eq hdoc h
    cases w <;> cases hw
    next members' =>
    simp only [Json.text, textMembers_eq, List.append_assoc] at h
    -- A member starts with a quote and never with the bracket of the end.
    have hstart : ∀ (m : Data × Json) (w t : Data), textMember json m ++ w ≠ 125 :: t :=
      fun m w t ht => absurd (List.head_eq_of_cons_eq ht) (by decide)
    obtain ⟨rfl, huu'⟩ := separated_inj (.inl rfl) (.inr (.inr rfl)) (by decide) hstart
      (fun m hm => reads_member (ih m hm)) (List.tail_eq_of_cons_eq h)
    exact ⟨rfl, huu'⟩

/-- A text determines its value. -/
theorem text_injective : Function.Injective (Json.text json) :=
  fun v _ h => (text_reads hdoc v).eq_of_write_eq h

end Reads

end ConfluxSdk.Nlohmann
