import ConfluxSdk.Native.AbiDecode

/-!
# JSON values and their texts

Model of the part of `nlohmann::json` 3.9.1 the ABI code uses: the value type, and `dump`
without indentation, which throws on strings that are not UTF-8.

Two functions are parameters (`Nlohmann`): the parser, and `detail::to_chars`, which writes a
floating-point number. Both signed and unsigned integers are `number_integer` here; they
are written by the same template.
-/

namespace ConfluxSdk.Nlohmann

open Abi (Data bytesOfStr)

/-! ### Floating-point numbers -/

/-- A finite `double`. Its magnitude is counted in units of the least positive one, `2 ^ -1074`. -/
@[ext]
structure Double where
  negative : Bool
  magnitude : Nat
  significant : ∃ q e, q < 2 ^ 53 ∧ magnitude = q * 2 ^ e
  finite : magnitude < 2 ^ (1074 + 1024)
  deriving DecidableEq

/-- A natural number rounded to 53 significant bits, a tie to the even one. -/
def roundNearest (n : Nat) : Nat :=
  let dropped := n.log2 - 52
  let q := n / 2 ^ dropped
  let r := n % 2 ^ dropped
  if 2 ^ dropped < 2 * r ∨ (2 * r = 2 ^ dropped ∧ q % 2 = 1) then (q + 1) * 2 ^ dropped
  else q * 2 ^ dropped

theorem roundNearest_eq (n : Nat) :
    ∃ q, q ≤ 2 ^ 53 ∧ roundNearest n = q * 2 ^ (n.log2 - 52) ∧ q ≤ n / 2 ^ (n.log2 - 52) + 1 := by
  have hq : n / 2 ^ (n.log2 - 52) < 2 ^ 53 := by
    rw [Nat.div_lt_iff_lt_mul (Nat.two_pow_pos _), ← Nat.pow_add]
    have hlt : n < 2 ^ (n.log2 + 1) := Nat.lt_log2_self
    exact Nat.lt_of_lt_of_le hlt (Nat.pow_le_pow_right (by omega) (by omega))
  simp only [roundNearest]
  split
  · exact ⟨_, by omega, rfl, by omega⟩
  · exact ⟨_, by omega, rfl, by omega⟩

theorem roundNearest_significant (n : Nat) :
    ∃ q e, q < 2 ^ 53 ∧ roundNearest n * 2 ^ 1074 = q * 2 ^ e := by
  obtain ⟨q, hq, heq, -⟩ := roundNearest_eq n
  rw [heq, Nat.mul_assoc, ← Nat.pow_add]
  by_cases hlt : q < 2 ^ 53
  · exact ⟨q, _, hlt, rfl⟩
  -- The carry ran through all the bits.
  have hcarry : q = 2 ^ (52 + 1) := by omega
  have hpow : q * 2 ^ (n.log2 - 52 + 1074) = 2 ^ 52 * 2 ^ (1 + (n.log2 - 52 + 1074)) := by
    rw [hcarry, ← Nat.pow_add, ← Nat.pow_add, Nat.add_assoc]
  exact ⟨2 ^ 52, _, by decide, hpow⟩

/-- What `strtod` makes of an integer literal: the nearest `double`, unless it is too large. -/
def nearestDouble (n : Int) : Option Double :=
  let m := roundNearest n.natAbs
  if h : m * 2 ^ 1074 < 2 ^ (1074 + 1024) then
    some ⟨decide (n < 0), m * 2 ^ 1074, roundNearest_significant n.natAbs, h⟩
  else none

/-! ### Values -/

/-- `nlohmann::json`, but for binary and discarded values. The members of an object stand in
    the order of their `std::map`. -/
inductive Json where
  | null
  | boolean (b : Bool)
  | number_integer (n : Int)
  | number_float (d : Double)
  | string (s : Data)
  | array (elems : List Json)
  | object (members : List (Data × Json))

/-- `type_error` 316: an invalid UTF-8 byte at an index, or an incomplete UTF-8 string with
    its last byte. -/
inductive TypeError where
  | invalidByte (index : Nat) (byte : UInt8)
  | incomplete (last : UInt8)
  deriving DecidableEq, Repr

/-! ### Strings -/

/-- `UTF8_ACCEPT`. -/
def utf8Accept : Nat := 0

/-- `UTF8_REJECT`. -/
def utf8Reject : Nat := 1

/-- `utf8d`: the types of all bytes, then the next state for a state and a type. -/
def utf8d : List Nat := [
  0, 0, 0, 0, 0, 0, 0, 0, 0, 0, 0, 0, 0, 0, 0, 0, 0, 0, 0, 0, 0, 0, 0, 0, 0, 0, 0, 0, 0, 0, 0, 0,
  0, 0, 0, 0, 0, 0, 0, 0, 0, 0, 0, 0, 0, 0, 0, 0, 0, 0, 0, 0, 0, 0, 0, 0, 0, 0, 0, 0, 0, 0, 0, 0,
  0, 0, 0, 0, 0, 0, 0, 0, 0, 0, 0, 0, 0, 0, 0, 0, 0, 0, 0, 0, 0, 0, 0, 0, 0, 0, 0, 0, 0, 0, 0, 0,
  0, 0, 0, 0, 0, 0, 0, 0, 0, 0, 0, 0, 0, 0, 0, 0, 0, 0, 0, 0, 0, 0, 0, 0, 0, 0, 0, 0, 0, 0, 0, 0,
  1, 1, 1, 1, 1, 1, 1, 1, 1, 1, 1, 1, 1, 1, 1, 1, 9, 9, 9, 9, 9, 9, 9, 9, 9, 9, 9, 9, 9, 9, 9, 9,
  7, 7, 7, 7, 7, 7, 7, 7, 7, 7, 7, 7, 7, 7, 7, 7, 7, 7, 7, 7, 7, 7, 7, 7, 7, 7, 7, 7, 7, 7, 7, 7,
  8, 8, 2, 2, 2, 2, 2, 2, 2, 2, 2, 2, 2, 2, 2, 2, 2, 2, 2, 2, 2, 2, 2, 2, 2, 2, 2, 2, 2, 2, 2, 2,
  0xA, 0x3, 0x3, 0x3, 0x3, 0x3, 0x3, 0x3, 0x3, 0x3, 0x3, 0x3, 0x3, 0x4, 0x3, 0x3,
  0xB, 0x6, 0x6, 0x6, 0x5, 0x8, 0x8, 0x8, 0x8, 0x8, 0x8, 0x8, 0x8, 0x8, 0x8, 0x8,
  0x0, 0x1, 0x2, 0x3, 0x5, 0x8, 0x7, 0x1, 0x1, 0x1, 0x4, 0x6, 0x1, 0x1, 0x1, 0x1,
  1, 1, 1, 1, 1, 1, 1, 1, 1, 1, 1, 1, 1, 1, 1, 1, 1, 0, 1, 1, 1, 1, 1, 0, 1, 0, 1, 1, 1, 1, 1, 1,
  1, 2, 1, 1, 1, 1, 1, 2, 1, 2, 1, 1, 1, 1, 1, 1, 1, 1, 1, 1, 1, 1, 1, 2, 1, 1, 1, 1, 1, 1, 1, 1,
  1, 2, 1, 1, 1, 1, 1, 1, 1, 2, 1, 1, 1, 1, 1, 1, 1, 1, 1, 1, 1, 1, 1, 3, 1, 3, 1, 1, 1, 1, 1, 1,
  1, 3, 1, 1, 1, 1, 1, 3, 1, 3, 1, 1, 1, 1, 1, 1, 1, 3, 1, 1, 1, 1, 1, 1, 1, 1, 1, 1, 1, 1, 1, 1]

/-- The type `decode` gives a byte. -/
def utf8Type (byte : UInt8) : Nat := utf8d.getD byte.toNat 0

/-- The state `decode` returns. -/
def nextState (state : Nat) (byte : UInt8) : Nat :=
  utf8d.getD (256 + state * 16 + utf8Type byte) utf8Reject

/-- The code point `decode` leaves; it has at most 21 bits. -/
def nextCodepoint (state codep : Nat) (byte : UInt8) : Nat :=
  if state ≠ utf8Accept then (byte &&& 0x3f).toNat ||| codep <<< 6
  else (0xFF >>> utf8Type byte) &&& byte.toNat

/-- What `dump_escaped` writes when a code point ends with a byte. -/
def escape (codepoint : Nat) (byte : UInt8) : Data :=
  if codepoint = 0x08 then bytesOfStr "\\b".toList
  else if codepoint = 0x09 then bytesOfStr "\\t".toList
  else if codepoint = 0x0A then bytesOfStr "\\n".toList
  else if codepoint = 0x0C then bytesOfStr "\\f".toList
  else if codepoint = 0x0D then bytesOfStr "\\r".toList
  else if codepoint = 0x22 then bytesOfStr "\\\"".toList
  else if codepoint = 0x5C then bytesOfStr "\\\\".toList
  else if codepoint ≤ 0x1F then
    bytesOfStr ("\\u00".toList ++ [Nat.digitChar (codepoint / 16), Nat.digitChar (codepoint % 16)])
  else [byte]

/-- The loop of `dump_escaped` at index `i` of a string with the given last byte. -/
def dumpEscapedFrom (last : UInt8) (i state codepoint : Nat) : Data → Except TypeError Data
  | [] => if state = utf8Accept then .ok [] else .error (.incomplete last)
  | byte :: s =>
    let state' := nextState state byte
    let codepoint' := nextCodepoint state codepoint byte
    if state' = utf8Accept then do
      let rest ← dumpEscapedFrom last (i + 1) state' codepoint' s
      .ok (escape codepoint' byte ++ rest)
    else if state' = utf8Reject then .error (.invalidByte i byte)
    -- A code point that goes on is copied byte by byte.
    else do
      let rest ← dumpEscapedFrom last (i + 1) state' codepoint' s
      .ok (byte :: rest)

/-- `dump_escaped`. -/
def dumpEscaped (s : Data) : Except TypeError Data :=
  dumpEscapedFrom (s.getLastD 0) 0 utf8Accept 0 s

/-! ### Numbers -/

/-- An entry of `digits_to_99`. -/
def digitsTo99 (i : Nat) : Data := [UInt8.ofNat (48 + i / 10), UInt8.ofNat (48 + i % 10)]

/-- The digits `dump_integer` writes, two at a time from the right. -/
def dumpDigits (abs_value : Nat) : Data :=
  if 100 ≤ abs_value then dumpDigits (abs_value / 100) ++ digitsTo99 (abs_value % 100)
  else if 10 ≤ abs_value then digitsTo99 abs_value
  else [UInt8.ofNat (48 + abs_value)]

/-- `dump_integer`. -/
def dumpInteger (x : Int) : Data :=
  if x = 0 then bytesOfStr "0".toList
  else if x < 0 then bytesOfStr "-".toList ++ dumpDigits x.natAbs
  else dumpDigits x.natAbs

end Nlohmann

/-- The functions of `nlohmann::json` that are not written out: `parse` without exceptions,
    `none` for a discarded value, and `detail::to_chars` of a finite number. -/
structure Nlohmann where
  parse : Abi.Data → Option Nlohmann.Json
  toChars : Nlohmann.Double → Abi.Data

namespace Nlohmann

open Abi (Data bytesOfStr)

/-! ### Dumping -/

variable (json : Nlohmann)

mutual
/-- `dump` of a serializer, compact and without `ensure_ascii`. -/
def dump : Json → Except TypeError Data
  | .null => .ok (bytesOfStr "null".toList)
  | .boolean b => .ok (bytesOfStr (if b then "true".toList else "false".toList))
  | .number_integer n => .ok (dumpInteger n)
  | .number_float d => .ok (json.toChars d)
  | .string s => do
    let text ← dumpEscaped s
    .ok (bytesOfStr "\"".toList ++ text ++ bytesOfStr "\"".toList)
  | .array elems => do
    let text ← dumpElems elems
    .ok (bytesOfStr "[".toList ++ text ++ bytesOfStr "]".toList)
  | .object members => do
    let text ← dumpMembers members
    .ok (bytesOfStr "\x7b".toList ++ text ++ bytesOfStr "\x7d".toList)

/-- The elements of an array, a comma after all but the last. -/
def dumpElems : List Json → Except TypeError Data
  | [] => .ok []
  | elem :: elems => do
    let text ← dump elem
    let rest ← dumpElems elems
    .ok (text ++ (if elems.isEmpty then [] else bytesOfStr ",".toList) ++ rest)

/-- The members of an object, a comma after all but the last. -/
def dumpMembers : List (Data × Json) → Except TypeError Data
  | [] => .ok []
  | (key, val) :: members => do
    let name ← dumpEscaped key
    let text ← dump val
    let rest ← dumpMembers members
    .ok (bytesOfStr "\"".toList ++ name ++ bytesOfStr "\":".toList ++ text ++
      (if members.isEmpty then [] else bytesOfStr ",".toList) ++ rest)
end

end ConfluxSdk.Nlohmann
