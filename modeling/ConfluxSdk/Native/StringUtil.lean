import ConfluxSdk.ForStd.RegularExpression
import ConfluxSdk.Native.StdString

/-!
# String utilities, hex and regular expressions

Model of `common/util/string_util`, `common/encoding/hex` and of
`std::regex_match` for the two patterns the SDK uses. A pattern is a Mathlib
`RegularExpression`, so what it matches is what the ECMAScript grammar says.
-/

namespace ConfluxSdk

/-! ### string_util -/

/-- `tolower_string`. -/
def tolower_string (sourceString : Str) : Str := sourceString.map Char.toLower

/-- `toupper_string`. -/
def toupper_string (sourceString : Str) : Str := sourceString.map Char.toUpper

/-- `split_string`. -/
def split_string (strtem : Str) (a : Char) : List Str := strtem.splitOn a

/-- `starts_with`. -/
def starts_with (big smallstr : Str) : Bool := smallstr.isPrefixOf big

/-! ### hex -/

namespace Hex

/-- `fromHexChar`; `none` stands for `*isOK == false`. -/
def fromHexChar (c : Char) : Option UInt8 :=
  if '0' ≤ c ∧ c ≤ '9' then some (UInt8.ofNat (c.toNat - '0'.toNat))
  else if 'a' ≤ c ∧ c ≤ 'f' then some (UInt8.ofNat (c.toNat - 'a'.toNat + 10))
  else if 'A' ≤ c ∧ c ≤ 'F' then some (UInt8.ofNat (c.toNat - 'A'.toNat + 10))
  else none

/-- The loop of `Decode` and its two exits: `dst` and the count that is returned, which is
    zero at the end of a text of odd size. -/
def decodeLoop (odd : Bool) : List UInt8 → Nat → Str → List UInt8 × Nat
  | dst, i, c :: d :: src =>
    match fromHexChar c, fromHexChar d with
    | some a, some b => decodeLoop odd (dst ++ [a <<< 4 ||| b]) (i + 1) src
    -- The bytes before the bad digit stay in `dst`.
    | _, _ => (dst, i)
  | dst, i, _ => (dst, if odd then 0 else i)

/-- `Decode`. -/
def decode (dst : List UInt8) (src : Str) : List UInt8 × Nat :=
  decodeLoop (src.length % 2 == 1) dst 0 src

/-- `DecodeString`: stops at the first character that is no hex digit, keeping
    the bytes before it. -/
def decodeString : Str → List UInt8
  | c :: d :: src =>
    match fromHexChar c, fromHexChar d with
    | some a, some b => (a <<< 4 ||| b) :: decodeString src
    | _, _ => []
  | _ => []

/-- `hextable`. -/
def hextable : Str := "0123456789abcdef".toList

/-- The two characters of a byte. -/
def encodeByte (v : UInt8) : Str :=
  [hextable.getD (v >>> 4).toNat ' ', hextable.getD (v &&& 0x0f).toNat ' ']

/-- `EncodeToString`. -/
def encodeToString (src : List UInt8) : Str := src.flatMap encodeByte

end Hex

/-! ### Regular expressions -/

namespace Regex

open RegularExpression (ofWord oneOf)

/-- `\d`. -/
def digits : Str := "0123456789".toList

/-- `\w`. -/
def wordChars : Str :=
  "abcdefghijklmnopqrstuvwxyzABCDEFGHIJKLMNOPQRSTUVWXYZ0123456789_".toList

/-- `[a-f0-9]`. -/
def hexDigits : Str := "abcdef0123456789".toList

/-- `hexPattern`: `^0x[a-f0-9]{40}$`. -/
def hexPattern : RegularExpression Char := ofWord "0x".toList * oneOf hexDigits ^ 40

/-- The network part of `base32Pattern`: `(cfx|cfxtest|net\d+)`. -/
def netPattern : RegularExpression Char :=
  ofWord "cfx".toList + ofWord "cfxtest".toList +
    ofWord "net".toList * (oneOf digits * (oneOf digits).star)

/-- The optional type field of `base32Pattern`. -/
def typePattern : RegularExpression Char :=
  ofWord "type.user:".toList + ofWord "type.builtin:".toList + ofWord "type.contract:".toList +
    ofWord "type.null:".toList + 1

/-- `base32Pattern`. -/
def base32Pattern : RegularExpression Char :=
  netPattern * ofWord ":".toList * typePattern * oneOf wordChars ^ 42

/-- `std::regex_match`. -/
def regex_match (s : Str) (pattern : RegularExpression Char) : Bool := pattern.rmatch s

end Regex

end ConfluxSdk
