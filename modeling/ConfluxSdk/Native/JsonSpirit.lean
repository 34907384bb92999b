import ConfluxSdk.Native.KeyFile

/-!
# json_spirit

Model of `utils/json_spirit`: the generator behind `write_string` and the grammar behind
`read_string`, with the actions that build the value while the text is being read.

A rule that fails part of the way through a text throws, and the value keeps what had
been read up to there. `read_string` catches the exception, and what follows a value is not looked at.
The digits of floating point numbers are a parameter.
-/

namespace ConfluxSdk

/-- What json_spirit uses of the standard library beyond integers and text: the locale's
    printable characters, and doubles as texts. -/
structure JsonLocale where
  iswprint : Nat → Bool
  showReal : Float → Str
  readReal : Str → Float

namespace JsonSpirit

/-! ### The writer -/

/-- `to_hex_char`. -/
def toHexChar (c : Nat) : Char :=
  if c < 10 then Char.ofNat ('0'.toNat + c) else Char.ofNat ('A'.toNat - 10 + c)

/-- `non_printable_to_string`. -/
def nonPrintableToString (c : Nat) : Str :=
  ['\\', 'u', toHexChar (c / 4096 % 16), toHexChar (c / 256 % 16), toHexChar (c / 16 % 16),
    toHexChar (c % 16)]

/-- `add_esc_char`: the escaped form of the characters that have a short one. -/
def addEscChar (c : Char) : Option Str :=
  if c = '"' then some ['\\', '"']
  else if c = '\\' then some ['\\', '\\']
  else if c = '\x08' then some ['\\', 'b']
  else if c = '\x0c' then some ['\\', 'f']
  else if c = '\n' then some ['\\', 'n']
  else if c = '\r' then some ['\\', 'r']
  else if c = '\t' then some ['\\', 't']
  else none

section Writer

variable (env : JsonLocale)

/-- The round of `add_esc_chars` for one character. -/
def escapeChar (c : Char) : Str :=
  match addEscChar c with
  | some text => text
  | none => if env.iswprint c.toNat then [c] else nonPrintableToString c.toNat

/-- `add_esc_chars`. -/
def addEscChars (s : Str) : Str := s.flatMap (escapeChar env)

/-- `Generator::output` of a text. -/
def outputStr (s : Str) : Str := '"' :: (addEscChars env s ++ ['"'])

/-- `Generator::output_int`. -/
def outputInt (n : Int) : Str :=
  if n < 0 then '-' :: to_string n.natAbs else to_string n.natAbs

variable (pretty : Bool)

/-- `Generator::indent`. -/
def indent (level : Nat) : Str := if pretty then List.replicate (4 * level) ' ' else []

/-- `Generator::space`. -/
def space : Str := if pretty then [' '] else []

/-- `Generator::new_line`. -/
def newLine : Str := if pretty then ['\n'] else []

mutual

/-- `Generator::output`, at an indentation level. -/
def output (level : Nat) : Json → Str
  | .null => "null".toList
  | .bool b => if b then "true".toList else "false".toList
  | .int n => outputInt n
  | .real x => env.showReal x
  | .str s => outputStr env s
  | .arr values =>
    '[' :: (newLine pretty ++ outputElements (level + 1) values ++ indent pretty level ++ [']'])
  | .obj members =>
    '\x7b' :: (newLine pretty ++ outputMembers (level + 1) members ++ indent pretty level ++ ['\x7d'])

/-- The loop of `output_array_or_obj` over an array. -/
def outputElements (level : Nat) : List Json → Str
  | [] => []
  | v :: values =>
    indent pretty level ++ output level v ++ (if values.isEmpty then [] else [',']) ++
      newLine pretty ++ outputElements level values

/-- The loop of `output_array_or_obj` over the members of an object. -/
def outputMembers (level : Nat) : List (Str × Json) → Str
  | [] => []
  | (name, v) :: members =>
    indent pretty level ++ (outputStr env name ++ space pretty ++ [':'] ++ space pretty ++
      output level v) ++ (if members.isEmpty then [] else [',']) ++ newLine pretty ++
      outputMembers level members

end

end Writer

/-- `write_string`. -/
def writeString (env : JsonLocale) (value : Json) (pretty : Bool) : Str := output env pretty 0 value

/-! ### Texts in quotes -/

/-- `hex_to_num`. -/
def hexToNum (c : Char) : Nat :=
  if '0' ≤ c ∧ c ≤ '9' then c.toNat - '0'.toNat
  else if 'a' ≤ c ∧ c ≤ 'f' then c.toNat - 'a'.toNat + 10
  else if 'A' ≤ c ∧ c ≤ 'F' then c.toNat - 'A'.toNat + 10
  else 0

/-- `isxdigit`. -/
def isHexDigit (c : Char) : Bool := digitValue c < 16

/-- `hex_str_to_char`; the sum is cut off at the size of a `char`. -/
def hexStrToChar (c1 c2 : Char) : Char := Char.ofNat ((hexToNum c1 * 16 + hexToNum c2) % 256)

/-- `unicode_str_to_char`. -/
def unicodeStrToChar (c1 c2 c3 c4 : Char) : Char :=
  Char.ofNat ((hexToNum c1 * 4096 + hexToNum c2 * 256 + hexToNum c3 * 16 + hexToNum c4) % 256)

/-- What `append_esc_char_and_incr_iter` appends for the escapes of one character; an
    escape that is not known appends nothing. -/
def shortEscape (c : Char) : Str :=
  if c = 't' then ['\t']
  else if c = 'b' then ['\x08']
  else if c = 'f' then ['\x0c']
  else if c = 'n' then ['\n']
  else if c = 'r' then ['\r']
  else if c = '\\' then ['\\']
  else if c = '/' then ['/']
  else if c = '"' then ['"']
  else []

/-- `substitute_esc_chars`. A backslash that is the last character is copied, and an escape
    with too few digits behind it is dropped. -/
def substituteEscChars : Str → Str
  | [] => []
  | [c] => [c]
  | '\\' :: 'x' :: c1 :: c2 :: s => hexStrToChar c1 c2 :: substituteEscChars s
  | '\\' :: 'u' :: c1 :: c2 :: c3 :: c4 :: s =>
    unicodeStrToChar c1 c2 c3 c4 :: substituteEscChars s
  | '\\' :: c :: s => shortEscape c ++ substituteEscChars s
  | c :: d :: s => c :: substituteEscChars (d :: s)

/-- `get_str`, on the text between the quotes. -/
def getStr (s : Str) : Str := substituteEscChars s

/-! ### The scanner -/

/-- `space_p`, the skipper in front of every token. -/
def skip (s : Str) : Str := s.dropWhile isSpace

/-- `ch_p`. -/
def ch (c : Char) (s : Str) : Option Str :=
  match skip s with
  | d :: rest => if d = c then some rest else none
  | [] => none

/-- `str_p`. -/
def word (w s : Str) : Option Str :=
  if w.isPrefixOf (skip s) then some ((skip s).drop w.length) else none

/-- The hexadecimal number of a `\x` escape: one or two digits of a `char`, which is signed. -/
def hexEscape : Str → Bool
  | c1 :: c2 :: _ =>
    isHexDigit c1 && (!isHexDigit c2 || decide (digitValue c1 * 16 + digitValue c2 ≤ 127))
  | [c1] => isHexDigit c1
  | [] => false

/-- `*lex_escape_ch_p` up to a quote: what it matches and what it leaves. The digits of an
    escape are matched one by one, which ends at the same place. -/
def lexEscapes : Str → Str × Str
  | [] => ([], [])
  | ['\\'] => ([], ['\\'])
  | '\\' :: c :: s =>
    if (c = 'x' ∨ c = 'X') ∧ !hexEscape s then ([], '\\' :: c :: s)
    else ('\\' :: c :: (lexEscapes s).1, (lexEscapes s).2)
  | c :: s => if c = '"' then ([], c :: s) else (c :: (lexEscapes s).1, (lexEscapes s).2)

/-- The rule `string_`, with the text between the quotes. -/
def string_ (s : Str) : Option (Str × Str) :=
  match skip s with
  | '"' :: s =>
    match lexEscapes s with
    | (text, '"' :: rest) => some (text, rest)
    | _ => none
  | _ => none

/-! ### Numbers -/

/-- The longest run of digits in front, and the text behind it. -/
def digitRun (s : Str) : Str × Str := (s.takeWhile Char.isDigit, s.dropWhile Char.isDigit)

/-- The exponent of a real: what is left behind it. `some none` is an `e` without digits. -/
def exponent (s : Str) : Option (Option Str) :=
  match s with
  | c :: s =>
    if c = 'e' ∨ c = 'E' then
      match digitRun (splitSign s).2 with
      | ([], _) => some none
      | (_, rest) => some (some rest)
    else none
  | [] => none

/-- `strict_real_p`, for a numeral in front of the text: a dot or an exponent has to be there. -/
def strictReal (s : Str) : Option Str :=
  match digitRun (splitSign s).2 with
  | (digits, '.' :: s) =>
    match digitRun s with
    | (fraction, rest) =>
      if digits = [] ∧ fraction = [] then none
      else
        match exponent rest with
        | some rest => rest
        | none => some rest
  | (digits, rest) => if digits = [] then none else (exponent rest).join

/-- `int64_p`. -/
def int64 (s : Str) : Option (Int × Str) :=
  match splitSign s with
  | (negative, s) =>
    match digitRun s with
    | ([], _) => none
    | (digits, rest) =>
      let magnitude : Int := Nat.ofDigitChars 10 digits 0
      let v := if negative then -magnitude else magnitude
      if v < -2 ^ 63 ∨ 2 ^ 63 ≤ v then none else some (v, rest)

/-- `uint64_p`. -/
def uint64 (s : Str) : Option (Int × Str) :=
  match digitRun s with
  | ([], _) => none
  | (digits, rest) =>
    if 2 ^ 64 ≤ Nat.ofDigitChars 10 digits 0 then none
    else some ((Nat.ofDigitChars 10 digits 0 : Nat), rest)

/-- The rule `number_`. -/
def number_ (env : JsonLocale) (s : Str) : Option (Json × Str) :=
  let s := skip s
  match strictReal s with
  | some rest => some (.real (env.readReal (s.take (s.length - rest.length))), rest)
  | none =>
    match int64 s with
    | some (n, rest) => some (.int n, rest)
    | none => (uint64 s).map fun n => (.int n.1, n.2)

/-! ### The grammar -/

/-- What a rule makes of a text. A rule that throws leaves what was built before. -/
inductive Reply (α : Type) where
  | noMatch
  | hit (a : α) (rest : Str)
  | thrown (a : α) (reason : Str)

section Grammar

variable (value : Str → Reply Json)

/-- The rule `pair_`, with the members of the object so far. -/
def pair_ (members : List (Str × Json)) (s : Str) : Reply (List (Str × Json)) :=
  match string_ s with
  | none => .noMatch
  | some (text, s) =>
    match ch ':' s with
    | none => .thrown members "no colon in pair".toList
    | some s =>
      match value s with
      | .noMatch => .thrown members "not a value".toList
      -- A member that was there before is replaced.
      | .hit v rest => .hit (Json.assign members (getStr text) v) rest
      | .thrown v reason => .thrown (Json.assign members (getStr text) v) reason

/-- The end of an object. -/
def endObject (members : List (Str × Json)) (s : Str) : Reply Json :=
  match ch '\x7d' s with
  | some rest => .hit (.obj members) rest
  | none => .thrown (.obj members) "not an object".toList

/-- The pairs behind the first one, in at most `rounds` rounds. -/
def morePairs : Nat → List (Str × Json) → Str → Reply Json
  | 0, members, s => endObject members s
  | rounds + 1, members, s =>
    match ch ',' s with
    | none => endObject members s
    | some rest =>
      match pair_ value members rest with
      -- The comma is given back when no pair follows it.
      | .noMatch => endObject members s
      | .hit members rest => morePairs rounds members rest
      | .thrown members reason => .thrown (.obj members) reason

/-- The rule `object_`, behind its brace. -/
def object_ (s : Str) : Reply Json :=
  match pair_ value [] s with
  | .noMatch => endObject [] s
  | .hit members rest => morePairs value rest.length members rest
  | .thrown members reason => .thrown (.obj members) reason

/-- The end of an array. -/
def endArray (values : List Json) (s : Str) : Reply Json :=
  match ch ']' s with
  | some rest => .hit (.arr values) rest
  | none => .thrown (.arr values) "not an array".toList

/-- The values behind the first one, in at most `rounds` rounds. -/
def moreValues : Nat → List Json → Str → Reply Json
  | 0, values, s => endArray values s
  | rounds + 1, values, s =>
    match ch ',' s with
    | none => endArray values s
    | some rest =>
      match value rest with
      | .noMatch => endArray values s
      | .hit v rest => moreValues rounds (values ++ [v]) rest
      | .thrown v reason => .thrown (.arr (values ++ [v])) reason

/-- The rule `array_`, behind its bracket. -/
def array_ (s : Str) : Reply Json :=
  match value s with
  | .noMatch => endArray [] s
  | .hit v rest => moreValues value rest.length [v] rest
  | .thrown v reason => .thrown (.arr [v]) reason

/-- The alternatives of `value_` that are one word. -/
def literal (s : Str) : Reply Json :=
  match word "true".toList s with
  | some rest => .hit (.bool true) rest
  | none =>
    match word "false".toList s with
    | some rest => .hit (.bool false) rest
    | none =>
      match word "null".toList s with
      | some rest => .hit .null rest
      | none => .noMatch

end Grammar

/-- The rule `value_`, for at most `depth` values inside each other. -/
def value_ (env : JsonLocale) : Nat → Str → Reply Json
  | 0, _ => .noMatch
  | depth + 1, s =>
    match string_ s with
    | some (text, rest) => .hit (.str (getStr text)) rest
    | none =>
      match number_ env s with
      | some (v, rest) => .hit v rest
      | none =>
        match ch '\x7b' s with
        | some rest => object_ (value_ env depth) rest
        | none =>
          match ch '[' s with
          | some rest => array_ (value_ env depth) rest
          | none => literal s

/-- `read_string`: whether it succeeded, and what is left in the value, which was null. No
    text has more values inside each other than characters. -/
def readString (env : JsonLocale) (s : Str) : Bool × Json :=
  match value_ env (s.length + 1) s with
  | .noMatch => (false, .null)
  | .hit v _ => (true, v)
  | .thrown v _ => (false, v)

/-- What key files are read and written with. -/
def ofLocale (env : JsonLocale) : JsonSpirit where
  read_string s := (readString env s).2
  write_string value := writeString env value false

end JsonSpirit

end ConfluxSdk
