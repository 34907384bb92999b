import Mathlib

/-!
# Strings and byte vectors of the C++ standard library

The SDK is written over `std::string` and `std::vector<uint8_t>`. A string is
the list of its characters (only ASCII characters are ever accepted by the
parsers below, so a `Char` stands for one `char`), a vector is a list of bytes.

Where the code does arithmetic on the size of a vector it received from
outside, the vector is a `Bytes`: its length fits the iterator difference type,
so `size_t` sums of two such lengths do not wrap, while a sum with a length
read from the data still may (`sizeT`).
-/

namespace ConfluxSdk

/-- `std::string`. -/
abbrev Str := List Char

/-- A `std::vector<uint8_t>` handed in by a caller; its size is bounded by
    `max_size`, the largest iterator difference. -/
structure Bytes where
  toList : List UInt8
  size_lt : toList.length < 2 ^ 63

/-- `std::vector::size`. -/
def Bytes.size (b : Bytes) : Nat := b.toList.length

/-- The value a computation has after it is stored in a 64-bit `size_t`. -/
def sizeT (n : Nat) : Nat := n % 2 ^ 64

theorem sizeT_of_lt {n : Nat} (h : n < 2 ^ 64) : sizeT n = n := Nat.mod_eq_of_lt h

/-- A value that the conversion changes is out of range. -/
theorem ne_sizeT_iff {n : Nat} : n ≠ sizeT n ↔ 2 ^ 64 ≤ n := by
  rw [sizeT]
  omega

/-- Subtraction of two `size_t`. -/
def sizeSub (a b : Nat) : Nat := sizeT (a + 2 ^ 64 - b)

theorem sizeSub_of_le {a b : Nat} (hba : b ≤ a) (ha : a < 2 ^ 64) : sizeSub a b = a - b := by
  simp only [sizeSub, sizeT]
  omega

/-- Exceptions thrown by the standard library functions the SDK calls. -/
inductive StdError where
  | invalidArgument
  | outOfRange
  | lengthError
  deriving DecidableEq, Repr

/-! ### Numbers and text -/

/-- `std::to_string` of an unsigned number: its decimal digits. -/
def to_string (n : Nat) : Str := Nat.toDigits 10 n

/-- `isspace` of the C locale. -/
def isSpace (c : Char) : Bool :=
  c == ' ' || c == '\t' || c == '\n' || c == '\x0b' || c == '\x0c' || c == '\r'

/-- The sign `strtol` accepts in front of the digits, and the text after it. -/
def splitSign : Str → Bool × Str
  | '-' :: s => (true, s)
  | '+' :: s => (false, s)
  | s => (false, s)

/-- `std::stoi(s, nullptr, 10)`: leading white space and a sign are skipped, the
    longest run of digits is read and whatever follows it is ignored. -/
def stoi (s : Str) : Except StdError Int :=
  let (negative, rest) := splitSign (s.dropWhile isSpace)
  let digits := rest.takeWhile Char.isDigit
  if digits = [] then .error .invalidArgument
  else
    let magnitude : Int := Nat.ofDigitChars 10 digits 0
    let v := if negative then -magnitude else magnitude
    if v < -2 ^ 31 ∨ 2 ^ 31 ≤ v then .error .outOfRange else .ok v

/-- The value of a character as a digit; 36, which is above every base, if it is none. -/
def digitValue (c : Char) : Nat :=
  if '0' ≤ c ∧ c ≤ '9' then c.toNat - '0'.toNat
  else if 'a' ≤ c ∧ c ≤ 'z' then c.toNat - 'a'.toNat + 10
  else if 'A' ≤ c ∧ c ≤ 'Z' then c.toNat - 'A'.toNat + 10
  else 36

/-- The number that digits spell. -/
def digitsValue (base : Nat) (digits : Str) : Nat :=
  digits.foldl (fun n c => n * base + digitValue c) 0

/-- The base that `strtol` takes from the front of the digits when it is given the base
    zero, and the text from the digits on. A prefix without a digit behind it is none. -/
def splitBase : Str → Nat × Str
  | '0' :: x :: c :: s =>
    if (x = 'x' ∨ x = 'X') ∧ digitValue c < 16 then (16, c :: s) else (8, '0' :: x :: c :: s)
  | '0' :: s => (8, '0' :: s)
  | s => (10, s)

/-- `std::stoi(s, nullptr, 0)`. -/
def stoiAnyBase (s : Str) : Except StdError Int :=
  let (negative, rest) := splitSign (s.dropWhile isSpace)
  let (base, rest) := splitBase rest
  let digits := rest.takeWhile fun c => digitValue c < base
  if digits = [] then .error .invalidArgument
  else
    let magnitude : Int := digitsValue base digits
    let v := if negative then -magnitude else magnitude
    if v < -2 ^ 31 ∨ 2 ^ 31 ≤ v then .error .outOfRange else .ok v

private theorem splitSign_of_isDigit {c : Char} {s : Str} (hc : c.isDigit) :
    splitSign (c :: s) = (false, c :: s) := by
  unfold splitSign
  split
  · rename_i h
    rw [(List.cons.inj h).1] at hc
    exact absurd hc (by decide)
  · rename_i h
    rw [(List.cons.inj h).1] at hc
    exact absurd hc (by decide)
  · rfl

private theorem isSpace_of_isDigit {c : Char} (hc : c.isDigit) : isSpace c = false := by
  by_contra h
  simp only [isSpace, Bool.not_eq_false, Bool.or_eq_true, beq_iff_eq] at h
  rcases h with ((((rfl | rfl) | rfl) | rfl) | rfl) | rfl <;> exact absurd hc (by decide)

/-- A digit string followed by something that is no digit reads as the number
    it spells, as long as that fits an `int`. -/
theorem stoi_digits {ds rest : Str} (hds : ∀ c ∈ ds, c.isDigit) (hne : ds ≠ [])
    (hrest : ∀ c ∈ rest.head?, ¬ c.isDigit) :
    stoi (ds ++ rest) =
      if 2 ^ 31 ≤ Nat.ofDigitChars 10 ds 0 then .error .outOfRange
      else .ok (Nat.ofDigitChars 10 ds 0) := by
  obtain ⟨c, ds', rfl⟩ := List.exists_cons_of_ne_nil hne
  have hc : c.isDigit := hds c List.mem_cons_self
  -- Neither white space nor a sign is skipped, and the digits stop where `rest` starts.
  have hdrop : (c :: ds' ++ rest).dropWhile isSpace = c :: ds' ++ rest := by
    rw [List.cons_append, List.dropWhile_cons_of_neg (by simp [isSpace_of_isDigit hc])]
  have htake : (c :: ds' ++ rest).takeWhile Char.isDigit = c :: ds' := by
    rw [List.takeWhile_append_of_pos hds]
    cases rest with
    | nil => simp
    | cons r rest =>
      have hr : ¬ r.isDigit := hrest r (by simp)
      rw [List.takeWhile_cons_of_neg hr, List.append_nil]
  rw [stoi, hdrop, List.cons_append, splitSign_of_isDigit hc]
  simp only
  rw [← List.cons_append, htake, if_neg hne, if_neg (by decide : ¬ (false = true))]
  have hnn : ¬ ((Nat.ofDigitChars 10 (c :: ds') 0 : Int) < -2 ^ 31) := by omega
  by_cases hbig : 2 ^ 31 ≤ Nat.ofDigitChars 10 (c :: ds') 0
  · rw [if_pos hbig, if_pos (Or.inr (by exact_mod_cast hbig))]
  · rw [if_neg hbig, if_neg (not_or.mpr ⟨hnn, by exact_mod_cast hbig⟩)]

theorem isDigit_of_mem_to_string {n : Nat} {c : Char} (hc : c ∈ to_string n) : c.isDigit :=
  Nat.isDigit_of_mem_toDigits (by omega) (by omega) hc

@[simp] theorem to_string_ne_nil (n : Nat) : to_string n ≠ [] := Nat.toDigits_ne_nil

/-- Decimal text followed by something that is no digit reads back. -/
theorem stoi_to_string_append {n : Nat} (hn : n < 2 ^ 31) {rest : Str}
    (hrest : ∀ c ∈ rest.head?, ¬ c.isDigit) : stoi (to_string n ++ rest) = .ok n := by
  rw [stoi_digits (fun c hc => isDigit_of_mem_to_string hc) (to_string_ne_nil n) hrest]
  have hval : Nat.ofDigitChars 10 (to_string n) 0 = n := Nat.ofDigitChars_ten_toDigits
  rw [hval, if_neg (by omega)]

theorem stoi_to_string {n : Nat} (hn : n < 2 ^ 31) : stoi (to_string n) = .ok n := by
  have h : stoi (to_string n ++ []) = .ok n := stoi_to_string_append hn (by simp)
  rwa [List.append_nil] at h

/-- A minus sign in front of decimal text. -/
theorem stoi_neg_to_string {n : Nat} (hn : n ≤ 2 ^ 31) : stoi ('-' :: to_string n) = .ok (-n) := by
  have htake : (to_string n).takeWhile Char.isDigit = to_string n :=
    List.takeWhile_eq_self_iff.mpr fun c hc => isDigit_of_mem_to_string hc
  have hval : Nat.ofDigitChars 10 (to_string n) 0 = n := Nat.ofDigitChars_ten_toDigits
  have hdrop : ('-' :: to_string n).dropWhile isSpace = '-' :: to_string n :=
    List.dropWhile_cons_of_neg (by decide)
  rw [stoi, hdrop]
  simp only [splitSign, htake, hval]
  rw [if_neg (to_string_ne_nil n), if_pos trivial, if_neg (by omega)]

end ConfluxSdk
