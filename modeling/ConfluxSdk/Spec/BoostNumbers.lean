import ConfluxSdk.Native.CommonJS

/-!
# Boost numbers from texts of digits

What the documentation of `boost::multiprecision` says of the constructor of an integer from
a text of decimal digits: a zero in front announces an octal number, and a digit that the base
does not have is an exception. Anything else about texts is left open.

## Key results

- `Boost.reader_documented`: the assumptions are those of a function
-/

namespace ConfluxSdk

/-- A text of decimal digits. -/
def IsDecimalText (s : Str) : Prop := ∀ c ∈ s, c ∈ Regex.digits

instance (s : Str) : Decidable (IsDecimalText s) := List.decidableBAll _ s

/-- The documented behaviour of the constructor on texts of digits. -/
structure Boost.Documented (boost : Boost) : Prop where
  decimal : ∀ N c s, IsDecimalText (c :: s) → c ≠ '0' → digitsValue 10 (c :: s) < 256 ^ N →
    boost.number N (c :: s) = some (digitsValue 10 (c :: s))
  octal : ∀ N s, (∀ c ∈ s, digitValue c < 8) → digitsValue 8 s < 256 ^ N →
    boost.number N ('0' :: s) = some (digitsValue 8 s)
  octal_bad : ∀ N s, IsDecimalText s → ¬ (∀ c ∈ s, digitValue c < 8) →
    boost.number N ('0' :: s) = none

/-- A constructor for texts of digits. -/
def Boost.readDigits (N : Nat) : Str → Option Nat
  | '0' :: s => if s.all fun c => digitValue c < 8 then some (digitsValue 8 s % 256 ^ N) else none
  | s => if s.all Regex.digits.elem then some (digitsValue 10 s % 256 ^ N) else none

/-- The library with that constructor. -/
def Boost.reader : Boost where
  number := Boost.readDigits

theorem Boost.reader_documented : Boost.reader.Documented where
  decimal N c s hs hc hlt := by
    have hall : (c :: s).all Regex.digits.elem = true :=
      List.all_eq_true.mpr fun d hd => List.elem_iff.mpr (hs d hd)
    show Boost.readDigits N (c :: s) = _
    unfold Boost.readDigits
    split
    · rename_i h
      exact absurd (List.cons.inj h).1 hc
    · rw [if_pos hall, Nat.mod_eq_of_lt hlt]
  octal N s hs hlt := by
    have hall : (s.all fun c => decide (digitValue c < 8)) = true := by
      simpa using hs
    show Boost.readDigits N ('0' :: s) = _
    rw [Boost.readDigits, if_pos hall, Nat.mod_eq_of_lt hlt]
  octal_bad N s _ hs := by
    have hall : ¬ (s.all fun c => decide (digitValue c < 8)) = true := by
      simpa using hs
    show Boost.readDigits N ('0' :: s) = _
    rw [Boost.readDigits, if_neg hall]

end ConfluxSdk
