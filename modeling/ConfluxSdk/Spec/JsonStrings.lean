import ConfluxSdk.ForStd.Delimited
import ConfluxSdk.ForStd.Except
import ConfluxSdk.Native.NlohmannJson

/-!
# Dumped JSON strings

`dump_escaped` decodes a string as UTF-8 to find the characters it has to escape. It throws
exactly when the string is not UTF-8; otherwise what it writes can be computed byte by byte,
because only one-byte code points are escaped. What it writes is a prefix code, which no
quote can start, so a quoted string ends at its closing quote.

## Key results

- `dumpEscaped_returns`: the text of a UTF-8 string; other strings throw
- `escapeCode`: bytes escaped one by one are a code
-/

namespace ConfluxSdk.Nlohmann

open Abi (Data bytesOfStr)

/-- The decoder ends between two code points. -/
def Utf8 (s : Data) : Prop := s.foldl nextState utf8Accept = utf8Accept

instance (s : Data) : Decidable (Utf8 s) := inferInstanceAs (Decidable (_ = _))

/-- What a byte becomes in a dumped string. -/
def escapeByte (b : UInt8) : Data := escape b.toNat b

/-! ### The decoder -/

/-- The least code point so far with which an unfinished state is reached. -/
def codepointFloor (state : Nat) : Nat :=
  if state = 2 then 2 else if state = 4 ∨ state = 6 then 0 else 1

/-- The decoder stands between two code points or in one that is not ASCII. -/
def Within (state codep : Nat) : Prop :=
  state = utf8Accept ∨ 2 ≤ state ∧ state ≤ 8 ∧ codepointFloor state ≤ codep

theorem within_accept (codep : Nat) : Within utf8Accept codep := .inl rfl

/-- What the type of a later byte says of its six bits. -/
private def lowBits (type : Nat) : Nat := if type = 9 then 0x10 else if type = 7 then 0x20 else 0

/-- The types of the bytes; only ASCII has type 0. -/
private theorem byte_type : ∀ n < 256, utf8d.getD n 0 < 12 ∧
    (utf8d.getD n 0 = 0 ↔ n < 0x80) ∧ lowBits (utf8d.getD n 0) ≤ n &&& 0x3f := by
  decide +kernel

/-- An unfinished state that is reached with a code point. -/
private def Unfinished (state codep : Nat) : Prop :=
  2 ≤ state ∧ state ≤ 8 ∧ codepointFloor state ≤ codep

private instance (state codep : Nat) : Decidable (Unfinished state codep) :=
  inferInstanceAs (Decidable (_ ∧ _))

/-- The first byte of a code point that is not ASCII is invalid or leaves it unfinished. -/
private theorem start_state : ∀ n < 256, 0x80 ≤ n →
    utf8d.getD (256 + utf8d.getD n 0) 1 = 1 ∨
      Unfinished (utf8d.getD (256 + utf8d.getD n 0) 1) ((0xFF >>> utf8d.getD n 0) &&& n) := by
  decide +kernel

/-- A byte of a type, met in an unfinished state, is invalid, ends the code point, or leaves it
    unfinished. -/
private def Later (state type : Nat) : Prop :=
  let next := utf8d.getD (256 + state * 16 + type) 1
  next = 1 ∨ type ≠ 0 ∧ next = 0 ∧ codepointFloor state = 2 ∨
    type ≠ 0 ∧ Unfinished next (max (64 * codepointFloor state) (lowBits type))

private instance (state type : Nat) : Decidable (Later state type) :=
  inferInstanceAs (Decidable (_ ∨ _))

private theorem later_state : ∀ state < 9, 2 ≤ state → ∀ type < 12, Later state type := by
  decide

/-- From U+0080 on, code points are copied. -/
theorem escape_of_ge {codepoint : Nat} {b : UInt8} (h : 0x80 ≤ codepoint) :
    escape codepoint b = [b] := by
  simp only [escape]
  repeat rw [if_neg (by omega)]

/-- A later byte of a code point adds its bits to those read before it. -/
theorem nextCodepoint_ge {state codep : Nat} (hstate : state ≠ utf8Accept)
    (hfloor : codepointFloor state ≤ codep) (b : UInt8) :
    max (64 * codepointFloor state) (b.toNat &&& 0x3f) ≤ nextCodepoint state codep b := by
  have hmask : (0x3f : UInt8).toNat = 0x3f := rfl
  rw [nextCodepoint, if_pos hstate, Nat.shiftLeft_eq, UInt8.toNat_and, hmask]
  have hown : b.toNat &&& 0x3f ≤ (b.toNat &&& 0x3f) ||| codep * 2 ^ 6 := Nat.left_le_or
  have hup : codep * 2 ^ 6 ≤ (b.toNat &&& 0x3f) ||| codep * 2 ^ 6 := Nat.right_le_or
  exact max_le (by omega) hown

/-- ASCII is one byte a code point. -/
theorem decode_ascii {b : UInt8} (h : b.toNat < 0x80) (codep : Nat) :
    nextState utf8Accept b = utf8Accept ∧ nextCodepoint utf8Accept codep b = b.toNat := by
  have htype : utf8Type b = 0 := (byte_type b.toNat b.toNat_lt).2.1.mpr h
  constructor
  · rw [nextState, htype]
    rfl
  · have hmask : 0xFF &&& b.toNat = b.toNat := by
      rw [Nat.and_comm, Nat.and_two_pow_sub_one_eq_mod b.toNat 8]
      exact Nat.mod_eq_of_lt b.toNat_lt
    rw [nextCodepoint, if_neg (not_not.mpr rfl), htype]
    exact hmask

/-- What one byte does to the decoder: it is rejected, ends a code point that is escaped as if
    it were the byte, or belongs to a longer one. -/
theorem decode_cases {state codep : Nat} (h : Within state codep) (b : UInt8) :
    nextState state b = utf8Reject ∨
    nextState state b = utf8Accept ∧ escape (nextCodepoint state codep b) b = escapeByte b ∨
    nextState state b ≠ utf8Accept ∧ nextState state b ≠ utf8Reject ∧
      Within (nextState state b) (nextCodepoint state codep b) ∧ escapeByte b = [b] := by
  obtain ⟨htype, hascii, hbits⟩ := byte_type b.toNat b.toNat_lt
  have hunfinished : ∀ {next codep : Nat}, Unfinished next codep →
      next ≠ utf8Accept ∧ next ≠ utf8Reject ∧ Within next codep := by
    intro next codep hnext
    refine ⟨?_, Nat.ne_of_gt hnext.1, .inr hnext⟩
    exact Nat.ne_of_gt (Nat.lt_of_lt_of_le (by decide) hnext.1)
  rcases h with rfl | ⟨hlow, hhigh, hfloor⟩
  · -- At the start of a code point: a byte of ASCII, or the first of several.
    by_cases hlt : b.toNat < 0x80
    · obtain ⟨hacc, hcodep⟩ := decode_ascii hlt codep
      exact .inr (.inl ⟨hacc, by rw [hcodep]; rfl⟩)
    · have hcodep : nextCodepoint utf8Accept codep b = (0xFF >>> utf8Type b) &&& b.toNat := by
        rw [nextCodepoint, if_neg (not_not.mpr rfl)]
      rw [hcodep]
      rcases start_state b.toNat b.toNat_lt (by omega) with hrej | hmid
      · exact .inl hrej
      · obtain ⟨hacc, hrej, hwithin⟩ := hunfinished hmid
        exact .inr (.inr ⟨hacc, hrej, hwithin, escape_of_ge (by omega)⟩)
  · -- Within a code point: its last byte, or one with others to follow.
    have hstate : state ≠ utf8Accept := Nat.ne_of_gt (Nat.lt_of_lt_of_le (by decide) hlow)
    have hcodep := nextCodepoint_ge hstate hfloor b
    rcases later_state state (by omega) hlow _ htype with hrej | ⟨hne, hacc, hlast⟩ | ⟨hne, hmid⟩
    · exact .inl hrej
    · have hge : 0x80 ≤ b.toNat := by omega
      refine .inr (.inl ⟨hacc, ?_⟩)
      rw [escape_of_ge (by omega), escapeByte, escape_of_ge hge]
    · have hge : 0x80 ≤ b.toNat := by omega
      have hmid' : Unfinished (nextState state b) (nextCodepoint state codep b) :=
        ⟨hmid.1, hmid.2.1, hmid.2.2.trans ((max_le_max_left _ hbits).trans hcodep)⟩
      obtain ⟨hacc, hrej, hwithin⟩ := hunfinished hmid'
      exact .inr (.inr ⟨hacc, hrej, hwithin, escape_of_ge hge⟩)

/-- The decoder does not recover. -/
theorem foldl_nextState_reject (s : Data) : s.foldl nextState utf8Reject = utf8Reject := by
  have hstay : ∀ type < 12, utf8d.getD (256 + 1 * 16 + type) 1 = 1 := by decide
  induction s with
  | nil => rfl
  | cons b s ih =>
    have hb : nextState utf8Reject b = utf8Reject := hstay _ (byte_type b.toNat b.toNat_lt).1
    rw [List.foldl_cons, hb, ih]

/-! ### Dumping a string -/

/-- From any point of a string: what is left is escaped byte by byte, if the decoder gets
    through it. -/
theorem dumpEscapedFrom_returns (last : UInt8) (i : Nat) {state codep : Nat} {s : Data}
    (h : Within state codep) :
    (dumpEscapedFrom last i state codep s).Returns (s.foldl nextState state = utf8Accept)
      (s.flatMap escapeByte) := by
  induction s generalizing i state codep with
  | nil =>
    rw [dumpEscapedFrom, List.foldl_nil]
    split
    · next hacc => exact Except.returns_ok hacc []
    · next hacc => exact Except.returns_error hacc _ []
  | cons b s ih =>
    rw [List.foldl_cons, List.flatMap_cons]
    simp only [dumpEscapedFrom]
    rcases decode_cases h b with hrej | ⟨hacc, hesc⟩ | ⟨hacc, hrej, hmid, hesc⟩
    · -- Nothing is written once a byte is rejected.
      rw [hrej, foldl_nextState_reject, if_neg (by decide), if_pos rfl]
      exact Except.returns_error (by decide) _ _
    · rw [if_pos hacc, hacc, hesc]
      exact (ih (i + 1) (within_accept _)).bind_ok _
    · rw [if_neg hacc, if_neg hrej, hesc]
      exact (ih (i + 1) hmid).bind_ok _

/-- A string is dumped if it is UTF-8. -/
theorem dumpEscaped_returns (s : Data) :
    (dumpEscaped s).Returns (Utf8 s) (s.flatMap escapeByte) :=
  dumpEscapedFrom_returns _ _ (within_accept 0)

/-- ASCII texts are UTF-8. -/
theorem utf8_of_ascii {s : Data} (h : ∀ b ∈ s, b.toNat < 0x80) : Utf8 s := by
  rw [Utf8]
  induction s with
  | nil => rfl
  | cons b s ih =>
    rw [List.foldl_cons, (decode_ascii (h b List.mem_cons_self) 0).1]
    exact ih fun c hc => h c (List.mem_cons_of_mem _ hc)

/-! ### The code of escaped bytes -/

/-- The byte at the start of an escaped text, and what follows. -/
private def unescape : Data → Option (UInt8 × Data)
  | 92 :: 117 :: _ :: _ :: high :: low :: u =>
    some (16 * (high - 48) + (if low < 58 then low - 48 else low - 87), u)
  | 92 :: 98 :: u => some (8, u)
  | 92 :: 116 :: u => some (9, u)
  | 92 :: 110 :: u => some (10, u)
  | 92 :: 102 :: u => some (12, u)
  | 92 :: 114 :: u => some (13, u)
  | 92 :: c :: u => some (c, u)
  | b :: u => some (b, u)
  | [] => none

/-- Bytes other than controls, the quote and the backslash are copied. -/
theorem escapeByte_of_plain {b : UInt8} (h : 0x20 ≤ b.toNat) (hq : b ≠ 34) (hs : b ≠ 92) :
    escapeByte b = [b] := by
  have hq' : b.toNat ≠ 0x22 := fun heq => hq (UInt8.toNat_inj.mp heq)
  have hs' : b.toNat ≠ 0x5C := fun heq => hs (UInt8.toNat_inj.mp heq)
  simp only [escapeByte, escape]
  repeat rw [if_neg (by omega)]

private theorem unescape_control (u : Data) (n : Nat) (h : n < 0x20) :
    unescape (escapeByte (UInt8.ofNat n) ++ u) = some (UInt8.ofNat n, u) := by
  interval_cases n <;> rfl

private theorem unescape_escapeByte (b : UInt8) (u : Data) :
    unescape (escapeByte b ++ u) = some (b, u) := by
  by_cases hcontrol : b.toNat < 0x20
  · have h := unescape_control u b.toNat hcontrol
    rwa [UInt8.ofNat_toNat] at h
  by_cases hq : b = 34
  · rw [hq]
    rfl
  by_cases hs : b = 92
  · rw [hs]
    rfl
  rw [escapeByte_of_plain (by omega) hq hs, List.singleton_append]
  simp [unescape, hs]

/-- No escaped byte starts with a quote. -/
theorem head_escapeByte_ne (b : UInt8) : ∃ c t, escapeByte b = c :: t ∧ c ≠ 34 := by
  have hlow : ∀ n < 0x60, (escapeByte (UInt8.ofNat n)).head?.getD 34 ≠ 34 := by decide
  by_cases hb : b.toNat < 0x60
  · have h := hlow b.toNat hb
    rw [UInt8.ofNat_toNat] at h
    cases heq : escapeByte b with
    | nil =>
      rw [heq] at h
      exact absurd rfl h
    | cons c t =>
      rw [heq] at h
      exact ⟨c, t, rfl, h⟩
  · have hne : ∀ c : UInt8, c.toNat < 0x60 → b ≠ c := by
      rintro c hc rfl
      exact hb hc
    exact ⟨b, [], escapeByte_of_plain (by omega) (hne 34 (by decide)) (hne 92 (by decide)),
      hne 34 (by decide)⟩

/-- Bytes escaped one by one can be told apart, and from a closing quote. -/
theorem escapeCode : Delimited.Code 34 escapeByte where
  inj := by
    intro a b u v h
    have hread := congrArg unescape h
    rw [unescape_escapeByte, unescape_escapeByte] at hread
    exact Prod.ext_iff.mp (Option.some.inj hread)
  ne_quote := by
    intro a u v h
    obtain ⟨c, t, heq, hc⟩ := head_escapeByte_ne a
    rw [heq] at h
    exact hc (List.head_eq_of_cons_eq h)

end ConfluxSdk.Nlohmann
