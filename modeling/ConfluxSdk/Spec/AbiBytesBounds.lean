import ConfluxSdk.Spec.AbiDecodePasses

/-!
# The range that decodeBytes copies

`ParamByteArray::decodeBytes` reads a length, checks it against the size of the buffer
and copies as many bytes. The check adds the length to the offset in a `size_t`. A length
near `2 ^ 64` wraps the sum to something small, so the check passes for a range that is
far outside the buffer.

## Key results

- `decodeBytes_eq`: the checks, and what is done once they have passed
- `decodeBytes_inside_iff`: the range lies in the buffer unless the sum wraps
-/

namespace ConfluxSdk.Abi

/-- The range that is copied once the checks of `decodeBytes` have passed: where it
    starts, and its length. -/
def checkedRange (encoded : Bytes) (offset : Nat) : Option (Nat × Nat) :=
  match decodeWord encoded offset with
  | none => none
  | some (len256, start) =>
    let len := sizeT len256.val
    if len256.val ≠ len ∨ encoded.size < sizeT (start + len) then none else some (start, len)

/-- `decodeBytes` fails without touching the bytes, or copies the range that was checked. -/
theorem decodeBytes_eq (encoded : Bytes) (decoded : Data) (offset : Nat) :
    match checkedRange encoded offset with
    | none => ∃ next, decodeBytes encoded decoded offset = .ok (false, decoded, next)
    | some (start, len) =>
      decodeBytes encoded decoded offset =
        if sizeT (start + len) < start then .error .lengthError
        else .ok (true, (encoded.toList.drop start).take len,
          alignFrom offset (sizeT (start + len))) := by
  unfold checkedRange decodeBytes
  cases decodeWord encoded offset with
  | none => exact ⟨offset, rfl⟩
  | some w =>
    obtain ⟨len, start⟩ := w
    dsimp only
    by_cases hfits : len.val = sizeT len.val
    · by_cases hroom : encoded.size < sizeT (start + sizeT len.val)
      · rw [if_pos (.inr hroom), if_neg (not_not.mpr hfits), if_pos hroom]
        exact ⟨start, rfl⟩
      · rw [if_neg (not_or.mpr ⟨not_not.mpr hfits, hroom⟩), if_neg (not_not.mpr hfits),
          if_neg hroom]
    · rw [if_pos (.inl hfits), if_pos hfits]
      exact ⟨start, rfl⟩

/-- If the checks pass, the range is inside the buffer, its bytes are returned and the
    offset does not go back. Otherwise `false` is returned. -/
def StaysInside (encoded : Bytes) (decoded : Data) (offset : Nat) : Prop :=
  match checkedRange encoded offset with
  | none => ∃ next, decodeBytes encoded decoded offset = .ok (false, decoded, next)
  | some (start, len) =>
    start + len ≤ encoded.size ∧
      ∃ next, decodeBytes encoded decoded offset =
        .ok (true, (encoded.toList.drop start).take len, next) ∧ offset ≤ next

/-- There is a length word, it is a `size_t`, and added to the offset behind it, it wraps. -/
def LengthWraps (encoded : Bytes) (offset : Nat) : Prop :=
  ∃ len start, decodeWord encoded offset = some (len, start) ∧ len.val < 2 ^ 64 ∧
    2 ^ 64 ≤ start + len.val

section Inside

variable {encoded : Bytes} {offset : Nat}

/-- The word in front of the bytes lies in the buffer. -/
theorem start_of_decodeWord (h : offset ≤ encoded.size) {len : UInt256} {start : Nat}
    (hword : decodeWord encoded offset = some (len, start)) :
    start = offset + 32 ∧ start ≤ encoded.size := by
  have hsize : encoded.size < 2 ^ 63 := encoded.size_lt
  unfold decodeWord at hword
  rw [encodedIntSize, sizeT_of_lt (by omega), sizeT_of_lt (by omega)] at hword
  split at hword
  · cases hword
  · rename_i hroom
    obtain ⟨-, rfl⟩ := Prod.mk.inj (Option.some.inj hword)
    rw [not_or] at hroom
    omega

/-- The checks in terms of the length word. A sum that wraps always passes. -/
theorem checkedRange_of_word (h : offset ≤ encoded.size) {len : UInt256} {start : Nat}
    (hword : decodeWord encoded offset = some (len, start)) :
    checkedRange encoded offset =
      if len.val < 2 ^ 64 ∧ (start + len.val ≤ encoded.size ∨ 2 ^ 64 ≤ start + len.val) then
        some (start, len.val)
      else none := by
  have hsize : encoded.size < 2 ^ 63 := encoded.size_lt
  obtain ⟨-, hstart⟩ := start_of_decodeWord h hword
  unfold checkedRange
  rw [hword]
  dsimp only
  by_cases hlen : len.val < 2 ^ 64
  · rw [sizeT_of_lt hlen]
    by_cases hwrap : 2 ^ 64 ≤ start + len.val
    · have hsum : sizeT (start + len.val) = start + len.val - 2 ^ 64 := by
        rw [sizeT]
        omega
      rw [hsum, if_neg (by omega), if_pos ⟨hlen, .inr hwrap⟩]
    · rw [sizeT_of_lt (by omega)]
      by_cases hroom : start + len.val ≤ encoded.size
      · rw [if_neg (by omega), if_pos ⟨hlen, .inl hroom⟩]
      · rw [if_pos (by omega), if_neg (by omega)]
  · rw [if_pos (.inl (ne_sizeT_iff.mpr (Nat.not_lt.mp hlen))), if_neg (fun hand => hlen hand.1)]

/-- A range in the buffer is copied, and the offset is rounded up behind it. -/
theorem staysInside_of_fits (h : offset ≤ encoded.size) (decoded : Data) {len : UInt256}
    {start : Nat} (hword : decodeWord encoded offset = some (len, start))
    (hfits : start + len.val ≤ encoded.size) : StaysInside encoded decoded offset := by
  have hsize : encoded.size < 2 ^ 63 := encoded.size_lt
  obtain ⟨rfl, hstart⟩ := start_of_decodeWord h hword
  have hrange := checkedRange_of_word h hword
  rw [if_pos ⟨by omega, .inl hfits⟩] at hrange
  have hcopy := decodeBytes_eq encoded decoded offset
  unfold StaysInside
  rw [hrange] at hcopy ⊢
  dsimp only at hcopy ⊢
  have hsum : sizeT (offset + 32 + len.val) = offset + (32 + len.val) := by
    rw [sizeT_of_lt (by omega), Nat.add_assoc]
  rw [hsum, if_neg (by omega), alignFrom_add (by omega)] at hcopy
  exact ⟨hfits, _, hcopy, Nat.le_add_right _ _⟩

/-- Decoding stays inside the buffer exactly if the length does not wrap the offset. -/
theorem decodeBytes_inside_iff (h : offset ≤ encoded.size) (decoded : Data) :
    StaysInside encoded decoded offset ↔ ¬ LengthWraps encoded offset := by
  have hsize : encoded.size < 2 ^ 63 := encoded.size_lt
  constructor
  · rintro hinside ⟨len, start, hword, hlen, hwrap⟩
    have hrange := checkedRange_of_word h hword
    rw [if_pos ⟨hlen, .inr hwrap⟩] at hrange
    unfold StaysInside at hinside
    rw [hrange] at hinside
    have hle : start + len.val ≤ encoded.size := hinside.1
    omega
  · intro hno
    cases hword : decodeWord encoded offset with
    | none =>
      have hrange : checkedRange encoded offset = none := by rw [checkedRange, hword]
      have hfail := decodeBytes_eq encoded decoded offset
      unfold StaysInside
      rw [hrange] at hfail ⊢
      exact hfail
    | some w =>
      obtain ⟨len, start⟩ := w
      by_cases hfits : start + len.val ≤ encoded.size
      · exact staysInside_of_fits h decoded hword hfits
      · -- Too long without a wrap, or no `size_t` at all: the checks fail.
        have hrange := checkedRange_of_word h hword
        have hrefused : ¬ (len.val < 2 ^ 64 ∧
            (start + len.val ≤ encoded.size ∨ 2 ^ 64 ≤ start + len.val)) := by
          rintro ⟨hlen, hle | hwrap⟩
          · exact hfits hle
          · exact hno ⟨len, start, hword, hlen, hwrap⟩
        rw [if_neg hrefused] at hrange
        have hfail := decodeBytes_eq encoded decoded offset
        unfold StaysInside
        rw [hrange] at hfail ⊢
        exact hfail

end Inside

/-! ### The greatest length -/

/-- A buffer with nothing but a length word. -/
def lengthOnly (len : Nat) : Bytes := ⟨BigEndian.fixed 32 len, by
  rw [BigEndian.length_fixed]
  decide⟩

/-- Three bytes are announced and none is there, so `false` is returned. -/
theorem decodeBytes_inside_three : ¬ LengthWraps (lengthOnly 3) 0 ∧
    StaysInside (lengthOnly 3) [] 0 := by
  have hno : ¬ LengthWraps (lengthOnly 3) 0 := by
    rintro ⟨len, start, hword, -, hwrap⟩
    have hread : decodeWord (lengthOnly 3) 0 = some (3, 32) := by decide
    obtain ⟨rfl, rfl⟩ := Prod.mk.inj (Option.some.inj (hread.symm.trans hword))
    exact absurd hwrap (by decide)
  exact ⟨hno, (decodeBytes_inside_iff (Nat.zero_le _) []).mpr hno⟩

/-- The greatest `size_t` is announced by a buffer of one word: the checks pass for a
    range that starts at its end, and no `false` is returned. -/
theorem decodeBytes_outside : checkedRange (lengthOnly (2 ^ 64 - 1)) 0 = some (32, 2 ^ 64 - 1) ∧
    (lengthOnly (2 ^ 64 - 1)).size = 32 ∧
    decodeBytes (lengthOnly (2 ^ 64 - 1)) [] 0 = .error .lengthError ∧
    ¬ StaysInside (lengthOnly (2 ^ 64 - 1)) [] 0 := by
  have hrange : checkedRange (lengthOnly (2 ^ 64 - 1)) 0 = some (32, 2 ^ 64 - 1) := by
    decide
  have hsize : (lengthOnly (2 ^ 64 - 1)).size = 32 := BigEndian.length_fixed 32 _
  refine ⟨hrange, hsize, by decide, ?_⟩
  intro hinside
  unfold StaysInside at hinside
  rw [hrange] at hinside
  have hle : 32 + (2 ^ 64 - 1) ≤ (lengthOnly (2 ^ 64 - 1)).size := hinside.1
  rw [hsize] at hle
  exact absurd hle (by decide)

end ConfluxSdk.Abi
