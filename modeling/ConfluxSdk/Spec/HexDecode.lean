import ConfluxSdk.Native.RpcReplies
import ConfluxSdk.Spec.AddressBytes

/-!
# Decoding hexadecimal texts

`Decode` writes the bytes it has read before it meets a bad character and tells of it only
by its count, which no caller looks at. What is decoded is compared with the text as a
whole: bytes are read back from the texts they are written to, and a text is either
written back in lower case or cut off.

## Key results

- `decode_eq`, `decode_count_iff`: the two results of `Decode`
- `encodeToString_decodeString_iff`: the texts that are written back
- `decode_allOrNothing_iff`: the texts that are decoded as a whole or not at all
-/

namespace ConfluxSdk

namespace Hex

/-- A text of bytes of two digits each. -/
def WholeBytes (s : Str) : Prop := s.length % 2 = 0 ∧ ∀ c ∈ s, (fromHexChar c).isSome

/-- A text with the two digits of a byte in front. -/
def StartsWithByte : Str → Prop
  | c :: d :: _ => (fromHexChar c).isSome ∧ (fromHexChar d).isSome
  | _ => False

instance (s : Str) : Decidable (WholeBytes s) :=
  @instDecidableAnd _ _ _ (List.decidableBAll _ s)

instance : (s : Str) → Decidable (StartsWithByte s)
  | c :: d :: _ => inferInstanceAs (Decidable ((fromHexChar c).isSome ∧ (fromHexChar d).isSome))
  | [_] => instDecidableFalse
  | [] => instDecidableFalse

/-- The bytes are none, or they stand for the whole text. -/
def AllOrNothing (s : Str) (bytes : List UInt8) : Prop :=
  bytes = [] ∨ encodeToString bytes = tolower_string s

/-! ### The case of the digits -/

/-- The characters of a range, by their codes. -/
private theorem exists_ofNat {c : Char} (lo hi : Nat) (h : lo ≤ c.toNat ∧ c.toNat ≤ hi) :
    ∃ n, lo ≤ n ∧ n ≤ hi ∧ c = Char.ofNat n :=
  ⟨c.toNat, h.1, h.2, (Char.ofNat_toNat c).symm⟩

theorem fromHexChar_toLower (c : Char) : fromHexChar c.toLower = fromHexChar c := by
  by_cases hupper : c.isUpper
  · have hrange : 65 ≤ c.toNat ∧ c.toNat ≤ 90 := by
      simpa [Char.isUpper, UInt32.le_iff_toNat_le] using hupper
    obtain ⟨n, hlo, hhi, rfl⟩ := exists_ofNat 65 90 hrange
    interval_cases n <;> decide
  · rw [Char.toLower_eq_of_not_isUpper hupper]

/-- A character is a digit if it is one of the sixteen in lower case. -/
theorem isSome_fromHexChar_iff {c : Char} :
    (fromHexChar c).isSome ↔ c.toLower ∈ Regex.hexDigits := by
  rw [← fromHexChar_toLower]
  have hlower : c.toLower.isUpper = false := Char.isUpper_toLower_eq_false c
  -- The ranges of the source are run through, without the capital letters.
  generalize c.toLower = d at hlower
  constructor
  · intro h
    unfold fromHexChar at h
    split at h
    · rename_i hdigit
      obtain ⟨n, hlo, hhi, rfl⟩ := exists_ofNat 48 57 hdigit
      interval_cases n <;> decide
    split at h
    · rename_i hletter
      obtain ⟨n, hlo, hhi, rfl⟩ := exists_ofNat 97 102 hletter
      interval_cases n <;> decide
    split at h
    · rename_i hletter
      obtain ⟨n, hlo, hhi, rfl⟩ := exists_ofNat 65 70 hletter
      interval_cases n <;> exact absurd hlower (by decide)
    · cases h
  · intro h
    have hall : Regex.hexDigits.all (fun c => (fromHexChar c).isSome) = true := by decide
    exact List.all_eq_true.mp hall d h

theorem decodeString_tolower (s : Str) : decodeString (tolower_string s) = decodeString s := by
  induction s using decodeString.induct with
  | case1 c d src a b hc hd ih =>
    show decodeString (c.toLower :: d.toLower :: tolower_string src) = _
    rw [decodeString, decodeString, fromHexChar_toLower, fromHexChar_toLower, hc, hd, ih]
  | case2 c d src h =>
    show decodeString (c.toLower :: d.toLower :: tolower_string src) = _
    -- A bad digit is bad in both cases.
    rw [decodeString, decodeString, fromHexChar_toLower, fromHexChar_toLower]
    cases hc : fromHexChar c <;> cases hd : fromHexChar d <;> try rfl
    exact absurd hd (h _ _ hc)
  | case3 src h =>
    rcases src with _ | ⟨c, _ | ⟨d, src⟩⟩
    · rfl
    · rfl
    · exact absurd rfl (h c d src)

/-! ### What is decoded -/

/-- Nothing is decoded unless a byte is in front. -/
theorem decodeString_eq_nil_iff (s : Str) : decodeString s = [] ↔ ¬ StartsWithByte s := by
  rcases s with _ | ⟨c, _ | ⟨d, src⟩⟩
  · simp [decodeString, StartsWithByte]
  · simp [decodeString, StartsWithByte]
  · rw [decodeString, StartsWithByte]
    cases fromHexChar c <;> cases fromHexChar d <;> simp

/-- The bytes have two digits each. -/
theorem length_decodeString_le (s : Str) : 2 * (decodeString s).length ≤ s.length := by
  induction s using decodeString.induct with
  | case1 c d src a b hc hd ih =>
    rw [decodeString, hc, hd]
    simp only [List.length_cons]
    omega
  | case2 c d src h =>
    rw [decodeString]
    split
    · rename_i a b hc hd
      exact absurd hd (h a b hc)
    · simp
  | case3 src h =>
    rw [decodeString]
    · simp
    · exact h

/-- The whole bytes are those that are written back, in lower case. -/
theorem encodeToString_decodeString_iff (s : Str) :
    encodeToString (decodeString s) = tolower_string s ↔ WholeBytes s := by
  have hlower : (∀ c ∈ s, (fromHexChar c).isSome) ↔ ∀ c ∈ tolower_string s, c ∈ Regex.hexDigits := by
    simp only [tolower_string, List.forall_mem_map, isSome_fromHexChar_iff]
  have hcount : (tolower_string s).length = s.length := List.length_map _
  rw [WholeBytes, hlower, ← decodeString_tolower]
  constructor
  · intro h
    -- What is written has two digits for each byte, so the text has.
    obtain ⟨hlen, hmem⟩ := encodeToString_digits (decodeString (tolower_string s))
    rw [h] at hlen hmem
    exact ⟨by omega, hmem⟩
  · rintro ⟨heven, hmem⟩
    have hlen : (tolower_string s).length = 2 * (s.length / 2) := by omega
    exact (encodeToString_decodeString hlen hmem).1

/-- As many bytes as there are pairs of characters. -/
theorem length_decodeString_eq_iff (s : Str) :
    2 * (decodeString s).length = s.length ↔ WholeBytes s := by
  induction s using decodeString.induct with
  | case1 c d src a b hc hd ih =>
    have hlen : 2 * ((decodeString src).length + 1) = src.length + 1 + 1 ↔
        2 * (decodeString src).length = src.length := by omega
    have hmod : (src.length + 1 + 1) % 2 = src.length % 2 := by omega
    rw [decodeString, hc, hd, WholeBytes]
    simp only [List.length_cons, List.forall_mem_cons, hc, hd, Option.isSome_some, true_and]
    rw [hlen, ih, hmod, WholeBytes]
  | case2 c d src h =>
    -- A bad first pair: nothing is decoded, and the text is not whole.
    have hnil : decodeString (c :: d :: src) = [] := by
      rw [decodeString_eq_nil_iff, StartsWithByte]
      rintro ⟨hc, hd⟩
      obtain ⟨a, hc⟩ := Option.isSome_iff_exists.mp hc
      obtain ⟨b, hd⟩ := Option.isSome_iff_exists.mp hd
      exact h a b hc hd
    rw [hnil]
    constructor
    · intro hlen
      cases hlen
    · intro hwhole
      obtain ⟨a, hc⟩ := Option.isSome_iff_exists.mp (hwhole.2 c (by simp))
      obtain ⟨b, hd⟩ := Option.isSome_iff_exists.mp (hwhole.2 d (by simp))
      exact absurd hd (h a b hc)
  | case3 src h =>
    rcases src with _ | ⟨c, _ | ⟨d, src⟩⟩
    · simp [decodeString, WholeBytes]
    · simp [decodeString, WholeBytes]
    · exact absurd rfl (h c d src)

/-! ### Decode -/

/-- The loop appends what `DecodeString` returns, and counts it unless the text is odd and
    read to its end. -/
theorem decodeLoop_eq (odd : Bool) (dst : List UInt8) (i : Nat) (s : Str) :
    (decodeLoop odd dst i s).1 = dst ++ decodeString s ∧
      ((decodeLoop odd dst i s).2 = i + (decodeString s).length ∨
        odd = true ∧ (decodeLoop odd dst i s).2 = 0) := by
  induction s using decodeString.induct generalizing dst i with
  | case1 c d src a b hc hd ih =>
    rw [decodeLoop, decodeString, hc, hd]
    obtain ⟨hdst, hcount⟩ := ih (dst ++ [a <<< 4 ||| b]) (i + 1)
    -- The loop goes on behind the byte, with one more counted.
    refine ⟨by simp [hdst], ?_⟩
    simp only [List.length_cons]
    rcases hcount with hcount | hcount
    · exact .inl (by omega)
    · exact .inr hcount
  | case2 c d src h =>
    rw [decodeLoop, decodeString]
    -- A bad first or second digit ends the loop with what was counted.
    cases hc : fromHexChar c with
    | none => simp
    | some a =>
      cases hd : fromHexChar d with
      | none => simp
      | some b => exact absurd hd (h a b hc)
  | case3 src h =>
    rcases src with _ | ⟨c, _ | ⟨d, src⟩⟩
    · -- At the end an odd text has its count taken back.
      cases odd <;> simp [decodeLoop, decodeString]
    · cases odd <;> simp [decodeLoop, decodeString]
    · exact absurd rfl (h c d src)

/-- `DecodeString` is `Decode` without its count. -/
theorem decode_eq (dst : List UInt8) (s : Str) : (decode dst s).1 = dst ++ decodeString s :=
  (decodeLoop_eq _ dst 0 s).1

/-- The count, which the callers drop, tells whether the text is whole. -/
theorem decode_count_iff (dst : List UInt8) (s : Str) :
    2 * (decode dst s).2 = s.length ↔ WholeBytes s := by
  rw [← length_decodeString_eq_iff]
  have hle := length_decodeString_le s
  obtain ⟨-, hcount | ⟨hodd, hcount⟩⟩ := decodeLoop_eq (s.length % 2 == 1) dst 0 s
  · rw [decode, hcount, Nat.zero_add]
  · have hmod : s.length % 2 = 1 := by simpa using hodd
    rw [decode, hcount]
    omega

/-! ### All or nothing -/

theorem allOrNothing_iff (s : Str) :
    AllOrNothing s (decodeString s) ↔ WholeBytes s ∨ ¬ StartsWithByte s := by
  rw [AllOrNothing, decodeString_eq_nil_iff, encodeToString_decodeString_iff, or_comm]

/-- Bytes are read back from their text. A text is decoded as a whole or not at all exactly
    when it is whole or does not start with a byte, and so are the texts behind the prefix
    of a reply and of a member. -/
theorem decode_allOrNothing_iff (b : List UInt8) (s reply : Str) :
    decodeString (encodeToString b) = b ∧
      (AllOrNothing s (decodeString s) ↔ WholeBytes s ∨ ¬ StartsWithByte s) ∧
      (AllOrNothing (reply.drop 2) (replyBytes reply) ↔
        WholeBytes (reply.drop 2) ∨ ¬ StartsWithByte (reply.drop 2)) ∧
      ∀ js mem v, jsStringValue js mem = some reply → 2 < reply.length →
        (AllOrNothing (reply.drop 2) (jsMem2Bytes js mem v).2 ↔
          WholeBytes (reply.drop 2) ∨ ¬ StartsWithByte (reply.drop 2)) := by
  have hreply : replyBytes reply = decodeString (reply.drop 2) := by
    rw [replyBytes]
    split
    · rfl
    · -- Nothing is behind the prefix.
      have hshort : reply.drop 2 = [] := List.drop_eq_nil_of_le (by omega)
      rw [hshort, decodeString]
      simp
  refine ⟨decodeString_encodeToString b, allOrNothing_iff s, ?_, ?_⟩
  · rw [hreply, allOrNothing_iff]
  · intro js mem v hmem hlong
    have hbytes : (jsMem2Bytes js mem v).2 = decodeString (reply.drop 2) := by
      simp only [jsMem2Bytes, hmem, if_pos hlong]
    rw [hbytes, allOrNothing_iff]

/-- A reply of two bytes, and a member that is no hexadecimal text from its first digit on. -/
theorem decode_allOrNothing_code :
    AllOrNothing "6080".toList (replyBytes "0x6080".toList) ∧
      AllOrNothing "x6080".toList
        (jsMem2Bytes [("data".toList, .stringValue "0xx6080".toList)] "data".toList []).2 := by
  obtain ⟨-, -, hreply, -⟩ := decode_allOrNothing_iff [] [] "0x6080".toList
  obtain ⟨-, -, -, hmember⟩ := decode_allOrNothing_iff [] [] "0xx6080".toList
  have hwhole : WholeBytes "6080".toList := by decide
  have hbad : ¬ StartsWithByte "x6080".toList := by decide
  have hlong : 2 < "0xx6080".toList.length := by decide
  have hvalue : jsStringValue [("data".toList, .stringValue "0xx6080".toList)] "data".toList =
      some "0xx6080".toList := rfl
  exact ⟨hreply.mpr (.inl hwhole), (hmember _ _ [] hvalue hlong).mpr (.inr hbad)⟩

/-- Code of a contract is cut off at a bad character, and at the last of an odd number. -/
theorem decode_truncates :
    replyBytes "0x6080zz".toList = [0x60, 0x80] ∧ decodeString "60804".toList = [0x60, 0x80] ∧
      ¬ ∀ s, AllOrNothing s (decodeString s) := by
  refine ⟨by decide, by decide, fun hall => ?_⟩
  have hodd := (allOrNothing_iff "60804".toList).mp (hall _)
  exact absurd hodd (by decide)

end Hex

end ConfluxSdk
