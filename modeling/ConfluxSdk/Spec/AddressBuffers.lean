import ConfluxSdk.Spec.AddressTotal

/-!
# The buffers of the text getters

Both getters print into a `char[128]`. Apart from the network name everything they
print has a bounded length; the name is copied from the input, and the pattern lets it
have any number of digits. How long a name may be depends on what the constructor
found behind it: an object whose parse failed early has no checksum to print, and a
valid one prints its own type.

## Key results

- `Address.fitsBuffers_iff`: the lengths that decide whether both texts fit
- `construct_fitsBuffers_iff`: the texts whose addresses can be printed
-/

namespace ConfluxSdk

namespace Address

/-- Both getters print their text within the buffer. -/
def FitsBuffers (a : Address) : Prop :=
  a.getBase32Address = some a.text ∧ a.getVerboseBase32Address = some a.verboseText

theorem printBuffer_eq_some_iff (text : Str) :
    printBuffer text = some text ↔ text.length + 1 ≤ 128 := by
  rw [printBuffer]
  split
  · rename_i hfit
    exact iff_of_true rfl hfit
  · rename_i hlong
    exact iff_of_false (by simp) hlong

/-- The verbose text is the longer one, by the type and a colon. -/
theorem fitsBuffers_iff (a : Address) :
    a.FitsBuffers ↔ a.networkType.net_work_type_str.length + a.addressType.string.length +
      a.body.body.length + a.checksum.length ≤ 125 := by
  have hpayload : a.payload.length = a.body.body.length + a.checksum.length := by
    rw [payload, List.length_append, Body.string, Body.length_bits5sToString,
      Body.length_bits5sToString]
  have hcolon : ":".toList.length = 1 := rfl
  have htext : a.text.length =
      a.networkType.net_work_type_str.length + 1 + a.payload.length := by
    simp only [text, List.length_append, hcolon]
  have hverbose : a.verboseText.length = a.networkType.net_work_type_str.length + 1 +
      (a.addressType.string.length + 1) + a.payload.length := by
    simp only [verboseText, List.length_append, hcolon]
  rw [FitsBuffers, getBase32Address_eq, getVerboseBase32Address_eq, printBuffer_eq_some_iff,
    printBuffer_eq_some_iff, htext, hverbose, hpayload]
  omega

end Address

/-! ### The longest name -/

namespace Base32Text

variable (t : Base32Text)

/-- How long the network name may be: no checksum is printed if the type field was
    wrong, and the type is `invalid` unless the checksum was right. -/
def maxNetLength : Nat :=
  if ¬ t.fieldMatches then 79
  else if Body.bits5sToString t.checksum ≠ t.checkText then 71
  else 83 - t.type.string.length

/-- The text passes all checks and `std::stoi` throws on its network number. -/
def Throws : Prop :=
  t.fieldMatches ∧ Body.bits5sToString t.checksum = t.checkText ∧ NetTooLarge t.net

theorem length_body : t.body.body.length = 34 := t.wellFormed_body.length_eq

theorem length_checksum : t.checksum.length = 8 :=
  length_calcChecksum _ t.wellFormed_body.inBase

/-- What the constructor makes of the text fits the buffers if the name does. -/
theorem fitsBuffers_iff_maxNetLength {s : Str} (hs : tolower_string s = t.text)
    (networkID : UInt32) :
    (∀ a, Address.construct s networkID = .ok a → a.FitsBuffers) ↔
      t.Throws ∨ t.net.length ≤ t.maxNetLength := by
  have hbody := t.length_body
  have hcheck := t.length_checksum
  rw [construct_base32 t hs, Throws, maxNetLength]
  by_cases hfield : t.fieldMatches
  · by_cases hsum : Body.bits5sToString t.checksum = t.checkText
    · -- All checks pass, so the object is the one the text stands for.
      rw [if_neg (not_not.mpr hfield), if_neg (not_not.mpr hsum), if_neg (not_not.mpr hfield),
        if_neg (not_not.mpr hsum)]
      have htype := t.type.length_string_le
      have hread := t.net_ok.toNetworkID_iff
      cases hid : NetworkType.toNetworkID ⟨t.net⟩ with
      | error e =>
        have hlarge : NetTooLarge t.net := by
          by_contra hsmall
          obtain ⟨id, hok⟩ := hread.mpr hsmall
          rw [hok] at hid
          cases hid
        apply iff_of_true
        · intro a ha
          cases ha
        · exact .inl ⟨hfield, hsum, hlarge⟩
      | ok id =>
        have hsmall : ¬ NetTooLarge t.net := hread.mp ⟨id, hid⟩
        have hfits : (t.address id).FitsBuffers ↔ t.net.length ≤ 83 - t.type.string.length := by
          rw [Address.fitsBuffers_iff]
          show t.net.length + t.type.string.length + t.body.body.length + t.checksum.length ≤ 125 ↔ _
          omega
        rw [← hfits]
        constructor
        · intro h
          exact .inr (h _ rfl)
        · intro h a ha
          rw [← Except.ok.inj ha]
          rcases h with ⟨_, _, hlarge⟩ | hfit
          · exact absurd hlarge hsmall
          · exact hfit
    · -- The object keeps name, body and the checksum it should have had.
      rw [if_neg (not_not.mpr hfield), if_pos hsum, if_neg (not_not.mpr hfield), if_pos hsum]
      have hno : ¬ (t.fieldMatches ∧ Body.bits5sToString t.checksum = t.checkText ∧
          NetTooLarge t.net) := fun h => hsum h.2.1
      rw [or_iff_right hno]
      simp only [Except.ok.injEq, forall_eq', Address.fitsBuffers_iff]
      show t.net.length + AddressType.invalid.string.length + t.body.body.length +
        t.checksum.length ≤ 125 ↔ _
      rw [hbody, hcheck]
      show t.net.length + 12 + 34 + 8 ≤ 125 ↔ _
      omega
  · -- The object keeps name and body, and has no checksum.
    rw [if_pos hfield, if_pos hfield]
    have hno : ¬ (t.fieldMatches ∧ Body.bits5sToString t.checksum = t.checkText ∧
        NetTooLarge t.net) := fun h => hfield h.1
    rw [or_iff_right hno]
    simp only [Except.ok.injEq, forall_eq', Address.fitsBuffers_iff]
    show t.net.length + AddressType.invalid.string.length + t.body.body.length +
      ([] : ByteArr).length ≤ 125 ↔ _
    rw [hbody]
    show t.net.length + 12 + 34 + 0 ≤ 125 ↔ _
    omega

end Base32Text

/-! ### All texts -/

/-- The names the SDK makes itself are short. -/
theorem Address.fitsBuffers_ofBytes {bytes : ByteArr} (h : bytes.length = 20) (id : UInt32) :
    (Address.ofBytes bytes id).FitsBuffers := by
  have ha := Address.consistent_ofBytes h id
  have hshort := NetworkType.length_ofID_le id
  constructor
  · apply Address.printBuffer_text ha
    exact Nat.le_trans hshort (by decide)
  · apply Address.printBuffer_verboseText ha
    exact Nat.le_trans hshort (by decide)

theorem Address.fitsBuffers_init (id : UInt32) : (Address.init id).FitsBuffers := by
  have hshort := NetworkType.length_ofID_le id
  rw [Address.fitsBuffers_iff]
  show (NetworkType.ofID id).net_work_type_str.length + 12 + 0 + 0 ≤ 125
  omega

/-- The network name of the text, if it is of the base32 format, leaves room for what
    is printed behind it, or the constructor throws. -/
def NameFits (s : Str) : Prop :=
  ∀ t : Base32Text, tolower_string s = t.text → t.Throws ∨ t.net.length ≤ t.maxNetLength

theorem construct_fitsBuffers_iff (s : Str) (networkID : UInt32) :
    (∀ a, Address.construct s networkID = .ok a → a.FitsBuffers) ↔ NameFits s := by
  constructor
  · intro h t hs
    exact (t.fitsBuffers_iff_maxNetLength hs networkID).mp h
  · intro h
    cases format s with
    | hex ds hs hlen hds =>
      intro a ha
      rw [construct_hex hs hlen hds] at ha
      rw [← Except.ok.inj ha]
      exact Address.fitsBuffers_ofBytes (Hex.encodeToString_decodeString (n := 20) hlen hds).2 _
    | base32 t hs => exact (t.fitsBuffers_iff_maxNetLength hs networkID).mpr (h t hs)
    | neither hinit =>
      intro a ha
      rw [hinit] at ha
      rw [← Except.ok.inj ha]
      exact Address.fitsBuffers_init networkID

/-- A user address on the test network, whose number has 81 zeros in front. -/
def userLongName : Base32Text where
  net := "net".toList ++ (List.replicate 81 '0' ++ ['1'])
  field := none
  payload := "aajg4wt2mbmbb44sp6szd783ry0jtad5beam1thwj0".toList
  net_ok := .inr (.inr ⟨List.replicate 81 '0' ++ ['1'], rfl, by decide,
    forall_mem_of_all (by decide)⟩)
  field_ok := userText.field_ok
  length_payload := by decide
  payload_ok := forall_mem_of_all (by decide)

/-- The address is valid and its shorter text needs 129 characters. -/
theorem construct_userLongName :
    ∃ a, Address.construct ("net".toList ++ List.replicate 81 '0' ++
        "1:aajg4wt2mbmbb44sp6szd783ry0jtad5beam1thwj0".toList) 1 = .ok a ∧ a.isValid = true ∧
      a.text.length + 1 = 129 ∧ a.getBase32Address = none ∧ a.getVerboseBase32Address = none := by
  have hacc : Accepts userLongName (userLongName.address 1) := {
    eq_address := rfl
    fieldMatches := .inl rfl
    check_eq := by decide +kernel
    id_eq := by decide +kernel
    type_ne := by decide +kernel }
  have hs : tolower_string ("net".toList ++ List.replicate 81 '0' ++
      "1:aajg4wt2mbmbb44sp6szd783ry0jtad5beam1thwj0".toList) = userLongName.text := by
    decide
  obtain ⟨hok, hvalid⟩ := (parses_base32_iff userLongName hs 1 _).mpr hacc
  exact ⟨_, hok, hvalid, by decide +kernel, by decide +kernel, by decide +kernel⟩

end ConfluxSdk
