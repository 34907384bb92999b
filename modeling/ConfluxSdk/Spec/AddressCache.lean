import ConfluxSdk.Native.TransactionBase
import ConfluxSdk.Spec.AddressTotal

/-!
# The bytes an address caches

`toEthCommonAddr` reads twenty bytes of `hex` without looking at `IsValid`. Only
`setCache` fills `hex`, and the constructor reaches it on a hex text and behind the
checksum of a base32 text. On the other ways out `hex` is empty, while network, body
and checksum may already have been overwritten, so that the read is out of bounds.

## Key results

- `Base32Text.hex_of_construct`: what is cached for a base32 text
- `construct_cachesBytes_iff`: the texts whose addresses can be read
-/

namespace ConfluxSdk

namespace Address

/-- The twenty bytes are there, `toEthCommonAddr` is made of them, and in a valid
    address they and the network id belong to the other fields. -/
structure CachesBytes (a : Address) : Prop where
  length_hex : a.hex.length = 20
  toEthCommonAddr_eq : a.toEthCommonAddr.bytes = a.hex
  hex_eq : a.isValid = true → a.hex = a.body.toHexAddress.2
  id_eq : a.isValid = true → a.networkType.toNetworkID = .ok a.networkID

/-- Every index that `toEthCommonAddr` reads exists. -/
theorem bytes_toEthCommonAddr {a : Address} (h : a.hex.length = 20) :
    a.toEthCommonAddr.bytes = a.hex := by
  apply List.ext_getElem
  · rw [a.toEthCommonAddr.size_eq, h]
  · intro i hi hi'
    simp only [toEthCommonAddr, List.getElem_map, List.getElem_range]
    rw [List.getD_eq_getElem _ _ hi']

theorem Consistent.cachesBytes {a : Address} (ha : a.Consistent) : a.CachesBytes :=
  ⟨ha.length_hex, bytes_toEthCommonAddr ha.length_hex, fun _ => ha.hex_eq, fun _ => ha.id_eq⟩

end Address

namespace Base32Text

variable (t : Base32Text)

/-- The type field and the checksum of the text belong to its body. The type may be
    one that is not valid. -/
def ChecksOut : Prop := t.fieldMatches ∧ Body.bits5sToString t.checksum = t.checkText

theorem length_hex : t.hex.length = 20 := t.wellFormed_body.length_hex

theorem cachesBytes_address {id : UInt32} (hid : NetworkType.toNetworkID ⟨t.net⟩ = .ok id) :
    (t.address id).CachesBytes where
  length_hex := t.length_hex
  toEthCommonAddr_eq := Address.bytes_toEthCommonAddr t.length_hex
  hex_eq := fun _ => rfl
  id_eq := fun _ => hid

/-- A text that fails a check leaves an object without bytes. -/
theorem hex_of_construct {s : Str} (hs : tolower_string s = t.text) (hno : ¬ t.ChecksOut)
    (networkID : UInt32) : ∃ a, Address.construct s networkID = .ok a ∧ a.hex = [] := by
  rw [construct_base32 t hs]
  by_cases hfield : t.fieldMatches
  · have hsum : Body.bits5sToString t.checksum ≠ t.checkText := fun h => hno ⟨hfield, h⟩
    rw [if_neg (not_not.mpr hfield), if_pos hsum]
    exact ⟨_, rfl, rfl⟩
  · rw [if_pos hfield]
    exact ⟨_, rfl, rfl⟩

/-- A text that passes the checks caches its bytes, unless the constructor throws. -/
theorem cachesBytes_of_construct {s : Str} (hs : tolower_string s = t.text) (hok : t.ChecksOut)
    {networkID : UInt32} {a : Address} (ha : Address.construct s networkID = .ok a) :
    a.CachesBytes := by
  rw [construct_base32 t hs, if_neg (not_not.mpr hok.1), if_neg (not_not.mpr hok.2)] at ha
  cases hid : NetworkType.toNetworkID ⟨t.net⟩ with
  | error e =>
    rw [hid] at ha
    cases ha
  | ok id =>
    rw [hid] at ha
    rw [← Except.ok.inj ha]
    exact t.cachesBytes_address hid

end Base32Text

/-- The text is of the hex format, or of the base32 format and passes its checks. -/
def Decodes (s : Str) : Prop :=
  Regex.regex_match (tolower_string s) Regex.hexPattern = true ∨
    ∃ t : Base32Text, tolower_string s = t.text ∧ t.ChecksOut

theorem construct_cachesBytes_iff (s : Str) (networkID : UInt32) :
    (∀ a, Address.construct s networkID = .ok a → a.CachesBytes) ↔ Decodes s := by
  -- No object without bytes is as it should be.
  have hempty : ∀ a : Address, a.hex = [] → ¬ a.CachesBytes := by
    intro a hhex h
    have hlen := h.length_hex
    rw [hhex] at hlen
    cases hlen
  cases format s with
  | hex ds hs hlen hds =>
    have hmatch := (regex_match_hexPattern (tolower_string s)).mpr ⟨ds, hs, hlen, hds⟩
    apply iff_of_true
    · intro a ha
      rw [construct_hex hs hlen hds] at ha
      rw [← Except.ok.inj ha]
      have hbytes := (Hex.encodeToString_decodeString (n := 20) hlen hds).2
      exact (Address.consistent_ofBytes hbytes networkID).cachesBytes
    · exact .inl hmatch
  | base32 t hs =>
    by_cases hok : t.ChecksOut
    · apply iff_of_true
      · intro a ha
        exact t.cachesBytes_of_construct hs hok ha
      · exact .inr ⟨t, hs, hok⟩
    · obtain ⟨a, ha, hhex⟩ := t.hex_of_construct hs hok networkID
      apply iff_of_false
      · intro h
        exact hempty a hhex (h a ha)
      · intro h
        rcases h with hmatch | ⟨t', hs', hok'⟩
        · -- A base32 text is no hex text.
          obtain ⟨ds, hds, _⟩ := (regex_match_hexPattern _).mp hmatch
          have hno := t.not_starts_with_0x
          rw [← hs, hds] at hno
          cases hno
        · -- The parts of a text are read from it alone.
          exact hempty a hhex (t'.cachesBytes_of_construct hs' hok' ha)
  | neither hinit =>
    have hno := hempty (Address.init networkID) rfl
    apply iff_of_false
    · intro h
      exact hno (h _ (hinit networkID))
    · intro h
      rcases h with hmatch | ⟨t, hs, hok⟩
      · obtain ⟨ds, hs, hlen, hds⟩ := (regex_match_hexPattern _).mp hmatch
        have hhex := construct_hex hs hlen hds networkID
        rw [hinit] at hhex
        have hbytes := (Hex.encodeToString_decodeString (n := 20) hlen hds).2
        have hcaches := (Address.consistent_ofBytes hbytes networkID).cachesBytes
        rw [← Except.ok.inj hhex] at hcaches
        exact hno hcaches
      · exact hno (t.cachesBytes_of_construct hs hok (hinit networkID))

/-- The user address of the documentation with its last letter mistyped. -/
def userMistyped : Base32Text where
  net := "cfx".toList
  field := none
  payload := "aak2rra2njvd77ezwjvx04kkds9fzagfe6ku8scz92".toList
  net_ok := userText.net_ok
  field_ok := userText.field_ok
  length_payload := by decide
  payload_ok := forall_mem_of_all (by decide)

/-- The constructor returns an object that has no bytes to read. -/
theorem construct_userMistyped :
    ∃ a, Address.construct "cfx:aak2rra2njvd77ezwjvx04kkds9fzagfe6ku8scz92".toList 1029 = .ok a ∧
      a.hex = [] ∧ ¬ a.CachesBytes := by
  have hno : ¬ userMistyped.ChecksOut := by
    intro h
    exact absurd h.2 (by set_option maxRecDepth 4096 in decide)
  have hs : tolower_string "cfx:aak2rra2njvd77ezwjvx04kkds9fzagfe6ku8scz92".toList =
      userMistyped.text := by decide
  obtain ⟨a, ha, hhex⟩ := userMistyped.hex_of_construct hs hno 1029
  have hlen : a.hex.length = 0 := congrArg List.length hhex
  refine ⟨a, ha, hhex, fun h => ?_⟩
  rw [h.length_hex] at hlen
  cases hlen

end ConfluxSdk
