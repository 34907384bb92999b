import ConfluxSdk.Spec.AddressTotal

/-!
# Letter case in addresses

`NewFromBase32` returns zero for a text with letters of both cases. But its caller has
already made every letter small, for the regular expressions, and passes that text on,
so the check never finds a capital letter. All spellings of a text that differ in
letter case only give the same object, those with letters of both cases too.

## Key results

- `construct_tolower`, `construct_toupper`: letter case makes no difference
- `caseChecked_iff`: the rule holds unless the small letters spell a valid address
-/

namespace ConfluxSdk

/-! ### Spellings -/

theorem tolower_toupper_string (s : Str) : tolower_string (toupper_string s) = tolower_string s := by
  rw [tolower_string, toupper_string, List.map_map]
  apply List.map_congr_left
  intro c _
  exact Char.toLower_toUpper_eq_toLower c

/-- The constructor depends on the small letters only. -/
theorem construct_congr {s s' : Str} (h : tolower_string s = tolower_string s')
    (networkID : UInt32) : Address.construct s networkID = Address.construct s' networkID := by
  rw [Address.construct, Address.construct, Address.new, Address.new, h]

theorem construct_tolower (s : Str) (networkID : UInt32) :
    Address.construct (tolower_string s) networkID = Address.construct s networkID :=
  construct_congr (tolower_string_idem s) networkID

theorem construct_toupper (s : Str) (networkID : UInt32) :
    Address.construct (toupper_string s) networkID = Address.construct s networkID :=
  construct_congr (tolower_toupper_string s) networkID

/-! ### The rule -/

/-- The text has a capital letter and a small one. -/
def MixedCase (s : Str) : Prop := (∃ c ∈ s, c.isUpper) ∧ ∃ c ∈ s, c.isLower

/-- The rule about letter case: a base32 text with letters of both cases gives no valid
    address, and the spellings with letters of one case give the same. -/
structure CaseChecked (s : Str) (networkID : UInt32) : Prop where
  mixed : MixedCase s → Regex.regex_match (tolower_string s) Regex.base32Pattern = true →
    ∀ a, Address.construct s networkID = .ok a → a.isValid = false
  same : Address.construct (tolower_string s) networkID =
    Address.construct (toupper_string s) networkID

/-- In small letters the text is a base32 text that passes all checks of its body, its
    type and its network number. -/
def SpellsBase32 (s : Str) : Prop :=
  ∃ t : Base32Text, tolower_string s = t.text ∧ t.fieldMatches ∧
    Body.bits5sToString t.checksum = t.checkText ∧ t.type ≠ .invalid ∧ ¬ NetTooLarge t.net

/-- These texts are the valid ones of their format, in whatever case they are written. -/
theorem spellsBase32_iff (s : Str) (networkID : UInt32) :
    SpellsBase32 s ↔ Regex.regex_match (tolower_string s) Regex.base32Pattern = true ∧
      ∃ a, Parses s networkID a := by
  rw [regex_match_base32Pattern]
  constructor
  · intro h
    obtain ⟨t, hs, hfield, hcheck, htype, hsmall⟩ := h
    obtain ⟨id, hid⟩ := t.net_ok.toNetworkID_iff.mpr hsmall
    have hacc : Accepts t (t.address id) := ⟨rfl, hfield, hcheck, hid, htype⟩
    exact ⟨⟨t, hs⟩, t.address id, (parses_base32_iff t hs networkID _).mpr hacc⟩
  · intro h
    obtain ⟨⟨t, hs⟩, a, ha⟩ := h
    have hacc := (parses_base32_iff t hs networkID a).mp ha
    have hsmall := t.net_ok.toNetworkID_iff.mp ⟨_, hacc.id_eq⟩
    exact ⟨t, hs, hacc.fieldMatches, hacc.check_eq, hacc.type_ne, hsmall⟩

theorem caseChecked_iff (s : Str) (networkID : UInt32) :
    CaseChecked s networkID ↔ ¬ (MixedCase s ∧ SpellsBase32 s) := by
  rw [spellsBase32_iff s networkID]
  constructor
  · intro h hmixed
    obtain ⟨hboth, hbase, a, ha, hvalid⟩ := hmixed
    rw [h.mixed hboth hbase a ha] at hvalid
    cases hvalid
  · intro h
    constructor
    · intro hboth hbase a ha
      by_contra hvalid
      rw [Bool.not_eq_false] at hvalid
      exact h ⟨hboth, hbase, a, ha, hvalid⟩
    · rw [construct_tolower, construct_toupper]

/-- The user address of the documentation with its network in capital letters. -/
theorem construct_mixedCase :
    MixedCase "CFX:aak2rra2njvd77ezwjvx04kkds9fzagfe6ku8scz91".toList ∧
      ∃ a, Address.construct "CFX:aak2rra2njvd77ezwjvx04kkds9fzagfe6ku8scz91".toList 1029 = .ok a ∧
        a.isValid = true ∧
        ¬ CaseChecked "CFX:aak2rra2njvd77ezwjvx04kkds9fzagfe6ku8scz91".toList 1029 := by
  have hboth : MixedCase "CFX:aak2rra2njvd77ezwjvx04kkds9fzagfe6ku8scz91".toList :=
    ⟨⟨'C', by decide, rfl⟩, ⟨'a', by decide, rfl⟩⟩
  have hs : tolower_string "CFX:aak2rra2njvd77ezwjvx04kkds9fzagfe6ku8scz91".toList =
      userText.text := by decide
  have hbase := (regex_match_base32Pattern _).mpr ⟨userText, hs⟩
  obtain ⟨hok, hvalid⟩ := (parses_base32_iff userText hs 1029 _).mpr userText_accepts
  refine ⟨hboth, _, hok, hvalid, fun h => ?_⟩
  rw [h.mixed hboth hbase _ hok] at hvalid
  cases hvalid

end ConfluxSdk
