import ConfluxSdk.Spec.AddressCanonical

/-!
# When the constructor of Address throws nothing

The only call that throws is the `std::stoi` behind `ToNetworkID`. The constructor
makes it when the checksum of a base32 text has matched, `GetNetworkID` makes it on
every object. The pattern admits any number of digits after `net`, so both throw
`out_of_range` once the digits spell no `int`: the first on a text with the right
checksum, the second on an object that a text with a wrong one left behind, which
keeps the network name.

## Key results

- `getIDWhenBeginWithNet_digits`: the conversion, for every digit string
- `construct_quiet_iff`: construction and `GetNetworkID` return, and `IsValid` tells
  an accepted text, unless the network number is no `int`
-/

namespace ConfluxSdk

/-! ### The conversion -/

theorem isDigit_of_mem_digits {c : Char} (hc : c ∈ Regex.digits) : c.isDigit := by
  have hall : Regex.digits.all Char.isDigit = true := by decide
  exact List.all_eq_true.mp hall c hc

theorem NetworkType.getIDWhenBeginWithNet_digits {ds : Str} (hne : ds ≠ [])
    (hds : ∀ c ∈ ds, c ∈ Regex.digits) :
    getIDWhenBeginWithNet ("net".toList ++ ds) =
      if 2 ^ 31 ≤ Nat.ofDigitChars 10 ds 0 then .error .outOfRange
      else .ok (UInt32.ofInt (Nat.ofDigitChars 10 ds 0)) := by
  have hlong : ¬ ("net".toList ++ ds).length < 3 := by simp
  have hstem : ("net".toList ++ ds).take 3 = "net".toList := rfl
  have hrest : ("net".toList ++ ds).drop 3 = ds := rfl
  have hstoi : stoi (ds ++ []) = _ :=
    stoi_digits (fun c hc => isDigit_of_mem_digits (hds c hc)) hne (by simp)
  rw [List.append_nil] at hstoi
  rw [getIDWhenBeginWithNet, if_neg hlong, if_neg (not_not.mpr hstem), hrest, hstoi]
  split
  · rfl
  · rfl

/-- The number after `net` is no `int`. -/
def NetTooLarge (net : Str) : Prop :=
  ∃ ds, net = "net".toList ++ ds ∧ 2 ^ 31 ≤ Nat.ofDigitChars 10 ds 0

/-- The names the pattern admits are read as a network id, unless their number is
    too large. -/
theorem IsNetName.toNetworkID_iff {net : Str} (h : IsNetName net) :
    (∃ id, NetworkType.toNetworkID ⟨net⟩ = .ok id) ↔ ¬ NetTooLarge net := by
  rcases h with rfl | rfl | ⟨ds, rfl, hne, hds⟩
  · have hno : ¬ NetTooLarge "cfx".toList := by
      rintro ⟨ds, hnet, _⟩
      exact absurd (List.cons.inj hnet).1 (by decide)
    exact iff_of_true ⟨_, rfl⟩ hno
  · have hno : ¬ NetTooLarge "cfxtest".toList := by
      rintro ⟨ds, hnet, _⟩
      exact absurd (List.cons.inj hnet).1 (by decide)
    exact iff_of_true ⟨_, rfl⟩ hno
  · -- `net` and digits: none of the two names, so the digits are read.
    have hmain : ¬ NetworkType.mainnetPrefix = "net".toList ++ ds := by
      intro hnet
      exact absurd (List.cons.inj hnet).1 (by decide)
    have htest : ¬ NetworkType.testNetPrefix = "net".toList ++ ds := by
      intro hnet
      exact absurd (List.cons.inj hnet).1 (by decide)
    have hlarge : NetTooLarge ("net".toList ++ ds) ↔ 2 ^ 31 ≤ Nat.ofDigitChars 10 ds 0 := by
      constructor
      · rintro ⟨ds', hnet, hle⟩
        rwa [List.append_cancel_left hnet]
      · intro hle
        exact ⟨ds, rfl, hle⟩
    rw [hlarge, NetworkType.toNetworkID, if_neg hmain, if_neg htest,
      NetworkType.getIDWhenBeginWithNet_digits hne hds]
    by_cases hle : 2 ^ 31 ≤ Nat.ofDigitChars 10 ds 0
    · rw [if_pos hle]
      refine iff_of_false ?_ (not_not.mpr hle)
      rintro ⟨id, hid⟩
      cases hid
    · rw [if_neg hle]
      exact iff_of_true ⟨_, rfl⟩ hle

/-! ### Accepted texts -/

/-- The text names an address: a hex text, or a base32 text whose type field and
    checksum agree with its body, of a type that exists. -/
def Accepted (s : Str) : Prop :=
  (∃ ds, tolower_string s = "0x".toList ++ ds ∧ ds.length = 40 ∧ (∀ c ∈ ds, c ∈ Regex.hexDigits) ∧
    calcAddressType (Hex.decodeString ds) ≠ .invalid) ∨
  (∃ t : Base32Text, tolower_string s = t.text ∧ t.fieldMatches ∧
    Body.bits5sToString t.checksum = t.checkText ∧ t.type ≠ .invalid)

/-- The constructor returns, the object tells whether the text was accepted, and its
    network id can be asked for. -/
def ConstructsQuietly (s : Str) (networkID : UInt32) : Prop :=
  ∃ a, Address.construct s networkID = .ok a ∧ (a.isValid = true ↔ Accepted s) ∧
    ∃ id, a.getNetworkID = .ok id

/-- The text is of the base32 format and its network number is no `int`. -/
def NumberTooLarge (s : Str) : Prop :=
  ∃ t : Base32Text, tolower_string s = t.text ∧ NetTooLarge t.net

/-- An object built from a text of the base32 format carries the text's network name,
    whether the parse succeeded or not. -/
theorem networkType_of_construct {s : Str} (t : Base32Text) (hs : tolower_string s = t.text)
    {networkID : UInt32} {a : Address} (h : Address.construct s networkID = .ok a) :
    a.networkType = ⟨t.net⟩ := by
  rw [construct_base32 t hs] at h
  split at h
  · rw [← Except.ok.inj h]
  · split at h
    · rw [← Except.ok.inj h]
    · cases hid : NetworkType.toNetworkID ⟨t.net⟩ with
      | error e =>
        rw [hid] at h
        cases h
      | ok id =>
        rw [hid] at h
        rw [← Except.ok.inj h]
        rfl

/-- The valid objects are those built from accepted texts. -/
theorem valid_of_accepted {s : Str} (hsmall : ¬ NumberTooLarge s) (networkID : UInt32)
    (h : Accepted s) : ∃ a, Parses s networkID a := by
  rcases h with ⟨ds, hs, hlen, hds, htype⟩ | ⟨t, hs, hfield, hcheck, htype⟩
  · exact ⟨_, (parses_hex_iff hs hlen hds networkID _).mpr ⟨rfl, htype⟩⟩
  · have hnet : ¬ NetTooLarge t.net := fun hlarge => hsmall ⟨t, hs, hlarge⟩
    obtain ⟨id, hid⟩ := t.net_ok.toNetworkID_iff.mpr hnet
    exact ⟨_, (parses_base32_iff t hs networkID (t.address id)).mpr ⟨rfl, hfield, hcheck, hid, htype⟩⟩

theorem accepted_of_parses {s : Str} {networkID : UInt32} {a : Address}
    (h : Parses s networkID a) : Accepted s := by
  cases format s with
  | hex ds hs hlen hds =>
    obtain ⟨rfl, htype⟩ := (parses_hex_iff hs hlen hds networkID a).mp h
    exact .inl ⟨ds, hs, hlen, hds, htype⟩
  | base32 t hs =>
    have hacc := (parses_base32_iff t hs networkID a).mp h
    exact .inr ⟨t, hs, hacc.fieldMatches, hacc.check_eq, hacc.type_ne⟩
  | neither hinit =>
    -- A text of neither format leaves an invalid object.
    obtain ⟨hok, hvalid⟩ := h
    rw [hinit] at hok
    rw [← Except.ok.inj hok, Address.isValid_iff] at hvalid
    exact absurd rfl hvalid

/-- Every text gives an object whose network id can be read, unless its network number
    is too large. -/
theorem construct_ok {s : Str} (hsmall : ¬ NumberTooLarge s) (networkID : UInt32) :
    ∃ a, Address.construct s networkID = .ok a ∧ ∃ id, a.getNetworkID = .ok id := by
  cases format s with
  | hex ds hs hlen hds =>
    exact ⟨_, construct_hex hs hlen hds networkID, networkID,
      NetworkType.toNetworkID_ofID networkID⟩
  | base32 t hs =>
    have hnet : ¬ NetTooLarge t.net := fun hlarge => hsmall ⟨t, hs, hlarge⟩
    obtain ⟨id, hid⟩ := t.net_ok.toNetworkID_iff.mpr hnet
    obtain ⟨a, ha⟩ := construct_base32_ok t hs hid networkID
    refine ⟨a, ha, id, ?_⟩
    rw [Address.getNetworkID, networkType_of_construct t hs ha]
    exact hid
  | neither hinit =>
    exact ⟨Address.init networkID, hinit networkID, networkID,
      NetworkType.toNetworkID_ofID networkID⟩

theorem construct_quiet_iff (s : Str) (networkID : UInt32) :
    ConstructsQuietly s networkID ↔ ¬ NumberTooLarge s := by
  constructor
  · rintro ⟨a, ha, _, id, hid⟩ ⟨t, hs, hlarge⟩
    rw [Address.getNetworkID, networkType_of_construct t hs ha] at hid
    exact t.net_ok.toNetworkID_iff.mp ⟨id, hid⟩ hlarge
  · intro hsmall
    obtain ⟨a, ha, hid⟩ := construct_ok hsmall networkID
    refine ⟨a, ha, ⟨fun hvalid => accepted_of_parses ⟨ha, hvalid⟩, fun hacc => ?_⟩, hid⟩
    obtain ⟨b, hb, hvalid⟩ := valid_of_accepted hsmall networkID hacc
    rwa [Except.ok.inj (ha.symm.trans hb)]

/-! ### A number with ten digits -/

/-- The user address on the network 2147483648, with its checksum. -/
def userTooLarge : Base32Text where
  net := "net2147483648".toList
  field := none
  payload := "aak2rra2njvd77ezwjvx04kkds9fzagfe61gunf2c4".toList
  net_ok := .inr (.inr ⟨"2147483648".toList, rfl, by decide, forall_mem_of_all (by decide)⟩)
  field_ok := userText.field_ok
  length_payload := by decide
  payload_ok := forall_mem_of_all (by decide)

/-- The same address with the checksum it has on the main network. -/
def userTooLargeTypo : Base32Text :=
  { userTooLarge with
    payload := "aak2rra2njvd77ezwjvx04kkds9fzagfe6ku8scz91".toList
    length_payload := userText.length_payload
    payload_ok := userText.payload_ok }

/-- The constructor throws on the text with the right checksum. With a wrong one it
    returns, and `GetNetworkID` throws. -/
theorem construct_userTooLarge :
    Address.construct "net2147483648:aak2rra2njvd77ezwjvx04kkds9fzagfe61gunf2c4".toList 0 =
      .error .outOfRange ∧
    ∃ a, Address.construct "net2147483648:aak2rra2njvd77ezwjvx04kkds9fzagfe6ku8scz91".toList 0 =
      .ok a ∧ a.getNetworkID = .error .outOfRange := by
  have hid : NetworkType.toNetworkID ⟨"net2147483648".toList⟩ = .error .outOfRange := by decide
  have hcheck : Body.bits5sToString userTooLarge.checksum = userTooLarge.checkText := by
    set_option maxRecDepth 4096 in decide
  have htypo : Body.bits5sToString userTooLargeTypo.checksum ≠ userTooLargeTypo.checkText := by
    set_option maxRecDepth 4096 in decide
  have hfield : userTooLargeTypo.fieldMatches := .inl rfl
  constructor
  · have hthrow := construct_base32 userTooLarge (by decide : tolower_string userTooLarge.text = _) 0
    rw [if_neg (not_not.mpr (.inl rfl)), if_neg (not_not.mpr hcheck)] at hthrow
    exact hthrow.trans (congrArg (· >>= _) hid)
  · have hreturn := construct_base32 userTooLargeTypo
      (by decide : tolower_string userTooLargeTypo.text = _) 0
    rw [if_neg (not_not.mpr hfield), if_pos htypo] at hreturn
    exact ⟨_, hreturn, hid⟩

end ConfluxSdk
