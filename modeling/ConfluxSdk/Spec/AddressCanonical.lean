import ConfluxSdk.Spec.AddressRoundTrip

/-!
# Which base32 texts are printed back

An accepted text need not be the one its address prints. The pattern admits every
word character, the reverse alphabet takes a character it does not know for the
first letter, the bits in front of and behind the twenty bytes are not checked,
and a network has many names. This module says exactly which texts survive.

## Key results

- `Parses.consistent`: the fields of a valid address belong together
- `getBase32Address_eq_iff`: when a text is printed as it was read
- `one_spelling_iff`: when two texts of the same bytes and network are the same
-/

namespace ConfluxSdk

open Radix (value InBase)

/-! ### Reading letters -/

namespace Body

/-- The letter a character of the body is taken for. -/
def readAs (c : Char) : Char := if c ∈ alphabet then c else 'a'

theorem readAs_mem (c : Char) : readAs c ∈ alphabet := by
  unfold readAs
  split
  · assumption
  · decide

theorem readAs_eq_self_iff (c : Char) : readAs c = c ↔ c ∈ alphabet := by
  constructor
  · intro h
    exact h ▸ readAs_mem c
  · exact fun h => if_pos h

theorem alphabetToIndex_lt (c : Char) : (alphabetToIndex c).toNat < 32 := by
  unfold alphabetToIndex
  split
  · rename_i h
    have hlt := List.idxOf_lt_length_of_mem h
    have hlen : alphabet.length = 32 := by decide
    rw [UInt8.toNat_ofNat']
    omega
  · decide

theorem getD_alphabetToIndex (c : Char) :
    alphabet.getD (alphabetToIndex c).toNat '\x00' = readAs c := by
  unfold alphabetToIndex readAs
  split
  · rename_i h
    have hlt := List.idxOf_lt_length_of_mem h
    have hlen : alphabet.length = 32 := by decide
    rw [UInt8.toNat_ofNat', Nat.mod_eq_of_lt (by omega), List.getD_eq_getElem _ _ hlt,
      List.getElem_idxOf hlt]
  · rfl

theorem inBase_ofString (s : Str) : InBase 32 (ofString s).body := by
  intro d hd
  obtain ⟨c, _, rfl⟩ := List.mem_map.mp hd
  exact alphabetToIndex_lt c

theorem string_ofString (s : Str) : (ofString s).string = s.map readAs := by
  show (s.map alphabetToIndex).map _ = _
  rw [List.map_map]
  exact List.map_congr_left fun c _ => getD_alphabetToIndex c

theorem map_readAs_eq_self_iff (s : Str) : s.map readAs = s ↔ ∀ c ∈ s, c ∈ alphabet := by
  induction s with
  | nil => simp
  | cons c s ih =>
    rw [List.map_cons, List.cons.injEq, ih, readAs_eq_self_iff, List.forall_mem_cons]

end Body

/-! ### Valid addresses -/

theorem Base32Text.wellFormed_body (t : Base32Text) : t.body.WellFormed where
  length_eq := by rw [body, Body.ofString, List.length_map, t.length_bodyText]
  inBase := Body.inBase_ofString _

section Accepts

variable {t : Base32Text} {a : Address} (h : Accepts t a)
include h

theorem Accepts.networkType_eq : a.networkType = ⟨t.net⟩ := by rw [h.eq_address]; rfl

theorem Accepts.body_eq : a.body = t.body := by rw [h.eq_address]; rfl

theorem Accepts.hex_eq : a.hex = t.hex := by rw [h.eq_address]; rfl

theorem Accepts.checksum_eq : a.checksum = t.checksum := by rw [h.eq_address]; rfl

theorem Accepts.consistent : a.Consistent where
  body := by
    rw [h.body_eq]
    exact t.wellFormed_body
  hex_eq := by rw [h.hex_eq, h.body_eq]; rfl
  type_eq := by rw [h.eq_address]; rfl
  checksum_eq := by rw [h.checksum_eq, h.networkType_eq, h.body_eq]; rfl
  id_eq := by rw [h.networkType_eq, h.id_eq]

/-- The letters an accepted payload is printed with. -/
theorem Accepts.payload_eq : a.payload = t.bodyText.map Body.readAs ++ t.checkText := by
  rw [Address.payload, h.body_eq, h.checksum_eq, h.check_eq, Base32Text.body, Body.string_ofString]

theorem Accepts.text_eq :
    a.text = t.net ++ ":".toList ++ (t.bodyText.map Body.readAs ++ t.checkText) := by
  rw [Address.text, h.networkType_eq, h.payload_eq]

/-- The checksum letters are always in the alphabet. -/
theorem Accepts.checkText_mem {c : Char} (hc : c ∈ t.checkText) : c ∈ Body.alphabet := by
  rw [← h.check_eq, ← h.checksum_eq] at hc
  exact Body.mem_alphabet_of_mem h.consistent.inBase_checksum hc

/-- The text of an accepted address is printed if its network name is short. -/
theorem Accepts.getBase32Address_eq_some_iff (text : Str) :
    a.getBase32Address = some text ↔ a.text = text ∧ t.net.length ≤ 84 := by
  have hlen : a.text.length = t.net.length + 43 := by
    rw [Address.text, List.length_append, List.length_append, h.consistent.length_payload,
      h.networkType_eq]
    rfl
  rw [Address.getBase32Address_eq, Address.printBuffer, hlen]
  by_cases hfit : t.net.length ≤ 84
  · rw [if_pos (by omega), Option.some.injEq]
    exact ⟨fun heq => ⟨heq, hfit⟩, fun heq => heq.1⟩
  · rw [if_neg (by omega)]
    exact ⟨fun heq => absurd heq (by simp), fun heq => absurd heq.2 hfit⟩

end Accepts

/-- The fields of a valid address belong together, whatever text it came from. -/
theorem Parses.consistent {s : Str} {networkID : UInt32} {a : Address}
    (h : Parses s networkID a) : a.Consistent := by
  cases format s with
  | hex ds hs hlen hds =>
    rw [((parses_hex_iff hs hlen hds networkID a).mp h).1]
    exact Address.consistent_ofBytes (Hex.encodeToString_decodeString (n := 20) hlen hds).2 _
  | base32 t hs => exact ((parses_base32_iff t hs networkID a).mp h).consistent
  | neither hinit =>
    rw [Parses, hinit] at h
    rw [← Except.ok.inj h.1, Address.isValid_iff] at h
    exact absurd rfl h.2

/-! ### Texts that are printed as they were read -/

/-- A valid text is printed in lower case and without its type field, exactly when
    its body has no character outside the alphabet and its network name leaves room
    in the buffer. -/
theorem getBase32Address_eq_iff {s : Str} (t : Base32Text) (hs : tolower_string s = t.text)
    {networkID : UInt32} {a : Address} (h : Parses s networkID a) :
    (a.getBase32Address = some (t.net ++ ":".toList ++ t.payload) ∧
        ∀ c ∈ t.payload, c ∈ Body.alphabet) ↔
      (∀ c ∈ t.payload.take 34, c ∈ Body.alphabet) ∧ t.net.length ≤ 84 := by
  have hacc := (parses_base32_iff t hs networkID a).mp h
  rw [hacc.getBase32Address_eq_some_iff, hacc.text_eq]
  constructor
  · intro hprint
    exact ⟨fun c hc => hprint.2 c (List.mem_of_mem_take hc), hprint.1.2⟩
  · intro hbody
    obtain ⟨hmem, hfit⟩ := hbody
    have hread := (Body.map_readAs_eq_self_iff t.bodyText).mpr hmem
    refine ⟨⟨by rw [hread, t.bodyText_append_checkText], hfit⟩, ?_⟩
    intro c hc
    rw [← t.bodyText_append_checkText] at hc
    rcases List.mem_append.mp hc with hc | hc
    · exact hmem c hc
    · exact hacc.checkText_mem hc

/-- Membership of all characters of a text, as it is evaluated. -/
theorem forall_mem_of_all {s chars : Str} (h : s.all chars.elem = true) : ∀ c ∈ s, c ∈ chars :=
  fun c hc => List.elem_iff.mp (List.all_eq_true.mp h c hc)

/-- The user address of the documentation. -/
def userText : Base32Text where
  net := "cfx".toList
  field := none
  payload := "aak2rra2njvd77ezwjvx04kkds9fzagfe6ku8scz91".toList
  net_ok := .inl rfl
  field_ok := by decide
  length_payload := by decide
  payload_ok := forall_mem_of_all (by decide)

/-- The same address with a letter `o` in place of an `a`. -/
def userTypo : Base32Text where
  net := "cfx".toList
  field := none
  payload := "oak2rra2njvd77ezwjvx04kkds9fzagfe6ku8scz91".toList
  net_ok := .inl rfl
  field_ok := by decide
  length_payload := by decide
  payload_ok := forall_mem_of_all (by decide)

theorem userText_accepts : Accepts userText (userText.address 1029) where
  eq_address := rfl
  fieldMatches := .inl rfl
  check_eq := by set_option maxRecDepth 4096 in decide
  id_eq := rfl
  type_ne := by decide

theorem userTypo_accepts : Accepts userTypo (userTypo.address 1029) where
  eq_address := rfl
  fieldMatches := .inl rfl
  check_eq := by set_option maxRecDepth 4096 in decide
  id_eq := rfl
  type_ne := by decide

theorem getBase32Address_userText :
    (userText.address 1029).getBase32Address =
      some "cfx:aak2rra2njvd77ezwjvx04kkds9fzagfe6ku8scz91".toList := by
  have h : Parses userText.text 1029 (userText.address 1029) :=
    (parses_base32_iff userText (by decide) 1029 _).mpr userText_accepts
  exact ((getBase32Address_eq_iff userText (by decide) h).mpr
    ⟨forall_mem_of_all (by decide), by decide⟩).1

/-- The typo is accepted, and printed as the address without it. -/
theorem getBase32Address_userTypo :
    ∃ a, Parses "cfx:oak2rra2njvd77ezwjvx04kkds9fzagfe6ku8scz91".toList 1029 a ∧
      a.getBase32Address = some "cfx:aak2rra2njvd77ezwjvx04kkds9fzagfe6ku8scz91".toList ∧
      a.getBase32Address ≠ some (tolower_string
        "cfx:oak2rra2njvd77ezwjvx04kkds9fzagfe6ku8scz91".toList) ∧
      'o' ∉ Body.alphabet := by
  have hprint : (userTypo.address 1029).getBase32Address =
      some "cfx:aak2rra2njvd77ezwjvx04kkds9fzagfe6ku8scz91".toList := by
    rw [userTypo_accepts.getBase32Address_eq_some_iff, userTypo_accepts.text_eq]
    decide
  refine ⟨userTypo.address 1029,
    (parses_base32_iff userTypo (by decide) 1029 _).mpr userTypo_accepts, hprint, ?_, by decide⟩
  rw [hprint]
  decide

/-! ### The bits of a body -/

namespace Body

/-- The number in front of the twenty bytes, which should be the version byte. -/
def versionBits (b : Body) : Nat := value 32 b.body / 4 / 256 ^ 20

/-- The two bits behind the twenty bytes. -/
def paddingBits (b : Body) : Nat := value 32 b.body % 4

theorem WellFormed.hex_eq {b : Body} (h : b.WellFormed) :
    b.toHexAddress.2 = BigEndian.fixed 20 (value 32 b.body / 4) := by
  have hsplit : BigEndian.fixed 21 (value 32 b.body / 4) =
      BigEndian.fixed 1 (value 32 b.body / 4 / 256 ^ 20) ++
        BigEndian.fixed 20 (value 32 b.body / 4) := Radix.fixed_add 1 20 _
  rw [toHexAddress, h.bytes, hsplit]
  generalize BigEndian.fixed 20 (value 32 b.body / 4) = bytes
  generalize value 32 b.body / 4 / 256 ^ 20 = version
  rfl

theorem WellFormed.toNat_hex {b : Body} (h : b.WellFormed) :
    BigEndian.toNat b.toHexAddress.2 = value 32 b.body / 4 % 256 ^ 20 := by
  rw [h.hex_eq, BigEndian.toNat_fixed]

/-- A body is its twenty bytes and the bits around them. -/
theorem WellFormed.eq_iff {b c : Body} (hb : b.WellFormed) (hc : c.WellFormed) :
    b = c ↔ b.toHexAddress.2 = c.toHexAddress.2 ∧ b.versionBits = c.versionBits ∧
      b.paddingBits = c.paddingBits := by
  constructor
  · rintro rfl
    exact ⟨rfl, rfl, rfl⟩
  · rintro ⟨hhex, hversion, hpadding⟩
    have hbytes : value 32 b.body / 4 % 256 ^ 20 = value 32 c.body / 4 % 256 ^ 20 := by
      rw [← hb.toNat_hex, ← hc.toNat_hex, hhex]
    unfold versionBits at hversion
    unfold paddingBits at hpadding
    have hvalue : value 32 b.body = value 32 c.body := by omega
    have hlist := Radix.value_inj hb.inBase hc.inBase (by rw [hb.length_eq, hc.length_eq]) hvalue
    cases b
    cases c
    exact congrArg _ hlist

/-- The bits around the bytes are zero in a body made from bytes. -/
theorem bits_ofBytes {bytes : ByteArr} (h : bytes.length = 20) :
    (ofBytes (calcVersionByte bytes) bytes).versionBits = 0 ∧
      (ofBytes (calcVersionByte bytes) bytes).paddingBits = 0 := by
  have hlt := BigEndian.toNat_lt bytes
  rw [h] at hlt
  rw [versionBits, paddingBits, value_ofBytes h]
  constructor
  · rw [Nat.mul_div_cancel _ (by decide), Nat.div_eq_of_lt hlt]
  · exact Nat.mul_mod_left _ _

end Body

/-! ### One spelling -/

/-- The network and the body decide everything else. -/
theorem Address.Consistent.eq_iff {a b : Address} (ha : a.Consistent) (hb : b.Consistent) :
    a = b ↔ a.networkType = b.networkType ∧ a.body = b.body := by
  constructor
  · rintro rfl
    exact ⟨rfl, rfl⟩
  · rintro ⟨hnet, hbody⟩
    have hhex : a.hex = b.hex := by rw [ha.hex_eq, hb.hex_eq, hbody]
    have htype : a.addressType = b.addressType := by rw [ha.type_eq, hb.type_eq, hhex]
    have hcheck : a.checksum = b.checksum := by rw [ha.checksum_eq, hb.checksum_eq, hnet, hbody]
    have hid : a.networkID = b.networkID := by
      have h := ha.id_eq
      rw [hnet, hb.id_eq] at h
      exact (Except.ok.inj h).symm
    cases a
    cases b
    simp_all only

/-- The payload determines the body. -/
theorem Address.Consistent.body_eq_of_payload {a b : Address} (ha : a.Consistent)
    (hb : b.Consistent) (h : a.payload = b.payload) : a.body = b.body := by
  have hlen : a.body.string.length = b.body.string.length := by
    rw [Body.string, Body.string, Body.length_bits5sToString, Body.length_bits5sToString,
      ha.body.length_eq, hb.body.length_eq]
  have hstring : a.body.string = b.body.string := List.append_inj_left h hlen
  have hread := congrArg Body.ofString hstring
  rwa [Body.string, Body.string, Body.ofString_bits5sToString ha.body.inBase,
    Body.ofString_bits5sToString hb.body.inBase] at hread

theorem Address.Consistent.length_hex {a : Address} (ha : a.Consistent) : a.hex.length = 20 := by
  rw [ha.hex_eq, ha.body.length_hex]

theorem tolower_getHexAddress (a : Address) :
    tolower_string a.getHexAddress = a.getHexAddress := by
  have hall : Regex.hexDigits.all (fun c => c.toLower == c) = true := by decide
  rw [Address.getHexAddress, tolower_string_append,
    tolower_string_of_forall (s := Hex.encodeToString a.hex)]
  · rfl
  · intro c hc
    have hmem := (Hex.encodeToString_digits a.hex).2 c hc
    exact eq_of_beq (List.all_eq_true.mp hall c hmem)

/-- Building an address again from what it shows: its bytes and a network id. -/
theorem Address.Consistent.parses_getHexAddress_iff {a : Address} (ha : a.Consistent)
    (hvalid : a.addressType ≠ .invalid) (id : UInt32) :
    Parses a.getHexAddress id a ↔ a.networkType = .ofID id ∧ a.body.versionBits = 0 ∧
      a.body.paddingBits = 0 := by
  obtain ⟨hcount, hdigits⟩ := Hex.encodeToString_digits a.hex
  have hofBytes := Address.consistent_ofBytes ha.length_hex id
  have hbits := Body.bits_ofBytes ha.length_hex
  rw [parses_hex_iff (tolower_getHexAddress a) (by rw [hcount, ha.length_hex]) hdigits,
    Hex.decodeString_encodeToString, and_iff_left hvalid, ha.eq_iff hofBytes,
    ha.body.eq_iff hofBytes.body]
  show a.networkType = .ofID id ∧ _ = (Body.ofBytes (calcVersionByte a.hex) a.hex).toHexAddress.2 ∧
    _ = (Body.ofBytes (calcVersionByte a.hex) a.hex).versionBits ∧
    _ = (Body.ofBytes (calcVersionByte a.hex) a.hex).paddingBits ↔ _
  rw [hbits.1, hbits.2, Body.toHexAddress_ofBytes ha.length_hex, ← ha.hex_eq, eq_self, true_and]

theorem Address.eq_iff (a b : Address) :
    a.eq b = true ↔ a.networkType = b.networkType ∧ a.addressType = b.addressType ∧
      a.checksum = b.checksum := by
  unfold eq
  by_cases hnet : b.networkType.net_work_type_str = a.networkType.net_work_type_str
  · have hnet' : a.networkType = b.networkType := congrArg NetworkType.mk hnet.symm
    rw [if_neg (not_not.mpr hnet)]
    by_cases htype : b.addressType.string = a.addressType.string
    · rw [if_neg (not_not.mpr htype), if_neg (not_not.mpr rfl)]
      have htype' := AddressType.string_inj htype.symm
      by_cases hcheck : b.checksum = a.checksum
      · rw [if_neg (not_not.mpr hcheck)]
        exact ⟨fun _ => ⟨hnet', htype', hcheck.symm⟩, fun _ => rfl⟩
      · rw [if_pos hcheck]
        exact ⟨fun h => absurd h (by decide), fun h => absurd h.2.2.symm hcheck⟩
    · rw [if_pos htype]
      exact ⟨fun h => absurd h (by decide), fun h => absurd (congrArg _ h.2.1.symm) htype⟩
  · rw [if_pos hnet]
    exact ⟨fun h => absurd h (by decide),
      fun h => absurd (congrArg NetworkType.net_work_type_str h.1.symm) hnet⟩

/-- Two valid texts that show the same bytes are one spelling exactly when they name
    the network alike, with a name that leaves room in the buffer, and have the same
    bits around the bytes; that they show the same network id is not enough. An
    address is built again from its bytes and network id exactly when its network has
    the name the SDK gives it and those bits are zero. -/
theorem one_spelling_iff {s₁ s₂ : Str} (t₁ t₂ : Base32Text) (hs₁ : tolower_string s₁ = t₁.text)
    (hs₂ : tolower_string s₂ = t₂.text) {m₁ m₂ : UInt32} {a₁ a₂ : Address}
    (h₁ : Parses s₁ m₁ a₁) (h₂ : Parses s₂ m₂ a₂)
    (hhex : a₁.getHexAddress = a₂.getHexAddress) :
    ((∃ text, a₁.getBase32Address = some text ∧ a₂.getBase32Address = some text) ∧
        a₁.eq a₂ = true ↔
      t₁.net = t₂.net ∧ t₁.net.length ≤ 84 ∧ t₁.body.versionBits = t₂.body.versionBits ∧
        t₁.body.paddingBits = t₂.body.paddingBits) ∧
    ((∃ id, a₁.getNetworkID = .ok id ∧ Parses a₁.getHexAddress id a₁) ↔
      (∃ id, t₁.net = (NetworkType.ofID id).net_work_type_str) ∧ t₁.body.versionBits = 0 ∧
        t₁.body.paddingBits = 0) := by
  have hacc₁ := (parses_base32_iff t₁ hs₁ m₁ a₁).mp h₁
  have hacc₂ := (parses_base32_iff t₂ hs₂ m₂ a₂).mp h₂
  have hbytes : a₁.hex = a₂.hex := Hex.encodeToString_inj (List.append_cancel_left hhex)
  constructor
  · -- The bytes are the same, so the bodies differ at most in the bits around them.
    have hbody : t₁.body = t₂.body ↔ t₁.body.versionBits = t₂.body.versionBits ∧
        t₁.body.paddingBits = t₂.body.paddingBits := by
      rw [t₁.wellFormed_body.eq_iff t₂.wellFormed_body]
      refine and_iff_right ?_
      have := hbytes
      rwa [hacc₁.hex_eq, hacc₂.hex_eq] at this
    rw [← hbody]
    constructor
    · rintro ⟨⟨text, htext₁, htext₂⟩, heq⟩
      obtain ⟨htext₁, hfit⟩ := (hacc₁.getBase32Address_eq_some_iff _).mp htext₁
      obtain ⟨htext₂, -⟩ := (hacc₂.getBase32Address_eq_some_iff _).mp htext₂
      obtain ⟨hnet, -, -⟩ := (Address.eq_iff a₁ a₂).mp heq
      -- Equal texts have equal payloads, and a payload determines the body.
      have hpayload := htext₁.trans htext₂.symm
      rw [Address.text, Address.text, hnet] at hpayload
      refine ⟨?_, hfit, ?_⟩
      · rw [hacc₁.networkType_eq, hacc₂.networkType_eq] at hnet
        exact congrArg NetworkType.net_work_type_str hnet
      · rw [← hacc₁.body_eq, ← hacc₂.body_eq]
        exact hacc₁.consistent.body_eq_of_payload hacc₂.consistent (List.append_cancel_left hpayload)
    · rintro ⟨hnet, hfit, hbody⟩
      have hsame : a₁ = a₂ := by
        rw [hacc₁.consistent.eq_iff hacc₂.consistent, hacc₁.networkType_eq, hacc₂.networkType_eq,
          hacc₁.body_eq, hacc₂.body_eq]
        exact ⟨congrArg _ hnet, hbody⟩
      rw [← hsame]
      exact ⟨⟨a₁.text, (hacc₁.getBase32Address_eq_some_iff _).mpr ⟨rfl, hfit⟩,
        (hacc₁.getBase32Address_eq_some_iff _).mpr ⟨rfl, hfit⟩⟩,
        (Address.eq_iff a₁ a₁).mpr ⟨rfl, rfl, rfl⟩⟩
  · have hvalid : a₁.addressType ≠ .invalid := (Address.isValid_iff a₁).mp h₁.2
    -- The network built from an id is this one if it has the name the SDK gives the id.
    have hnet : ∀ id, a₁.networkType = .ofID id ↔
        t₁.net = (NetworkType.ofID id).net_work_type_str := by
      intro id
      rw [hacc₁.networkType_eq]
      exact ⟨congrArg NetworkType.net_work_type_str, congrArg NetworkType.mk⟩
    constructor
    · rintro ⟨id, -, hparses⟩
      rw [hacc₁.consistent.parses_getHexAddress_iff hvalid, hnet, hacc₁.body_eq] at hparses
      exact ⟨⟨id, hparses.1⟩, hparses.2⟩
    · rintro ⟨⟨id, hname⟩, hbits⟩
      have hofID := (hnet id).mpr hname
      refine ⟨id, ?_, ?_⟩
      · rw [Address.getNetworkID, hofID, NetworkType.toNetworkID_ofID]
      · rw [hacc₁.consistent.parses_getHexAddress_iff hvalid, hacc₁.body_eq]
        exact ⟨hofID, hbits⟩

/-- The user address with the type field. -/
def userVerbose : Base32Text := { userText with field := some .user, field_ok := by decide }

theorem userVerbose_accepts : Accepts userVerbose (userText.address 1029) where
  eq_address := rfl
  fieldMatches := .inr (by decide)
  check_eq := userText_accepts.check_eq
  id_eq := rfl
  type_ne := userText_accepts.type_ne

/-- The user address and its spelling with the type field in upper case. -/
theorem one_spelling_userText :
    (∃ text, (userText.address 1029).getBase32Address = some text) ∧
      (userText.address 1029).eq (userText.address 1029) = true ∧
      ∃ id, (userText.address 1029).getNetworkID = .ok id ∧
        Parses (userText.address 1029).getHexAddress id (userText.address 1029) := by
  have h₁ : Parses "cfx:aak2rra2njvd77ezwjvx04kkds9fzagfe6ku8scz91".toList 1029
      (userText.address 1029) :=
    (parses_base32_iff userText (by decide) 1029 _).mpr userText_accepts
  have h₂ : Parses "CFX:TYPE.USER:AAK2RRA2NJVD77EZWJVX04KKDS9FZAGFE6KU8SCZ91".toList 1029
      (userText.address 1029) :=
    (parses_base32_iff userVerbose (by decide) 1029 _).mpr userVerbose_accepts
  obtain ⟨hpair, hrebuild⟩ := one_spelling_iff userText userVerbose (by decide) (by decide) h₁ h₂ rfl
  obtain ⟨⟨text, htext, -⟩, heq⟩ := hpair.mpr ⟨rfl, by decide, rfl, rfl⟩
  exact ⟨⟨text, htext⟩, heq, hrebuild.mpr ⟨⟨1029, rfl⟩, by decide, by decide⟩⟩

/-- The user address with one of its padding bits set, and the checksum of that. -/
def userPadded : Base32Text where
  net := "cfx".toList
  field := none
  payload := "aak2rra2njvd77ezwjvx04kkds9fzagfe74xhf50p0".toList
  net_ok := .inl rfl
  field_ok := by decide
  length_payload := by decide
  payload_ok := forall_mem_of_all (by decide)

theorem userPadded_accepts : Accepts userPadded (userPadded.address 1029) where
  eq_address := rfl
  fieldMatches := .inl rfl
  check_eq := by set_option maxRecDepth 4096 in decide
  id_eq := rfl
  type_ne := by decide

/-- Two spellings of the same bytes on the same network, told apart by both
    comparisons. -/
theorem two_spellings_userPadded :
    ∃ a b, Parses "cfx:aak2rra2njvd77ezwjvx04kkds9fzagfe6ku8scz91".toList 1029 a ∧
      Parses "cfx:aak2rra2njvd77ezwjvx04kkds9fzagfe74xhf50p0".toList 1029 b ∧
      a.getHexAddress = b.getHexAddress ∧ a.getNetworkID = b.getNetworkID ∧
      a.getBase32Address ≠ b.getBase32Address ∧ a.eq b = false := by
  refine ⟨userText.address 1029, userPadded.address 1029,
    (parses_base32_iff userText (by decide) 1029 _).mpr userText_accepts,
    (parses_base32_iff userPadded (by decide) 1029 _).mpr userPadded_accepts, ?_, ?_, ?_, ?_⟩
  · decide
  · show NetworkType.toNetworkID ⟨userText.net⟩ = NetworkType.toNetworkID ⟨userPadded.net⟩
    rfl
  · set_option maxRecDepth 4096 in decide
  · set_option maxRecDepth 4096 in decide

end ConfluxSdk
