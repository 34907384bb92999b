import ConfluxSdk.Spec.AddressBytes

/-!
# Hex and base32 addresses

The text of an address built from bytes is of the base32 format, and parsing it
gives the address back. The way back needs that symbols and alphabet letters are
inverse to each other, that the network name is one the pattern admits, and that
everything printed is in lower case and fits the buffer.

## Key results

- `Body.ofString_bits5sToString`: symbols survive the alphabet
- `Address.Consistent.parses`: an address whose fields belong together is parsed
  back from its texts
- `hex_base32_roundTrip`: the round trip of an address given in hex
-/

namespace ConfluxSdk

open Radix (InBase)

/-! ### Symbols and letters -/

namespace Body

private theorem alphabetToIndex_getD : ∀ n, n < 32 →
    alphabetToIndex (alphabet.getD n '\x00') = UInt8.ofNat n := by decide

/-- The letter of a symbol. -/
theorem getD_alphabet_mem {n : Nat} (hn : n < 32) : alphabet.getD n '\x00' ∈ alphabet := by
  have hlen : alphabet.length = 32 := by decide
  rw [List.getD_eq_getElem _ _ (by omega)]
  exact List.getElem_mem _

/-- Symbols survive the alphabet. -/
theorem ofString_bits5sToString {data : ByteArr} (h : InBase 32 data) :
    ofString (bits5sToString data) = ⟨data⟩ := by
  rw [ofString, bits5sToString, List.map_map, Body.mk.injEq]
  conv => rhs; rw [← List.map_id data]
  apply List.map_congr_left
  intro d hd
  rw [Function.comp_apply, alphabetToIndex_getD _ (h d hd), UInt8.ofNat_toNat]
  rfl

theorem length_bits5sToString (data : ByteArr) : (bits5sToString data).length = data.length :=
  List.length_map _

theorem mem_alphabet_of_mem {data : ByteArr} (h : InBase 32 data) {c : Char}
    (hc : c ∈ bits5sToString data) : c ∈ alphabet := by
  obtain ⟨d, hd, rfl⟩ := List.mem_map.mp hc
  exact getD_alphabet_mem (h d hd)

end Body

theorem mem_wordChars_of_mem_alphabet {c : Char} (hc : c ∈ Body.alphabet) :
    c ∈ Regex.wordChars := by
  have hsub : Body.alphabet.all Regex.wordChars.elem = true := by decide
  exact List.elem_iff.mp (List.all_eq_true.mp hsub c hc)

theorem toLower_of_mem_alphabet {c : Char} (hc : c ∈ Body.alphabet) : c.toLower = c := by
  have hall : Body.alphabet.all (fun c => c.toLower == c) = true := by decide
  exact eq_of_beq (List.all_eq_true.mp hall c hc)

theorem mem_digits_of_isDigit {c : Char} (hc : c.isDigit = true) : c ∈ Regex.digits := by
  have hbound : 48 ≤ c.toNat ∧ c.toNat ≤ 57 := by
    rw [Char.isDigit, Bool.and_eq_true, decide_eq_true_eq, decide_eq_true_eq] at hc
    exact ⟨hc.1, hc.2⟩
  rw [← Char.ofNat_toNat c]
  generalize c.toNat = n at hbound
  obtain ⟨hlo, hhi⟩ := hbound
  interval_cases n <;> decide

/-! ### Texts of addresses -/

/-- The fields of an address belong together. -/
structure Address.Consistent (a : Address) : Prop where
  body : a.body.WellFormed
  hex_eq : a.hex = a.body.toHexAddress.2
  type_eq : a.addressType = calcAddressType a.hex
  checksum_eq : a.checksum = calcChecksum a.networkType a.body
  id_eq : a.networkType.toNetworkID = .ok a.networkID

namespace Address

/-- Body and checksum, as they are printed. -/
def payload (a : Address) : Str := a.body.string ++ Body.bits5sToString a.checksum

/-- What `GetBase32Address` prints into its buffer. -/
def text (a : Address) : Str := a.networkType.net_work_type_str ++ ":".toList ++ a.payload

/-- What `GetVerboseBase32Address` prints into its buffer. -/
def verboseText (a : Address) : Str :=
  a.networkType.net_work_type_str ++ ":".toList ++ (a.addressType.string ++ ":".toList) ++ a.payload

theorem getBase32Address_eq (a : Address) : a.getBase32Address = printBuffer a.text := by
  rw [getBase32Address, text, payload, List.append_assoc _ a.body.string]

theorem getVerboseBase32Address_eq (a : Address) :
    a.getVerboseBase32Address = printBuffer a.verboseText := by
  rw [getVerboseBase32Address, verboseText, payload]
  simp only [List.append_assoc]

variable {a : Address} (ha : a.Consistent)
include ha

theorem Consistent.inBase_checksum : InBase 32 a.checksum := by
  rw [ha.checksum_eq]
  exact inBase_calcChecksum _ ha.body.inBase

theorem Consistent.length_checksum : a.checksum.length = 8 := by
  rw [ha.checksum_eq, length_calcChecksum _ ha.body.inBase]

theorem Consistent.length_payload : a.payload.length = 42 := by
  rw [payload, List.length_append, Body.string, Body.length_bits5sToString,
    Body.length_bits5sToString, ha.body.length_eq, ha.length_checksum]

theorem Consistent.payload_mem {c : Char} (hc : c ∈ a.payload) : c ∈ Body.alphabet := by
  rcases List.mem_append.mp hc with hc | hc
  · exact Body.mem_alphabet_of_mem ha.body.inBase hc
  · exact Body.mem_alphabet_of_mem ha.inBase_checksum hc

end Address

/-- The parts of the text of an address, with or without the type field. -/
def Address.Consistent.base32Text {a : Address} (ha : a.Consistent)
    (hnet : IsNetName a.networkType.net_work_type_str) (field : Option AddressType)
    (hfield : field ≠ some .invalid) : Base32Text where
  net := a.networkType.net_work_type_str
  field := field
  payload := a.payload
  net_ok := hnet
  field_ok := hfield
  length_payload := ha.length_payload
  payload_ok := fun _ hc => mem_wordChars_of_mem_alphabet (ha.payload_mem hc)

theorem tolower_net {net : Str} (h : IsNetName net) : tolower_string net = net := by
  rcases h with rfl | rfl | ⟨ds, rfl, _, hall⟩
  · decide
  · decide
  · have hdigits : Regex.digits.all (fun c => c.toLower == c) = true := by decide
    rw [tolower_string_append, tolower_string_of_forall (s := ds)]
    · rfl
    · intro c hc
      exact eq_of_beq (List.all_eq_true.mp hdigits c (hall c hc))

/-- The text of a consistent address is accepted, and read as that address. -/
theorem Address.Consistent.accepts {a : Address} (ha : a.Consistent)
    (hvalid : a.addressType ≠ .invalid) (hnet : IsNetName a.networkType.net_work_type_str)
    (field : Option AddressType) (hfield : field = none ∨ field = some a.addressType)
    (hfield' : field ≠ some .invalid) : Accepts (ha.base32Text hnet field hfield') a := by
  -- The 34 symbols in front are the body, the rest is the checksum.
  have hbodyText : (ha.base32Text hnet field hfield').bodyText = a.body.string := by
    show (a.body.string ++ Body.bits5sToString a.checksum).take 34 = _
    apply List.take_left'
    rw [Body.string, Body.length_bits5sToString, ha.body.length_eq]
  have hcheckText : (ha.base32Text hnet field hfield').checkText =
      Body.bits5sToString a.checksum := by
    show (a.body.string ++ Body.bits5sToString a.checksum).drop 34 = _
    apply List.drop_left'
    rw [Body.string, Body.length_bits5sToString, ha.body.length_eq]
  have hbody : (ha.base32Text hnet field hfield').body = a.body := by
    rw [Base32Text.body, hbodyText, Body.string, Body.ofString_bits5sToString ha.body.inBase]
  have hhex : (ha.base32Text hnet field hfield').hex = a.hex := by
    rw [Base32Text.hex, hbody, ha.hex_eq]
  have htype : (ha.base32Text hnet field hfield').type = a.addressType := by
    rw [Base32Text.type, hhex, ha.type_eq]
  have hcheck : (ha.base32Text hnet field hfield').checksum = a.checksum := by
    rw [Base32Text.checksum, hbody, ha.checksum_eq]
    rfl
  refine ⟨?_, ?_, ?_, ha.id_eq, ?_⟩
  · rw [Base32Text.address, htype, hbody, hcheck, hhex]
    rfl
  · rw [Base32Text.fieldMatches, htype]
    exact hfield
  · rw [hcheck, hcheckText]
  · rw [htype]
    exact hvalid

theorem Address.Consistent.parses {a : Address} (ha : a.Consistent)
    (hvalid : a.addressType ≠ .invalid) (hnet : IsNetName a.networkType.net_work_type_str)
    (m : UInt32) : Parses a.text m a ∧ Parses a.verboseText m a := by
  have hlowPay : tolower_string a.payload = a.payload :=
    tolower_string_of_forall fun c hc => toLower_of_mem_alphabet (ha.payload_mem hc)
  constructor
  · refine (parses_base32_iff (ha.base32Text hnet none (by simp)) ?_ m a).mpr
      (ha.accepts hvalid hnet none (.inl rfl) (by simp))
    show tolower_string (_ ++ ":".toList ++ a.payload) = _ ++ ":".toList ++ [] ++ a.payload
    rw [tolower_string_append, tolower_string_append, tolower_net hnet, hlowPay, List.append_nil]
    rfl
  · have hsome : some a.addressType ≠ some .invalid := by simpa using hvalid
    refine (parses_base32_iff (ha.base32Text hnet (some a.addressType) hsome) ?_ m a).mpr
      (ha.accepts hvalid hnet _ (.inr rfl) hsome)
    show tolower_string (_ ++ ":".toList ++ (_ ++ ":".toList) ++ a.payload) =
      _ ++ ":".toList ++ (_ ++ ":".toList) ++ a.payload
    rw [tolower_string_append, tolower_string_append, tolower_string_append, tolower_string_append,
      tolower_net hnet, hlowPay, tolower_type_string]
    rfl

/-! ### Addresses from bytes -/

theorem Address.consistent_ofBytes {bytes : ByteArr} (h : bytes.length = 20) (id : UInt32) :
    (Address.ofBytes bytes id).Consistent where
  body := Body.wellFormed_ofBytes h
  hex_eq := (Body.toHexAddress_ofBytes h).symm
  type_eq := rfl
  checksum_eq := rfl
  id_eq := NetworkType.toNetworkID_ofID id

/-- The names of the networks below `2 ^ 31` have no sign, so the pattern admits
    them. -/
theorem NetworkType.isNetName_ofID {id : UInt32} (h : id.toNat < 2 ^ 31) :
    IsNetName (ofID id).net_work_type_str := by
  unfold ofID
  by_cases hmain : id = mainnetID
  · rw [if_pos hmain]
    exact .inl rfl
  by_cases htest : id = testnetID
  · rw [if_neg hmain, if_pos htest]
    exact .inr (.inl rfl)
  rw [if_neg hmain, if_neg htest, printInt, if_pos h]
  exact .inr (.inr ⟨to_string id.toNat, rfl, to_string_ne_nil _,
    fun c hc => mem_digits_of_isDigit (isDigit_of_mem_to_string hc)⟩)

theorem length_to_string_le {n : Nat} (h : n < 10 ^ 10) : (to_string n).length ≤ 10 :=
  Nat.length_toDigits_le_iff (by omega) (by omega) |>.mpr h

theorem NetworkType.length_ofID_le (id : UInt32) : (ofID id).net_work_type_str.length ≤ 14 := by
  have hlt := id.toNat_lt
  unfold ofID
  by_cases hmain : id = mainnetID
  · rw [if_pos hmain]
    decide
  by_cases htest : id = testnetID
  · rw [if_neg hmain, if_pos htest]
    decide
  rw [if_neg hmain, if_neg htest, List.length_append, printInt]
  show 3 + _ ≤ 14
  split
  · have := length_to_string_le (n := id.toNat) (by omega)
    omega
  · have := length_to_string_le (n := 2 ^ 32 - id.toNat) (by omega)
    rw [List.length_cons]
    omega

/-- The high nibble of a byte, as `CalcAddressType` takes it. -/
private theorem and_f0 (v : UInt8) : v &&& (0xf0 : UInt8) = v >>> 4 <<< 4 := by
  have hall : ∀ n, n < 256 → n &&& 240 = n >>> 4 <<< 4 % 256 := by decide +kernel
  apply UInt8.toNat_inj.mp
  rw [UInt8.toNat_and, UInt8.toNat_shiftLeft, UInt8.toNat_shiftRight]
  exact hall _ v.toNat_lt

theorem calcAddressType_ne_invalid {bytes : ByteArr}
    (h : bytes = List.replicate 20 0 ∨ bytes.headD 0 >>> 4 ∈ ([0x0, 0x1, 0x8] : List UInt8)) :
    calcAddressType bytes ≠ .invalid := by
  unfold calcAddressType
  split
  · decide
  · rename_i hzero
    rcases h with h | h
    · exact absurd (h.trans (by decide)) hzero
    · simp only [and_f0]
      generalize bytes.headD 0 >>> 4 = v at h
      fin_cases h <;> decide

/-! ### The round trip -/

theorem Address.printBuffer_text {a : Address} (ha : a.Consistent)
    (h : a.networkType.net_work_type_str.length ≤ 84) : a.getBase32Address = some a.text := by
  rw [getBase32Address_eq, printBuffer, if_pos]
  rw [text, List.length_append, List.length_append, ha.length_payload]
  show a.networkType.net_work_type_str.length + 1 + 42 + 1 ≤ 128
  omega

theorem AddressType.length_string_le (type : AddressType) : type.string.length ≤ 13 := by
  cases type <;> decide

theorem Address.printBuffer_verboseText {a : Address} (ha : a.Consistent)
    (h : a.networkType.net_work_type_str.length ≤ 70) :
    a.getVerboseBase32Address = some a.verboseText := by
  have htype := a.addressType.length_string_le
  rw [getVerboseBase32Address_eq, printBuffer, if_pos]
  simp only [verboseText, List.length_append, ha.length_payload]
  show a.networkType.net_work_type_str.length + 1 + (a.addressType.string.length + 1) + 42 + 1 ≤ 128
  omega

/-- An address given in hex, in any letter case, is valid, shows its bytes and its
    network id, and both of its base32 texts are parsed back to it. -/
theorem hex_base32_roundTrip {bytes : ByteArr} (hlen : bytes.length = 20)
    (htype : bytes = List.replicate 20 0 ∨ bytes.headD 0 >>> 4 ∈ ([0x0, 0x1, 0x8] : List UInt8))
    {networkID : UInt32} (hid : networkID.toNat < 2 ^ 31)
    {s : Str} (hs : tolower_string s = "0x".toList ++ Hex.encodeToString bytes) :
    ∃ a, Parses s networkID a ∧
      a.getHexAddress = "0x".toList ++ Hex.encodeToString bytes ∧
      a.getNetworkID = .ok networkID ∧
      ∃ base32 verbose, a.getBase32Address = some base32 ∧
        a.getVerboseBase32Address = some verbose ∧
        ∀ m, Parses base32 m a ∧ Parses verbose m a := by
  obtain ⟨hcount, hdigits⟩ := Hex.encodeToString_digits bytes
  have hvalid : (Address.ofBytes bytes networkID).addressType ≠ .invalid :=
    calcAddressType_ne_invalid htype
  have ha := Address.consistent_ofBytes hlen networkID
  have hshort := NetworkType.length_ofID_le networkID
  refine ⟨Address.ofBytes bytes networkID, ?_, rfl, ha.id_eq, _, _,
    Address.printBuffer_text ha (Nat.le_trans hshort (by decide)),
    Address.printBuffer_verboseText ha (Nat.le_trans hshort (by decide)),
    ha.parses hvalid (NetworkType.isNetName_ofID hid)⟩
  rw [parses_hex_iff hs (by rw [hcount, hlen]) hdigits, Hex.decodeString_encodeToString]
  exact ⟨rfl, hvalid⟩

/-- The contract of the documentation, with some of its letters in upper case. -/
theorem hex_base32_roundTrip_contract :
    ∃ a, Parses "0X85d80245dc02F5A89589e1F19C5c718E405b56cD".toList 1029 a ∧
      a.getHexAddress = "0x85d80245dc02f5a89589e1f19c5c718e405b56cd".toList ∧
      a.getNetworkID = .ok 1029 ∧
      ∃ base32 verbose, a.getBase32Address = some base32 ∧
        a.getVerboseBase32Address = some verbose ∧
        ∀ m, Parses base32 m a ∧ Parses verbose m a := by
  have hlen : (Hex.decodeString "85d80245dc02f5a89589e1f19c5c718e405b56cd".toList).length = 20 := by
    decide
  exact hex_base32_roundTrip hlen (.inr (by decide)) (by decide) (by decide)

end ConfluxSdk
