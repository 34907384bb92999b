import ConfluxSdk.Spec.AddressParse

/-!
# Addresses and their twenty bytes

Hex texts decode to bytes and back, the bytes go into the 34 symbols of a body and
come out again, and the constructor builds the same address from a hex text as
`Address.ofBytes` describes.

## Key results

- `Hex.decodeString_encodeToString`, `Hex.encodeToString_decodeString`
- `NetworkType.toNetworkID_ofID`: every network id is read back from its name
- `Body.toHexAddress_ofBytes`: the bytes of a body are those it was made from
- `parses_hex_iff`: the valid addresses built from hex texts
-/

namespace ConfluxSdk

open Radix (value InBase)

/-! ### Hex -/

namespace Hex

private theorem fromHexChar_hextable : ∀ n, n < 16 →
    fromHexChar (hextable.getD n ' ') = some (UInt8.ofNat n) := by decide

private theorem fromHexChar_of_mem {c : Char} (hc : c ∈ Regex.hexDigits) :
    ∃ n, n < 16 ∧ fromHexChar c = some (UInt8.ofNat n) ∧ hextable.getD n ' ' = c := by
  have hsub : Regex.hexDigits.all hextable.elem = true := by decide
  have hmem : c ∈ hextable := List.elem_iff.mp (List.all_eq_true.mp hsub c hc)
  obtain ⟨n, hn, hget⟩ := List.getElem_of_mem hmem
  have hgetD : hextable.getD n ' ' = c := by rw [List.getD_eq_getElem _ _ hn, hget]
  exact ⟨n, hn, hgetD ▸ fromHexChar_hextable n hn, hgetD⟩

private theorem nibbles_lt (v : UInt8) : (v >>> 4).toNat < 16 ∧ (v &&& 0x0f).toNat < 16 := by
  have hv := v.toNat_lt
  constructor
  · rw [UInt8.toNat_shiftRight]
    show v.toNat >>> 4 < 16
    rw [Nat.shiftRight_eq_div_pow]
    omega
  · rw [UInt8.toNat_and]
    exact Nat.lt_of_le_of_lt Nat.and_le_right (by decide)

/-- The byte of two hex digits. -/
private theorem toNat_byte {a b : Nat} (ha : a < 16) (hb : b < 16) :
    (UInt8.ofNat a <<< 4 ||| UInt8.ofNat b).toNat = a * 16 + b := by
  interval_cases a <;> interval_cases b <;> rfl

theorem decodeString_encodeToString (b : ByteArr) : decodeString (encodeToString b) = b := by
  induction b with
  | nil => rfl
  | cons v b ih =>
    obtain ⟨hhi, hlo⟩ := nibbles_lt v
    show decodeString (hextable.getD (v >>> 4).toNat ' ' :: hextable.getD (v &&& 0x0f).toNat ' ' ::
      encodeToString b) = v :: b
    rw [decodeString, fromHexChar_hextable _ hhi, fromHexChar_hextable _ hlo, ih]
    have hbyte : (UInt8.ofNat (v >>> 4).toNat <<< 4 ||| UInt8.ofNat (v &&& 0x0f).toNat) = v := by
      apply UInt8.toNat_inj.mp
      rw [toNat_byte hhi hlo, UInt8.toNat_and, UInt8.toNat_shiftRight]
      show v.toNat >>> 4 * 16 + (v.toNat &&& (2 ^ 4 - 1)) = v.toNat
      rw [Nat.and_two_pow_sub_one_eq_mod, Nat.shiftRight_eq_div_pow]
      omega
    simp only [hbyte]

/-- Lower-case hex texts of even length are written back from their bytes. -/
theorem encodeToString_decodeString {ds : Str} {n : Nat} (hlen : ds.length = 2 * n)
    (h : ∀ c ∈ ds, c ∈ Regex.hexDigits) :
    encodeToString (decodeString ds) = ds ∧ (decodeString ds).length = n := by
  induction n generalizing ds with
  | zero =>
    obtain rfl := List.length_eq_zero_iff.mp hlen
    exact ⟨rfl, rfl⟩
  | succ n ih =>
    rcases ds with _ | ⟨c, _ | ⟨d, ds⟩⟩
    · cases hlen
    · simp only [List.length_cons, List.length_nil] at hlen
      omega
    · rw [List.forall_mem_cons, List.forall_mem_cons] at h
      obtain ⟨a, ha, hca, hac⟩ := fromHexChar_of_mem h.1
      obtain ⟨b, hb, hdb, hbd⟩ := fromHexChar_of_mem h.2.1
      have hshort : ds.length = 2 * n := by
        simp only [List.length_cons] at hlen
        omega
      obtain ⟨hback, hcount⟩ := ih hshort h.2.2
      have hv := toNat_byte ha hb
      have hdec : decodeString (c :: d :: ds) =
          (UInt8.ofNat a <<< 4 ||| UInt8.ofNat b) :: decodeString ds := by
        rw [decodeString, hca, hdb]
      generalize UInt8.ofNat a <<< 4 ||| UInt8.ofNat b = v at hdec hv
      -- The two nibbles of the byte are the digits it was made of.
      have hhi : (v >>> 4).toNat = a := by
        rw [UInt8.toNat_shiftRight]
        show v.toNat >>> 4 = a
        rw [Nat.shiftRight_eq_div_pow]
        omega
      have hlo : (v &&& 0x0f).toNat = b := by
        rw [UInt8.toNat_and]
        show v.toNat &&& (2 ^ 4 - 1) = b
        rw [Nat.and_two_pow_sub_one_eq_mod]
        omega
      rw [hdec]
      refine ⟨?_, by rw [List.length_cons, hcount]⟩
      show [hextable.getD (v >>> 4).toNat ' ', hextable.getD (v &&& 0x0f).toNat ' '] ++
        encodeToString (decodeString ds) = _
      rw [hhi, hlo, hac, hbd, hback]
      rfl

private theorem hextable_getD_mem : ∀ n, n < 16 →
    hextable.getD n ' ' ∈ Regex.hexDigits := by decide

/-- Bytes are written with two lower-case digits each. -/
theorem encodeToString_digits (b : ByteArr) :
    (encodeToString b).length = 2 * b.length ∧ ∀ c ∈ encodeToString b, c ∈ Regex.hexDigits := by
  induction b with
  | nil => exact ⟨rfl, fun c hc => absurd hc (List.not_mem_nil)⟩
  | cons v b ih =>
    obtain ⟨hhi, hlo⟩ := nibbles_lt v
    have hcons : encodeToString (v :: b) = hextable.getD (v >>> 4).toNat ' ' ::
      hextable.getD (v &&& 0x0f).toNat ' ' :: encodeToString b := rfl
    rw [hcons]
    constructor
    · simp only [List.length_cons, ih.1]
      omega
    · rw [List.forall_mem_cons, List.forall_mem_cons]
      exact ⟨hextable_getD_mem _ hhi, hextable_getD_mem _ hlo, ih.2⟩

theorem encodeToString_inj {b b' : ByteArr} (h : encodeToString b = encodeToString b') : b = b' := by
  rw [← decodeString_encodeToString b, h, decodeString_encodeToString]

end Hex

/-! ### Network names -/

namespace NetworkType

private theorem printInt_ne (id : UInt32) (s : Str) (hs : ¬ "net".toList.isPrefixOf s = true) :
    s ≠ "net".toList ++ printInt id := by
  rintro rfl
  exact hs (List.isPrefixOf_iff_prefix.mpr (List.prefix_append _ _))

theorem stoi_printInt (id : UInt32) :
    ∃ v, stoi (printInt id) = .ok v ∧ UInt32.ofInt v = id := by
  have hlt := id.toNat_lt
  rw [printInt]
  by_cases hsmall : id.toNat < 2 ^ 31
  · refine ⟨id.toNat, ?_, ?_⟩
    · rw [if_pos hsmall, stoi_to_string hsmall]
    · apply UInt32.toNat_inj.mp
      rw [UInt32.ofInt, UInt32.toNat_ofNat']
      omega
  · refine ⟨-((2 ^ 32 - id.toNat : Nat) : Int), ?_, ?_⟩
    · rw [if_neg hsmall, stoi_neg_to_string (by omega)]
    · apply UInt32.toNat_inj.mp
      rw [UInt32.ofInt, UInt32.toNat_ofNat']
      omega

/-- Every network id is read back from the name made for it. -/
theorem toNetworkID_ofID (id : UInt32) : (ofID id).toNetworkID = .ok id := by
  by_cases hmain : id = mainnetID
  · rw [ofID, if_pos hmain, hmain]
    rfl
  by_cases htest : id = testnetID
  · rw [ofID, if_neg hmain, if_pos htest, htest]
    rfl
  obtain ⟨v, hv, hid⟩ := stoi_printInt id
  rw [ofID, if_neg hmain, if_neg htest, toNetworkID, if_neg (printInt_ne id _ (by decide)),
    if_neg (printInt_ne id _ (by decide)), getIDWhenBeginWithNet]
  have htake : ("net".toList ++ printInt id).take 3 = "net".toList := rfl
  have hdrop : ("net".toList ++ printInt id).drop 3 = printInt id := rfl
  rw [if_neg (by simp), if_neg (not_not.mpr htake), hdrop, hv]
  show Except.ok (UInt32.ofInt v) = _
  rw [hid]

end NetworkType

/-! ### Bodies -/

namespace Body

/-- A body as the constructor makes it: 34 symbols. -/
structure WellFormed (b : Body) : Prop where
  length_eq : b.body.length = 34
  inBase : InBase 32 b.body

theorem WellFormed.bytes {b : Body} (h : b.WellFormed) :
    convert b.body 5 8 = BigEndian.fixed 21 (value 32 b.body / 4) :=
  convert_symbols h.inBase h.length_eq

theorem WellFormed.length_hex {b : Body} (h : b.WellFormed) : b.toHexAddress.2.length = 20 := by
  rw [toHexAddress, h.bytes, List.length_tail, BigEndian.length_fixed]

theorem calcVersionByte_toByte {bytes : ByteArr} (h : bytes.length = 20) :
    (calcVersionByte bytes).toByte = 0 := by
  rw [calcVersionByte, h]
  decide

section OfBytes

variable {bytes : ByteArr} (h : bytes.length = 20)
include h

theorem ofBytes_body :
    (ofBytes (calcVersionByte bytes) bytes).body =
      Radix.fixed 32 34 (BigEndian.toNat bytes * 4) := by
  show convert ((calcVersionByte bytes).toByte :: bytes) 8 5 = _
  rw [calcVersionByte_toByte h, convert_bytes (by rw [List.length_cons, h]), BigEndian.toNat_cons,
    UInt8.toNat_zero, Nat.zero_mul, Nat.zero_add]

theorem wellFormed_ofBytes : (ofBytes (calcVersionByte bytes) bytes).WellFormed := by
  refine ⟨?_, ?_⟩
  · rw [ofBytes_body h, Radix.length_fixed]
  · rw [ofBytes_body h]
    exact Radix.inBase_fixed (by decide) (by decide) _ _

/-- The symbols spell the number of the bytes and two zero bits. -/
theorem value_ofBytes : value 32 (ofBytes (calcVersionByte bytes) bytes).body =
    BigEndian.toNat bytes * 4 := by
  have hlt := BigEndian.toNat_lt bytes
  rw [h] at hlt
  have hroom : (256 : Nat) ^ 20 * 4 ≤ 32 ^ 34 := by decide
  rw [ofBytes_body h]
  exact Radix.value_fixed_of_lt (by decide) (by decide) (by omega)

/-- The bytes of a body are those it was made from. -/
theorem toHexAddress_ofBytes : (ofBytes (calcVersionByte bytes) bytes).toHexAddress.2 = bytes := by
  rw [toHexAddress, (wellFormed_ofBytes h).bytes, value_ofBytes h,
    Nat.mul_div_cancel _ (by decide)]
  -- The first of the 21 bytes is the version byte.
  have hsplit : BigEndian.fixed 21 (BigEndian.toNat bytes) =
      BigEndian.fixed 1 (BigEndian.toNat bytes / 256 ^ 20) ++
        BigEndian.fixed 20 (BigEndian.toNat bytes) := Radix.fixed_add 1 20 _
  have hback := BigEndian.fixed_toNat bytes
  rw [h] at hback
  rw [hsplit, hback]
  rfl

end OfBytes

end Body

/-! ### Addresses from hex texts -/

/-- What `NewFromBytes` builds. -/
def Address.ofBytes (bytes : ByteArr) (networkID : UInt32) : Address :=
  let body := Body.ofBytes (calcVersionByte bytes) bytes
  { networkType := .ofID networkID
    addressType := calcAddressType bytes
    body := body
    checksum := calcChecksum (.ofID networkID) body
    hex := bytes
    networkID := networkID }

/-- The constructor on a hex text. -/
theorem construct_hex {s ds : Str} (hs : tolower_string s = "0x".toList ++ ds)
    (hlen : ds.length = 40) (hds : ∀ c ∈ ds, c ∈ Regex.hexDigits) (networkID : UInt32) :
    Address.construct s networkID = .ok (Address.ofBytes (Hex.decodeString ds) networkID) := by
  have hhex : Regex.regex_match ("0x".toList ++ ds) Regex.hexPattern = true :=
    (regex_match_hexPattern _).mpr ⟨ds, rfl, hlen, hds⟩
  have hbytes := (Hex.encodeToString_decodeString (n := 20) hlen hds).2
  have hstarts : starts_with ("0x".toList ++ ds) "0x".toList = true :=
    List.isPrefixOf_iff_prefix.mpr (List.prefix_append _ _)
  have hdrop : ("0x".toList ++ ds).drop 2 = ds := rfl
  rw [Address.construct, Address.new]
  simp only [hs, if_pos hhex, Address.newFromHex, hstarts, hdrop, Address.newFromBytes,
    Address.setCache, NetworkType.toNetworkID_ofID, bind, Except.bind, Bool.not_true,
    Bool.false_eq_true, if_false, Body.toHexAddress_ofBytes hbytes]
  rfl

/-- The valid addresses built from hex texts. -/
theorem parses_hex_iff {s ds : Str} (hs : tolower_string s = "0x".toList ++ ds)
    (hlen : ds.length = 40) (hds : ∀ c ∈ ds, c ∈ Regex.hexDigits) (networkID : UInt32)
    (a : Address) :
    Parses s networkID a ↔
      a = Address.ofBytes (Hex.decodeString ds) networkID ∧ a.addressType ≠ .invalid := by
  rw [Parses, construct_hex hs hlen hds, Address.isValid_iff]
  constructor
  · rintro ⟨h, hvalid⟩
    obtain rfl := Except.ok.inj h
    exact ⟨rfl, hvalid⟩
  · rintro ⟨rfl, hvalid⟩
    exact ⟨rfl, hvalid⟩

end ConfluxSdk
