import ConfluxSdk.Native.RpcReplies
import ConfluxSdk.Spec.AddressBytes
import ConfluxSdk.Spec.BoostNumbers
import ConfluxSdk.Spec.QuantityText
import ConfluxSdk.Spec.TransactionRlp

/-!
# The signature of a transaction

The components `r` and `s` are numbers, and the node writes them without zeros in front.
They are read like hashes, whose constructor fills with zeros unless the text has the bytes
of the hash: a shorter quantity is lost as a whole.

## Key results

- `Dev.jsToFixed_hex`: what is read from texts of hexadecimal digits
- `Dev.jsToFixed_toJS`: what is read from quantities
- `TransactionByHashResult.signature_exact_iff`: the components that are read exactly
-/

namespace ConfluxSdk

namespace FixedHash

/-- Bytes of another size give no hash but zero. -/
theorem ofBytes_eq (n : Nat) (b : List UInt8) :
    ofBytes n b = if b.length = n then ofNat n (BigEndian.toNat b) else zero n := by
  unfold ofBytes
  by_cases h : b.length = n
  · rw [dif_pos h, if_pos h]
    apply eq_of_bytes
    show b = BigEndian.fixed n (BigEndian.toNat b)
    rw [← h, BigEndian.fixed_toNat]
  · rw [dif_neg h, if_neg h]

theorem toArith_ofNat {n v : Nat} (h : v < 256 ^ n) : (ofNat n v).toArith = v := by
  rw [toArith_eq]
  exact BigEndian.toNat_fixed_of_lt h

theorem toArith_zero (n : Nat) : (zero n).toArith = 0 := by
  have hzero : BigEndian.toNat (List.replicate n 0 ++ []) = BigEndian.toNat [] :=
    BigEndian.toNat_replicate_zero_append n []
  rw [List.append_nil] at hzero
  rw [toArith_eq]
  exact hzero

end FixedHash

namespace Dev

/-- Hexadecimal texts that are not cropped are read as the number they spell if they have the
    digits of all bytes, where the first digit may be missing. -/
theorem jsToFixed_hex (boost : Boost) {N : Nat} {ds : Str} (hds : IsHexText ds)
    (hlen : ds.length ≤ N * 2) :
    jsToFixed boost N ("0x".toList ++ ds) =
      some (if (ds.length + 1) / 2 = N then .ofNat N (digitsValue 16 ds) else .zero N) := by
  obtain ⟨bytes, hbytes, hcount, hvalue⟩ := fromHex_hex hds
  have htake : ("0x".toList ++ ds).take 2 = "0x".toList := rfl
  have hsize : ("0x".toList ++ ds).length = ds.length + 2 := rfl
  -- Nothing is cropped from a text that is not too long.
  have hcrop : 2 + max (N * 2) ((ds.length + 2 - 2) % 2 ^ 32) - N * 2 = 2 := by
    have hmod := Nat.mod_le (ds.length + 2 - 2) (2 ^ 32)
    omega
  have hdrop : ("0x".toList ++ ds).drop 2 = ds := rfl
  rw [jsToFixed, if_pos htake, hsize, hcrop, hdrop, FixedHash.ofHex, hbytes, Option.map_some,
    FixedHash.ofBytes_eq, hcount, hvalue]

/-- A quantity has the digits of 32 bytes from 2^248 on. -/
theorem jsToFixed_toJS (boost : Boost) (n : U256) :
    jsToFixed boost 32 (toJS n) = some (if 2 ^ 248 ≤ n.val then .ofNat 32 n else .zero 32) := by
  have hlong : (Nat.toDigits 16 n.val).length ≤ 64 := by
    rw [Nat.length_toDigits_le_iff (by decide) (by decide)]
    exact n.isLt
  have hshort : (Nat.toDigits 16 n.val).length ≤ 62 ↔ n.val < 2 ^ 248 := by
    rw [Nat.length_toDigits_le_iff (by decide) (by decide)]
    norm_num
  have hiff : ((Nat.toDigits 16 n.val).length + 1) / 2 = 32 ↔ 2 ^ 248 ≤ n.val := by omega
  rw [toJS_eq, jsToFixed_hex boost (isHexText_toDigits n) hlong, digitsValue_toDigits]
  simp only [hiff]

end Dev

namespace TransactionByHashResult

variable {boost : Boost} {js : JsonMembers} {this : TransactionByHashResult}

/-- A component that the node reports as a quantity. -/
theorem readComponent_exact_iff {mem : Str} {v h : FixedHash 32} {n : U256}
    (hmem : jsStringValue js mem = some (Dev.toJS n))
    (hread : readComponent boost js mem v = some h) :
    h.toArith = n ↔ n = 0 ∨ 2 ^ 248 ≤ n.val := by
  simp only [readComponent, hmem, Dev.jsToFixed_toJS] at hread
  obtain rfl := Option.some.inj hread
  split
  · -- The text has the digits of 32 bytes.
    rename_i hlong
    rw [FixedHash.toArith_ofNat (by omega)]
    exact iff_of_true rfl (.inr hlong)
  · rename_i hlong
    -- A shorter text is read as zero, which is right for zero only.
    rw [FixedHash.toArith_zero, Fin.ext_iff]
    show 0 = n.val ↔ n.val = 0 ∨ _
    omega

/-- An object that was read took the components from their members. -/
theorem components_of_fromJson {ok : Bool} {res : TransactionByHashResult}
    (h : fromJson boost this (some js) = some (ok, res)) :
    ∃ sig : SignatureStruct,
      readComponent boost js "r".toList sig.r = some res.signature.r ∧
        readComponent boost js "s".toList sig.s = some res.signature.s := by
  simp only [fromJson, readSignature, Option.bind_eq_bind, Option.bind_eq_some_iff] at h
  obtain ⟨_, -, _, -, _, -, sig, ⟨r, hr, s, hs, hsig⟩, hres⟩ := h
  obtain rfl := (Prod.mk.inj (Option.some.inj hres)).2
  obtain rfl := Option.some.inj hsig
  exact ⟨_, hr, hs⟩

/-- An object is read when its parts are. -/
theorem fromJson_of_parts {origin receiver content : TransactionByHashResult}
    {sig : SignatureStruct} (horigin : readOrigin boost js this = some origin)
    (hto : readTo js origin = some receiver)
    (hcontent : readContent boost js receiver = some content)
    (hsig : readSignature boost js { content with status := readStatus js } = some sig) :
    fromJson boost this (some js) =
      some (true, { content with status := readStatus js, signature := sig }) := by
  simp only [fromJson, horigin, hto, hcontent, hsig, Option.bind_eq_bind, Option.bind_some]

/-- A component reported as the quantity `n` is read exactly when `n` is zero or has 32
    bytes. -/
theorem signature_exact_iff {ok : Bool} {res : TransactionByHashResult}
    (h : fromJson boost this (some js) = some (ok, res)) (n : U256) :
    (jsStringValue js "r".toList = some (Dev.toJS n) →
        (res.signature.r.toArith = n ↔ n = 0 ∨ 2 ^ 248 ≤ n.val)) ∧
      (jsStringValue js "s".toList = some (Dev.toJS n) →
        (res.signature.s.toArith = n ↔ n = 0 ∨ 2 ^ 248 ≤ n.val)) := by
  obtain ⟨sig, hr, hs⟩ := components_of_fromJson h
  exact ⟨fun hmem => readComponent_exact_iff hmem hr, fun hmem => readComponent_exact_iff hmem hs⟩

/-! ### A reply with a signature -/

theorem nullAddress_ok (networkID : UInt32) : ∃ a, Address.nullAddress networkID = .ok a := by
  have hall : "0000000000000000000000000000000000000000".toList.all Regex.hexDigits.elem = true := by
    decide
  have hdigits : ∀ c ∈ "0000000000000000000000000000000000000000".toList, c ∈ Regex.hexDigits :=
    fun c hc => List.elem_iff.mp (List.all_eq_true.mp hall c hc)
  exact ⟨_, construct_hex (by decide) (by decide) hdigits networkID⟩

/-- A reply that reports only a signature. -/
def signatureReply (r s : U256) : JsonMembers :=
  [("r".toList, .stringValue (Dev.toJS r)), ("s".toList, .stringValue (Dev.toJS s))]

/-- An object to read a reply into. -/
def blankResult : TransactionByHashResult where
  hash := .zero 32
  nonce := 0
  blockHash := .zero 32
  transactionIndex := Invalid256
  fromAddr := Address.default
  toAddr := Address.default
  value := 0
  gasPrice := 0
  gas := 0
  contractCreated := Address.default
  data := []
  storageLimit := 0
  epochHeight := 0
  chainId := 1
  status := .skippedOrNotPacked
  signature := ⟨.zero 32, .zero 32, 0⟩

theorem signatureReply_r (r s : U256) :
    jsStringValue (signatureReply r s) "r".toList = some (Dev.toJS r) := rfl

theorem signatureReply_s (r s : U256) :
    jsStringValue (signatureReply r s) "s".toList = some (Dev.toJS s) := rfl

/-- The members that are not in the reply. -/
theorem signatureReply_other (r s : U256) {mem : Str} (hr : (mem == "r".toList) = false)
    (hs : (mem == "s".toList) = false) : jsStringValue (signatureReply r s) mem = none := by
  simp only [jsStringValue, signatureReply, List.lookup, hr, hs]

theorem readOrigin_signatureReply (boost : Boost) (this : TransactionByHashResult) (r s : U256) :
    readOrigin boost (signatureReply r s) this = some this := by
  have hmiss := @signatureReply_other r s
  simp only [readOrigin, jsMem2Hash, jsMem2U256, jsMem2CfxAddress, jsMem2Uint64,
    @hmiss "hash".toList rfl rfl, @hmiss "nonce".toList rfl rfl, @hmiss "blockHash".toList rfl rfl,
    @hmiss "transactionIndex".toList rfl rfl, @hmiss "from".toList rfl rfl,
    @hmiss "chainId".toList rfl rfl]
  rfl

/-- The receiver is the null address. -/
theorem readTo_signatureReply (this : TransactionByHashResult) (r s : U256) :
    ∃ toAddr, readTo (signatureReply r s) this = some { this with toAddr } := by
  obtain ⟨a, ha⟩ := nullAddress_ok (UInt32.ofNat this.chainId)
  have hmiss := @signatureReply_other r s
  refine ⟨a, ?_⟩
  simp only [readTo, jsMem2CfxAddress, @hmiss "to".toList rfl rfl, Option.bind_eq_bind,
    Option.bind_some, Bool.false_eq_true, if_false, ha]
  rfl

theorem readContent_signatureReply (boost : Boost) (this : TransactionByHashResult)
    (r s : U256) : readContent boost (signatureReply r s) this =
      some { this with contractCreated := Address.invaildAddress } := by
  have hmiss := @signatureReply_other r s
  simp only [readContent, jsMem2U256, jsMem2CfxAddress, jsMem2Bytes,
    @hmiss "value".toList rfl rfl, @hmiss "gasPrice".toList rfl rfl, @hmiss "gas".toList rfl rfl,
    @hmiss "contractCreated".toList rfl rfl, @hmiss "data".toList rfl rfl,
    @hmiss "storageLimit".toList rfl rfl, @hmiss "epochHeight".toList rfl rfl]
  rfl

theorem readSignature_signatureReply (boost : Boost) (this : TransactionByHashResult)
    (r s : U256) : ∃ sig, readSignature boost (signatureReply r s) this = some sig := by
  have hr : readComponent boost (signatureReply r s) "r".toList this.signature.r =
      Dev.jsToFixed boost 32 (Dev.toJS r) := rfl
  have hs : readComponent boost (signatureReply r s) "s".toList this.signature.s =
      Dev.jsToFixed boost 32 (Dev.toJS s) := rfl
  rw [readSignature, hr, hs, Dev.jsToFixed_toJS, Dev.jsToFixed_toJS]
  exact ⟨_, rfl⟩

/-- The reply is read, whatever the quantities are. -/
theorem fromJson_signatureReply (boost : Boost) (this : TransactionByHashResult) (r s : U256) :
    ∃ res, fromJson boost this (some (signatureReply r s)) = some (true, res) := by
  have horigin := readOrigin_signatureReply boost this r s
  obtain ⟨toAddr, hto⟩ := readTo_signatureReply this r s
  have hcontent := readContent_signatureReply boost { this with toAddr } r s
  obtain ⟨sig, hsig⟩ := readSignature_signatureReply boost _ r s
  exact ⟨_, fromJson_of_parts horigin hto hcontent hsig⟩

/-- A component with a bit in its first byte. -/
theorem signature_exact_twoPow255 :
    ∃ res, fromJson .reader blankResult (some (signatureReply ⟨2 ^ 255, by decide⟩ 0)) =
        some (true, res) ∧
      res.signature.r.toArith = 2 ^ 255 ∧ res.signature.s.toArith = 0 := by
  obtain ⟨res, hres⟩ := fromJson_signatureReply .reader blankResult ⟨2 ^ 255, by decide⟩ 0
  have hr := (signature_exact_iff hres ⟨2 ^ 255, by decide⟩).1 (signatureReply_r _ _)
  have hs := (signature_exact_iff hres 0).2 (signatureReply_s _ _)
  exact ⟨res, hres, hr.mpr (.inr (by decide)), hs.mpr (.inl rfl)⟩

/-- A component of one is read as zero. -/
theorem signature_loses_one :
    ∃ res, fromJson .reader blankResult (some (signatureReply 1 1)) = some (true, res) ∧
      res.signature.r.toArith ≠ 1 ∧ res.signature.s.toArith ≠ 1 := by
  obtain ⟨res, hres⟩ := fromJson_signatureReply .reader blankResult 1 1
  obtain ⟨sig, hr, hs⟩ := components_of_fromJson hres
  have hr' := readComponent_exact_iff (signatureReply_r 1 1) hr
  have hs' := readComponent_exact_iff (signatureReply_s 1 1) hs
  have hshort : ¬ ((1 : U256) = 0 ∨ 2 ^ 248 ≤ (1 : U256).val) := by decide
  exact ⟨res, hres, fun h => hshort (hr'.mp h), fun h => hshort (hs'.mp h)⟩

end TransactionByHashResult

end ConfluxSdk
