import ConfluxSdk.Native.TransactionBase
import ConfluxSdk.Spec.RlpReadCorrect
import ConfluxSdk.Spec.RlpWriteCorrect

/-!
# The RLP stream of a transaction

A transaction is streamed as the list of its nine fields, and with its signature as
the list of that list and the three numbers of the signature. The reader gets every
field back, in whatever order the items are accessed, so the stream that is signed
determines the fields.

## Key results

- `TransactionBase.streamRLP_unsigned`, `TransactionBase.streamRLP_signed`: the stream
  is the encoding of an item, with a complete list stack
- `readsFields_unsignedItem`: the nine fields are read back
- `streamRLP_roundTrip`: the round trip, and that the signed payload determines the
  fields
-/

namespace ConfluxSdk

open LengthPrefix

/-! ### The items of a transaction -/

/-- A number, as the shortest string for it. -/
def numberItem (n : Nat) : Item := .data (BigEndian.ofNat n)

namespace TransactionBase

/-- The receive address as it is streamed: the empty string unless the transaction is
    a message call. -/
def receiveField (t : TransactionBase) : List UInt8 :=
  if t.m_type = .messageCall then t.m_receiveAddress.bytes else []

/-- The nine fields. -/
def fieldItems (t : TransactionBase) : List Item :=
  [numberItem t.m_nonce, numberItem t.m_gasPrice, numberItem t.m_gas, .data t.receiveField,
    numberItem t.m_value, numberItem t.m_storageLimit, numberItem t.m_epochHeight,
    numberItem t.m_chainId, .data t.m_data.toList]

/-- What is signed. -/
def unsignedItem (t : TransactionBase) : Item := .list t.fieldItems

/-- The items of a signed transaction. -/
def signedItems (t : TransactionBase) (vrs : SignatureStruct) : List Item :=
  [t.unsignedItem, numberItem vrs.v.toNat, numberItem vrs.r.toArith, numberItem vrs.s.toArith]

end TransactionBase

/-! ### Sizes -/

theorem length_ofNat_u256 {n : Nat} (h : n < 2 ^ 256) : (BigEndian.ofNat n).length ≤ 32 := by
  rw [BigEndian.length_ofNat_le_iff]
  exact h

theorem length_numberItem {n : Nat} (h : n < 2 ^ 256) : (numberItem n).encode.length ≤ 34 := by
  have hle := length_ofNat_u256 h
  have hlen : (numberItem n).encode.length ≤ 1 + 1 + (BigEndian.ofNat n).length :=
    length_data_encode_le (by omega)
  omega

theorem FixedHash.toArith_eq {n : Nat} (h : FixedHash n) :
    h.toArith = BigEndian.toNat h.bytes :=
  RLP.fromBigEndian_eq (Nat.le_of_eq h.size_eq)

theorem FixedHash.toArith_lt (h : FixedHash 32) : h.toArith < 2 ^ 256 := by
  have hlt := BigEndian.toNat_lt h.bytes
  rw [h.size_eq] at hlt
  rw [h.toArith_eq]
  exact hlt

namespace TransactionBase

variable (t : TransactionBase)

theorem length_receiveField : t.receiveField.length ≤ 20 := by
  unfold receiveField
  split
  · rw [t.m_receiveAddress.size_eq]
  · decide

theorem length_unsignedItem : t.unsignedItem.encode.length < 2 ^ 63 + 300 := by
  have hnonce := length_numberItem t.m_nonce.isLt
  have hgasPrice := length_numberItem t.m_gasPrice.isLt
  have hgas := length_numberItem t.m_gas.isLt
  have hvalue := length_numberItem t.m_value.isLt
  have hstorage := length_numberItem t.m_storageLimit.isLt
  have hepoch := length_numberItem t.m_epochHeight.isLt
  have hchain := length_numberItem t.m_chainId.isLt
  have hto := t.length_receiveField
  have hreceive : (Item.data t.receiveField).encode.length ≤ 1 + 1 + t.receiveField.length :=
    length_data_encode_le (by omega)
  have hdataLt := t.m_data.size_lt
  have hdata : (Item.data t.m_data.toList).encode.length ≤ 8 + 1 + t.m_data.toList.length :=
    length_data_encode_le (by
      show _ < 2 ^ 64
      omega)
  have hpayload : (encodeAll t.fieldItems).length < 2 ^ 63 + 290 := by
    simp only [fieldItems, encodeAll_cons, encodeAll_nil, List.append_nil, List.length_append]
    omega
  have hheader : (header 0xc0 (encodeAll t.fieldItems).length).length ≤ 8 + 1 :=
    length_header_le (by
      show _ < 2 ^ 64
      omega)
  rw [unsignedItem, encode_list, List.length_append]
  omega

theorem length_signedItem (vrs : SignatureStruct) :
    (Item.list (t.signedItems vrs)).encode.length < 2 ^ 63 + 450 := by
  have hunsigned := t.length_unsignedItem
  have hv := length_numberItem (Nat.lt_trans vrs.v.toNat_lt (by decide))
  have hr := length_numberItem vrs.r.toArith_lt
  have hs := length_numberItem vrs.s.toArith_lt
  have hpayload : (encodeAll (t.signedItems vrs)).length < 2 ^ 63 + 440 := by
    simp only [signedItems, encodeAll_cons, encodeAll_nil, List.append_nil, List.length_append]
    omega
  have hheader : (header 0xc0 (encodeAll (t.signedItems vrs)).length).length ≤ 8 + 1 :=
    length_header_le (by
      show _ < 2 ^ 64
      omega)
  rw [encode_list, List.length_append]
  omega

/-! ### The stream -/

theorem appendInt_numberItem (s : RLPStream) {n : Nat} (h : n < 2 ^ 256) :
    s.appendInt n = RLPStream.appendItem (numberItem n) s := by
  have hle := length_ofNat_u256 h
  rw [numberItem, RLPStream.appendItem, RLPStream.appendInt_eq s (by omega)]

private theorem bind_ok_eq (x : Except RlpError RLPStream) : (x >>= fun s => .ok s) = x := by
  cases x <;> rfl

private theorem mapError_bind {α β : Type} (x : Except RlpError α) (f : α → Except RlpError β) :
    (x >>= f).mapError TransactionError.rlp =
      x.mapError .rlp >>= fun a => (f a).mapError .rlp := by
  cases x <;> rfl

/-- The calls of `streamRLP` append the nine fields as a list. -/
theorem streamFields_eq (s : RLPStream) :
    t.streamFields s = RLPStream.appendItem t.unsignedItem s := by
  have hdata : (if t.m_data.toList = [] then [] else t.m_data.toList) = t.m_data.toList := by
    split
    · rename_i hempty
      rw [hempty]
    · rfl
  have happend : ∀ (s : RLPStream) b, s.append b false = RLPStream.appendItem (.data b) s := by
    intro s b
    rw [RLPStream.appendItem]
  unfold streamFields
  rw [hdata, unsignedItem, RLPStream.appendItem, fieldItems]
  simp only [appendInt_numberItem _ (Fin.isLt _), happend, RLPStream.appendItems, bind_ok_eq]
  rfl

theorem streamSignature_eq (vrs : SignatureStruct) (s : RLPStream) :
    streamSignature vrs s = RLPStream.appendItems [numberItem vrs.v.toNat,
      numberItem vrs.r.toArith, numberItem vrs.s.toArith] s := by
  have hv : vrs.v.toNat < 2 ^ 256 := Nat.lt_trans vrs.v.toNat_lt (by decide)
  unfold streamSignature
  simp only [appendInt_numberItem _ hv, appendInt_numberItem _ vrs.r.toArith_lt,
    appendInt_numberItem _ vrs.s.toArith_lt, RLPStream.appendItems, bind_ok_eq]

/-- The stream that is signed. -/
theorem streamRLP_unsigned :
    t.streamRLP .empty .withoutSignature = .ok ⟨t.unsignedItem.encode, []⟩ := by
  have hlen := t.length_unsignedItem
  rw [streamRLP, streamFields_eq, RLPStream.appendItem_empty _ (by omega)]
  rfl

theorem rlp_unsigned : t.rlp .withoutSignature = .ok t.unsignedItem.encode := by
  rw [rlp, streamRLP_unsigned]
  rfl

/-- The stream with the signature. -/
theorem streamRLP_signed {vrs : SignatureStruct} (h : t.m_vrs = some vrs) :
    t.streamRLP .empty .withSignature = .ok ⟨(Item.list (t.signedItems vrs)).encode, []⟩ := by
  have hlen := t.length_signedItem vrs
  have hstream : t.streamRLP .empty .withSignature =
      (RLPStream.appendItem (Item.list (t.signedItems vrs)) .empty).mapError .rlp := by
    rw [RLPStream.appendItem, mapError_bind, streamRLP, h]
    simp only [signedItems, RLPStream.appendItems, mapError_bind, streamFields_eq,
      streamSignature_eq]
    rfl
  rw [hstream, RLPStream.appendItem_empty _ (by omega)]
  rfl

theorem rlp_signed {vrs : SignatureStruct} (h : t.m_vrs = some vrs) :
    t.rlp .withSignature = .ok (Item.list (t.signedItems vrs)).encode := by
  rw [rlp, streamRLP_signed t h]
  rfl

end TransactionBase

/-! ### Reading back -/

namespace RLP

/-- Some accesses, one after the other; only the cache they leave behind is kept. -/
def accesses : List Nat → RLP → Except RlpError RLP
  | [], r => .ok r
  | i :: is, r => do
    let (_, r) ← r.getItem i
    accesses is r

variable (r : RLP)

/-- An item that is read as an unsigned number of `size` bytes. -/
def readInt (i size : Nat) : Except RlpError Nat := do
  let (item, _) ← r.getItem i
  item.toInt size strict

/-- An item that is read as a hash of `size` bytes. -/
def readHash (i size : Nat) : Except RlpError (List UInt8) := do
  let (item, _) ← r.getItem i
  item.toHash size strict

/-- An item that is read as a string. -/
def readBytes (i : Nat) : Except RlpError (List UInt8) := do
  let (item, _) ← r.getItem i
  item.toBytes laissezFaire

variable {r} {items : List Item} (hsize : (Item.list items).encode.length < 2 ^ 64 - 257)
include hsize

theorem Cached.accesses (h : Cached r items) (is : List Nat) :
    ∃ r', RLP.accesses is r = .ok r' ∧ Cached r' items := by
  induction is generalizing r with
  | nil => exact ⟨r, rfl, h⟩
  | cons i is ih =>
    obtain ⟨r', hitem, hcached⟩ := h.getItem hsize i
    obtain ⟨r'', haccesses, hcached'⟩ := ih hcached
    refine ⟨r'', ?_, hcached'⟩
    rw [RLP.accesses, hitem]
    exact haccesses

theorem Cached.itemCount (h : Cached r items) :
    r.isList = true ∧ r.itemCount = .ok items.length := by
  have hlist := (parsed_list hsize h.data_eq).isList_eq
  refine ⟨hlist, ?_⟩
  rw [RLP.itemCount, if_pos hlist, items_encode hsize h.data_eq]

section Read

variable (h : Cached r items) {i : Nat} {bytes : List UInt8} (hi : items[i]? = some (.data bytes))
include h hi

/-- The string at a position, as the reader gets it. -/
theorem Cached.getItem_data :
    ∃ item r', r.getItem i = .ok (item, r') ∧ item.m_data = (Item.data bytes).encode ∧
      (Item.data bytes).encode.length < 2 ^ 64 - 257 := by
  obtain ⟨r', hitem, -⟩ := h.getItem hsize i
  have hbytes : itemBytes items i = (Item.data bytes).encode := by
    rw [itemBytes, hi]
    rfl
  have hle : (itemBytes items i).length ≤ (encodeAll items).length := by
    conv => rhs; rw [← List.take_append_drop (i + 1) items, encodeAll_append, encodeAll_take_succ,
      List.length_append, List.length_append]
    omega
  have hlt := length_encodeAll_lt items
  rw [hbytes] at hitem hle
  exact ⟨_, r', hitem, rfl, by omega⟩

theorem Cached.readBytes_data : r.readBytes i = .ok bytes := by
  obtain ⟨item, r', hitem, hdata, hlen⟩ := h.getItem_data hsize hi
  rw [RLP.readBytes, hitem]
  exact toBytes_encode hlen hdata _

theorem Cached.readHash_data {size : Nat} (hle : bytes.length ≤ size) :
    r.readHash i size = .ok (List.replicate (size - bytes.length) 0 ++ bytes) := by
  obtain ⟨item, r', hitem, hdata, hlen⟩ := h.getItem_data hsize hi
  rw [RLP.readHash, hitem]
  exact toHash_encode hlen hdata hle rfl

end Read

section Number

variable (h : Cached r items) {i n : Nat} (hi : items[i]? = some (numberItem n))
include h hi

theorem Cached.readInt_number {size : Nat} (hn : n < 256 ^ size) (hsmall : size ≤ 32) :
    r.readInt i size = .ok n := by
  have hle := (BigEndian.length_ofNat_le_iff n size).mpr hn
  have hhead : ∀ b ∈ (BigEndian.ofNat n).head?, b ≠ 0 := by
    by_cases hzero : n = 0
    · rw [hzero, BigEndian.ofNat_zero]
      intro b hb
      cases hb
    · obtain ⟨b, l, hbl, hb⟩ := BigEndian.head_ofNat_ne_zero (n := n) (by omega)
      rw [hbl]
      intro c hc
      rwa [← Option.some.inj hc]
  obtain ⟨item, r', hitem, hdata, hlen⟩ := h.getItem_data hsize hi
  rw [RLP.readInt, hitem]
  show item.toInt size strict = _
  rw [toInt_encode hlen hdata hle (by omega) hhead, BigEndian.toNat_ofNat]

/-- The number of a hash is also read back as the hash. -/
theorem Cached.readHash_number {size : Nat} (hn : n < 256 ^ size) :
    r.readHash i size = .ok (BigEndian.fixed size n) := by
  have hle := (BigEndian.length_ofNat_le_iff n size).mpr hn
  rw [h.readHash_data hsize hi hle, BigEndian.fixed_eq_pad hn]

end Number

end RLP

/-- A list of nine items from which every field of a transaction is read back. -/
structure ReadsFields (r : RLP) (t : TransactionBase) : Prop where
  isList : r.isList = true
  itemCount : r.itemCount = .ok 9
  nonce : r.readInt 0 32 = .ok t.m_nonce
  gasPrice : r.readInt 1 32 = .ok t.m_gasPrice
  gas : r.readInt 2 32 = .ok t.m_gas
  receive : t.m_type = .messageCall → r.readHash 3 20 = .ok t.m_receiveAddress.bytes
  receiveField : r.readBytes 3 = .ok t.receiveField
  value : r.readInt 4 32 = .ok t.m_value
  storageLimit : r.readInt 5 32 = .ok t.m_storageLimit
  epochHeight : r.readInt 6 32 = .ok t.m_epochHeight
  chainId : r.readInt 7 32 = .ok t.m_chainId
  data : r.readBytes 8 = .ok t.m_data.toList

theorem readsFields_unsignedItem {r : RLP} {t : TransactionBase}
    (h : RLP.Cached r t.fieldItems) : ReadsFields r t := by
  have hsize : (Item.list t.fieldItems).encode.length < 2 ^ 64 - 257 := by
    have hlen : (Item.list t.fieldItems).encode.length < 2 ^ 63 + 300 := t.length_unsignedItem
    omega
  have hnumber : ∀ {i : Nat} (n : U256), t.fieldItems[i]? = some (numberItem n) →
      r.readInt i 32 = .ok n :=
    fun n hi => h.readInt_number hsize hi n.isLt (Nat.le_refl _)
  obtain ⟨hlist, hcount⟩ := h.itemCount hsize
  exact {
    isList := hlist
    itemCount := hcount
    nonce := hnumber t.m_nonce rfl
    gasPrice := hnumber t.m_gasPrice rfl
    gas := hnumber t.m_gas rfl
    receive := by
      -- The receiver of a call has all its 20 bytes, so none is filled in.
      intro htype
      have hfield : t.receiveField = t.m_receiveAddress.bytes := if_pos htype
      have hlen : t.receiveField.length = 20 := by rw [hfield, t.m_receiveAddress.size_eq]
      have hread : r.readHash 3 20 = .ok (List.replicate (20 - t.receiveField.length) 0 ++
        t.receiveField) := h.readHash_data hsize rfl (Nat.le_of_eq hlen)
      rw [hread, hlen, hfield]
      rfl
    receiveField := h.readBytes_data hsize rfl
    value := hnumber t.m_value rfl
    storageLimit := hnumber t.m_storageLimit rfl
    epochHeight := hnumber t.m_epochHeight rfl
    chainId := hnumber t.m_chainId rfl
    data := h.readBytes_data hsize rfl }

/-- A list of four items: the nine fields and the signature. -/
structure ReadsSigned (r : RLP) (t : TransactionBase) (vrs : SignatureStruct) : Prop where
  isList : r.isList = true
  itemCount : r.itemCount = .ok 4
  fields : ∃ item r', r.getItem 0 = .ok (item, r') ∧
    ∀ is, ∃ item', RLP.accesses is item = .ok item' ∧ ReadsFields item' t
  v : r.readInt 1 1 = .ok vrs.v.toNat
  r_int : r.readInt 2 32 = .ok vrs.r.toArith
  r_hash : r.readHash 2 32 = .ok vrs.r.bytes
  s_int : r.readInt 3 32 = .ok vrs.s.toArith
  s_hash : r.readHash 3 32 = .ok vrs.s.bytes

theorem FixedHash.fixed_toArith {n : Nat} (h : FixedHash n) :
    BigEndian.fixed n h.toArith = h.bytes := by
  have hback := BigEndian.fixed_toNat h.bytes
  rwa [h.size_eq, ← h.toArith_eq] at hback

theorem readsSigned_signedItems {r : RLP} {t : TransactionBase} {vrs : SignatureStruct}
    (h : RLP.Cached r (t.signedItems vrs)) : ReadsSigned r t vrs := by
  have hsize : (Item.list (t.signedItems vrs)).encode.length < 2 ^ 64 - 257 := by
    have hlen := t.length_signedItem vrs
    omega
  obtain ⟨hlist, hcount⟩ := h.itemCount hsize
  obtain ⟨r', hitem, -⟩ := h.getItem hsize 0
  have hinner : (Item.list t.fieldItems).encode.length < 2 ^ 64 - 257 := by
    have hlen : (Item.list t.fieldItems).encode.length < 2 ^ 63 + 300 := t.length_unsignedItem
    omega
  exact {
    isList := hlist
    itemCount := hcount
    fields := by
      -- The fields are a list of their own, read from the start.
      refine ⟨_, r', hitem, fun is => ?_⟩
      have hfresh : RLP.Cached (RLP.fresh (RLP.itemBytes (t.signedItems vrs) 0)) t.fieldItems :=
        .inl rfl
      obtain ⟨item', haccesses, hcached⟩ := hfresh.accesses hinner is
      exact ⟨item', haccesses, readsFields_unsignedItem hcached⟩
    v := h.readInt_number hsize rfl vrs.v.toNat_lt (by decide)
    r_int := h.readInt_number hsize rfl vrs.r.toArith_lt (Nat.le_refl _)
    r_hash := by
      have hread : r.readHash 2 32 = .ok (BigEndian.fixed 32 vrs.r.toArith) :=
        h.readHash_number hsize rfl vrs.r.toArith_lt
      rw [hread, vrs.r.fixed_toArith]
    s_int := h.readInt_number hsize rfl vrs.s.toArith_lt (Nat.le_refl _)
    s_hash := by
      have hread : r.readHash 3 32 = .ok (BigEndian.fixed 32 vrs.s.toArith) :=
        h.readHash_number hsize rfl vrs.s.toArith_lt
      rw [hread, vrs.s.fixed_toArith] }

/-! ### The round trip -/

/-- Two transactions that agree in everything that is signed; the receive address of a
    contract creation is not. -/
structure SameFields (t t' : TransactionBase) : Prop where
  type : t.m_type = t'.m_type
  nonce : t.m_nonce = t'.m_nonce
  gasPrice : t.m_gasPrice = t'.m_gasPrice
  gas : t.m_gas = t'.m_gas
  receive : t.m_type = .messageCall → t.m_receiveAddress = t'.m_receiveAddress
  value : t.m_value = t'.m_value
  storageLimit : t.m_storageLimit = t'.m_storageLimit
  epochHeight : t.m_epochHeight = t'.m_epochHeight
  chainId : t.m_chainId = t'.m_chainId
  data : t.m_data.toList = t'.m_data.toList

/-- What is read back from one list is the same for both transactions. -/
theorem sameFields_of_readsFields {r : RLP} {t t' : TransactionBase}
    (htype : t.m_type = .messageCall ∨ t.m_type = .contractCreation)
    (htype' : t'.m_type = .messageCall ∨ t'.m_type = .contractCreation)
    (h : ReadsFields r t) (h' : ReadsFields r t') : SameFields t t' := by
  have hnumber : ∀ {i : Nat} {n m : U256}, r.readInt i 32 = .ok n → r.readInt i 32 = .ok m →
      n = m := fun hn hm => Fin.ext (Except.ok.inj (hn.symm.trans hm))
  have hreceive : t.receiveField = t'.receiveField :=
    Except.ok.inj (h.receiveField.symm.trans h'.receiveField)
  have hcall : ∀ {t : TransactionBase}, t.m_type = .messageCall → t.receiveField.length = 20 := by
    intro t htype
    rw [TransactionBase.receiveField, if_pos htype, t.m_receiveAddress.size_eq]
  have hcreate : ∀ {t : TransactionBase}, t.m_type = .contractCreation →
      t.receiveField.length = 0 := by
    intro t htype
    rw [TransactionBase.receiveField, if_neg (by rw [htype]; decide)]
    rfl
  -- Only a message call has an address, so the types are the same.
  have hsame : t.m_type = t'.m_type := by
    rcases htype with htype | htype <;> rcases htype' with htype' | htype'
    · rw [htype, htype']
    · have hlen := hcall htype
      rw [hreceive, hcreate htype'] at hlen
      exact absurd hlen (by decide)
    · have hlen := hcreate htype
      rw [hreceive, hcall htype'] at hlen
      exact absurd hlen (by decide)
    · rw [htype, htype']
  exact {
    type := hsame
    nonce := hnumber h.nonce h'.nonce
    gasPrice := hnumber h.gasPrice h'.gasPrice
    gas := hnumber h.gas h'.gas
    receive := by
      intro hmessage
      have hbytes := (h.receive hmessage).symm.trans (h'.receive (hsame ▸ hmessage))
      exact FixedHash.eq_of_bytes (Except.ok.inj hbytes)
    value := hnumber h.value h'.value
    storageLimit := hnumber h.storageLimit h'.storageLimit
    epochHeight := hnumber h.epochHeight h'.epochHeight
    chainId := hnumber h.chainId h'.chainId
    data := Except.ok.inj (h.data.symm.trans h'.data) }

theorem unsignedItem_reads (t : TransactionBase) :
    RLP.new t.unsignedItem.encode RLP.veryStrict = .ok (RLP.fresh t.unsignedItem.encode) ∧
      ∀ is, ∃ r, RLP.accesses is (RLP.fresh t.unsignedItem.encode) = .ok r ∧ ReadsFields r t := by
  have hlen := t.length_unsignedItem
  have hsize : (Item.list t.fieldItems).encode.length < 2 ^ 64 - 257 := by
    have hlen : (Item.list t.fieldItems).encode.length < 2 ^ 63 + 300 := t.length_unsignedItem
    omega
  have hfresh : RLP.Cached (RLP.fresh t.unsignedItem.encode) t.fieldItems := .inl rfl
  refine ⟨RLP.new_veryStrict _ (by omega), fun is => ?_⟩
  obtain ⟨r, haccesses, hcached⟩ := hfresh.accesses hsize is
  exact ⟨r, haccesses, readsFields_unsignedItem hcached⟩

/-- The stream of a transaction completes its lists and is read back, field by field and
    after any accesses, without and with the signature; the payload that is signed
    determines the fields. -/
theorem streamRLP_roundTrip (t : TransactionBase)
    (htype : t.m_type = .messageCall ∨ t.m_type = .contractCreation) :
    (∃ out r, t.streamRLP .empty .withoutSignature = .ok ⟨out, []⟩ ∧
      RLP.new out RLP.veryStrict = .ok r ∧
      ∀ is, ∃ r', RLP.accesses is r = .ok r' ∧ ReadsFields r' t) ∧
    (∀ vrs, t.m_vrs = some vrs → ∃ out r, t.streamRLP .empty .withSignature = .ok ⟨out, []⟩ ∧
      RLP.new out RLP.veryStrict = .ok r ∧
      ∀ is, ∃ r', RLP.accesses is r = .ok r' ∧ ReadsSigned r' t vrs) ∧
    (∀ t' : TransactionBase, t'.m_type = .messageCall ∨ t'.m_type = .contractCreation →
      t.rlp .withoutSignature = t'.rlp .withoutSignature → SameFields t t') := by
  refine ⟨?_, ?_, ?_⟩
  · obtain ⟨hnew, hreads⟩ := unsignedItem_reads t
    exact ⟨_, _, t.streamRLP_unsigned, hnew, hreads⟩
  · intro vrs hvrs
    have hlen := t.length_signedItem vrs
    have hsize : (Item.list (t.signedItems vrs)).encode.length < 2 ^ 64 - 257 := by omega
    refine ⟨_, _, t.streamRLP_signed hvrs, RLP.new_veryStrict _ hsize, fun is => ?_⟩
    have hfresh : RLP.Cached (RLP.fresh (Item.list (t.signedItems vrs)).encode)
        (t.signedItems vrs) := .inl rfl
    obtain ⟨r, haccesses, hcached⟩ := hfresh.accesses hsize is
    exact ⟨r, haccesses, readsSigned_signedItems hcached⟩
  · intro t' htype' hpayload
    rw [t.rlp_unsigned, t'.rlp_unsigned] at hpayload
    -- Equal payloads are read as one list, from which both have their fields.
    have hencode := Except.ok.inj hpayload
    obtain ⟨r, haccesses, hreads⟩ := (unsignedItem_reads t).2 []
    obtain ⟨r', haccesses', hreads'⟩ := (unsignedItem_reads t').2 []
    rw [hencode, haccesses'] at haccesses
    obtain rfl := Except.ok.inj haccesses
    exact sameFields_of_readsFields htype htype' hreads hreads'

/-- A message call with one byte of data and a signature. -/
def signedCall : TransactionBase :=
  { TransactionBase.ofMessageCall Address.default 1000 (.zero 32) with
    m_nonce := 1
    m_gasPrice := 1
    m_gas := 21000
    m_storageLimit := 0
    m_epochHeight := 64
    m_chainId := 1029
    m_data := ⟨[0x7f], by decide⟩
    m_vrs := some ⟨.ofNat 32 7, .ofNat 32 (2 ^ 255), 1⟩ }

theorem streamRLP_roundTrip_signedCall :
    ∃ out r, signedCall.streamRLP .empty .withSignature = .ok ⟨out, []⟩ ∧
      RLP.new out RLP.veryStrict = .ok r ∧
      ∀ is, ∃ r', RLP.accesses is r = .ok r' ∧
        ReadsSigned r' signedCall ⟨.ofNat 32 7, .ofNat 32 (2 ^ 255), 1⟩ :=
  (streamRLP_roundTrip signedCall (.inl rfl)).2.1 _ rfl

end ConfluxSdk
