import ConfluxSdk.ForStd.LengthPrefix
import ConfluxSdk.Native.Rlp

/-!
# RLP reads length-prefixed items

What the reader makes of the encoding of an item, with or without further bytes
behind it: the checks pass, the lengths are those of the header and the payload is
the payload. From this, the number of items of a list and every item of it, in
whatever order the items are asked for.

Everything here is about data that is shorter than `2 ^ 64 - 257` bytes: beyond that
the reader refuses.

## Key results

- `parsed_encode`: the reader on the encoding of an item
- `RLP.items_encode`: the number of items of a list
- `RLP.Cached.getItem`: an access returns the item, and leaves a cache that later
  accesses can rely on
- `RLP.toInt_encode`, `RLP.toHash_encode`, `RLP.toBytes_encode`: reading strings
-/

namespace ConfluxSdk

open LengthPrefix Rlp

/-! ### Bytes -/

namespace RLP

private theorem shift_or_byte (a : Nat) (b : UInt8) : a <<< 8 ||| b.toNat = a * 256 + b.toNat := by
  have hb : b.toNat < 2 ^ 8 := b.toNat_lt
  rw [← Nat.shiftLeft_add_eq_or_of_lt hb, Nat.shiftLeft_eq]

/-- The loop that reads a length. -/
theorem foldl_length {l : List UInt8} (h : BigEndian.toNat l < 2 ^ 64) :
    l.foldl (fun ret b => sizeT (ret <<< 8) ||| b.toNat) 0 = BigEndian.toNat l := by
  induction l using List.reverseRecOn with
  | nil => rfl
  | append_singleton l b ih =>
    rw [BigEndian.toNat_concat] at h ⊢
    have hlt : BigEndian.toNat l < 2 ^ 64 := by omega
    have hshift : BigEndian.toNat l <<< 8 < 2 ^ 64 := by
      rw [Nat.shiftLeft_eq]
      exact Nat.lt_of_le_of_lt (Nat.le_add_right _ _) h
    rw [List.foldl_append, ih hlt, List.foldl_cons, List.foldl_nil, sizeT_of_lt hshift,
      shift_or_byte]

theorem fromBigEndian_eq {size : Nat} {l : List UInt8} (h : l.length ≤ size) :
    fromBigEndian size l = BigEndian.toNat l := by
  unfold fromBigEndian
  induction l using List.reverseRecOn with
  | nil => rfl
  | append_singleton l b ih =>
    have hlt : BigEndian.toNat (l ++ [b]) < 256 ^ size :=
      Nat.lt_of_lt_of_le (BigEndian.toNat_lt _) (Nat.pow_le_pow_right (by decide) h)
    rw [List.length_append, List.length_singleton] at h
    rw [BigEndian.toNat_concat] at hlt ⊢
    rw [List.foldl_append, ih (by omega)]
    show (BigEndian.toNat l <<< 8 ||| b.toNat) % 256 ^ size = _
    rw [shift_or_byte, Nat.mod_eq_of_lt hlt]

theorem cropped_append {pre mid post : List UInt8} (h : (pre ++ mid ++ post).length < 2 ^ 64) :
    cropped (pre ++ mid ++ post) pre.length mid.length = mid := by
  simp only [List.length_append] at h
  have hsum : sizeT (pre.length + mid.length) = pre.length + mid.length := sizeT_of_lt (by omega)
  rw [cropped, if_pos, List.append_assoc, List.drop_left, List.take_left]
  rw [hsum]
  simp only [List.length_append]
  omega

end RLP

/-! ### One item -/

/-- What the reader makes of data with an item in front: its header, its payload
    and the bytes behind it. -/
structure Parsed (r : RLP) (list : Bool) (pre payload rest : List UInt8) : Prop where
  data_eq : r.m_data = pre ++ payload ++ rest
  ne_nil : r.m_data ≠ []
  isList_eq : r.isList = list
  isData_eq : r.isData = !list
  good : r.requireGood = .ok ()
  length_eq : r.length = .ok payload.length
  offset_eq : r.payloadOffset = pre.length

/-- The headers that are not empty: what they are a header of, the first byte and
    the number of bytes behind it. -/
def HeaderByte (list : Bool) (n k : Nat) : Prop :=
  (list = false ∧ 0x80 ≤ n ∧ n ≤ 0xb7 ∧ k = 0) ∨ (list = false ∧ 0xb7 < n ∧ n < 0xc0 ∧ k = n - 0xb7) ∨
    (list = true ∧ 0xc0 ≤ n ∧ n ≤ 0xf7 ∧ k = 0) ∨ (list = true ∧ 0xf7 < n ∧ k = n - 0xf7)

section Header

variable {r : RLP} (hne : r.isNull = false)
include hne

/-- The length by the first byte, once the checks have passed. -/
theorem RLP.length_of_good (hgood : r.requireGood = .ok ()) :
    r.length =
      if r.byteAt 0 < 0x80 then .ok 1
      else if r.byteAt 0 ≤ 0xb7 then .ok (r.byteAt 0 - 0x80)
      else if r.byteAt 0 < 0xc0 then r.longLength (r.byteAt 0 - 0xb7) 56
      else if r.byteAt 0 ≤ 0xf7 then .ok (r.byteAt 0 - 0xc0)
      else r.longLength (r.byteAt 0 - 0xf7) 56 := by
  rw [RLP.length, hne, hgood]
  rfl

/-- The kind of the item and the offset of its payload. -/
theorem RLP.offset_of_headerByte {list : Bool} {k : Nat} (h : HeaderByte list (r.byteAt 0) k) :
    r.isList = list ∧ (r.isData = !list) ∧ r.payloadOffset = 1 + k := by
  have hisList : r.isList = decide (0xc0 ≤ r.byteAt 0) := by rw [RLP.isList, hne]; rfl
  have hisData : r.isData = decide (r.byteAt 0 < 0xc0) := by rw [RLP.isData, hne]; rfl
  have hsingle : r.isSingleByte = decide (r.byteAt 0 < 0x80) := by rw [RLP.isSingleByte, hne]; rfl
  have hsize : r.lengthSize = if r.byteAt 0 < 0xc0 ∧ 0xb7 < r.byteAt 0 then r.byteAt 0 - 0xb7
      else if 0xc0 ≤ r.byteAt 0 ∧ 0xf7 < r.byteAt 0 then r.byteAt 0 - 0xf7 else 0 := by
    rw [RLP.lengthSize, hisList, hisData]
    simp only [decide_eq_true_eq]
    rfl
  rw [hisList, hisData, RLP.payloadOffset, hsingle, hsize]
  generalize r.byteAt 0 = n at h
  unfold HeaderByte at h
  -- Short and long data, short and long lists.
  rcases h with ⟨hlist, hlo, hhi, hk⟩ | ⟨hlist, hlo, hhi, hk⟩ | ⟨hlist, hlo, hhi, hk⟩ |
    ⟨hlist, hlo, hk⟩
  · have h1 : ¬ 0xc0 ≤ n := by omega
    have h2 : n < 0xc0 := by omega
    have h3 : ¬ n < 0x80 := by omega
    have h4 : ¬ 0xb7 < n := by omega
    simp [hlist, hk, h1, h2, h3, h4]
  · have h1 : ¬ 0xc0 ≤ n := by omega
    have h3 : ¬ n < 0x80 := by omega
    simp [hlist, hk, h1, hhi, h3, hlo]
  · have h2 : ¬ n < 0xc0 := by omega
    have h3 : ¬ n < 0x80 := by omega
    have h4 : ¬ 0xf7 < n := by omega
    simp [hlist, hk, hlo, h2, h3, h4]
  · have h1 : 0xc0 ≤ n := by omega
    have h2 : ¬ n < 0xc0 := by omega
    have h3 : ¬ n < 0x80 := by omega
    simp [hlist, hk, h1, h2, h3, hlo]

end Header

section Headed

variable {r : RLP} {payload rest : List UInt8}

/-- What tells the headers of strings from those of lists. -/
def headerBase (list : Bool) : Nat := if list then 0xc0 else 0x80

/-- A small byte is an item. -/
theorem parsed_small {b : UInt8} (hb : b.toNat < 0x80) (h : r.m_data = b :: rest) :
    Parsed r false [] [b] rest := by
  have hne : r.isNull = false := by simp [RLP.isNull, h]
  have hbyte : r.byteAt 0 = b.toNat := by simp [RLP.byteAt, h]
  have hlow : b.toNat < 0xc0 := by omega
  have hgood : r.requireGood = .ok () := by
    rw [RLP.requireGood, hne, hbyte, if_neg (by simp), if_pos]
    show b.toNat ≠ 0x81
    omega
  refine ⟨by rw [h]; rfl, by simp [h], ?_, ?_, hgood, ?_, ?_⟩
  · simp [RLP.isList, hne, hbyte, listStart, hlow]
  · simp [RLP.isData, hne, hbyte, listStart, hlow]
  · rw [RLP.length_of_good hne hgood, hbyte]
    exact if_pos hb
  · simp [RLP.payloadOffset, RLP.isSingleByte, hne, hbyte, dataImmLenStart, hb]

/-- A short header; the string of one small byte has none. -/
theorem parsed_short {list : Bool} (hshort : payload.length < 56)
    (hlarge : list = false → ¬ IsSmall payload)
    (h : r.m_data = UInt8.ofNat (headerBase list + payload.length) :: (payload ++ rest)) :
    Parsed r list [UInt8.ofNat (headerBase list + payload.length)] payload rest := by
  have hne : r.isNull = false := by simp [RLP.isNull, h]
  have hbyte : r.byteAt 0 = headerBase list + payload.length := by
    rw [RLP.byteAt, h, List.getD_cons_zero, UInt8.toNat_ofNat', headerBase]
    split <;> omega
  have hkind : HeaderByte list (r.byteAt 0) 0 := by
    rw [hbyte]
    cases list with
    | false => exact .inl ⟨rfl, Nat.le_add_right _ _, by show 0x80 + _ ≤ _; omega, rfl⟩
    | true => exact .inr (.inr (.inl ⟨rfl, Nat.le_add_right _ _, by show 0xc0 + _ ≤ _; omega, rfl⟩))
  obtain ⟨hisList, hisData, hoffset⟩ := RLP.offset_of_headerByte hne hkind
  have hgood : r.requireGood = .ok () := by
    rw [RLP.requireGood, hne, if_neg Bool.false_ne_true]
    by_cases hone : r.byteAt 0 = dataImmLenStart + 1
    · -- A string of one byte, which is not a small one.
      have hone' : headerBase list + payload.length = 0x81 := hbyte.symm.trans hone
      obtain ⟨hlist, hlen⟩ : list = false ∧ payload.length = 1 := by
        cases list with
        | false => exact ⟨rfl, Nat.add_left_cancel hone'⟩
        | true => exact absurd hone' (by show 0xc0 + _ ≠ _; omega)
      have hsecond : r.byteAt 1 = (payload.headD 0).toNat := by
        rw [RLP.byteAt, h, List.getD_cons_succ]
        obtain ⟨c, rfl⟩ := List.length_eq_one_iff.mp hlen
        rfl
      have hbig : ¬ r.byteAt 1 < dataImmLenStart := by
        rw [hsecond]
        exact fun hlt => hlarge hlist ⟨hlen, hlt⟩
      have hlong : ¬ r.m_data.length < 2 := by
        rw [h, List.length_cons, List.length_append, hlen]
        omega
      rw [if_neg (not_not.mpr hone), if_neg hlong, if_neg hbig]
    · exact if_pos hone
  refine ⟨by rw [h]; rfl, by simp [h], hisList, hisData, hgood, ?_, hoffset⟩
  rw [RLP.length_of_good hne hgood, hbyte]
  -- The length is how far the first byte is above the base of its range.
  cases list with
  | false =>
    show (if 0x80 + payload.length < 0x80 then _ else if 0x80 + payload.length ≤ 0xb7 then
      Except.ok (0x80 + payload.length - 0x80) else _) = _
    rw [if_neg (by omega), if_pos (by omega), Nat.add_sub_cancel_left]
  | true =>
    show (if 0xc0 + payload.length < 0x80 then _ else if 0xc0 + payload.length ≤ 0xb7 then _
      else if 0xc0 + payload.length < 0xc0 then _ else if 0xc0 + payload.length ≤ 0xf7 then
      Except.ok (0xc0 + payload.length - 0xc0) else _) = _
    rw [if_neg (by omega), if_neg (by omega), if_neg (by omega), if_pos (by omega),
      Nat.add_sub_cancel_left]

/-- A length behind the first byte is read back. -/
theorem RLP.longLength_eq {n : Nat} {c : UInt8} {tail : List UInt8} (hlo : 56 ≤ n)
    (hhi : n < 2 ^ 64 - 257) (h : r.m_data = c :: (BigEndian.ofNat n ++ tail)) :
    r.longLength (BigEndian.ofNat n).length 56 = .ok n := by
  obtain ⟨b, l, hbl, hb⟩ := BigEndian.head_ofNat_ne_zero (n := n) (by omega)
  have hle : (BigEndian.ofNat n).length ≤ 8 := by
    rw [BigEndian.length_ofNat_le_iff]
    show n < 2 ^ 64
    omega
  have hsecond : r.byteAt 1 ≠ 0 := by
    rw [RLP.byteAt, h, List.getD_cons_succ, hbl]
    intro hzero
    exact hb (UInt8.toNat_inj.mp hzero)
  have hsize : ¬ r.m_data.length ≤ (BigEndian.ofNat n).length := by
    rw [h, List.length_cons, List.length_append]
    omega
  have hret : ((r.m_data.drop 1).take (BigEndian.ofNat n).length).foldl
      (fun ret b => sizeT (ret <<< 8) ||| b.toNat) 0 = n := by
    rw [h, List.drop_one, List.tail_cons, List.take_left, RLP.foldl_length, BigEndian.toNat_ofNat]
    rw [BigEndian.toNat_ofNat]
    omega
  rw [RLP.longLength, if_neg hsize, if_neg (fun hzero => hsecond hzero.2), if_neg (by omega),
    if_neg hsecond]
  simp only [hret]
  rw [if_neg (by omega), if_neg (by omega)]

/-- A long header. -/
theorem parsed_long {list : Bool} (hlo : 56 ≤ payload.length)
    (hhi : payload.length < 2 ^ 64 - 257)
    (h : r.m_data = UInt8.ofNat (headerBase list + 55 + (BigEndian.ofNat payload.length).length) ::
      (BigEndian.ofNat payload.length ++ (payload ++ rest))) :
    Parsed r list (UInt8.ofNat (headerBase list + 55 + (BigEndian.ofNat payload.length).length) ::
      BigEndian.ofNat payload.length) payload rest := by
  have hne : r.isNull = false := by simp [RLP.isNull, h]
  have hpos : 0 < (BigEndian.ofNat payload.length).length :=
    BigEndian.length_ofNat_pos (by omega)
  have hle : (BigEndian.ofNat payload.length).length ≤ 8 := by
    rw [BigEndian.length_ofNat_le_iff]
    show payload.length < 2 ^ 64
    omega
  have hlong := RLP.longLength_eq hlo hhi h
  have hbyte : r.byteAt 0 = headerBase list + 55 + (BigEndian.ofNat payload.length).length := by
    rw [RLP.byteAt, h, List.getD_cons_zero, UInt8.toNat_ofNat', headerBase]
    split <;> omega
  have hdata : r.m_data = UInt8.ofNat (headerBase list + 55 +
      (BigEndian.ofNat payload.length).length) :: BigEndian.ofNat payload.length ++ payload ++
      rest := by
    rw [h, List.append_assoc, List.cons_append]
  -- From here on only the number of length bytes matters.
  generalize UInt8.ofNat (headerBase list + 55 + (BigEndian.ofNat payload.length).length) = c at hdata
  generalize hk : (BigEndian.ofNat payload.length).length = k at hbyte hlong hpos hle
  have hgood : r.requireGood = .ok () := by
    rw [RLP.requireGood, hne, if_neg Bool.false_ne_true, if_pos]
    rw [hbyte, headerBase]
    show _ ≠ 0x81
    split <;> omega
  have hkind : HeaderByte list (r.byteAt 0) k := by
    rw [hbyte]
    cases list with
    | false => exact .inr (.inl ⟨rfl, by show _ < 0x80 + 55 + k; omega,
        by show 0x80 + 55 + k < _; omega, by show k = 0x80 + 55 + k - _; omega⟩)
    | true => exact .inr (.inr (.inr ⟨rfl, by show _ < 0xc0 + 55 + k; omega,
        by show k = 0xc0 + 55 + k - _; omega⟩))
  obtain ⟨hisList, hisData, hoffset⟩ := RLP.offset_of_headerByte hne hkind
  refine ⟨hdata, by simp [h], hisList, hisData, hgood, ?_, ?_⟩
  · rw [RLP.length_of_good hne hgood, hbyte]
    cases list with
    | false =>
      show (if 0x80 + 55 + k < 0x80 then _ else if 0x80 + 55 + k ≤ 0xb7 then _
        else if 0x80 + 55 + k < 0xc0 then r.longLength (0x80 + 55 + k - 0xb7) 56 else _) = _
      rw [if_neg (by omega), if_neg (by omega), if_pos (by omega), Nat.add_sub_cancel_left, hlong]
    | true =>
      show (if 0xc0 + 55 + k < 0x80 then _ else if 0xc0 + 55 + k ≤ 0xb7 then _
        else if 0xc0 + 55 + k < 0xc0 then _ else if 0xc0 + 55 + k ≤ 0xf7 then _
        else r.longLength (0xc0 + 55 + k - 0xf7) 56) = _
      rw [if_neg (by omega), if_neg (by omega), if_neg (by omega), if_neg (by omega),
        Nat.add_sub_cancel_left, hlong]
  · rw [hoffset, List.length_cons, hk, Nat.add_comm]

/-- A payload with the header it is specified to have. -/
theorem parsed_headed {list : Bool} (hhi : payload.length < 2 ^ 64 - 257)
    (hlarge : list = false → ¬ IsSmall payload)
    (h : r.m_data = header (headerBase list) payload.length ++ payload ++ rest) :
    Parsed r list (header (headerBase list) payload.length) payload rest := by
  unfold header at h ⊢
  by_cases hshort : payload.length < 56
  · rw [if_pos hshort] at h ⊢
    exact parsed_short hshort hlarge (by rw [h, List.append_assoc]; rfl)
  · rw [if_neg hshort] at h ⊢
    exact parsed_long (by omega) hhi (by rw [h, List.append_assoc]; rfl)

end Headed

/-- The reader on the encoding of an item. -/
theorem parsed_encode {r : RLP} (item : Item) {rest : List UInt8}
    (hhi : item.payload.length < 2 ^ 64 - 257) (h : r.m_data = item.encode ++ rest) :
    Parsed r item.isList item.header item.payload rest := by
  rw [← header_append_payload] at h
  cases item with
  | data bytes =>
    by_cases hsmall : IsSmall bytes
    · have hheader : (Item.data bytes).header = [] := if_pos hsmall
      obtain ⟨c, rfl⟩ := List.length_eq_one_iff.mp hsmall.1
      rw [hheader] at h ⊢
      exact parsed_small hsmall.2 h
    · have hheader : (Item.data bytes).header = header (headerBase false) bytes.length :=
        if_neg hsmall
      rw [hheader] at h ⊢
      exact parsed_headed hhi (fun _ => hsmall) h
  | list items => exact parsed_headed hhi (fun h => absurd h Bool.false_ne_true.symm) h

namespace Parsed

variable {r : RLP} {list : Bool} {pre payload rest : List UInt8} (p : Parsed r list pre payload rest)
include p

theorem isNull_eq : r.isNull = false := by
  have := p.ne_nil
  simpa [RLP.isNull] using this

theorem payload_eq (hsize : r.m_data.length < 2 ^ 64) : r.payload = .ok payload := by
  have hle : ¬ payload.length > r.m_data.length := by
    rw [p.data_eq, List.length_append, List.length_append]
    omega
  unfold RLP.payload
  rw [p.length_eq]
  show (if payload.length > r.m_data.length then _ else Except.ok (cropped _ _ payload.length)) = _
  rw [p.data_eq] at hsize
  rw [if_neg hle, p.offset_eq, p.data_eq, RLP.cropped_append hsize]

theorem actualSize_eq (hsize : r.m_data.length < 2 ^ 64) :
    r.actualSize = .ok (pre.length + payload.length) := by
  have hsum : pre.length + payload.length ≤ r.m_data.length := by
    rw [p.data_eq, List.length_append, List.length_append]
    omega
  have hkind : (r.isData || r.isList) = true := by
    rw [p.isData_eq, p.isList_eq]
    cases list <;> rfl
  unfold RLP.actualSize
  rw [p.isNull_eq, if_neg Bool.false_ne_true]
  by_cases hsingle : r.isSingleByte = true
  · -- A single byte is its own payload.
    have hoffset := p.offset_eq
    rw [RLP.payloadOffset, if_pos hsingle] at hoffset
    have hbyte : r.byteAt 0 < 0x80 := by
      rw [RLP.isSingleByte, p.isNull_eq] at hsingle
      exact of_decide_eq_true hsingle
    have hlength := p.length_eq
    rw [RLP.length_of_good p.isNull_eq p.good, if_pos hbyte] at hlength
    rw [if_pos hsingle, ← hoffset, ← Except.ok.inj hlength]
  · rw [if_neg hsingle, if_pos hkind, p.length_eq]
    show Except.ok (sizeT _) = _
    rw [p.offset_eq, sizeT_of_lt (by omega)]

end Parsed

namespace RLP

/-! ### Constructing readers -/

/-- The constructor, on data whose size by its header is known. -/
theorem new_eq {d : List UInt8} {size s : Nat} (hsize : (fresh d).actualSize = .ok size)
    (hle : size ≤ d.length) (hbig : s &&& failIfTooBig ≠ 0 → size = d.length) :
    new d s = .ok (fresh d) := by
  -- The second check reads the size once more, and it is not too small.
  have htail : (if s &&& failIfTooSmall ≠ 0 then do
      let size ← (fresh d).actualSize
      if size > d.length then
        if s &&& throwOnFail ≠ 0 then
          .error (.undersizeRLP (constructRLPSizeErrorInfo size d.length))
        else .ok { fresh d with m_data := [] }
      else .ok (fresh d)
    else .ok (fresh d) : Except RlpError RLP) = .ok (fresh d) := by
    split
    · rw [hsize]
      exact if_neg (by omega)
    · rfl
  unfold new
  by_cases hflag : s &&& failIfTooBig ≠ 0
  · have hnot : ¬ size < d.length := by
      rw [hbig hflag]
      omega
    simp only [if_pos hflag, hsize]
    show (if size < d.length then _ else _) = _
    rw [if_neg hnot]
    exact htail
  · rw [if_neg hflag]
    exact htail

section Encode

variable (item : Item) {rest : List UInt8} (hsize : (item.encode ++ rest).length < 2 ^ 64 - 257)
include hsize

theorem parsed_of_size {r : RLP} (h : r.m_data = item.encode ++ rest) :
    Parsed r item.isList item.header item.payload rest := by
  apply parsed_encode item _ h
  rw [← header_append_payload, List.length_append, List.length_append] at hsize
  omega

theorem actualSize_encode {r : RLP} (h : r.m_data = item.encode ++ rest) :
    r.actualSize = .ok item.encode.length := by
  have hlt : r.m_data.length < 2 ^ 64 := by
    rw [h]
    omega
  rw [(parsed_of_size item hsize h).actualSize_eq hlt, ← header_append_payload, List.length_append]

/-- Data with an item in front is not too short. -/
theorem new_encode :
    new (item.encode ++ rest) (throwOnFail ||| failIfTooSmall) =
      .ok (fresh (item.encode ++ rest)) :=
  new_eq (actualSize_encode item hsize rfl) (by simp) (fun h => absurd h (by decide))

theorem sizeAsEncoded_encode : sizeAsEncoded (item.encode ++ rest) = .ok item.encode.length := by
  rw [sizeAsEncoded, new_encode item hsize]
  exact actualSize_encode item hsize rfl

end Encode

/-- The encoding of an item alone passes the strictest checks. -/
theorem new_veryStrict (item : Item) (hsize : item.encode.length < 2 ^ 64 - 257) :
    new item.encode veryStrict = .ok (fresh item.encode) := by
  rw [← List.append_nil item.encode] at hsize
  have hactual : (fresh item.encode).actualSize = .ok item.encode.length :=
    actualSize_encode item hsize (List.append_nil _).symm
  exact new_eq hactual (Nat.le_refl _) (fun _ => rfl)

/-! ### Lists -/

/-- The bytes of an item of a list; behind the last one there are none. -/
def itemBytes (items : List Item) (i : Nat) : List UInt8 :=
  (items[i]?.map Item.encode).getD []

theorem itemBytes_of_lt {items : List Item} {i : Nat} (h : i < items.length) :
    itemBytes items i = items[i].encode := by
  rw [itemBytes, List.getElem?_eq_getElem h]
  rfl

theorem itemBytes_of_ge {items : List Item} {i : Nat} (h : items.length ≤ i) :
    itemBytes items i = [] := by
  rw [itemBytes, List.getElem?_eq_none h]
  rfl

theorem encodeAll_take_succ (items : List Item) (i : Nat) :
    encodeAll (items.take (i + 1)) = encodeAll (items.take i) ++ itemBytes items i := by
  rw [List.take_add_one, encodeAll_append, itemBytes]
  cases items[i]? with
  | none => rfl
  | some item => simp

section List

variable {items : List Item} (hsize : (encodeAll items).length < 2 ^ 64 - 257)
include hsize

/-- The first item behind a position. -/
theorem front_drop (i : Nat) :
    sizeAsEncoded (encodeAll (items.drop i)) = .ok (itemBytes items i).length ∧
      cropped (encodeAll (items.drop i)) 0 (itemBytes items i).length = itemBytes items i := by
  by_cases hi : i < items.length
  · have hle : (encodeAll (items.drop i)).length ≤ (encodeAll items).length := by
      conv => rhs; rw [← List.take_append_drop i items, encodeAll_append, List.length_append]
      omega
    rw [itemBytes_of_lt hi]
    rw [List.drop_eq_getElem_cons hi, encodeAll_cons] at hle ⊢
    refine ⟨sizeAsEncoded_encode _ (by omega), ?_⟩
    have hshort : ([] ++ items[i].encode ++ encodeAll (items.drop (i + 1))).length < 2 ^ 64 := by
      rw [List.nil_append]
      omega
    exact cropped_append hshort
  · rw [itemBytes_of_ge (by omega), List.drop_eq_nil_of_le (by omega)]
    exact ⟨rfl, rfl⟩

theorem itemsLoop_encodeAll {rounds : Nat} (hrounds : (encodeAll items).length ≤ rounds) :
    itemsLoop rounds (encodeAll items) = .ok items.length := by
  induction items generalizing rounds with
  | nil =>
    cases rounds with
    | zero => rfl
    | succ rounds => rfl
  | cons item items ih =>
    have hpos := length_encode_pos item
    rw [encodeAll_cons, List.length_append] at hsize hrounds
    cases rounds with
    | zero => omega
    | succ rounds =>
      have hne : ¬ (item.encode ++ encodeAll items).length = 0 := by
        rw [List.length_append]
        omega
      rw [encodeAll_cons, itemsLoop, if_neg hne,
        sizeAsEncoded_encode item (by rw [List.length_append]; omega)]
      show (itemsLoop rounds (croppedFrom (item.encode ++ encodeAll items) item.encode.length) >>=
        fun i => Except.ok (i + 1)) = _
      rw [croppedFrom, List.drop_left, ih (by omega) (by omega)]
      rfl

end List

/-! ### Access in any order -/

/-- The cache holds the item at position `j`, or nothing when `j` is behind the last
    item. -/
structure Positioned (r : RLP) (items : List Item) (j : Nat) : Prop where
  data_eq : r.m_data = (Item.list items).encode
  index_eq : r.m_lastIndex = j
  end_eq : r.m_lastEnd = (encodeAll (items.take (j + 1))).length
  item_eq : r.m_lastItem = itemBytes items j

/-- A reader of the list `items`, after any number of accesses. -/
def Cached (r : RLP) (items : List Item) : Prop :=
  r = fresh (Item.list items).encode ∨ ∃ j, Positioned r items j

theorem Cached.data_eq {r : RLP} {items : List Item} (h : Cached r items) :
    r.m_data = (Item.list items).encode := by
  rcases h with rfl | ⟨j, hj⟩
  · rfl
  · exact hj.data_eq

section Access

variable {r : RLP} {items : List Item} (hsize : (Item.list items).encode.length < 2 ^ 64 - 257)
include hsize

theorem parsed_list (h : r.m_data = (Item.list items).encode) :
    Parsed r true (Item.list items).header (encodeAll items) [] := by
  rw [← List.append_nil (Item.list items).encode] at hsize h
  exact parsed_of_size _ hsize h

theorem payload_list (h : r.m_data = (Item.list items).encode) :
    r.payload = .ok (encodeAll items) := by
  apply (parsed_list hsize h).payload_eq
  rw [h]
  omega

/-- The number of items. -/
theorem items_encode (h : r.m_data = (Item.list items).encode) : r.items = .ok items.length := by
  rw [RLP.items, (parsed_list hsize h).isList_eq, if_pos rfl, payload_list hsize h]
  exact itemsLoop_encodeAll (Nat.lt_trans (length_encodeAll_lt items) hsize) (Nat.le_refl _)

/-- One round of the loop of `operator[]`. -/
theorem Positioned.next {j : Nat} (h : Positioned r items j) (hne : r.m_lastItem ≠ []) (n : Nat) :
    ∃ r', advance (n + 1) r = advance n r' ∧ Positioned r' items (j + 1) := by
  have hpayload := Nat.lt_trans (length_encodeAll_lt items) hsize
  obtain ⟨hfront, hcrop⟩ := front_drop hpayload (j + 1)
  have hrest : croppedFrom (encodeAll items) r.m_lastEnd = encodeAll (items.drop (j + 1)) := by
    conv => lhs; rw [← List.take_append_drop (j + 1) items, encodeAll_append]
    rw [croppedFrom, h.end_eq, List.drop_left]
  refine ⟨{ r with
    m_lastIndex := r.m_lastIndex + 1, m_lastEnd := r.m_lastEnd + (itemBytes items (j + 1)).length,
    m_lastItem := itemBytes items (j + 1) }, ?_, ?_⟩
  · rw [advance, if_neg (by simpa using hne), payload_list hsize h.data_eq]
    show (sizeAsEncoded (croppedFrom (encodeAll items) r.m_lastEnd) >>= _) = _
    rw [hrest, hfront]
    show advance n _ = _
    rw [hcrop]
  · refine ⟨h.data_eq, congrArg (· + 1) h.index_eq, ?_, rfl⟩
    show r.m_lastEnd + _ = _
    rw [h.end_eq, encodeAll_take_succ items (j + 1), List.length_append]

/-- The loop of `operator[]` stops at the item it is meant to reach. -/
theorem Positioned.advance {j : Nat} (h : Positioned r items j) (n : Nat) :
    ∃ r' j', advance n r = .ok r' ∧ Positioned r' items j' ∧
      itemBytes items j' = itemBytes items (j + n) := by
  induction n generalizing r j with
  | zero => exact ⟨r, j, rfl, h, rfl⟩
  | succ n ih =>
    by_cases hend : r.m_lastItem = []
    · -- Behind the last item the loop stops, and so would it later.
      have hge : items.length ≤ j := by
        by_contra hlt
        have hpos := length_encode_pos items[j]
        rw [← itemBytes_of_lt (by omega), ← h.item_eq, hend] at hpos
        exact absurd hpos (by decide)
      refine ⟨r, j, ?_, h, ?_⟩
      · rw [RLP.advance, if_pos (by rw [hend]; rfl)]
      · rw [itemBytes_of_ge hge, itemBytes_of_ge (by omega)]
    · obtain ⟨r', hstep, hnext⟩ := h.next hsize hend n
      obtain ⟨r'', j', hloop, hpos, hbytes⟩ := ih hnext
      refine ⟨r'', j', hstep.trans hloop, hpos, ?_⟩
      rw [hbytes, Nat.add_assoc, Nat.add_comm 1]

theorem new_itemBytes (i : Nat) :
    new (itemBytes items i) (throwOnFail ||| failIfTooSmall) = .ok (fresh (itemBytes items i)) := by
  by_cases hi : i < items.length
  · have hle : items[i].encode.length ≤ (encodeAll items).length := by
      conv => rhs; rw [← List.take_append_drop i items, List.drop_eq_getElem_cons hi,
        encodeAll_append, encodeAll_cons, List.length_append, List.length_append]
      omega
    have hpayload := length_encodeAll_lt items
    have hnew : (items[i].encode ++ []).length < 2 ^ 64 - 257 := by
      rw [List.append_nil]
      omega
    rw [itemBytes_of_lt hi, ← List.append_nil items[i].encode]
    exact new_encode _ hnew
  · rw [itemBytes_of_ge (by omega)]
    rfl

/-- The start of an access: the cache goes back to the first item, unless it holds
    the item or one before it. -/
theorem Cached.rewind (h : Cached r items) (i : Nat) :
    ∃ r', r.rewind i = .ok r' ∧ ((r' = fresh (Item.list items).encode ∧ items.length ≤ i) ∨
      ∃ j, j ≤ i ∧ Positioned r' items j) := by
  have hpayload := Nat.lt_trans (length_encodeAll_lt items) hsize
  by_cases hlt : i < r.m_lastIndex
  · -- The cache is behind the item: the first one is read again.
    obtain ⟨hfront, hcrop⟩ := front_drop hpayload 0
    rw [List.drop_zero] at hfront hcrop
    refine ⟨{ r with
      m_lastEnd := (itemBytes items 0).length, m_lastItem := itemBytes items 0, m_lastIndex := 0 },
      ?_, .inr ⟨0, Nat.zero_le i, h.data_eq, rfl, ?_, rfl⟩⟩
    · rw [RLP.rewind, if_pos hlt, payload_list hsize h.data_eq]
      show (sizeAsEncoded (encodeAll items) >>= _) = _
      rw [hfront]
      show Except.ok _ = _
      rw [hcrop]
    · show (itemBytes items 0).length = _
      rw [encodeAll_take_succ]
      rfl
  · refine ⟨r, if_neg hlt, ?_⟩
    rcases h with rfl | ⟨j, hj⟩
    · -- A fresh object has the largest index, which no item has.
      have hindex : (fresh (Item.list items).encode).m_lastIndex = 2 ^ 64 - 1 := rfl
      have hcount := length_le_encodeAll items
      rw [hindex] at hlt
      exact .inl ⟨rfl, by omega⟩
    · rw [hj.index_eq] at hlt
      exact .inr ⟨j, by omega, hj⟩

/-- An access returns the item, whatever was accessed before it. -/
theorem Cached.getItem (h : Cached r items) (i : Nat) :
    ∃ r', r.getItem i = .ok (fresh (itemBytes items i), r') ∧ Cached r' items := by
  obtain ⟨r₁, hrewind, hstart⟩ := h.rewind hsize i
  have hloop : ∃ r₂, RLP.advance (i - r₁.m_lastIndex) r₁ = .ok r₂ ∧ Cached r₂ items ∧
      r₂.m_lastItem = itemBytes items i := by
    rcases hstart with ⟨hfresh, hge⟩ | ⟨j, hj, hpos⟩
    · -- Nothing was accessed yet, and there is nothing at `i`.
      refine ⟨r₁, ?_, .inl hfresh, ?_⟩
      · rw [hfresh]
        cases i - (fresh (Item.list items).encode).m_lastIndex with
        | zero => rfl
        | succ n => rfl
      · rw [hfresh, itemBytes_of_ge hge]
        rfl
    · obtain ⟨r₂, j', hadvance, hpos', hbytes⟩ := hpos.advance hsize (i - j)
      refine ⟨r₂, ?_, .inr ⟨j', hpos'⟩, ?_⟩
      · rw [hpos.index_eq, hadvance]
      · rw [hpos'.item_eq, hbytes, Nat.add_sub_cancel' hj]
  obtain ⟨r₂, hadvance, hcached, hbytes⟩ := hloop
  refine ⟨r₂, ?_, hcached⟩
  unfold RLP.getItem
  rw [hrewind]
  show (RLP.advance (i - r₁.m_lastIndex) r₁ >>= _) = _
  rw [hadvance]
  show (new r₂.m_lastItem _ >>= _) = _
  rw [hbytes, new_itemBytes hsize i]
  rfl

end Access

/-! ### Strings -/

section Data

variable {r : RLP} {bytes : List UInt8} (hsize : (Item.data bytes).encode.length < 2 ^ 64 - 257)
  (h : r.m_data = (Item.data bytes).encode)
include hsize h

theorem parsed_data : Parsed r false (Item.data bytes).header bytes [] := by
  rw [← List.append_nil (Item.data bytes).encode] at hsize h
  exact parsed_of_size _ hsize h

theorem payload_data : r.payload = .ok bytes := by
  apply (parsed_data hsize h).payload_eq
  rw [h]
  omega

theorem toBytes_encode (flags : Nat) : r.toBytes flags = .ok bytes := by
  have hparsed := parsed_data hsize h
  rw [RLP.toBytes, hparsed.isData_eq, if_neg (by simp), payload_data hsize h, hparsed.length_eq]
  show Except.ok (bytes.take bytes.length) = _
  rw [List.take_length]

/-- A hash is read from its own bytes, and from the shortest form of its number. -/
theorem toHash_encode {size flags : Nat} (hle : bytes.length ≤ size)
    (hflags : flags &&& failIfTooSmall = 0) :
    r.toHash size flags = .ok (List.replicate (size - bytes.length) 0 ++ bytes) := by
  have hparsed := parsed_data hsize h
  unfold RLP.toHash
  rw [hparsed.good, payload_data hsize h]
  show (if _ then _ else Except.ok (_ ++ bytes.take (min size bytes.length))) = _
  rw [hparsed.isData_eq, if_neg]
  · rw [Nat.min_eq_right hle, List.take_length]
  · rintro (hdata | hbig | hsmall)
    · exact absurd hdata (by decide)
    · omega
    · exact hsmall.2 hflags

/-- A short string without a leading zero byte is an integer. -/
theorem isInt_encode (hshort : bytes.length < 56) (hhead : ∀ b ∈ bytes.head?, b ≠ 0) :
    r.isInt = .ok true := by
  have hparsed := parsed_data hsize h
  have hisInt : r.isInt =
      if r.byteAt 0 < 0x80 then .ok (decide (r.byteAt 0 ≠ 0))
      else if r.byteAt 0 = 0x80 then .ok true
      else if r.byteAt 0 ≤ 0xb7 then
        if r.m_data.length ≤ 1 then .error .badRLP else .ok (decide (r.byteAt 1 ≠ 0))
      else if r.byteAt 0 < 0xc0 then
        if r.m_data.length ≤ 1 + r.byteAt 0 - 0xb7 then .error .badRLP
        else .ok (decide (r.byteAt (1 + r.byteAt 0 - 0xb7) ≠ 0))
      else .ok false := by
    rw [RLP.isInt, hparsed.isNull_eq, hparsed.good]
    rfl
  have hbyte : ∀ b : UInt8, b ≠ 0 → b.toNat ≠ 0 := fun b hb hzero => hb (UInt8.toNat_inj.mp hzero)
  rw [encode_data] at h
  by_cases hsmall : IsSmall bytes
  · -- The byte itself.
    obtain ⟨c, rfl⟩ := List.length_eq_one_iff.mp hsmall.1
    rw [if_pos hsmall] at h
    have hfirst : r.byteAt 0 = c.toNat := by rw [RLP.byteAt, h]; rfl
    have hc : c.toNat < 0x80 := hsmall.2
    rw [hisInt, hfirst, if_pos hc, decide_eq_true (hbyte c (hhead c rfl))]
  · rw [if_neg hsmall, header, if_pos hshort] at h
    have hfirst : r.byteAt 0 = 0x80 + bytes.length := by
      rw [RLP.byteAt, h, List.singleton_append, List.getD_cons_zero, UInt8.toNat_ofNat']
      omega
    rw [hisInt, hfirst, if_neg (by omega)]
    cases bytes with
    | nil => exact if_pos rfl
    | cons b bytes =>
      have hsecond : r.byteAt 1 = b.toNat := by rw [RLP.byteAt, h]; rfl
      have hlen : ¬ r.m_data.length ≤ 1 := by
        rw [h, List.length_append, List.length_singleton, List.length_cons]
        omega
      rw [List.length_cons] at hshort ⊢
      rw [if_neg (by omega), if_pos (by omega), if_neg hlen, hsecond,
        decide_eq_true (hbyte b (hhead b rfl))]

theorem toInt_encode {size : Nat} (hle : bytes.length ≤ size) (hshort : bytes.length < 56)
    (hhead : ∀ b ∈ bytes.head?, b ≠ 0) : r.toInt size strict = .ok (BigEndian.toNat bytes) := by
  have hparsed := parsed_data hsize h
  unfold RLP.toInt
  rw [hparsed.good]
  show (r.isInt >>= _) = _
  rw [isInt_encode hsize h hshort hhead]
  show (if _ then _ else (r.payload >>= _)) = _
  rw [hparsed.isList_eq, hparsed.isNull_eq, if_neg (by simp), payload_data hsize h]
  show (if _ then _ else Except.ok (fromBigEndian size bytes)) = _
  rw [if_neg (by omega), fromBigEndian_eq hle]

end Data

end RLP

end ConfluxSdk
