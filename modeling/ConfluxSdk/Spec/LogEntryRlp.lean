import ConfluxSdk.Native.BloomFilter
import ConfluxSdk.Spec.TransactionRlp

/-!
# The RLP of a log entry

A log entry is streamed as a list of three items, the second of which is the list of
its topics. The topics are read back with an iterator. Between two steps it refers to
the item that comes next, with the bytes of the items behind it remaining; behind the
last item it refers to no bytes, at the end of the list, and that is where the loop
stops.

## Key results

- `RLP.Iterator.At`: where an iterator is in a list
- `RLP.toVector_encode`: a list of hashes is read back
- `LogEntry.streamRLP_readBack`: the round trip of a log entry
-/

namespace ConfluxSdk

open LengthPrefix Rlp

/-! ### References -/

namespace VectorRef

/-- The bytes between others. -/
theorem bytes_append (pre mid post : List UInt8) :
    (⟨some pre.length, mid.length⟩ : VectorRef).bytes (pre ++ mid ++ post) = mid := by
  show ((pre ++ mid ++ post).drop pre.length).take mid.length = mid
  rw [List.append_assoc, List.drop_left, List.take_left]

/-- Cropping within the bounds. -/
theorem cropped_of_le {p n begin count : Nat} (h : begin + count ≤ n) (hn : n < 2 ^ 64) :
    (⟨some p, n⟩ : VectorRef).cropped begin count = ⟨some (p + begin), count⟩ := by
  have hsum : sizeT (begin + count) = begin + count := sizeT_of_lt (by omega)
  apply if_pos
  rw [hsum]
  show begin ≤ n ∧ count ≤ n ∧ begin + count ≤ n
  omega

end VectorRef

namespace RLP

/-- The first item and the others. -/
theorem encodeAll_eq_front (items : List Item) :
    encodeAll items = itemBytes items 0 ++ encodeAll items.tail := by
  cases items with
  | nil => rfl
  | cons item items => exact encodeAll_cons item items

/-! ### The iterator -/

/-- The iterator has passed the items `done` of a list, and `rest` are to come. -/
structure Iterator.At (items done rest : List Item) (it : Iterator) : Prop where
  items_eq : items = done ++ rest
  item_eq : it.m_currentItem =
    ⟨some ((Item.list items).header.length + (encodeAll done).length), (itemBytes rest 0).length⟩
  remaining_eq : it.m_remaining = (encodeAll rest.tail).length

section Iterate

variable {r : RLP} {items : List Item} (hsize : (Item.list items).encode.length < 2 ^ 64 - 257)
  (hdata : r.m_data = (Item.list items).encode)

/-- The data of a list around the items that are still to come. -/
theorem data_eq_of_append (hdata : r.m_data = (Item.list items).encode) {done rest : List Item}
    (hitems : items = done ++ rest) :
    r.m_data = (Item.list items).header ++ encodeAll done ++ encodeAll rest := by
  have hpayload : (Item.list items).payload = encodeAll done ++ encodeAll rest := by
    show encodeAll items = _
    rw [hitems, encodeAll_append]
  rw [hdata, ← header_append_payload, hpayload, List.append_assoc]

include hsize in
theorem length_rest_lt {done rest : List Item} (hitems : items = done ++ rest) :
    (encodeAll rest).length < 2 ^ 64 - 257 := by
  have hlt := length_encodeAll_lt items
  rw [hitems, encodeAll_append, List.length_append, ← hitems] at hlt
  omega

include hsize hdata

/-- A reference to the items still to come, cropped to the first of them. -/
theorem crop_rest {done rest : List Item} (hitems : items = done ++ rest) {ref : VectorRef}
    (href : ref = ⟨some ((Item.list items).header.length + (encodeAll done).length),
      (encodeAll rest).length⟩) :
    sizeAsEncoded (ref.bytes r.m_data) = .ok (itemBytes rest 0).length ∧
      ref.cropped 0 (itemBytes rest 0).length = ⟨ref.m_data, (itemBytes rest 0).length⟩ := by
  have hrest := length_rest_lt hsize hitems
  have hfront := (front_drop hrest 0).1
  rw [List.drop_zero] at hfront
  have hbytes := VectorRef.bytes_append ((Item.list items).header ++ encodeAll done)
    (encodeAll rest) []
  rw [List.append_nil, ← data_eq_of_append hdata hitems, List.length_append] at hbytes
  have hle : (itemBytes rest 0).length ≤ (encodeAll rest).length := by
    rw [encodeAll_eq_front rest, List.length_append]
    omega
  rw [href, hbytes]
  exact ⟨hfront, VectorRef.cropped_of_le (by omega) (by omega)⟩

theorem payloadRef_list :
    r.payloadRef = .ok ⟨some (Item.list items).header.length, (encodeAll items).length⟩ := by
  have hparsed := parsed_list hsize hdata
  have hlen : r.m_data.length = (Item.list items).header.length + (encodeAll items).length := by
    rw [hdata, ← header_append_payload, List.length_append]
    rfl
  have hshort : ¬ (encodeAll items).length > r.m_data.length := by omega
  have hlt : r.m_data.length < 2 ^ 64 := by
    rw [hdata]
    omega
  rw [payloadRef, hparsed.length_eq]
  show (if (encodeAll items).length > r.m_data.length then _ else _) = _
  rw [if_neg hshort, hparsed.offset_eq, VectorRef.whole, VectorRef.cropped_of_le (by omega) hlt,
    Nat.zero_add]

/-- `begin` of a list. -/
theorem Iterator.new_begin : ∃ it, Iterator.new r true = .ok it ∧ it.At items [] items := by
  have hlist := (parsed_list hsize hdata).isList_eq
  obtain ⟨hfront, hcrop⟩ := crop_rest hsize hdata (List.nil_append items).symm rfl
  rw [encodeAll_nil, List.length_nil, Nat.add_zero] at hfront hcrop
  have hlen := congrArg List.length (encodeAll_eq_front items)
  rw [List.length_append] at hlen
  refine ⟨⟨(encodeAll items).length - (itemBytes items 0).length,
    some (Item.list items).header.length, (itemBytes items 0).length⟩, ?_, rfl, rfl, ?_⟩
  · rw [Iterator.new, hlist, payloadRef_list hsize hdata]
    show (sizeAsEncoded _ >>= _) = _
    rw [hfront]
    show Except.ok (Iterator.mk _ _) = _
    rw [hcrop]
  · show (encodeAll items).length - (itemBytes items 0).length = _
    omega

omit hsize in
/-- `end` of a list. -/
theorem Iterator.new_end : ∃ it, Iterator.new r false = .ok it ∧ it.At items items [] := by
  have hlen : (Item.list items).header.length + (encodeAll items).length = r.m_data.length := by
    rw [hdata, ← header_append_payload, List.length_append]
    rfl
  refine ⟨_, rfl, (List.append_nil items).symm, ?_, rfl⟩
  show VectorRef.croppedFrom ⟨some 0, r.m_data.length⟩ r.m_data.length = ⟨some _, 0⟩
  rw [hlen, VectorRef.croppedFrom]
  simp

/-- A step of the iterator. -/
theorem Iterator.At.next {done rest : List Item} {item : Item} {it : Iterator}
    (h : it.At items done (item :: rest)) :
    ∃ it', it.next r = .ok it' ∧ it'.At items (done ++ [item]) rest := by
  have hitems : items = (done ++ [item]) ++ rest := by
    rw [h.items_eq, List.append_assoc]
    rfl
  have hpos : (Item.list items).header.length + (encodeAll done).length + item.encode.length =
      (Item.list items).header.length + (encodeAll (done ++ [item])).length := by
    simp only [encodeAll_append, encodeAll_cons, encodeAll_nil, List.append_nil, List.length_append]
    omega
  have hptr : it.m_currentItem.next.m_data =
      some ((Item.list items).header.length + (encodeAll (done ++ [item])).length) := by
    rw [VectorRef.next, h.item_eq, ← hpos]
    rfl
  have hremaining : it.m_remaining = (encodeAll rest).length := h.remaining_eq
  unfold Iterator.next
  rw [hptr, hremaining]
  by_cases hmore : (encodeAll rest).length ≠ 0
  · obtain ⟨hfront, hcrop⟩ := crop_rest hsize hdata hitems rfl
    have hlen := congrArg List.length (encodeAll_eq_front rest)
    rw [List.length_append] at hlen
    refine ⟨⟨(encodeAll rest).length - min (encodeAll rest).length (itemBytes rest 0).length,
      some ((Item.list items).header.length + (encodeAll (done ++ [item])).length),
      (itemBytes rest 0).length⟩, ?_, hitems, rfl, ?_⟩
    · rw [if_pos hmore]
      show (sizeAsEncoded _ >>= _) = _
      rw [hfront]
      show Except.ok (Iterator.mk _ _) = _
      rw [hcrop]
    · show _ - min _ _ = _
      omega
  · -- Behind the last item nothing remains.
    have hcount := length_le_encodeAll rest
    have hnil : rest = [] := List.length_eq_zero_iff.mp (by omega)
    rw [if_neg hmore]
    subst hnil
    exact ⟨_, rfl, hitems, rfl, rfl⟩

/-- What the iterator refers to between two steps. -/
theorem Iterator.At.deref {done rest : List Item} {item : Item} {it : Iterator}
    (h : it.At items done (item :: rest)) : it.deref r = .ok (fresh item.encode) := by
  have hbytes := VectorRef.bytes_append ((Item.list items).header ++ encodeAll done) item.encode
    (encodeAll rest)
  have hdone := data_eq_of_append hdata h.items_eq
  rw [encodeAll_cons, ← List.append_assoc] at hdone
  have hle := length_rest_lt hsize h.items_eq
  rw [encodeAll_cons, List.length_append] at hle
  rw [Iterator.deref, h.item_eq, hdone]
  show RLP.new (VectorRef.bytes ⟨some _, item.encode.length⟩ _) veryStrict = _
  rw [← List.length_append, hbytes, new_veryStrict item (by omega)]

end Iterate

/-- The end is recognised by its pointer, and only there. -/
theorem Iterator.At.eq_iff {items done rest : List Item} {it last : Iterator}
    (h : it.At items done rest) (hlast : last.At items items []) :
    it.eq last = true ↔ rest = [] := by
  rw [Iterator.eq, beq_iff_eq, h.item_eq, hlast.item_eq, VectorRef.mk.injEq]
  constructor
  · intro heq
    cases rest with
    | nil => rfl
    | cons item rest =>
      have hpos := length_encode_pos item
      have hzero : item.encode.length = 0 := heq.2
      omega
  · intro hnil
    have hdone : items = done := by
      rw [h.items_eq, hnil, List.append_nil]
    rw [hnil, ← hdone]
    exact ⟨rfl, rfl⟩

/-! ### Hashes -/

/-- A hash, as a string. -/
def hashItem {n : Nat} (hash : FixedHash n) : Item := .data hash.bytes

theorem convertHash_encode {n flags : Nat} (hash : FixedHash n) {r : RLP}
    (hsize : (hashItem hash).encode.length < 2 ^ 64 - 257)
    (hdata : r.m_data = (hashItem hash).encode) (hflags : flags &&& failIfTooSmall = 0) :
    r.convertHash n flags = .ok hash := by
  apply convertHash_eq
  rw [toHash_encode hsize hdata (Nat.le_of_eq hash.size_eq) hflags, hash.size_eq, Nat.sub_self]
  rfl

section Vector

variable {r : RLP} {n : Nat} {hashes : List (FixedHash n)}
  (hsize : (Item.list (hashes.map hashItem)).encode.length < 2 ^ 64 - 257)
  (hdata : r.m_data = (Item.list (hashes.map hashItem)).encode)
include hsize hdata

/-- The loop reads the hashes that are still to come. -/
theorem toVectorLoop_encode {flags : Nat} (hflags : flags &&& failIfTooSmall = 0) {last : Iterator}
    (hlast : last.At (hashes.map hashItem) (hashes.map hashItem) []) {rest : List (FixedHash n)}
    {done : List Item} {it : Iterator} (h : it.At (hashes.map hashItem) done (rest.map hashItem))
    {rounds : Nat} (hrounds : (encodeAll (rest.map hashItem)).length < rounds) :
    toVectorLoop r n flags last rounds it = some (.ok rest) := by
  induction rest generalizing done it rounds with
  | nil =>
    cases rounds with
    | zero => omega
    | succ rounds => rw [toVectorLoop, if_pos ((h.eq_iff hlast).mpr rfl)]
  | cons hash rest ih =>
    cases rounds with
    | zero => omega
    | succ rounds =>
      have hend : ¬ it.eq last = true := by
        rw [h.eq_iff hlast]
        exact List.cons_ne_nil _ _
      -- The item is short enough to be read, since the whole list is.
      have hle := length_rest_lt hsize h.items_eq
      have hpos := length_encode_pos (hashItem hash)
      rw [List.map_cons, encodeAll_cons, List.length_append] at hrounds hle
      have hhash : hashAt r n flags it = .ok hash := by
        rw [hashAt, Iterator.At.deref hsize hdata h]
        exact convertHash_encode hash (by omega) rfl hflags
      obtain ⟨it', hnext, hat⟩ := Iterator.At.next hsize hdata h
      rw [toVectorLoop, if_neg hend, hhash]
      simp only [hnext]
      rw [ih hat (by omega)]
      rfl

/-- A list of hashes is read back. -/
theorem toVector_encode {flags : Nat} (hflags : flags &&& failIfTooSmall = 0) :
    r.toVector n flags = .ok hashes := by
  have hlist := (parsed_list hsize hdata).isList_eq
  have hcount : r.itemCount = .ok (hashes.map hashItem).length := by
    rw [itemCount, if_pos hlist, items_encode hsize hdata]
  obtain ⟨first, hfirst, hatFirst⟩ := Iterator.new_begin hsize hdata
  obtain ⟨last, hlast, hatLast⟩ := Iterator.new_end hdata
  have hleft : (encodeAll (hashes.map hashItem)).length < first.left + 1 := by
    rw [Iterator.left, hatFirst.remaining_eq, hatFirst.item_eq, encodeAll_eq_front,
      List.length_append]
    show _ < _ + (itemBytes (hashes.map hashItem) 0).length + 1
    omega
  have hloop := toVectorLoop_encode hsize hdata hflags hatLast hatFirst hleft
  rw [toVector, if_pos hlist, hcount]
  simp only [bind, Except.bind, hfirst, hlast]
  exact Option.get_of_eq_some _ hloop

end Vector

end RLP

/-! ### Log entries -/

namespace LogEntry

open RLP (hashItem)

variable (l : LogEntry)

/-- The three items of a log entry. -/
def rlpItems : List Item :=
  [hashItem l.address, .list (l.topics.map hashItem), .data l.data.toList]

/-- The list that is streamed. -/
def rlpItem : Item := .list l.rlpItems

theorem appendVector_eq {n : Nat} (v : List (FixedHash n)) (s : RLPStream) :
    s.appendVector v = RLPStream.appendItem (.list (v.map hashItem)) s := by
  have hloop : ∀ (v : List (FixedHash n)) (s : RLPStream),
      RLPStream.appendVectorLoop v s = RLPStream.appendItems (v.map hashItem) s := by
    intro v
    induction v with
    | nil =>
      intro s
      rw [List.map_nil, RLPStream.appendItems]
      rfl
    | cons hash v ih =>
      intro s
      rw [RLPStream.appendVectorLoop, List.map_cons, RLPStream.appendItems, hashItem,
        RLPStream.appendItem]
      simp only [ih]
  rw [RLPStream.appendVector, RLPStream.appendItem, List.length_map]
  simp only [hloop]

theorem streamRLP_eq (s : RLPStream) : l.streamRLP s = RLPStream.appendItem l.rlpItem s := by
  have hdata : ∀ (s : RLPStream) b, s.append b false = RLPStream.appendItem (.data b) s := by
    intro s b
    rw [RLPStream.appendItem]
  have hlast : ∀ x : Except RlpError RLPStream, (x >>= fun s => .ok s) = x := by
    intro x
    cases x <;> rfl
  rw [streamRLP, rlpItem, RLPStream.appendItem, rlpItems]
  simp only [hdata, appendVector_eq, RLPStream.appendItems, hlast]
  rfl

/-! ### What is written -/

/-- Strings, and so everything a log entry is made of but its lists, are appended
    whatever their length. -/
theorem appendItem_data {bytes : List UInt8} (h : bytes.length < 2 ^ 64) (s : RLPStream) :
    RLPStream.appendItem (.data bytes) s =
      RLPStream.noteAppended { s with m_out := s.m_out ++ (Item.data bytes).encode } 1 := by
  rw [RLPStream.appendItem, RLPStream.append_eq s h]

theorem appendItem_hash {n : Nat} (hash : FixedHash n) (hn : n < 2 ^ 64) (s : RLPStream) :
    RLPStream.appendItem (hashItem hash) s =
      RLPStream.noteAppended { s with m_out := s.m_out ++ (hashItem hash).encode } 1 := by
  have hlen : hash.bytes.length < 2 ^ 64 := by rwa [hash.size_eq]
  exact appendItem_data hlen s

/-- The stream writes the encoding of the entry, or throws since one of its two lists is
    too long for a header. -/
theorem streamRLP_eq_or_error :
    l.streamRLP .empty = .ok ⟨l.rlpItem.encode, []⟩ ∨ ∃ e, l.streamRLP .empty = .error e := by
  have htopics : ∀ item ∈ l.topics.map hashItem, ∀ s : RLPStream,
      RLPStream.appendItem item s =
        RLPStream.noteAppended { s with m_out := s.m_out ++ item.encode } 1 := by
    intro item hitem s
    obtain ⟨hash, _, rfl⟩ := List.mem_map.mp hitem
    exact appendItem_hash hash (by decide) s
  have hdata := l.data.size_lt
  rw [streamRLP_eq, rlpItem]
  by_cases hfits : (encodeAll (l.topics.map hashItem)).length < 2 ^ 64
  · have hitems : ∀ item ∈ l.rlpItems, ∀ s : RLPStream, RLPStream.appendItem item s =
        RLPStream.noteAppended { s with m_out := s.m_out ++ item.encode } 1 := by
      intro item hitem s
      simp only [rlpItems, List.mem_cons, List.not_mem_nil, or_false] at hitem
      rcases hitem with rfl | rfl | rfl
      · exact appendItem_hash l.address (by decide) s
      · rw [RLPStream.appendItem_list htopics, if_pos hfits]
      · exact appendItem_data (by omega) s
    rw [RLPStream.appendItem_list hitems]
    split
    · exact .inl rfl
    · exact .inr ⟨_, rfl⟩
  · -- The topics alone are too long.
    have herror : ∀ s, ∃ e, RLPStream.appendItem (.list (l.topics.map hashItem)) s = .error e := by
      intro s
      rw [RLPStream.appendItem_list htopics, if_neg hfits]
      exact ⟨_, rfl⟩
    have hmem : Item.list (l.topics.map hashItem) ∈ l.rlpItems := by
      simp [rlpItems]
    obtain ⟨e, he⟩ := RLPStream.appendItems_error hmem herror ⟨[], [(3, 0)]⟩
    refine .inr ⟨e, ?_⟩
    rw [RLPStream.appendItem]
    exact he

/-- The size of what is written. -/
theorem length_rlpItem_encode_lt (h : 33 * l.topics.length + l.data.size + 64 < 2 ^ 63) :
    l.rlpItem.encode.length < 2 ^ 63 := by
  -- A hash has one byte of header, the topics and the data have theirs once.
  have hhash : ∀ {n : Nat} (hash : FixedHash n), n ≤ 32 →
      (hashItem hash).encode.length ≤ 1 + n := by
    intro n hash hn
    have hlen : (Item.data hash.bytes).encode.length ≤ 1 + hash.bytes.length := by
      rw [encode_data]
      split
      · omega
      · rw [header, if_pos (by rw [hash.size_eq]; omega), List.length_append]
        exact Nat.le_refl _
    rwa [hash.size_eq] at hlen
  have htopics : ∀ topics : List (FixedHash 32),
      (encodeAll (topics.map hashItem)).length ≤ 33 * topics.length := by
    intro topics
    induction topics with
    | nil => exact Nat.le_refl _
    | cons topic topics ih =>
      have hfirst := hhash topic (Nat.le_refl _)
      rw [List.map_cons, encodeAll_cons, List.length_append, List.length_cons]
      omega
  have haddress := hhash l.address (by decide)
  have hlist := htopics l.topics
  have hsize : l.data.toList.length = l.data.size := rfl
  have hdata : (Item.data l.data.toList).encode.length ≤ 8 + 1 + l.data.toList.length :=
    length_data_encode_le (by
      show _ < 2 ^ 64
      omega)
  have hheader : (header 0xc0 (encodeAll (l.topics.map hashItem)).length).length ≤ 8 + 1 :=
    length_header_le (by
      show _ < 2 ^ 64
      omega)
  have hpayload : (encodeAll l.rlpItems).length ≤ 33 * l.topics.length + l.data.size + 48 := by
    simp only [rlpItems, encodeAll_cons, encodeAll_nil, List.append_nil, List.length_append,
      encode_list]
    omega
  have hheader' : (header 0xc0 (encodeAll l.rlpItems).length).length ≤ 8 + 1 :=
    length_header_le (by
      show _ < 2 ^ 64
      omega)
  -- The header of the whole entry comes last.
  rw [rlpItem, encode_list, List.length_append]
  omega

/-! ### What is read -/

theorem ofRLP_encode (hsize : l.rlpItem.encode.length < 2 ^ 63) :
    ofRLP (RLP.fresh l.rlpItem.encode) = .ok { l with cfx_address := .default } := by
  have hlen : (Item.list l.rlpItems).encode.length < 2 ^ 64 - 257 := by
    have : (Item.list l.rlpItems).encode.length < 2 ^ 63 := hsize
    omega
  have hshort : ∀ item ∈ l.rlpItems, item.encode.length < 2 ^ 64 - 257 := by
    intro item hitem
    have hle := length_encode_le hitem
    have hlt := length_encodeAll_lt l.rlpItems
    omega
  have hcached : RLP.Cached (RLP.fresh l.rlpItem.encode) l.rlpItems := .inl rfl
  have hcount := (hcached.itemCount hlen).2
  -- Each access returns its item and a cache for the next one.
  obtain ⟨r₁, h₀, hcached₁⟩ := hcached.getItem hlen 0
  obtain ⟨r₂, h₁, hcached₂⟩ := hcached₁.getItem hlen 1
  obtain ⟨r₃, h₂, hcached₃⟩ := hcached₂.getItem hlen 2
  have haddress : (RLP.fresh (RLP.itemBytes l.rlpItems 0)).convertHash 20 RLP.strict =
      .ok l.address :=
    RLP.convertHash_encode l.address (hshort _ (by simp [rlpItems])) rfl rfl
  have htopics : (RLP.fresh (RLP.itemBytes l.rlpItems 1)).toVector 32 RLP.laissezFaire =
      .ok l.topics :=
    RLP.toVector_encode (hshort _ (by simp [rlpItems])) rfl rfl
  have hdata : (RLP.fresh (RLP.itemBytes l.rlpItems 2)).toBytes RLP.laissezFaire =
      .ok l.data.toList :=
    RLP.toBytes_encode (hshort _ (by simp [rlpItems])) rfl _
  have hthree : ¬ l.rlpItems.length ≠ 3 := by
    intro h
    exact h rfl
  simp only [ofRLP, hcount, Except.mapError, bind, Except.bind, if_neg hthree, h₀, haddress, h₁,
    htopics, h₂, hdata, dif_pos l.data.size_lt]

/-! ### The round trip -/

/-- A log entry is written if a vector can hold it, and what is written is a list of
    three items that is read back as the entry. -/
theorem streamRLP_readBack (l : LogEntry) :
    (33 * l.topics.length + l.data.size + 64 < 2 ^ 63 →
      ∃ out : Bytes, l.streamRLP .empty = .ok ⟨out.toList, []⟩) ∧
    ∀ out : Bytes, l.streamRLP .empty = .ok ⟨out.toList, []⟩ →
      ∃ r l', RLP.new out.toList RLP.veryStrict = .ok r ∧ r.isList = true ∧
        r.itemCount = .ok 3 ∧ ofRLP r = .ok l' ∧ l'.address = l.address ∧
        l'.topics = l.topics ∧ l'.data = l.data := by
  have hwritten := l.streamRLP_eq_or_error
  constructor
  · intro hfits
    have hsize := l.length_rlpItem_encode_lt hfits
    refine ⟨⟨l.rlpItem.encode, hsize⟩, ?_⟩
    rw [streamRLP_eq, RLPStream.appendItem_empty _ (by omega)]
  · intro out hout
    -- Nothing but the encoding can have been written.
    have hitem : out.toList = l.rlpItem.encode := by
      rcases hwritten with h | ⟨e, he⟩
      · rw [h] at hout
        exact (congrArg RLPStream.m_out (Except.ok.inj hout)).symm
      · rw [he] at hout
        cases hout
    have hsize : l.rlpItem.encode.length < 2 ^ 63 := by
      rw [← hitem]
      exact out.size_lt
    -- A vector holds less than the reader can, so no size wraps.
    have hlen : (Item.list l.rlpItems).encode.length < 2 ^ 64 - 257 := by
      show l.rlpItem.encode.length < _
      omega
    have hcached : RLP.Cached (RLP.fresh l.rlpItem.encode) l.rlpItems := .inl rfl
    obtain ⟨hlist, hcount⟩ := hcached.itemCount hlen
    refine ⟨RLP.fresh l.rlpItem.encode, { l with cfx_address := .default }, ?_, hlist, hcount,
      l.ofRLP_encode hsize, rfl, rfl, rfl⟩
    rw [hitem]
    exact RLP.new_veryStrict _ hlen

/-- An entry with two topics and enough data for a long header. -/
def sample : LogEntry where
  address := .ofNat 20 0x1a3d17aab67a48abb1d39e059b5391b64a91d530
  cfx_address := .default
  topics := [.ofNat 32 1, .ofNat 32 (2 ^ 255)]
  data := ⟨List.replicate 60 0x2a, by decide⟩

theorem streamRLP_readBack_sample :
    ∃ (out : Bytes) (r : RLP) (l' : LogEntry), sample.streamRLP .empty = .ok ⟨out.toList, []⟩ ∧
      RLP.new out.toList RLP.veryStrict = .ok r ∧ ofRLP r = .ok l' ∧
      l'.topics = [.ofNat 32 1, .ofNat 32 (2 ^ 255)] := by
  obtain ⟨hwrite, hread⟩ := streamRLP_readBack sample
  obtain ⟨out, hout⟩ := hwrite (by decide)
  obtain ⟨r, l', hnew, _, _, hparse, _, htopics, _⟩ := hread out hout
  exact ⟨out, r, l', hout, hnew, hparse, htopics⟩

end LogEntry

end ConfluxSdk
