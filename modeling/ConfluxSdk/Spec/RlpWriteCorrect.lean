import ConfluxSdk.ForStd.LengthPrefix
import ConfluxSdk.Native.Rlp

/-!
# RLPStream writes length-prefixed items

Appending an item to a stream, of whatever nesting, appends its encoding and notes
one item: the header that `noteAppended` inserts in front of the items of a list is
the one the list is specified to have, and a completed list counts as one item of
the list around it.

## Key results

- `Rlp.storeBack_append`: the loop that stores a number backwards
- `RLPStream.closeList_append`: what the end of a list does to the output
- `RLPStream.appendItem_eq`: appending an item is appending its encoding
-/

namespace ConfluxSdk

open LengthPrefix

namespace Rlp

theorem bytesRequired_eq (n : Nat) : bytesRequired n = (BigEndian.ofNat n).length := by
  induction n using Nat.strong_induction_on with
  | _ n ih =>
    rw [bytesRequired]
    by_cases hn : n = 0
    · rw [dif_pos hn, hn, BigEndian.ofNat_zero, List.length_nil]
    · have hdiv : n >>> 8 = n / 256 := Nat.shiftRight_eq_div_pow n 8
      have hn' : 0 < n := by omega
      rw [dif_neg hn, hdiv, ih (n / 256) (by omega), BigEndian.ofNat_pos hn', List.length_append]
      rfl

/-- The bytes of a number fill a gap of their length. -/
theorem storeBack_append (n : Nat) (pre gap post : List UInt8)
    (hgap : gap.length = (BigEndian.ofNat n).length) :
    storeBack (pre ++ gap ++ post) (pre.length + gap.length - 1) n =
      pre ++ BigEndian.ofNat n ++ post := by
  induction n using Nat.strong_induction_on generalizing gap post with
  | _ n ih =>
    rw [storeBack]
    by_cases hn : n = 0
    · rw [hn, BigEndian.ofNat_zero, List.length_nil, List.length_eq_zero_iff] at hgap
      rw [dif_pos hn, hn, BigEndian.ofNat_zero, hgap]
    · have hdiv : n >>> 8 = n / 256 := Nat.shiftRight_eq_div_pow n 8
      rw [BigEndian.ofNat_pos (by omega), List.length_append, List.length_singleton] at hgap
      obtain ⟨gap', g, rfl⟩ : ∃ gap' g, gap = gap' ++ [g] := by
        refine ⟨gap.dropLast, gap.getLast (by rintro rfl; simp at hgap), ?_⟩
        rw [List.dropLast_append_getLast]
      rw [List.length_append, List.length_singleton] at hgap
      -- The last byte of the gap is stored, and the rest of the number goes before it.
      have hset : (pre ++ (gap' ++ [g]) ++ post).set (pre.length + (gap' ++ [g]).length - 1)
          (UInt8.ofNat n) = pre ++ gap' ++ (UInt8.ofNat n :: post) := by
        have hpos : pre.length + (gap' ++ [g]).length - 1 = (pre ++ gap').length := by
          simp only [List.length_append, List.length_singleton]
          omega
        have hlist : pre ++ (gap' ++ [g]) ++ post = (pre ++ gap') ++ g :: post := by simp
        rw [hpos, hlist, List.set_append_right _ _ (Nat.le_refl _), Nat.sub_self]
        rfl
      have hpos : pre.length + (gap' ++ [g]).length - 1 - 1 = pre.length + gap'.length - 1 := by
        rw [List.length_append, List.length_singleton]
        omega
      rw [dif_neg hn, hset, hpos, hdiv, ih (n / 256) (by omega) gap' _ (by omega),
        BigEndian.ofNat_pos (n := n) (by omega)]
      simp

/-- Eight bytes are enough for every length. -/
theorem bytesRequired_le {n : Nat} (h : n < 2 ^ 64) : bytesRequired n ≤ 8 := by
  rw [bytesRequired_eq, BigEndian.length_ofNat_le_iff]
  exact h

end Rlp

namespace RLPStream

open Rlp

/-! ### Lists -/

/-- The end of a list: the header goes in front of the items. -/
theorem closeList_append (pre payload : List UInt8) (h : payload.length < 2 ^ 64) :
    closeList (pre ++ payload) pre.length =
      .ok (pre ++ (header 0xc0 payload.length ++ payload)) := by
  have hbrs := bytesRequired_le h
  have hsize : (pre ++ payload).length - pre.length = payload.length := by
    rw [List.length_append]
    omega
  -- The items move up, and the gap before them still holds old bytes.
  have hmove : ∀ k, ∃ gap : List UInt8, gap.length = k ∧
      memmove (pre ++ payload ++ List.replicate k 0) (pre.length + k) pre.length payload.length =
        pre ++ gap ++ payload := by
    intro k
    refine ⟨(payload ++ List.replicate k 0).take k, by simp, ?_⟩
    have hlist : pre ++ payload ++ List.replicate k 0 = pre ++ (payload ++ List.replicate k 0) :=
      List.append_assoc _ _ _
    have hdrop : (pre ++ (payload ++ List.replicate k 0)).drop (pre.length + k + payload.length) =
        [] := by
      apply List.drop_eq_nil_of_le
      simp only [List.length_append, List.length_replicate]
      omega
    rw [memmove, hlist, List.take_length_add_append, List.drop_left, List.take_left, hdrop,
      List.append_nil]
  unfold closeList
  simp only [hsize]
  by_cases hshort : payload.length < listImmLenCount
  · obtain ⟨gap, hgap, hmoved⟩ := hmove 1
    obtain ⟨g, rfl⟩ := List.length_eq_one_iff.mp hgap
    have hshort' : payload.length < 56 := hshort
    rw [if_pos hshort, if_pos hshort, hmoved, header, if_pos hshort']
    rw [List.append_assoc, List.set_append_right _ _ (Nat.le_refl _), Nat.sub_self]
    rfl
  · obtain ⟨gap, hgap, hmoved⟩ := hmove (1 + bytesRequired payload.length)
    obtain ⟨g, gap', rfl⟩ := List.exists_cons_of_length_eq_add_one
      (hgap.trans (Nat.add_comm _ _))
    rw [List.length_cons] at hgap
    have hlong : ¬ payload.length < 56 := hshort
    rw [if_neg hshort, if_neg hshort, if_pos, hmoved, header, if_neg hlong]
    · have hset : (pre ++ (g :: gap') ++ payload).set pre.length
          (UInt8.ofNat (listIndLenZero + bytesRequired payload.length)) =
          (pre ++ [UInt8.ofNat (listIndLenZero + bytesRequired payload.length)]) ++ gap' ++
            payload := by
        rw [List.append_assoc, List.set_append_right _ _ (Nat.le_refl _), Nat.sub_self]
        simp
      have hpos : pre.length + bytesRequired payload.length =
          (pre ++ [UInt8.ofNat (listIndLenZero + bytesRequired payload.length)]).length +
            gap'.length - 1 := by
        rw [List.length_append, List.length_singleton]
        omega
      rw [hset, hpos, storeBack_append _ _ _ _ (by rw [← bytesRequired_eq]; omega),
        bytesRequired_eq]
      simp [listIndLenZero, listStart, listImmLenCount, maxLengthBytes]
    · show 0xf7 + bytesRequired payload.length ≤ 0xff
      omega

/-- A list whose length takes more than eight bytes has no header. -/
theorem closeList_too_large (pre payload : List UInt8) (h : 2 ^ 64 ≤ payload.length) :
    closeList (pre ++ payload) pre.length =
      .error (.rlpException "itemCount too large for RLP".toList) := by
  have hsize : (pre ++ payload).length - pre.length = payload.length := by
    rw [List.length_append]
    omega
  have hbrs : ¬ bytesRequired payload.length ≤ 8 := by
    rw [bytesRequired_eq, BigEndian.length_ofNat_le_iff]
    show ¬ payload.length < 2 ^ 64
    omega
  have hlong : ¬ payload.length < listImmLenCount := by
    show ¬ payload.length < 56
    omega
  have hfits : ¬ listIndLenZero + bytesRequired payload.length ≤ 0xff := by
    show ¬ 0xf7 + bytesRequired payload.length ≤ 0xff
    omega
  unfold closeList
  simp only [hsize]
  rw [if_neg hlong, if_neg hfits]

/-! ### Strings and numbers -/

theorem pushInt_eq (s : RLPStream) (n : Nat) :
    s.pushInt n (bytesRequired n) = { s with m_out := s.m_out ++ BigEndian.ofNat n } := by
  have hgap : (List.replicate (bytesRequired n) (0 : UInt8)).length =
      (BigEndian.ofNat n).length := by rw [List.length_replicate, bytesRequired_eq]
  have hstore := storeBack_append n s.m_out (List.replicate (bytesRequired n) 0) [] hgap
  rw [List.append_nil, List.append_nil, ← List.length_append] at hstore
  rw [pushInt]
  simp only [hstore]

/-- The long form of a header. -/
theorem pushCount_eq (s : RLPStream) {count base : Nat} (hcount : count < 2 ^ 64)
    (hbase : base ≤ 0xf7) :
    s.pushCount count base = .ok { s with
      m_out := s.m_out ++ UInt8.ofNat (base + (BigEndian.ofNat count).length) ::
        BigEndian.ofNat count } := by
  have hle := bytesRequired_le hcount
  have hfits : ¬ bytesRequired count + base > 0xff := by omega
  unfold pushCount
  rw [if_neg hfits, pushInt_eq, pushBack, bytesRequired_eq, Nat.add_comm _ base]
  simp

theorem append_eq (s : RLPStream) {b : List UInt8} (h : b.length < 2 ^ 64) :
    s.append b false =
      noteAppended { s with m_out := s.m_out ++ (Item.data b).encode } 1 := by
  unfold append
  simp only [Bool.false_eq_true, if_false]
  rw [encode_data]
  by_cases hsmall : IsSmall b
  · obtain ⟨c, rfl⟩ := List.length_eq_one_iff.mp hsmall.1
    have hbyte : [c].length = 1 ∧ ([c].headD 0).toNat < dataImmLenStart := hsmall
    rw [if_pos hbyte, if_pos hsmall]
    show noteAppended (s.pushBack c.toNat) 1 = _
    rw [pushBack, UInt8.ofNat_toNat]
  · have hlarge : ¬ (b.length = 1 ∧ (b.headD 0).toNat < dataImmLenStart) := hsmall
    rw [if_neg hlarge, if_neg hsmall, header]
    by_cases hshort : b.length < 56
    · have hshort' : b.length < dataImmLenCount := hshort
      rw [if_pos hshort', if_pos hshort]
      show noteAppended ⟨s.m_out ++ [UInt8.ofNat (b.length + 0x80)] ++ b, s.m_listStack⟩ 1 = _
      rw [List.append_assoc, Nat.add_comm b.length]
    · have hlong : ¬ b.length < dataImmLenCount := hshort
      rw [if_neg hlong, if_neg hshort, pushCount_eq s h (by decide)]
      show noteAppended ⟨s.m_out ++ _ ++ b, s.m_listStack⟩ 1 = _
      rw [List.append_assoc]
      rfl

/-- A number is appended as the shortest string for it. -/
theorem appendInt_eq (s : RLPStream) {n : Nat} (h : (BigEndian.ofNat n).length < 2 ^ 64) :
    s.appendInt n = s.append (BigEndian.ofNat n) false := by
  rw [append_eq s h, encode_data]
  unfold appendInt
  by_cases hzero : n = 0
  · have hsmall : ¬ IsSmall (BigEndian.ofNat 0) := by
      rw [BigEndian.ofNat_zero]
      decide
    rw [if_pos hzero, hzero, if_neg hsmall, BigEndian.ofNat_zero]
    rfl
  · rw [if_neg hzero]
    by_cases hbyte : n < 0x80
    · -- The byte of a small number is its own encoding.
      have hone : BigEndian.ofNat n = [UInt8.ofNat n] := by
        rw [BigEndian.ofNat_pos (by omega), Nat.div_eq_of_lt (by omega), BigEndian.ofNat_zero]
        rfl
      have hsmall : IsSmall [UInt8.ofNat n] := by
        refine ⟨rfl, ?_⟩
        show (UInt8.ofNat n).toNat < 0x80
        rw [UInt8.toNat_ofNat']
        omega
      have hbyte' : n < dataImmLenStart := hbyte
      rw [if_pos hbyte', hone, if_pos hsmall]
      rfl
    · -- A number of one byte is not below 0x80, and the others have more bytes.
      have hsmall : ¬ IsSmall (BigEndian.ofNat n) := by
        intro hsmall
        obtain ⟨c, hc⟩ := List.length_eq_one_iff.mp hsmall.1
        have hlt : c.toNat < 0x80 := by
          have := hsmall.2
          rwa [hc] at this
        have hval := BigEndian.toNat_ofNat n
        rw [hc, BigEndian.toNat_cons, BigEndian.toNat_nil] at hval
        simp only [List.length_nil, Nat.pow_zero] at hval
        omega
      have hbyte' : ¬ n < dataImmLenStart := hbyte
      rw [if_neg hbyte', if_neg hsmall, header, bytesRequired_eq]
      -- The header is that of as many bytes, short or long.
      by_cases hshort : (BigEndian.ofNat n).length < 56
      · have hshort' : (BigEndian.ofNat n).length < dataImmLenCount := hshort
        rw [if_pos hshort, if_pos hshort']
        show noteAppended (pushInt (s.pushBack _) n _) 1 = _
        rw [← bytesRequired_eq, pushInt_eq, pushBack, bytesRequired_eq, Nat.add_comm _ dataImmLenStart]
        simp [dataImmLenStart]
      · have hlong : ¬ (BigEndian.ofNat n).length < dataImmLenCount := hshort
        have hle := bytesRequired_le h
        have hfits : ¬ dataIndLenZero + bytesRequired (BigEndian.ofNat n).length > 0xff := by
          show ¬ 0xb7 + bytesRequired (BigEndian.ofNat n).length > 0xff
          omega
        rw [if_neg hshort, if_neg hlong, if_neg hfits]
        show noteAppended (pushInt (pushInt (s.pushBack _) _ _) n _) 1 = _
        rw [pushInt_eq, ← bytesRequired_eq, pushInt_eq, pushBack, bytesRequired_eq, bytesRequired_eq]
        simp [dataIndLenZero, dataImmLenStart, dataImmLenCount, listStart, maxLengthBytes]

/-! ### Items -/

mutual

/-- An item is appended: a list is announced with the number of its items, which
    then follow. -/
def appendItem : Item → RLPStream → Except RlpError RLPStream
  | .data b, s => s.append b false
  | .list items, s => do
    let s ← s.appendList items.length
    appendItems items s

/-- Items are appended one after the other. -/
def appendItems : List Item → RLPStream → Except RlpError RLPStream
  | [], s => .ok s
  | item :: items, s => do
    let s ← appendItem item s
    appendItems items s

end

theorem noteAppended_one (m_out : List UInt8) (m_listStack : List (Nat × Nat)) :
    noteAppended ⟨m_out, m_listStack⟩ 1 = noteAppendedLoop m_out m_listStack 1 := rfl

private theorem bind_appendItems_nil (x : Except RlpError RLPStream) :
    (x >>= fun s => appendItems [] s) = x := by
  cases x with
  | error e => rfl
  | ok s =>
    show appendItems [] s = _
    rw [appendItems]

/-- The items of a list that is open: `done` of its bytes have been written, `items`
    are still to come. The last of them completes the list. -/
theorem appendItems_eq {items : List Item} (hne : items ≠ [])
    (ih : ∀ item ∈ items, ∀ s : RLPStream, appendItem item s =
      noteAppended { s with m_out := s.m_out ++ item.encode } 1)
    (pre done : List UInt8) (stack : List (Nat × Nat)) :
    appendItems items ⟨pre ++ done, (items.length, pre.length) :: stack⟩ =
      closeList (pre ++ (done ++ encodeAll items)) pre.length >>= fun m_out =>
        noteAppendedLoop m_out stack 1 := by
  induction items generalizing done with
  | nil => exact absurd rfl hne
  | cons item items ihItems =>
    rw [appendItems, ih item List.mem_cons_self]
    simp only [noteAppended_one]
    rw [noteAppendedLoop, if_neg (by simp), List.length_cons, Nat.add_sub_cancel]
    by_cases hlast : items = []
    · -- The list is complete; its header is inserted and the list around it goes on.
      rw [hlast, encodeAll_cons, encodeAll_nil, List.append_nil, List.length_nil, if_neg (by simp),
        List.append_assoc pre]
      exact bind_appendItems_nil _
    · have hcount : items.length ≠ 0 := by simpa using hlast
      rw [if_pos hcount]
      show appendItems items _ = _
      have hrest := ihItems hlast (fun item hitem => ih item (List.mem_cons_of_mem _ hitem))
        (done ++ item.encode)
      rw [List.append_assoc pre, hrest, encodeAll_cons, List.append_assoc done]

/-- A list is appended, unless its length takes more than eight bytes. -/
theorem appendItem_list {items : List Item}
    (ih : ∀ item ∈ items, ∀ s : RLPStream, appendItem item s =
      noteAppended { s with m_out := s.m_out ++ item.encode } 1) (s : RLPStream) :
    appendItem (.list items) s =
      if (encodeAll items).length < 2 ^ 64 then
        noteAppended { s with m_out := s.m_out ++ (Item.list items).encode } 1
      else .error (.rlpException "itemCount too large for RLP".toList) := by
  rw [appendItem, appendList, encode_list]
  by_cases hempty : items = []
  · have hfits : (encodeAll []).length < 2 ^ 64 := by
      rw [encodeAll_nil]
      decide
    rw [hempty, if_pos hfits]
    show (noteAppended ⟨s.m_out ++ [UInt8.ofNat (0 + 0xc0)] ++ [], s.m_listStack⟩ 1 >>=
      fun s => appendItems [] s) = _
    rw [bind_appendItems_nil, List.append_assoc]
    rfl
  · have hcount : items.length ≠ 0 := by simpa using hempty
    rw [if_pos hcount]
    show appendItems items ⟨s.m_out, (items.length, s.m_out.length) :: s.m_listStack⟩ = _
    have hitems := appendItems_eq hempty ih s.m_out [] s.m_listStack
    rw [List.append_nil, List.nil_append] at hitems
    rw [hitems]
    by_cases hfits : (encodeAll items).length < 2 ^ 64
    · rw [if_pos hfits, closeList_append _ _ hfits]
      rfl
    · rw [if_neg hfits, closeList_too_large _ _ (by omega)]
      rfl

/-- Appending an item appends its encoding and notes one item. -/
theorem appendItem_eq (item : Item) (s : RLPStream) (h : item.encode.length < 2 ^ 64) :
    appendItem item s = noteAppended { s with m_out := s.m_out ++ item.encode } 1 := by
  induction item using Item.inductionOn generalizing s with
  | data b => rw [appendItem, append_eq s (Nat.lt_of_le_of_lt (length_data_le b) h)]
  | list items ih =>
    have hpayload := Nat.lt_trans (length_encodeAll_lt items) h
    rw [appendItem_list _ s, if_pos hpayload]
    intro item hitem s
    exact ih item hitem s (Nat.lt_of_le_of_lt (length_encode_le hitem) hpayload)

/-- The stream of one item: the list stack is complete and the output is its
    encoding. -/
theorem appendItem_empty (item : Item) (h : item.encode.length < 2 ^ 64) :
    appendItem item empty = .ok ⟨item.encode, []⟩ := by
  rw [appendItem_eq item empty h]
  rfl

/-- Items behind which one cannot be appended are not appended either. -/
theorem appendItems_error {items : List Item} {item : Item} (hitem : item ∈ items)
    (h : ∀ s, ∃ e, appendItem item s = .error e) (s : RLPStream) :
    ∃ e, appendItems items s = .error e := by
  induction items generalizing s with
  | nil => cases hitem
  | cons first items ih =>
    rw [appendItems]
    cases hfirst : appendItem first s with
    | error e => exact ⟨e, rfl⟩
    | ok s' =>
      rcases List.mem_cons.mp hitem with rfl | hitem
      · obtain ⟨e, he⟩ := h s
        rw [he] at hfirst
        cases hfirst
      · exact ih hitem s'

end RLPStream

end ConfluxSdk
