import ConfluxSdk.Spec.RlpReadCorrect

/-!
# RLP reads nothing but encodings

The converse of what the reader makes of the encoding of an item: whatever passes
the strictest checks and can be read to its last item is the encoding of what was
read. The header has to be the shortest one, no byte may be left over, and a list
has to be cut into items without a gap.

## Key results

- `Framed`, `framed_of_actualSize`: data whose size is known starts with a header
  that fits its payload
- `chunks_of_itemsLoop`, `getItem_chunks`: a list whose items were counted is cut
  into chunks, and every access returns its chunk
- `reads_of_encode`, `encode_of_reads`: reading an item and writing it
-/

namespace ConfluxSdk

open LengthPrefix Rlp

/-! ### Headers -/

/-- The bytes in front of a payload: none for a small byte. -/
def framePrefix (list : Bool) (payload : List UInt8) : List UInt8 :=
  if list = false ∧ IsSmall payload then [] else header (headerBase list) payload.length

/-- A header and a payload that it fits. What is in the payload of a list does not
    matter. -/
def Framed (list : Bool) (payload chunk : List UInt8) : Prop :=
  payload.length < 2 ^ 64 - 257 ∧ chunk = framePrefix list payload ++ payload

/-- The header of a string is the one that its encoding has. -/
theorem framePrefix_data (bytes : List UInt8) :
    framePrefix false bytes ++ bytes = (Item.data bytes).encode := by
  rw [encode_data, framePrefix]
  by_cases hsmall : IsSmall bytes
  · rw [if_pos ⟨rfl, hsmall⟩, if_pos hsmall]
    rfl
  · rw [if_neg (fun h => hsmall h.2), if_neg hsmall]
    rfl

theorem framePrefix_of_large {list : Bool} {payload : List UInt8}
    (h : list = false → ¬ IsSmall payload) :
    framePrefix list payload = header (headerBase list) payload.length :=
  if_neg fun hsmall => h hsmall.1 hsmall.2

theorem framePrefix_list (payload : List UInt8) :
    framePrefix true payload = header 0xc0 payload.length :=
  framePrefix_of_large fun h => absurd h Bool.false_ne_true.symm

section Frame

variable {r : RLP} {list : Bool} {payload chunk rest : List UInt8}

theorem Framed.parsed (h : Framed list payload chunk) (hdata : r.m_data = chunk ++ rest) :
    Parsed r list (framePrefix list payload) payload rest := by
  obtain ⟨hhi, rfl⟩ := h
  unfold framePrefix at hdata ⊢
  by_cases hsmall : list = false ∧ IsSmall payload
  · obtain ⟨rfl, hsmall⟩ := hsmall
    obtain ⟨c, rfl⟩ := List.length_eq_one_iff.mp hsmall.1
    rw [if_pos ⟨rfl, hsmall⟩] at hdata ⊢
    exact parsed_small hsmall.2 hdata
  · rw [if_neg hsmall] at hdata ⊢
    exact parsed_headed hhi (fun hlist hs => hsmall ⟨hlist, hs⟩) hdata

theorem Framed.actualSize (h : Framed list payload chunk) (hdata : r.m_data = chunk ++ rest)
    (hsize : r.m_data.length < 2 ^ 64) : r.actualSize = .ok chunk.length := by
  rw [(h.parsed hdata).actualSize_eq hsize, h.2, List.length_append]

theorem Framed.payload_eq (h : Framed list payload chunk) (hdata : r.m_data = chunk)
    (hsize : chunk.length < 2 ^ 64) : r.payload = .ok payload := by
  have hnone : r.m_data = chunk ++ [] := by rw [hdata, List.append_nil]
  apply (h.parsed hnone).payload_eq
  rwa [hdata]

theorem Framed.sizeAsEncoded (h : Framed list payload chunk)
    (hsize : (chunk ++ rest).length < 2 ^ 64) :
    RLP.sizeAsEncoded (chunk ++ rest) = .ok chunk.length := by
  have hactual : (RLP.fresh (chunk ++ rest)).actualSize = .ok chunk.length :=
    h.actualSize rfl hsize
  rw [RLP.sizeAsEncoded, RLP.new_eq hactual (by simp) (fun hbig => absurd hbig (by decide))]
  exact hactual

theorem Framed.ne_nil (h : Framed list payload chunk) : chunk ≠ [] := by
  rw [h.2, framePrefix]
  by_cases hsmall : list = false ∧ IsSmall payload
  · rw [if_pos hsmall]
    rintro rfl
    exact absurd hsmall.2.1 (by decide)
  · have hpos := length_header_pos (headerBase list) payload.length
    rw [if_neg hsmall]
    intro hnil
    rw [List.append_eq_nil_iff.mp hnil |>.1] at hpos
    exact absurd hpos (by decide)

end Frame

/-! ### What the checks establish -/

namespace RLP

/-- A read that succeeds went through its first step. -/
private theorem bind_ok {α β : Type} {x : Except RlpError α} {f : α → Except RlpError β} {b : β}
    (h : (x >>= f) = .ok b) : ∃ a, x = .ok a ∧ f a = .ok b := by
  cases x with
  | error e => cases h
  | ok a => exact ⟨a, rfl, h⟩

/-- A length behind the first byte is stored in as few bytes as possible. -/
theorem longLength_inv {r : RLP} {k l : Nat} {c : UInt8} {tail : List UInt8}
    (hdata : r.m_data = c :: tail) (hk : 0 < k) (hk8 : k ≤ 8) (h : r.longLength k 56 = .ok l) :
    56 ≤ l ∧ l < 2 ^ 64 - 257 ∧ (BigEndian.ofNat l).length = k ∧
      ∃ behind, tail = BigEndian.ofNat l ++ behind := by
  rw [RLP.longLength] at h
  split at h
  · cases h
  rename_i hlen
  split at h
  · cases h
  split at h
  · cases h
  split at h
  · cases h
  rename_i hsecond
  rw [hdata, List.length_cons] at hlen
  -- The first byte of the length is there, and it is not zero.
  obtain ⟨b, l', hbl⟩ : ∃ b l', tail.take k = b :: l' := by
    apply List.exists_cons_of_length_pos
    rw [List.length_take]
    omega
  have hlt : BigEndian.toNat (tail.take k) < 2 ^ 64 := by
    have hpow := BigEndian.toNat_lt (tail.take k)
    rw [List.length_take, Nat.min_eq_left (by omega)] at hpow
    exact Nat.lt_of_lt_of_le hpow (Nat.pow_le_pow_right (n := 256) (by decide) hk8)
  have hb : b ≠ 0 := by
    rintro rfl
    apply hsecond
    rw [← List.take_append_drop k tail, hbl] at hdata
    rw [RLP.byteAt, hdata]
    rfl
  rw [hdata, List.drop_one, List.tail_cons, RLP.foldl_length hlt] at h
  dsimp only at h
  split at h
  · cases h
  split at h
  · cases h
  rename_i hlo hhi
  obtain rfl := Except.ok.inj h
  have hshortest : BigEndian.ofNat (BigEndian.toNat (tail.take k)) = tail.take k := by
    rw [hbl]
    exact BigEndian.ofNat_toNat hb
  refine ⟨by omega, by omega, ?_, tail.drop k, ?_⟩
  · rw [hshortest, List.length_take]
    omega
  · rw [hshortest, List.take_append_drop]

/-- A string of one small byte does not pass behind a header. -/
theorem not_small_of_good {r : RLP} {c : UInt8} {payload rest : List UInt8}
    (hdata : r.m_data = c :: (payload ++ rest)) (hbyte : c.toNat = 0x80 + payload.length)
    (hgood : r.requireGood = .ok ()) : ¬ IsSmall payload := by
  rintro ⟨hlen, hsmall⟩
  obtain ⟨b, rfl⟩ := List.length_eq_one_iff.mp hlen
  have hnull : r.isNull = false := by simp [RLP.isNull, hdata]
  have hfirst : r.byteAt 0 = dataImmLenStart + 1 := by
    rw [RLP.byteAt, hdata, List.getD_cons_zero, hbyte]
    rfl
  have hsecond : r.byteAt 1 < dataImmLenStart := by
    rw [RLP.byteAt, hdata]
    exact hsmall
  rw [RLP.requireGood, hnull, if_neg Bool.false_ne_true, if_neg (not_not.mpr hfirst),
    if_pos hsecond, ite_self] at hgood
  cases hgood

/-- A first byte that holds the length itself. -/
theorem framed_short {r : RLP} {list : Bool} {c : UInt8} {tail : List UInt8} {l : Nat}
    (hdata : r.m_data = c :: tail) (hgood : r.requireGood = .ok ())
    (hbyte : c.toNat = headerBase list + l) (hl : l < 56) (hle : l ≤ tail.length) :
    Framed list (tail.take l) (c :: tail.take l) := by
  have hlen : (tail.take l).length = l := by
    rw [List.length_take]
    omega
  have hlarge : list = false → ¬ IsSmall (tail.take l) := by
    rintro rfl
    have hsplit : r.m_data = c :: (tail.take l ++ tail.drop l) := by
      rw [List.take_append_drop, hdata]
    exact not_small_of_good hsplit (by rw [hlen]; exact hbyte) hgood
  have hfirst : UInt8.ofNat (headerBase list + l) = c := by
    apply UInt8.toNat_inj.mp
    rw [UInt8.toNat_ofNat', ← hbyte]
    exact Nat.mod_eq_of_lt c.toNat_lt
  refine ⟨by omega, ?_⟩
  rw [framePrefix_of_large hlarge, header, hlen, if_pos hl, hfirst]
  rfl

/-- A first byte that holds the number of bytes of the length. -/
theorem framed_long {list : Bool} {c : UInt8} {behind : List UInt8} {l : Nat}
    (hbyte : c.toNat = headerBase list + 55 + (BigEndian.ofNat l).length) (hlo : 56 ≤ l)
    (hhi : l < 2 ^ 64 - 257) (hle : l ≤ behind.length) :
    Framed list (behind.take l) (c :: (BigEndian.ofNat l ++ behind.take l)) := by
  have hlen : (behind.take l).length = l := by
    rw [List.length_take]
    omega
  have hlarge : list = false → ¬ IsSmall (behind.take l) := by
    rintro - ⟨hone, -⟩
    omega
  have hfirst : UInt8.ofNat (headerBase list + 55 + (BigEndian.ofNat l).length) = c := by
    apply UInt8.toNat_inj.mp
    rw [UInt8.toNat_ofNat', ← hbyte]
    exact Nat.mod_eq_of_lt c.toNat_lt
  refine ⟨by omega, ?_⟩
  rw [framePrefix_of_large hlarge, header, hlen, if_neg (by omega), hfirst]
  rfl

/-- Data that is as long as its header says starts with a payload that has the
    shortest header. -/
theorem framed_of_actualSize {r : RLP} {n : Nat} (hne : r.m_data ≠ [])
    (h : r.actualSize = .ok n) (hle : n ≤ r.m_data.length) :
    ∃ list payload chunk rest,
      Framed list payload chunk ∧ r.m_data = chunk ++ rest ∧ chunk.length = n := by
  obtain ⟨c, tail, hdata⟩ := List.exists_cons_of_ne_nil hne
  have hnull : r.isNull = false := by simp [RLP.isNull, hdata]
  have hbyte : r.byteAt 0 = c.toNat := by rw [RLP.byteAt, hdata, List.getD_cons_zero]
  have hc : c.toNat < 256 := c.toNat_lt
  have hsingle : r.isSingleByte = decide (c.toNat < 0x80) := by
    rw [RLP.isSingleByte, hnull, hbyte]
    rfl
  rw [RLP.actualSize, hnull, hsingle, if_neg Bool.false_ne_true] at h
  rw [hdata, List.length_cons] at hle
  by_cases hsmall : c.toNat < 0x80
  · rw [if_pos (decide_eq_true hsmall)] at h
    obtain rfl := Except.ok.inj h
    refine ⟨false, [c], [c], tail, ⟨by rw [List.length_singleton]; decide, ?_⟩, hdata, rfl⟩
    rw [framePrefix, if_pos ⟨rfl, rfl, hsmall⟩]
    rfl
  rw [if_neg (by simpa using hsmall)] at h
  split at h
  swap
  · -- Every first byte starts data or a list.
    rename_i hkind
    refine absurd ?_ hkind
    rw [RLP.isData, RLP.isList, hnull]
    simp only [Bool.not_false, Bool.true_and, Bool.or_eq_true, decide_eq_true_eq]
    omega
  obtain ⟨l, hlength, hn⟩ := bind_ok h
  have hgood : r.requireGood = .ok () := by
    rw [RLP.length, hnull, if_neg Bool.false_ne_true] at hlength
    obtain ⟨⟨⟩, hgood, -⟩ := bind_ok hlength
    exact hgood
  rw [RLP.length_of_good hnull hgood, hbyte, if_neg hsmall] at hlength
  have hn := Except.ok.inj hn
  -- The offset of the payload is one byte and the bytes of the length.
  have hshort (list : Bool) (hkind : HeaderByte list c.toNat 0)
      (hfirst : c.toNat = headerBase list + l) (hl : l < 56) :
      ∃ list payload chunk rest,
        Framed list payload chunk ∧ r.m_data = chunk ++ rest ∧ chunk.length = n := by
    rw [(RLP.offset_of_headerByte hnull (hbyte ▸ hkind)).2.2, sizeT_of_lt (by omega)] at hn
    refine ⟨list, _, _, tail.drop l, framed_short hdata hgood hfirst hl (by omega), ?_, ?_⟩
    · rw [List.cons_append, List.take_append_drop, hdata]
    · rw [List.length_cons, List.length_take]
      omega
  have hlong (list : Bool) (k : Nat) (hkind : HeaderByte list c.toNat k) (hk : 0 < k)
      (hk8 : k ≤ 8) (hfirst : c.toNat = headerBase list + 55 + k)
      (hread : r.longLength k 56 = .ok l) :
      ∃ list payload chunk rest,
        Framed list payload chunk ∧ r.m_data = chunk ++ rest ∧ chunk.length = n := by
    obtain ⟨hlo, hhi, rfl, behind, rfl⟩ := longLength_inv hdata hk hk8 hread
    rw [(RLP.offset_of_headerByte hnull (hbyte ▸ hkind)).2.2, sizeT_of_lt (by omega)] at hn
    rw [List.length_append] at hle
    have hbehind : l ≤ behind.length := by omega
    refine ⟨list, _, _, behind.drop l, framed_long hfirst hlo hhi hbehind, ?_, ?_⟩
    · rw [List.cons_append, List.append_assoc, List.take_append_drop, hdata]
    · rw [List.length_cons, List.length_append, List.length_take]
      omega
  split at hlength
  · rename_i hrange
    have hl := Except.ok.inj hlength
    exact hshort false (.inl ⟨rfl, by omega, hrange, rfl⟩)
      (by show _ = 0x80 + l; omega) (by omega)
  split at hlength
  · rename_i hlow hrange
    exact hlong false _ (.inr (.inl ⟨rfl, by omega, hrange, rfl⟩)) (by omega) (by omega)
      (by show _ = 0x80 + 55 + _; omega) hlength
  split at hlength
  · rename_i hlow hrange
    have hl := Except.ok.inj hlength
    exact hshort true (.inr (.inr (.inl ⟨rfl, by omega, hrange, rfl⟩)))
      (by show _ = 0xc0 + l; omega) (by omega)
  · rename_i hrange
    exact hlong true _ (.inr (.inr (.inr ⟨rfl, by omega, rfl⟩))) (by omega) (by omega)
      (by show _ = 0xc0 + 55 + _; omega) hlength

/-- A reader that was constructed with the checks on. -/
theorem new_inv {d : List UInt8} {r : RLP} {s : Nat} (hthrow : s &&& throwOnFail ≠ 0)
    (hsmall : s &&& failIfTooSmall ≠ 0) (h : new d s = .ok r) :
    r = fresh d ∧ ∃ n, (fresh d).actualSize = .ok n ∧ n ≤ d.length ∧
      (s &&& failIfTooBig ≠ 0 → n = d.length) := by
  -- The second check sees the data as it was given.
  have htail (hsecond : (do
      let size ← (fresh d).actualSize
      if size > d.length then .error (.undersizeRLP (constructRLPSizeErrorInfo size d.length))
      else .ok (fresh d) : Except RlpError RLP) = .ok r) :
      r = fresh d ∧ ∃ n, (fresh d).actualSize = .ok n ∧ n ≤ d.length := by
    obtain ⟨n, hn, hsecond⟩ := bind_ok hsecond
    split at hsecond
    · cases hsecond
    · exact ⟨(Except.ok.inj hsecond).symm, n, hn, by omega⟩
  unfold new at h
  simp only [if_pos hsmall, if_pos hthrow] at h
  by_cases hflag : s &&& failIfTooBig ≠ 0
  · rw [if_pos hflag] at h
    obtain ⟨m, hm, h⟩ := bind_ok h
    split at h
    · cases h
    · obtain ⟨hr, n, hn, hle⟩ := htail h
      refine ⟨hr, n, hn, hle, fun _ => ?_⟩
      rw [hn] at hm
      have := Except.ok.inj hm
      omega
  · rw [if_neg hflag] at h
    obtain ⟨hr, n, hn, hle⟩ := htail h
    exact ⟨hr, n, hn, hle, fun hset => absurd hset hflag⟩

theorem framed_of_sizeAsEncoded {d : List UInt8} {n : Nat} (hne : d ≠ [])
    (h : sizeAsEncoded d = .ok n) :
    ∃ list payload chunk rest, Framed list payload chunk ∧ d = chunk ++ rest ∧ chunk.length = n := by
  obtain ⟨r, hnew, hactual⟩ := bind_ok h
  obtain ⟨rfl, m, hm, hle, -⟩ := new_inv (by decide) (by decide) hnew
  rw [hactual] at hm
  obtain rfl := Except.ok.inj hm
  exact framed_of_actualSize hne hactual hle

/-! ### Lists -/

/-- Bytes that are one item as far as its header goes. -/
def IsChunk (chunk : List UInt8) : Prop := ∃ list payload, Framed list payload chunk

/-- Items that could be counted lie one behind the other. -/
theorem chunks_of_itemsLoop {rounds n : Nat} {d : List UInt8} (hrounds : d.length ≤ rounds)
    (h : itemsLoop rounds d = .ok n) :
    ∃ chunks : List (List UInt8),
      chunks.length = n ∧ chunks.flatten = d ∧ ∀ c ∈ chunks, IsChunk c := by
  induction rounds generalizing d n with
  | zero =>
    obtain rfl := Except.ok.inj h
    obtain rfl := List.eq_nil_of_length_eq_zero (Nat.le_zero.mp hrounds)
    exact ⟨[], rfl, rfl, fun c hc => absurd hc List.not_mem_nil⟩
  | succ rounds ih =>
    rw [itemsLoop] at h
    by_cases hnil : d.length = 0
    · rw [if_pos hnil] at h
      obtain rfl := Except.ok.inj h
      obtain rfl := List.eq_nil_of_length_eq_zero hnil
      exact ⟨[], rfl, rfl, fun c hc => absurd hc List.not_mem_nil⟩
    · rw [if_neg hnil] at h
      obtain ⟨size, hsize, h⟩ := bind_ok h
      obtain ⟨i, hloop, h⟩ := bind_ok h
      obtain rfl := Except.ok.inj h
      have hne : d ≠ [] := fun hd => hnil (by rw [hd]; rfl)
      obtain ⟨list, payload, chunk, rest, hframed, rfl, rfl⟩ := framed_of_sizeAsEncoded hne hsize
      have hpos := List.length_pos_of_ne_nil hframed.ne_nil
      rw [List.length_append] at hrounds
      rw [croppedFrom, List.drop_left] at hloop
      obtain ⟨chunks, rfl, rfl, hchunks⟩ := ih (by omega) hloop
      refine ⟨chunk :: chunks, rfl, rfl, fun c hc => ?_⟩
      rcases List.mem_cons.mp hc with rfl | hc
      · exact ⟨list, payload, hframed⟩
      · exact hchunks c hc

section Chunks

variable {chunks : List (List UInt8)} (hchunks : ∀ c ∈ chunks, IsChunk c)
  (hsize : chunks.flatten.length < 2 ^ 64)
include hchunks hsize

/-- The chunk behind the ones in front of it. -/
theorem chunk_at {i : Nat} (hi : i < chunks.length) :
    let behind := croppedFrom chunks.flatten (chunks.take i).flatten.length
    sizeAsEncoded behind = .ok chunks[i].length ∧
      cropped behind 0 chunks[i].length = chunks[i] := by
  have hsplit : chunks.flatten =
      (chunks.take i).flatten ++ (chunks[i] ++ (chunks.drop (i + 1)).flatten) := by
    rw [← List.flatten_cons, ← List.drop_eq_getElem_cons hi, ← List.flatten_append,
      List.take_append_drop]
  obtain ⟨list, payload, hframed⟩ := hchunks _ (List.getElem_mem hi)
  have hlt : (chunks[i] ++ (chunks.drop (i + 1)).flatten).length < 2 ^ 64 := by
    rw [hsplit, List.length_append] at hsize
    omega
  have hbehind : croppedFrom chunks.flatten (chunks.take i).flatten.length =
      chunks[i] ++ (chunks.drop (i + 1)).flatten := by
    rw [croppedFrom, hsplit, List.drop_left]
  dsimp only
  rw [hbehind]
  exact ⟨hframed.sizeAsEncoded hlt, @cropped_append [] chunks[i] _ hlt⟩

/-- The loop of `operator[]`, from the chunk in the cache on. -/
theorem advance_chunks {r : RLP} {n j : Nat} (hpayload : r.payload = .ok chunks.flatten)
    (hj : j + n < chunks.length) (hend : r.m_lastEnd = (chunks.take (j + 1)).flatten.length)
    (hitem : r.m_lastItem = chunks[j]) :
    ∃ r', RLP.advance n r = .ok r' ∧ r'.m_lastItem = chunks[j + n] := by
  induction n generalizing r j with
  | zero => exact ⟨r, rfl, hitem⟩
  | succ n ih =>
    have hcur : ¬ r.m_lastItem.length = 0 := by
      obtain ⟨list, payload, hframed⟩ := hchunks _ (List.getElem_mem (n := j) (by omega))
      rw [hitem]
      exact fun hzero => hframed.ne_nil (List.eq_nil_of_length_eq_zero hzero)
    have hnext : j + 1 < chunks.length := by omega
    obtain ⟨hfront, hcrop⟩ := chunk_at hchunks hsize hnext
    let r₁ : RLP := { r with
      m_lastIndex := r.m_lastIndex + 1, m_lastEnd := r.m_lastEnd + chunks[j + 1].length,
      m_lastItem := chunks[j + 1] }
    have hstep : RLP.advance (n + 1) r = RLP.advance n r₁ := by
      rw [RLP.advance, if_neg hcur, hpayload]
      show (sizeAsEncoded (croppedFrom chunks.flatten r.m_lastEnd) >>= _) = _
      rw [hend, hfront]
      show RLP.advance n _ = _
      rw [hcrop, ← hend]
    have hend₁ : r₁.m_lastEnd = (chunks.take (j + 1 + 1)).flatten.length := by
      show r.m_lastEnd + _ = _
      rw [hend, List.take_add_one (i := j + 1), List.getElem?_eq_getElem hnext,
        List.flatten_append, List.length_append]
      simp
    obtain ⟨r', hloop, hlast⟩ := ih (r := r₁) hpayload (by omega) hend₁ rfl
    refine ⟨r', hstep.trans hloop, ?_⟩
    rw [hlast]
    congr 1
    omega

/-- An access to a list that was not accessed before returns the chunk. -/
theorem getItem_chunks {d : List UInt8} {i : Nat}
    (hpayload : (fresh d).payload = .ok chunks.flatten) (hi : i < chunks.length) :
    ∃ r', (fresh d).getItem i = .ok (fresh chunks[i], r') := by
  have hfirst : 0 < chunks.length := by omega
  have hcount : chunks.length ≤ chunks.flatten.length := by
    rw [List.length_flatten, ← List.length_map (f := List.length)]
    apply List.length_le_sum_of_one_le
    intro n hn
    obtain ⟨c, hc, rfl⟩ := List.mem_map.mp hn
    obtain ⟨list, payload, hframed⟩ := hchunks c hc
    exact List.length_pos_of_ne_nil hframed.ne_nil
  obtain ⟨hfront, hcrop⟩ := chunk_at hchunks hsize hfirst
  let r₁ : RLP := { fresh d with
    m_lastEnd := chunks[0].length, m_lastItem := chunks[0], m_lastIndex := 0 }
  have hrewind : (fresh d).rewind i = .ok r₁ := by
    have hlt : i < (fresh d).m_lastIndex := by
      show i < 2 ^ 64 - 1
      omega
    rw [RLP.rewind, if_pos hlt, hpayload]
    show (sizeAsEncoded (croppedFrom chunks.flatten (chunks.take 0).flatten.length) >>= _) = _
    rw [hfront]
    show Except.ok _ = _
    rw [show cropped chunks.flatten 0 _ = _ from hcrop]
  have hend : r₁.m_lastEnd = (chunks.take (0 + 1)).flatten.length := by
    rw [List.take_add_one, List.getElem?_eq_getElem hfirst]
    simp [r₁]
  obtain ⟨r₂, hloop, hlast⟩ := advance_chunks hchunks hsize (r := r₁) (n := i) (j := 0) hpayload
    (by omega) hend rfl
  -- The chunk in the cache passes the check on its size.
  obtain ⟨list, payload, hframed⟩ := hchunks _ (List.getElem_mem hi)
  have hlt : chunks[i].length < 2 ^ 64 :=
    Nat.lt_of_le_of_lt (List.Sublist.length_le (List.sublist_flatten_of_mem
      (List.getElem_mem hi))) hsize
  have hactual : (fresh chunks[i]).actualSize = .ok chunks[i].length :=
    hframed.actualSize (List.append_nil _).symm hlt
  have hnew : new chunks[i] (throwOnFail ||| failIfTooSmall) = .ok (fresh chunks[i]) :=
    new_eq hactual (Nat.le_refl _) (fun hbig => absurd hbig (by decide))
  refine ⟨r₂, ?_⟩
  unfold RLP.getItem
  rw [hrewind]
  show (RLP.advance i r₁ >>= _) = _
  rw [hloop]
  show (new r₂.m_lastItem _ >>= _) = _
  simp only [hlast, Nat.zero_add, hnew]
  rfl

end Chunks

end RLP

/-! ### Reading items -/

/-- What a client reads that looks at every item: the bytes of data, and the items of
    a list, as many as there are. -/
inductive Reads : RLP → Item → Prop
  | data {r : RLP} {bytes : List UInt8} (isData : r.isData = true)
      (toBytes : r.toBytes RLP.throwOnFail = .ok bytes) : Reads r (.data bytes)
  | list {r : RLP} {items : List Item} (sub : Nat → RLP) (isList : r.isList = true)
      (itemCount : r.itemCount = .ok items.length)
      (getItem : ∀ i, i < items.length → ∃ r', r.getItem i = .ok (sub i, r'))
      (reads : ∀ i (hi : i < items.length), Reads (sub i) items[i]) : Reads r (.list items)

/-- The encoding of an item is read as the item. -/
theorem reads_encode (item : Item) (hsize : item.encode.length < 2 ^ 64 - 257) :
    Reads (RLP.fresh item.encode) item := by
  induction item using Item.inductionOn with
  | data bytes =>
    refine .data ?_ (RLP.toBytes_encode hsize rfl _)
    rw [(RLP.parsed_data hsize rfl).isData_eq]
    rfl
  | list items ih =>
    have hisList : (RLP.fresh (Item.list items).encode).isList = true :=
      (RLP.parsed_list hsize rfl).isList_eq
    refine .list (fun i => RLP.fresh (RLP.itemBytes items i)) hisList ?_ ?_ ?_
    · rw [RLP.itemCount, if_pos hisList]
      exact RLP.items_encode hsize rfl
    · intro i _
      obtain ⟨r', hget, -⟩ := RLP.Cached.getItem hsize (.inl rfl) i
      exact ⟨r', hget⟩
    · intro i hi
      have hle := length_encode_le (List.getElem_mem hi)
      have hlt := length_encodeAll_lt items
      rw [RLP.itemBytes_of_lt hi]
      exact ih _ (List.getElem_mem hi) (by omega)

private theorem encodeAll_eq_flatten (items : List Item) :
    encodeAll items = (items.map Item.encode).flatten := by
  induction items with
  | nil => exact encodeAll_nil
  | cons item items ih => rw [encodeAll_cons, ih, List.map_cons, List.flatten_cons]

/-- Whatever is read to the last item from a chunk is what the chunk encodes. -/
theorem encode_of_reads {r : RLP} {item : Item} (h : Reads r item) {d : List UInt8}
    (hr : r = RLP.fresh d) (hchunk : RLP.IsChunk d) (hsize : d.length < 2 ^ 64) :
    d = item.encode := by
  induction h generalizing d with
  | data hisData htoBytes =>
    obtain ⟨list, payload, hframed⟩ := hchunk
    subst hr
    have hparsed := hframed.parsed (r := RLP.fresh d) (List.append_nil d).symm
    obtain rfl : list = false := by
      rw [hparsed.isData_eq] at hisData
      cases list with
      | false => rfl
      | true => exact absurd hisData (by decide)
    rw [RLP.toBytes, hparsed.isData_eq, if_neg (by decide), hframed.payload_eq rfl hsize,
      hparsed.length_eq] at htoBytes
    have hbytes := Except.ok.inj htoBytes
    rw [List.take_length] at hbytes
    rw [hframed.2, framePrefix_data, hbytes]
  | list sub hisList hitemCount hgetItem hreads ih =>
    rename_i items
    obtain ⟨list, payload, hframed⟩ := hchunk
    subst hr
    have hparsed := hframed.parsed (r := RLP.fresh d) (List.append_nil d).symm
    have hpayload := hframed.payload_eq (r := RLP.fresh d) rfl hsize
    obtain rfl : list = true := hparsed.isList_eq.symm.trans hisList
    have hle : payload.length ≤ d.length := by
      rw [hframed.2, List.length_append]
      omega
    -- The items were counted, so the payload is cut into chunks.
    rw [RLP.itemCount, if_pos hisList, RLP.items, if_pos hisList, hpayload] at hitemCount
    obtain ⟨chunks, hcount, rfl, hchunks⟩ :=
      RLP.chunks_of_itemsLoop (Nat.le_refl _) hitemCount
    have hencode : chunks = items.map Item.encode := by
      apply List.ext_getElem
      · rw [hcount, List.length_map]
      intro i hi hi'
      rw [List.getElem_map]
      rw [List.length_map] at hi'
      have hmem := List.getElem_mem hi
      have hlen : chunks[i].length ≤ chunks.flatten.length :=
        List.Sublist.length_le (List.sublist_flatten_of_mem hmem)
      -- The access found the chunk, and what it was read as is its item.
      obtain ⟨r', hget⟩ := RLP.getItem_chunks hchunks (by omega) hpayload hi
      obtain ⟨r'', hsub⟩ := hgetItem i hi'
      rw [hget] at hsub
      have hfresh := (Prod.mk.inj (Except.ok.inj hsub)).1
      exact ih i hi' hfresh.symm (hchunks _ hmem) (by omega)
    rw [hframed.2, framePrefix_list, hencode, ← encodeAll_eq_flatten, encode_list]

/-- Strict reading is the inverse of encoding: bytes that pass the checks and are read
    as an item to the last byte are the encoding of that item, and no other bytes are
    read as it. -/
theorem reads_iff_encode {d : List UInt8} {item : Item} (hsize : d.length < 2 ^ 64 - 257) :
    (∃ r, RLP.new d RLP.veryStrict = .ok r ∧ Reads r item) ↔ d = item.encode := by
  constructor
  · rintro ⟨r, hnew, hreads⟩
    obtain ⟨rfl, n, hactual, hle, hbig⟩ := RLP.new_inv (by decide) (by decide) hnew
    have hne : d ≠ [] := by
      rintro rfl
      cases hreads with
      | data hisData => exact absurd hisData (by decide)
      | list sub hisList => exact absurd hisList (by decide)
    obtain ⟨list, payload, chunk, rest, hframed, hdata, hlen⟩ :=
      RLP.framed_of_actualSize hne hactual hle
    -- The data is as long as its first item.
    have hall : d = chunk ++ rest := hdata
    have hrest : rest = [] := by
      have hn := hbig (by decide)
      rw [hall, List.length_append] at hn
      exact List.eq_nil_of_length_eq_zero (by omega)
    rw [hrest, List.append_nil] at hall
    exact encode_of_reads hreads rfl ⟨list, payload, hall ▸ hframed⟩ (by omega)
  · rintro rfl
    exact ⟨_, RLP.new_veryStrict item hsize, reads_encode item hsize⟩

/-- A list of two strings is read; a small byte behind a header is not. -/
theorem reads_iff_encode_pair :
    (∃ r, RLP.new [0xc2, 0x01, 0x80] RLP.veryStrict = .ok r ∧
      Reads r (.list [.data [0x01], .data []])) ∧
    ¬ ∃ r, RLP.new [0x81, 0x01] RLP.veryStrict = .ok r ∧ Reads r (.data [0x01]) := by
  constructor
  · refine (reads_iff_encode (by decide)).mpr ?_
    rw [encode_list, encodeAll_cons, encodeAll_cons, encodeAll_nil, encode_data, encode_data]
    decide
  · rw [reads_iff_encode (by decide), encode_data]
    decide

end ConfluxSdk
