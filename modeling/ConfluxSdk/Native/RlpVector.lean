import ConfluxSdk.Native.TransactionBase

/-!
# Vectors in RLP

Model of `RLPStream::appendVector`, `RLP::iterator` and `RLP::toVector` in
`libdevcore/RLP`, for vectors of hashes. The iterator goes through the payload of a
list, which is its `parent` below; two iterators are equal when they refer to the same
bytes, so a reference keeps where in the data of the list it points to.

The loop of `toVector` has no bound of its own: behind the payload the iterator stays
where it is. It ends all the same, since nothing that is read there is a hash.
-/

namespace ConfluxSdk

open Rlp

/-! ### The writer -/

namespace RLPStream

variable {n : Nat}

/-- The loop of `appendVector`. -/
def appendVectorLoop : List (FixedHash n) → RLPStream → Except RlpError RLPStream
  | [], s => .ok s
  | i :: rest, s => do
    let s ← s.append i.bytes false
    appendVectorLoop rest s

/-- `RLPStream::appendVector`. -/
def appendVector (s : RLPStream) (v : List (FixedHash n)) : Except RlpError RLPStream := do
  let s ← s.appendList v.length
  appendVectorLoop v s

end RLPStream

/-! ### References -/

/-- `bytesConstRef`, into some data: the offset of its pointer, `none` for a null
    pointer, and the number of bytes. -/
structure VectorRef where
  m_data : Option Nat
  m_count : Nat
  deriving DecidableEq, Repr

namespace VectorRef

variable (v : VectorRef)

/-- A reference to all of the data. -/
def whole (d : List UInt8) : VectorRef := ⟨some 0, d.length⟩

/-- The bytes referred to. -/
def bytes (d : List UInt8) : List UInt8 :=
  match v.m_data with
  | some p => (d.drop p).take v.m_count
  | none => []

/-- `vector_ref::next`. -/
def next : VectorRef := ⟨v.m_data.map (· + v.m_count), v.m_count⟩

/-- `vector_ref::cropped`. -/
def cropped (begin count : Nat) : VectorRef :=
  match v.m_data with
  | some p =>
    if begin ≤ v.m_count ∧ count ≤ v.m_count ∧ sizeT (begin + count) ≤ v.m_count then
      ⟨some (p + begin), count⟩
    else ⟨none, 0⟩
  | none => ⟨none, 0⟩

/-- `vector_ref::cropped` to the end of the data. -/
def croppedFrom (begin : Nat) : VectorRef :=
  match v.m_data with
  | some p => if begin ≤ v.m_count then ⟨some (p + begin), v.m_count - begin⟩ else ⟨none, 0⟩
  | none => ⟨none, 0⟩

theorem length_bytes_le (d : List UInt8) : (v.bytes d).length ≤ v.m_count := by
  unfold bytes
  split
  · rw [List.length_take]
    exact Nat.min_le_left _ _
  · exact Nat.zero_le _

theorem count_cropped_le (begin count : Nat) : (v.cropped begin count).m_count ≤ v.m_count := by
  unfold cropped
  split
  · split
    · rename_i h
      exact h.2.1
    · exact Nat.zero_le _
  · exact Nat.zero_le _

end VectorRef

namespace RLP

variable (r : RLP)

/-- `RLP::payload`, as a reference. -/
def payloadRef : Except RlpError VectorRef := do
  let l ← r.length
  if l > r.m_data.length then .error .badRLP
  else .ok ((VectorRef.whole r.m_data).cropped r.payloadOffset l)

/-! ### The iterator -/

/-- `RLP::iterator`. -/
structure Iterator where
  m_remaining : Nat
  m_currentItem : VectorRef
  deriving DecidableEq, Repr

namespace Iterator

variable (it : Iterator)

/-- `iterator::iterator(RLP const&, bool)`; `begin` and `end` of the list. -/
def new (parent : RLP) (begin : Bool) : Except RlpError Iterator :=
  if begin && parent.isList then do
    let pl ← parent.payloadRef
    let size ← sizeAsEncoded (pl.bytes parent.m_data)
    let m_currentItem := pl.cropped 0 size
    -- What is left starts behind the first item.
    .ok ⟨pl.m_count - m_currentItem.m_count, m_currentItem⟩
  else .ok ⟨0, (VectorRef.whole parent.m_data).croppedFrom parent.m_data.length⟩

/-- `iterator::operator++`. -/
def next (parent : RLP) : Except RlpError Iterator :=
  if it.m_remaining ≠ 0 then do
    let rest : VectorRef := ⟨it.m_currentItem.next.m_data, it.m_remaining⟩
    let size ← sizeAsEncoded (rest.bytes parent.m_data)
    let m_currentItem := rest.cropped 0 size
    .ok ⟨it.m_remaining - min it.m_remaining m_currentItem.m_count, m_currentItem⟩
  -- Behind the last item the reference is empty, and stays there.
  else .ok ⟨0, it.m_currentItem.next.m_data, 0⟩

/-- `iterator::operator*`. -/
def deref (parent : RLP) : Except RlpError RLP :=
  RLP.new (it.m_currentItem.bytes parent.m_data) veryStrict

/-- `iterator::operator==`. -/
def eq (cmp : Iterator) : Bool := it.m_currentItem == cmp.m_currentItem

/-- The bytes from the current item on. -/
def left : Nat := it.m_remaining + it.m_currentItem.m_count

end Iterator

/-! ### Hashes -/

theorem length_toHash {n flags : Nat} {bytes : List UInt8} (h : r.toHash n flags = .ok bytes) :
    bytes.length = n := by
  unfold toHash at h
  cases hgood : r.requireGood with
  | error e =>
    rw [hgood] at h
    cases h
  | ok u =>
    cases hpayload : r.payload with
    | error e =>
      rw [hgood, hpayload] at h
      cases h
    | ok p =>
      rw [hgood, hpayload] at h
      simp only [bind, Except.bind] at h
      split at h
      · split at h
        · cases h
        · rw [← Except.ok.inj h, List.length_replicate]
      · rw [← Except.ok.inj h, List.length_append, List.length_replicate, List.length_take]
        omega

/-- `Converter<FixedHash<N>>::convert`. -/
def convertHash (n flags : Nat) : Except RlpError (FixedHash n) :=
  match h : r.toHash n flags with
  | .error e => .error e
  | .ok bytes => .ok ⟨bytes, r.length_toHash h⟩

theorem convertHash_eq {n flags : Nat} (hash : FixedHash n)
    (h : r.toHash n flags = .ok hash.bytes) : r.convertHash n flags = .ok hash := by
  unfold convertHash
  split
  · rename_i e herror
    rw [h] at herror
    cases herror
  · rename_i bytes hok
    rw [h] at hok
    exact congrArg Except.ok (FixedHash.eq_of_bytes (Except.ok.inj hok).symm)

/-- There is no hash in an empty reference. -/
theorem convertHash_null {n flags : Nat} (h : r.m_data = []) :
    r.convertHash n flags = .error .badRLP := by
  have hnull : r.isNull = true := by rw [isNull, h]; rfl
  have hash : r.toHash n flags = .error .badRLP := by
    rw [toHash, requireGood, if_pos hnull]
    rfl
  unfold convertHash
  split
  · rename_i e herror
    rw [Except.error.inj (herror.symm.trans hash)]
  · rename_i bytes hok
    rw [hash] at hok
    cases hok

/-! ### Vectors -/

/-- The hash at the position of an iterator. -/
def hashAt (parent : RLP) (n flags : Nat) (it : Iterator) : Except RlpError (FixedHash n) := do
  let i ← it.deref parent
  i.convertHash n flags

/-- The loop of `toVector`, for so many rounds; `none` if it has not ended by then. -/
def toVectorLoop (parent : RLP) (n flags : Nat) (last : Iterator) :
    Nat → Iterator → Option (Except RlpError (List (FixedHash n)))
  | 0, _ => none
  | rounds + 1, it =>
    if it.eq last then some (.ok [])
    else
      match hashAt parent n flags it with
      | .error e => some (.error e)
      | .ok hash =>
        match it.next parent with
        | .error e => some (.error e)
        | .ok it => (toVectorLoop parent n flags last rounds it).map (Except.map (hash :: ·))

/-- A hash is read from some bytes. -/
theorem count_pos_of_hashAt {parent : RLP} {n flags : Nat} {it : Iterator} {hash : FixedHash n}
    (h : hashAt parent n flags it = .ok hash) : 0 < it.m_currentItem.m_count := by
  by_contra hzero
  have hle := it.m_currentItem.length_bytes_le parent.m_data
  have hnil : it.m_currentItem.bytes parent.m_data = [] := List.length_eq_zero_iff.mp (by omega)
  have hderef : it.deref parent = .ok (fresh []) := by
    rw [Iterator.deref, hnil]
    rfl
  rw [hashAt, hderef] at h
  have hnull : (fresh []).convertHash n flags = .error .badRLP := convertHash_null _ rfl
  exact absurd (hnull.symm.trans h) (by simp)

/-- A step passes the bytes of the current item. -/
theorem Iterator.left_next {parent : RLP} {it it' : Iterator} (h : it.next parent = .ok it') :
    it'.left + it.m_currentItem.m_count ≤ it.left := by
  unfold Iterator.next at h
  by_cases hmore : it.m_remaining ≠ 0
  · rw [if_pos hmore] at h
    simp only [bind, Except.bind] at h
    split at h
    · cases h
    · rename_i size _
      have hle := VectorRef.count_cropped_le ⟨it.m_currentItem.next.m_data, it.m_remaining⟩ 0 size
      rw [← Except.ok.inj h]
      simp only [Iterator.left] at hle ⊢
      omega
  · rw [if_neg hmore] at h
    rw [← Except.ok.inj h]
    simp only [Iterator.left]
    omega

theorem toVectorLoop_isSome (parent : RLP) (n flags : Nat) (last : Iterator) {rounds : Nat}
    {it : Iterator} (h : it.left < rounds) :
    (toVectorLoop parent n flags last rounds it).isSome := by
  induction rounds generalizing it with
  | zero => omega
  | succ rounds ih =>
    rw [toVectorLoop]
    split
    · rfl
    · cases hhash : hashAt parent n flags it with
      | error e => rfl
      | ok hash =>
        cases hnext : it.next parent with
        | error e => rfl
        | ok it' =>
          have hpos := count_pos_of_hashAt hhash
          have hstep := Iterator.left_next hnext
          have hleft : it'.left < rounds := by omega
          have hrest := ih hleft
          show (Option.map _ _).isSome
          rw [Option.isSome_map]
          exact hrest

/-- `RLP::toVector` of hashes. -/
def toVector (n flags : Nat) : Except RlpError (List (FixedHash n)) :=
  if r.isList then do
    let _ ← r.itemCount
    let first ← Iterator.new r true
    let last ← Iterator.new r false
    (toVectorLoop r n flags last (first.left + 1) first).get
      (toVectorLoop_isSome r n flags last (Nat.lt_succ_self _))
  else if flags &&& throwOnFail ≠ 0 then .error .badCast
  else .ok []

end RLP

end ConfluxSdk
