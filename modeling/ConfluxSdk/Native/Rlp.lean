import ConfluxSdk.ForStd.BigEndian
import ConfluxSdk.Native.StdString

/-!
# RLP

Model of `libdevcore/RLP`: the writer `RLPStream`, which inserts the header of a
list once its last item has been appended, and the reader `RLP` with its cache of
the last item that was accessed.

A `bytesConstRef` is the list of the bytes it refers to.
-/

namespace ConfluxSdk

/-- Exceptions thrown by the reader and the writer, with their `errinfo_comment`. -/
inductive RlpError where
  | rlpException (comment : Str)
  | badRLP
  | undersizeRLP (comment : Str)
  | oversizeRLP (comment : Str)
  | badCast
  deriving DecidableEq, Repr

namespace Rlp

/-! ### Constants -/

/-- `c_rlpMaxLengthBytes`. -/
def maxLengthBytes : Nat := 8

/-- `c_rlpDataImmLenStart`. -/
def dataImmLenStart : Nat := 0x80

/-- `c_rlpListStart`. -/
def listStart : Nat := 0xc0

/-- `c_rlpDataImmLenCount`. -/
def dataImmLenCount : Nat := listStart - dataImmLenStart - maxLengthBytes

/-- `c_rlpDataIndLenZero`. -/
def dataIndLenZero : Nat := dataImmLenStart + dataImmLenCount - 1

/-- `c_rlpListImmLenCount`. -/
def listImmLenCount : Nat := 256 - listStart - maxLengthBytes

/-- `c_rlpListIndLenZero`. -/
def listIndLenZero : Nat := listStart + listImmLenCount - 1

/-! ### Bytes -/

/-- `bytesRequired`. -/
def bytesRequired (i : Nat) : Nat :=
  if _h : i = 0 then 0 else bytesRequired (i >>> 8) + 1
termination_by i
decreasing_by
  rw [Nat.shiftRight_eq_div_pow]
  omega

/-- The loop that stores a number backwards, from position `b` on. -/
def storeBack (out : List UInt8) (b i : Nat) : List UInt8 :=
  if _h : i = 0 then out else storeBack (out.set b (UInt8.ofNat i)) (b - 1) (i >>> 8)
termination_by i
decreasing_by
  rw [Nat.shiftRight_eq_div_pow]
  omega

/-- `fromBigEndian` for an unsigned type of `size` bytes. -/
def fromBigEndian (size : Nat) (bytes : List UInt8) : Nat :=
  bytes.foldl (fun ret b => (ret <<< 8 ||| b.toNat) % 256 ^ size) 0

/-- `memmove(out + dst, out + src, count)`. -/
def memmove (out : List UInt8) (dst src count : Nat) : List UInt8 :=
  out.take dst ++ (out.drop src).take count ++ out.drop (dst + count)

/-- `vector_ref::cropped`. -/
def cropped (d : List UInt8) (begin count : Nat) : List UInt8 :=
  if begin ≤ d.length ∧ count ≤ d.length ∧ sizeT (begin + count) ≤ d.length then
    (d.drop begin).take count
  else []

/-- `vector_ref::cropped` to the end of the data. -/
def croppedFrom (d : List UInt8) (begin : Nat) : List UInt8 := d.drop begin

end Rlp

/-! ### The writer -/

open Rlp

/-- `RLPStream`; the back of `m_listStack` is the head of the list. -/
structure RLPStream where
  m_out : List UInt8
  m_listStack : List (Nat × Nat)
  deriving DecidableEq, Repr

namespace RLPStream

/-- `RLPStream::RLPStream()`. -/
def empty : RLPStream := ⟨[], []⟩

/-- The end of a list whose items start at `p`: its header is inserted there. -/
def closeList (m_out : List UInt8) (p : Nat) : Except RlpError (List UInt8) :=
  let s := m_out.length - p
  let brs := bytesRequired s
  let encodeSize := if s < listImmLenCount then 1 else 1 + brs
  let os := m_out.length
  -- The items move back to make room for the header.
  let m_out := memmove (m_out ++ List.replicate encodeSize 0) (p + encodeSize) p (os - p)
  if s < listImmLenCount then .ok (m_out.set p (UInt8.ofNat (listStart + s)))
  else if listIndLenZero + brs ≤ 0xff then
    .ok (storeBack (m_out.set p (UInt8.ofNat (listIndLenZero + brs))) (p + brs) s)
  else .error (.rlpException "itemCount too large for RLP".toList)

/-- The loop of `noteAppended`. -/
def noteAppendedLoop (m_out : List UInt8) :
    List (Nat × Nat) → Nat → Except RlpError RLPStream
  | [], _ => .ok ⟨m_out, []⟩
  | (first, p) :: m_listStack, itemCount =>
    if first < itemCount then .error (.rlpException "itemCount too large".toList)
    else if first - itemCount ≠ 0 then .ok ⟨m_out, (first - itemCount, p) :: m_listStack⟩
    else do
      -- A list that is complete is one item of the list around it.
      let m_out ← closeList m_out p
      noteAppendedLoop m_out m_listStack 1

/-- `RLPStream::noteAppended`. -/
def noteAppended (s : RLPStream) (itemCount : Nat) : Except RlpError RLPStream :=
  if itemCount = 0 then .ok s else noteAppendedLoop s.m_out s.m_listStack itemCount

/-- `m_out.push_back`. -/
def pushBack (s : RLPStream) (b : Nat) : RLPStream := { s with m_out := s.m_out ++ [UInt8.ofNat b] }

/-- `RLPStream::pushInt`. -/
def pushInt (s : RLPStream) (i br : Nat) : RLPStream :=
  let m_out := s.m_out ++ List.replicate br 0
  { s with m_out := storeBack m_out (m_out.length - 1) i }

/-- `RLPStream::pushCount`. -/
def pushCount (s : RLPStream) (count base : Nat) : Except RlpError RLPStream :=
  let br := bytesRequired count
  if br + base > 0xff then .error (.rlpException "Count too large for RLP".toList)
  else .ok ((s.pushBack (br + base)).pushInt count br)

/-- `RLPStream::appendRaw`. -/
def appendRaw (s : RLPStream) (b : List UInt8) (itemCount : Nat) : Except RlpError RLPStream :=
  noteAppended { s with m_out := s.m_out ++ b } itemCount

/-- `RLPStream::appendList(bytesConstRef)`. -/
def appendListRaw (s : RLPStream) (rlp : List UInt8) : Except RlpError RLPStream := do
  let s ← if rlp.length < listImmLenCount then .ok (s.pushBack (rlp.length + listStart))
    else s.pushCount rlp.length listIndLenZero
  s.appendRaw rlp 1

/-- `RLPStream::appendList(size_t)`. -/
def appendList (s : RLPStream) (items : Nat) : Except RlpError RLPStream :=
  if items ≠ 0 then .ok { s with m_listStack := (items, s.m_out.length) :: s.m_listStack }
  else s.appendListRaw []

/-- `RLPStream::append(bytesConstRef, bool)`. -/
def append (s : RLPStream) (b : List UInt8) (compact : Bool) : Except RlpError RLPStream := do
  let d := if compact then b.dropWhile (· == 0) else b
  -- A small byte is its own encoding.
  let s ← if d.length = 1 ∧ (d.headD 0).toNat < dataImmLenStart then
      .ok (s.pushBack (d.headD 0).toNat)
    else do
      let s ← if d.length < dataImmLenCount then .ok (s.pushBack (d.length + dataImmLenStart))
        else s.pushCount d.length dataIndLenZero
      s.appendRaw d 0
  s.noteAppended 1

/-- `RLPStream::append(bigint)`, for the unsigned numbers it is called with. -/
def appendInt (s : RLPStream) (i : Nat) : Except RlpError RLPStream := do
  let s ← if i = 0 then .ok (s.pushBack dataImmLenStart)
    else if i < dataImmLenStart then .ok (s.pushBack i)
    else do
      let br := bytesRequired i
      let s ← if br < dataImmLenCount then .ok (s.pushBack (br + dataImmLenStart))
        else
          let brbr := bytesRequired br
          if dataIndLenZero + brbr > 0xff then
            .error (.rlpException "Number too large for RLP".toList)
          else .ok ((s.pushBack (dataIndLenZero + brbr)).pushInt br brbr)
      .ok (s.pushInt i br)
  s.noteAppended 1

/-- `RLPStream::out`. -/
def out (s : RLPStream) : Except RlpError (List UInt8) :=
  if s.m_listStack ≠ [] then .error (.rlpException "listStack is not empty".toList)
  else .ok s.m_out

end RLPStream

/-! ### The reader -/

/-- `RLP`: the data and the list-indexing cache. -/
structure RLP where
  m_data : List UInt8
  m_lastIndex : Nat
  m_lastEnd : Nat
  m_lastItem : List UInt8
  deriving DecidableEq, Repr

namespace RLP

/-- `AllowNonCanon`. -/
def allowNonCanon : Nat := 1

/-- `ThrowOnFail`. -/
def throwOnFail : Nat := 4

/-- `FailIfTooBig`. -/
def failIfTooBig : Nat := 8

/-- `FailIfTooSmall`. -/
def failIfTooSmall : Nat := 16

/-- `Strict`. -/
def strict : Nat := throwOnFail ||| failIfTooBig

/-- `VeryStrict`. -/
def veryStrict : Nat := throwOnFail ||| failIfTooBig ||| failIfTooSmall

/-- `LaissezFaire`. -/
def laissezFaire : Nat := allowNonCanon

/-- An RLP over some data whose items have not been accessed. -/
def fresh (m_data : List UInt8) : RLP := ⟨m_data, 2 ^ 64 - 1, 0, []⟩

variable (r : RLP)

/-- `m_data[i]`, as the number the comparisons promote it to. -/
def byteAt (i : Nat) : Nat := (r.m_data.getD i 0).toNat

/-- `RLP::isNull`. -/
def isNull : Bool := r.m_data.length = 0

/-- `RLP::isData`. -/
def isData : Bool := !r.isNull && decide (r.byteAt 0 < listStart)

/-- `RLP::isList`. -/
def isList : Bool := !r.isNull && decide (listStart ≤ r.byteAt 0)

/-- `RLP::isSingleByte`. -/
def isSingleByte : Bool := !r.isNull && decide (r.byteAt 0 < dataImmLenStart)

/-- `RLP::requireGood`. -/
def requireGood : Except RlpError Unit :=
  if r.isNull then .error .badRLP
  else if r.byteAt 0 ≠ dataImmLenStart + 1 then .ok ()
  -- A string of one byte must not be one that is its own encoding.
  else if r.m_data.length < 2 then .error .badRLP
  else if r.byteAt 1 < dataImmLenStart then .error .badRLP
  else .ok ()

/-- `RLP::isInt`. -/
def isInt : Except RlpError Bool :=
  if r.isNull then .ok false
  else do
    r.requireGood
    let n := r.byteAt 0
    if n < dataImmLenStart then .ok (n ≠ 0)
    else if n = dataImmLenStart then .ok true
    else if n ≤ dataIndLenZero then
      if r.m_data.length ≤ 1 then .error .badRLP else .ok (r.byteAt 1 ≠ 0)
    else if n < listStart then
      if r.m_data.length ≤ 1 + n - dataIndLenZero then .error .badRLP
      else .ok (r.byteAt (1 + n - dataIndLenZero) ≠ 0)
    else .ok false

/-- A length that is itself stored in `lengthSize` bytes, as `length` reads it; it
    must be at least `limit`, and leave room for the offset of the payload. -/
def longLength (lengthSize limit : Nat) : Except RlpError Nat :=
  if r.m_data.length ≤ lengthSize then .error .badRLP
  else if r.m_data.length > 1 ∧ r.byteAt 1 = 0 then .error .badRLP
  else if lengthSize > 8 then .error (.undersizeRLP [])
  else if r.byteAt 1 = 0 then .error .badRLP
  else
    -- The bytes of the length, most significant first.
    let ret := ((r.m_data.drop 1).take lengthSize).foldl
      (fun ret b => sizeT (ret <<< 8) ||| b.toNat) 0
    if ret < limit then .error .badRLP
    else if ret ≥ 2 ^ 64 - 1 - 0x100 then .error (.undersizeRLP [])
    else .ok ret

/-- `RLP::length`. -/
def length : Except RlpError Nat :=
  if r.isNull then .ok 0
  else do
    r.requireGood
    let n := r.byteAt 0
    if n < dataImmLenStart then .ok 1
    else if n ≤ dataIndLenZero then .ok (n - dataImmLenStart)
    else if n < listStart then
      r.longLength (n - dataIndLenZero) (listStart - dataImmLenStart - maxLengthBytes)
    else if n ≤ listIndLenZero then .ok (n - listStart)
    else r.longLength (n - listIndLenZero) (0x100 - listStart - maxLengthBytes)

/-- `RLP::lengthSize`. -/
def lengthSize : Nat :=
  if r.isData ∧ r.byteAt 0 > dataIndLenZero then r.byteAt 0 - dataIndLenZero
  else if r.isList ∧ r.byteAt 0 > listIndLenZero then r.byteAt 0 - listIndLenZero
  else 0

/-- `RLP::payloadOffset`. -/
def payloadOffset : Nat := if r.isSingleByte then 0 else 1 + r.lengthSize

/-- `RLP::payload`. -/
def payload : Except RlpError (List UInt8) := do
  let l ← r.length
  if l > r.m_data.length then .error .badRLP
  -- The payload is empty if it does not fit.
  else .ok (cropped r.m_data r.payloadOffset l)

/-- `RLP::actualSize`. -/
def actualSize : Except RlpError Nat :=
  if r.isNull then .ok 0
  else if r.isSingleByte then .ok 1
  else if r.isData || r.isList then do
    let l ← r.length
    .ok (sizeT (r.payloadOffset + l))
  else .ok 0

/-- `constructRLPSizeErrorInfo`. -/
def constructRLPSizeErrorInfo (actualSize dataSize : Nat) : Str :=
  "Actual size: ".toList ++ to_string actualSize ++ ", data size: ".toList ++ to_string dataSize

/-- `RLP::RLP(bytesConstRef, Strictness)`. -/
def new (d : List UInt8) (s : Nat) : Except RlpError RLP := do
  let r := fresh d
  let r ← if s &&& failIfTooBig ≠ 0 then do
      let size ← r.actualSize
      if size < d.length then
        if s &&& throwOnFail ≠ 0 then .error (.oversizeRLP (constructRLPSizeErrorInfo size d.length))
        else .ok { r with m_data := [] }
      else .ok r
    else .ok r
  -- The size is read again, from data that may have been dropped.
  if s &&& failIfTooSmall ≠ 0 then do
    let size ← r.actualSize
    if size > d.length then
      if s &&& throwOnFail ≠ 0 then .error (.undersizeRLP (constructRLPSizeErrorInfo size d.length))
      else .ok { r with m_data := [] }
    else .ok r
  else .ok r

/-- `RLP::sizeAsEncoded`. -/
def sizeAsEncoded (data : List UInt8) : Except RlpError Nat := do
  let r ← new data (throwOnFail ||| failIfTooSmall)
  r.actualSize

/-- The loop of `items`. Every round removes at least one byte, so as many rounds
    as there are bytes are enough. -/
def itemsLoop : Nat → List UInt8 → Except RlpError Nat
  | 0, _ => .ok 0
  | rounds + 1, d =>
    if d.length = 0 then .ok 0
    else do
      let size ← sizeAsEncoded d
      let i ← itemsLoop rounds (croppedFrom d size)
      .ok (i + 1)

/-- `RLP::items`. -/
def items : Except RlpError Nat :=
  if r.isList then do
    let d ← r.payload
    itemsLoop d.length d
  else .ok 0

/-- `RLP::itemCount`. -/
def itemCount : Except RlpError Nat := if r.isList then r.items else .ok 0

/-- The start of `operator[]`: an item before the last one is looked for from the
    first item on. -/
def rewind (i : Nat) : Except RlpError RLP :=
  if i < r.m_lastIndex then do
    let p ← r.payload
    let m_lastEnd ← sizeAsEncoded p
    .ok { r with m_lastEnd, m_lastItem := cropped p 0 m_lastEnd, m_lastIndex := 0 }
  else .ok r

/-- The loop of `operator[]`; it runs at most `rounds = i - m_lastIndex` times. -/
def advance : Nat → RLP → Except RlpError RLP
  | 0, r => .ok r
  | rounds + 1, r =>
    if r.m_lastItem.length = 0 then .ok r
    else do
      let p ← r.payload
      -- The item behind the last one, cut off at its own size.
      let item := croppedFrom p r.m_lastEnd
      let size ← sizeAsEncoded item
      let item := cropped item 0 size
      advance rounds { r with
        m_lastIndex := r.m_lastIndex + 1, m_lastEnd := r.m_lastEnd + item.length,
        m_lastItem := item }

/-- `RLP::operator[]`: the item, and the RLP with its cache after the access. -/
def getItem (i : Nat) : Except RlpError (RLP × RLP) := do
  let r ← r.rewind i
  let r ← advance (i - r.m_lastIndex) r
  let item ← new r.m_lastItem (throwOnFail ||| failIfTooSmall)
  .ok (item, r)

/-- `RLP::toBytes`. -/
def toBytes (flags : Nat) : Except RlpError (List UInt8) :=
  if !r.isData then
    if flags &&& throwOnFail ≠ 0 then .error .badCast else .ok []
  else do
    let p ← r.payload
    let l ← r.length
    .ok (p.take l)

/-- `RLP::toInt` for an unsigned type of `size` bytes, which is its `maxSize`. -/
def toInt (size flags : Nat) : Except RlpError Nat := do
  r.requireGood
  let int ← r.isInt
  if (!int ∧ flags &&& allowNonCanon = 0) ∨ r.isList ∨ r.isNull then
    if flags &&& throwOnFail ≠ 0 then .error .badCast else .ok 0
  else do
    let p ← r.payload
    -- A number that is too long is not an error unless the flag is set.
    if p.length > size ∧ flags &&& failIfTooBig ≠ 0 then
      if flags &&& throwOnFail ≠ 0 then .error .badCast else .ok 0
    else .ok (fromBigEndian size p)

/-- `RLP::toHash` for a hash of `size` bytes. -/
def toHash (size flags : Nat) : Except RlpError (List UInt8) := do
  r.requireGood
  let p ← r.payload
  let l := p.length
  if !r.isData ∨ (l > size ∧ flags &&& failIfTooBig ≠ 0) ∨
      (l < size ∧ flags &&& failIfTooSmall ≠ 0) then
    if flags &&& throwOnFail ≠ 0 then .error .badCast else .ok (List.replicate size 0)
  else
    let s := min size l
    .ok (List.replicate (size - s) 0 ++ p.take s)

end RLP

end ConfluxSdk
