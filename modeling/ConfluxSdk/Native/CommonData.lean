import ConfluxSdk.Native.TransactionBase

/-!
# Hex texts and fixed hashes of libdevcore

Model of the conversions of `libdevcore/CommonData` and `libdevcore/FixedHash` that read
key files and addresses. The character table of `CommonData.cpp` is that of `hex.cpp`,
`Hex.fromHexChar`.
-/

namespace ConfluxSdk

namespace Dev

/-- The loop of `fromHex`, two characters at a time. -/
def fromHexPairs : Str → Option (List UInt8)
  | [] => some []
  | [_] => none
  | c :: d :: s =>
    match Hex.fromHexChar c, Hex.fromHexChar d with
    | some h, some l => (fromHexPairs s).map ((h * 16 + l) :: ·)
    | _, _ => none

/-- `fromHex`; `none` where a character is bad, which is thrown with `WhenError::Throw`
    and gives no bytes otherwise. -/
def fromHex (s : Str) : Option (List UInt8) :=
  let digits := if "0x".toList.isPrefixOf s then s.drop 2 else s
  if s.length % 2 = 1 then
    match digits with
    -- An odd text starts with a byte of one digit.
    | c :: digits =>
      match Hex.fromHexChar c with
      | some h => (fromHexPairs digits).map (h :: ·)
      | none => none
    | [] => none
  else fromHexPairs digits

/-- `isHex`. -/
def isHex (s : Str) : Bool :=
  (if "0x".toList.isPrefixOf s then s.drop 2 else s).all fun c => (Hex.fromHexChar c).isSome

/-- `toHex`. -/
def toHex (data : List UInt8) : Str := Hex.encodeToString data

/-- `toCompactBigEndian`. -/
def toCompactBigEndian (n min : Nat) : List UInt8 :=
  let digits := BigEndian.ofNat n
  List.replicate (min - digits.length) 0 ++ digits

/-- `toJS` of a number. -/
def toJS (n : Nat) : Str :=
  let h := toHex (toCompactBigEndian n 1)
  "0x".toList ++ (if h.headD ' ' ≠ '0' then h else h.drop 1)

/-- `toJS` of bytes: no text for no bytes. -/
def toJSBytes (n : List UInt8) : Str := if n = [] then [] else "0x".toList ++ toHex n

end Dev

namespace FixedHash

variable {n : Nat}

/-- The constructor from bytes with `FailIfDifferent`. -/
def ofBytes (n : Nat) (b : List UInt8) : FixedHash n :=
  if h : b.length = n then ⟨b, h⟩ else .zero n

/-- The constructor from a hex text; `none` stands for the exception on a bad character. -/
def ofHex (n : Nat) (s : Str) : Option (FixedHash n) := (Dev.fromHex s).map (ofBytes n)

/-- `FixedHash::hex`. -/
def hex (h : FixedHash n) : Str := Dev.toHex h.bytes

@[simp] theorem ofBytes_bytes (h : FixedHash n) : ofBytes n h.bytes = h := by
  rw [ofBytes, dif_pos h.size_eq]

theorem toBool_zero (n : Nat) : (zero n).toBool = false := by
  simp [zero, toBool]

/-- The empty text gives the zero hash. -/
theorem ofBytes_nil (n : Nat) : ofBytes n [] = zero n := by
  unfold ofBytes
  split
  · rename_i h
    obtain rfl : n = 0 := h.symm
    rfl
  · rfl

end FixedHash

/-- `h128`. -/
abbrev H128 := FixedHash 16

/-- `fromUUID`. -/
def fromUUID (uuid : Str) : H128 :=
  match FixedHash.ofHex 16 (uuid.filter (· ≠ '-')) with
  | some h => h
  | none => .zero 16

end ConfluxSdk
