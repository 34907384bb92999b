import ConfluxSdk.ForStd.BigEndian

/-!
# Recursive length prefixes

Trees of byte strings, written with the length in front of everything that is not
a single small byte. A length below 56 is part of the first byte, a longer one
follows it in as few bytes as possible.

The header tells strings and lists apart, and it determines where the item ends, so
items can be written one after the other.
-/

namespace LengthPrefix

/-- A byte string or a list of items. -/
inductive Item where
  | data (bytes : List UInt8)
  | list (items : List Item)

/-- Induction over items: a list may assume the statement for each of its items. -/
@[elab_as_elim]
protected theorem Item.inductionOn {motive : Item → Prop} (data : ∀ bytes, motive (.data bytes))
    (list : ∀ items, (∀ item ∈ items, motive item) → motive (.list items)) (item : Item) :
    motive item := by
  refine @Item.rec motive (fun items => ∀ item ∈ items, motive item) data list ?_ ?_ item
  · intro item hitem
    exact absurd hitem List.not_mem_nil
  · intro item items hitem hitems other hother
    rcases List.mem_cons.mp hother with rfl | hother
    · exact hitem
    · exact hitems other hother

/-- The header of a payload of `n` bytes; `base` is `0x80` for strings and `0xc0`
    for lists. -/
def header (base n : Nat) : List UInt8 :=
  if n < 56 then [UInt8.ofNat (base + n)]
  else UInt8.ofNat (base + 55 + (BigEndian.ofNat n).length) :: BigEndian.ofNat n

/-- Strings that are their own encoding. -/
def IsSmall (bytes : List UInt8) : Prop := bytes.length = 1 ∧ (bytes.headD 0).toNat < 0x80

instance (bytes : List UInt8) : Decidable (IsSmall bytes) := inferInstanceAs (Decidable (_ ∧ _))

mutual

/-- The bytes of an item. -/
def Item.encode : Item → List UInt8
  | .data bytes => if IsSmall bytes then bytes else header 0x80 bytes.length ++ bytes
  | .list items => header 0xc0 (encodeAll items).length ++ encodeAll items

/-- The bytes of some items, one after the other. -/
def encodeAll : List Item → List UInt8
  | [] => []
  | item :: items => item.encode ++ encodeAll items

end

@[simp] theorem encodeAll_nil : encodeAll [] = [] := by rw [encodeAll]

@[simp] theorem encodeAll_cons (item : Item) (items : List Item) :
    encodeAll (item :: items) = item.encode ++ encodeAll items := by rw [encodeAll]

theorem encode_list (items : List Item) :
    (Item.list items).encode = header 0xc0 (encodeAll items).length ++ encodeAll items := by
  rw [Item.encode]

theorem encode_data (bytes : List UInt8) :
    (Item.data bytes).encode =
      if IsSmall bytes then bytes else header 0x80 bytes.length ++ bytes := by
  rw [Item.encode]

@[simp] theorem encodeAll_append (items items' : List Item) :
    encodeAll (items ++ items') = encodeAll items ++ encodeAll items' := by
  induction items with
  | nil => rfl
  | cons item items ih => simp only [List.cons_append, encodeAll_cons, ih, List.append_assoc]

/-! ### Header and payload -/

/-- The bytes in front of the payload. -/
def Item.header : Item → List UInt8
  | .data bytes => if IsSmall bytes then [] else LengthPrefix.header 0x80 bytes.length
  | .list items => LengthPrefix.header 0xc0 (encodeAll items).length

/-- The bytes the header gives the length of. -/
def Item.payload : Item → List UInt8
  | .data bytes => bytes
  | .list items => encodeAll items

/-- Lists are told from strings. -/
def Item.isList : Item → Bool
  | .data _ => false
  | .list _ => true

theorem header_append_payload (item : Item) : item.header ++ item.payload = item.encode := by
  cases item with
  | data bytes =>
    rw [encode_data]
    show (if IsSmall bytes then [] else _) ++ bytes = _
    split <;> rfl
  | list items =>
    rw [encode_list]
    rfl

/-! ### Sizes -/

theorem length_header_pos (base n : Nat) : 0 < (header base n).length := by
  unfold header
  split <;> simp

theorem length_encode_pos (item : Item) : 0 < item.encode.length := by
  cases item with
  | data bytes =>
    rw [encode_data]
    split
    · rename_i hsmall
      rw [hsmall.1]
      decide
    · have := length_header_pos 0x80 bytes.length
      rw [List.length_append]
      omega
  | list items =>
    have := length_header_pos 0xc0 (encodeAll items).length
    rw [encode_list, List.length_append]
    omega

theorem length_le_encodeAll (items : List Item) : items.length ≤ (encodeAll items).length := by
  induction items with
  | nil => exact Nat.le_refl _
  | cons item items ih =>
    have := length_encode_pos item
    rw [encodeAll_cons, List.length_append, List.length_cons]
    omega

theorem length_encode_le {items : List Item} {item : Item} (h : item ∈ items) :
    item.encode.length ≤ (encodeAll items).length := by
  induction items with
  | nil => cases h
  | cons first items ih =>
    rw [encodeAll_cons, List.length_append]
    rcases List.mem_cons.mp h with rfl | h
    · exact Nat.le_add_right _ _
    · have := ih h
      omega

theorem length_data_le (bytes : List UInt8) :
    bytes.length ≤ (Item.data bytes).encode.length := by
  rw [encode_data]
  split
  · exact Nat.le_refl _
  · simp

theorem length_encodeAll_lt (items : List Item) :
    (encodeAll items).length < (Item.list items).encode.length := by
  have := length_header_pos 0xc0 (encodeAll items).length
  rw [encode_list, List.length_append]
  omega

/-- The header of a payload whose length has at most `k` bytes. -/
theorem length_header_le {base n k : Nat} (h : n < 256 ^ k) : (header base n).length ≤ k + 1 := by
  have hle := (BigEndian.length_ofNat_le_iff n k).mpr h
  unfold header
  split
  · simp
  · rw [List.length_cons]
    omega

theorem length_data_encode_le {bytes : List UInt8} {k : Nat} (h : bytes.length < 256 ^ k) :
    (Item.data bytes).encode.length ≤ k + 1 + bytes.length := by
  have hle : (header 0x80 bytes.length).length ≤ k + 1 := length_header_le h
  rw [encode_data]
  split
  · omega
  · rw [List.length_append]
    omega

end LengthPrefix
