import ConfluxSdk.ForStd.BigEndian
import ConfluxSdk.ForStd.HeadTail

/-!
# The Solidity contract ABI

The encoding the parameter classes are meant to produce, stated on its own:
types, values, and the function `enc` from a type and a value to bytes. Static
values are written where they stand, dynamic ones behind all heads of the
sequence they belong to; the layout itself is `HeadTail.layout`.
-/

namespace SolidityAbi

open HeadTail (layout)

/-- ABI types. -/
inductive Ty where
  | uint (bits : Nat)
  | int (bits : Nat)
  | bool
  | address
  | bytesN (n : Nat)
  | bytes
  | string
  | array (t : Ty)
  | fixArray (t : Ty) (k : Nat)
  | tuple (ts : List Ty)

/-- Induction over types: a tuple may assume the statement for each of its members. -/
@[elab_as_elim]
protected theorem Ty.inductionOn {motive : Ty → Prop} (uint : ∀ bits, motive (.uint bits))
    (int : ∀ bits, motive (.int bits)) (bool : motive .bool) (address : motive .address)
    (bytesN : ∀ n, motive (.bytesN n)) (bytes : motive .bytes) (string : motive .string)
    (array : ∀ t, motive t → motive (.array t))
    (fixArray : ∀ t k, motive t → motive (.fixArray t k))
    (tuple : ∀ ts, (∀ t ∈ ts, motive t) → motive (.tuple ts)) (t : Ty) : motive t := by
  refine @Ty.rec motive (fun ts => ∀ t ∈ ts, motive t) uint int bool address bytesN bytes string
    array fixArray tuple ?_ ?_ t
  · intro t ht
    exact absurd ht List.not_mem_nil
  · intro t ts ht hts u hu
    rcases List.mem_cons.mp hu with rfl | hu
    · exact ht
    · exact hts u hu

/-- ABI values: numbers (booleans and addresses among them), byte strings and
    sequences. -/
inductive Val where
  | num (x : Int)
  | bytes (b : List UInt8)
  | seq (vs : List Val)

mutual
/-- Types whose encoding is not of a fixed length. -/
def Ty.isDynamic : Ty → Bool
  | .uint _ | .int _ | .bool | .address | .bytesN _ => false
  | .bytes | .string | .array _ => true
  | .fixArray t _ => t.isDynamic
  | .tuple ts => anyDynamic ts

def anyDynamic : List Ty → Bool
  | [] => false
  | t :: ts => t.isDynamic || anyDynamic ts
end

/-- The 32-byte big-endian word of a number, two's complement if negative. -/
def word (x : Int) : List UInt8 := BigEndian.fixed 32 (x % 2 ^ 256).toNat

/-- A byte string filled up with zero bytes to a multiple of 32. -/
def padRight (b : List UInt8) : List UInt8 :=
  b ++ List.replicate ((32 - b.length % 32) % 32) 0

/-- A pointer of a layout: the offset as a word. -/
def pointer (n : Nat) : List UInt8 := word n

mutual
/-- The ABI encoding of a value of a type. -/
def enc : Ty → Val → List UInt8
  | .uint _, .num x | .int _, .num x | .bool, .num x | .address, .num x => word x
  | .bytesN _, .bytes b => padRight b
  | .bytes, .bytes b | .string, .bytes b => word b.length ++ padRight b
  | .array t, .seq vs => word vs.length ++ layout pointer 32 (elemParts t vs)
  | .fixArray t _, .seq vs => layout pointer 32 (elemParts t vs)
  | .tuple ts, .seq vs => layout pointer 32 (memberParts ts vs)
  | _, _ => []

/-- The elements of an array as parts of its layout. -/
def elemParts (t : Ty) : List Val → List (HeadTail.Part UInt8)
  | [] => []
  | v :: vs => ⟨t.isDynamic, enc t v⟩ :: elemParts t vs

/-- The members of a tuple as parts of its layout. -/
def memberParts : List Ty → List Val → List (HeadTail.Part UInt8)
  | t :: ts, v :: vs => ⟨t.isDynamic, enc t v⟩ :: memberParts ts vs
  | _, _ => []
end

/-- The encoding of an argument list: that of the tuple of the arguments. -/
def encArgs (ts : List Ty) (vs : List Val) : List UInt8 := layout pointer 32 (memberParts ts vs)

@[simp] theorem length_word (x : Int) : (word x).length = 32 := BigEndian.length_fixed _ _

theorem length_pointer (n : Nat) : (pointer n).length = 32 := length_word n

end SolidityAbi
