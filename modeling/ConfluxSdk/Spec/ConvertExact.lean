import ConfluxSdk.ForStd.BitGroups
import ConfluxSdk.Spec.ConvertCorrect

/-!
# Bit regrouping as a function of bit strings

What `convert` computes for all widths from one to eight: the bits of the values read, one
value after another, cut into groups of the other width. The loop invariant `Regrouped` is
about numbers; here it is read as one about bit strings, with the bits of `acc` behind those
of the groups written so far.

## Key results

- `keepsBits_of_inBase`: the 16 bits of the accumulator are enough
- `convert_eq_regroup`: the groups that are returned
- `convert_bytes_back`, `convert_symbols_back`: bytes and symbols in both directions
- `convert_exact`: all of it
-/

namespace ConfluxSdk

open BitGroups (bits number concat cut)
open Radix (value InBase)

/-- The bits of the values cut into groups of `outbits`. The last group is filled with zeros
    if the groups are smaller than the values, and dropped otherwise. -/
def regroup (data : ByteArr) (inbits outbits : Nat) : List Nat :=
  let l := concat inbits data
  cut outbits
    (if inbits > outbits then (l.length + outbits - 1) / outbits else l.length / outbits) l

/-! ### The accumulator -/

/-- Wherever the loop stands, the bits in `acc` and the next value fit its 16 bits. -/
def KeepsBits (inbits outbits : Nat) (data : ByteArr) : Prop :=
  ∀ before d after ret acc accBits, data = before ++ d :: after →
    convertLoop inbits outbits before 0 0 = (ret, acc, accBits) →
    acc < 2 ^ accBits ∧ accBits + inbits ≤ 16 ∧
      (acc <<< inbits ||| d.toNat) % 2 ^ 16 = acc * 2 ^ inbits + d.toNat

theorem keepsBits_of_inBase {inbits outbits : Nat} (hin : inbits ≤ 8) (hpos : 0 < outbits)
    (hout : outbits ≤ 8) {data : ByteArr} (hdata : InBase (2 ^ inbits) data) :
    KeepsBits inbits outbits data := by
  rintro before d after ret acc accBits rfl hloop
  have h := convertLoop_regrouped hpos hout hin hdata.left 0 0 (by decide) hpos
  rw [hloop] at h
  have hacc : acc < 2 ^ accBits := h.acc_lt
  have hbits : accBits < outbits := h.accBits_lt
  obtain ⟨hor, hlt⟩ := shift_or_eq hacc (hdata d (by simp))
  -- Fewer than eight bits are left over, and at most eight come in.
  have h16 : 2 ^ (accBits + inbits) ≤ 2 ^ 16 := Nat.pow_le_pow_right (by omega) (by omega)
  refine ⟨hacc, by omega, ?_⟩
  rw [hor, Nat.mod_eq_of_lt (Nat.lt_of_lt_of_le hlt h16)]

/-! ### The groups -/

/-- Behind the groups written stand the bits that are left in `acc`. -/
theorem Regrouped.concat_eq {inbits outbits : Nat} {data ret : ByteArr} {acc accBits : Nat}
    (hdata : InBase (2 ^ inbits) data)
    (h : Regrouped outbits (value (2 ^ inbits) data) (inbits * data.length) (ret, acc, accBits)) :
    concat inbits data = concat outbits ret ++ bits accBits acc := by
  have hret : InBase (2 ^ outbits) ret := h.inBase
  have hacc : acc < 2 ^ accBits := h.acc_lt
  have hval : value (2 ^ outbits) ret * 2 ^ accBits + acc = value (2 ^ inbits) data := h.value_eq
  have hlen : outbits * ret.length + accBits = inbits * data.length := h.length_eq
  -- Both sides are the bits of one number.
  rw [BitGroups.concat_eq_bits hdata, BitGroups.concat_eq_bits hret, ← hlen, ← hval,
    BitGroups.bits_shift hacc]

/-- The values are regrouped. -/
theorem convert_eq_regroup {inbits outbits : Nat} (hin : inbits ≤ 8) (hpos : 0 < outbits)
    (hout : outbits ≤ 8) {data : ByteArr} (hdata : InBase (2 ^ inbits) data) :
    (convert data inbits outbits).map UInt8.toNat = regroup data inbits outbits := by
  obtain ⟨ret, acc, accBits, h, hconvert⟩ := convert_regrouped hin hpos hout hdata
  have hconcat := h.concat_eq hdata
  obtain ⟨hbyte, -⟩ := h.toNat_last hout
  have hret : InBase (2 ^ outbits) ret := h.inBase
  have hacc : acc < 2 ^ accBits := h.acc_lt
  have hbits : accBits < outbits := h.accBits_lt
  have hlen : (concat inbits data).length = outbits * ret.length + accBits := by
    rw [hconcat, List.length_append, BitGroups.length_concat, BitGroups.length_bits]
  -- The complete groups are those that were written.
  have hcut := BitGroups.cut_concat hret
  have hdiv : (outbits * ret.length + accBits) / outbits = ret.length := by
    rw [Nat.mul_add_div hpos, Nat.div_eq_of_lt hbits, Nat.add_zero]
  rw [regroup, hlen, hconvert, hconcat]
  by_cases hlast : accBits > 0 ∧ inbits > outbits
  · -- One more group holds the bits that are left.
    have hceil : (outbits * ret.length + accBits + outbits - 1) / outbits = ret.length + 1 := by
      have hsum : outbits * ret.length + accBits + outbits - 1 =
          outbits * (ret.length + 1) + (accBits - 1) := by
        rw [Nat.mul_succ]
        omega
      rw [hsum, Nat.mul_add_div hpos, Nat.div_eq_of_lt (by omega), Nat.add_zero]
    have hshort : (bits accBits acc).length ≤ outbits := by
      rw [BitGroups.length_bits]
      omega
    rw [if_pos hlast, if_pos hlast.2, hceil, hcut, BitGroups.cut_one hshort,
      BitGroups.number_bits_of_lt hacc, BitGroups.length_bits, List.map_append, List.map_singleton,
      hbyte]
  · rw [if_neg hlast]
    have hcount : (if inbits > outbits then
        (outbits * ret.length + accBits + outbits - 1) / outbits
        else (outbits * ret.length + accBits) / outbits) = ret.length + 0 := by
      split
      · have hzero : accBits = 0 := by omega
        have hsum : outbits * ret.length + accBits + outbits - 1 =
            outbits * ret.length + (outbits - 1) := by omega
        rw [hsum, Nat.mul_add_div hpos, Nat.div_eq_of_lt (by omega)]
      · exact hdiv
    rw [hcount, hcut]
    exact (List.append_nil _).symm

/-! ### Back again -/

/-- Bytes are read back from their symbols. -/
theorem convert_bytes_back (d : ByteArr) : convert (convert d 8 5) 5 8 = d := by
  obtain ⟨pad, hpad, hval, hlen, hin⟩ := convert_bytes_value d
  obtain ⟨rest, acc, hrest, hacc, hval', hlen'⟩ := convert_symbols_value hin
  -- The padding bits are what is left over on the way back.
  obtain rfl : rest = pad := by omega
  have hcount : (convert (convert d 8 5) 5 8).length = d.length := by omega
  rw [hval] at hval'
  have hnumber : BigEndian.toNat (convert (convert d 8 5) 5 8) = BigEndian.toNat d := by
    have hdiv := congrArg (· / 2 ^ rest) hval'
    simpa [Nat.add_comm _ acc, Nat.add_mul_div_right, Nat.div_eq_of_lt hacc] using hdiv
  exact BigEndian.toNat_inj hcount hnumber

/-- The bits behind the last full byte are the remainder of the value. -/
theorem surplus_eq {b : ByteArr} (hb : InBase 32 b) :
    number ((concat 5 b).drop (8 * (5 * b.length / 8))) = value 32 b % 2 ^ (5 * b.length % 8) := by
  have hsplit : 5 * b.length = 8 * (5 * b.length / 8) + 5 * b.length % 8 := by omega
  have hconcat : concat 5 b = bits (5 * b.length) (value 32 b) := BitGroups.concat_eq_bits hb
  have hlen : (bits (8 * (5 * b.length / 8)) (value 32 b / 2 ^ (5 * b.length % 8))).length =
      8 * (5 * b.length / 8) := BitGroups.length_bits _ _
  rw [hconcat]
  -- The bits split at the last full byte.
  conv => lhs; rw [hsplit, BitGroups.bits_add]
  rw [← hsplit, List.drop_left' hlen, BitGroups.number_bits]

/-- Symbols are read back from their bytes when fewer than five bits are behind the last
    full byte, and those are zero. -/
theorem convert_symbols_back {b : ByteArr} (hb : InBase 32 b) (hfew : 5 * b.length % 8 < 5)
    (hzero : ∀ x ∈ (concat 5 b).drop (8 * (5 * b.length / 8)), x = false) :
    convert (convert b 5 8) 8 5 = b := by
  obtain ⟨rest, acc, hrest, hacc, hval, hlen⟩ := convert_symbols_value hb
  obtain ⟨pad, hpad, hval', hlen', hin⟩ := convert_bytes_value (convert b 5 8)
  obtain rfl : rest = 5 * b.length % 8 := by omega
  have hmod : value 32 b % 2 ^ (5 * b.length % 8) = acc := by
    rw [← hval, Nat.mul_comm, Nat.mul_add_mod, Nat.mod_eq_of_lt hacc]
  -- The bits left over are zero, so the bytes have the whole value.
  obtain rfl : acc = 0 := by
    rw [← hmod, ← surplus_eq hb]
    exact BitGroups.number_eq_zero_iff.mpr hzero
  have hsame : pad = 5 * b.length % 8 := by omega
  have hcount : (convert (convert b 5 8) 8 5).length = b.length := by omega
  apply Radix.value_inj hin hb hcount
  rw [hval', hsame, ← hval, Nat.add_zero]

/-- Regrouping is exact for all widths, and undone by the way back. -/
theorem convert_exact {inbits outbits : Nat} (hin : 1 ≤ inbits ∧ inbits ≤ 8)
    (hout : 1 ≤ outbits ∧ outbits ≤ 8) {data : ByteArr} (hdata : ∀ d ∈ data, d.toNat < 2 ^ inbits) :
    KeepsBits inbits outbits data ∧
      (convert data inbits outbits).map UInt8.toNat = regroup data inbits outbits ∧
      (∀ d : ByteArr, convert (convert d 8 5) 5 8 = d) ∧
      ∀ b : ByteArr, (∀ x ∈ b, x.toNat < 32) → 5 * b.length % 8 < 5 →
        (∀ x ∈ (concat 5 b).drop (8 * (5 * b.length / 8)), x = false) →
        convert (convert b 5 8) 8 5 = b :=
  ⟨keepsBits_of_inBase hin.2 hout.1 hout.2 hdata,
    convert_eq_regroup hin.2 hout.1 hout.2 hdata, convert_bytes_back,
    fun _ hb hfew hzero => convert_symbols_back hb hfew hzero⟩

/-- Three values of three bits make five of two, the last of them filled, and two symbols are
    read back from the byte they hold. -/
theorem convert_exact_three :
    (convert [5, 3, 7] 3 2).map UInt8.toNat = [2, 2, 3, 3, 2] ∧
      convert (convert [31, 28] 5 8) 8 5 = [31, 28] := by
  have hdata : ∀ d ∈ ([5, 3, 7] : ByteArr), d.toNat < 2 ^ 3 := by simp
  have hsymbols : ∀ x ∈ ([31, 28] : ByteArr), x.toNat < 32 := by simp
  obtain ⟨-, hgroups, -, hback⟩ := convert_exact (by decide : 1 ≤ 3 ∧ 3 ≤ 8)
    (by decide : 1 ≤ 2 ∧ 2 ≤ 8) hdata
  exact ⟨hgroups.trans (by decide), hback _ hsymbols (by decide) (by decide)⟩

end ConfluxSdk
