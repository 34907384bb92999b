import ConfluxSdk.ForStd.BigEndian
import ConfluxSdk.Native.CfxAddress

/-!
# Bit regrouping keeps the number

`convert` regroups a string of `inbits`-bit groups into `outbits`-bit groups. Read
as digit strings, both stand for the same number, up to the padding bits at the
end. The loops carry the invariant `Regrouped`: the groups written so far followed
by the `accBits` bits in `acc` are the groups read so far.

## Key results

- `convertLoop_regrouped`: the invariant over the whole loop
- `convert_bytes`, `convert_symbols`: the 21 bytes of an address body and its 34
  symbols, in both directions
-/

namespace ConfluxSdk

open Radix (value InBase)

/-- The number `n` of `bits` bits has been split into the groups `ret` and a rest
    that does not fill a group. -/
structure Regrouped (outbits : Nat) (n bits : Nat) (out : ByteArr × Nat × Nat) : Prop where
  value_eq : value (2 ^ outbits) out.1 * 2 ^ out.2.2 + out.2.1 = n
  length_eq : outbits * out.1.length + out.2.2 = bits
  inBase : InBase (2 ^ outbits) out.1
  acc_lt : out.2.1 < 2 ^ out.2.2
  accBits_lt : out.2.2 < outbits

/-- The next group is appended to `acc`, behind its bits. -/
theorem shift_or_eq {inbits acc accBits : Nat} {d : UInt8} (hacc : acc < 2 ^ accBits)
    (hd : d.toNat < 2 ^ inbits) :
    acc <<< inbits ||| d.toNat = acc * 2 ^ inbits + d.toNat ∧
      acc * 2 ^ inbits + d.toNat < 2 ^ (accBits + inbits) := by
  constructor
  · rw [← Nat.shiftLeft_add_eq_or_of_lt hd, Nat.shiftLeft_eq]
  · rw [Nat.pow_add]
    calc acc * 2 ^ inbits + d.toNat
        < acc * 2 ^ inbits + 2 ^ inbits := Nat.add_lt_add_left hd _
      _ = (acc + 1) * 2 ^ inbits := by ring
      _ ≤ 2 ^ accBits * 2 ^ inbits := Nat.mul_le_mul_right _ hacc

section Loops

variable {outbits : Nat} (hpos : 0 < outbits) (hout : outbits ≤ 8)
include hpos hout

theorem convertEmit_regrouped (rounds acc accBits : Nat) (hrounds : accBits ≤ rounds)
    (hacc : acc < 2 ^ accBits) :
    Regrouped outbits acc accBits (convertEmit outbits rounds acc accBits) := by
  induction rounds generalizing acc accBits with
  | zero =>
    obtain rfl : accBits = 0 := by omega
    exact ⟨by simp [convertEmit], by simp [convertEmit], by simp [convertEmit, InBase], hacc, hpos⟩
  | succ rounds ih =>
    unfold convertEmit
    dsimp only
    by_cases hge : outbits ≤ accBits
    · -- One group comes off the top of `acc`; the rest is below it.
      rw [if_pos hge, Nat.shiftRight_eq_div_pow, Nat.one_shiftLeft, Nat.and_two_pow_sub_one_eq_mod]
      have hlow : acc % 2 ^ (accBits - outbits) < 2 ^ (accBits - outbits) :=
        Nat.mod_lt _ (Nat.two_pow_pos _)
      have hsplit : 2 ^ accBits = 2 ^ outbits * 2 ^ (accBits - outbits) := by
        rw [← Nat.pow_add]
        congr 1
        omega
      have htop : acc / 2 ^ (accBits - outbits) < 2 ^ outbits := by
        rw [Nat.div_lt_iff_lt_mul (Nat.two_pow_pos _), ← hsplit]
        exact hacc
      have hbyte : (UInt8.ofNat (acc / 2 ^ (accBits - outbits))).toNat =
          acc / 2 ^ (accBits - outbits) := by
        have hle : 2 ^ outbits ≤ 2 ^ 8 := Nat.pow_le_pow_right (by omega) hout
        exact UInt8.toNat_ofNat_of_lt' (Nat.lt_of_lt_of_le htop hle)
      -- What is left of `acc` is regrouped in the rounds that remain.
      have hrec := ih (acc % 2 ^ (accBits - outbits)) (accBits - outbits) (by omega) hlow
      generalize convertEmit outbits rounds (acc % 2 ^ (accBits - outbits))
        (accBits - outbits) = out at hrec ⊢
      obtain ⟨ret, acc', accBits'⟩ := out
      obtain ⟨hval, hlen, hin, hlt, hbits⟩ := hrec
      dsimp only at hval hlen hin hlt hbits ⊢
      refine ⟨?_, ?_, ?_, hlt, hbits⟩
      · have hexp : 2 ^ (accBits - outbits) = (2 ^ outbits) ^ ret.length * 2 ^ accBits' := by
          rw [← Nat.pow_mul, ← Nat.pow_add, hlen]
        rw [Radix.value_cons, hbyte, Nat.add_mul, Nat.mul_assoc, ← hexp, Nat.add_assoc, hval,
          Nat.mul_comm]
        exact Nat.div_add_mod acc _
      · show outbits * (ret.length + 1) + accBits' = accBits
        rw [Nat.mul_add]
        omega
      · intro d hd
        rcases List.mem_cons.mp hd with rfl | hd
        · rw [hbyte]
          exact htop
        · exact hin d hd
    · -- Less than a group is left and stays in `acc`.
      rw [if_neg hge]
      exact ⟨by simp, by simp, by simp [InBase], hacc, by simpa using hge⟩

theorem convertLoop_regrouped {inbits : Nat} (hin : inbits ≤ 8) {data : ByteArr}
    (hdata : InBase (2 ^ inbits) data) (acc accBits : Nat) (hacc : acc < 2 ^ accBits)
    (hbits : accBits < outbits) :
    Regrouped outbits (acc * 2 ^ (inbits * data.length) + value (2 ^ inbits) data)
      (accBits + inbits * data.length) (convertLoop inbits outbits data acc accBits) := by
  induction data generalizing acc accBits with
  | nil =>
    exact ⟨by simp [convertLoop], by simp [convertLoop], by simp [convertLoop, InBase], hacc, hbits⟩
  | cons d data ih =>
    have hd : d.toNat < 2 ^ inbits := hdata d List.mem_cons_self
    -- With the next group `acc` stays below 2^16.
    obtain ⟨hor, hlt⟩ := shift_or_eq hacc hd
    have h16 : 2 ^ (accBits + inbits) ≤ 2 ^ 16 := Nat.pow_le_pow_right (by omega) (by omega)
    have hemit := convertEmit_regrouped hpos hout (accBits + inbits) _ _ (Nat.le_refl _) hlt
    unfold convertLoop
    dsimp only
    rw [hor, Nat.mod_eq_of_lt (Nat.lt_of_lt_of_le hlt h16)]
    generalize convertEmit outbits (accBits + inbits) (acc * 2 ^ inbits + d.toNat)
      (accBits + inbits) = out at hemit ⊢
    obtain ⟨ret, acc', accBits'⟩ := out
    obtain ⟨hval, hlen, hinb, hacc', hbits'⟩ := hemit
    dsimp only at hval hlen hinb hacc' hbits' ⊢
    have hrec := ih (fun e he => hdata e (List.mem_cons_of_mem _ he)) acc' accBits' hacc' hbits'
    generalize convertLoop inbits outbits data acc' accBits' = out at hrec ⊢
    obtain ⟨ret', acc'', accBits''⟩ := out
    obtain ⟨hval', hlen', hinb', hacc'', hbits''⟩ := hrec
    dsimp only at hval' hlen' hinb' hacc'' hbits'' ⊢
    refine ⟨?_, ?_, ?_, hacc'', hbits''⟩
    · have hexp : 2 ^ (accBits' + inbits * data.length) =
          (2 ^ outbits) ^ ret'.length * 2 ^ accBits'' := by
        rw [← Nat.pow_mul, ← Nat.pow_add, hlen']
      calc value (2 ^ outbits) (ret ++ ret') * 2 ^ accBits'' + acc''
          = value (2 ^ outbits) ret * ((2 ^ outbits) ^ ret'.length * 2 ^ accBits'') +
              (value (2 ^ outbits) ret' * 2 ^ accBits'' + acc'') := by
            rw [Radix.value_append]
            ring
        _ = (value (2 ^ outbits) ret * 2 ^ accBits' + acc') * 2 ^ (inbits * data.length) +
              value (2 ^ inbits) data := by
            rw [← hexp, hval', Nat.pow_add]
            ring
        _ = acc * 2 ^ (inbits * (d :: data).length) + value (2 ^ inbits) (d :: data) := by
            rw [hval, Radix.value_cons, List.length_cons, Nat.mul_succ, Nat.pow_add, Nat.pow_mul]
            ring
    · show outbits * (ret ++ ret').length + accBits'' = accBits + inbits * (data.length + 1)
      rw [List.length_append, Nat.mul_add, Nat.mul_add]
      omega
    · intro e he
      rcases List.mem_append.mp he with he | he
      · exact hinb e he
      · exact hinb' e he

end Loops

/-- What `convert` returns for the groups its loop leaves behind. -/
theorem convert_regrouped {inbits outbits : Nat} (hin : inbits ≤ 8) (hpos : 0 < outbits)
    (hout : outbits ≤ 8) {data : ByteArr} (hdata : InBase (2 ^ inbits) data) :
    ∃ ret acc accBits,
      Regrouped outbits (value (2 ^ inbits) data) (inbits * data.length) (ret, acc, accBits) ∧
        convert data inbits outbits =
          if accBits > 0 ∧ inbits > outbits then ret ++ [UInt8.ofNat (acc <<< (outbits - accBits))]
          else ret := by
  have h := convertLoop_regrouped hpos hout hin hdata 0 0 (by decide) hpos
  rw [Nat.zero_mul, Nat.zero_add, Nat.zero_add] at h
  refine ⟨_, _, _, h, ?_⟩
  rw [convert, if_neg (by omega)]

/-- The bits that are left over, at the top of a group of their own. -/
theorem Regrouped.toNat_last {outbits n bits : Nat} {ret : ByteArr} {acc accBits : Nat}
    (hout : outbits ≤ 8) (h : Regrouped outbits n bits (ret, acc, accBits)) :
    (UInt8.ofNat (acc <<< (outbits - accBits))).toNat = acc * 2 ^ (outbits - accBits) ∧
      acc * 2 ^ (outbits - accBits) < 2 ^ outbits := by
  have hacc : acc < 2 ^ accBits := h.acc_lt
  have hbits : accBits < outbits := h.accBits_lt
  have hpow : 2 ^ accBits * 2 ^ (outbits - accBits) = 2 ^ outbits := by
    rw [← Nat.pow_add, Nat.add_sub_cancel' (by omega)]
  have hlt : acc * 2 ^ (outbits - accBits) < 2 ^ outbits := by
    rw [← hpow]
    exact Nat.mul_lt_mul_of_pos_right hacc (Nat.two_pow_pos _)
  have hle : 2 ^ outbits ≤ 2 ^ 8 := Nat.pow_le_pow_right (by decide) hout
  refine ⟨?_, hlt⟩
  rw [Nat.shiftLeft_eq]
  exact UInt8.toNat_ofNat_of_lt' (Nat.lt_of_lt_of_le hlt hle)

/-! ### The two directions -/

private theorem value_256 (data : ByteArr) : value (2 ^ 8) data = BigEndian.toNat data := rfl

/-- The rest after regrouping bytes into symbols is padded with zero bits. -/
theorem convert_bytes_value (data : ByteArr) :
    ∃ pad, pad < 5 ∧ value 32 (convert data 8 5) = BigEndian.toNat data * 2 ^ pad ∧
      5 * (convert data 8 5).length = 8 * data.length + pad ∧ InBase 32 (convert data 8 5) := by
  obtain ⟨ret, acc, accBits, h, hconvert⟩ := convert_regrouped (by decide : 8 ≤ 8)
    (by decide : 0 < 5) (by decide) (BigEndian.inBase data)
  obtain ⟨hbyte, hlast⟩ := h.toNat_last (by decide)
  obtain ⟨hval, hlen, hin, hacc, hbits⟩ := h
  dsimp only at hval hlen hin hacc hbits
  rw [hconvert]
  by_cases hzero : accBits = 0
  · subst hzero
    obtain rfl : acc = 0 := by simpa using hacc
    rw [if_neg (by omega)]
    refine ⟨0, by decide, ?_, hlen, hin⟩
    rw [Nat.pow_zero, Nat.mul_one, Nat.add_zero] at hval
    rw [Nat.pow_zero, Nat.mul_one]
    exact hval
  · -- What is left over goes to the top of one more symbol.
    have hpow : 2 ^ accBits * 2 ^ (5 - accBits) = 32 := by
      rw [← Nat.pow_add, Nat.add_sub_cancel' (by omega)]
    rw [if_pos (by omega)]
    refine ⟨5 - accBits, by omega, ?_, ?_, ?_⟩
    · rw [Radix.value_concat, hbyte, ← value_256, ← hval, Nat.add_mul, Nat.mul_assoc, hpow]
      rfl
    · rw [List.length_append, List.length_singleton]
      omega
    · intro d hd
      rcases List.mem_append.mp hd with hd | hd
      · exact hin d hd
      · rw [List.mem_singleton.mp hd, hbyte]
        exact hlast

/-- Bits that do not fill a byte are dropped. -/
theorem convert_symbols_value {data : ByteArr} (hdata : InBase 32 data) :
    ∃ rest acc, rest < 8 ∧ acc < 2 ^ rest ∧
      BigEndian.toNat (convert data 5 8) * 2 ^ rest + acc = value 32 data ∧
      8 * (convert data 5 8).length + rest = 5 * data.length := by
  obtain ⟨ret, acc, accBits, h, hconvert⟩ := convert_regrouped (by decide : 5 ≤ 8)
    (by decide : 0 < 8) (by decide) hdata
  obtain ⟨hval, hlen, _, hacc, hbits⟩ := h
  rw [hconvert, if_neg (by omega)]
  exact ⟨accBits, acc, hbits, hacc, hval, hlen⟩

/-- The symbols of the 21 bytes of an address: the number shifted by the two
    padding bits. -/
theorem convert_bytes {data : ByteArr} (hlen : data.length = 21) :
    convert data 8 5 = Radix.fixed 32 34 (BigEndian.toNat data * 4) := by
  obtain ⟨pad, hpad, hval, hcount, hin⟩ := convert_bytes_value data
  have h34 : (convert data 8 5).length = 34 := by omega
  obtain rfl : pad = 2 := by omega
  have hback := Radix.fixed_value (by decide) (by decide) hin
  rw [h34, hval] at hback
  exact hback.symm

/-- The symbols of the five checksum bytes. -/
theorem convert_checksum_bytes {data : ByteArr} (hlen : data.length = 5) :
    convert data 8 5 = Radix.fixed 32 8 (BigEndian.toNat data) := by
  obtain ⟨pad, hpad, hval, hcount, hin⟩ := convert_bytes_value data
  have h8 : (convert data 8 5).length = 8 := by omega
  obtain rfl : pad = 0 := by omega
  have hback := Radix.fixed_value (by decide) (by decide) hin
  rw [h8, hval, Nat.pow_zero, Nat.mul_one] at hback
  exact hback.symm

/-- The bytes of the 34 symbols of an address: the two padding bits are dropped,
    whatever they are. -/
theorem convert_symbols {data : ByteArr} (hdata : InBase 32 data) (hlen : data.length = 34) :
    convert data 5 8 = BigEndian.fixed 21 (value 32 data / 4) := by
  obtain ⟨rest, acc, hrest, hacc, hval, hcount⟩ := convert_symbols_value hdata
  have h21 : (convert data 5 8).length = 21 := by omega
  obtain rfl : rest = 2 := by omega
  have hdiv : value 32 data / 4 = BigEndian.toNat (convert data 5 8) := by omega
  rw [hdiv, ← h21, BigEndian.fixed_toNat]

end ConfluxSdk
