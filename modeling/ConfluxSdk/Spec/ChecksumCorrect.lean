import ConfluxSdk.ForStd.FeedbackRegister
import ConfluxSdk.Spec.ConvertCorrect

/-!
# The address checksum

`polymod` is the feedback register of eight five-bit symbols (`FeedbackRegister`)
with the generator given by its five constants, run from 1 and with 1 added at the
end. Eight checksum symbols are the right ones exactly when the register ends up
at 1 after network name, separator, body and checksum, so the burst rule of the
library applies to the whole payload.

## Key results

- `polymodStep_toNat`: the loop body is a step of the register
- `calcChecksum_eq`: the checksum symbols are the digits of the register
- `eq_calcChecksum_iff`: how a checksum is recognised
- `payload_burst`: two payloads with right checksums do not differ within eight
  consecutive symbols only
-/

namespace ConfluxSdk

open FeedbackRegister (Feedback step run)
open Radix (value InBase)

/-! ### The generator -/

/-- The constant `k`, if its bit of `c0` is set. -/
def select (b : Bool) (k : Nat) : Nat := if b then k else 0

/-- What the five branches of `polymod` add for the symbol `c0`. -/
def feedback (c0 : Nat) : Nat :=
  select (c0.testBit 0) 0x98f2bc8e61 ^^^ select (c0.testBit 1) 0x79b76d99e2 ^^^
    select (c0.testBit 2) 0xf33e5fb3c4 ^^^ select (c0.testBit 3) 0xae2eabe2a8 ^^^
    select (c0.testBit 4) 0x1e4f43e470

private theorem select_xor (b b' : Bool) (k : Nat) :
    select (b ^^ b') k = select b k ^^^ select b' k := by
  cases b <;> cases b' <;> simp [select]

private theorem select_lt {b : Bool} {k n : Nat} (h : k < 2 ^ n) : select b k < 2 ^ n := by
  cases b
  · exact Nat.two_pow_pos n
  · exact h

/-- The constants end in the symbols 1, 2, 4, 8 and 16, so the symbol that was
    shifted out can be read off the last one. -/
theorem feedback_generator : Feedback 5 7 feedback where
  xor a b := by
    simp only [feedback, Nat.testBit_xor, select_xor]
    ac_rfl
  low := by decide
  lt a := by
    unfold feedback
    have h0 : select (a.testBit 0) 0x98f2bc8e61 < 2 ^ (5 * (7 + 1)) := select_lt (by decide)
    have h1 : select (a.testBit 1) 0x79b76d99e2 < 2 ^ (5 * (7 + 1)) := select_lt (by decide)
    have h2 : select (a.testBit 2) 0xf33e5fb3c4 < 2 ^ (5 * (7 + 1)) := select_lt (by decide)
    have h3 : select (a.testBit 3) 0xae2eabe2a8 < 2 ^ (5 * (7 + 1)) := select_lt (by decide)
    have h4 : select (a.testBit 4) 0x1e4f43e470 < 2 ^ (5 * (7 + 1)) := select_lt (by decide)
    exact Nat.xor_lt_two_pow (Nat.xor_lt_two_pow (Nat.xor_lt_two_pow
      (Nat.xor_lt_two_pow h0 h1) h2) h3) h4

/-! ### polymod -/

private theorem toNat_ite_xor (p : Prop) [Decidable p] (b : Bool) (h : p ↔ b = true)
    (c k : UInt64) : (if p then c ^^^ k else c).toNat = c.toNat ^^^ select b k.toNat := by
  by_cases hp : p
  · rw [if_pos hp, h.mp hp, UInt64.toNat_xor]
    rfl
  · have hb : b = false := by
      rw [← Bool.not_eq_true]
      exact fun hb => hp (h.mpr hb)
    rw [if_neg hp, hb]
    exact (Nat.xor_zero _).symm

private theorem and_ne_zero_iff (x k : UInt8) (i : Nat) (hk : k.toNat = 2 ^ i) :
    x &&& k ≠ 0 ↔ x.toNat.testBit i = true := by
  rw [ne_eq, ← UInt8.toNat_inj, UInt8.toNat_and, hk, Nat.and_two_pow]
  cases x.toNat.testBit i <;> simp

/-- The body of the loop is a step of the register. -/
theorem polymodStep_toNat {c : UInt64} (hc : c.toNat < 2 ^ 40) (d : UInt8) :
    (polymodStep c d).toNat = step 5 7 feedback c.toNat d.toNat := by
  have hc0 : ((c >>> 35).toUInt8).toNat = c.toNat / 2 ^ 35 := by
    have hlt : c.toNat / 2 ^ 35 < 2 ^ 8 := by omega
    rw [UInt64.toNat_toUInt8, UInt64.toNat_shiftRight]
    show c.toNat >>> 35 % 2 ^ 8 = _
    rw [Nat.shiftRight_eq_div_pow, Nat.mod_eq_of_lt hlt]
  have hlow : ((c &&& 0x07ffffffff) <<< 5).toNat = (c.toNat % 2 ^ 35) <<< 5 := by
    have hmask : (c &&& 0x07ffffffff).toNat = c.toNat % 2 ^ 35 := by
      rw [UInt64.toNat_and]
      exact Nat.and_two_pow_sub_one_eq_mod c.toNat 35
    rw [UInt64.toNat_shiftLeft, hmask]
    show (c.toNat % 2 ^ 35) <<< 5 % 2 ^ 64 = _
    rw [Nat.shiftLeft_eq]
    omega
  unfold polymodStep
  dsimp only
  rw [toNat_ite_xor _ _ (and_ne_zero_iff _ 0x10 4 rfl),
    toNat_ite_xor _ _ (and_ne_zero_iff _ 0x08 3 rfl),
    toNat_ite_xor _ _ (and_ne_zero_iff _ 0x04 2 rfl),
    toNat_ite_xor _ _ (and_ne_zero_iff _ 0x02 1 rfl),
    toNat_ite_xor _ _ (and_ne_zero_iff _ 0x01 0 rfl), UInt64.toNat_xor, hlow, hc0,
    UInt8.toNat_toUInt64, step, feedback]
  simp only [Nat.xor_assoc]
  rfl

theorem foldl_polymodStep_toNat {v : ByteArr} (hv : InBase 32 v) {c : UInt64}
    (hc : c.toNat < 2 ^ 40) : (v.foldl polymodStep c).toNat = run 5 7 feedback c.toNat v := by
  induction v generalizing c with
  | nil => rfl
  | cons d v ih =>
    have hstep := polymodStep_toNat hc d
    have hd : d.toNat < 2 ^ 5 := hv d List.mem_cons_self
    have hlt : (polymodStep c d).toNat < 2 ^ 40 := by
      rw [hstep]
      exact FeedbackRegister.step_lt feedback_generator hd
    rw [List.foldl_cons, ih (fun e he => hv e (List.mem_cons_of_mem _ he)) hlt, hstep,
      FeedbackRegister.run_cons]

theorem polymod_toNat {v : ByteArr} (hv : InBase 32 v) :
    (polymod v).toNat = run 5 7 feedback 1 v ^^^ 1 := by
  rw [polymod, UInt64.toNat_xor, foldl_polymodStep_toNat hv (by decide)]
  rfl

theorem uint64ToBytes_eq (num : UInt64) : uint64ToBytes num = BigEndian.fixed 8 num.toNat := by
  have hbyte : ∀ k : Nat, k < 8 → (num >>> (UInt64.ofNat k * 8)).toUInt8 =
      UInt8.ofNat (num.toNat / 256 ^ k % 256) := by
    intro k hk
    apply UInt8.toNat_inj.mp
    have hpow : 256 ^ k = 2 ^ (k * 8) := by rw [Nat.mul_comm, Nat.pow_mul]
    rw [UInt64.toNat_toUInt8, UInt64.toNat_shiftRight, UInt8.toNat_ofNat', hpow]
    have hshift : (UInt64.ofNat k * 8).toNat % 64 = k * 8 := by
      interval_cases k <;> rfl
    rw [hshift, Nat.shiftRight_eq_div_pow]
    omega
  show [(num >>> (UInt64.ofNat 7 * 8)).toUInt8, (num >>> (UInt64.ofNat 6 * 8)).toUInt8,
    (num >>> (UInt64.ofNat 5 * 8)).toUInt8, (num >>> (UInt64.ofNat 4 * 8)).toUInt8,
    (num >>> (UInt64.ofNat 3 * 8)).toUInt8, (num >>> (UInt64.ofNat 2 * 8)).toUInt8,
    (num >>> (UInt64.ofNat 1 * 8)).toUInt8, (num >>> (UInt64.ofNat 0 * 8)).toUInt8] = _
  rw [hbyte 7 (by decide), hbyte 6 (by decide), hbyte 5 (by decide), hbyte 4 (by decide),
    hbyte 3 (by decide), hbyte 2 (by decide), hbyte 1 (by decide), hbyte 0 (by decide)]
  simp only [BigEndian.fixed, Radix.fixed, Nat.div_div_eq_div_mul, List.nil_append,
    List.cons_append, Nat.reduceMul, Nat.reducePow, Nat.div_one]

/-! ### CalcChecksum -/

/-- The symbols of a network name. -/
def prefixSymbols (nt : NetworkType) : ByteArr :=
  nt.net_work_type_str.map fun c => UInt8.ofNat c.toNat &&& 0x1F

theorem inBase_prefixSymbols (nt : NetworkType) : InBase 32 (prefixSymbols nt) := by
  intro d hd
  obtain ⟨c, _, rfl⟩ := List.mem_map.mp hd
  rw [UInt8.toNat_and]
  exact Nat.lt_of_le_of_lt Nat.and_le_right (by decide)

/-- What stands in front of the checksum symbols. -/
def checkedSymbols (nt : NetworkType) (body : Body) : ByteArr :=
  prefixSymbols nt ++ [0] ++ body.body

theorem inBase_checkedSymbols (nt : NetworkType) {body : Body} (h : InBase 32 body.body) :
    InBase 32 (checkedSymbols nt body) :=
  ((inBase_prefixSymbols nt).append (Radix.inBase_replicate_zero (by decide) 1)).append h

/-- The register that eight zero symbols behind the body lead to. -/
def remainder (nt : NetworkType) (body : Body) : Nat :=
  run 5 7 feedback 1 (checkedSymbols nt body ++ List.replicate 8 0)

theorem remainder_lt (nt : NetworkType) {body : Body} (h : InBase 32 body.body) :
    remainder nt body < 2 ^ 40 :=
  FeedbackRegister.run_lt feedback_generator (by decide)
    ((inBase_checkedSymbols nt h).append (Radix.inBase_replicate_zero (by decide) 8))

theorem remainder_xor_lt (nt : NetworkType) {body : Body} (h : InBase 32 body.body) :
    remainder nt body ^^^ 1 < 32 ^ 8 := Nat.xor_lt_two_pow (remainder_lt nt h) (by decide)

/-- The checksum symbols are the digits of the register. -/
theorem calcChecksum_eq (nt : NetworkType) {body : Body} (h : InBase 32 body.body) :
    calcChecksum nt body = Radix.fixed 32 8 (remainder nt body ^^^ 1) := by
  have hinput : InBase 32 (checkedSymbols nt body ++ List.replicate 8 0) :=
    (inBase_checkedSymbols nt h).append (Radix.inBase_replicate_zero (by decide) 8)
  have hlow : (BigEndian.fixed 8 (remainder nt body ^^^ 1)).drop 3 =
      BigEndian.fixed 5 (remainder nt body ^^^ 1) := by
    rw [BigEndian.fixed, show (8 : Nat) = 3 + 5 from rfl, Radix.fixed_add]
    exact List.drop_left' (Radix.length_fixed _ _)
  have hlt : remainder nt body ^^^ 1 < 256 ^ 5 := remainder_xor_lt nt h
  show convert ((uint64ToBytes (polymod (checkedSymbols nt body ++ List.replicate 8 0))).drop 3)
    8 5 = _
  rw [uint64ToBytes_eq, polymod_toNat hinput, ← remainder, hlow,
    convert_checksum_bytes (BigEndian.length_fixed _ _), BigEndian.toNat_fixed_of_lt hlt]

theorem length_calcChecksum (nt : NetworkType) {body : Body} (h : InBase 32 body.body) :
    (calcChecksum nt body).length = 8 := by
  rw [calcChecksum_eq nt h, Radix.length_fixed]

theorem inBase_calcChecksum (nt : NetworkType) {body : Body} (h : InBase 32 body.body) :
    InBase 32 (calcChecksum nt body) := by
  rw [calcChecksum_eq nt h]
  exact Radix.inBase_fixed (by decide) (by decide) _ _

/-- Eight symbols are the checksum exactly when they take the register to 1. -/
theorem eq_calcChecksum_iff (nt : NetworkType) {body : Body} (h : InBase 32 body.body)
    {check : ByteArr} (hcheck : InBase 32 check) (hlen : check.length = 8) :
    check = calcChecksum nt body ↔ run 5 7 feedback 1 (checkedSymbols nt body ++ check) = 1 := by
  have hload : run 5 7 feedback 1 (checkedSymbols nt body ++ check) =
      remainder nt body ^^^ value 32 check := by
    rw [FeedbackRegister.run_append, FeedbackRegister.run_load feedback_generator _ hcheck
      (by omega), hlen, remainder, FeedbackRegister.run_append]
    rfl
  have hval := Radix.value_fixed_of_lt (by decide : 0 < 32) (by decide) (remainder_xor_lt nt h)
  rw [hload, calcChecksum_eq nt h]
  constructor
  · intro heq
    rw [heq, hval, ← Nat.xor_assoc, Nat.xor_self, Nat.zero_xor]
  · intro heq
    apply Radix.value_inj hcheck (Radix.inBase_fixed (by decide) (by decide) _ _)
    · rw [hlen, Radix.length_fixed]
    · rw [hval, ← heq, ← Nat.xor_assoc, Nat.xor_self, Nat.zero_xor]

/-- Two payloads with right checksums that agree outside eight consecutive
    symbols are equal. -/
theorem payload_burst (nt : NetworkType) {body body' : Body} (hb : InBase 32 body.body)
    (hb' : InBase 32 body'.body) {pre x y post : ByteArr}
    (h : body.body ++ calcChecksum nt body = pre ++ x ++ post)
    (h' : body'.body ++ calcChecksum nt body' = pre ++ y ++ post)
    (hlen : x.length = y.length) (hle : x.length ≤ 8) : x = y := by
  have hregister : ∀ {b : Body} {z : ByteArr}, InBase 32 b.body →
      b.body ++ calcChecksum nt b = pre ++ z ++ post →
      InBase 32 (pre ++ z ++ post) ∧
        run 5 7 feedback 1 ((prefixSymbols nt ++ [0] ++ pre) ++ z ++ post) = 1 := by
    intro b z hin hz
    have hcheck := inBase_calcChecksum nt hin
    refine ⟨hz ▸ hin.append hcheck, ?_⟩
    have hone := (eq_calcChecksum_iff nt hin hcheck (length_calcChecksum nt hin)).mp rfl
    rw [checkedSymbols, List.append_assoc _ b.body, hz] at hone
    simpa only [List.append_assoc] using hone
  obtain ⟨hin, hone⟩ := hregister hb h
  obtain ⟨hin', hone'⟩ := hregister hb' h'
  have hstart : InBase 32 (prefixSymbols nt ++ [0]) :=
    (inBase_prefixSymbols nt).append (Radix.inBase_replicate_zero (by decide) 1)
  -- The differing symbols are the burst, everything in front of them a common start.
  refine FeedbackRegister.burst feedback_generator (by decide : 1 < 2 ^ (5 * (7 + 1)))
    (hstart.append hin.left.left) hin.left.right hin'.left.right hin.right hlen hle ?_
  rw [hone, hone']

end ConfluxSdk
