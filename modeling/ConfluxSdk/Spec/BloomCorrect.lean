import ConfluxSdk.ForStd.JoinFilter
import ConfluxSdk.Native.BloomFilter

/-!
# Bloom filters are sets of positions

The ones of a hash are a set of positions. `operator|=` is their union and `contains`
their inclusion, so that a filter is a filter of joins in the sets of positions, and the
bloom of log entries is the filter of their addresses and topics.

## Key results

- `FixedHash.contains_iff`: `contains` is the inclusion of the positions
- `FixedHash.positions_bloomPart`: the positions of the part of a hash
- `bloom_correct`: order independence, agreement with the log bloom, no false negatives
-/

namespace ConfluxSdk

open Runs (run)

namespace FixedHash

/-! ### The positions of the ones -/

variable {n : Nat} {a b : FixedHash n}

/-- The positions of the ones, counted from the last bit. -/
def positions (h : FixedHash n) : Set ℕ :=
  {i | i / 8 < n ∧ (h.bytes.getD (n - 1 - i / 8) 0).toNat.testBit (i % 8) = true}

theorem positions_zero (n : Nat) : positions (.zero n) = ∅ := by
  ext i
  simp [positions, zero]

theorem getD_zipWith (op : UInt8 → UInt8 → UInt8) {j : Nat} (hj : j < n) :
    (List.zipWith op a.bytes b.bytes).getD j 0 = op (a.bytes.getD j 0) (b.bytes.getD j 0) := by
  have ha : j < a.bytes.length := by rwa [a.size_eq]
  have hb : j < b.bytes.length := by rwa [b.size_eq]
  simp [List.getD_eq_getElem?_getD, ha, hb]

theorem positions_or (a b : FixedHash n) : (a.or b).positions = a.positions ∪ b.positions := by
  ext i
  simp only [positions, Set.mem_ofPred_eq, Set.mem_union, ← and_or_left]
  refine and_congr_right fun hi => ?_
  rw [FixedHash.or, getD_zipWith _ (by omega), UInt8.toNat_or, Nat.testBit_or, Bool.or_eq_true]

theorem positions_and (a b : FixedHash n) : (a.and b).positions = a.positions ∩ b.positions := by
  ext i
  simp only [positions, Set.mem_ofPred_eq, Set.mem_inter_iff, ← and_and_left]
  refine and_congr_right fun hi => ?_
  rw [FixedHash.and, getD_zipWith _ (by omega), UInt8.toNat_and, Nat.testBit_and, Bool.and_eq_true]

/-- The positions determine the hash. -/
theorem positions_injective : Function.Injective (positions (n := n)) := by
  intro a b h
  have hbyte : ∀ j < n, a.bytes.getD j 0 = b.bytes.getD j 0 := by
    intro j hj
    apply UInt8.toNat_inj.mp
    apply Nat.eq_of_testBit_eq
    intro k
    by_cases hk : k < 8
    · -- Bit `k` of byte `j` is one position, which is in both sets or in none.
      have hmem := Set.ext_iff.mp h (8 * (n - 1 - j) + k)
      have hdiv : (8 * (n - 1 - j) + k) / 8 = n - 1 - j := by omega
      have hmod : (8 * (n - 1 - j) + k) % 8 = k := by omega
      have hback : n - 1 - (n - 1 - j) = j := by omega
      have hlt : n - 1 - j < n := by omega
      simp only [positions, Set.mem_ofPred_eq, hdiv, hmod, hback, hlt, true_and] at hmem
      exact Bool.eq_iff_iff.mpr hmem
    · have hpow : 2 ^ 8 ≤ 2 ^ k := Nat.pow_le_pow_right (by decide) (by omega)
      have hlt : ∀ x : UInt8, x.toNat.testBit k = false := fun x =>
        Nat.testBit_lt_two_pow (Nat.lt_of_lt_of_le x.toNat_lt hpow)
      rw [hlt, hlt]
  apply eq_of_bytes
  apply List.ext_getElem (a.size_eq.trans b.size_eq.symm)
  intro j hja hjb
  have hj := hbyte j (by rwa [a.size_eq] at hja)
  simpa [List.getD_eq_getElem?_getD, hja, hjb] using hj

/-- `contains` asks whether all ones of the argument are there. -/
theorem contains_iff : a.contains b = true ↔ b.positions ⊆ a.positions := by
  have heq : (a.and b).bytes = b.bytes ↔ a.and b = b := ⟨eq_of_bytes, congrArg bytes⟩
  rw [FixedHash.contains, beq_iff_eq, heq, ← positions_injective.eq_iff, positions_and,
    Set.inter_eq_right]

/-! ### The part of a hash -/

variable {m : Nat}

/-- The byte with one bit set. -/
theorem toNat_one_shiftLeft (index : UInt32) :
    ((1 : UInt8) <<< (index % 8).toUInt8).toNat = 2 ^ (index.toNat % 8) := by
  have hmod : (index % 8).toUInt8.toNat = index.toNat % 8 := by
    rw [UInt32.toNat_toUInt8, UInt32.toNat_mod, show (8 : UInt32).toNat = 8 from rfl]
    omega
  have hpow : 2 ^ (index.toNat % 8) ≤ 2 ^ 7 := Nat.pow_le_pow_right (by decide) (by omega)
  rw [UInt8.toNat_shiftLeft, hmod, Nat.mod_mod, Nat.shiftLeft_eq, show (1 : UInt8).toNat = 1 from rfl,
    one_mul, Nat.mod_eq_of_lt (by omega)]

theorem getD_orAt (h : FixedHash m) {i j : Nat} (b : UInt8) (hj : j < m) :
    (h.orAt i b).bytes.getD j 0 = if i = j then h.bytes.getD j 0 ||| b else h.bytes.getD j 0 := by
  have hlen : j < h.bytes.length := by rwa [h.size_eq]
  rw [orAt, List.getD_eq_getElem?_getD, List.getElem?_modify, List.getElem?_eq_getElem hlen,
    List.getD_eq_getElem?_getD, List.getElem?_eq_getElem hlen]
  split <;> rfl

theorem positions_orAt (h : FixedHash m) {index : UInt32} (hindex : index.toNat / 8 < m) :
    (h.orAt (m - 1 - (index / 8).toNat) (1 <<< (index % 8).toUInt8)).positions =
      insert index.toNat h.positions := by
  have hdiv : (index / 8).toNat = index.toNat / 8 := UInt32.toNat_div index 8
  ext i
  simp only [positions, Set.mem_ofPred_eq, Set.mem_insert_iff]
  by_cases hi : i / 8 < m
  · rw [getD_orAt h _ (by omega), hdiv]
    by_cases hsame : i / 8 = index.toNat / 8
    · rw [if_pos (by omega), UInt8.toNat_or, Nat.testBit_or, toNat_one_shiftLeft,
        Nat.testBit_two_pow, Bool.or_eq_true, decide_eq_true_eq]
      have hindex : i = index.toNat ↔ index.toNat % 8 = i % 8 := by omega
      simp only [hi, true_and, hindex, or_comm]
    · have hne : i ≠ index.toNat := fun heq => hsame (by rw [heq])
      rw [if_neg (by omega)]
      simp only [hi, true_and, hne, false_or]
  · have hne : i ≠ index.toNat := fun heq => hi (by rwa [heq])
    simp only [hi, false_and, hne, false_or]

/-- The position in a pair of bytes: their number, cut to the size of a log bloom. -/
def pairPosition (p : List UInt8) (j : Nat) : Nat :=
  (256 * (p.getD (2 * j) 0).toNat + (p.getD (2 * j + 1) 0).toNat) % 2048

theorem toNat_bloomIndex {p : List UInt8} (hlen : 2 ≤ p.length) :
    (bloomIndex 256 (p.take 2)).toNat = pairPosition p 0 := by
  rcases p with _ | ⟨b₀, _ | ⟨b₁, p⟩⟩
  · exact absurd hlen (by decide)
  · exact absurd hlen (Nat.not_succ_le_self 1)
  · have h₀ := b₀.toNat_lt
    have h₁ := b₁.toNat_lt
    have hor : b₀.toNat <<< 8 ||| b₁.toNat = 256 * b₀.toNat + b₁.toNat := by
      rw [← Nat.shiftLeft_add_eq_or_of_lt h₁, Nat.shiftLeft_eq, Nat.mul_comm]
    have hmask : (UInt32.ofNat (256 * 8 - 1)).toNat = 2 ^ 11 - 1 := rfl
    simp only [bloomIndex, List.take_succ_cons, List.take_zero, List.foldl_cons, List.foldl_nil,
      UInt32.toNat_and, hmask, Nat.and_two_pow_sub_one_eq_mod, UInt32.toNat_or,
      UInt32.toNat_shiftLeft, UInt8.toNat_toUInt32, pairPosition]
    -- Nothing is shifted out of the 32 bits.
    have hzero : (UInt32.toNat 0 <<< (UInt32.toNat 8 % 32) % 2 ^ 32 ||| b₀.toNat) = b₀.toNat :=
      Nat.zero_or _
    have hshift : b₀.toNat <<< (UInt32.toNat 8 % 32) % 2 ^ 32 = b₀.toNat <<< 8 := by
      show b₀.toNat <<< 8 % 2 ^ 32 = _
      rw [Nat.shiftLeft_eq]
      omega
    rw [hzero, hshift, hor]
    rfl

/-- Every round of the loop adds the position in the next pair of bytes. -/
theorem positions_bloomLoop (i : Nat) {p : List UInt8} (hlen : 2 * i ≤ p.length)
    (ret : FixedHash 256) :
    (bloomLoop 256 2 i p ret).positions =
      ret.positions ∪ {k | ∃ j < i, k = pairPosition p j} := by
  induction i generalizing p ret with
  | zero => simp [bloomLoop]
  | succ i ih =>
    have hindex := toNat_bloomIndex (p := p) (by omega)
    have hlt : (bloomIndex 256 (p.take 2)).toNat / 8 < 256 := by
      have hmod : pairPosition p 0 < 2048 := Nat.mod_lt _ (by decide)
      omega
    have hnext : ∀ j, pairPosition (p.drop 2) j = pairPosition p (j + 1) := by
      intro j
      have heven : 2 + 2 * j = 2 * (j + 1) := by omega
      have hodd : 2 + (2 * j + 1) = 2 * (j + 1) + 1 := by omega
      simp only [pairPosition, List.getD_eq_getElem?_getD, List.getElem?_drop, heven, hodd]
    have hdrop : 2 * i ≤ (p.drop 2).length := by
      rw [List.length_drop]
      omega
    rw [bloomLoop, ih hdrop, positions_orAt _ hlt, hindex]
    ext k
    simp only [hnext, Set.mem_union, Set.mem_insert_iff, Set.mem_ofPred_eq,
      Nat.exists_lt_succ_left]
    rw [or_assoc, or_left_comm]

/-- The part of a hash has the positions in its first three pairs of bytes. -/
theorem positions_bloomPart (h : FixedHash 32) :
    (h.bloomPart 3 256).positions = {k | ∃ j < 3, k = pairPosition h.bytes j} := by
  have hbytes : (Nat.log2 (256 * 8) + 7) / 8 = 2 := by decide
  have hlen : 2 * 3 ≤ h.bytes.length := by rw [h.size_eq]; decide
  rw [bloomPart, hbytes, positions_bloomLoop 3 hlen, positions_zero, Set.empty_union]

end FixedHash

/-! ### Filters -/

namespace BloomFilter

variable (e : Ethash)

/-- The hash of an item. -/
def Item.digest : Item → FixedHash 32
  | .address addr => e.sha3Hash addr.toEthCommonAddr
  | .topic hash => e.sha3Hash hash
  | .string str => e.sha3String str

/-- The positions of an item. -/
def Item.positions (x : Item) : Set ℕ := ((x.digest e).bloomPart 3 256).positions

variable {e}

theorem add_eq (f : BloomFilter) (x : Item) :
    f.add e x = ⟨f.bloom.shiftBloom 3 (x.digest e)⟩ := by
  cases x <;> rfl

theorem positions_add (f : BloomFilter) (x : Item) :
    (f.add e x).bloom.positions = JoinFilter.add (Item.positions e) f.bloom.positions x := by
  rw [add_eq]
  exact FixedHash.positions_or _ _

/-- A run of additions joins the positions of the items. -/
theorem positions_run (f : BloomFilter) (items : List Item) :
    (run (add e) f items).bloom.positions =
      run (JoinFilter.add (Item.positions e)) f.bloom.positions items :=
  Runs.run_project (f := fun g : BloomFilter => g.bloom.positions) positions_add f items

theorem contains_iff (f : BloomFilter) (x : Item) :
    f.contains e x = true ↔ x.positions e ≤ f.bloom.positions := by
  cases x <;> exact FixedHash.contains_iff

theorem containsFilter_iff (f g : BloomFilter) :
    f.containsFilter g = true ↔ g.bloom.positions ≤ f.bloom.positions := FixedHash.contains_iff

end BloomFilter

/-! ### Log entries -/

/-- Both functions of `ethash` hash the bytes. -/
theorem Ethash.sha3Hash_eq (e : Ethash) {n : Nat} (h : FixedHash n) :
    e.sha3Hash h = e.sha3 h.bytes := by
  unfold sha3Hash
  split
  · rename_i hn
    exact e.keccak256_32_eq _ (h.size_eq.trans hn)
  · rfl

namespace LogEntry

variable {e : Ethash}

/-- What a log entry adds to a filter: its address and its topics. -/
def items (l : LogEntry) : List BloomFilter.Item :=
  .address l.cfx_address :: l.topics.map .topic

/-- The loop over the topics adds them one by one. -/
theorem foldl_topics (topics : List (FixedHash 32)) (f : BloomFilter) :
    topics.foldl (fun ret t => ret.shiftBloom 3 (e.sha3 t.bytes)) f.bloom =
      (run (BloomFilter.add e) f (topics.map .topic)).bloom := by
  induction topics generalizing f with
  | nil => rfl
  | cons t topics ih =>
    rw [List.foldl_cons, ← e.sha3Hash_eq]
    exact ih (f.addHash e t)

/-- The bloom of an entry is a filter with its address and topics. -/
theorem bloom_new (address : Address) (topics : List (FixedHash 32)) (data : Bytes) :
    (new address topics data).bloom e =
      (run (BloomFilter.add e) .empty (new address topics data).items).bloom := by
  have haddress : (FixedHash.zero 256).shiftBloom 3 (e.sha3 address.toEthCommonAddr.bytes) =
      (BloomFilter.empty.addAddress e address).bloom := by
    rw [← e.sha3Hash_eq]
    rfl
  rw [LogEntry.bloom, new, haddress, foldl_topics]
  rfl

end LogEntry

open BloomFilter LogEntry in
/-- The bloom of some entries has the positions of all their addresses and topics. -/
theorem positions_bloom (e : Ethash) (logs : List (Address × List (FixedHash 32) × Bytes)) :
    (bloom e (logs.map fun (a, ts, d) => LogEntry.new a ts d)).positions =
      run (JoinFilter.add (Item.positions e)) ⊥
        ((logs.map fun (a, ts, d) => LogEntry.new a ts d).flatMap items) := by
  have hstep : ∀ (ret : LogBloom) (l : Address × List (FixedHash 32) × Bytes),
      (ret.or ((LogEntry.new l.1 l.2.1 l.2.2).bloom e)).positions =
        JoinFilter.add (fun l : Address × List (FixedHash 32) × Bytes =>
          run (JoinFilter.add (Item.positions e)) ⊥ (LogEntry.new l.1 l.2.1 l.2.2).items)
          ret.positions l := by
    intro ret l
    rw [FixedHash.positions_or, bloom_new, positions_run, BloomFilter.empty,
      FixedHash.positions_zero]
    rfl
  rw [bloom, List.foldl_map, List.flatMap_map, ← JoinFilter.run_add_groups]
  have hrun := Runs.run_project (f := FixedHash.positions) hstep (.zero 256) logs
  rwa [FixedHash.positions_zero] at hrun

open BloomFilter LogEntry in
/-- For every hash function: the filter of the addresses and topics of log entries, added in
    any order, is their bloom; and additions to any filter keep what it contains, and make
    it contain every item that is added and every filter of such items. -/
theorem bloom_correct (e : Ethash) :
    (∀ (logs : List (Address × List (FixedHash 32) × Bytes)) (items : List Item),
      items.Perm ((logs.map fun (a, ts, d) => LogEntry.new a ts d).flatMap LogEntry.items) →
      (run (add e) .empty items).value =
        bloom e (logs.map fun (a, ts, d) => LogEntry.new a ts d)) ∧
    (∀ (f : BloomFilter) (items : List Item),
      (∀ x ∈ items, (run (add e) f items).contains e x = true) ∧
      (∀ x, f.contains e x = true → (run (add e) f items).contains e x = true) ∧
      ∀ sub : List Item, sub ⊆ items →
        (run (add e) f items).containsFilter (run (add e) .empty sub) = true) := by
  refine ⟨fun logs items hperm => ?_, fun f items => ⟨fun x hx => ?_, fun x hx => ?_, ?_⟩⟩
  · apply FixedHash.positions_injective
    rw [positions_bloom, value, positions_run, BloomFilter.empty, FixedHash.positions_zero]
    exact JoinFilter.run_add_congr fun x => hperm.mem_iff
  · rw [contains_iff, positions_run]
    exact JoinFilter.part_le_run_add hx
  · rw [contains_iff] at hx
    rw [contains_iff, positions_run]
    exact hx.trans JoinFilter.le_run_add
  · intro sub hsub
    rw [containsFilter_iff, positions_run, positions_run, BloomFilter.empty,
      FixedHash.positions_zero]
    exact JoinFilter.run_add_mono bot_le hsub

end ConfluxSdk
