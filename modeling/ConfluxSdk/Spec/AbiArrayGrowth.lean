import ConfluxSdk.Spec.AbiDecodeStops

/-!
# Arrays that grow before their data are read

`ParamArray::decode` makes the elements the length word announces, and only then reads
them. When the data of one of them are missing it returns `false`, and the elements that
were made stay in the array. `ParamByteArray::decodeBytes` compares the announced length
with the data first.

## Key results

- `hasHead_of_make`: the head of what the factory makes takes a word of the data
- `decode_bounded_iff`: when the data bound the number of elements
-/

namespace ConfluxSdk.Abi

open Except (ensures_ok ensures_error ensures_ite ensures_bind)

/-! ### The elements that are made -/

/-- `std::stoi` returns an `int`. -/
theorem stoi_lt (s : Str) : (stoi s).Ensures fun n => n < 2 ^ 31 := by
  unfold stoi
  refine ensures_ite (fun _ => ensures_error _) fun _ => ?_
  refine ensures_ite (fun _ => ensures_error _) fun hrange => ?_
  exact ensures_ok (Int.not_le.mp (not_or.mp hrange).2)

/-- Nothing is made, or an object with a head, or a byte array of no bytes. -/
private def Headed (o : Option Param) : Prop :=
  ∀ q, o = some q → q.HasHead ∨ q = .byteArrayFix 0 []

private theorem headed_some {q : Param} (h : q.HasHead ∨ q = .byteArrayFix 0 []) :
    Headed (some q) := by
  intro q' hq'
  rw [← Option.some.inj hq']
  exact h

private theorem headed_makeElementary (type : Str) : (makeElementary type).Ensures Headed := by
  unfold makeElementary makeNumber makeUInt makeInt
  repeat' refine ensures_ite (fun _ => ?_) (fun _ => ?_)
  all_goals first
    | exact ensures_ok (headed_some (.inl (.inr (.inl rfl))))
    | exact ensures_ok (headed_some (.inl (.inl rfl)))
    | exact ensures_bind _ fun _ => ensures_ok (headed_some (.inl (.inr (.inl rfl))))
    | skip
  · -- The size of a fixed byte array is an `int`.
    refine (stoi_lt _).bind fun n hn => ?_
    refine ensures_ite (fun _ => ensures_error _) fun _ => ensures_ok (headed_some ?_)
    by_cases hzero : n.toNat = 0
    · right
      rw [hzero]
      rfl
    · left
      exact .inr (.inr ⟨n.toNat, _, rfl, by omega, by omega⟩)
  · refine ensures_ok ?_
    intro q hq
    cases hq

/-- What the factory makes has a head that takes a word, or is a `bytes0`. -/
theorem hasHead_of_make {type : Str} {q : Param} (h : make type = .ok (some q)) :
    q.HasHead ∨ q = .byteArrayFix 0 [] := by
  by_cases harr : isArrayType type = true
  · rw [make, dif_pos harr] at h
    cases hmade : make (getArrayElemType type) with
    | error e =>
      rw [hmade] at h
      cases h
    | ok made =>
      rw [hmade] at h
      cases made with
      | none => cases h
      | some elem =>
        obtain rfl := Option.some.inj (Except.ok.inj h)
        exact .inl (.inl rfl)
  · rw [make, dif_neg harr] at h
    exact headed_makeElementary type _ h q rfl

/-! ### Growing -/

/-- The length word announces more elements than the array has, and the factory makes them. -/
structure Grows (buf : Bytes) (ps : List Param) (offset : Nat) (len : UInt256) (start : Nat)
    (q : Param) : Prop where
  word_eq : decodeWord buf offset = some (len, start)
  len_lt : len.val < 2 ^ 64
  lt_len : ps.length < len.val
  make_eq : make (getFirstType ps) = .ok (some q)

/-- The array with the elements that are made. -/
def grown (ps : List Param) (len : UInt256) (q : Param) : List Param :=
  ps ++ List.replicate (len.val - ps.length) q

/-- The array grows, and the data of an element are missing; or what is made has no data,
    and more is announced than the buffer has words. -/
def Overgrows (buf : Bytes) (ps : List Param) (offset : Nat) : Prop :=
  ∃ len start q, Grows buf ps offset len start q ∧
    ∃ stop, setStop buf (Param.stop buf) (grown ps len q) start = .ok stop ∧
      (stop = none ∨ q = .byteArrayFix 0 [] ∧ buf.size / 32 < len.val)

/-- What `ParamArray::decode` leaves is bounded by the data, and by the elements the array
    had if it fails. -/
def DecodeBounded (buf : Bytes) (ps : List Param) (offset : Nat) : Prop :=
  ∀ ok ps' off, (Param.array ps).decode buf offset = .ok (ok, .array ps', off) →
    ps'.length ≤ max ps.length (buf.size / 32) ∧ (ok = false → ps'.length = ps.length)

section Growth

variable {buf : Bytes} {ps : List Param} {offset start : Nat} {len : UInt256} {q : Param}

theorem length_grown (h : Grows buf ps offset len start q) : (grown ps len q).length = len.val := by
  have hlt := h.lt_len
  rw [grown, List.length_append, List.length_replicate]
  omega

/-- There is one way to grow. -/
theorem Grows.unique (h : Grows buf ps offset len start q) {len' : UInt256} {start' : Nat}
    {q' : Param} (h' : Grows buf ps offset len' start' q') :
    len' = len ∧ start' = start ∧ q' = q := by
  obtain ⟨rfl, rfl⟩ := Prod.mk.inj (Option.some.inj (h'.word_eq.symm.trans h.word_eq))
  exact ⟨rfl, rfl, Option.some.inj (Except.ok.inj (h'.make_eq.symm.trans h.make_eq))⟩

/-- A word read from behind the data is zero. -/
theorem lt_of_decodeWord {w : UInt256} {next : Nat} (h : decodeWord buf offset = some (w, next))
    (hw : 0 < w.val) : offset < buf.size := by
  by_contra hle
  have hdrop : buf.toList.drop offset = [] := List.drop_eq_nil_of_le (Nat.not_lt.mp hle)
  rw [decodeWord] at h
  split at h
  · cases h
  · obtain ⟨rfl, -⟩ := Prod.mk.inj (Option.some.inj h)
    rw [loadWithOffset, hdrop] at hw
    split at hw
    · exact absurd hw (by decide)
    · exact absurd hw (by decide)

/-- An array that grows has read a length word of the data. -/
theorem Grows.start_eq (h : Grows buf ps offset len start q) :
    start = offset + 32 ∧ start < buf.size + 32 := by
  have hlt : offset < buf.size :=
    lt_of_decodeWord h.word_eq (Nat.lt_of_le_of_lt (Nat.zero_le _) h.lt_len)
  exact decodeWord_stops h.word_eq (by omega)

theorem Grows.ne_nil (h : Grows buf ps offset len start q) : ps ≠ [] := by
  rintro rfl
  have hnone : make "empty".toList = .ok none := make_of_not_array _ (by decide)
  cases hnone.symm.trans h.make_eq

/-- An array that does not grow keeps its number of elements. -/
theorem length_decodeElems (h : ∀ len start q, ¬ Grows buf ps offset len start q) :
    (decodeElems buf (Param.decode buf) true ps offset).Ensures fun res =>
      res.2.1.length = ps.length := by
  rw [decodeElems, if_pos rfl]
  cases hword : decodeWord buf offset with
  | none => exact ensures_ok rfl
  | some w =>
    obtain ⟨len, start⟩ := w
    refine ensures_ite (fun _ => ensures_ok rfl) fun hsize => ?_
    refine ensures_ite (fun _ => ensures_ok rfl) fun _ => ?_
    have hlen : len.val < 2 ^ 64 := Nat.not_le.mp fun hle => hsize (ne_sizeT_iff.mpr hle)
    rw [sizeT_of_lt hlen]
    have hsame : (growTo ps len.val).Ensures fun ps' => ps' = ps := by
      unfold growTo
      refine ensures_ite (fun hlt => ?_) fun _ => ensures_ok rfl
      cases hmake : make (getFirstType ps) with
      | error e => exact ensures_error e
      | ok made =>
        cases made with
        | none => exact ensures_ok rfl
        | some q => exact absurd ⟨hword, hlen, hlt, hmake⟩ (h len start q)
    refine hsame.bind ?_
    rintro _ rfl res hres
    have hdec := fun (p : Param) (pos : Nat) => isDynamic_decodeTo buf p.depth p pos
    exact (firstIsDynamic_decodeValues buf hdec _ _ _ res hres).1

/-- An array that grows decodes the elements it had and those that were made. -/
theorem Grows.decode_eq (h : Grows buf ps offset len start q) :
    (Param.array ps).decode buf offset =
      ParamSet.decode buf (grown ps len q) start >>= fun res =>
        .ok (res.1, .array res.2.1, alignFrom offset res.2.2) := by
  have hlt := h.lt_len
  have hcount : ¬ (ps.length = 0 ∨ ps.length > len.val) := by
    have hpos := List.length_pos_iff.mpr h.ne_nil
    omega
  have hgrow : growTo ps len.val = .ok (grown ps len q) := by
    rw [growTo, if_pos hlt, h.make_eq]
    rfl
  have helems : decodeElems buf (Param.decode buf) true ps offset =
      decodeValues buf (Param.decode buf) (grown ps len q) offset start := by
    rw [decodeElems, if_pos rfl, h.word_eq]
    simp only [sizeT_of_lt h.len_lt, ne_eq, not_true_eq_false, if_false, if_neg hcount, hgrow]
    rfl
  rw [Param.decode_array, helems, decodeValues, ParamSet.decode_eq]
  cases decodeSet buf (Param.decode buf) (grown ps len q) start with
  | error e => simp only [bind, Except.bind]
  | ok res => simp only [bind, Except.bind]

theorem length_decode (ps : List Param) (offset : Nat) :
    (ParamSet.decode buf ps offset).Ensures fun res => res.2.1.length = ps.length := by
  have hdec := fun (p : Param) (pos : Nat) => isDynamic_decodeTo buf p.depth p pos
  rw [ParamSet.decode_eq]
  intro res hres
  have hmap := isDynamic_decodeSet buf hdec ps offset res hres
  simpa using congrArg List.length hmap

/-- Words of the data for all elements, if what is made has a head. -/
theorem Grows.len_le (h : Grows buf ps offset len start q)
    (helems : ∀ p ∈ ps, p.isDynamic = true ∨ p.word = true) (hq : q.HasHead) {next : Nat}
    (hstop : setStop buf (Param.stop buf) (grown ps len q) start = .ok (some next)) :
    len.val ≤ buf.size / 32 := by
  obtain ⟨hstart, hlt⟩ := h.start_eq
  -- The old elements are dynamic or words, and the others have a head like `q`.
  have hheads : ∀ p ∈ grown ps len q, p.HasHead := by
    intro p hp
    rcases List.mem_append.mp hp with hp | hp
    · exact (helems p hp).imp_right .inl
    · rw [List.eq_of_mem_replicate hp]
      exact hq
  have hadvances := setStop_advances hheads hlt hstop
  rw [length_grown h] at hadvances
  omega

/-- What is said of an array that grows. -/
theorem Grows.bounded_iff (h : Grows buf ps offset len start q) :
    DecodeBounded buf ps offset ↔ ∀ ok ps' off,
      ParamSet.decode buf (grown ps len q) start = .ok (ok, ps', off) →
        ok = true ∧ len.val ≤ buf.size / 32 := by
  have hlt := h.lt_len
  rw [DecodeBounded, h.decode_eq]
  cases hset : ParamSet.decode buf (grown ps len q) start with
  | error e => simp [bind, Except.bind]
  | ok res =>
    have hlength := length_decode (grown ps len q) start res hset
    obtain ⟨ok, ps', off⟩ := res
    dsimp only at hlength
    rw [length_grown h] at hlength
    -- As many elements are left as were announced, whether they were read or not.
    simp only [bind, Except.bind, Except.ok.injEq, Prod.mk.injEq, Param.array.injEq]
    constructor
    · intro hbound ok₁ _ _ hres
      obtain ⟨hle, hkept⟩ := hbound ok ps' _ ⟨rfl, rfl, rfl⟩
      cases ok with
      | false =>
        have := hkept rfl
        omega
      | true => exact ⟨hres.1.symm, by omega⟩
    · intro hbound ok₁ ps₁ _ hres
      obtain ⟨rfl, hle⟩ := hbound ok ps' off ⟨rfl, rfl, rfl⟩
      rw [← hres.2.1, hlength]
      exact ⟨by omega, fun hok => absurd (hres.1.trans hok) (by decide)⟩

theorem Grows.overgrows_iff (h : Grows buf ps offset len start q) :
    Overgrows buf ps offset ↔
      ∃ stop, setStop buf (Param.stop buf) (grown ps len q) start = .ok stop ∧
        (stop = none ∨ q = .byteArrayFix 0 [] ∧ buf.size / 32 < len.val) := by
  constructor
  · intro hover
    obtain ⟨len', start', q', h', hrest⟩ := hover
    obtain ⟨rfl, rfl, rfl⟩ := h.unique h'
    exact hrest
  · intro hrest
    exact ⟨len, start, q, h, hrest⟩

end Growth

/-! ### Numbers -/

/-- The number zero, an element to decode into. -/
def zeroNumber : Param := .number .uint256 (NumberType.ofUInt256 _ (uint256 0))

theorem make_zeroNumber : make (getFirstType [zeroNumber]) = .ok (some zeroNumber) :=
  make_of_not_array "uint256".toList (by decide)

/-- The length word of an array of three elements, and nothing else. -/
def threeAnnounced : Bytes := ⟨SolidityAbi.word 3, by decide⟩

/-- An array of the numbers seven and eight. -/
def sevenEight : Bytes :=
  ⟨SolidityAbi.word 2 ++ SolidityAbi.word 7 ++ SolidityAbi.word 8, by decide⟩

theorem grows_threeAnnounced :
    Grows threeAnnounced [zeroNumber] 0 (uint256OfInt 3) 32 zeroNumber where
  word_eq := At.decodeWord ⟨by decide, by decide⟩
  len_lt := by decide
  lt_len := by decide
  make_eq := make_zeroNumber

theorem grows_sevenEight :
    Grows sevenEight [zeroNumber] 0 (uint256OfInt 2) 32 zeroNumber where
  word_eq := At.decodeWord ⟨by decide, by decide⟩
  len_lt := by decide
  lt_len := by decide
  make_eq := make_zeroNumber

/-! ### The bound -/

/-- After decoding an array of dynamic and one-word elements there are no more elements
    than it had or words fit in the data, and as many as it had if decoding fails, exactly
    if it did not grow over data that are missing. -/
theorem decode_bounded_iff (buf : Bytes) (ps : List Param) (offset : Nat)
    (helems : ∀ p ∈ ps, p.isDynamic = true ∨ p.word = true) :
    DecodeBounded buf ps offset ↔ ¬ Overgrows buf ps offset := by
  by_cases hgrows : ∃ len start q, Grows buf ps offset len start q
  · obtain ⟨len, start, q, h⟩ := hgrows
    have hstop := ParamSet.decode_stop buf (grown ps len q) start
    rw [h.bounded_iff, h.overgrows_iff, ← hstop]
    cases hset : ParamSet.decode buf (grown ps len q) start with
    | error e =>
      -- An exception leaves no result.
      simp [Except.map]
    | ok res =>
      obtain ⟨ok, ps', off⟩ := res
      rw [hset] at hstop
      cases ok with
      | false => simp [Except.map, stopOf]
      | true =>
        simp only [Except.map, stopOf, if_true, Except.ok.injEq, Prod.mk.injEq]
        constructor
        · intro hbound hexceeds
          obtain ⟨stop, hsome, hover⟩ := hexceeds
          obtain ⟨_, hle⟩ := hbound true ps' off ⟨rfl, rfl, rfl⟩
          rcases hover with hnone | ⟨_, hlt⟩
          · cases hsome.trans hnone
          · omega
        · intro hnot ok _ _ hres
          refine ⟨hres.1.symm, ?_⟩
          rcases hasHead_of_make h.make_eq with hq | hzero
          · exact h.len_le helems hq hstop.symm
          · by_contra hgt
            exact hnot ⟨some off, rfl, .inr ⟨hzero, Nat.lt_of_not_le hgt⟩⟩
  · have hkept := length_decodeElems fun len start q h => hgrows ⟨len, start, q, h⟩
    have hnot : ¬ Overgrows buf ps offset := by
      intro hover
      obtain ⟨len, start, q, h, _⟩ := hover
      exact hgrows ⟨len, start, q, h⟩
    refine iff_of_true ?_ hnot
    intro ok ps' off hdecode
    have hlength : ps'.length = ps.length := hkept _ (Param.decode_array_eq_ok.mp hdecode)
    exact ⟨Nat.le_trans (Nat.le_of_eq hlength) (Nat.le_max_left _ _), fun _ => hlength⟩

/-- An array of one number grows to the two that are in the data. -/
theorem decode_bounded_sevenEight : DecodeBounded sevenEight [zeroNumber] 0 := by
  rw [decode_bounded_iff sevenEight [zeroNumber] 0 (by simp [zeroNumber, Param.word]),
    grows_sevenEight.overgrows_iff]
  have hseven : decodeWord sevenEight 32 = some (uint256OfInt 7, 64) :=
    At.decodeWord ⟨by decide, by decide⟩
  have height : decodeWord sevenEight 64 = some (uint256OfInt 8, 96) :=
    At.decodeWord ⟨by decide, by decide⟩
  have hstop : setStop sevenEight (Param.stop sevenEight) [zeroNumber, zeroNumber] 32 =
      .ok (some 96) := by
    have hheads : walk (headStop sevenEight (Param.stop sevenEight)) [zeroNumber, zeroNumber] 32 =
        .ok (some 96) := by
      simp [walk, headStop, zeroNumber, Param.isDynamic, Param.stop, Param.depth, Param.stopTo,
        wordStop, hseven, height, onward]
    rw [setStop, hheads]
    rfl
  intro hexceeds
  obtain ⟨stop, hstop', hover⟩ := hexceeds
  obtain rfl := Except.ok.inj (hstop.symm.trans hstop')
  rcases hover with hnone | ⟨hbytes, _⟩
  · cases hnone
  · cases hbytes

/-- The array is left with three elements where it had one and the data are one word. -/
theorem decode_threeAnnounced :
    (Param.array [zeroNumber]).decode threeAnnounced 0 =
      .ok (false, .array [zeroNumber, zeroNumber, zeroNumber], 32) ∧
    ¬ DecodeBounded threeAnnounced [zeroNumber] 0 := by
  have hword : decodeWord threeAnnounced 32 = none := by decide
  have hzero : zeroNumber.decode threeAnnounced 32 = .ok (false, zeroNumber, 32) := by
    simp [Param.decode, zeroNumber, Param.depth, Param.decodeTo, hword]
  have hset : ParamSet.decode threeAnnounced (grown [zeroNumber] (uint256OfInt 3) zeroNumber) 32 =
      .ok (false, [zeroNumber, zeroNumber, zeroNumber], 32) := by
    have hgrown : grown [zeroNumber] (uint256OfInt 3) zeroNumber =
        [zeroNumber, zeroNumber, zeroNumber] := rfl
    have hstatic : zeroNumber.isDynamic = false := rfl
    simp [hgrown, ParamSet.decode_eq, decodeSet, decodeHeads, hstatic, hzero, bind, Except.bind]
  have hdecode : (Param.array [zeroNumber]).decode threeAnnounced 0 =
      .ok (false, .array [zeroNumber, zeroNumber, zeroNumber], 32) := by
    have halign : alignFrom 0 32 = 32 := by decide
    simp only [grows_threeAnnounced.decode_eq, hset, bind, Except.bind, halign]
  refine ⟨hdecode, fun hbound => ?_⟩
  exact absurd ((hbound false _ 32 hdecode).2 rfl) (by decide)

end ConfluxSdk.Abi
