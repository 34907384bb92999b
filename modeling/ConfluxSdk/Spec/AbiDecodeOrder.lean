import ConfluxSdk.ForStd.Threaded
import ConfluxSdk.Spec.AbiDecodeFuel
import ConfluxSdk.Spec.AbiDecodePasses

/-!
# Tails are read in order

`ParamSet::decode` reads an offset word for every dynamic member and does not use it:
the tails are taken one behind the other, the first one right behind the heads. A value
is therefore the one its offset points to when the tails stand in that order, and
another one, or none, when they do not.

## Key results

- `decodeHeads_iff`, `decodeTails_iff`: the two passes as runs over the members
- `decode_tails_in_order`: where a decoded dynamic value was read
-/

namespace ConfluxSdk.Abi

/-! ### The passes as runs -/

section Steps

variable (buf : Bytes) (dec : Param → Nat → Except StdError (Bool × Param × Nat))

/-- The first pass reads a static member, and the offset word of a dynamic one. -/
def HeadStep (p : Param) (offset : Nat) (p' : Param) (next : Nat) : Prop :=
  if p.isDynamic then p' = p ∧ ∃ word, decodeWord buf offset = some (word, next)
  else dec p offset = .ok (true, p', next)

/-- The second pass reads a dynamic member. -/
def TailStep (p : Param) (offset : Nat) (p' : Param) (next : Nat) : Prop :=
  if p.isDynamic then dec p offset = .ok (true, p', next) else p' = p ∧ next = offset

variable {buf dec}

/-- A pass succeeds when its first step and the rest do. -/
private theorem bind_cons_iff {x : Except StdError (Bool × List Param × Nat)} {p : Param}
    {out : List Param} {off : Nat} :
    (x >>= fun res => .ok (res.1, p :: res.2.1, res.2.2)) = .ok (true, out, off) ↔
      ∃ ps', out = p :: ps' ∧ x = .ok (true, ps', off) := by
  cases x with
  | error e => simp [bind, Except.bind]
  | ok res =>
    obtain ⟨ok, ps', off'⟩ := res
    simp only [bind, Except.bind, Except.ok.injEq, Prod.mk.injEq]
    constructor
    · rintro ⟨rfl, rfl, rfl⟩
      exact ⟨ps', rfl, rfl, rfl, rfl⟩
    · rintro ⟨ps'', rfl, rfl, rfl, rfl⟩
      exact ⟨rfl, rfl, rfl⟩

/-- The same where the first step decodes a member. -/
private theorem decode_cons_iff {x : Except StdError (Bool × Param × Nat)}
    {rest : Nat → Except StdError (Bool × List Param × Nat)} {ps out : List Param} {off : Nat} :
    (x >>= fun res => if res.1 then
        rest res.2.2 >>= fun res' => .ok (res'.1, res.2.1 :: res'.2.1, res'.2.2)
      else .ok (false, res.2.1 :: ps, res.2.2)) = .ok (true, out, off) ↔
      ∃ p' ps' next, out = p' :: ps' ∧ x = .ok (true, p', next) ∧ rest next = .ok (true, ps', off) := by
  cases x with
  | error e => simp [bind, Except.bind]
  | ok res =>
    obtain ⟨ok, p₁, next₁⟩ := res
    cases ok with
    | false => simp [bind, Except.bind]
    | true =>
      show (rest next₁ >>= fun res' => .ok (res'.1, p₁ :: res'.2.1, res'.2.2)) = _ ↔ _
      rw [bind_cons_iff]
      constructor
      · rintro ⟨ps', rfl, hps⟩
        exact ⟨p₁, ps', next₁, rfl, rfl, hps⟩
      · rintro ⟨p', ps', next, rfl, hp, hps⟩
        obtain ⟨_, rfl, rfl⟩ := Prod.mk.inj (Except.ok.inj hp) |>.imp_right Prod.mk.inj
        exact ⟨ps', rfl, hps⟩

theorem decodeHeads_iff {ps out : List Param} {offset off : Nat} :
    decodeHeads buf dec ps offset = .ok (true, out, off) ↔
      Threaded (HeadStep buf dec) ps offset out off := by
  induction ps generalizing offset out with
  | nil => simp [decodeHeads, Threaded.nil_iff, eq_comm]
  | cons p ps ih =>
    rw [Threaded.cons_iff, decodeHeads]
    cases hd : p.isDynamic with
    | true =>
      simp only [HeadStep, hd, if_true]
      cases decodeWord buf offset with
      | none => simp
      | some res =>
        rw [bind_cons_iff]
        constructor
        · rintro ⟨ps', rfl, hps⟩
          exact ⟨p, ps', res.2, rfl, ⟨rfl, res.1, rfl⟩, ih.mp hps⟩
        · rintro ⟨p', ps', next, rfl, ⟨rfl, word, hword⟩, hps⟩
          obtain rfl := Option.some.inj hword
          exact ⟨ps', rfl, ih.mpr hps⟩
    | false =>
      simp only [HeadStep, hd, Bool.false_eq_true, if_false, ← ih]
      exact decode_cons_iff

theorem decodeTails_iff {ps out : List Param} {offset off : Nat} :
    decodeTails dec ps offset = .ok (true, out, off) ↔
      Threaded (TailStep dec) ps offset out off := by
  induction ps generalizing offset out with
  | nil => simp [decodeTails, Threaded.nil_iff, eq_comm]
  | cons p ps ih =>
    rw [Threaded.cons_iff, decodeTails]
    cases hd : p.isDynamic with
    | true =>
      simp only [TailStep, hd, if_true, ← ih]
      exact decode_cons_iff
    | false =>
      simp only [TailStep, hd, Bool.false_eq_true, if_false]
      show (decodeTails dec ps offset >>= fun res => .ok (res.1, p :: res.2.1, res.2.2)) = _ ↔ _
      rw [bind_cons_iff]
      constructor
      · rintro ⟨ps', rfl, hps⟩
        exact ⟨p, ps', offset, rfl, ⟨rfl, rfl⟩, ih.mp hps⟩
      · rintro ⟨p', ps', next, rfl, ⟨rfl, rfl⟩, hps⟩
        exact ⟨ps', rfl, ih.mpr hps⟩

theorem decodeSet_iff {ps out : List Param} {offset off : Nat} :
    decodeSet buf dec ps offset = .ok (true, out, off) ↔
      ∃ mid tails, Threaded (HeadStep buf dec) ps offset mid tails ∧
        Threaded (TailStep dec) mid tails out off := by
  simp only [← decodeHeads_iff, ← decodeTails_iff, decodeSet]
  cases decodeHeads buf dec ps offset with
  | error e => simp [bind, Except.bind]
  | ok res =>
    obtain ⟨ok, mid, tails⟩ := res
    cases ok with
    | false => simp [bind, Except.bind]
    | true =>
      simp only [bind, Except.bind, if_true]
      constructor
      · intro h
        exact ⟨mid, tails, rfl, h⟩
      · rintro ⟨mid', tails', hmid, h⟩
        obtain ⟨_, rfl, rfl⟩ := Prod.mk.inj (Except.ok.inj hmid) |>.imp_right Prod.mk.inj
        exact h

end Steps

/-! ### Where a dynamic value is read -/

/-- The equation of `ParamSet::decode`: the members' own `decode` is called. -/
theorem ParamSet.decode_eq (buf : Bytes) (ps : List Param) (offset : Nat) :
    ParamSet.decode buf ps offset = decodeSet buf (Param.decode buf) ps offset :=
  decodeSet_congr buf (fun q off hq => depth_decodeTo buf (maxDepth ps) _ q off hq)
    (fun q hq => funext (q.decodeTo_eq_decode buf (maxDepth ps) hq))
    (maxDepth_le_iff.mp (Nat.le_refl (maxDepth ps))) offset

/-- The dynamic member `p` behind `before`, in a set with heads from `offset` on and tails
    from `tails` on, is decoded behind the tails of `before`; that is where its offset
    word points to, if the word is this distance. -/
def ReadInOrder (buf : Bytes) (offset tails : Nat) (before : List Param) (p p' : Param) : Prop :=
  ∃ done out head word tail next,
    Threaded (HeadStep buf (Param.decode buf)) before offset done head ∧
    (∃ behind, decodeWord buf head = some (word, behind)) ∧
    Threaded (TailStep (Param.decode buf)) done tails out tail ∧
    p.decode buf tail = .ok (true, p', next) ∧
    (sizeT (offset + word.val) = tail →
      p.decode buf (sizeT (offset + word.val)) = .ok (true, p', next))

theorem readInOrder_of_decode {buf : Bytes} {ps ps' : List Param} {offset off : Nat}
    (h : ParamSet.decode buf ps offset = .ok (true, ps', off)) :
    ∃ mid tails, Threaded (HeadStep buf (Param.decode buf)) ps offset mid tails ∧
      ∀ before p after, ps = before ++ p :: after → p.isDynamic = true →
        ∃ p', ps'[before.length]? = some p' ∧ ReadInOrder buf offset tails before p p' := by
  rw [ParamSet.decode_eq, decodeSet_iff] at h
  obtain ⟨mid, tails, hheads, htails⟩ := h
  refine ⟨mid, tails, hheads, ?_⟩
  rintro before p after rfl hd
  obtain ⟨done, mid', head, rfl, hbefore, hrest⟩ := Threaded.append_iff.mp hheads
  obtain ⟨q, after', behind, rfl, hstep, _⟩ := Threaded.cons_iff.mp hrest
  rw [HeadStep, if_pos hd] at hstep
  obtain ⟨rfl, word, hword⟩ := hstep
  -- The second pass has read the tails of the members before.
  obtain ⟨out, out', tail, rfl, hdone, hrest'⟩ := Threaded.append_iff.mp htails
  obtain ⟨p', out'', next, rfl, hp, _⟩ := Threaded.cons_iff.mp hrest'
  rw [TailStep, if_pos hd] at hp
  refine ⟨p', ?_, done, out, head, word, tail, next, hbefore, ⟨behind, hword⟩, hdone, hp, ?_⟩
  · have hlen : out.length = before.length := hdone.length_eq.trans hbefore.length_eq
    rw [← hlen, List.getElem?_append_right (Nat.le_refl _), Nat.sub_self]
    rfl
  · rintro rfl
    exact hp

theorem decodeWord_snd {buf : Bytes} {offset next : Nat} {word : UInt256}
    (h : decodeWord buf offset = some (word, next)) : next = sizeT (offset + 32) := by
  rw [decodeWord] at h
  split at h
  · cases h
  · exact (Prod.mk.inj (Option.some.inj h)).2.symm

/-- The elements of an array are decoded as a set, behind the length word. -/
theorem decodeElems_ensures (buf : Bytes) (rs : List Param) (offset : Nat) :
    (decodeElems buf (Param.decode buf) true rs offset).Ensures fun res => res.1 = true →
      ∃ grown off', ParamSet.decode buf grown (sizeT (offset + 32)) = .ok (true, res.2.1, off') := by
  rw [decodeElems, if_pos rfl]
  cases hword : decodeWord buf offset with
  | none => exact Except.ensures_failed _
  | some res =>
    rw [← decodeWord_snd hword]
    refine Except.ensures_ite (fun _ => Except.ensures_failed _) fun _ => ?_
    refine Except.ensures_ite (fun _ => Except.ensures_failed _) fun _ => ?_
    refine Except.ensures_bind _ fun grown => ?_
    -- Rounding the offset changes neither the result nor the elements.
    rw [decodeValues, ← ParamSet.decode_eq]
    intro out hout htrue
    cases hset : ParamSet.decode buf grown res.2 with
    | error e =>
      rw [hset] at hout
      cases hout
    | ok res' =>
      rw [hset] at hout
      obtain rfl := Except.ok.inj hout
      obtain ⟨ok, rs', off'⟩ := res'
      obtain rfl : ok = true := htrue
      exact ⟨grown, off', hset⟩

/-! ### Tails in another order -/

private theorem decode_string {buf : Bytes} {offset : Nat} {b : Data}
    (h : At buf offset (SolidityAbi.word b.length ++ SolidityAbi.padRight b)) :
    (Param.string []).decode buf offset = .ok (true, .string b,
      offset + (SolidityAbi.word b.length ++ SolidityAbi.padRight b).length) := by
  rw [Param.decode, Param.decodeTo, h.decodeBytes]
  rfl

/-- The strings `A` and `B` with their tails exchanged: the first offset leads to the
    second tail. -/
def swappedTails : Bytes :=
  ⟨SolidityAbi.word 128 ++ SolidityAbi.word 64 ++
    (SolidityAbi.word 1 ++ SolidityAbi.padRight [66]) ++
    (SolidityAbi.word 1 ++ SolidityAbi.padRight [65]), by decide +kernel⟩

set_option maxRecDepth 2048 in
theorem swappedTails_offset : decodeWord swappedTails 0 = some (uint256OfInt 128, 32) :=
  At.decodeWord ⟨by decide, by decide⟩

set_option maxRecDepth 2048 in
theorem swappedTails_at_offset :
    (Param.string []).decode swappedTails 128 = .ok (true, .string [65], 192) :=
  decode_string ⟨by decide, by decide⟩

set_option maxRecDepth 2048 in
theorem swappedTails_decoded :
    ParamSet.decode swappedTails [.string [], .string []] 0 =
      .ok (true, [.string [66], .string [65]], 192) := by
  have hsecond : decodeWord swappedTails 32 = some (uint256OfInt 64, 64) :=
    At.decodeWord ⟨by decide, by decide⟩
  have hB : (Param.string []).decode swappedTails 64 = .ok (true, .string [66], 128) :=
    decode_string ⟨by decide, by decide⟩
  have hheads : Threaded (HeadStep swappedTails (Param.decode swappedTails))
      [.string [], .string []] 0 [.string [], .string []] 64 :=
    .cons (t := 32) ⟨rfl, _, swappedTails_offset⟩ (.cons (t := 64) ⟨rfl, _, hsecond⟩ (.nil 64))
  have htails : Threaded (TailStep (Param.decode swappedTails))
      [.string [], .string []] 64 [.string [66], .string [65]] 192 :=
    .cons (t := 128) hB (.cons (t := 192) swappedTails_at_offset (.nil 192))
  rw [ParamSet.decode_eq, decodeSet_iff]
  exact ⟨_, 64, hheads, htails⟩

/-! ### The order of the tails -/

/-- Every dynamic member is decoded where the heads and the tails before it end, hence
    where its offset word points to if the word is that distance; the elements of an array
    are a set behind its length word, and so decoded in the same way. -/
theorem decode_tails_in_order (buf : Bytes) :
    (∀ (ps ps' : List Param) (offset off : Nat),
      ParamSet.decode buf ps offset = .ok (true, ps', off) →
      ∃ mid tails, Threaded (HeadStep buf (Param.decode buf)) ps offset mid tails ∧
        ∀ before p after, ps = before ++ p :: after → p.isDynamic = true →
          ∃ p', ps'[before.length]? = some p' ∧ ReadInOrder buf offset tails before p p') ∧
    (∀ (rs rs' : List Param) (offset off : Nat),
      (Param.array rs).decode buf offset = .ok (true, .array rs', off) →
      ∃ grown off', ParamSet.decode buf grown (sizeT (offset + 32)) = .ok (true, rs', off')) := by
  refine ⟨fun ps ps' offset off h => readInOrder_of_decode h, ?_⟩
  intro rs rs' offset off h
  exact decodeElems_ensures buf rs offset _ (Param.decode_array_eq_ok.mp h) rfl

/-- An array of the number seven. -/
def sevenArray : Bytes := ⟨SolidityAbi.word 1 ++ SolidityAbi.word 7, by decide⟩

/-- In the set of two strings the second one is read behind the first; the element of the
    array behind its length word. -/
theorem decode_tails_in_order_samples :
    (∃ tails p', [Param.string [66], .string [65]][1]? = some p' ∧
      ReadInOrder swappedTails 0 tails [.string []] (.string []) p') ∧
    ∃ grown off', ParamSet.decode sevenArray grown (sizeT (0 + 32)) =
      .ok (true, [.number .uint256 ⟨7, by decide⟩], off') := by
  obtain ⟨_, tails, _, hall⟩ :=
    (decode_tails_in_order swappedTails).1 _ _ 0 192 swappedTails_decoded
  exact ⟨⟨tails, hall [.string []] (.string []) [] rfl rfl⟩,
    (decode_tails_in_order sevenArray).2 [.number .uint256 ⟨0, by decide⟩] _ 0 64 rfl⟩

/-- The set is decoded with success, the first string to `B`; decoding it at its offset
    gives `A`. -/
theorem decode_swappedTails :
    ParamSet.decode swappedTails [.string [], .string []] 0 =
      .ok (true, [.string [66], .string [65]], 192) ∧
    decodeWord swappedTails 0 = some (uint256OfInt 128, 32) ∧
    (Param.string []).decode swappedTails (0 + 128) = .ok (true, .string [65], 192) :=
  ⟨swappedTails_decoded, swappedTails_offset, swappedTails_at_offset⟩

end ConfluxSdk.Abi
