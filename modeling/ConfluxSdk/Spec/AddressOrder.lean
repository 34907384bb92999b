import ConfluxSdk.Spec.AddressCanonical

/-!
# Equality and order of addresses

`operator<` compares the verbose texts, `operator==` compares the network, the
type and the checksum (the comparison of the bodies compares one body with
itself). This module says for which pairs of valid addresses the two agree with
each other and with the bytes.

## Key results

- `Address.Consistent.verboseText_inj`: the verbose text determines the address
- `Address.lt_incomparable_iff`: what `operator<` does not tell apart
- `eq_same_address_iff`: when equality means the same address
-/

namespace ConfluxSdk

namespace Address

/-- The verbose text determines the address. -/
theorem Consistent.verboseText_inj {a b : Address} (ha : a.Consistent) (hb : b.Consistent)
    (h : a.verboseText = b.verboseText) : a = b := by
  unfold verboseText at h
  have hlen : a.payload.length = b.payload.length := by
    rw [ha.length_payload, hb.length_payload]
  obtain ⟨hfront, hpayload⟩ := List.append_inj' h hlen
  have hbody := ha.body_eq_of_payload hb hpayload
  -- The bodies give the types, so the fields behind the network names are the same.
  have htype : a.addressType = b.addressType := by
    rw [ha.type_eq, hb.type_eq, ha.hex_eq, hb.hex_eq, hbody]
  rw [htype] at hfront
  have hnet := List.append_cancel_right (List.append_cancel_right hfront)
  rw [ha.eq_iff hb]
  exact ⟨congrArg NetworkType.mk hnet, hbody⟩

theorem lt_eq_some_iff (a b : Address) (x : Bool) :
    a.lt b = some x ↔ a.verboseText.length < 128 ∧ b.verboseText.length < 128 ∧
      decide (a.verboseText < b.verboseText) = x := by
  rw [lt, getVerboseBase32Address_eq, getVerboseBase32Address_eq, printBuffer, printBuffer]
  by_cases ha : a.verboseText.length < 128
  · rw [if_pos (by omega)]
    by_cases hb : b.verboseText.length < 128
    · rw [if_pos (by omega)]
      show some _ = some x ↔ _
      rw [Option.some.injEq]
      exact ⟨fun h => ⟨ha, hb, h⟩, fun h => h.2.2⟩
    · rw [if_neg (by omega)]
      exact ⟨fun h => absurd h (by simp), fun h => absurd h.2.1 hb⟩
  · rw [if_neg (by omega)]
    exact ⟨fun h => absurd h (by simp), fun h => absurd h.1 ha⟩

/-- Texts that do not precede each other are equal. -/
theorem incomparable_iff (s t : Str) :
    decide (s < t) = false ∧ decide (t < s) = false ↔ s = t := by
  rw [decide_eq_false_iff_not, decide_eq_false_iff_not]
  constructor
  · intro h
    rcases lt_trichotomy s t with hlt | heq | hgt
    · exact absurd hlt h.1
    · exact heq
    · exact absurd hgt h.2
  · intro h
    rw [h]
    exact ⟨lt_irrefl t, lt_irrefl t⟩

end Address

/-- For two valid addresses, `==` means the same network and bytes, and agrees with
    `<`, exactly when both verbose texts fit their buffers and, on one network, the
    bodies are the same or neither the bytes nor the type and checksum together
    are. -/
theorem eq_same_address_iff {s s' : Str} {m m' : UInt32} {a b : Address} (ha : Parses s m a)
    (hb : Parses s' m' b) :
    ((a.eq b = true ↔
        a.networkType.net_work_type_str = b.networkType.net_work_type_str ∧ a.hex = b.hex) ∧
      ∃ x y, a.lt b = some x ∧ b.lt a = some y ∧ (a.eq b = true ↔ x = false ∧ y = false)) ↔
    (a.verboseText.length < 128 ∧ b.verboseText.length < 128) ∧
      (a.networkType.net_work_type_str = b.networkType.net_work_type_str → a.body = b.body ∨
        a.hex ≠ b.hex ∧ ¬ (a.addressType = b.addressType ∧ a.checksum = b.checksum)) := by
  have hca := ha.consistent
  have hcb := hb.consistent
  have hnet : a.networkType = b.networkType ↔
      a.networkType.net_work_type_str = b.networkType.net_work_type_str :=
    ⟨congrArg _, congrArg NetworkType.mk⟩
  -- `<` tells exactly the different addresses apart, once the texts fit.
  have horder : (∃ x y, a.lt b = some x ∧ b.lt a = some y ∧
      (a.eq b = true ↔ x = false ∧ y = false)) ↔
      (a.verboseText.length < 128 ∧ b.verboseText.length < 128) ∧ (a.eq b = true ↔ a = b) := by
    have hsame : decide (a.verboseText < b.verboseText) = false ∧
        decide (b.verboseText < a.verboseText) = false ↔ a = b := by
      rw [Address.incomparable_iff]
      exact ⟨hca.verboseText_inj hcb, congrArg _⟩
    constructor
    · rintro ⟨x, y, hx, hy, heq⟩
      obtain ⟨hfa, hfb, rfl⟩ := (a.lt_eq_some_iff b x).mp hx
      obtain ⟨-, -, rfl⟩ := (b.lt_eq_some_iff a y).mp hy
      rw [hsame] at heq
      exact ⟨⟨hfa, hfb⟩, heq⟩
    · rintro ⟨⟨hfa, hfb⟩, heq⟩
      rw [← hsame] at heq
      exact ⟨_, _, (a.lt_eq_some_iff b _).mpr ⟨hfa, hfb, rfl⟩,
        (b.lt_eq_some_iff a _).mpr ⟨hfb, hfa, rfl⟩, heq⟩
  rw [horder, Address.eq_iff, hca.eq_iff hcb, hnet]
  have hhex : a.body = b.body → a.hex = b.hex := fun h => by rw [hca.hex_eq, hcb.hex_eq, h]
  have htype : a.hex = b.hex → a.addressType = b.addressType :=
    fun h => by rw [hca.type_eq, hcb.type_eq, h]
  have hcheck : a.networkType.net_work_type_str = b.networkType.net_work_type_str →
      a.body = b.body → a.checksum = b.checksum :=
    fun h h' => by rw [hca.checksum_eq, hcb.checksum_eq, hnet.mpr h, h']
  constructor
  · rintro ⟨hbytes, hfit, hsame⟩
    refine ⟨hfit, fun hname => ?_⟩
    by_cases hbody : a.body = b.body
    · exact .inl hbody
    · -- Different texts, so `==` must not hold, nor may the bytes be the same.
      have hne : ¬ (a.addressType = b.addressType ∧ a.checksum = b.checksum) :=
        fun h => hbody (hsame.mp ⟨hname, h⟩).2
      exact .inr ⟨fun h => hne (hbytes.mpr ⟨hname, h⟩).2, hne⟩
  · rintro ⟨hfit, hbodies⟩
    by_cases hname : a.networkType.net_work_type_str = b.networkType.net_work_type_str
    · rcases hbodies hname with hbody | ⟨hbytes, hne⟩
      · have hall := And.intro hname (And.intro (htype (hhex hbody)) (hcheck hname hbody))
        exact ⟨iff_of_true hall ⟨hname, hhex hbody⟩, hfit, iff_of_true hall ⟨hname, hbody⟩⟩
      · exact ⟨iff_of_false (fun h => hne h.2) (fun h => hbytes h.2), hfit,
          iff_of_false (fun h => hne h.2) (fun h => hbytes (hhex h.2))⟩
    · exact ⟨iff_of_false (fun h => hname h.1) (fun h => hname h.1), hfit,
        iff_of_false (fun h => hname h.1) (fun h => hname h.1)⟩

/-- A wallet and the contract of the documentation, both from hex. -/
theorem eq_same_address_userText :
    let a := Address.ofBytes (Hex.decodeString "1386b4185a223ef49592233b69291bbe5a80c527".toList) 1029
    let b := Address.ofBytes (Hex.decodeString "85d80245dc02f5a89589e1f19c5c718e405b56cd".toList) 1029
    (a.eq b = true ↔
        a.networkType.net_work_type_str = b.networkType.net_work_type_str ∧ a.hex = b.hex) ∧
      ∃ x y, a.lt b = some x ∧ b.lt a = some y ∧ (a.eq b = true ↔ x = false ∧ y = false) := by
  have ha : Parses "0x1386b4185a223ef49592233b69291bbe5a80c527".toList 1029
      (Address.ofBytes (Hex.decodeString "1386b4185a223ef49592233b69291bbe5a80c527".toList) 1029) :=
    (parses_hex_iff (by decide) (by decide) (forall_mem_of_all (by decide)) 1029 _).mpr
      ⟨rfl, by decide⟩
  have hb : Parses "0x85d80245dc02f5a89589e1f19c5c718e405b56cd".toList 1029
      (Address.ofBytes (Hex.decodeString "85d80245dc02f5a89589e1f19c5c718e405b56cd".toList) 1029) :=
    (parses_hex_iff (by decide) (by decide) (forall_mem_of_all (by decide)) 1029 _).mpr
      ⟨rfl, by decide⟩
  exact (eq_same_address_iff ha hb).mpr ⟨⟨by decide, by decide⟩,
    fun _ => .inr ⟨by decide, by decide⟩⟩

/-- Two users of the main network whose checksums collide: `==` holds, although the
    bytes are different and `<` orders the addresses. -/
theorem eq_colliding_checksums :
    ∃ a b, Parses "0x1000000000000000000000000000000000000000".toList 1029 a ∧
      Parses "0x1000000000000000000000000000013ccf97ecf1".toList 1029 b ∧
      a.eq b = true ∧ a.hex ≠ b.hex ∧ a.lt b = some true := by
  refine ⟨Address.ofBytes (Hex.decodeString "1000000000000000000000000000000000000000".toList) 1029,
    Address.ofBytes (Hex.decodeString "1000000000000000000000000000013ccf97ecf1".toList) 1029,
    (parses_hex_iff (by decide) (by decide) (forall_mem_of_all (by decide)) 1029 _).mpr
      ⟨rfl, by decide⟩,
    (parses_hex_iff (by decide) (by decide) (forall_mem_of_all (by decide)) 1029 _).mpr
      ⟨rfl, by set_option maxRecDepth 4096 in decide⟩, ?_, ?_, ?_⟩
  · set_option maxRecDepth 4096 in decide
  · set_option maxRecDepth 4096 in decide
  · decide

end ConfluxSdk
