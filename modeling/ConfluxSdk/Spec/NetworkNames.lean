import ConfluxSdk.Spec.AddressTotal

/-!
# Network ids and their names

`NetworkType` makes a name from an id with `sprintf` and reads it back with
`std::stoi`. Both take the id for an `int`. The two conversions undo each other, so
no two ids share a name and every id is read back. But an id of the upper half of
the range is printed with a minus sign, and the address pattern has no sign: an
address on such a network prints a text that no constructor accepts.

## Key results

- `NetworkType.ofID_injective`: different ids have different names
- `NetworkType.isNetName_ofID_iff`: the ids whose names are admitted by the pattern
- `NetworkType.hasInverseName_iff`: name and id are inverse to each other, and the
  name is admitted, below `2 ^ 31` and nowhere else
-/

namespace ConfluxSdk.NetworkType

/-- Reading a name back tells the ids apart. -/
theorem ofID_injective : Function.Injective ofID := by
  intro id id' h
  have hread : (ofID id).toNetworkID = (ofID id').toNetworkID := congrArg toNetworkID h
  rw [toNetworkID_ofID, toNetworkID_ofID] at hread
  exact Except.ok.inj hread

/-- From `2 ^ 31` on the name starts with `net-`. -/
theorem ofID_of_le {id : UInt32} (h : 2 ^ 31 ≤ id.toNat) :
    (ofID id).net_work_type_str = "net".toList ++ '-' :: to_string (2 ^ 32 - id.toNat) := by
  -- The two ids with names of their own are small.
  have hmain : id ≠ mainnetID := by
    intro hid
    rw [hid] at h
    exact absurd h (by decide)
  have htest : id ≠ testnetID := by
    intro hid
    rw [hid] at h
    exact absurd h (by decide)
  have hsign : ¬ id.toNat < 2 ^ 31 := by omega
  rw [ofID, if_neg hmain, if_neg htest, printInt, if_neg hsign]

theorem not_isNetName_minus (rest : Str) : ¬ IsNetName ("net".toList ++ '-' :: rest) := by
  intro h
  rcases h with h | h | ⟨ds, h, _, hds⟩
  · exact absurd (List.cons.inj h).1 (by decide)
  · exact absurd (List.cons.inj h).1 (by decide)
  · -- The minus sign would be the first of the digits.
    have hmem : '-' ∈ ds := by
      rw [← List.append_cancel_left h]
      exact List.mem_cons_self
    exact absurd (hds _ hmem) (by decide)

theorem isNetName_ofID_iff (id : UInt32) :
    IsNetName (ofID id).net_work_type_str ↔ id.toNat < 2 ^ 31 := by
  constructor
  · intro h
    by_contra hlarge
    rw [ofID_of_le (by omega)] at h
    exact not_isNetName_minus _ h
  · exact isNetName_ofID

/-- The name of a network id, as it is used: the address pattern admits it, no other id
    has it, and the id is read back from it. -/
structure HasInverseName (id : UInt32) : Prop where
  isNetName : IsNetName (ofID id).net_work_type_str
  regex_match : Regex.regex_match (ofID id).net_work_type_str Regex.netPattern = true
  unique : ∀ id', ofID id' = ofID id → id' = id
  toNetworkID_eq : toNetworkID ⟨(ofID id).net_work_type_str⟩ = .ok id

theorem hasInverseName_iff (id : UInt32) : HasInverseName id ↔ id.toNat < 2 ^ 31 := by
  constructor
  · intro h
    exact (isNetName_ofID_iff id).mp h.isNetName
  · intro hsmall
    have hname := (isNetName_ofID_iff id).mpr hsmall
    exact ⟨hname, (regex_match_netPattern _).mpr hname, fun id' h => ofID_injective h,
      toNetworkID_ofID id⟩

/-- The first id with a sign. -/
theorem not_hasInverseName_2147483648 :
    (ofID 2147483648).net_work_type_str = "net-2147483648".toList ∧
      ¬ HasInverseName 2147483648 := by
  have hname : (ofID 2147483648).net_work_type_str = "net-2147483648".toList := by decide
  constructor
  · exact hname
  · intro h
    have hmatch := h.isNetName
    rw [hname] at hmatch
    exact not_isNetName_minus "2147483648".toList hmatch

end ConfluxSdk.NetworkType
