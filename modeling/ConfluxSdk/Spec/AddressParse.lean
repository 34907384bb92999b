import ConfluxSdk.Spec.ChecksumCorrect

/-!
# What the Address constructor accepts

The constructor lower-cases its argument, tells the two formats apart with regular
expressions and parses them. A text of the base32 format is a `Base32Text`: its
three parts, with what the pattern guarantees about them. For such a text the
result of the constructor is described field by field (`Accepts`); the other
results about addresses start from this description.

## Key results

- `regex_match_hexPattern`, `regex_match_base32Pattern`: what the patterns match
- `construct_base32`: the constructor on a text of the base32 format
- `format`: a text is of one of the formats, or leaves the members as they were
- `parses_base32_iff`: the valid addresses built from base32 texts
-/

namespace ConfluxSdk

open RegularExpression (mem_ofWord mem_oneOf_pow mem_oneOf_plus)
open Radix (InBase)

/-! ### Lower case -/

@[simp] theorem tolower_string_idem (s : Str) :
    tolower_string (tolower_string s) = tolower_string s := by
  simp [tolower_string]

@[simp] theorem tolower_string_append (s t : Str) :
    tolower_string (s ++ t) = tolower_string s ++ tolower_string t := List.map_append

@[simp] theorem length_tolower_string (s : Str) : (tolower_string s).length = s.length :=
  List.length_map _

/-- A text that is already in lower case. -/
theorem tolower_string_of_forall {s : Str} (h : ∀ c ∈ s, c.toLower = c) : tolower_string s = s := by
  induction s with
  | nil => rfl
  | cons c s ih =>
    rw [List.forall_mem_cons] at h
    rw [tolower_string, List.map_cons, h.1, ← tolower_string, ih h.2]

/-! ### The hex pattern -/

theorem regex_match_hexPattern (s : Str) :
    Regex.regex_match s Regex.hexPattern = true ↔
      ∃ ds, s = "0x".toList ++ ds ∧ ds.length = 40 ∧ ∀ c ∈ ds, c ∈ Regex.hexDigits := by
  rw [Regex.regex_match, RegularExpression.rmatch_iff_matches', Regex.hexPattern,
    RegularExpression.matches'_mul, Language.mem_mul]
  constructor
  · rintro ⟨x, hx, ds, hds, rfl⟩
    obtain ⟨hlen, hall⟩ := mem_oneOf_pow.mp hds
    exact ⟨ds, by rw [mem_ofWord.mp hx], hlen, hall⟩
  · rintro ⟨ds, rfl, hlen, hall⟩
    exact ⟨_, mem_ofWord.mpr rfl, ds, mem_oneOf_pow.mpr ⟨hlen, hall⟩, rfl⟩

/-! ### The base32 pattern -/

/-- The network names the pattern admits. -/
def IsNetName (net : Str) : Prop :=
  net = "cfx".toList ∨ net = "cfxtest".toList ∨
    ∃ ds, net = "net".toList ++ ds ∧ ds ≠ [] ∧ ∀ c ∈ ds, c ∈ Regex.digits

/-- A text of the base32 format, in its parts. -/
structure Base32Text where
  net : Str
  field : Option AddressType
  payload : Str
  net_ok : IsNetName net
  field_ok : field ≠ some .invalid
  length_payload : payload.length = 42
  payload_ok : ∀ c ∈ payload, c ∈ Regex.wordChars

namespace Base32Text

/-- The type field as it stands in the text. -/
def fieldText (t : Base32Text) : Str :=
  match t.field with
  | none => []
  | some type => type.string ++ ":".toList

/-- The whole text. -/
def text (t : Base32Text) : Str := t.net ++ ":".toList ++ t.fieldText ++ t.payload

/-- The characters of the body. -/
def bodyText (t : Base32Text) : Str := t.payload.take 34

/-- The characters of the checksum. -/
def checkText (t : Base32Text) : Str := t.payload.drop 34

theorem length_bodyText (t : Base32Text) : t.bodyText.length = 34 := by
  rw [bodyText, List.length_take, t.length_payload]
  rfl

theorem bodyText_append_checkText (t : Base32Text) : t.bodyText ++ t.checkText = t.payload :=
  List.take_append_drop 34 t.payload

end Base32Text

private theorem mem_netPattern {x : Str} : x ∈ Regex.netPattern.matches' ↔ IsNetName x := by
  rw [Regex.netPattern, RegularExpression.matches'_add, RegularExpression.matches'_add,
    Language.mem_add, Language.mem_add, mem_ofWord, mem_ofWord, or_assoc, IsNetName]
  refine or_congr_right (or_congr_right ?_)
  rw [RegularExpression.matches'_mul, Language.mem_mul]
  constructor
  · rintro ⟨y, hy, ds, hds, rfl⟩
    obtain ⟨hne, hall⟩ := mem_oneOf_plus.mp hds
    exact ⟨ds, by rw [mem_ofWord.mp hy], hne, hall⟩
  · rintro ⟨ds, rfl, hne, hall⟩
    exact ⟨_, mem_ofWord.mpr rfl, ds, mem_oneOf_plus.mpr ⟨hne, hall⟩, rfl⟩

/-- The names are the texts of the pattern's network part. -/
theorem regex_match_netPattern (s : Str) :
    Regex.regex_match s Regex.netPattern = true ↔ IsNetName s := by
  rw [Regex.regex_match, RegularExpression.rmatch_iff_matches', mem_netPattern]

private theorem mem_typePattern {x : Str} : x ∈ Regex.typePattern.matches' ↔
    x = [] ∨ ∃ type : AddressType, type ≠ .invalid ∧ x = type.string ++ ":".toList := by
  simp only [Regex.typePattern, RegularExpression.matches'_add, Language.mem_add, mem_ofWord,
    RegularExpression.matches'_epsilon, Language.mem_one]
  constructor
  · rintro ((((rfl | rfl) | rfl) | rfl) | rfl)
    · exact .inr ⟨.user, by decide, by decide⟩
    · exact .inr ⟨.builtin, by decide, by decide⟩
    · exact .inr ⟨.contract, by decide, by decide⟩
    · exact .inr ⟨.null, by decide, by decide⟩
    · exact .inl rfl
  · rintro (rfl | ⟨type, hne, rfl⟩)
    · exact .inr rfl
    · cases type <;> first | exact absurd rfl hne | decide

theorem regex_match_base32Pattern (s : Str) :
    Regex.regex_match s Regex.base32Pattern = true ↔ ∃ t : Base32Text, s = t.text := by
  simp only [Regex.regex_match, RegularExpression.rmatch_iff_matches', Regex.base32Pattern,
    RegularExpression.matches'_mul, Language.mem_mul, mem_netPattern, mem_ofWord, mem_typePattern,
    mem_oneOf_pow]
  constructor
  · rintro ⟨_, ⟨_, ⟨net, hnet, _, rfl, rfl⟩, field, hfield, rfl⟩, payload, ⟨hlen, hall⟩, rfl⟩
    rcases hfield with rfl | ⟨type, hne, rfl⟩
    · exact ⟨⟨net, none, payload, hnet, by simp, hlen, hall⟩, rfl⟩
    · exact ⟨⟨net, some type, payload, hnet, by simpa using hne, hlen, hall⟩, rfl⟩
  · rintro ⟨t, rfl⟩
    refine ⟨t.net ++ ":".toList ++ t.fieldText, ⟨_, ⟨t.net, t.net_ok, _, rfl, rfl⟩, t.fieldText,
      ?_, rfl⟩, t.payload, ⟨t.length_payload, t.payload_ok⟩, rfl⟩
    cases hfield : t.field with
    | none => exact .inl (by rw [Base32Text.fieldText, hfield])
    | some type =>
      refine .inr ⟨type, ?_, by rw [Base32Text.fieldText, hfield]⟩
      rintro rfl
      exact t.field_ok hfield

/-! ### Splitting a base32 text -/

theorem colon_not_mem_net {net : Str} (h : IsNetName net) : ':' ∉ net := by
  rcases h with rfl | rfl | ⟨ds, rfl, _, hall⟩
  · decide
  · decide
  · intro hmem
    rcases List.mem_append.mp hmem with h | h
    · exact absurd h (by decide)
    · exact absurd (hall _ h) (by decide)

theorem AddressType.string_inj {a b : AddressType} (h : a.string = b.string) : a = b := by
  revert h
  cases a <;> cases b <;> decide

theorem tolower_type_string (type : AddressType) : tolower_string type.string = type.string := by
  cases type <;> decide

private theorem colon_not_mem_string (type : AddressType) : ':' ∉ type.string := by
  cases type <;> decide

namespace Base32Text

variable (t : Base32Text)

private theorem colon_not_mem_payload : ':' ∉ t.payload := by
  intro h
  exact absurd (t.payload_ok _ h) (by decide)

theorem split_text :
    split_string t.text ':' = t.net :: ((t.field.map AddressType.string).toList ++ [t.payload]) := by
  have hnet := List.splitOn_eq_singleton (colon_not_mem_net t.net_ok)
  have hpay := List.splitOn_eq_singleton t.colon_not_mem_payload
  rw [split_string, text, fieldText]
  cases t.field with
  | none =>
    show (t.net ++ [':'] ++ [] ++ t.payload).splitOn ':' = _
    rw [List.append_nil, List.append_assoc]
    show (t.net ++ ':' :: t.payload).splitOn ':' = _
    rw [List.splitOn_append_cons_self, hnet, hpay]
    rfl
  | some type =>
    have htype := List.splitOn_eq_singleton (colon_not_mem_string type)
    show (t.net ++ [':'] ++ (type.string ++ [':']) ++ t.payload).splitOn ':' = _
    simp only [List.append_assoc, List.cons_append, List.nil_append]
    rw [List.splitOn_append_cons_self, hnet, List.splitOn_append_cons_self, htype, hpay]
    rfl

/-- The symbols the body is read as. -/
def body : Body := .ofString t.bodyText

/-- The twenty bytes of the body, without the version byte. -/
def hex : ByteArr := t.body.toHexAddress.2

/-- The type of the address. -/
def type : AddressType := calcAddressType t.hex

/-- The checksum the text should have. -/
def checksum : ByteArr := calcChecksum ⟨t.net⟩ t.body

/-- The type field is absent or names the type. -/
def fieldMatches : Prop := t.field = none ∨ t.field = some t.type

instance : Decidable t.fieldMatches := inferInstanceAs (Decidable (_ ∨ _))

/-- The address the text stands for, once it is accepted. -/
def address (id : UInt32) : Address := ⟨⟨t.net⟩, t.type, t.body, t.checksum, t.hex, id⟩

/-- `NewFromBase32` on a text of the format: it fails at the type field or at the
    checksum, or the network id is read. -/
theorem newFromBase32_text (hlow : tolower_string t.text = t.text) (a : Address) :
    Address.newFromBase32 t.text a =
      if ¬ t.fieldMatches then
        .ok (0, { a with networkType := ⟨t.net⟩, body := t.body, addressType := t.type })
      else if Body.bits5sToString t.checksum ≠ t.checkText then
        .ok (0, { a with
          networkType := ⟨t.net⟩, body := t.body, addressType := t.type, checksum := t.checksum })
      else NetworkType.toNetworkID ⟨t.net⟩ >>= fun id => .ok (1, t.address id) := by
  have htake : t.payload.take (t.payload.length - 8) = t.bodyText := by rw [t.length_payload]; rfl
  have hdrop : t.payload.drop (t.payload.length - 8) = t.checkText := by rw [t.length_payload]; rfl
  have hlong : ¬ t.payload.length < 8 := by rw [t.length_payload]; decide
  -- Once the checksum has matched, only reading the network id can fail.
  have hbind : ∀ a' : Address, a'.networkType = ⟨t.net⟩ → a'.body = t.body →
      a'.addressType = t.type → a'.checksum = t.checksum →
      (do let a ← a'.setCache; Except.ok ((1 : Int), a)) =
        NetworkType.toNetworkID ⟨t.net⟩ >>= fun id => .ok (1, t.address id) := by
    intro a' hnet hbody htype hcheck
    rw [Address.setCache, hnet]
    cases NetworkType.toNetworkID ⟨t.net⟩ with
    | error e => rfl
    | ok id =>
      simp only [bind, Except.bind, hbody, htype, hcheck]
      rfl
  have hparts : t.field = none ∨ ∃ type, t.field = some type := by cases t.field <;> simp
  unfold Address.newFromBase32
  rw [hlow, if_neg (by simp), t.split_text]
  rcases hparts with hfield | ⟨type, hfield⟩
  · -- Two parts: there is no type field to compare.
    have hmatch : t.fieldMatches := .inl hfield
    simp only [hfield, Option.map_none, Option.toList_none, List.nil_append, List.length_cons,
      List.length_nil, Nat.zero_add, Nat.reduceAdd, Nat.reduceSub, List.getD_cons_zero,
      List.getD_cons_succ, htake, hdrop, if_neg hlong]
    rw [if_neg (by decide), if_neg (by simp), if_neg (not_not.mpr hmatch), hbind _ rfl rfl rfl rfl]
    rfl
  · -- Three parts: the field is compared with the type of the body.
    have hiff : (True ∧ tolower_string type.string ≠ t.type.string) ↔ ¬ t.fieldMatches := by
      rw [tolower_type_string, fieldMatches, hfield, true_and, not_iff_not]
      constructor
      · intro h
        rw [AddressType.string_inj h]
        exact .inr rfl
      · rintro (h | h)
        · cases h
        · rw [Option.some.inj h]
    simp only [hfield, Option.map_some, Option.toList_some, List.singleton_append, List.length_cons,
      List.length_nil, Nat.zero_add, Nat.reduceAdd, Nat.reduceSub, List.getD_cons_zero,
      List.getD_cons_succ, htake, hdrop, if_neg hlong]
    rw [if_neg (by decide), hbind _ rfl rfl rfl rfl]
    show (if True ∧ tolower_string type.string ≠ t.type.string then _ else _) = _
    rw [if_congr hiff rfl rfl]
    rfl

theorem not_starts_with_0x : starts_with t.text "0x".toList = false := by
  rw [text]
  rcases t.net_ok with h | h | ⟨ds, h, _, _⟩ <;> rw [h] <;> rfl

end Base32Text

/-! ### The constructor -/

/-- The constructor returns the valid address `a`. -/
def Parses (s : Str) (networkID : UInt32) (a : Address) : Prop :=
  Address.construct s networkID = .ok a ∧ a.isValid = true

theorem Address.isValid_iff (a : Address) : a.isValid = true ↔ a.addressType ≠ .invalid := by
  unfold Address.isValid
  cases a.addressType <;> decide

/-- What makes the constructor accept a base32 text, and what it returns then. -/
structure Accepts (t : Base32Text) (a : Address) : Prop where
  eq_address : a = t.address a.networkID
  fieldMatches : t.fieldMatches
  check_eq : Body.bits5sToString t.checksum = t.checkText
  id_eq : NetworkType.toNetworkID ⟨t.net⟩ = .ok a.networkID
  type_ne : t.type ≠ .invalid

/-- The constructor on a text of the base32 format. A failed parse leaves an address
    of the type `invalid`; the second argument makes no difference to a valid one. -/
theorem construct_base32 {s : Str} (t : Base32Text) (hs : tolower_string s = t.text)
    (networkID : UInt32) :
    Address.construct s networkID =
      if ¬ t.fieldMatches then
        .ok { Address.init networkID with networkType := ⟨t.net⟩, body := t.body }
      else if Body.bits5sToString t.checksum ≠ t.checkText then
        .ok { Address.init networkID with
          networkType := ⟨t.net⟩, body := t.body, checksum := t.checksum }
      else NetworkType.toNetworkID ⟨t.net⟩ >>= fun id => .ok (t.address id) := by
  have hlow : tolower_string t.text = t.text := by rw [← hs, tolower_string_idem]
  have hhex : ¬ Regex.regex_match t.text Regex.hexPattern = true := by
    rw [regex_match_hexPattern]
    rintro ⟨ds, hds, _⟩
    have hno := t.not_starts_with_0x
    rw [hds, starts_with, ← Bool.not_eq_true, List.isPrefixOf_iff_prefix] at hno
    exact hno (List.prefix_append _ _)
  have hbase : Regex.regex_match t.text Regex.base32Pattern = true :=
    (regex_match_base32Pattern _).mpr ⟨t, rfl⟩
  rw [Address.construct, Address.new]
  simp only [hs, if_neg hhex, if_pos hbase, t.newFromBase32_text hlow]
  by_cases hfield : t.fieldMatches
  · by_cases hcheck : Body.bits5sToString t.checksum = t.checkText
    · rw [if_neg (not_not.mpr hfield), if_neg (not_not.mpr hcheck), if_neg (not_not.mpr hfield),
        if_neg (not_not.mpr hcheck)]
      cases hid : NetworkType.toNetworkID ⟨t.net⟩ with
      | error e => rfl
      | ok id =>
        have hget : (t.address id).getNetworkID = .ok id := hid
        -- Another network id leads to `NewFromHex`, which refuses a base32 text.
        have hnew : Address.newFromHex t.text networkID (t.address id) = .ok (0, t.address id) := by
          rw [Address.newFromHex, t.not_starts_with_0x]
          rfl
        have hsame : (if networkID ≠ 0 ∧ id ≠ networkID then
            Except.ok (t.address id) else .ok (t.address id) : Except StdError Address) =
            .ok (t.address id) := ite_self _
        simp only [bind, Except.bind, hget, hnew, hsame, if_neg (by decide : ¬ (1 : Int) ≤ 0)]
    · rw [if_neg (not_not.mpr hfield), if_pos hcheck, if_neg (not_not.mpr hfield), if_pos hcheck]
      rfl
  · rw [if_pos hfield, if_pos hfield]
    rfl

/-- The format of a text, or that it has none. A text without a format leaves the
    members as they were before the constructor ran. -/
inductive Format (s : Str) : Prop
  | hex (ds : Str) (hs : tolower_string s = "0x".toList ++ ds) (hlen : ds.length = 40)
      (hds : ∀ c ∈ ds, c ∈ Regex.hexDigits)
  | base32 (t : Base32Text) (hs : tolower_string s = t.text)
  | neither (h : ∀ networkID, Address.construct s networkID = .ok (Address.init networkID))

theorem format (s : Str) : Format s := by
  by_cases hhex : Regex.regex_match (tolower_string s) Regex.hexPattern = true
  · obtain ⟨ds, hs, hlen, hds⟩ := (regex_match_hexPattern _).mp hhex
    exact .hex ds hs hlen hds
  by_cases hbase : Regex.regex_match (tolower_string s) Regex.base32Pattern = true
  · obtain ⟨t, hs⟩ := (regex_match_base32Pattern _).mp hbase
    exact .base32 t hs
  · apply Format.neither
    intro networkID
    rw [Address.construct, Address.new]
    simp only [if_neg hhex, if_neg hbase]
    rfl

/-- The valid addresses built from texts of the base32 format. -/
theorem parses_base32_iff {s : Str} (t : Base32Text) (hs : tolower_string s = t.text)
    (networkID : UInt32) (a : Address) : Parses s networkID a ↔ Accepts t a := by
  -- What a failed parse returns is not valid.
  have hfail : ∀ b : Address, b.addressType = .invalid →
      ¬ ((Except.ok b : Except StdError Address) = .ok a ∧ a.isValid = true) := by
    intro b hb h
    rw [← Except.ok.inj h.1, Address.isValid_iff] at h
    exact h.2 hb
  rw [Parses, construct_base32 t hs]
  by_cases hfield : t.fieldMatches
  · by_cases hcheck : Body.bits5sToString t.checksum = t.checkText
    · rw [if_neg (not_not.mpr hfield), if_neg (not_not.mpr hcheck)]
      cases hid : NetworkType.toNetworkID ⟨t.net⟩ with
      | error e =>
        constructor
        · intro h
          cases h.1
        · intro h
          rw [h.id_eq] at hid
          cases hid
      | ok id =>
        constructor
        · intro h
          obtain rfl := Except.ok.inj h.1
          exact ⟨rfl, hfield, hcheck, hid, (Address.isValid_iff _).mp h.2⟩
        · intro h
          have hidEq : id = a.networkID := Except.ok.inj (hid.symm.trans h.id_eq)
          rw [hidEq]
          refine ⟨congrArg Except.ok h.eq_address.symm, (Address.isValid_iff a).mpr ?_⟩
          rw [h.eq_address]
          exact h.type_ne
    · rw [if_neg (not_not.mpr hfield), if_pos hcheck]
      exact ⟨fun h => absurd h (hfail _ rfl), fun h => absurd h.check_eq hcheck⟩
  · rw [if_pos hfield]
    exact ⟨fun h => absurd h (hfail _ rfl), fun h => absurd h.fieldMatches hfield⟩

/-- The constructor returns an address for every base32 text whose network id can
    be read. -/
theorem construct_base32_ok {s : Str} (t : Base32Text) (hs : tolower_string s = t.text)
    {id : UInt32} (hid : NetworkType.toNetworkID ⟨t.net⟩ = .ok id) (networkID : UInt32) :
    ∃ a, Address.construct s networkID = .ok a := by
  rw [construct_base32 t hs, hid]
  split
  · exact ⟨_, rfl⟩
  · split
    · exact ⟨_, rfl⟩
    · exact ⟨_, rfl⟩

end ConfluxSdk
