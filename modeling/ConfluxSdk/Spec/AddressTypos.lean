import ConfluxSdk.Spec.AddressCanonical

/-!
# Which typos the checksum detects

Letters of the alphabet are put in place of some payload characters of a valid
text, all of them within eight consecutive positions. On symbols, the checksum
tells the two payloads apart (`payload_burst`). On characters this is the same
only as far as the parser tells the characters apart: it lower-cases the text
first, and it takes a character of the body that is not in the alphabet for `a`.

## Key results

- `Accepts.symbols_eq`: an accepted payload spells its body and its checksum
- `burst_detected_iff`: the text with the typos is rejected exactly when the two
  payloads are not read alike
-/

namespace ConfluxSdk

open Radix (InBase)

/-- Some payload characters of `s` are replaced in `s'` by letters of the alphabet,
    all within eight consecutive positions. -/
structure Burst (s s' : Str) where
  head : Str
  pre : Str
  old : Str
  new : Str
  post : Str
  source_eq : s = head ++ (pre ++ old ++ post)
  target_eq : s' = head ++ (pre ++ new ++ post)
  length_payload : (pre ++ old ++ post).length = 42
  length_old : old.length ≤ 8
  replaced : List.Forall₂ (fun c d => d = c ∨ d ∈ Body.alphabet) old new

/-- What the parser makes of the characters of a payload: everything is lower-cased,
    and in the body `a` stands for the characters it does not know. -/
def readPayload (payload : Str) : Str :=
  ((tolower_string payload).take 34).map Body.readAs ++ (tolower_string payload).drop 34

/-! ### Symbols of a payload -/

namespace Body

theorem alphabetToIndex_readAs (c : Char) : alphabetToIndex (readAs c) = alphabetToIndex c := by
  unfold readAs
  by_cases hc : c ∈ alphabet
  · rw [if_pos hc]
  · rw [if_neg hc, alphabetToIndex, alphabetToIndex, if_neg hc]
    rfl

theorem ofString_map_readAs (s : Str) : ofString (s.map readAs) = ofString s := by
  rw [ofString, ofString, List.map_map]
  exact congrArg Body.mk (List.map_congr_left fun c _ => alphabetToIndex_readAs c)

end Body

/-- An accepted payload spells its body and its checksum. -/
theorem Accepts.symbols_eq {t : Base32Text} {a : Address} (h : Accepts t a) :
    t.body.body ++ calcChecksum ⟨t.net⟩ t.body = t.payload.map Body.alphabetToIndex := by
  have hcheck : t.checksum = t.checkText.map Body.alphabetToIndex := by
    have hin : InBase 32 t.checksum := h.checksum_eq ▸ h.consistent.inBase_checksum
    have hback := Body.ofString_bits5sToString hin
    rw [h.check_eq] at hback
    exact (congrArg Body.body hback).symm
  rw [← Base32Text.checksum, hcheck, ← t.bodyText_append_checkText, List.map_append]
  rfl

theorem Accepts.payload_eq_readPayload {t : Base32Text} {a : Address} (h : Accepts t a)
    {payload : Str} (hp : t.payload = tolower_string payload) :
    a.payload = readPayload payload := by
  rw [h.payload_eq, readPayload, ← hp]
  rfl

/-! ### The text with the typos -/

theorem Burst.mem_new {s s' : Str} (e : Burst s s') {c : Char} (hc : c ∈ e.new) :
    c ∈ e.old ∨ c ∈ Body.alphabet := by
  have hall : ∀ {old new : Str}, List.Forall₂ (fun c d => d = c ∨ d ∈ Body.alphabet) old new →
      c ∈ new → c ∈ old ∨ c ∈ Body.alphabet := by
    intro old new h hmem
    induction h with
    | nil => cases hmem
    | cons hcd _ ih =>
      rcases List.mem_cons.mp hmem with rfl | hmem
      · rcases hcd with rfl | hcd
        · exact .inl List.mem_cons_self
        · exact .inr hcd
      · exact (ih hmem).imp_left (List.mem_cons_of_mem _)
  exact hall e.replaced hc

theorem Burst.length_new {s s' : Str} (e : Burst s s') : e.old.length = e.new.length :=
  e.replaced.length_eq

section Burst

variable {s s' : Str} (t : Base32Text) (hs : tolower_string s = t.text) (e : Burst s s')
include hs

theorem Burst.tolower_parts :
    tolower_string e.head = t.net ++ ":".toList ++ t.fieldText ∧
      tolower_string (e.pre ++ e.old ++ e.post) = t.payload := by
  rw [e.source_eq, tolower_string_append, Base32Text.text] at hs
  exact List.append_inj' hs (by rw [length_tolower_string, e.length_payload, t.length_payload])

/-- The parts of the text with the typos. -/
def Burst.base32Text : Base32Text where
  net := t.net
  field := t.field
  payload := tolower_string (e.pre ++ e.new ++ e.post)
  net_ok := t.net_ok
  field_ok := t.field_ok
  length_payload := by
    have hlen := e.length_payload
    have hnew := e.length_new
    rw [length_tolower_string]
    simp only [List.length_append] at hlen ⊢
    omega
  payload_ok := by
    intro c hc
    obtain ⟨d, hd, rfl⟩ := List.mem_map.mp hc
    have hold : d ∈ e.pre ++ e.old ++ e.post → d.toLower ∈ Regex.wordChars := by
      intro hmem
      apply t.payload_ok
      rw [← (e.tolower_parts t hs).2]
      exact List.mem_map_of_mem hmem
    simp only [List.mem_append] at hd hold
    rcases hd with (hd | hd) | hd
    · exact hold (.inl (.inl hd))
    · rcases e.mem_new hd with hd | hd
      · exact hold (.inl (.inr hd))
      · rw [toLower_of_mem_alphabet hd]
        exact mem_wordChars_of_mem_alphabet hd
    · exact hold (.inr hd)

theorem Burst.text_base32Text : tolower_string s' = (e.base32Text t hs).text := by
  have hparts : tolower_string s' =
      tolower_string e.head ++ tolower_string (e.pre ++ e.new ++ e.post) := by
    rw [← tolower_string_append, ← e.target_eq]
  rw [hparts, (e.tolower_parts t hs).1]
  rfl

/-- Payloads that are read alike lead to the same address. -/
theorem Burst.accepts_of_readPayload_eq {a : Address} (h : Accepts t a)
    (hread : readPayload (e.pre ++ e.old ++ e.post) = readPayload (e.pre ++ e.new ++ e.post)) :
    Accepts (e.base32Text t hs) a := by
  have hold := (e.tolower_parts t hs).2
  unfold readPayload at hread
  rw [hold] at hread
  have hlen : (t.bodyText.map Body.readAs).length =
      ((e.base32Text t hs).bodyText.map Body.readAs).length := by
    rw [List.length_map, List.length_map, Base32Text.length_bodyText, Base32Text.length_bodyText]
  obtain ⟨hbodyText, hcheckText⟩ := List.append_inj hread hlen
  have hbody : (e.base32Text t hs).body = t.body := by
    rw [Base32Text.body, ← Body.ofString_map_readAs]
    exact (congrArg Body.ofString hbodyText.symm).trans (Body.ofString_map_readAs _)
  have hhex : (e.base32Text t hs).hex = t.hex := by rw [Base32Text.hex, hbody, ← Base32Text.hex]
  have htype : (e.base32Text t hs).type = t.type := by
    rw [Base32Text.type, hhex, ← Base32Text.type]
  have hcheck : (e.base32Text t hs).checksum = t.checksum := by
    rw [Base32Text.checksum, hbody]
    rfl
  refine ⟨?_, ?_, ?_, h.id_eq, htype ▸ h.type_ne⟩
  · rw [Base32Text.address, htype, hbody, hcheck, hhex]
    exact h.eq_address
  · rw [Base32Text.fieldMatches, htype]
    exact h.fieldMatches
  · rw [hcheck, h.check_eq]
    exact hcheckText

/-- Two accepted payloads are read alike. -/
theorem Burst.readPayload_eq {a a' : Address} (h : Accepts t a)
    (h' : Accepts (e.base32Text t hs) a') :
    readPayload (e.pre ++ e.old ++ e.post) = readPayload (e.pre ++ e.new ++ e.post) := by
  have hold := (e.tolower_parts t hs).2
  have hsymbols := h.symbols_eq
  have hsymbols' := h'.symbols_eq
  rw [← hold] at hsymbols
  simp only [tolower_string_append, List.map_append] at hsymbols
  have hpayload' : (e.base32Text t hs).payload = tolower_string (e.pre ++ e.new ++ e.post) := rfl
  rw [hpayload'] at hsymbols'
  simp only [tolower_string_append, List.map_append] at hsymbols'
  have hwindow := payload_burst ⟨t.net⟩ t.wellFormed_body.inBase
    (e.base32Text t hs).wellFormed_body.inBase hsymbols hsymbols'
    (by simp only [List.length_map, length_tolower_string, e.length_new])
    (by simpa only [List.length_map, length_tolower_string] using e.length_old)
  -- The symbols of the payloads are the same, hence their bodies and checksums.
  rw [← hwindow, ← hsymbols] at hsymbols'
  have hlen : (e.base32Text t hs).body.body.length = t.body.body.length := by
    rw [(e.base32Text t hs).wellFormed_body.length_eq, t.wellFormed_body.length_eq]
  have hbody := List.append_inj_left hsymbols' hlen
  have hsame : a = a' := by
    rw [h.consistent.eq_iff h'.consistent, h.networkType_eq, h'.networkType_eq, h.body_eq,
      h'.body_eq]
    exact ⟨rfl, congrArg Body.mk hbody.symm⟩
  rw [← h.payload_eq_readPayload hold.symm, ← h'.payload_eq_readPayload rfl, hsame]

end Burst

/-! ### Detection -/

/-- A text with typos in at most eight consecutive payload characters gives an
    invalid address exactly when the two payloads are not read alike. -/
theorem burst_detected_iff {s s' : Str} (t : Base32Text) (hs : tolower_string s = t.text)
    {networkID : UInt32} {a : Address} (h : Parses s networkID a) (e : Burst s s')
    (networkID' : UInt32) :
    (∃ a', Address.construct s' networkID' = .ok a' ∧ a'.isValid = false) ↔
      readPayload (e.pre ++ e.old ++ e.post) ≠ readPayload (e.pre ++ e.new ++ e.post) := by
  have hacc := (parses_base32_iff t hs networkID a).mp h
  have hs' := e.text_base32Text t hs
  constructor
  · rintro ⟨a', hconstruct, hinvalid⟩ hread
    have hacc' := e.accepts_of_readPayload_eq t hs hacc hread
    have hparses := (parses_base32_iff _ hs' networkID' a).mpr hacc'
    rw [Parses, hconstruct] at hparses
    obtain rfl := Except.ok.inj hparses.1
    rw [hinvalid] at hparses
    exact absurd hparses.2 (by decide)
  · intro hread
    obtain ⟨a', hconstruct⟩ := construct_base32_ok _ hs' hacc.id_eq networkID'
    refine ⟨a', hconstruct, ?_⟩
    rw [← Bool.not_eq_true]
    intro hvalid
    have hacc' := (parses_base32_iff _ hs' networkID' a').mp ⟨hconstruct, hvalid⟩
    exact hread (e.readPayload_eq t hs hacc hacc')

/-- A wrong first letter in the user address of the documentation. -/
def userBurst : Burst "cfx:aak2rra2njvd77ezwjvx04kkds9fzagfe6ku8scz91".toList
    "cfx:bak2rra2njvd77ezwjvx04kkds9fzagfe6ku8scz91".toList where
  head := "cfx:".toList
  pre := []
  old := "a".toList
  new := "b".toList
  post := "ak2rra2njvd77ezwjvx04kkds9fzagfe6ku8scz91".toList
  source_eq := rfl
  target_eq := rfl
  length_payload := by decide
  length_old := by decide
  replaced := .cons (.inr (by decide)) .nil

theorem burst_detected_userText :
    ∃ a', Address.construct "cfx:bak2rra2njvd77ezwjvx04kkds9fzagfe6ku8scz91".toList 1029 = .ok a' ∧
      a'.isValid = false := by
  have h : Parses "cfx:aak2rra2njvd77ezwjvx04kkds9fzagfe6ku8scz91".toList 1029
      (userText.address 1029) :=
    (parses_base32_iff userText (by decide) 1029 _).mpr userText_accepts
  exact (burst_detected_iff userText (by decide) h userBurst 1029).mpr (by decide)

/-- One letter is replaced by another one of the alphabet, and both texts are valid. -/
theorem burst_accepted_userTypo :
    ∃ a a', Parses "cfx:oak2rra2njvd77ezwjvx04kkds9fzagfe6ku8scz91".toList 1029 a ∧
      Nonempty (Burst "cfx:oak2rra2njvd77ezwjvx04kkds9fzagfe6ku8scz91".toList
        "cfx:aak2rra2njvd77ezwjvx04kkds9fzagfe6ku8scz91".toList) ∧
      "cfx:aak2rra2njvd77ezwjvx04kkds9fzagfe6ku8scz91".toList ≠
        "cfx:oak2rra2njvd77ezwjvx04kkds9fzagfe6ku8scz91".toList ∧
      Parses "cfx:aak2rra2njvd77ezwjvx04kkds9fzagfe6ku8scz91".toList 1029 a' :=
  ⟨userTypo.address 1029, userText.address 1029,
    (parses_base32_iff userTypo (by decide) 1029 _).mpr userTypo_accepts,
    ⟨{ head := "cfx:".toList
       pre := []
       old := "o".toList
       new := "a".toList
       post := "ak2rra2njvd77ezwjvx04kkds9fzagfe6ku8scz91".toList
       source_eq := rfl
       target_eq := rfl
       length_payload := by decide
       length_old := by decide
       replaced := .cons (.inr (by decide)) .nil }⟩,
    by decide, (parses_base32_iff userText (by decide) 1029 _).mpr userText_accepts⟩

end ConfluxSdk
