import ConfluxSdk.Native.JsonSpirit

/-!
# json_spirit reads what it writes

What the generator writes is read back, with or without line breaks and whatever
follows it, and a text of any kind leaves a value that could have been written: its
objects are ordered by name, its integers fit 64 bits and its texts consist of bytes.

## Key results

- `JsonSpirit.getStr_addEscChars`, `JsonSpirit.string_outputStr`: texts in quotes
- `JsonSpirit.number_outputInt`: integers
- `JsonSpirit.value_output`: values, by induction over what is written
-/

namespace ConfluxSdk

/-- A value that json_spirit can hold: texts of bytes, 64-bit integers, signed or not, and
    objects that are ordered by name. `realOk` says which reals are admitted. -/
inductive Json.WellFormed (realOk : Float → Prop) : Json → Prop
  | null : WellFormed realOk .null
  | bool (b : Bool) : WellFormed realOk (.bool b)
  | int {n : Int} (lo : -2 ^ 63 ≤ n) (hi : n < 2 ^ 64) : WellFormed realOk (.int n)
  | real {x : Float} (ok : realOk x) : WellFormed realOk (.real x)
  | str {s : Str} (bytes : ∀ c ∈ s, c.toNat < 256) : WellFormed realOk (.str s)
  | arr {values : List Json} (values_ok : ∀ v ∈ values, WellFormed realOk v) :
      WellFormed realOk (.arr values)
  | obj {members : List (Str × Json)} (sorted : members.Pairwise fun x y => x.1 < y.1)
      (names_ok : ∀ m ∈ members, ∀ c ∈ m.1, c.toNat < 256)
      (values_ok : ∀ m ∈ members, WellFormed realOk m.2) : WellFormed realOk (.obj members)

namespace JsonSpirit

variable {env : JsonLocale}

/-! ### Characters and escapes -/

theorem hexToNum_toHexChar {n : Nat} (h : n < 16) : hexToNum (toHexChar n) = n := by
  have hall : ∀ n < 16, hexToNum (toHexChar n) = n := by decide
  exact hall n h

theorem toHexChar_plain {n : Nat} (h : n < 16) : toHexChar n ≠ '"' ∧ toHexChar n ≠ '\\' := by
  have hall : ∀ n < 16, toHexChar n ≠ '"' ∧ toHexChar n ≠ '\\' := by decide
  exact hall n h

variable (env) in
/-- The three forms of a character in quotes. -/
theorem escapeChar_cases {c : Char} (hc : c.toNat < 256) :
    (∃ x, escapeChar env c = ['\\', x] ∧ x ≠ 'x' ∧ x ≠ 'X' ∧ x ≠ 'u' ∧ shortEscape x = [c]) ∨
    (escapeChar env c = [c] ∧ c ≠ '"' ∧ c ≠ '\\') ∨
    escapeChar env c = nonPrintableToString c.toNat := by
  unfold escapeChar
  cases hesc : addEscChar c with
  | some text =>
    left
    unfold addEscChar at hesc
    split at hesc
    · rename_i h
      subst h
      exact ⟨'"', (Option.some.inj hesc).symm, by decide⟩
    split at hesc
    · rename_i h
      subst h
      exact ⟨'\\', (Option.some.inj hesc).symm, by decide⟩
    split at hesc
    · rename_i h
      subst h
      exact ⟨'b', (Option.some.inj hesc).symm, by decide⟩
    split at hesc
    · rename_i h
      subst h
      exact ⟨'f', (Option.some.inj hesc).symm, by decide⟩
    split at hesc
    · rename_i h
      subst h
      exact ⟨'n', (Option.some.inj hesc).symm, by decide⟩
    split at hesc
    · rename_i h
      subst h
      exact ⟨'r', (Option.some.inj hesc).symm, by decide⟩
    split at hesc
    · rename_i h
      subst h
      exact ⟨'t', (Option.some.inj hesc).symm, by decide⟩
    · cases hesc
  | none =>
    right
    have hplain : c ≠ '"' ∧ c ≠ '\\' := by
      constructor <;> rintro rfl <;> exact absurd hesc (by decide)
    dsimp only
    split
    · exact .inl ⟨rfl, hplain⟩
    · exact .inr rfl

/-- The digits of a character that is not printable are its code. -/
theorem unicodeStrToChar_code {c : Char} (hc : c.toNat < 256) :
    unicodeStrToChar (toHexChar (c.toNat / 4096 % 16)) (toHexChar (c.toNat / 256 % 16))
      (toHexChar (c.toNat / 16 % 16)) (toHexChar (c.toNat % 16)) = c := by
  have hdigit (n : Nat) : hexToNum (toHexChar (n % 16)) = n % 16 :=
    hexToNum_toHexChar (Nat.mod_lt _ (by decide))
  have hcode : (c.toNat / 4096 % 16 * 4096 + c.toNat / 256 % 16 * 256 + c.toNat / 16 % 16 * 16 +
      c.toNat % 16) % 256 = c.toNat := by omega
  rw [unicodeStrToChar, hdigit, hdigit, hdigit, hdigit, hcode, Char.ofNat_toNat]

/-- A character that starts no escape is copied. -/
theorem substituteEscChars_plain {c : Char} (hc : c ≠ '\\') (t : Str) :
    substituteEscChars (c :: t) = c :: substituteEscChars t := by
  cases t with
  | nil => simp [substituteEscChars]
  | cons d t =>
    exact substituteEscChars.eq_6 c d t (fun _ _ _ h => absurd h hc)
      (fun _ _ _ _ _ h => absurd h hc) (fun h => absurd h hc)

theorem substituteEscChars_escapeChar {c : Char} (hc : c.toNat < 256) (t : Str) :
    substituteEscChars (escapeChar env c ++ t) = c :: substituteEscChars t := by
  rcases escapeChar_cases env hc with ⟨x, hx, hne, -, hne', hshort⟩ | ⟨hx, -, hne⟩ | hx
  · rw [hx]
    have hstep : substituteEscChars ('\\' :: x :: t) = shortEscape x ++ substituteEscChars t :=
      substituteEscChars.eq_5 x t (fun _ _ _ h => absurd h hne) (fun _ _ _ _ _ h => absurd h hne')
    rw [List.cons_append, List.singleton_append, hstep, hshort]
    rfl
  · rw [hx]
    exact substituteEscChars_plain hne t
  · rw [hx]
    show unicodeStrToChar _ _ _ _ :: substituteEscChars t = _
    rw [unicodeStrToChar_code hc]

/-- The text in quotes is what was escaped. -/
theorem getStr_addEscChars {s : Str} (hs : ∀ c ∈ s, c.toNat < 256) :
    getStr (addEscChars env s) = s := by
  unfold getStr addEscChars
  induction s with
  | nil => rfl
  | cons c s ih =>
    rw [List.flatMap_cons, substituteEscChars_escapeChar (hs c List.mem_cons_self),
      ih fun d hd => hs d (List.mem_cons_of_mem c hd)]

/-- A character that is neither a backslash nor a quote is matched. -/
theorem lexEscapes_plain {c : Char} (hquote : c ≠ '"') (hc : c ≠ '\\') (t : Str) :
    lexEscapes (c :: t) = (c :: (lexEscapes t).1, (lexEscapes t).2) := by
  rw [lexEscapes.eq_4 c t (fun h => absurd h hc) (fun _ _ h => absurd h hc), if_neg hquote]

theorem lexEscapes_escape {x : Char} (hx : x ≠ 'x') (hX : x ≠ 'X') (t : Str) :
    lexEscapes ('\\' :: x :: t) = ('\\' :: x :: (lexEscapes t).1, (lexEscapes t).2) := by
  rw [lexEscapes, if_neg]
  rintro ⟨rfl | rfl, -⟩
  · exact hx rfl
  · exact hX rfl

theorem lexEscapes_escapeChar {c : Char} (hc : c.toNat < 256) (t : Str) :
    lexEscapes (escapeChar env c ++ t) =
      (escapeChar env c ++ (lexEscapes t).1, (lexEscapes t).2) := by
  rcases escapeChar_cases env hc with ⟨x, hx, hne, hne', -⟩ | ⟨hx, hquote, hne⟩ | hx
  · rw [hx]
    exact lexEscapes_escape hne hne' t
  · rw [hx]
    exact lexEscapes_plain hquote hne t
  · rw [hx]
    have hdigit (n : Nat) (u : Str) : lexEscapes (toHexChar (n % 16) :: u) =
        (toHexChar (n % 16) :: (lexEscapes u).1, (lexEscapes u).2) := by
      obtain ⟨hquote, hne⟩ := toHexChar_plain (Nat.mod_lt n (by decide : 0 < 16))
      exact lexEscapes_plain hquote hne u
    show lexEscapes ('\\' :: 'u' :: _ :: _ :: _ :: _ :: t) = _
    rw [lexEscapes_escape (by decide) (by decide), hdigit, hdigit, hdigit, hdigit]
    rfl

theorem lexEscapes_addEscChars {s : Str} (hs : ∀ c ∈ s, c.toNat < 256) (rest : Str) :
    lexEscapes (addEscChars env s ++ '"' :: rest) = (addEscChars env s, '"' :: rest) := by
  unfold addEscChars
  induction s with
  | nil =>
    rw [List.flatMap_nil, List.nil_append, lexEscapes.eq_4 _ _ (fun h => absurd h (by decide))
      (fun _ _ h => absurd h (by decide)), if_pos rfl]
  | cons c s ih =>
    rw [List.flatMap_cons, List.append_assoc, lexEscapes_escapeChar (hs c List.mem_cons_self),
      ih fun d hd => hs d (List.mem_cons_of_mem c hd)]

/-! ### White space -/

/-- What the skipper passes over. -/
def Blank (ws : Str) : Prop := ∀ c ∈ ws, isSpace c = true

theorem skip_blank {ws : Str} (hws : Blank ws) (s : Str) : skip (ws ++ s) = skip s := by
  rw [skip, List.dropWhile_append, List.dropWhile_eq_nil_iff.mpr hws]
  rfl

theorem skip_cons {c : Char} (hc : isSpace c = false) (s : Str) : skip (c :: s) = c :: s := by
  rw [skip, List.dropWhile_cons_of_neg]
  rw [hc]
  exact Bool.false_ne_true

theorem Blank.append {ws ws' : Str} (h : Blank ws) (h' : Blank ws') : Blank (ws ++ ws') := by
  intro c hc
  rcases List.mem_append.mp hc with hc | hc
  · exact h c hc
  · exact h' c hc

theorem blank_nil : Blank [] := fun _ hc => absurd hc List.not_mem_nil

theorem blank_indent (pretty : Bool) (level : Nat) : Blank (indent pretty level) := by
  intro c hc
  cases pretty with
  | false => exact absurd hc List.not_mem_nil
  | true =>
    rw [List.eq_of_mem_replicate hc]
    rfl

private theorem blank_optional {c : Char} (hc : isSpace c = true) (pretty : Bool) :
    Blank (if pretty then [c] else []) := by
  intro d hd
  cases pretty with
  | false => exact absurd hd List.not_mem_nil
  | true =>
    rw [List.mem_singleton.mp hd]
    exact hc

theorem blank_space (pretty : Bool) : Blank (space pretty) := blank_optional rfl pretty

theorem blank_newLine (pretty : Bool) : Blank (newLine pretty) := blank_optional rfl pretty

section Tokens

variable {ws : Str} (hws : Blank ws) {c : Char} (hc : isSpace c = false) (rest : Str)
include hws hc

theorem ch_hit : ch c (ws ++ c :: rest) = some rest := by
  rw [ch, skip_blank hws, skip_cons hc]
  exact if_pos rfl

theorem ch_miss {d : Char} (hne : c ≠ d) : ch d (ws ++ c :: rest) = none := by
  rw [ch, skip_blank hws, skip_cons hc]
  exact if_neg hne

theorem string_miss (hne : c ≠ '"') : string_ (ws ++ c :: rest) = none := by
  rw [string_, skip_blank hws, skip_cons hc]
  split
  · rename_i heq
    exact absurd (List.cons.inj heq).1 hne
  · rfl

end Tokens

theorem string_outputStr {ws s : Str} (hws : Blank ws) (hs : ∀ c ∈ s, c.toNat < 256)
    (rest : Str) :
    string_ (ws ++ (outputStr env s ++ rest)) = some (addEscChars env s, rest) := by
  have hskip : skip (ws ++ (outputStr env s ++ rest)) = '"' :: (addEscChars env s ++ '"' :: rest) := by
    rw [skip_blank hws, outputStr, List.cons_append, skip_cons (by decide), List.append_assoc]
    rfl
  simp only [string_, hskip, lexEscapes_addEscChars hs]

/-! ### Numbers -/

/-- What may stand behind a number: nothing that a numeral goes on with. -/
def Ends (rest : Str) : Prop := ∀ c ∈ rest.head?, ¬ c.isDigit ∧ c ≠ '.' ∧ c ≠ 'e' ∧ c ≠ 'E'

theorem ends_cons {c : Char} (hc : ¬ c.isDigit ∧ c ≠ '.' ∧ c ≠ 'e' ∧ c ≠ 'E') (rest : Str) :
    Ends (c :: rest) := by
  intro d hd
  rw [← Option.some.inj hd]
  exact hc

theorem digitRun_to_string (n : Nat) {rest : Str} (hrest : Ends rest) :
    digitRun (to_string n ++ rest) = (to_string n, rest) := by
  have hdigits : ∀ c ∈ to_string n, c.isDigit = true := fun c hc => isDigit_of_mem_to_string hc
  have htail : rest.takeWhile Char.isDigit = [] ∧ rest.dropWhile Char.isDigit = rest := by
    cases rest with
    | nil => exact ⟨rfl, rfl⟩
    | cons c rest =>
      have hc : ¬ c.isDigit = true := (hrest c rfl).1
      exact ⟨List.takeWhile_cons_of_neg hc, List.dropWhile_cons_of_neg hc⟩
  rw [digitRun, List.takeWhile_append_of_pos hdigits, List.dropWhile_append,
    List.dropWhile_eq_nil_iff.mpr hdigits, htail.1, List.append_nil]
  exact congrArg _ htail.2

theorem exponent_ends {rest : Str} (hrest : Ends rest) : exponent rest = none := by
  cases rest with
  | nil => rfl
  | cons c rest =>
    obtain ⟨-, -, he, hE⟩ := hrest c rfl
    exact if_neg (not_or.mpr ⟨he, hE⟩)

/-- An integer starts with a sign or a digit. -/
theorem outputInt_head (n : Int) :
    ∃ c t, outputInt n = c :: t ∧ isSpace c = false ∧ c ≠ '"' := by
  obtain ⟨c, t, hct⟩ := List.exists_cons_of_ne_nil (to_string_ne_nil n.natAbs)
  have hc : c.isDigit = true := isDigit_of_mem_to_string (hct ▸ List.mem_cons_self)
  unfold outputInt
  split
  · exact ⟨'-', _, rfl, rfl, by decide⟩
  · refine ⟨c, t, hct, ?_, ?_⟩
    · by_contra h
      simp only [isSpace, Bool.not_eq_false, Bool.or_eq_true, beq_iff_eq] at h
      rcases h with ((((rfl | rfl) | rfl) | rfl) | rfl) | rfl <;> exact absurd hc (by decide)
    · rintro rfl
      exact absurd hc (by decide)

theorem splitSign_outputInt (n : Int) (rest : Str) :
    splitSign (outputInt n ++ rest) = (decide (n < 0), to_string n.natAbs ++ rest) := by
  unfold outputInt
  split
  · rename_i hneg
    rw [decide_eq_true hneg]
    rfl
  · rename_i hpos
    obtain ⟨c, t, hct⟩ := List.exists_cons_of_ne_nil (to_string_ne_nil n.natAbs)
    have hc : c.isDigit = true := isDigit_of_mem_to_string (hct ▸ List.mem_cons_self)
    rw [hct, decide_eq_false hpos, List.cons_append]
    unfold splitSign
    split
    · rename_i heq
      rw [(List.cons.inj heq).1] at hc
      exact absurd hc (by decide)
    · rename_i heq
      rw [(List.cons.inj heq).1] at hc
      exact absurd hc (by decide)
    · rfl

theorem strictReal_outputInt (n : Int) {rest : Str} (hrest : Ends rest) :
    strictReal (outputInt n ++ rest) = none := by
  rw [strictReal, splitSign_outputInt, digitRun_to_string _ hrest]
  split
  · rename_i heq
    obtain ⟨-, rfl⟩ := Prod.mk.inj heq
    exact absurd rfl (hrest '.' rfl).2.1
  · rename_i heq
    obtain ⟨rfl, rfl⟩ := Prod.mk.inj heq
    rw [if_neg (to_string_ne_nil _), exponent_ends hrest]
    rfl

theorem number_outputInt {ws : Str} (hws : Blank ws) {n : Int} (hlo : -2 ^ 63 ≤ n)
    (hhi : n < 2 ^ 64) {rest : Str} (hrest : Ends rest) :
    number_ env (ws ++ (outputInt n ++ rest)) = some (.int n, rest) := by
  obtain ⟨c, t, hct, hc, -⟩ := outputInt_head n
  have hskip : skip (ws ++ (outputInt n ++ rest)) = outputInt n ++ rest := by
    rw [skip_blank hws, hct, List.cons_append, skip_cons hc]
  have hvalue : Nat.ofDigitChars 10 (to_string n.natAbs) 0 = n.natAbs :=
    Nat.ofDigitChars_ten_toDigits
  have hdigits : ∃ d ds, to_string n.natAbs = d :: ds :=
    List.exists_cons_of_ne_nil (to_string_ne_nil _)
  have hmagnitude : (if decide (n < 0) = true then -(n.natAbs : Int) else n.natAbs) = n := by
    by_cases hneg : n < 0
    · rw [if_pos (decide_eq_true hneg)]
      omega
    · rw [if_neg (by simpa using hneg)]
      omega
  have hint : int64 (outputInt n ++ rest) = if 2 ^ 63 ≤ n then none else some (n, rest) := by
    rw [int64, splitSign_outputInt]
    dsimp only
    rw [digitRun_to_string _ hrest]
    obtain ⟨d, ds, hds⟩ := hdigits
    rw [hds]
    dsimp only
    rw [← hds, hvalue, hmagnitude]
    by_cases hbig : 2 ^ 63 ≤ n
    · rw [if_pos (.inr hbig), if_pos hbig]
    · rw [if_neg (by omega), if_neg hbig]
  rw [number_, hskip, strictReal_outputInt n hrest, hint]
  by_cases hbig : 2 ^ 63 ≤ n
  · -- Beyond the signed range the digits are read once more.
    have htext : outputInt n = to_string n.natAbs := if_neg (by omega)
    rw [if_pos hbig, htext]
    dsimp only
    rw [uint64, digitRun_to_string _ hrest]
    obtain ⟨d, ds, hds⟩ := hdigits
    rw [hds]
    dsimp only
    rw [← hds, hvalue, if_neg (by omega)]
    show some (Json.int (n.natAbs : Int), rest) = _
    rw [Int.natAbs_of_nonneg (by omega)]
  · rw [if_neg hbig]

/-- No number starts with a character that is no digit, no sign and no dot. -/
theorem number_miss {ws : Str} (hws : Blank ws) {c : Char} (hc : isSpace c = false)
    (hne : ¬ c.isDigit ∧ c ≠ '-' ∧ c ≠ '+' ∧ c ≠ '.') (s : Str) :
    number_ env (ws ++ c :: s) = none := by
  obtain ⟨hdigit, hminus, hplus, hdot⟩ := hne
  have hsign : splitSign (c :: s) = (false, c :: s) := by
    unfold splitSign
    split
    · rename_i heq
      exact absurd (List.cons.inj heq).1 hminus
    · rename_i heq
      exact absurd (List.cons.inj heq).1 hplus
    · rfl
  have hrun : digitRun (c :: s) = ([], c :: s) := by
    rw [digitRun, List.takeWhile_cons_of_neg hdigit, List.dropWhile_cons_of_neg hdigit]
  have hreal : strictReal (c :: s) = none := by
    rw [strictReal, hsign, hrun]
    split
    · rename_i heq
      exact absurd (List.cons.inj (Prod.mk.inj heq).2).1 hdot
    · rename_i heq
      rw [← (Prod.mk.inj heq).1, if_pos rfl]
  rw [number_, skip_blank hws, skip_cons hc, hreal, int64, hsign]
  dsimp only
  rw [hrun]
  dsimp only
  rw [uint64, hrun]
  rfl

/-! ### Values -/

section Output

variable {pretty : Bool}

/-- The comma behind a value that is not the last one. -/
def comma {α : Type} (l : List α) : Str := if l.isEmpty then [] else [',']

@[simp] theorem comma_nil {α : Type} : comma ([] : List α) = [] := rfl

@[simp] theorem comma_cons {α : Type} (a : α) (l : List α) : comma (a :: l) = [','] := rfl

theorem output_arr (level : Nat) (values : List Json) :
    output env pretty level (.arr values) = '[' :: (newLine pretty ++
      outputElements env pretty (level + 1) values ++ indent pretty level ++ [']']) := by
  rw [output]

theorem output_obj (level : Nat) (members : List (Str × Json)) :
    output env pretty level (.obj members) = '\x7b' :: (newLine pretty ++
      outputMembers env pretty (level + 1) members ++ indent pretty level ++ ['\x7d']) := by
  rw [output]

theorem outputElements_cons (level : Nat) (v : Json) (values : List Json) :
    outputElements env pretty level (v :: values) = indent pretty level ++
      (output env pretty level v ++ (comma values ++ (newLine pretty ++
        outputElements env pretty level values))) := by
  rw [outputElements]
  simp only [comma, List.append_assoc]

theorem outputMembers_cons (level : Nat) (name : Str) (v : Json) (members : List (Str × Json)) :
    outputMembers env pretty level ((name, v) :: members) = indent pretty level ++
      (outputStr env name ++ (space pretty ++ ':' :: (space pretty ++
        (output env pretty level v ++ (comma members ++ (newLine pretty ++
          outputMembers env pretty level members)))))) := by
  rw [outputMembers]
  simp only [comma, List.append_assoc, List.cons_append, List.nil_append]

/-- A number may stand in front of white space and the end of a list. -/
theorem ends_blank {ws : Str} (hws : Blank ws) {c : Char}
    (hc : ¬ c.isDigit ∧ c ≠ '.' ∧ c ≠ 'e' ∧ c ≠ 'E') (rest : Str) : Ends (ws ++ c :: rest) := by
  cases ws with
  | nil => exact ends_cons hc rest
  | cons d ws =>
    have hd := hws d List.mem_cons_self
    refine ends_cons ?_ _
    simp only [isSpace, Bool.or_eq_true, beq_iff_eq] at hd
    rcases hd with ((((rfl | rfl) | rfl) | rfl) | rfl) | rfl <;> decide

/-- A number may stand in front of the rest of a list. -/
theorem ends_more {α : Type} {l : List α} {text : Str} (htext : l = [] → text = []) {ws : Str}
    (hws : Blank ws) {c : Char} (hc : ¬ c.isDigit ∧ c ≠ '.' ∧ c ≠ 'e' ∧ c ≠ 'E') (rest : Str) :
    Ends (comma l ++ (newLine pretty ++ (text ++ (ws ++ c :: rest)))) := by
  cases l with
  | nil =>
    rw [htext rfl, comma_nil, List.nil_append, List.nil_append, ← List.append_assoc]
    exact ends_blank ((blank_newLine pretty).append hws) hc rest
  | cons a l => exact ends_cons (by decide) _

end Output

section Dispatch

variable {ws : Str} (hws : Blank ws)
include hws

/-- Which alternative is taken is decided by the first character. -/
theorem value_bracket (depth : Nat) (s : Str) :
    value_ env (depth + 1) (ws ++ '[' :: s) = array_ (value_ env depth) s := by
  rw [value_, string_miss hws (by decide) s (by decide), number_miss hws (by decide) (by decide),
    ch_miss hws (by decide) s (by decide), ch_hit hws (by decide) s]

theorem value_brace (depth : Nat) (s : Str) :
    value_ env (depth + 1) (ws ++ '\x7b' :: s) = object_ (value_ env depth) s := by
  rw [value_, string_miss hws (by decide) s (by decide), number_miss hws (by decide) (by decide),
    ch_hit hws (by decide) s]

theorem literal_skip (s : Str) : literal (ws ++ s) = literal s := by
  have hword (w : Str) : word w (ws ++ s) = word w s := by rw [word, word, skip_blank hws]
  rw [literal, literal, hword, hword, hword]

theorem value_literal (depth : Nat) {c : Char} (hc : isSpace c = false)
    (hquote : c ≠ '"') (hnum : ¬ c.isDigit ∧ c ≠ '-' ∧ c ≠ '+' ∧ c ≠ '.') (hbrace : c ≠ '\x7b')
    (hbracket : c ≠ '[') (s : Str) :
    value_ env (depth + 1) (ws ++ c :: s) = literal (c :: s) := by
  rw [value_, string_miss hws hc s hquote, number_miss hws hc hnum, ch_miss hws hc s hbrace,
    ch_miss hws hc s hbracket]
  exact literal_skip hws _

/-- No value starts with the end of an array. -/
theorem value_close (depth : Nat) (s : Str) :
    value_ env depth (ws ++ ']' :: s) = .noMatch := by
  cases depth with
  | zero => rfl
  | succ depth =>
    rw [value_literal hws depth (by decide) (by decide) (by decide) (by decide) (by decide)]
    rfl

end Dispatch

/-! ### Lists -/

section Lists

variable {pretty : Bool} {value : Str → Reply Json} {level : Nat}

/-- The rule reads the value behind white space, in front of anything that a number
    may be followed by. -/
def ReadsValue (env : JsonLocale) (pretty : Bool) (level : Nat) (value : Str → Reply Json) (v : Json) : Prop :=
  ∀ ws rest, Blank ws → Ends rest →
    value (ws ++ (output env pretty level v ++ rest)) = .hit v rest

theorem endArray_hit {ws : Str} (hws : Blank ws) (values : List Json) (rest : Str) :
    endArray values (ws ++ ']' :: rest) = .hit (.arr values) rest := by
  rw [endArray, ch_hit hws (by decide)]

theorem moreValues_output {values : List Json} (acc : List Json)
    (hvalue : ∀ v ∈ values, ReadsValue env pretty level value v) {rounds : Nat}
    (hrounds : values.length ≤ rounds) {ws : Str} (hws : Blank ws) (rest : Str) :
    moreValues value rounds acc (comma values ++ (newLine pretty ++
      (outputElements env pretty level values ++ (ws ++ ']' :: rest)))) =
      .hit (.arr (acc ++ values)) rest := by
  induction values generalizing acc rounds with
  | nil =>
    have hend := (blank_newLine pretty).append hws
    rw [outputElements, comma_nil, List.nil_append, List.nil_append, List.append_nil,
      ← List.append_assoc]
    cases rounds with
    | zero => exact endArray_hit hend acc rest
    | succ rounds =>
      rw [moreValues, ch_miss hend (by decide) rest (by decide)]
      exact endArray_hit hend acc rest
  | cons v values ih =>
    cases rounds with
    | zero => exact absurd hrounds (Nat.not_succ_le_zero _)
    | succ rounds =>
      have hcomma (s : Str) : ch ',' (',' :: s) = some s := ch_hit blank_nil (by decide) s
      have hends : Ends (comma values ++ (newLine pretty ++
          (outputElements env pretty level values ++ (ws ++ ']' :: rest)))) :=
        ends_more (fun h => by rw [h, outputElements]) hws (by decide) rest
      have hnext := hvalue v List.mem_cons_self _ _
        ((blank_newLine pretty).append (blank_indent pretty level)) hends
      -- The next value is behind the line break and its indentation.
      simp only [outputElements_cons, comma_cons, List.append_assoc, List.singleton_append]
      simp only [List.append_assoc] at hnext
      rw [moreValues, hcomma]
      dsimp only
      rw [hnext]
      dsimp only
      rw [ih _ (fun w hw => hvalue w (List.mem_cons_of_mem v hw)) (by simpa using hrounds),
        List.append_assoc, List.singleton_append]

/-- There are at least as many characters as values, so there are enough rounds. -/
theorem length_le_elements (values : List Json) (tail : Str) :
    values.length ≤ (comma values ++ (newLine pretty ++
      (outputElements env pretty level values ++ tail))).length := by
  induction values with
  | nil => exact Nat.zero_le _
  | cons v values ih =>
    rw [outputElements_cons]
    simp only [comma_cons, List.length_append, List.length_cons, List.length_nil] at ih ⊢
    omega

variable (env pretty) in
theorem length_output_le_elements (level : Nat) {values : List Json} {v : Json}
    (hv : v ∈ values) :
    (output env pretty level v).length ≤ (outputElements env pretty level values).length := by
  induction values with
  | nil => cases hv
  | cons w values ih =>
    rw [outputElements_cons]
    simp only [List.length_append]
    rcases List.mem_cons.mp hv with rfl | hv
    · omega
    · have := ih hv
      omega

theorem array_output {values : List Json}
    (hvalue : ∀ v ∈ values, ReadsValue env pretty level value v)
    (hclose : ∀ ws rest, Blank ws → value (ws ++ ']' :: rest) = .noMatch)
    {ws : Str} (hws : Blank ws) (rest : Str) :
    array_ value (newLine pretty ++ (outputElements env pretty level values ++
      (ws ++ ']' :: rest))) = .hit (.arr values) rest := by
  cases values with
  | nil =>
    have hend := (blank_newLine pretty).append hws
    rw [outputElements, List.nil_append, ← List.append_assoc, array_, hclose _ _ hend]
    exact endArray_hit hend [] rest
  | cons v values =>
    have hends : Ends (comma values ++ (newLine pretty ++
        (outputElements env pretty level values ++ (ws ++ ']' :: rest)))) :=
      ends_more (fun h => by rw [h, outputElements]) hws (by decide) rest
    have hfirst := hvalue v List.mem_cons_self _ _
      ((blank_newLine pretty).append (blank_indent pretty level)) hends
    simp only [outputElements_cons, List.append_assoc]
    simp only [List.append_assoc] at hfirst
    rw [array_, hfirst]
    exact moreValues_output [v] (fun w hw => hvalue w (List.mem_cons_of_mem v hw))
      (length_le_elements values _) hws rest

theorem pair_output {name : Str} (hname : ∀ c ∈ name, c.toNat < 256) {v : Json}
    (hvalue : ReadsValue env pretty level value v) (members : List (Str × Json))
    {ws : Str} (hws : Blank ws) {rest : Str} (hrest : Ends rest) :
    pair_ value members (ws ++ (outputStr env name ++ (space pretty ++ ':' :: (space pretty ++
      (output env pretty level v ++ rest))))) = .hit (Json.assign members name v) rest := by
  rw [pair_, string_outputStr hws hname]
  dsimp only
  rw [ch_hit (blank_space pretty) (by decide)]
  dsimp only
  rw [hvalue _ _ (blank_space pretty) hrest, getStr_addEscChars hname]

theorem endObject_hit {ws : Str} (hws : Blank ws) (members : List (Str × Json)) (rest : Str) :
    endObject members (ws ++ '\x7d' :: rest) = .hit (.obj members) rest := by
  rw [endObject, ch_hit hws (by decide)]

/-- A member whose name is behind all others comes last. -/
theorem assign_last {members : List (Str × Json)} {name : Str} (v : Json)
    (h : ∀ m ∈ members, m.1 < name) : Json.assign members name v = members ++ [(name, v)] := by
  unfold Json.assign
  induction members with
  | nil => rfl
  | cons m members ih =>
    have hlt : id m.1 < id name := h m List.mem_cons_self
    rw [OrderedMap.insertEntry, if_neg (not_lt_of_gt hlt), if_pos hlt,
      ih fun x hx => h x (List.mem_cons_of_mem m hx)]
    rfl

theorem morePairs_output {members : List (Str × Json)} (acc : List (Str × Json))
    (hsorted : (acc ++ members).Pairwise fun x y => x.1 < y.1)
    (hnames : ∀ m ∈ members, ∀ c ∈ m.1, c.toNat < 256)
    (hvalue : ∀ m ∈ members, ReadsValue env pretty level value m.2) {rounds : Nat}
    (hrounds : members.length ≤ rounds) {ws : Str} (hws : Blank ws) (rest : Str) :
    morePairs value rounds acc (comma members ++ (newLine pretty ++
      (outputMembers env pretty level members ++ (ws ++ '\x7d' :: rest)))) =
      .hit (.obj (acc ++ members)) rest := by
  induction members generalizing acc rounds with
  | nil =>
    have hend := (blank_newLine pretty).append hws
    rw [outputMembers, comma_nil, List.nil_append, List.nil_append, List.append_nil,
      ← List.append_assoc]
    cases rounds with
    | zero => exact endObject_hit hend acc rest
    | succ rounds =>
      rw [morePairs, ch_miss hend (by decide) rest (by decide)]
      exact endObject_hit hend acc rest
  | cons m members ih =>
    obtain ⟨name, v⟩ := m
    cases rounds with
    | zero => exact absurd hrounds (Nat.not_succ_le_zero _)
    | succ rounds =>
      have hcomma (s : Str) : ch ',' (',' :: s) = some s := ch_hit blank_nil (by decide) s
      have hends : Ends (comma members ++ (newLine pretty ++
          (outputMembers env pretty level members ++ (ws ++ '\x7d' :: rest)))) :=
        ends_more (fun h => by rw [h, outputMembers]) hws (by decide) rest
      have hnext := pair_output (hnames _ List.mem_cons_self) (hvalue _ List.mem_cons_self) acc
        ((blank_newLine pretty).append (blank_indent pretty level)) hends
      have hlast : Json.assign acc name v = acc ++ [(name, v)] := by
        apply assign_last
        intro x hx
        exact (List.pairwise_append.mp hsorted).2.2 x hx _ List.mem_cons_self
      rw [hlast] at hnext
      simp only [outputMembers_cons, comma_cons, List.append_assoc, List.cons_append,
        List.nil_append]
      simp only [List.append_assoc] at hnext
      rw [morePairs, hcomma]
      dsimp only
      rw [hnext]
      dsimp only
      rw [ih _ (by rwa [List.append_assoc]) (fun x hx => hnames x (List.mem_cons_of_mem _ hx))
        (fun x hx => hvalue x (List.mem_cons_of_mem _ hx)) (by simpa using hrounds),
        List.append_assoc, List.singleton_append]

theorem length_le_members (members : List (Str × Json)) (tail : Str) :
    members.length ≤ (comma members ++ (newLine pretty ++
      (outputMembers env pretty level members ++ tail))).length := by
  induction members with
  | nil => exact Nat.zero_le _
  | cons m members ih =>
    rw [outputMembers_cons]
    simp only [comma_cons, List.length_append, List.length_cons, List.length_nil] at ih ⊢
    omega

variable (env pretty) in
theorem length_output_le_members (level : Nat) {members : List (Str × Json)} {m : Str × Json}
    (hm : m ∈ members) :
    (output env pretty level m.2).length ≤ (outputMembers env pretty level members).length := by
  induction members with
  | nil => cases hm
  | cons m' members ih =>
    rw [outputMembers_cons]
    simp only [List.length_append, List.length_cons]
    rcases List.mem_cons.mp hm with rfl | hm
    · omega
    · have := ih hm
      omega

theorem object_output {members : List (Str × Json)}
    (hsorted : members.Pairwise fun x y => x.1 < y.1)
    (hnames : ∀ m ∈ members, ∀ c ∈ m.1, c.toNat < 256)
    (hvalue : ∀ m ∈ members, ReadsValue env pretty level value m.2)
    {ws : Str} (hws : Blank ws) (rest : Str) :
    object_ value (newLine pretty ++ (outputMembers env pretty level members ++
      (ws ++ '\x7d' :: rest))) = .hit (.obj members) rest := by
  cases members with
  | nil =>
    have hend := (blank_newLine pretty).append hws
    rw [outputMembers, List.nil_append, ← List.append_assoc, object_, pair_,
      string_miss hend (by decide) rest (by decide)]
    exact endObject_hit hend [] rest
  | cons m members =>
    obtain ⟨name, v⟩ := m
    have hends : Ends (comma members ++ (newLine pretty ++
        (outputMembers env pretty level members ++ (ws ++ '\x7d' :: rest)))) :=
      ends_more (fun h => by rw [h, outputMembers]) hws (by decide) rest
    have hfirst := pair_output (hnames _ List.mem_cons_self) (hvalue _ List.mem_cons_self) []
      ((blank_newLine pretty).append (blank_indent pretty level)) hends
    simp only [outputMembers_cons, List.append_assoc, List.cons_append]
    simp only [List.append_assoc] at hfirst
    rw [object_, hfirst]
    exact morePairs_output [(name, v)] hsorted (fun x hx => hnames x (List.mem_cons_of_mem _ hx))
      (fun x hx => hvalue x (List.mem_cons_of_mem _ hx)) (length_le_members members _) hws rest

end Lists

/-! ### Round trip -/

/-- What was written is read by as many levels as it has characters. -/
theorem value_output {v : Json} (hv : v.WellFormed fun _ => False) (pretty : Bool)
    {level depth : Nat} (hdepth : (output env pretty level v).length < depth) :
    ReadsValue env pretty level (value_ env depth) v := by
  induction hv generalizing level depth with
  | null =>
    intro ws rest hws _
    obtain ⟨depth, rfl⟩ := Nat.exists_eq_succ_of_ne_zero (Nat.ne_of_gt hdepth.pos)
    rw [output]
    exact value_literal hws depth (by decide) (by decide) (by decide) (by decide) (by decide) _
  | bool b =>
    intro ws rest hws _
    obtain ⟨depth, rfl⟩ := Nat.exists_eq_succ_of_ne_zero (Nat.ne_of_gt hdepth.pos)
    rw [output]
    cases b with
    | false =>
      exact value_literal hws depth (by decide) (by decide) (by decide) (by decide) (by decide) _
    | true =>
      exact value_literal hws depth (by decide) (by decide) (by decide) (by decide) (by decide) _
  | int lo hi =>
    rename_i n
    intro ws rest hws hrest
    obtain ⟨depth, rfl⟩ := Nat.exists_eq_succ_of_ne_zero (Nat.ne_of_gt hdepth.pos)
    obtain ⟨c, t, hct, hc, hquote⟩ := outputInt_head n
    have hstring : string_ (ws ++ (outputInt n ++ rest)) = none := by
      rw [hct, List.cons_append]
      exact string_miss hws hc _ hquote
    rw [output, value_, hstring, number_outputInt hws lo hi hrest]
  | real ok => exact ok.elim
  | str bytes =>
    intro ws rest hws _
    obtain ⟨depth, rfl⟩ := Nat.exists_eq_succ_of_ne_zero (Nat.ne_of_gt hdepth.pos)
    rw [output, value_, string_outputStr hws bytes]
    dsimp only
    rw [getStr_addEscChars bytes]
  | arr values_ok ih =>
    rename_i values
    intro ws rest hws _
    obtain ⟨depth, rfl⟩ := Nat.exists_eq_succ_of_ne_zero (Nat.ne_of_gt hdepth.pos)
    rw [output_arr] at hdepth ⊢
    -- The text of every value is shorter than that of the array.
    have hlength : ∀ w ∈ values, (output env pretty (level + 1) w).length < depth := by
      intro w hw
      have hle := length_output_le_elements env pretty (level + 1) hw
      simp only [List.length_cons, List.length_append] at hdepth
      omega
    simp only [List.cons_append, List.append_assoc, List.nil_append]
    rw [value_bracket hws]
    exact array_output (fun w hw => ih w hw (hlength w hw))
      (fun _ _ hblank => value_close hblank depth _) (blank_indent pretty level) rest
  | obj sorted names_ok values_ok ih =>
    rename_i members
    intro ws rest hws _
    obtain ⟨depth, rfl⟩ := Nat.exists_eq_succ_of_ne_zero (Nat.ne_of_gt hdepth.pos)
    rw [output_obj] at hdepth ⊢
    have hlength : ∀ m ∈ members, (output env pretty (level + 1) m.2).length < depth := by
      intro m hm
      have hle := length_output_le_members env pretty (level + 1) hm
      simp only [List.length_cons, List.length_append] at hdepth
      omega
    simp only [List.cons_append, List.append_assoc, List.nil_append]
    rw [value_brace hws]
    exact object_output sorted names_ok (fun m hm => ih m hm (hlength m hm))
      (blank_indent pretty level) rest

/-- A value without reals is read from what is written of it. -/
theorem readString_output {v : Json} (hv : v.WellFormed fun _ => False) (pretty : Bool)
    {rest : Str} (hrest : Ends rest) :
    readString env (writeString env v pretty ++ rest) = (true, v) := by
  have hdepth : (output env pretty 0 v).length < (writeString env v pretty ++ rest).length + 1 := by
    rw [writeString, List.length_append]
    omega
  have hread := value_output hv pretty hdepth [] rest blank_nil hrest
  rw [readString, writeString]
  rw [writeString, List.nil_append] at hread
  rw [hread]

/-- A value without reals is read from what is written of it, whether or not it is formatted
    and whatever stands behind it, and no other value is written in a way that starts with
    the same text. -/
theorem readString_writeString {v w : Json} (hv : v.WellFormed fun _ => False)
    (hw : w.WellFormed fun _ => False) (pretty pretty' : Bool) {rest rest' : Str}
    (hrest : Ends rest) (hrest' : Ends rest') :
    readString env (writeString env v pretty ++ rest) = (true, v) ∧
      (writeString env v pretty ++ rest = writeString env w pretty' ++ rest' → v = w) := by
  refine ⟨readString_output hv pretty hrest, fun heq => ?_⟩
  have hread : readString env (writeString env w pretty' ++ rest') = (true, w) :=
    readString_output hw pretty' hrest'
  rw [← heq, readString_output hv pretty hrest] at hread
  exact (Prod.mk.inj hread).2

/-- An object with a member whose text has to be escaped, formatted and with other text
    behind it. -/
theorem readString_writeString_object :
    readString ⟨fun c => 32 ≤ c ∧ c < 127, fun _ => [], fun _ => 0⟩
      (writeString ⟨fun c => 32 ≤ c ∧ c < 127, fun _ => [], fun _ => 0⟩
        (.obj [("id".toList, .str "a\"\n".toList), ("version".toList, .int 3)]) true ++
        " tail".toList) =
      (true, .obj [("id".toList, .str "a\"\n".toList), ("version".toList, .int 3)]) := by
  refine (readString_writeString (.obj (by decide) ?_ ?_) .null true false (ends_cons (by decide) _)
    (ends_cons (by decide : ¬ Char.isDigit ',' ∧ _) [])).1
  · simp
  · intro m hm
    rcases List.mem_cons.mp hm with rfl | hm
    · exact .str (by simp)
    · rw [List.mem_singleton.mp hm]
      exact .int (by decide) (by decide)

/-! ### What is read -/

/-- A text whose characters fit a `char`. -/
def OfBytes (s : Str) : Prop := ∀ c ∈ s, c.toNat < 256

theorem OfBytes.suffix {s rest : Str} (h : OfBytes s) (hrest : rest <:+ s) : OfBytes rest :=
  fun c hc => h c (hrest.subset hc)

theorem toNat_ofNat_mod (n : Nat) : (Char.ofNat (n % 256)).toNat < 256 := by
  have hvalid : (n % 256).isValidChar := .inl (by omega)
  rw [Char.toNat_ofNat, if_pos hvalid]
  omega

theorem ofBytes_shortEscape (c : Char) : OfBytes (shortEscape c) := by
  unfold shortEscape OfBytes
  repeat' split
  all_goals simp

/-- Undoing the escapes of bytes gives bytes. -/
theorem ofBytes_getStr {s : Str} (hs : OfBytes s) : OfBytes (getStr s) := by
  unfold getStr
  fun_induction substituteEscChars s with
  | case1 => exact hs
  | case2 c => exact hs
  | case3 c1 c2 s ih =>
    intro d hd
    rcases List.mem_cons.mp hd with rfl | hd
    · exact toNat_ofNat_mod _
    · exact ih (hs.suffix (List.suffix_append ['\\', 'x', c1, c2] s)) d hd
  | case4 c1 c2 c3 c4 s ih =>
    intro d hd
    rcases List.mem_cons.mp hd with rfl | hd
    · exact toNat_ofNat_mod _
    · exact ih (hs.suffix (List.suffix_append ['\\', 'u', c1, c2, c3, c4] s)) d hd
  | case5 c s _ _ ih =>
    intro d hd
    rcases List.mem_append.mp hd with hd | hd
    · exact ofBytes_shortEscape c d hd
    · exact ih (hs.suffix (List.suffix_append ['\\', c] s)) d hd
  | case6 c d s _ _ _ ih =>
    intro x hx
    rcases List.mem_cons.mp hx with rfl | hx
    · exact hs _ List.mem_cons_self
    · exact ih (hs.suffix (List.suffix_cons c _)) x hx

theorem skip_suffix (s : Str) : skip s <:+ s := List.dropWhile_suffix _

theorem ch_suffix {c : Char} {s rest : Str} (h : ch c s = some rest) : rest <:+ s := by
  unfold ch at h
  split at h
  · rename_i d tail heq
    split at h
    · obtain rfl := Option.some.inj h
      exact (List.suffix_cons d _).trans (heq ▸ skip_suffix s)
    · cases h
  · cases h

theorem lexEscapes_append (s : Str) : (lexEscapes s).1 ++ (lexEscapes s).2 = s := by
  fun_induction lexEscapes s with
  | case1 => rfl
  | case2 => rfl
  | case3 c s h => rfl
  | case4 c s h ih => rw [List.cons_append, List.cons_append, ih]
  | case5 s => rfl
  | case6 c s _ _ h ih => rw [List.cons_append, ih]

theorem string_suffix {s text rest : Str} (h : string_ s = some (text, rest)) :
    (OfBytes s → OfBytes text) ∧ rest <:+ s := by
  unfold string_ at h
  split at h
  · rename_i tail heq
    split at h
    · rename_i text' rest' hlex
      obtain ⟨rfl, rfl⟩ := Prod.mk.inj (Option.some.inj h)
      have happend := lexEscapes_append tail
      rw [hlex] at happend
      dsimp only at happend
      have htail : tail <:+ s := (List.suffix_cons '"' tail).trans (heq ▸ skip_suffix s)
      constructor
      · intro hs c hc
        apply hs c
        apply htail.subset
        rw [← happend]
        exact List.mem_append_left _ hc
      · refine List.IsSuffix.trans ?_ htail
        rw [← happend]
        exact (List.suffix_cons '"' _).trans (List.suffix_append _ _)
    · cases h
  · cases h

theorem digitRun_suffix (s : Str) : (digitRun s).2 <:+ s := List.dropWhile_suffix _

theorem splitSign_suffix (s : Str) : (splitSign s).2 <:+ s := by
  unfold splitSign
  split
  · exact List.suffix_cons _ _
  · exact List.suffix_cons _ _
  · exact List.suffix_refl _

theorem exponent_suffix {s rest : Str} (h : exponent s = some (some rest)) : rest <:+ s := by
  unfold exponent at h
  split at h
  · rename_i c tail
    split at h
    · split at h
      · cases h
      · rename_i heq
        obtain rfl := Option.some.inj (Option.some.inj h)
        refine List.IsSuffix.trans ?_ (List.suffix_cons c tail)
        have hrun := digitRun_suffix (splitSign tail).2
        rw [heq] at hrun
        exact hrun.trans (splitSign_suffix tail)
    · cases h
  · cases h

theorem strictReal_suffix {s rest : Str} (h : strictReal s = some rest) : rest <:+ s := by
  have hsign := (digitRun_suffix (splitSign s).2).trans (splitSign_suffix s)
  unfold strictReal at h
  split at h
  · rename_i digits tail heq
    rw [heq] at hsign
    have htail : tail <:+ s := (List.suffix_cons '.' tail).trans hsign
    have hfraction := (digitRun_suffix tail).trans htail
    split at h
    rename_i hrun
    rw [hrun] at hfraction
    split at h
    · cases h
    split at h
    · rename_i heq'
      rw [h] at heq'
      exact (exponent_suffix heq').trans hfraction
    · obtain rfl := Option.some.inj h
      exact hfraction
  · rename_i heq
    rw [heq] at hsign
    split at h
    · cases h
    · exact (exponent_suffix (Option.join_eq_some_iff.mp h)).trans hsign

theorem int64_range {s rest : Str} {n : Int} (h : int64 s = some (n, rest)) :
    -2 ^ 63 ≤ n ∧ n < 2 ^ 64 ∧ rest <:+ s := by
  have hsign := (digitRun_suffix (splitSign s).2).trans (splitSign_suffix s)
  unfold int64 at h
  split at h
  rename_i negative tail heq
  rw [heq] at hsign
  split at h
  · cases h
  · rename_i heq'
    rw [heq'] at hsign
    dsimp only at h
    generalize (if negative = true then _ else _ : Int) = v at h
    split at h
    · cases h
    · obtain ⟨rfl, rfl⟩ := Prod.mk.inj (Option.some.inj h)
      exact ⟨by omega, by omega, hsign⟩

theorem uint64_range {s rest : Str} {n : Int} (h : uint64 s = some (n, rest)) :
    -2 ^ 63 ≤ n ∧ n < 2 ^ 64 ∧ rest <:+ s := by
  have hrun := digitRun_suffix s
  unfold uint64 at h
  split at h
  · cases h
  · rename_i heq
    rw [heq] at hrun
    split at h
    · cases h
    · obtain ⟨rfl, rfl⟩ := Prod.mk.inj (Option.some.inj h)
      exact ⟨by omega, by omega, hrun⟩

/-- Any double may be read. -/
abbrev AnyReal : Float → Prop := fun _ => True

theorem number_wellFormed {s rest : Str} {v : Json} (h : number_ env s = some (v, rest)) :
    v.WellFormed AnyReal ∧ rest <:+ s := by
  unfold number_ at h
  dsimp only at h
  split at h
  · rename_i heq
    obtain ⟨rfl, rfl⟩ := Prod.mk.inj (Option.some.inj h)
    exact ⟨.real trivial, (strictReal_suffix heq).trans (skip_suffix s)⟩
  split at h
  · rename_i heq
    obtain ⟨rfl, rfl⟩ := Prod.mk.inj (Option.some.inj h)
    obtain ⟨hlo, hhi, hrest⟩ := int64_range heq
    exact ⟨.int hlo hhi, hrest.trans (skip_suffix s)⟩
  · obtain ⟨⟨n, rest'⟩, heq, heq'⟩ := Option.map_eq_some_iff.mp h
    obtain ⟨rfl, rfl⟩ := Prod.mk.inj heq'
    obtain ⟨hlo, hhi, hrest⟩ := uint64_range heq
    exact ⟨.int hlo hhi, hrest.trans (skip_suffix s)⟩

theorem word_suffix {w s rest : Str} (h : word w s = some rest) : rest <:+ s := by
  unfold word at h
  split at h
  · obtain rfl := Option.some.inj h
    exact (List.drop_suffix _ _).trans (skip_suffix s)
  · cases h

/-- Both what a rule reads and what it leaves behind when it throws satisfies `P`, and
    the text that is left is the end of the text. -/
def Reply.Good {α : Type} (P : α → Prop) (s : Str) : Reply α → Prop
  | .noMatch => True
  | .hit a rest => P a ∧ rest <:+ s
  | .thrown a _ => P a

theorem Reply.Good.suffix {α : Type} {P : α → Prop} {s s' : Str} {reply : Reply α}
    (h : reply.Good P s') (hs : s' <:+ s) : reply.Good P s := by
  cases reply with
  | noMatch => trivial
  | hit a rest => exact ⟨h.1, h.2.trans hs⟩
  | thrown a reason => exact h

theorem literal_good (s : Str) : (literal s).Good (Json.WellFormed AnyReal) s := by
  unfold literal
  split
  · exact ⟨.bool true, word_suffix ‹_›⟩
  split
  · exact ⟨.bool false, word_suffix ‹_›⟩
  split
  · exact ⟨.null, word_suffix ‹_›⟩
  · trivial

/-- The assignment of a member to an object. -/
theorem wellFormed_assign {realOk : Float → Prop} {members : List (Str × Json)} {name : Str}
    {v : Json} (h : (Json.obj members).WellFormed realOk) (hname : OfBytes name)
    (hv : v.WellFormed realOk) : (Json.obj (Json.assign members name v)).WellFormed realOk := by
  cases h with
  | obj sorted names_ok values_ok =>
    have hmem : ∀ m ∈ Json.assign members name v,
        (m.1 = name ∨ ∃ m' ∈ members, m.1 = m'.1) ∧ (m.2 = v ∨ m ∈ members) := by
      unfold Json.assign
      clear sorted names_ok values_ok
      induction members with
      | nil =>
        intro m hm
        rw [List.mem_singleton.mp hm]
        exact ⟨.inl rfl, .inl rfl⟩
      | cons x members ih =>
        intro m hm
        rw [OrderedMap.insertEntry] at hm
        split at hm
        · rcases List.mem_cons.mp hm with rfl | hm
          · exact ⟨.inl rfl, .inl rfl⟩
          · exact ⟨.inr ⟨m, hm, rfl⟩, .inr hm⟩
        split at hm
        · rcases List.mem_cons.mp hm with rfl | hm
          · exact ⟨.inr ⟨m, List.mem_cons_self, rfl⟩, .inr List.mem_cons_self⟩
          · obtain ⟨hfst, hsnd⟩ := ih m hm
            refine ⟨hfst.imp_right ?_, hsnd.imp_right (List.mem_cons_of_mem x)⟩
            rintro ⟨m', hm', heq⟩
            exact ⟨m', List.mem_cons_of_mem x hm', heq⟩
        · rcases List.mem_cons.mp hm with rfl | hm
          · exact ⟨.inr ⟨x, List.mem_cons_self, rfl⟩, .inl rfl⟩
          · exact ⟨.inr ⟨m, List.mem_cons_of_mem x hm, rfl⟩, .inr (List.mem_cons_of_mem x hm)⟩
    have hsorted : (Json.assign members name v).Pairwise fun x y => id x.1 < id y.1 :=
      OrderedMap.sorted_insertEntry sorted
    refine .obj hsorted ?_ ?_
    · intro m hm
      rcases (hmem m hm).1 with heq | ⟨m', hm', heq⟩
      · rw [heq]
        exact hname
      · rw [heq]
        exact names_ok m' hm'
    · intro m hm
      rcases (hmem m hm).2 with heq | hm'
      · rw [heq]
        exact hv
      · exact values_ok m hm'

section Rules

variable {value : Str → Reply Json}
  (hvalue : ∀ s, OfBytes s → (value s).Good (Json.WellFormed AnyReal) s)
include hvalue

theorem pair_good {members : List (Str × Json)} (hm : (Json.obj members).WellFormed AnyReal)
    {s : Str} (hs : OfBytes s) :
    (pair_ value members s).Good (fun ms => (Json.obj ms).WellFormed AnyReal) s := by
  unfold pair_
  split
  · trivial
  · rename_i text rest hstring
    obtain ⟨htext, hrest⟩ := string_suffix hstring
    split
    · exact hm
    · rename_i behind hcolon
      have hbehind := (ch_suffix hcolon).trans hrest
      have hgood := hvalue behind (hs.suffix hbehind)
      cases hread : value behind with
      | noMatch => exact hm
      | hit v rest' =>
        rw [hread] at hgood
        exact ⟨wellFormed_assign hm (ofBytes_getStr (htext hs)) hgood.1, hgood.2.trans hbehind⟩
      | thrown v reason =>
        rw [hread] at hgood
        exact wellFormed_assign hm (ofBytes_getStr (htext hs)) hgood

omit hvalue in
theorem endObject_good {members : List (Str × Json)} (hm : (Json.obj members).WellFormed AnyReal)
    (s : Str) : (endObject members s).Good (Json.WellFormed AnyReal) s := by
  unfold endObject
  split
  · exact ⟨hm, ch_suffix ‹_›⟩
  · exact hm

theorem morePairs_good {rounds : Nat} {members : List (Str × Json)}
    (hm : (Json.obj members).WellFormed AnyReal) {s : Str} (hs : OfBytes s) :
    (morePairs value rounds members s).Good (Json.WellFormed AnyReal) s := by
  induction rounds generalizing members s with
  | zero => exact endObject_good hm s
  | succ rounds ih =>
    rw [morePairs]
    split
    · exact endObject_good hm s
    · rename_i rest hcomma
      have hrest := ch_suffix hcomma
      have hpair := pair_good hvalue hm (hs.suffix hrest)
      cases hread : pair_ value members rest with
      | noMatch => exact endObject_good hm s
      | hit members' rest' =>
        rw [hread] at hpair
        have hrest' := hpair.2.trans hrest
        exact (ih hpair.1 (hs.suffix hrest')).suffix hrest'
      | thrown members' reason =>
        rw [hread] at hpair
        exact hpair

theorem object_good {s : Str} (hs : OfBytes s) :
    (object_ value s).Good (Json.WellFormed AnyReal) s := by
  have hempty : (Json.obj []).WellFormed AnyReal :=
    .obj List.Pairwise.nil (fun m hm => absurd hm List.not_mem_nil)
      (fun m hm => absurd hm List.not_mem_nil)
  have hpair := pair_good hvalue hempty hs
  unfold object_
  cases hread : pair_ value [] s with
  | noMatch => exact endObject_good hempty s
  | hit members rest =>
    rw [hread] at hpair
    exact (morePairs_good hvalue hpair.1 (hs.suffix hpair.2)).suffix hpair.2
  | thrown members reason =>
    rw [hread] at hpair
    exact hpair

omit hvalue in
theorem wellFormed_push {values : List Json} {v : Json} (h : (Json.arr values).WellFormed AnyReal)
    (hv : v.WellFormed AnyReal) : (Json.arr (values ++ [v])).WellFormed AnyReal := by
  cases h with
  | arr values_ok =>
    refine .arr fun w hw => ?_
    rcases List.mem_append.mp hw with hw | hw
    · exact values_ok w hw
    · rw [List.mem_singleton.mp hw]
      exact hv

omit hvalue in
theorem endArray_good {values : List Json} (hv : (Json.arr values).WellFormed AnyReal) (s : Str) :
    (endArray values s).Good (Json.WellFormed AnyReal) s := by
  unfold endArray
  split
  · exact ⟨hv, ch_suffix ‹_›⟩
  · exact hv

theorem moreValues_good {rounds : Nat} {values : List Json}
    (hv : (Json.arr values).WellFormed AnyReal) {s : Str} (hs : OfBytes s) :
    (moreValues value rounds values s).Good (Json.WellFormed AnyReal) s := by
  induction rounds generalizing values s with
  | zero => exact endArray_good hv s
  | succ rounds ih =>
    rw [moreValues]
    split
    · exact endArray_good hv s
    · rename_i rest hcomma
      have hrest := ch_suffix hcomma
      have hgood := hvalue rest (hs.suffix hrest)
      cases hread : value rest with
      | noMatch => exact endArray_good hv s
      | hit v rest' =>
        rw [hread] at hgood
        have hrest' := hgood.2.trans hrest
        exact (ih (wellFormed_push hv hgood.1) (hs.suffix hrest')).suffix hrest'
      | thrown v reason =>
        rw [hread] at hgood
        exact wellFormed_push hv hgood

theorem array_good {s : Str} (hs : OfBytes s) :
    (array_ value s).Good (Json.WellFormed AnyReal) s := by
  have hempty : (Json.arr []).WellFormed AnyReal := .arr fun v hv => absurd hv List.not_mem_nil
  have hgood := hvalue s hs
  unfold array_
  cases hread : value s with
  | noMatch => exact endArray_good hempty s
  | hit v rest =>
    rw [hread] at hgood
    exact (moreValues_good hvalue (wellFormed_push hempty hgood.1) (hs.suffix hgood.2)).suffix hgood.2
  | thrown v reason =>
    rw [hread] at hgood
    exact wellFormed_push hempty hgood

end Rules

theorem value_good (depth : Nat) {s : Str} (hs : OfBytes s) :
    (value_ env depth s).Good (Json.WellFormed AnyReal) s := by
  induction depth generalizing s with
  | zero => trivial
  | succ depth ih =>
    rw [value_]
    split
    · rename_i text rest hstring
      obtain ⟨htext, hrest⟩ := string_suffix hstring
      exact ⟨.str (ofBytes_getStr (htext hs)), hrest⟩
    split
    · exact number_wellFormed ‹_›
    split
    · rename_i rest hbrace
      have hrest := ch_suffix hbrace
      exact (object_good (fun _ => ih) (hs.suffix hrest)).suffix hrest
    split
    · rename_i rest hbracket
      have hrest := ch_suffix hbracket
      exact (array_good (fun _ => ih) (hs.suffix hrest)).suffix hrest
    · exact literal_good s

/-- Whatever the text is, and wherever reading it stops, the value that is left is one
    that json_spirit can hold; and if it has no reals, writing and reading it does not change it. -/
theorem readString_wellFormed {s : Str} (hs : OfBytes s) :
    (readString env s).2.WellFormed AnyReal ∧
      ((readString env s).2.WellFormed (fun _ => False) → ∀ pretty,
        readString env (writeString env (readString env s).2 pretty) =
          (true, (readString env s).2)) := by
  constructor
  · have hgood : (value_ env (s.length + 1) s).Good _ s := value_good _ hs
    unfold readString
    cases hread : value_ env (s.length + 1) s with
    | noMatch => exact .null
    | hit v rest =>
      rw [hread] at hgood
      exact hgood.1
    | thrown v reason =>
      rw [hread] at hgood
      exact hgood
  · intro hv pretty
    have hend : Ends [] := fun c hc => absurd hc (by simp)
    have hread : readString env (writeString env _ pretty ++ []) = _ :=
      readString_output hv pretty hend
    rwa [List.append_nil] at hread

/-- A text that ends in the middle of an array. -/
theorem readString_wellFormed_cut :
    (readString ⟨fun c => 32 ≤ c ∧ c < 127, fun _ => [], fun _ => 0⟩
      "[1, [2, ".toList).2.WellFormed AnyReal :=
  (readString_wellFormed (by unfold OfBytes; simp)).1

end JsonSpirit

end ConfluxSdk
