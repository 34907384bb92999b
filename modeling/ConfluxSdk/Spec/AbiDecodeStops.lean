import ConfluxSdk.ForStd.Walk
import ConfluxSdk.Spec.AbiDecodeOrder
import ConfluxSdk.Spec.AbiFixArray

/-!
# Where a decoder stops

Whether a decoder finds its data, and where it stops, depends on the bytes and on the
types of the objects, not on their values. `Param.stop` passes over the data of an
object without decoding anything.

## Key results

- `Param.decode_stop`, `ParamSet.decode_stop`: a decoder stops where the walk over the data
  does
- `setStop_advances`: a set whose data are found has its heads in the data
-/

namespace ConfluxSdk.Abi

/-! ### Walking over the data -/

/-- Behind a word, if the data reach that far. -/
def wordStop (buf : Bytes) (pos : Nat) : Option Nat := (decodeWord buf pos).map Prod.snd

/-- Behind a length and as many bytes. -/
def bytesStop (buf : Bytes) (pos : Nat) : Except StdError (Option Nat) :=
  match decodeWord buf pos with
  | none => .ok none
  | some (len, start) =>
    if 2 ^ 64 ≤ len.val ∨ buf.size < sizeT (start + len.val) then .ok none
    else if sizeT (start + len.val) < start then .error .lengthError
    else .ok (some (alignFrom pos (sizeT (start + len.val))))

/-- Behind `n` bytes. -/
def bytesFixStop (buf : Bytes) (n pos : Nat) : Option Nat :=
  if buf.size < sizeT (pos + n) then none else some (alignFrom pos (sizeT (pos + n)))

section Collections

variable (buf : Bytes) (stop : Param → Nat → Except StdError (Option Nat))

/-- Behind the head of a member: a static member, or the offset of a dynamic one. -/
def headStop (p : Param) (pos : Nat) : Except StdError (Option Nat) :=
  if p.isDynamic then .ok (wordStop buf pos) else stop p pos

/-- Behind the tail of a member; a static member has none. -/
def tailStop (p : Param) (pos : Nat) : Except StdError (Option Nat) :=
  if p.isDynamic then stop p pos else .ok (some pos)

/-- Behind the heads and the tails of a set. -/
def setStop (ps : List Param) (pos : Nat) : Except StdError (Option Nat) :=
  onward (walk (headStop buf stop) ps pos) fun tails => walk (tailStop stop) ps tails

/-- Behind the elements of an array, rounded up to whole words from `origPos`. -/
def valuesStop (ps : List Param) (origPos pos : Nat) : Except StdError (Option Nat) :=
  onward (setStop buf stop ps pos) fun next => .ok (some (alignFrom origPos next))

/-- Behind the number of elements, if there is one, and as many elements. -/
def elemsStop (readLength : Bool) (ps : List Param) (pos : Nat) : Except StdError (Option Nat) :=
  if readLength then
    match decodeWord buf pos with
    | none => .ok none
    | some (len, start) =>
      if 2 ^ 64 ≤ len.val ∨ ps.length = 0 ∨ len.val < ps.length then .ok none
      else growTo ps len.val >>= fun ps' => valuesStop buf stop ps' pos start
  else valuesStop buf stop ps pos pos

end Collections

/-- Behind an object, cut off below the given nesting depth. -/
def Param.stopTo (buf : Bytes) : Nat → Param → Nat → Except StdError (Option Nat)
  | _, .number .., pos | _, .uintN .., pos | _, .intN .., pos | _, .address _, pos =>
    .ok (wordStop buf pos)
  | _, .byteArray _, pos | _, .string _, pos => bytesStop buf pos
  | _, .byteArrayFix n _, pos => .ok (bytesFixStop buf n pos)
  | 0, _, _ => .ok none
  | fuel + 1, .array ps, pos => elemsStop buf (Param.stopTo buf fuel) true ps pos
  | fuel + 1, .arrayFix ps, pos => elemsStop buf (Param.stopTo buf fuel) (firstIsDynamic ps) ps pos
  | fuel + 1, .parameters ps, pos => setStop buf (Param.stopTo buf fuel) ps pos

/-- Behind an object. -/
def Param.stop (buf : Bytes) (p : Param) (pos : Nat) : Except StdError (Option Nat) :=
  p.stopTo buf p.depth pos

/-! ### The decoder walks over the data -/

/-- Where a decoder stopped, if it succeeded. -/
def stopOf {α : Type} (res : Bool × α × Nat) : Option Nat := if res.1 then some res.2.2 else none

theorem stop_keep {α β : Type} (x : Except StdError (Bool × α × Nat)) (f : α → β) :
    (x >>= fun res => .ok (res.1, f res.2.1, res.2.2)).map stopOf = x.map stopOf := by
  cases x <;> rfl

theorem stop_decode_cons (x : Except StdError (Bool × Param × Nat))
    (rest : Nat → Except StdError (Bool × List Param × Nat)) (ps : List Param) :
    (x >>= fun res => if res.1 then
        rest res.2.2 >>= fun res' => .ok (res'.1, res.2.1 :: res'.2.1, res'.2.2)
      else .ok (false, res.2.1 :: ps, res.2.2)).map stopOf =
      onward (x.map stopOf) fun next => (rest next).map stopOf := by
  cases x with
  | error e => rfl
  | ok res =>
    obtain ⟨ok, p', next⟩ := res
    cases ok with
    | false => rfl
    | true => exact stop_keep (rest next) (p' :: ·)

theorem decodeBytes_stop (buf : Bytes) (decoded : Data) (pos : Nat) :
    (decodeBytes buf decoded pos).map stopOf = bytesStop buf pos := by
  unfold decodeBytes bytesStop
  cases decodeWord buf pos with
  | none => rfl
  | some w =>
    obtain ⟨len, start⟩ := w
    dsimp only
    by_cases hlen : len.val < 2 ^ 64
    · rw [sizeT_of_lt hlen, if_neg (not_not.mpr rfl)]
      by_cases hroom : buf.size < sizeT (start + len.val)
      · rw [if_pos hroom, if_pos (.inr hroom)]
        rfl
      · rw [if_neg hroom, if_neg (not_or.mpr ⟨Nat.not_le.mpr hlen, hroom⟩)]
        split <;> rfl
    · rw [if_pos (ne_sizeT_iff.mpr (Nat.not_lt.mp hlen)), if_pos (.inl (Nat.not_lt.mp hlen))]
      rfl

theorem decodeBytesFix_stop (buf : Bytes) (n : Nat) (decoded : Data) (pos : Nat) :
    stopOf (decodeBytesFix buf n decoded pos) = bytesFixStop buf n pos := by
  unfold decodeBytesFix bytesFixStop
  split <;> rfl

section Passes

variable {buf : Bytes} {dec : Param → Nat → Except StdError (Bool × Param × Nat)}
  {stop : Param → Nat → Except StdError (Option Nat)}
  (hstop : ∀ p pos, (dec p pos).map stopOf = stop p pos)
include hstop

theorem decodeHeads_stop (ps : List Param) (pos : Nat) :
    (decodeHeads buf dec ps pos).map stopOf = walk (headStop buf stop) ps pos := by
  induction ps generalizing pos with
  | nil => rfl
  | cons p ps ih =>
    rw [walk, decodeHeads, headStop]
    cases p.isDynamic with
    | true =>
      rw [if_pos rfl, if_pos rfl, wordStop]
      cases decodeWord buf pos with
      | none => rfl
      | some w => exact (stop_keep _ (p :: ·)).trans (ih w.2)
    | false =>
      rw [if_neg Bool.false_ne_true, if_neg Bool.false_ne_true, ← hstop]
      refine (stop_decode_cons (dec p pos) (decodeHeads buf dec ps) ps).trans ?_
      congr 1
      funext next
      exact ih next

theorem decodeTails_stop (ps : List Param) (pos : Nat) :
    (decodeTails dec ps pos).map stopOf = walk (tailStop stop) ps pos := by
  induction ps generalizing pos with
  | nil => rfl
  | cons p ps ih =>
    rw [walk, decodeTails, tailStop]
    cases p.isDynamic with
    | true =>
      rw [if_pos rfl, if_pos rfl, ← hstop]
      refine (stop_decode_cons (dec p pos) (decodeTails dec ps) ps).trans ?_
      congr 1
      funext next
      exact ih next
    | false =>
      rw [if_neg Bool.false_ne_true, if_neg Bool.false_ne_true]
      exact (stop_keep _ (p :: ·)).trans (ih pos)

variable (hdec : ∀ p pos, (dec p pos).Ensures fun res => res.2.1.isDynamic = p.isDynamic)
include hdec

theorem decodeSet_stop (ps : List Param) (pos : Nat) :
    (decodeSet buf dec ps pos).map stopOf = setStop buf stop ps pos := by
  have hleft := isDynamic_decodeHeads buf hdec ps pos
  rw [setStop, ← decodeHeads_stop hstop, decodeSet]
  cases hheads : decodeHeads buf dec ps pos with
  | error e => rfl
  | ok res =>
    have hsame := hleft res hheads
    obtain ⟨ok, ps', tails⟩ := res
    cases ok with
    | false => rfl
    | true =>
      -- What the second pass reads was left by the first one.
      refine (decodeTails_stop hstop ps' tails).trans ?_
      apply walk_congr (hsame.flip.imp _)
      intro p' p hkept
      obtain ⟨hd, heq⟩ := hkept
      unfold tailStop
      rw [hd]
      cases hp : p.isDynamic with
      | true => rw [heq hp]
      | false => rfl

theorem decodeValues_stop (ps : List Param) (origPos pos : Nat) :
    (decodeValues buf dec ps origPos pos).map stopOf = valuesStop buf stop ps origPos pos := by
  rw [valuesStop, ← decodeSet_stop hstop hdec, decodeValues]
  cases decodeSet buf dec ps pos with
  | error e => rfl
  | ok res =>
    obtain ⟨ok, ps', off⟩ := res
    cases ok <;> rfl

theorem decodeElems_stop (readLength : Bool) (ps : List Param) (pos : Nat) :
    (decodeElems buf dec readLength ps pos).map stopOf = elemsStop buf stop readLength ps pos := by
  unfold decodeElems elemsStop
  cases readLength with
  | false => exact decodeValues_stop hstop hdec ps pos pos
  | true =>
    rw [if_pos rfl, if_pos rfl]
    cases decodeWord buf pos with
    | none => rfl
    | some w =>
      obtain ⟨len, start⟩ := w
      dsimp only
      by_cases hlen : len.val < 2 ^ 64
      · rw [sizeT_of_lt hlen, if_neg (not_not.mpr rfl)]
        by_cases hcount : ps.length = 0 ∨ len.val < ps.length
        · rw [if_pos hcount, if_pos (.inr hcount)]
          rfl
        · rw [if_neg hcount, if_neg (not_or.mpr ⟨Nat.not_le.mpr hlen, hcount⟩)]
          cases growTo ps len.val with
          | error e => rfl
          | ok ps' => exact decodeValues_stop hstop hdec ps' pos start
      · rw [if_pos (ne_sizeT_iff.mpr (Nat.not_lt.mp hlen)), if_pos (.inl (Nat.not_lt.mp hlen))]
        rfl

end Passes

theorem stopTo_leaf (buf : Bytes) (fuel : Nat) {p : Param} (hleaf : p.depth = 0) (pos : Nat) :
    (p.decodeTo buf fuel pos).map stopOf = p.stopTo buf fuel pos := by
  cases p with
  | number t val | uintN bits val | intN bits val | address val =>
    rw [Param.decodeTo, Param.stopTo, wordStop]
    cases decodeWord buf pos <;> rfl
  | byteArray bytes | string bytes =>
    rw [Param.decodeTo, Param.stopTo, ← decodeBytes_stop buf bytes pos]
    exact stop_keep _ _
  | byteArrayFix n bytes =>
    rw [Param.decodeTo, Param.stopTo, ← decodeBytesFix_stop buf n bytes pos]
    rfl
  | array ps | arrayFix ps | parameters ps => cases hleaf

/-- A decoder stops where the walk over the data does. -/
theorem decodeTo_stop (buf : Bytes) (fuel : Nat) (p : Param) (pos : Nat) :
    (p.decodeTo buf fuel pos).map stopOf = p.stopTo buf fuel pos := by
  induction fuel generalizing p pos with
  | zero =>
    cases p with
    | array ps | arrayFix ps | parameters ps => rfl
    | _ => exact stopTo_leaf buf 0 rfl pos
  | succ fuel ih =>
    -- The elements are decoded with one unit of fuel less.
    have hdec := isDynamic_decodeTo buf fuel
    cases p with
    | array ps =>
      rw [Param.decodeTo, Param.stopTo, ← decodeElems_stop ih hdec]
      exact stop_keep _ _
    | arrayFix ps =>
      rw [Param.decodeTo, Param.stopTo, ← decodeElems_stop ih hdec]
      exact stop_keep _ _
    | parameters ps =>
      rw [Param.decodeTo, Param.stopTo, ← decodeSet_stop ih hdec]
      exact stop_keep _ _
    | _ => exact stopTo_leaf buf (fuel + 1) rfl pos

theorem Param.decode_stop (buf : Bytes) (p : Param) (pos : Nat) :
    (p.decode buf pos).map stopOf = p.stop buf pos :=
  decodeTo_stop buf p.depth p pos

/-- The members of a set are decoded where the walk over their data leads. -/
theorem ParamSet.decode_stop (buf : Bytes) (ps : List Param) (pos : Nat) :
    (ParamSet.decode buf ps pos).map stopOf = setStop buf (Param.stop buf) ps pos := by
  rw [ParamSet.decode_eq]
  exact decodeSet_stop (Param.decode_stop buf) (fun p pos => isDynamic_decodeTo buf p.depth p pos)
    ps pos

/-! ### How far a head goes -/

mutual
/-- A static object that is a single word of the data. -/
def Param.word : Param → Bool
  | .number .. | .uintN .. | .intN .. | .address _ => true
  | .byteArrayFix n _ => decide (1 ≤ n ∧ n ≤ 32)
  | .arrayFix ps => onlyWord ps
  | .byteArray _ | .string _ | .array _ | .parameters _ => false

def onlyWord : List Param → Bool
  | [p] => p.word
  | _ => false
end

theorem onlyWord_iff {ps : List Param} :
    onlyWord ps = true ↔ ∃ p, ps = [p] ∧ p.word = true := by
  cases ps with
  | nil => simp [onlyWord]
  | cons p ps => cases ps <;> simp [onlyWord]

theorem Param.isDynamic_of_word {p : Param} (h : p.word = true) : p.isDynamic = false := by
  induction p using Param.inductionOn with
  | number | uintN | intN | address | byteArrayFix => rfl
  | byteArray | string | array | parameters => exact absurd h (by simp [Param.word])
  | arrayFix ps ih =>
    obtain ⟨p, rfl, hp⟩ := onlyWord_iff.mp h
    exact ih p List.mem_cons_self hp

section Advance

variable {buf : Bytes} {pos next : Nat}

theorem wordStop_advances (hpos : pos < buf.size + 32) (h : wordStop buf pos = some next) :
    next = pos + 32 ∧ next < buf.size + 32 := by
  rw [wordStop, Option.map_eq_some_iff] at h
  obtain ⟨⟨w, _⟩, hword, rfl⟩ := h
  exact decodeWord_stops hword hpos

theorem bytesFixStop_advances {n : Nat} (hn : n < 2 ^ 31) (hpos : pos < buf.size + 32)
    (h : bytesFixStop buf n pos = some next) :
    next = pos + paddedTo32 n ∧ next < buf.size + 32 := by
  have hsize : buf.size < 2 ^ 63 := buf.size_lt
  unfold bytesFixStop at h
  rw [sizeT_of_lt (by omega)] at h
  split at h
  · cases h
  · rename_i hroom
    rw [alignFrom_add (by omega)] at h
    obtain rfl := Option.some.inj h
    refine ⟨rfl, ?_⟩
    simp only [paddedTo32]
    omega

theorem stopTo_word (fuel : Nat) {p : Param} (hword : p.word = true) (hpos : pos < buf.size + 32)
    (h : p.stopTo buf fuel pos = .ok (some next)) : next = pos + 32 ∧ next < buf.size + 32 := by
  have hsize : buf.size < 2 ^ 63 := buf.size_lt
  induction p using Param.inductionOn generalizing fuel pos next with
  | number | uintN | intN | address =>
    rw [Param.stopTo] at h
    exact wordStop_advances hpos (Except.ok.inj h)
  | byteArrayFix n bytes =>
    rw [Param.stopTo] at h
    simp only [Param.word, decide_eq_true_eq] at hword
    obtain ⟨rfl, hlt⟩ := bytesFixStop_advances (by omega) hpos (Except.ok.inj h)
    have hpad : paddedTo32 n = 32 := by
      simp only [paddedTo32]
      omega
    rw [hpad] at hlt ⊢
    exact ⟨rfl, hlt⟩
  | byteArray | string | array | parameters => exact absurd hword (by simp [Param.word])
  | arrayFix ps ih =>
    obtain ⟨p, rfl, hp⟩ := onlyWord_iff.mp hword
    have hstatic := Param.isDynamic_of_word hp
    cases fuel with
    | zero => cases h
    | succ fuel =>
      -- The array is its only element, which has a head and no tail.
      have hfirst : firstIsDynamic [p] = false := hstatic
      rw [Param.stopTo, hfirst] at h
      obtain ⟨stop, hset, halign⟩ := onward_eq_some.mp h
      obtain ⟨tails, hheads, htails⟩ := onward_eq_some.mp hset
      obtain ⟨next', hhead, hnil⟩ := onward_eq_some.mp hheads
      rw [headStop, if_neg (by simp [hstatic])] at hhead
      obtain ⟨rfl, hlt⟩ := ih p List.mem_cons_self fuel hp hpos hhead
      obtain rfl : pos + 32 = tails := by simpa [walk] using hnil
      obtain rfl : pos + 32 = stop := by simpa [walk, tailStop, hstatic, onward] using htails
      rw [alignFrom_dvd (Nat.dvd_refl 32) (by omega)] at halign
      obtain rfl : pos + 32 = next := by simpa using halign
      exact ⟨rfl, hlt⟩

/-- A member whose head takes at least a word of the data. -/
def Param.HasHead (p : Param) : Prop :=
  p.isDynamic = true ∨ p.word = true ∨ ∃ n bytes, p = .byteArrayFix n bytes ∧ 0 < n ∧ n < 2 ^ 31

theorem headStop_advances {p : Param} (hp : p.HasHead) (hpos : pos < buf.size + 32)
    (h : headStop buf (Param.stop buf) p pos = .ok (some next)) :
    pos + 32 ≤ next ∧ next < buf.size + 32 := by
  unfold headStop at h
  -- The head of a dynamic member is its offset.
  by_cases hdynamic : p.isDynamic = true
  · rw [if_pos hdynamic] at h
    obtain ⟨rfl, hlt⟩ := wordStop_advances hpos (Except.ok.inj h)
    exact ⟨Nat.le_refl _, hlt⟩
  · rw [if_neg hdynamic] at h
    rcases hp with hp | hword | ⟨n, bytes, rfl, hn, hlt⟩
    · exact absurd hp hdynamic
    · obtain ⟨rfl, hlt⟩ := stopTo_word p.depth hword hpos h
      exact ⟨Nat.le_refl _, hlt⟩
    · obtain ⟨rfl, hlt⟩ := bytesFixStop_advances hlt hpos (Except.ok.inj h)
      refine ⟨?_, hlt⟩
      simp only [paddedTo32]
      omega

/-- A set that is found has its heads in the data. -/
theorem setStop_advances {ps : List Param} (hps : ∀ p ∈ ps, p.HasHead) (hpos : pos < buf.size + 32)
    (h : setStop buf (Param.stop buf) ps pos = .ok (some next)) :
    pos + 32 * ps.length < buf.size + 32 := by
  obtain ⟨tails, hheads, _⟩ := onward_eq_some.mp h
  obtain ⟨hle, hlt⟩ := walk_advances
    (fun p hp pos next hpos hhead => headStop_advances (hps p hp) hpos hhead) hpos hheads
  omega

end Advance

end ConfluxSdk.Abi
