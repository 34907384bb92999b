import Mathlib

/-!
# Texts that can be told from what follows

A value is written in front of other text, and what follows it is empty or starts with a stop
symbol. A way of writing *reads* a value when no other value, followed by anything of that kind,
gives the same text. Words without stop symbols are read, quoted texts over a prefix code
are, and so are lists of values that are read, with a separator and a closing bracket.
-/

namespace Delimited

variable {α β : Type}

/-- The text is empty or starts with a stop symbol. -/
def Stops (stop : β → Prop) (u : List β) : Prop := ∀ c, u.head? = some c → stop c

/-- In front of a stop, the text of `a` is the text of nothing else. -/
def Reads (stop : β → Prop) (write : α → List β) (a : α) : Prop :=
  ∀ b u v, Stops stop u → Stops stop v → write a ++ u = write b ++ v → a = b ∧ u = v

variable {stop : β → Prop} {u v : List β}

theorem stops_nil : Stops stop [] := by
  intro c hc
  cases hc

theorem stops_cons {c : β} (hc : stop c) : Stops stop (c :: u) := by
  intro d hd
  rw [← Option.some.inj hd]
  exact hc

/-- What is read is written in one way only. -/
theorem Reads.eq_of_write_eq {write : α → List β} {a b : α} (h : Reads stop write a)
    (heq : write a = write b) : a = b :=
  (h b [] [] stops_nil stops_nil (by rw [heq])).1

/-! ### Words -/

/-- A word ends where the first stop symbol is. -/
theorem word_append_inj {w w' : List β} (hw : ∀ c ∈ w, ¬ stop c) (hw' : ∀ c ∈ w', ¬ stop c)
    (hu : Stops stop u) (hv : Stops stop v) (h : w ++ u = w' ++ v) : w = w' ∧ u = v := by
  induction w generalizing w' with
  | nil =>
    cases w' with
    | nil => exact ⟨rfl, h⟩
    | cons c w' =>
      have hhead : u.head? = some c := by
        rw [List.nil_append] at h
        rw [h]
        rfl
      exact absurd (hu c hhead) (hw' c List.mem_cons_self)
  | cons c w ih =>
    cases w' with
    | nil =>
      have hhead : v.head? = some c := by
        rw [List.nil_append] at h
        rw [← h]
        rfl
      exact absurd (hv c hhead) (hw c List.mem_cons_self)
    | cons d w' =>
      rw [List.cons_append, List.cons_append, List.cons_eq_cons] at h
      obtain ⟨rfl, htail⟩ := h
      obtain ⟨rfl, huv⟩ := ih (fun x hx => hw x (List.mem_cons_of_mem _ hx))
        (fun x hx => hw' x (List.mem_cons_of_mem _ hx)) htail
      exact ⟨rfl, huv⟩

/-! ### Quoted texts -/

/-- A code in which every symbol can be told from what follows, and from a closing quote. -/
structure Code (quote : β) (enc : α → List β) : Prop where
  inj : ∀ a b u v, enc a ++ u = enc b ++ v → a = b ∧ u = v
  ne_quote : ∀ a u v, enc a ++ u ≠ quote :: v

/-- A quoted text ends at its quote. -/
theorem Code.quoted_inj {quote : β} {enc : α → List β} (hcode : Code quote enc) {l m : List α}
    (h : l.flatMap enc ++ quote :: u = m.flatMap enc ++ quote :: v) : l = m ∧ u = v := by
  induction l generalizing m with
  | nil =>
    cases m with
    | nil => exact ⟨rfl, List.tail_eq_of_cons_eq h⟩
    | cons b m =>
      rw [List.flatMap_cons, List.append_assoc] at h
      exact absurd h.symm (hcode.ne_quote b _ _)
  | cons a l ih =>
    rw [List.flatMap_cons, List.append_assoc] at h
    cases m with
    | nil => exact absurd h (hcode.ne_quote a _ _)
    | cons b m =>
      rw [List.flatMap_cons, List.append_assoc] at h
      obtain ⟨rfl, htail⟩ := hcode.inj a b _ _ h
      obtain ⟨rfl, huv⟩ := ih htail
      exact ⟨rfl, huv⟩

/-! ### Lists -/

/-- The texts of the values, with a separator between them. -/
def separated (sep : β) (write : α → List β) : List α → List β
  | [] => []
  | a :: l => write a ++ l.flatMap fun b => sep :: write b

/-- `separated`, with the separator after all values but the last. -/
theorem separated_cons (sep : β) (write : α → List β) (a : α) (l : List α) :
    separated sep write (a :: l) =
      write a ++ (if l.isEmpty then [] else [sep]) ++ separated sep write l := by
  cases l <;> simp [separated]

theorem separated_map {γ : Type} (sep : β) (write : α → List β) (f : γ → α) (l : List γ) :
    separated sep write (l.map f) = separated sep (write ∘ f) l := by
  cases l with
  | nil => rfl
  | cons a l => rw [List.map_cons, separated, separated, List.flatMap_map, Function.comp_apply]; rfl

section Lists

variable {sep close : β} {write : α → List β}

theorem flatMap_inj (hsep : stop sep) (hclose : stop close) (hne : sep ≠ close) {l m : List α}
    (hl : ∀ a ∈ l, Reads stop write a)
    (h : (l.flatMap fun b => sep :: write b) ++ close :: u =
      (m.flatMap fun b => sep :: write b) ++ close :: v) : l = m ∧ u = v := by
  -- After a value comes a separator or the bracket.
  have hstops : ∀ (k : List α) (w : List β),
      Stops stop ((k.flatMap fun b => sep :: write b) ++ close :: w) := by
    intro k w
    cases k with
    | nil => exact stops_cons hclose
    | cons c k => exact stops_cons hsep
  induction l generalizing m with
  | nil =>
    cases m with
    | nil => exact ⟨rfl, List.tail_eq_of_cons_eq h⟩
    | cons b m => exact absurd (List.head_eq_of_cons_eq h).symm hne
  | cons a l ih =>
    cases m with
    | nil => exact absurd (List.head_eq_of_cons_eq h) hne
    | cons b m =>
      simp only [List.flatMap_cons, List.cons_append, List.append_assoc] at h
      have htail := List.tail_eq_of_cons_eq h
      obtain ⟨rfl, hrest⟩ := hl a List.mem_cons_self b _ _ (hstops l u) (hstops m v) htail
      obtain ⟨rfl, huv⟩ := ih (fun x hx => hl x (List.mem_cons_of_mem _ hx)) hrest
      exact ⟨rfl, huv⟩

/-- A list in brackets is read when its values are and no text starts like a bracket. -/
theorem separated_inj (hsep : stop sep) (hclose : stop close) (hne : sep ≠ close)
    (hstart : ∀ b w t, write b ++ w ≠ close :: t) {l m : List α}
    (hl : ∀ a ∈ l, Reads stop write a)
    (h : separated sep write l ++ close :: u = separated sep write m ++ close :: v) :
    l = m ∧ u = v := by
  cases l with
  | nil =>
    cases m with
    | nil => exact ⟨rfl, List.tail_eq_of_cons_eq h⟩
    | cons b m =>
      rw [separated, separated, List.append_assoc] at h
      exact absurd h.symm (hstart b _ _)
  | cons a l =>
    rw [separated, List.append_assoc] at h
    cases m with
    | nil => exact absurd h (hstart a _ _)
    | cons b m =>
      rw [separated, List.append_assoc] at h
      -- Both are a value, then a list of values with a separator before each.
      have hcons : ((a :: l).flatMap fun b => sep :: write b) ++ close :: u =
          ((b :: m).flatMap fun b => sep :: write b) ++ close :: v := by
        simp only [List.flatMap_cons, List.cons_append, List.append_assoc]
        rw [h]
      exact flatMap_inj hsep hclose hne hl hcons

end Lists

end Delimited
