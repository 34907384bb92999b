import Mathlib

/-!
# Head/tail layouts

A sequence of parts is laid out in two sections. A static part is written into
the head section; a dynamic part leaves a pointer there, and its body follows
in the tail section. The pointer is the distance from the start of the heads to
the body.

The pointer encoding `ptr` is a parameter: any function into lists of one fixed
length `w`. The main results are `layout_pointer` and `layout_body`: the
pointer of a dynamic part is found at its place in the heads, and dropping as
many symbols as it says uncovers the body.
-/

namespace HeadTail

/-- One component of a layout. -/
structure Part (α : Type*) where
  dynamic : Bool
  body : List α

variable {α : Type*}

/-- What a part leaves to the tail section. -/
def Part.tail (p : Part α) : List α := if p.dynamic then p.body else []

/-- The tail section. -/
def tails (ps : List (Part α)) : List α := ps.flatMap Part.tail

variable (ptr : Nat → List α) (w : Nat)

/-- How much room a part takes in the head section. -/
def Part.headLength (p : Part α) : Nat := if p.dynamic then w else p.body.length

/-- Length of the head section. -/
def headsLength (ps : List (Part α)) : Nat := (ps.map (Part.headLength w)).sum

/-- Distance from the start of the heads to the body of the `i`-th part. -/
def offset (ps : List (Part α)) (i : Nat) : Nat :=
  headsLength w ps + (tails (ps.take i)).length

/-- The head section. -/
def heads (ps : List (Part α)) : List α :=
  ps.zipIdx.flatMap fun pi => if pi.1.dynamic then ptr (offset w ps pi.2) else pi.1.body

/-- The whole layout: all heads, then all tails. -/
def layout (ps : List (Part α)) : List α := heads ptr w ps ++ tails ps

/-- The head section written by one pass that carries the next offset along. -/
def headsFrom : Nat → List (Part α) → List α
  | _, [] => []
  | acc, p :: ps => (if p.dynamic then ptr acc else p.body) ++ headsFrom (acc + p.tail.length) ps

/-! ### Appending -/

@[simp] theorem tails_nil : tails ([] : List (Part α)) = [] := rfl

@[simp] theorem tails_cons (p : Part α) (ps : List (Part α)) :
    tails (p :: ps) = p.tail ++ tails ps := rfl

theorem tails_append (ps qs : List (Part α)) : tails (ps ++ qs) = tails ps ++ tails qs := by
  simp [tails]

@[simp] theorem headsLength_cons (p : Part α) (ps : List (Part α)) :
    headsLength w (p :: ps) = p.headLength w + headsLength w ps := by
  simp [headsLength]

theorem headsFrom_append (acc : Nat) (ps qs : List (Part α)) :
    headsFrom ptr acc (ps ++ qs) =
      headsFrom ptr acc ps ++ headsFrom ptr (acc + (tails ps).length) qs := by
  induction ps generalizing acc with
  | nil => simp [headsFrom]
  | cons p ps ih =>
    simp only [List.cons_append, headsFrom, ih, tails_cons, List.length_append,
      List.append_assoc, Nat.add_assoc]

/-! ### The one-pass writer -/

/-- The indexed definition of the heads and the one-pass writer agree. -/
theorem heads_eq_headsFrom (ps : List (Part α)) :
    heads ptr w ps = headsFrom ptr (headsLength w ps) ps := by
  -- Generalise over the parts already written, so that the index and the
  -- carried offset can move together.
  suffices h : ∀ (done rest : List (Part α)), done ++ rest = ps →
      ((rest.zipIdx done.length).flatMap fun pi =>
        if pi.1.dynamic then ptr (offset w ps pi.2) else pi.1.body) =
        headsFrom ptr (headsLength w ps + (tails done).length) rest by
    simpa [heads] using h [] ps rfl
  intro done rest
  induction rest generalizing done with
  | nil => intro _; rfl
  | cons p rest ih =>
    intro hps
    have hih := ih (done ++ [p]) (by simpa using hps)
    rw [List.length_append, List.length_singleton, tails_append, List.length_append,
      tails_cons, tails_nil, List.append_nil, ← Nat.add_assoc] at hih
    have hoff : offset w ps done.length = headsLength w ps + (tails done).length := by
      rw [offset, ← hps, List.take_left]
    simp only [List.zipIdx_cons, List.flatMap_cons, hoff, headsFrom, hih]

variable {ptr w}

theorem length_headsFrom (hptr : ∀ n, (ptr n).length = w) (acc : Nat) (ps : List (Part α)) :
    (headsFrom ptr acc ps).length = headsLength w ps := by
  induction ps generalizing acc with
  | nil => rfl
  | cons p ps ih =>
    simp only [headsFrom, List.length_append, ih, headsLength_cons, Part.headLength]
    split <;> simp [hptr]

theorem length_layout (hptr : ∀ n, (ptr n).length = w) (ps : List (Part α)) :
    (layout ptr w ps).length = headsLength w ps + (tails ps).length := by
  rw [layout, List.length_append, heads_eq_headsFrom, length_headsFrom hptr]

/-- Room a part takes in the whole layout. -/
def Part.room (w : Nat) (p : Part α) : Nat := p.headLength w + p.tail.length

theorem Part.room_eq (w : Nat) (p : Part α) :
    p.room w = (if p.dynamic then w else 0) + p.body.length := by
  rw [Part.room, Part.headLength, Part.tail]
  cases p.dynamic <;> simp

/-- A layout is as long as its parts need room. -/
theorem length_layout_eq_sum (hptr : ∀ n, (ptr n).length = w) (ps : List (Part α)) :
    (layout ptr w ps).length = (ps.map (Part.room w)).sum := by
  rw [length_layout hptr]
  induction ps with
  | nil => rfl
  | cons p ps ih =>
    rw [headsLength_cons, tails_cons, List.length_append, List.map_cons, List.sum_cons, Part.room,
      ← ih]
    omega

/-! ### Where pointers lead -/

/-- The pointer of a dynamic part sits behind the heads of the parts before it. -/
theorem layout_pointer (hptr : ∀ n, (ptr n).length = w) (pre post : List (Part α))
    (p : Part α) (hp : p.dynamic = true) :
    ptr (offset w (pre ++ p :: post) pre.length) <+:
      (layout ptr w (pre ++ p :: post)).drop (headsLength w pre) := by
  have hoff : offset w (pre ++ p :: post) pre.length =
      headsLength w (pre ++ p :: post) + (tails pre).length := by
    rw [offset, List.take_left]
  rw [layout, heads_eq_headsFrom, headsFrom_append, hoff, List.append_assoc,
    List.drop_left' (length_headsFrom hptr _ pre)]
  simp only [headsFrom, hp, if_true, List.append_assoc]
  exact List.prefix_append _ _

/-- Following the pointer of a dynamic part leads to its body. -/
theorem layout_body (hptr : ∀ n, (ptr n).length = w) (pre post : List (Part α))
    (p : Part α) (hp : p.dynamic = true) :
    p.body <+: (layout ptr w (pre ++ p :: post)).drop
      (offset w (pre ++ p :: post) pre.length) := by
  have hheads : (heads ptr w (pre ++ p :: post)).length = headsLength w (pre ++ p :: post) := by
    rw [heads_eq_headsFrom, length_headsFrom hptr]
  have hoff : offset w (pre ++ p :: post) pre.length =
      headsLength w (pre ++ p :: post) + (tails pre).length := by
    rw [offset, List.take_left]
  rw [layout, hoff, ← List.drop_drop, List.drop_left' hheads, tails_append,
    List.drop_left' rfl, tails_cons, Part.tail, if_pos hp]
  exact List.prefix_append _ _

end HeadTail
