/-
FtServer/Decoder.lean

Records decoded from a list of items.  A `Field` says which items it accepts,
how it converts one, and how the result is read from and put into the record.
`decode` goes through the items in order and gives each to the first field that
accepts it; items that no field accepts are skipped, and a conversion that fails
ends the whole.

* `decode_congr`: items that all fields treat alike are decoded alike;
* `decode_ok_iff`: decoding succeeds exactly when no item is refused;
* `decode_eq_reading`: for fields that do not interfere, what is decoded is the
  `reading`: each field has the value of the last item it accepts, or the value
  it started with (`get_reading`, `exists_decode`).

The items, the errors and the record are arbitrary.
-/
import Mathlib.Data.List.Forall2
import Mathlib.Data.List.Induction

namespace FtServer

namespace Decoder

/-- One field of a record `α`, filled from items `π`. -/
structure Field (π ε α : Type) where
  accepts : π → Bool
  β : Type
  conv : π → Except ε β
  get : α → β
  set : β → α → α

variable {π ε α : Type}

/-! ### Decoding -/

/-- Convert the item and put the result into the record. -/
def Field.assign (f : Field π ε α) (x : π) (p : α) : Except ε α := do
  let y ← f.conv x
  pure (f.set y p)

/-- One item goes to the first field that accepts it. -/
def step : List (Field π ε α) → α → π → Except ε α
  | [], p, _ => pure p
  | f :: fs, p, x => if f.accepts x then f.assign x p else step fs p x

/-- All items in order. -/
def decode (fields : List (Field π ε α)) (init : α) (xs : List π) : Except ε α :=
  xs.foldlM (step fields) init

/-- The field that the item goes to cannot convert it. -/
def refuses : List (Field π ε α) → π → Bool
  | [], _ => false
  | f :: fs, x =>
    if f.accepts x then
      match f.conv x with
      | .ok _ => false
      | .error _ => true
    else refuses fs x

@[simp] theorem decode_nil (fields : List (Field π ε α)) (init : α) :
    decode fields init [] = .ok init := rfl

theorem decode_cons (fields : List (Field π ε α)) (init : α) (x : π) (xs : List π) :
    decode fields init (x :: xs) = (step fields init x).bind fun p => decode fields p xs := rfl

theorem decode_concat (fields : List (Field π ε α)) (init : α) (xs : List π) (x : π) :
    decode fields init (xs ++ [x]) = (decode fields init xs).bind fun p => step fields p x := by
  rw [decode, List.foldlM_append]
  simp only [List.foldlM_cons, List.foldlM_nil, bind_pure]
  rfl

theorem decode_no_fields (init : α) (xs : List π) :
    decode ([] : List (Field π ε α)) init xs = .ok init := by
  induction xs with
  | nil => rfl
  | cons x xs ih => exact ih

/-- The field treats the two items alike. -/
def Field.Alike (f : Field π ε α) (x y : π) : Prop :=
  f.accepts x = f.accepts y ∧ f.conv x = f.conv y

theorem step_congr {fields : List (Field π ε α)} {x y : π} (h : ∀ f ∈ fields, f.Alike x y) (p : α) :
    step fields p x = step fields p y := by
  induction fields with
  | nil => rfl
  | cons f fs ih =>
    obtain ⟨⟨hacc, hconv⟩, hfs⟩ := List.forall_mem_cons.mp h
    rw [step, step, hacc, Field.assign, Field.assign, hconv, ih hfs]

/-- Items that all fields treat alike are decoded alike. -/
theorem decode_congr {fields : List (Field π ε α)} {xs ys : List π}
    (h : List.Forall₂ (fun x y => ∀ f ∈ fields, f.Alike x y) xs ys) (init : α) :
    decode fields init xs = decode fields init ys := by
  induction h generalizing init with
  | nil => rfl
  | cons hxy _ ih =>
    rw [decode_cons, decode_cons, step_congr hxy]
    exact bind_congr ih

/-! ### When decoding succeeds -/

/-- A step goes wrong exactly on an item that is refused. -/
theorem step_ok_iff (fields : List (Field π ε α)) (p : α) (x : π) :
    (∃ q, step fields p x = .ok q) ↔ refuses fields x = false := by
  induction fields with
  | nil => simp [step, refuses, pure, Except.pure]
  | cons f fs ih =>
    rw [step, refuses]
    split
    · rcases hc : f.conv x with e | y
      · simp [Field.assign, hc, bind, Except.bind]
      · simp [Field.assign, hc, bind, Except.bind, pure, Except.pure]
    · exact ih

/-- **Decoding succeeds exactly when no item is refused.** -/
theorem decode_ok_iff (fields : List (Field π ε α)) (init : α) (xs : List π) :
    (∃ q, decode fields init xs = .ok q) ↔ ∀ x ∈ xs, refuses fields x = false := by
  induction xs generalizing init with
  | nil => simp
  | cons x xs ih =>
    rw [decode_cons, List.forall_mem_cons, ← step_ok_iff fields init x]
    rcases hs : step fields init x with e | p
    · simp [Except.bind]
    · simp only [Except.bind, ih p, Except.ok.injEq, exists_eq', true_and]

/-! ### Reading -/

/-- The last item that the field accepts. -/
def Field.last (f : Field π ε α) (xs : List π) : Option π := (xs.filter f.accepts).getLast?

/-- Its value, or `d` if there is none. -/
def Field.value (f : Field π ε α) (xs : List π) (d : f.β) : f.β :=
  match f.last xs with
  | none => d
  | some x =>
    match f.conv x with
    | .ok y => y
    | .error _ => d

/-- The record in which each field has the value of the last item it accepts. -/
def reading (fields : List (Field π ε α)) (init : α) (xs : List π) : α :=
  fields.foldl (fun p f => f.set (f.value xs (f.get init)) p) init

theorem Field.last_concat_of_accepts {f : Field π ε α} {x : π} (h : f.accepts x = true)
    (xs : List π) : f.last (xs ++ [x]) = some x := by
  simp [last, h]

theorem Field.last_concat_of_not {f : Field π ε α} {x : π} (h : f.accepts x = false)
    (xs : List π) : f.last (xs ++ [x]) = f.last xs := by
  simp [last, h]

/-- The value is the one to start with, or that of an item. -/
theorem Field.value_cases (f : Field π ε α) (xs : List π) (d : f.β) :
    f.value xs d = d ∨ ∃ x ∈ xs, f.conv x = .ok (f.value xs d) := by
  rw [value]
  split
  · exact .inl rfl
  · rename_i x hlast
    have hx : x ∈ xs := List.mem_of_mem_filter (List.mem_of_getLast? hlast)
    rcases hc : f.conv x with e | y
    · exact .inl rfl
    · exact .inr ⟨x, hx, hc⟩

/-- Of two lists the second counts, if it has an item for the field. -/
theorem Field.value_append_of_accepts {f : Field π ε α} {ys : List π}
    (h : ∃ y ∈ ys, f.accepts y = true) (xs : List π) (d : f.β) :
    f.value (xs ++ ys) d = f.value ys d := by
  obtain ⟨y, hy, hacc⟩ := h
  have hne : ys.filter f.accepts ≠ [] := List.ne_nil_of_mem (List.mem_filter.mpr ⟨hy, hacc⟩)
  rw [value, value, last, List.filter_append, List.getLast?_append_of_ne_nil _ hne, last]

theorem Field.value_append_of_not {f : Field π ε α} {ys : List π}
    (h : ∀ y ∈ ys, f.accepts y = false) (xs : List π) (d : f.β) :
    f.value (xs ++ ys) d = f.value xs d := by
  have hnil : ys.filter f.accepts = [] := List.filter_eq_nil_iff.mpr (by simpa using h)
  rw [value, value, last, List.filter_append, hnil, List.append_nil, last]

/-- Items that a field treats alike have the same value. -/
theorem Field.value_congr {f : Field π ε α} {xs ys : List π} (h : List.Forall₂ f.Alike xs ys)
    (d : f.β) : f.value xs d = f.value ys d := by
  have hmap : (xs.filter f.accepts).map f.conv = (ys.filter f.accepts).map f.conv := by
    induction h with
    | nil => rfl
    | cons hxy _ ih =>
      rw [List.filter_cons, List.filter_cons, hxy.1]
      split
      · rw [List.map_cons, List.map_cons, hxy.2, ih]
      · exact ih
  have hlast : (f.last xs).map f.conv = (f.last ys).map f.conv := by
    rw [last, last, ← List.getLast?_map, hmap, List.getLast?_map]
  unfold value
  cases hx : f.last xs with
  | none =>
    cases hy : f.last ys with
    | none => rfl
    | some y => simp [hx, hy] at hlast
  | some x =>
    cases hy : f.last ys with
    | none => simp [hx, hy] at hlast
    | some y =>
      simp only [hx, hy, Option.map_some, Option.some.injEq] at hlast
      simp only [hlast]

/-- Items that the field does not accept do not count. -/
theorem Field.value_filter {f : Field π ε α} {p : π → Bool} {xs : List π}
    (h : ∀ x ∈ xs, f.accepts x = true → p x = true) (d : f.β) :
    f.value (xs.filter p) d = f.value xs d := by
  have hfilter : (xs.filter p).filter f.accepts = xs.filter f.accepts := by
    rw [List.filter_filter]
    refine List.filter_congr fun x hx => ?_
    by_cases hacc : f.accepts x = true
    · rw [hacc, h x hx hacc, Bool.and_true]
    · rw [Bool.not_eq_true] at hacc
      rw [hacc, Bool.false_and]
  rw [value, value, last, last, hfilter]

/-! ### Fields that do not interfere -/

/-- Assignments to one field overwrite, those to two fields commute, assigning
what is there changes nothing, and what is read is what was assigned last. -/
structure Lawful (fields : List (Field π ε α)) : Prop where
  overwrite : ∀ f ∈ fields, ∀ y z p, f.set y (f.set z p) = f.set y p
  commute : fields.Pairwise fun f g => ∀ y z p, f.set y (g.set z p) = g.set z (f.set y p)
  restore : ∀ f ∈ fields, ∀ p, f.set (f.get p) p = p
  get_set : ∀ f ∈ fields, ∀ y p, f.get (f.set y p) = y
  frame : fields.Pairwise fun f g => ∀ y p, f.get (g.set y p) = f.get p

namespace Lawful

theorem nil : Lawful ([] : List (Field π ε α)) := by
  constructor <;> simp

theorem cons {f : Field π ε α} {fs : List (Field π ε α)} (h : Lawful fs)
    (overwrite : ∀ y z p, f.set y (f.set z p) = f.set y p)
    (restore : ∀ p, f.set (f.get p) p = p) (get_set : ∀ y p, f.get (f.set y p) = y)
    (apart : ∀ g ∈ fs, (∀ y z p, f.set y (g.set z p) = g.set z (f.set y p)) ∧
      ∀ y p, f.get (g.set y p) = f.get p) : Lawful (f :: fs) where
  overwrite := List.forall_mem_cons.mpr ⟨overwrite, h.overwrite⟩
  commute := List.pairwise_cons.mpr ⟨fun g hg => (apart g hg).1, h.commute⟩
  restore := List.forall_mem_cons.mpr ⟨restore, h.restore⟩
  get_set := List.forall_mem_cons.mpr ⟨get_set, h.get_set⟩
  frame := List.pairwise_cons.mpr ⟨fun g hg => (apart g hg).2, h.frame⟩

theorem tail {f : Field π ε α} {fs : List (Field π ε α)} (h : Lawful (f :: fs)) : Lawful fs where
  overwrite := fun g hg => h.overwrite g (List.mem_cons_of_mem _ hg)
  commute := (List.pairwise_cons.mp h.commute).2
  restore := fun g hg => h.restore g (List.mem_cons_of_mem _ hg)
  get_set := fun g hg => h.get_set g (List.mem_cons_of_mem _ hg)
  frame := (List.pairwise_cons.mp h.frame).2

end Lawful

/-- At most one field accepts the item. -/
def Separate (fields : List (Field π ε α)) (x : π) : Prop :=
  fields.Pairwise fun f g => f.accepts x = true → g.accepts x = false

/-- The fold of `reading`, from any record. -/
def fill (init : α) (xs : List π) (fields : List (Field π ε α)) (q : α) : α :=
  fields.foldl (fun p f => f.set (f.value xs (f.get init)) p) q

/-- Without items nothing changes. -/
theorem reading_nil {fields : List (Field π ε α)} (h : Lawful fields) (init : α) :
    reading fields init [] = init := by
  have hfill : ∀ fs : List (Field π ε α), (∀ f ∈ fs, f ∈ fields) → fill init [] fs init = init := by
    intro fs hfs
    induction fs with
    | nil => rfl
    | cons f fs ih =>
      show fill init [] fs (f.set (f.get init) init) = init
      rw [h.restore f (hfs f List.mem_cons_self) init]
      exact ih fun g hg => hfs g (List.mem_cons_of_mem _ hg)
  exact hfill fields fun _ => id

/-- An assignment moves past the fields it commutes with. -/
theorem set_fill {f : Field π ε α} {fs : List (Field π ε α)}
    (h : ∀ g ∈ fs, ∀ y z p, f.set y (g.set z p) = g.set z (f.set y p)) (init : α) (xs : List π)
    (y : f.β) (q : α) : f.set y (fill init xs fs q) = fill init xs fs (f.set y q) := by
  induction fs generalizing q with
  | nil => rfl
  | cons g fs ih =>
    show f.set y (fill init xs fs (g.set _ q)) = fill init xs fs (g.set _ (f.set y q))
    rw [ih (fun k hk => h k (List.mem_cons_of_mem _ hk)), h g List.mem_cons_self]

/-- Fields that do not accept the item keep their values. -/
theorem fill_concat_of_not {fs : List (Field π ε α)} {x : π}
    (h : ∀ g ∈ fs, g.accepts x = false) (init : α) (xs : List π) (q : α) :
    fill init (xs ++ [x]) fs q = fill init xs fs q := by
  refine List.foldl_ext _ _ _ fun p g hg => ?_
  rw [Field.value, Field.value, Field.last_concat_of_not (h g hg)]

/-- Filling other fields does not change what a field reads. -/
theorem get_fill {f : Field π ε α} {fs : List (Field π ε α)}
    (h : ∀ g ∈ fs, ∀ y p, f.get (g.set y p) = f.get p) (init : α) (xs : List π) (q : α) :
    f.get (fill init xs fs q) = f.get q := by
  induction fs generalizing q with
  | nil => rfl
  | cons g fs ih =>
    show f.get (fill init xs fs (g.set _ q)) = f.get q
    rw [ih (fun k hk => h k (List.mem_cons_of_mem _ hk)), h g List.mem_cons_self]

/-- In the reading, each field has the value of the last item it accepts. -/
theorem get_reading {fields : List (Field π ε α)} (h : Lawful fields) (init : α) (xs : List π) :
    ∀ f ∈ fields, f.get (reading fields init xs) = f.value xs (f.get init) := by
  have hfill : ∀ q, ∀ f ∈ fields, f.get (fill init xs fields q) = f.value xs (f.get init) := by
    induction fields with
    | nil => simp
    | cons g fs ih =>
      intro q f hf
      rcases List.mem_cons.mp hf with rfl | hf
      · show f.get (fill init xs fs (f.set _ q)) = _
        rw [get_fill (List.pairwise_cons.mp h.frame).1, h.get_set f List.mem_cons_self]
      · exact ih h.tail _ f hf
  exact hfill init

/-- One more item: the step of the decoder is the step of the reading. -/
theorem step_fill {fields : List (Field π ε α)} (h : Lawful fields) {x : π}
    (hsep : Separate fields x) (hconv : refuses fields x = false) (init : α) (xs : List π)
    (q : α) : step fields (fill init xs fields q) x = .ok (fill init (xs ++ [x]) fields q) := by
  induction fields generalizing q with
  | nil => rfl
  | cons f fs ih =>
    have hf := (List.pairwise_cons.mp h.commute).1
    obtain ⟨hs, hsep⟩ := List.pairwise_cons.mp hsep
    rw [refuses] at hconv
    show step (f :: fs) (fill init xs fs (f.set (f.value xs (f.get init)) q)) x =
      .ok (fill init (xs ++ [x]) fs (f.set (f.value (xs ++ [x]) (f.get init)) q))
    rw [step]
    by_cases ha : f.accepts x = true
    · rw [if_pos ha] at hconv ⊢
      rcases hc : f.conv x with e | y
      · simp [hc] at hconv
      · -- the new value replaces the old one, and the other fields are as before
        have hvalue : f.value (xs ++ [x]) (f.get init) = y := by
          rw [Field.value, Field.last_concat_of_accepts ha]
          simp [hc]
        have hassign : ∀ p, f.assign x p = .ok (f.set y p) := fun p => by
          simp [Field.assign, hc, bind, Except.bind, pure, Except.pure]
        rw [hassign, hvalue, set_fill hf, h.overwrite f List.mem_cons_self,
          fill_concat_of_not fun g hg => hs g hg ha]
    · rw [if_neg ha] at hconv ⊢
      rw [ih h.tail hsep hconv, Field.value, Field.value,
        Field.last_concat_of_not (by simpa using ha)]

/-- **Decoding is reading**: for fields that do not interfere and items that
they accept one by one and convert, each field ends up with the value of the
last item it accepts. -/
theorem decode_eq_reading {fields : List (Field π ε α)} (h : Lawful fields) {xs : List π}
    (hsep : ∀ x ∈ xs, Separate fields x) (hconv : ∀ x ∈ xs, refuses fields x = false)
    (init : α) : decode fields init xs = .ok (reading fields init xs) := by
  induction xs using List.reverseRecOn with
  | nil => rw [decode_nil, reading_nil h]
  | append_singleton xs x ih =>
    rw [decode_concat, ih (fun y hy => hsep y (List.mem_append_left _ hy))
      (fun y hy => hconv y (List.mem_append_left _ hy))]
    exact step_fill h (hsep x (by simp)) (hconv x (by simp)) init xs init

/-- Decoding succeeds, and the values can be read off the record. -/
theorem exists_decode {fields : List (Field π ε α)} (h : Lawful fields) {xs : List π}
    (hsep : ∀ x ∈ xs, Separate fields x) (hconv : ∀ x ∈ xs, refuses fields x = false)
    (init : α) :
    ∃ p, decode fields init xs = .ok p ∧ ∀ f ∈ fields, f.get p = f.value xs (f.get init) :=
  ⟨reading fields init xs, decode_eq_reading h hsep hconv init, get_reading h init xs⟩

end Decoder

end FtServer
