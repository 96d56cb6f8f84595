/-
FtServer/LexicalPath.lean

Paths up to `.` and `..`, without a look at the file system.  A path is a list of
components; walking along it from a `Place` ends at another one, and the place that a
path names is its lexical normal form: the names that are left, and how many levels
above its start a relative path begins.

* `walk_eq_join`: where a path leads from a place depends on the path only through its
  own normal form, how many levels it climbs and which names follow;
* `under_walk_iff`: it stays under the place it starts from exactly if it does not
  climb, or comes back the way it has gone up (`LeadsBack`).

Nothing here mentions the file server.
-/
import Mathlib.Data.List.Induction
import Mathlib.Tactic.Common

namespace FtServer

namespace Lexical

variable {α : Type*}

/-! ### Places -/

/-- A component of a path: `..` or a name. -/
inductive Component (α : Type*)
  | up
  | name (a : α)
deriving DecidableEq

/-- A normal form.  Above the root of an absolute path there is nothing. -/
@[ext] structure Place (α : Type*) where
  absolute : Bool
  ups : ℕ
  names : List α
  ups_of_absolute : absolute = true → ups = 0
deriving DecidableEq

namespace Place

/-- Where a relative path starts. -/
def here : Place α := ⟨false, 0, [], by decide⟩

/-- Where a path starts. -/
def start (absolute : Bool) : Place α := ⟨absolute, 0, [], fun _ => rfl⟩

/-- Go `n` levels up. -/
def climb (s : Place α) (n : ℕ) : Place α where
  absolute := s.absolute
  ups := bif s.absolute then 0 else s.ups + (n - s.names.length)
  names := s.names.take (s.names.length - n)
  ups_of_absolute h := by rw [h, cond_true]

/-- Go down along the names. -/
def descend (s : Place α) (names : List α) : Place α := { s with names := s.names ++ names }

/-- Follow a component. -/
def enter (s : Place α) : Component α → Place α
  | .up => s.climb 1
  | .name a => s.descend [a]

/-- Follow a path. -/
def walk (s : Place α) (p : List (Component α)) : Place α := p.foldl enter s

/-- The path `p` does not lead out of `root`. -/
structure Under (root p : Place α) : Prop where
  absolute : p.absolute = root.absolute
  ups : p.ups = root.ups
  names : root.names <+: p.names

variable {s r : Place α} {p q : List (Component α)} {m n : ℕ} {w : List α} {a : α}

@[simp] theorem walk_nil : s.walk [] = s := rfl

theorem walk_append : s.walk (p ++ q) = (s.walk p).walk q := List.foldl_append

theorem walk_concat (c : Component α) : s.walk (p ++ [c]) = (s.walk p).enter c := by
  rw [walk_append]
  rfl

@[simp] theorem climb_zero : s.climb 0 = s := by
  ext
  · rfl
  · cases h : s.absolute
    · simp [climb, h]
    · simp [climb, h, s.ups_of_absolute h]
  · simp [climb]

theorem climb_climb : (s.climb m).climb n = s.climb (m + n) := by
  ext
  · rfl
  · cases h : s.absolute
    · simp only [climb, h, cond_false, List.length_take]
      omega
    · simp [climb, h]
  · have hmin : min (min (s.names.length - m) s.names.length - n) (s.names.length - m) =
        s.names.length - (m + n) := by omega
    simp only [climb, List.length_take, List.take_take, hmin]

@[simp] theorem descend_nil : s.descend [] = s := by
  simp [descend]

theorem descend_descend (w w' : List α) : (s.descend w).descend w' = s.descend (w ++ w') := by
  simp [descend]

/-- Up from where a name has led. -/
theorem climb_descend (a : α) : (s.descend (w ++ [a])).climb 1 = s.descend w := by
  have hnames : (s.names ++ (w ++ [a])).take ((s.names ++ (w ++ [a])).length - 1) =
      s.names ++ w := by
    rw [← List.append_assoc, List.length_append, List.length_singleton, Nat.add_sub_cancel,
      List.take_left]
  ext
  · rfl
  · cases h : s.absolute
    · simp only [climb, descend, h, cond_false, List.length_append, List.length_singleton]
      omega
    · simp [climb, descend, h, s.ups_of_absolute h]
  · simp only [climb, descend, hnames]

@[simp] theorem walk_absolute : (s.walk p).absolute = s.absolute := by
  induction p using List.reverseRecOn with
  | nil => rfl
  | append_singleton p c ih =>
    rw [walk_concat]
    cases c <;> exact ih

/-! ### Where a path leads -/

/-- The normal form of a relative path. -/
def relative (p : List (Component α)) : Place α := here.walk p

/-- **A path climbs as far as its normal form and then goes down its names.** -/
theorem walk_eq_join (s : Place α) (p : List (Component α)) :
    s.walk p = (s.climb (relative p).ups).descend (relative p).names := by
  induction p using List.reverseRecOn with
  | nil => simp [relative, here]
  | append_singleton p c ih =>
    have hrel : relative (p ++ [c]) = (relative p).enter c := walk_concat c
    rw [walk_concat, ih, hrel]
    cases c with
    | name a => exact descend_descend ..
    | up =>
      have habs : (relative p).absolute = false := walk_absolute
      rcases (relative p).names.eq_nil_or_concat with hnil | ⟨w, a, hw⟩
      · have hups : ((relative p).enter .up).ups = (relative p).ups + 1 := by
          simp [enter, climb, habs, hnil]
        have hnames : ((relative p).enter .up).names = [] := by simp [enter, climb, hnil]
        rw [hups, hnames, hnil, descend_nil, descend_nil]
        exact climb_climb
      · -- the name that `..` takes back is the last one on both sides
        rw [List.concat_eq_append] at hw
        have hlen : (relative p).names.length = w.length + 1 := by simp [hw]
        have hups : ((relative p).enter .up).ups = (relative p).ups := by
          simp [enter, climb, habs, hlen]
        have hnames : ((relative p).enter .up).names = w := by
          simp [enter, climb, hw]
        rw [hups, hnames, hw]
        exact climb_descend a

/-! ### Staying under a place -/

/-- A path that has climbed out of the last `ups` names of the root goes down the
same names again. -/
structure LeadsBack (root r : Place α) : Prop where
  ups : root.absolute = true ∨ r.ups ≤ root.names.length
  names : root.names.drop (root.names.length - r.ups) <+: r.names

instance [DecidableEq α] (root r : Place α) : Decidable (LeadsBack root r) :=
  decidable_of_iff ((root.absolute = true ∨ r.ups ≤ root.names.length) ∧
    root.names.drop (root.names.length - r.ups) <+: r.names)
    ⟨fun h => ⟨h.1, h.2⟩, fun h => ⟨h.ups, h.names⟩⟩

instance [DecidableEq α] (root p : Place α) : Decidable (Under root p) :=
  decidable_of_iff (p.absolute = root.absolute ∧ p.ups = root.ups ∧ root.names <+: p.names)
    ⟨fun h => ⟨h.1, h.2.1, h.2.2⟩, fun h => ⟨h.absolute, h.ups, h.names⟩⟩

/-- **When a path stays under its start.** -/
theorem under_walk_iff (root : Place α) (p : List (Component α)) :
    Under root (root.walk p) ↔ LeadsBack root (relative p) := by
  set k := (relative p).ups
  have hsplit := List.take_append_drop (root.names.length - k) root.names
  have hups : (root.walk p).ups = root.ups ↔ root.absolute = true ∨ k ≤ root.names.length := by
    rw [walk_eq_join]
    cases h : root.absolute
    · simp only [descend, climb, h, cond_false, Bool.false_eq_true, false_or]
      omega
    · simp [descend, climb, h, root.ups_of_absolute h]
  have hnames : root.names <+: (root.walk p).names ↔
      root.names.drop (root.names.length - k) <+: (relative p).names := by
    rw [walk_eq_join]
    show root.names <+: root.names.take (root.names.length - k) ++ (relative p).names ↔ _
    nth_rewrite 1 [← hsplit]
    rw [List.prefix_append_right_inj]
  constructor
  · intro h
    exact ⟨hups.mp h.ups, hnames.mp h.names⟩
  · intro h
    exact ⟨walk_absolute, hups.mpr h.ups, hnames.mpr h.names⟩

end Place

end Lexical

end FtServer
