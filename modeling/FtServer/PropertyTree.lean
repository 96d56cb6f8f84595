/-
FtServer/PropertyTree.lean

Trees of keys and data, as a configuration is kept in.  A key may occur more than once
among the children of a node: `walk` follows the first one on each level, `every` all
of them.  `add` puts a new leaf at the end of a path, whose nodes it makes if they are
missing.

`foldl_assign` is about loops over such children: a field that some of them assign holds
in the end what the last of these has assigned, and else what it held before.

Nothing here mentions the file server.
-/
import Mathlib.Data.List.Induction
import Mathlib.Tactic.Common

namespace FtServer

/-! ### Trees -/

/-- A node: its data, and its children in order. -/
inductive Ptree (κ δ : Type)
  | node (data : δ) (children : List (κ × Ptree κ δ))

namespace Ptree

variable {κ δ : Type}

def data : Ptree κ δ → δ
  | .node d _ => d

def children : Ptree κ δ → List (κ × Ptree κ δ)
  | .node _ cs => cs

variable [DecidableEq κ]

/-- The node at the end of the path, along the first child of each key. -/
def walk (t : Ptree κ δ) : List κ → Option (Ptree κ δ)
  | [] => some t
  | k :: ks => (t.children.find? fun c => c.1 = k).bind fun c => c.2.walk ks

/-- All nodes at the end of the path. -/
def every (t : Ptree κ δ) : List κ → List (Ptree κ δ)
  | [] => [t]
  | k :: ks => (t.children.filter fun c => c.1 = k).flatMap fun c => c.2.every ks

/-- Change the first child with the key, or make one. -/
def modifyChild (k : κ) (new : Ptree κ δ) (f : Ptree κ δ → Ptree κ δ) :
    List (κ × Ptree κ δ) → List (κ × Ptree κ δ)
  | [] => [(k, f new)]
  | c :: cs => if c.1 = k then (k, f c.2) :: cs else c :: modifyChild k new f cs

/-- Put a leaf at the end of the path; `empty` is the data of the nodes in between. -/
def add (empty : δ) : List κ → δ → Ptree κ δ → Ptree κ δ
  | [], _, t => t
  | [k], v, .node d cs => .node d (cs ++ [(k, .node v [])])
  | k :: ks, v, .node d cs => .node d (modifyChild k (.node empty []) (add empty ks v) cs)

theorem mem_every_of_walk {t u : Ptree κ δ} {ks : List κ} (h : t.walk ks = some u) :
    u ∈ t.every ks := by
  induction ks generalizing t with
  | nil =>
    cases h
    exact List.mem_cons_self ..
  | cons k ks ih =>
    obtain ⟨c, hc, hwalk⟩ := Option.bind_eq_some_iff.mp h
    refine List.mem_flatMap.mpr ⟨c, ?_, ih hwalk⟩
    exact List.mem_filter.mpr ⟨List.mem_of_find?_eq_some hc, by simpa using List.find?_some hc⟩

end Ptree

/-! ### Loops that assign a field -/

/-- **The last assignment stays.** -/
theorem foldl_assign {σ β γ : Type} {get : σ → γ} {p : β → Bool} {f : β → γ}
    {assign : σ → β → σ} (h : ∀ s b, get (assign s b) = if p b then f b else get s)
    (s : σ) (bs : List β) :
    get (bs.foldl assign s) = (((bs.filter p).getLast?).map f).getD (get s) := by
  induction bs using List.reverseRecOn with
  | nil => rfl
  | append_singleton bs b ih =>
    rw [List.foldl_append, List.foldl_cons, List.foldl_nil, h, List.filter_append]
    cases hb : p b
    · simp [hb, ih]
    · simp [hb]

end FtServer
