/-
FtServer/Mailbox.lean

A queue of messages with priorities: the most urgent message is received first,
and of equally urgent ones the oldest.  The entries are kept in the order in
which they will be received; that this order is by urgency is a field of the
structure.

The messages of one priority are a *lane*.  A send appends to its own lane and
leaves the others alone (`lane_send`), a receive takes the head of the first
lane that is not empty (`receive_lane`), so every lane is a queue of its own:
what was sent in it is what was received from it and what is left, in order
(`Serves`).  With one priority in use the mailbox is one queue (`ofLane`).

The messages are arbitrary.
-/
import Mathlib.Data.List.Basic
import Mathlib.Tactic.Common

namespace FtServer

/-- Messages with their priorities, in the order in which they are received. -/
structure Mailbox (μ : Type) where
  entries : List (ℕ × μ)
  urgent : entries.Pairwise fun x y => y.1 ≤ x.1

namespace Mailbox

variable {μ : Type}

/-! ### Operations -/

/-- Put `x` behind the entries that are as urgent as it is. -/
def place (x : ℕ × μ) : List (ℕ × μ) → List (ℕ × μ)
  | [] => [x]
  | y :: q => if y.1 < x.1 then x :: y :: q else y :: place x q

theorem mem_place {x z : ℕ × μ} {q : List (ℕ × μ)} : z ∈ place x q ↔ z = x ∨ z ∈ q := by
  induction q with
  | nil => simp [place]
  | cons y q ih =>
    unfold place
    split
    · simp
    · rw [List.mem_cons, ih, List.mem_cons]
      tauto

theorem place_urgent {x : ℕ × μ} {q : List (ℕ × μ)} (hq : q.Pairwise fun x y => y.1 ≤ x.1) :
    (place x q).Pairwise fun x y => y.1 ≤ x.1 := by
  induction q with
  | nil => simp [place]
  | cons y q ih =>
    rw [List.pairwise_cons] at hq
    obtain ⟨hy, hq⟩ := hq
    unfold place
    split
    · rename_i hlt
      refine List.pairwise_cons.mpr ⟨?_, List.pairwise_cons.mpr ⟨hy, hq⟩⟩
      intro z hz
      rcases List.mem_cons.mp hz with rfl | hz
      · exact Nat.le_of_lt hlt
      · exact Nat.le_trans (hy z hz) (Nat.le_of_lt hlt)
    · rename_i hge
      refine List.pairwise_cons.mpr ⟨?_, ih hq⟩
      intro z hz
      rcases mem_place.mp hz with rfl | hz
      · exact Nat.le_of_not_lt hge
      · exact hy z hz

/-- The place of `x` is behind everything that is as urgent. -/
theorem place_eq (x : ℕ × μ) (q : List (ℕ × μ)) :
    place x q = (q.takeWhile fun y => x.1 ≤ y.1) ++ x :: q.dropWhile fun y => x.1 ≤ y.1 := by
  induction q with
  | nil => rfl
  | cons y q ih =>
    unfold place
    split
    · rename_i hlt
      rw [List.takeWhile_cons_of_neg (by simpa using hlt),
        List.dropWhile_cons_of_neg (by simpa using hlt), List.nil_append]
    · rename_i hge
      have hle : x.1 ≤ y.1 := Nat.le_of_not_lt hge
      rw [List.takeWhile_cons_of_pos (by simpa using hle),
        List.dropWhile_cons_of_pos (by simpa using hle), ih, List.cons_append]

theorem place_perm (x : ℕ × μ) (q : List (ℕ × μ)) : (place x q).Perm (x :: q) := by
  rw [place_eq]
  refine List.perm_middle.trans ?_
  rw [List.takeWhile_append_dropWhile]

/-- No messages. -/
def empty : Mailbox μ := ⟨[], List.Pairwise.nil⟩

/-- Send `m` with priority `p`. -/
def send (b : Mailbox μ) (p : ℕ) (m : μ) : Mailbox μ :=
  ⟨place (p, m) b.entries, place_urgent b.urgent⟩

/-- Receive a message. -/
def receive (b : Mailbox μ) : Option ((ℕ × μ) × Mailbox μ) :=
  match h : b.entries with
  | [] => none
  | x :: q => some (x, ⟨q, (List.pairwise_cons.mp (h ▸ b.urgent)).2⟩)

@[simp] theorem entries_empty : (empty : Mailbox μ).entries = [] := rfl

@[simp] theorem entries_send (b : Mailbox μ) (p : ℕ) (m : μ) :
    (b.send p m).entries = place (p, m) b.entries := rfl

theorem ext_entries {b b' : Mailbox μ} (h : b.entries = b'.entries) : b = b' := by
  obtain ⟨q, _⟩ := b
  obtain ⟨q', _⟩ := b'
  obtain rfl : q = q' := h
  rfl

/-- A receive takes the first entry. -/
theorem receive_eq_some {b b' : Mailbox μ} {x : ℕ × μ} :
    b.receive = some (x, b') ↔ b.entries = x :: b'.entries := by
  obtain ⟨q, hq⟩ := b
  cases q with
  | nil => simp [receive]
  | cons y q =>
    simp only [receive, Option.some.injEq, Prod.mk.injEq, List.cons.injEq]
    constructor
    · rintro ⟨rfl, rfl⟩
      exact ⟨rfl, rfl⟩
    · rintro ⟨rfl, h⟩
      exact ⟨rfl, ext_entries h⟩

theorem receive_eq_none {b : Mailbox μ} : b.receive = none ↔ b.entries = [] := by
  obtain ⟨q, hq⟩ := b
  cases q <;> simp [receive]

/-! ### Lanes -/

/-- The messages of priority `p`, in order. -/
def lane (p : ℕ) (q : List (ℕ × μ)) : List μ := (q.filter fun x => x.1 = p).map Prod.snd

@[simp] theorem lane_nil (p : ℕ) : lane p ([] : List (ℕ × μ)) = [] := rfl

theorem lane_cons (p : ℕ) (x : ℕ × μ) (q : List (ℕ × μ)) :
    lane p (x :: q) = if x.1 = p then x.2 :: lane p q else lane p q := by
  unfold lane
  split <;> rename_i h <;> simp [h]

@[simp] theorem lane_append (p : ℕ) (q q' : List (ℕ × μ)) :
    lane p (q ++ q') = lane p q ++ lane p q' := by
  simp [lane]

theorem mem_lane {p : ℕ} {m : μ} {q : List (ℕ × μ)} : m ∈ lane p q ↔ (p, m) ∈ q := by
  simp only [lane, List.mem_map, List.mem_filter, decide_eq_true_eq]
  constructor
  · rintro ⟨⟨p', m'⟩, ⟨h, rfl⟩, rfl⟩
    exact h
  · intro h
    exact ⟨(p, m), ⟨h, rfl⟩, rfl⟩

/-- Below the least urgent entry there is no lane. -/
theorem lane_eq_nil {p : ℕ} {q : List (ℕ × μ)} (h : ∀ x ∈ q, x.1 ≠ p) : lane p q = [] := by
  rw [List.eq_nil_iff_forall_not_mem]
  intro m hm
  exact h _ (mem_lane.mp hm) rfl

/-- A send appends to its own lane and leaves the others alone. -/
theorem lane_place {x : ℕ × μ} {q : List (ℕ × μ)} (hq : q.Pairwise fun x y => y.1 ≤ x.1)
    (p : ℕ) : lane p (place x q) = lane p q ++ lane p [x] := by
  induction q with
  | nil => rfl
  | cons y q ih =>
    rw [List.pairwise_cons] at hq
    obtain ⟨hy, hq⟩ := hq
    unfold place
    split
    · rename_i hlt
      by_cases hx : x.1 = p
      · -- nothing from `y` on is in the lane of `x`
        have hnone : lane p (y :: q) = [] := by
          refine lane_eq_nil fun z hz => ?_
          rcases List.mem_cons.mp hz with rfl | hz
          · omega
          · have := hy z hz
            omega
        rw [lane_cons, hnone, lane_cons, lane_nil, if_pos hx, List.nil_append]
      · rw [lane_cons, if_neg hx, lane_cons p x [], if_neg hx, lane_nil, List.append_nil]
    · rw [lane_cons, ih hq, lane_cons p y q]
      split <;> rfl

theorem lane_send (b : Mailbox μ) (p q : ℕ) (m : μ) :
    lane q (b.send p m).entries = lane q b.entries ++ lane q [(p, m)] :=
  lane_place b.urgent q

/-- A receive takes the head of the first lane that is not empty. -/
theorem receive_lane {b b' : Mailbox μ} {p : ℕ} {m : μ} (h : b.receive = some ((p, m), b')) :
    lane p b.entries = m :: lane p b'.entries ∧ ∀ q, p < q → lane q b.entries = [] := by
  rw [receive_eq_some] at h
  have hurgent := b.urgent
  rw [h, List.pairwise_cons] at hurgent
  refine ⟨by rw [h, lane_cons, if_pos rfl], fun q hpq => ?_⟩
  refine lane_eq_nil fun z hz => ?_
  rw [h] at hz
  rcases List.mem_cons.mp hz with rfl | hz
  · exact Nat.ne_of_lt hpq
  · exact Nat.ne_of_lt (Nat.lt_of_le_of_lt (hurgent.1 z hz) hpq)

/-! ### What was sent and what was received -/

/-- The mailbox holds, of every lane, what was sent in it and not yet received. -/
def Serves (sent received : List (ℕ × μ)) (b : Mailbox μ) : Prop :=
  ∀ p, lane p sent = lane p received ++ lane p b.entries

theorem Serves.empty : Serves [] [] (empty : Mailbox μ) := fun _ => rfl

theorem Serves.send {sent received : List (ℕ × μ)} {b : Mailbox μ} (h : Serves sent received b)
    (p : ℕ) (m : μ) : Serves (sent ++ [(p, m)]) received (b.send p m) := by
  intro q
  rw [lane_append, h q, lane_send, List.append_assoc]

theorem Serves.receive {sent received : List (ℕ × μ)} {b b' : Mailbox μ} {x : ℕ × μ}
    (h : Serves sent received b) (hx : b.receive = some (x, b')) :
    Serves sent (received ++ [x]) b' := by
  intro q
  rw [receive_eq_some] at hx
  rw [h q, hx, lane_append, List.append_assoc, ← lane_append q [x]]
  rfl

/-- All that waits is thrown away. -/
theorem Serves.discard {sent received : List (ℕ × μ)} {b : Mailbox μ}
    (h : Serves sent received b) : Serves sent (received ++ b.entries) Mailbox.empty := by
  intro q
  rw [h q, lane_append, entries_empty, lane_nil, List.append_nil]

/-! ### One lane -/

/-- The mailbox in which `ms` wait, all with priority `p`. -/
def ofLane (p : ℕ) (ms : List μ) : Mailbox μ :=
  ⟨ms.map fun m => (p, m), List.pairwise_map.mpr (List.pairwise_of_forall fun _ _ => Nat.le_refl p)⟩

@[simp] theorem entries_ofLane (p : ℕ) (ms : List μ) :
    (ofLane p ms).entries = ms.map fun m => (p, m) := rfl

theorem send_ofLane (p : ℕ) (ms : List μ) (m : μ) :
    (ofLane p ms).send p m = ofLane p (ms ++ [m]) := by
  refine ext_entries ?_
  simp only [entries_send, entries_ofLane]
  induction ms with
  | nil => rfl
  | cons m' ms ih =>
    rw [List.map_cons, place, if_neg (Nat.lt_irrefl p), ih]
    rfl

theorem receive_ofLane (p : ℕ) (m : μ) (ms : List μ) :
    (ofLane p (m :: ms)).receive = some ((p, m), ofLane p ms) :=
  receive_eq_some.mpr rfl

end Mailbox

end FtServer
