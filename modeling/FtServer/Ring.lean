/-
FtServer/Ring.lean

A circular buffer over a block of memory: `size` elements from cell `first` on,
where the cell after the last one is the first one.  `contents` is the queue
that the buffer stands for; the operations are described by what they do to it.

* `contents_pushBack`: on a buffer that is not full an element is appended, on
  a full one it takes the place of the oldest;
* `contents_eraseBegin`: elements are taken off the front;
* `contents_linearize`, `linearize_end_le`: after `linearize` the contents are the
  same, in one stretch of memory;
* `slice_foldl_pushBack`: a stretch at the front stays as it is when elements are
  appended.

The elements are arbitrary, and so is the capacity.
-/
import Mathlib.Data.List.Rotate

namespace FtServer

/-- A circular buffer of `cap` cells. -/
structure Ring (α : Type) (cap : ℕ) where
  mem : List α
  first : ℕ
  size : ℕ
  mem_length : mem.length = cap
  first_lt : first < cap
  size_le : size ≤ cap

namespace Ring

variable {α : Type} {cap : ℕ}

/-! ### Contents -/

/-- The elements in order, oldest first. -/
def contents (r : Ring α cap) : List α := (r.mem.rotate r.first).take r.size

@[simp] theorem contents_length (r : Ring α cap) : r.contents.length = r.size := by
  simp [contents, r.mem_length, r.size_le]

/-- The cell of the `i`-th element. -/
theorem getElem_contents (r : Ring α cap) {i : ℕ} (hi : i < r.contents.length)
    (h : (r.first + i) % cap < r.mem.length) : r.contents[i] = r.mem[(r.first + i) % cap] := by
  simp only [contents, List.getElem_take, List.getElem_rotate, r.mem_length, Nat.add_comm]

/-- The cells around the end of the memory. -/
theorem mod_cap {a : ℕ} (h : a < 2 * cap) : a % cap = if a < cap then a else a - cap := by
  split
  · exact Nat.mod_eq_of_lt ‹_›
  · rw [Nat.mod_eq_sub_mod (by omega), Nat.mod_eq_of_lt (by omega)]

/-- Different elements have different cells. -/
theorem index_ne (r : Ring α cap) {i j : ℕ} (hij : i < j) (hj : j < r.first + cap)
    (hlt : j < i + cap) : i % cap ≠ j % cap := by
  have hfirst := r.first_lt
  rw [mod_cap (by omega), mod_cap (by omega)]
  split <;> split <;> omega

theorem index_lt (r : Ring α cap) (j : ℕ) : j % cap < r.mem.length := by
  rw [r.mem_length]
  exact Nat.mod_lt _ (Nat.zero_lt_of_lt r.first_lt)

/-- A stretch of memory. -/
def slice (r : Ring α cap) (ptr len : ℕ) : List α := (r.mem.drop ptr).take len

/-- A stretch from the first element on that does not run over the end of the
memory is the front of the contents. -/
theorem slice_first (r : Ring α cap) {len : ℕ} (hlen : len ≤ r.size)
    (hend : r.first + len ≤ cap) : r.slice r.first len = r.contents.take len := by
  have hfirst : r.first ≤ r.mem.length := by
    rw [r.mem_length]
    exact Nat.le_of_lt r.first_lt
  have hdrop : len ≤ (r.mem.drop r.first).length := by
    rw [List.length_drop, r.mem_length]
    omega
  rw [slice, contents, List.take_take, Nat.min_eq_left hlen,
    List.rotate_eq_drop_append_take hfirst, List.take_append_of_le_length hdrop]

/-! ### Operations -/

/-- `n` cells from `mem`, nothing in use. -/
def empty (mem : List α) (h : mem.length = cap) (hcap : 0 < cap) : Ring α cap :=
  ⟨mem, 0, 0, h, hcap, Nat.zero_le _⟩

/-- Append; on a full buffer the oldest element is overwritten. -/
def pushBack (r : Ring α cap) (x : α) : Ring α cap :=
  if h : r.size < cap then
    { r with
      mem := r.mem.set ((r.first + r.size) % cap) x
      size := r.size + 1
      mem_length := by rw [List.length_set, r.mem_length]
      size_le := h }
  else
    { r with
      mem := r.mem.set r.first x
      first := (r.first + 1) % cap
      mem_length := by rw [List.length_set, r.mem_length]
      first_lt := Nat.mod_lt _ (Nat.zero_lt_of_lt r.first_lt) }

/-- Take `n` elements off the front. -/
def eraseBegin (r : Ring α cap) (n : ℕ) : Ring α cap where
  mem := r.mem
  first := (r.first + n) % cap
  size := r.size - n
  mem_length := r.mem_length
  first_lt := Nat.mod_lt _ (Nat.zero_lt_of_lt r.first_lt)
  size_le := Nat.le_trans (Nat.sub_le ..) r.size_le

/-- Move the elements, if they run over the end of the memory, to its start. -/
def linearize (r : Ring α cap) : Ring α cap :=
  if r.first + r.size ≤ cap then r
  else
    { r with
      mem := r.contents ++ r.mem.drop r.size
      first := 0
      mem_length := by
        have hsize := r.size_le
        simp [r.mem_length]
        omega
      first_lt := Nat.zero_lt_of_lt r.first_lt }

@[simp] theorem contents_empty (mem : List α) (h : mem.length = cap) (hcap : 0 < cap) :
    (empty mem h hcap).contents = [] := rfl

/-! ### What they do to the contents -/

theorem contents_eraseBegin (r : Ring α cap) (n : ℕ) :
    (r.eraseBegin n).contents = r.contents.drop n := by
  refine List.ext_getElem (by simp [eraseBegin]) fun i hi _ => ?_
  have hsize : n + i < r.size := by
    simp [eraseBegin] at hi
    omega
  have hmod : ((r.first + n) % cap + i) % cap = (r.first + (n + i)) % cap := by
    rw [Nat.mod_add_mod, Nat.add_assoc]
  rw [getElem_contents _ hi (r.index_lt _), List.getElem_drop,
    getElem_contents _ (by simpa) (r.index_lt _)]
  simp only [eraseBegin, hmod]

theorem size_linearize (r : Ring α cap) : r.linearize.size = r.size := by
  unfold linearize
  split <;> rfl

theorem contents_linearize (r : Ring α cap) : r.linearize.contents = r.contents := by
  unfold linearize
  split
  · rfl
  · simp [contents, r.mem_length, r.size_le]

/-- After `linearize` the elements do not run over the end of the memory. -/
theorem linearize_end_le (r : Ring α cap) : r.linearize.first + r.linearize.size ≤ cap := by
  unfold linearize
  split
  · assumption
  · simpa using r.size_le

/-- **Appending to a buffer that is not full.** -/
theorem contents_pushBack (r : Ring α cap) (x : α) (hfull : r.size < cap) :
    (r.pushBack x).contents = r.contents ++ [x] := by
  have hpush : r.pushBack x = ⟨r.mem.set ((r.first + r.size) % cap) x, r.first, r.size + 1,
      by rw [List.length_set, r.mem_length], r.first_lt, hfull⟩ := by
    rw [pushBack, dif_pos hfull]
  rw [hpush]
  refine List.ext_getElem (by simp) fun i hi hi' => ?_
  rw [getElem_contents _ hi (by simpa using r.index_lt _)]
  have hle : i ≤ r.size := by simpa [Nat.lt_succ_iff] using hi'
  rcases Nat.lt_or_eq_of_le hle with hlt | rfl
  · have hne := r.index_ne (i := r.first + i) (j := r.first + r.size) (by omega) (by omega)
      (by omega)
    rw [List.getElem_set_ne hne.symm, List.getElem_append_left (by simpa),
      getElem_contents _ (by simpa) (r.index_lt _)]
  · rw [List.getElem_set_self]
    simp [List.getElem_append_right]

/-- **Appending to a full buffer** loses the oldest element. -/
theorem contents_pushBack_full (r : Ring α cap) (x : α) (hfull : r.size = cap) :
    (r.pushBack x).contents = r.contents.tail ++ [x] := by
  have hcap := Nat.zero_lt_of_lt r.first_lt
  have hpush : r.pushBack x = ⟨r.mem.set r.first x, (r.first + 1) % cap, r.size,
      by rw [List.length_set, r.mem_length], Nat.mod_lt _ hcap, r.size_le⟩ := by
    rw [pushBack, dif_neg (by omega)]
  rw [hpush]
  refine List.ext_getElem (by simp; omega) fun i hi hi' => ?_
  have hi₀ : i < cap := by simpa [hfull] using hi
  rw [getElem_contents _ hi (by simpa using r.index_lt _)]
  simp only [Nat.mod_add_mod]
  by_cases hlast : i + 1 = cap
  · -- the last element is in the cell of the oldest
    have hidx : (r.first + 1 + i) % cap = r.first := by
      rw [Nat.add_right_comm, Nat.add_assoc, hlast, Nat.add_mod_right,
        Nat.mod_eq_of_lt r.first_lt]
    simp only [hidx, List.getElem_set_self]
    rw [List.getElem_append_right (by simp; omega)]
    simp
  · have hne : r.first ≠ (r.first + 1 + i) % cap := by
      have hmod := r.index_ne (i := r.first) (j := r.first + 1 + i) (by omega) (by omega)
        (by omega)
      rwa [Nat.mod_eq_of_lt r.first_lt] at hmod
    rw [List.getElem_set_ne hne, List.getElem_append_left (by simp; omega), List.getElem_tail,
      getElem_contents _ (by simp; omega) (r.index_lt _)]
    simp only [Nat.add_assoc, Nat.add_comm 1]

theorem size_pushBack (r : Ring α cap) (x : α) (hfull : r.size < cap) :
    (r.pushBack x).size = r.size + 1 := by
  rw [pushBack, dif_pos hfull]

theorem first_pushBack (r : Ring α cap) (x : α) (hfull : r.size < cap) :
    (r.pushBack x).first = r.first := by
  rw [pushBack, dif_pos hfull]

/-- Appending a list for which there is room: the elements stay in place. -/
theorem foldl_pushBack (xs : List α) (r : Ring α cap) (hroom : r.size + xs.length ≤ cap) :
    (xs.foldl pushBack r).contents = r.contents ++ xs ∧
      (xs.foldl pushBack r).first = r.first := by
  induction xs generalizing r with
  | nil => simp
  | cons x xs ih =>
    have hfull : r.size < cap := by
      simp only [List.length_cons] at hroom
      omega
    have hroom' : (r.pushBack x).size + xs.length ≤ cap := by
      rw [size_pushBack _ _ hfull]
      simp only [List.length_cons] at hroom
      omega
    obtain ⟨hcontents, hfirst⟩ := ih (r.pushBack x) hroom'
    rw [List.foldl_cons, hcontents, hfirst, contents_pushBack r x hfull, first_pushBack r x hfull]
    simp

/-- **A stretch at the front stays as it is** when elements are appended. -/
theorem slice_foldl_pushBack (xs : List α) (r : Ring α cap) (hroom : r.size + xs.length ≤ cap)
    {len : ℕ} (hlen : len ≤ r.size) (hend : r.first + len ≤ cap) :
    (xs.foldl pushBack r).slice r.first len = r.slice r.first len := by
  obtain ⟨hcontents, hfirst⟩ := foldl_pushBack xs r hroom
  have hsize : (xs.foldl pushBack r).size = r.size + xs.length := by
    rw [← contents_length, hcontents, List.length_append, contents_length]
  rw [← hfirst, slice_first _ (by omega) (by omega), hcontents,
    List.take_append_of_le_length (by simpa), hfirst, slice_first r hlen hend]

end Ring

end FtServer
