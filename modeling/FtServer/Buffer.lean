/-
FtServer/Buffer.lean

Byte buffers as lists of fixed length.  `overlay buf off d` is what a `memcpy`
of `d` to `buf + off` leaves in `buf`: bytes that fall past the end of the
buffer are not part of it.  The lemmas are the two halves of every argument
about such a copy: inside the buffer the copied bytes are the ones written
(`overlay_take`, `overlay_take_extend`), and a copy that starts at or after the
end changes nothing (`overlay_of_le`).

`cstr` is the C string that starts a buffer: the bytes before its first NUL.
-/
import Mathlib.Tactic.Common

namespace FtServer

/-! ### Copying into a buffer -/

section Overlay

variable {α : Type*}

/-- The buffer after a copy of `d` to offset `off`. -/
def overlay (buf : List α) (off : ℕ) (d : List α) : List α :=
  buf.take off ++ d.take (buf.length - off) ++ buf.drop (off + d.length)

@[simp] theorem overlay_length (buf : List α) (off : ℕ) (d : List α) :
    (overlay buf off d).length = buf.length := by
  simp only [overlay, List.length_append, List.length_take, List.length_drop]
  omega

/-- A copy that starts at or after the end of the buffer leaves it alone. -/
theorem overlay_of_le {buf : List α} {off : ℕ} (h : buf.length ≤ off) (d : List α) :
    overlay buf off d = buf := by
  have hdrop : buf.drop (off + d.length) = [] := List.drop_eq_nil_of_le (by omega)
  have hzero : buf.length - off = 0 := by omega
  simp [overlay, hdrop, hzero, List.take_of_length_le h]

/-- A copy that fits leaves the bytes before it followed by the bytes copied. -/
theorem overlay_take {buf : List α} {off : ℕ} {d : List α}
    (h : off + d.length ≤ buf.length) :
    (overlay buf off d).take (off + d.length) = buf.take off ++ d := by
  -- nothing of `d` is cut off
  have hd : d.take (buf.length - off) = d := List.take_of_length_le (by omega)
  have hlen : (buf.take off ++ d).length = off + d.length := by
    simp only [List.length_append, List.length_take]
    omega
  rw [overlay, hd, ← hlen, List.take_left]

/-- A copy to the start of the buffer that fits. -/
theorem overlay_zero_take {buf d : List α} (h : d.length ≤ buf.length) :
    (overlay buf 0 d).take d.length = d := by
  simpa using @overlay_take _ buf 0 d (by simpa using h)

/-- A buffer that starts with the first `k` elements of `data` starts with
`n` more of them after those have been copied to offset `k`. -/
theorem overlay_take_extend {buf data : List α} {k n : ℕ}
    (hk : buf.take k = data.take k) (hbuf : k + n ≤ buf.length)
    (hdata : k + n ≤ data.length) :
    (overlay buf k ((data.drop k).take n)).take (k + n) = data.take (k + n) := by
  have hn : ((data.drop k).take n).length = n := by
    rw [List.length_take, List.length_drop]
    omega
  have h := @overlay_take _ buf k ((data.drop k).take n) (by omega)
  rw [hn, hk] at h
  rw [h, List.take_add]

/-- From its start on, a copy that fits reads as what was copied and the old rest. -/
theorem overlay_drop {buf : List α} {off : ℕ} {d : List α} (h : off + d.length ≤ buf.length) :
    (overlay buf off d).drop off = d ++ buf.drop (off + d.length) := by
  have hd : d.take (buf.length - off) = d := List.take_of_length_le (by omega)
  have htake : (buf.take off).length = off := List.length_take_of_le (by omega)
  rw [overlay, hd, List.append_assoc, List.drop_append_of_le_length (by omega),
    List.drop_eq_nil_of_le (by omega), List.nil_append]

/-- Outside the copied part the buffer is the old one. -/
theorem overlay_getElem?_of_disjoint {buf : List α} {off : ℕ} {d : List α} {i : ℕ}
    (h : i < off ∨ off + d.length ≤ i) : (overlay buf off d)[i]? = buf[i]? := by
  rcases Nat.lt_or_ge off buf.length with hoff | hoff
  · have htake : (buf.take off).length = off := List.length_take_of_le (by omega)
    rcases h with h | h
    · rw [overlay, List.append_assoc, List.getElem?_append_left (by omega),
        List.getElem?_take_of_lt h]
    · rw [overlay, List.getElem?_append_right]
      · simp only [List.length_append, htake, List.length_take, List.getElem?_drop]
        rcases Nat.lt_or_ge i buf.length with hi | hi
        · congr 1
          omega
        · rw [List.getElem?_eq_none hi, List.getElem?_eq_none (by omega)]
      · simp only [List.length_append, htake, List.length_take]
        omega
  · rw [overlay_of_le hoff]

/-- A window that the copy does not touch. -/
theorem overlay_window {buf : List α} {off : ℕ} {d : List α} {a n : ℕ}
    (h : a + n ≤ off ∨ off + d.length ≤ a) :
    ((overlay buf off d).drop a).take n = (buf.drop a).take n := by
  apply List.ext_getElem?
  intro i
  rw [List.getElem?_take, List.getElem?_take]
  split
  · rw [List.getElem?_drop, List.getElem?_drop, overlay_getElem?_of_disjoint (by omega)]
  · rfl

/-- A window inside the copied part reads as that part of what was copied. -/
theorem overlay_window_inside {buf : List α} {off : ℕ} {d : List α} {a n : ℕ}
    (hbuf : off + d.length ≤ buf.length) (h : off ≤ a) (hn : a + n ≤ off + d.length) :
    ((overlay buf off d).drop a).take n = (d.drop (a - off)).take n := by
  obtain ⟨k, rfl⟩ := Nat.exists_eq_add_of_le h
  rw [← List.drop_drop, overlay_drop hbuf, Nat.add_sub_cancel_left,
    List.drop_append_of_le_length (by omega),
    List.take_append_of_le_length (by rw [List.length_drop]; omega)]

end Overlay

/-! ### Byte strings -/

/-- Bytes of a buffer, a line or a `std::string`. -/
abbrev Bytes := List UInt8

/-- The bytes of an ASCII literal of the source. -/
def lit (s : String) : Bytes := s.toList.map fun c => c.toNat.toUInt8

/-- The C string at the start of a buffer: its bytes before the first NUL. -/
def cstr (buf : Bytes) : Bytes := buf.takeWhile (· ≠ 0)

/-- Text that the code has closed with a terminator reads as that text,
up to a NUL it may contain itself. -/
theorem cstr_terminated (text rest : Bytes) : cstr (text ++ 0 :: rest) = cstr text := by
  induction text with
  | nil => simp [cstr]
  | cons b text ih =>
    simp only [cstr, List.cons_append, List.takeWhile_cons] at ih ⊢
    split
    · rw [ih]
    · rfl

end FtServer
