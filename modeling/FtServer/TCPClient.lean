/-
FtServer/TCPClient.lean

The receiving side of a TCP connection.  A connection works in one of two
modes.  In the unbuffered mode, which the connections of the file receivers
use, each completed read overwrites the start of `bufrcv` and `bytercv` holds
its length; nothing is consumed by `read`.  In the buffered mode the bytes of
each read are appended to the ring `crcrcv`, and `read` takes bytes off its
front.

`lookup` and `read` are given as the source computes them, over the current
content of the mode.  The lemmas are those of the unbuffered mode: the content
after a read, and the position of the first newline in it.
-/
import Mathlib.Data.Int.Notation
import FtServer.Buffer

namespace FtServer

/-- `TCP_PACK_SIZE`. -/
def tcpPackSize : ℕ := 1500

/-- Capacity of the ring buffers, `TCP_PACK_SIZE * 10`. -/
def ringCapacity : ℕ := tcpPackSize * 10

/-- A buffer of `TCP_PACK_SIZE` bytes. -/
structure PackBuf where
  bytes : Bytes
  length_eq : bytes.length = tcpPackSize

def zeroBuf : PackBuf := ⟨List.replicate tcpPackSize 0, List.length_replicate⟩

/-- `memcpy` to the start of the buffer. -/
def PackBuf.write (b : PackBuf) (d : Bytes) : PackBuf where
  bytes := overlay b.bytes 0 d
  length_eq := by rw [overlay_length, b.length_eq]

/-- `buff[p] = 0`; an index outside the buffer changes nothing in it. -/
def PackBuf.terminate (b : PackBuf) (p : ℤ) : PackBuf where
  bytes := if 0 ≤ p then b.bytes.set p.toNat 0 else b.bytes
  length_eq := by split <;> simp [b.length_eq]

theorem PackBuf.write_take (b : PackBuf) {d : Bytes} (h : d.length ≤ tcpPackSize) :
    (b.write d).bytes.take d.length = d :=
  overlay_zero_take (by rw [b.length_eq]; exact h)

/-- The text in front of a byte that has been overwritten. -/
theorem PackBuf.cstr_terminate {b : PackBuf} {text : Bytes} {f : UInt8}
    (h : b.bytes.take (text.length + 1) = text ++ [f]) :
    cstr (b.terminate text.length).bytes = cstr text := by
  have hbytes : b.bytes = text ++ f :: b.bytes.drop (text.length + 1) := by
    conv_lhs => rw [← List.take_append_drop (text.length + 1) b.bytes, h]
    simp
  have hset : (b.terminate text.length).bytes = text ++ 0 :: b.bytes.drop (text.length + 1) := by
    rw [PackBuf.terminate]
    dsimp only
    rw [if_pos (Int.natCast_nonneg _), Int.toNat_natCast]
    conv_lhs => rw [hbytes]
    simp
  rw [hset, cstr_terminated]

/-- The receiving side of `TCPClient`. -/
structure TCPClient where
  usebuf : Bool
  bytercv : ℕ
  bufrcv : PackBuf
  crcrcv : Bytes
  isOpen : Bool

namespace TCPClient

variable (c : TCPClient)

/-- Number of bytes received and not yet consumed. -/
def size : ℕ := if c.usebuf then c.crcrcv.length else c.bytercv

/-- `crcrcv_[j]` or `bufrcv_[j]`. -/
def byteAt (j : ℕ) : UInt8 := (if c.usebuf then c.crcrcv else c.bufrcv.bytes).getD j 0

/-- The bytes received and not yet consumed. -/
def content : Bytes := if c.usebuf then c.crcrcv else c.bufrcv.bytes.take c.bytercv

/-! ### Lookup -/

/-- The inner loop of `Lookup`: the value of `i` when it ends. -/
def matchLength (byteAt : ℕ → UInt8) : Bytes → ℕ → ℕ
  | [], _ => 0
  | f :: fs, j => if f = byteAt j then matchLength byteAt fs (j + 1) + 1 else 0

/-- The outer loop of `Lookup`, with the number of positions left to try. -/
def lookupLoop (byteAt : ℕ → UInt8) (flag : Bytes) : ℕ → ℕ → ℤ
  | 0, _ => -1
  | todo + 1, pos =>
    if matchLength byteAt flag pos = flag.length then pos
    else lookupLoop byteAt flag todo (pos + 1)

/-- `TCPClient::Lookup(flag, len, from)` for a flag of `len` bytes. -/
def lookup (flag : Bytes) (start : ℤ) : ℤ :=
  if flag.length = 0 ∨ start < 0 then -1
  else
    let n : ℤ := c.size - flag.length
    lookupLoop c.byteAt flag (n + 1 - start).toNat start.toNat

/-! ### Read -/

/-- `TCPClient::Read(buff, len, from)`: the bytes copied to `buff`, and the
connection afterwards. -/
def read (len start : ℤ) : Bytes × TCPClient :=
  if len ≤ 0 ∨ start < 0 then ([], c)
  else if c.usebuf then
    let out := (c.crcrcv.take (start + len).toNat).drop start.toNat
    (out, { c with crcrcv := c.crcrcv.drop out.length })
  else
    let n : ℤ := if c.bytercv < start + len then c.bytercv - start else len
    ((c.bufrcv.bytes.drop start.toNat).take n.toNat, c)

/-! ### Completion of an asynchronous read -/

/-- The bytes of a completed read land at the start of `bufrcv_`. -/
def land (d : Bytes) : TCPClient := { c with bufrcv := c.bufrcv.write d }

/-- `push_back` on a full ring overwrites its oldest byte. -/
def ringPush (ring : Bytes) (b : UInt8) : Bytes :=
  if ring.length < ringCapacity then ring ++ [b] else ring.tail ++ [b]

/-- `TCPClient::handle_read` without error, up to the callback. -/
def handleRead (n : ℕ) : TCPClient :=
  if c.usebuf then { c with crcrcv := (c.bufrcv.bytes.take n).foldl ringPush c.crcrcv }
  else { c with bytercv := n }

/-! ### The unbuffered mode -/

variable {c}

@[simp] theorem handleRead_usebuf (n : ℕ) : (c.handleRead n).usebuf = c.usebuf := by
  unfold handleRead
  split <;> rfl

@[simp] theorem handleRead_isOpen (n : ℕ) : (c.handleRead n).isOpen = c.isOpen := by
  unfold handleRead
  split <;> rfl

theorem handleRead_content (hu : c.usebuf = false) (n : ℕ) :
    (c.handleRead n).content = c.bufrcv.bytes.take n := by
  simp [handleRead, content, hu]

/-- In the unbuffered mode reading consumes nothing. -/
theorem read_snd (hu : c.usebuf = false) (len start : ℤ) : (c.read len start).2 = c := by
  unfold read
  split
  · rfl
  · simp [hu]

/-- Reading a whole pack returns the content. -/
theorem read_pack (hu : c.usebuf = false) (hn : c.bytercv ≤ tcpPackSize) :
    (c.read tcpPackSize 0).1 = c.content := by
  have hlen : ¬ ((tcpPackSize : ℤ) ≤ 0 ∨ (0 : ℤ) < 0) := by decide
  have hcount : (if (c.bytercv : ℤ) < 0 + tcpPackSize then (c.bytercv : ℤ) - 0
      else tcpPackSize).toNat = c.bytercv := by
    split <;> omega
  simp only [read, hlen, ↓reduceIte, hu, Bool.false_eq_true, hcount, content]
  simp

/-- No more bytes are read than a pack holds. -/
theorem read_pack_length (c : TCPClient) : (c.read tcpPackSize 0).1.length ≤ tcpPackSize := by
  have hlen : ¬ ((tcpPackSize : ℤ) ≤ 0 ∨ (0 : ℤ) < 0) := by decide
  simp only [read, hlen, ↓reduceIte]
  split
  · simp only [Int.toNat_zero, List.drop_zero, List.length_take]
    omega
  · simp only [Int.toNat_zero, List.drop_zero, List.length_take, c.bufrcv.length_eq]
    omega

/-- Reading the first `n` bytes when there are that many. -/
theorem read_front (hu : c.usebuf = false) {n : ℕ} (h0 : 0 < n) (hn : n ≤ c.bytercv) :
    (c.read n 0).1 = c.content.take n := by
  have hlen : ¬ ((n : ℤ) ≤ 0 ∨ (0 : ℤ) < 0) := by omega
  have hcount : (if (c.bytercv : ℤ) < 0 + n then (c.bytercv : ℤ) - 0 else n).toNat = n := by
    split <;> omega
  simp only [read, hlen, ↓reduceIte, hu, Bool.false_eq_true, hcount, content, List.take_take]
  simp [Nat.min_eq_left hn]

/-! ### The first occurrence of a flag -/

/-- The inner loop runs through the whole flag exactly when the flag stands at
the position. -/
theorem matchLength_eq_length_iff (at' : ℕ → UInt8) :
    ∀ (flag : Bytes) (pos : ℕ), matchLength at' flag pos = flag.length ↔
      ∀ k (hk : k < flag.length), flag[k] = at' (pos + k)
  | [], pos => by simp [matchLength]
  | f :: fs, pos => by
    have ih := matchLength_eq_length_iff at' fs (pos + 1)
    rw [matchLength]
    by_cases hf : f = at' pos
    · have hstep : matchLength at' fs (pos + 1) + 1 = (f :: fs).length ↔
          matchLength at' fs (pos + 1) = fs.length := by
        rw [List.length_cons, Nat.add_right_cancel_iff]
      rw [if_pos hf, hstep, ih]
      constructor
      · intro h k hk
        cases k with
        | zero => exact hf
        | succ k =>
          rw [List.getElem_cons_succ, h k (by simpa using hk), Nat.add_assoc, Nat.add_comm 1]
      · intro h k hk
        have hk' := h (k + 1) (by simpa using hk)
        rwa [List.getElem_cons_succ, ← Nat.add_assoc, Nat.add_right_comm] at hk'
    · rw [if_neg hf]
      constructor
      · intro h
        simp at h
      · intro h
        exact absurd (h 0 (by simp)) hf

/-- The outer loop stops at the first position where the flag stands. -/
theorem lookupLoop_found {at' : ℕ → UInt8} {flag : Bytes} {q : ℕ}
    (hq : matchLength at' flag q = flag.length) :
    ∀ {todo pos : ℕ}, pos ≤ q → q < pos + todo →
      (∀ j, pos ≤ j → j < q → matchLength at' flag j ≠ flag.length) →
      lookupLoop at' flag todo pos = q
  | 0, pos, hle, hlt, _ => absurd hlt (by omega)
  | todo + 1, pos, hle, hlt, hmin => by
    rw [lookupLoop]
    rcases Nat.eq_or_lt_of_le hle with rfl | hlt'
    · rw [if_pos hq]
    · rw [if_neg (hmin pos (Nat.le_refl _) hlt')]
      exact lookupLoop_found hq hlt' (by omega) fun j hj => hmin j (by omega)

/-- The outer loop fails when the flag stands nowhere in its range. -/
theorem lookupLoop_absent {at' : ℕ → UInt8} {flag : Bytes} :
    ∀ {todo pos : ℕ},
      (∀ j, pos ≤ j → j < pos + todo → matchLength at' flag j ≠ flag.length) →
      lookupLoop at' flag todo pos = -1
  | 0, _, _ => rfl
  | todo + 1, pos, hnone => by
    rw [lookupLoop, if_neg (hnone pos (Nat.le_refl _) (by omega))]
    exact lookupLoop_absent fun j hj hlt => hnone j (by omega) (by omega)

theorem matchLength_single {at' : ℕ → UInt8} {f : UInt8} {pos : ℕ} :
    matchLength at' [f] pos = [f].length ↔ at' pos = f := by
  rw [matchLength_eq_length_iff]
  simp [eq_comm]

/-- Within the content the bytes of `bufrcv_` are those of the content. -/
theorem byteAt_eq_content (hu : c.usebuf = false) {j : ℕ} (hj : j < c.content.length) :
    c.byteAt j = c.content[j] := by
  have hcontent : c.content = c.bufrcv.bytes.take c.bytercv := by simp [content, hu]
  have hbuf : j < c.bufrcv.bytes.length := by
    rw [hcontent, List.length_take] at hj
    omega
  simp only [hcontent, List.getElem_take]
  simp [byteAt, hu, List.getD_eq_getElem?_getD, List.getElem?_eq_getElem hbuf]

theorem content_length_le (hu : c.usebuf = false) : c.content.length ≤ c.bytercv := by
  simp only [content, hu, Bool.false_eq_true, ↓reduceIte, List.length_take]
  omega

/-- A content that starts with `text`, free of `f`, and then `f`: the lookup
of `f` finds the end of `text`. -/
theorem lookup_first (hu : c.usebuf = false) {f : UInt8} {text rest : Bytes}
    (hc : c.content = text ++ f :: rest) (hf : f ∉ text) : c.lookup [f] 0 = text.length := by
  have hlen : text.length < c.content.length := by simp [hc]
  have hle := content_length_le hu
  have hat : c.byteAt text.length = f := by
    rw [byteAt_eq_content hu hlen]
    simp [hc]
  have hmin : ∀ j, 0 ≤ j → j < text.length → matchLength c.byteAt [f] j ≠ [f].length := by
    intro j _ hj
    rw [Ne, matchLength_single, byteAt_eq_content hu (by omega)]
    simp only [hc, List.getElem_append_left hj]
    exact fun h => hf (h ▸ List.getElem_mem hj)
  have hz : ¬ (([f] : Bytes).length = 0 ∨ (0 : ℤ) < 0) := by simp
  rw [lookup, if_neg hz]
  exact lookupLoop_found (matchLength_single.mpr hat) (Nat.zero_le _)
    (by simp only [size, hu, List.length_singleton]; simp; omega) hmin

/-- A content without `f`: the lookup of `f` fails. -/
theorem lookup_absent (hu : c.usebuf = false) (hn : c.bytercv ≤ tcpPackSize) {f : UInt8}
    (hf : f ∉ c.content) : c.lookup [f] 0 = -1 := by
  have hlen : c.content.length = c.bytercv := by
    simp [content, hu, c.bufrcv.length_eq, hn]
  have hz : ¬ (([f] : Bytes).length = 0 ∨ (0 : ℤ) < 0) := by simp
  rw [lookup, if_neg hz]
  refine lookupLoop_absent fun j _ hj => ?_
  have hj' : j < c.content.length := by
    simp only [size, hu, List.length_singleton] at hj
    simp at hj
    omega
  rw [Ne, matchLength_single, byteAt_eq_content hu hj']
  exact fun h => hf (h ▸ List.getElem_mem hj')

end TCPClient

end FtServer
