/-
FtServer/Received.lean

The received data in both modes of a connection.  `Lookup` and `Read` are two
pieces of code each, one for the ring and one for the flat buffer.

`lookup_spec` says that `Lookup` finds the first occurrence of a flag, whatever
the mode.  `lookupIn` is the same search with checked access: it fails when an
index past the content is read.  `readsExactly_iff` says when `Read` removes what
it returned: the ring gives up as many bytes as were read, but from its front,
and the flat buffer gives up none.
-/
import Mathlib.Order.Bounds.Basic
import Mathlib.Order.Lattice.Nat
import FtServer.ReceiveStream

namespace FtServer

namespace TCPClient

variable {c : TCPClient}

/-- What is received fits into its buffer. -/
structure Valid (c : TCPClient) : Prop where
  bytercv : c.bytercv ≤ tcpPackSize
  crcrcv : c.crcrcv.length ≤ ringCapacity

/-- A completed read of at most a pack keeps the bounds. -/
theorem Valid.handleRead (h : c.Valid) {n : ℕ} (hn : n ≤ tcpPackSize) :
    (c.handleRead n).Valid := by
  rw [TCPClient.handleRead]
  split
  · refine ⟨h.bytercv, ?_⟩
    dsimp only
    rw [length_foldl_ringPush h.crcrcv]
    exact Nat.min_le_right _ _
  · exact ⟨hn, h.crcrcv⟩

theorem Valid.read (h : c.Valid) (len start : ℤ) : (c.read len start).2.Valid := by
  rw [TCPClient.read]
  split
  · exact h
  · split
    · refine ⟨h.bytercv, ?_⟩
      have hle := h.crcrcv
      simp only [List.length_drop]
      omega
    · exact h

/-- A connection that is valid at the start is valid at the end of every run, in
both modes. -/
theorem Valid.streamRun (h : c.Valid) {es : List StreamEvent} {c' : TCPClient}
    (hrun : Lts.run streamStep c es = some c') : c'.Valid := by
  have hstep : ∀ (c : TCPClient) e c', c.Valid → c.streamStep e = some c' → c'.Valid := by
    intro c e c' h hs
    cases e with
    | recv d =>
      rw [streamStep, Option.ite_none_right_eq_some, Option.some.injEq] at hs
      obtain ⟨hd, rfl⟩ := hs
      have hland : (c.land d).Valid := ⟨h.bytercv, h.crcrcv⟩
      exact hland.handleRead hd.2
    | read len =>
      rw [streamStep, Option.some.injEq] at hs
      exact hs ▸ h.read len 0
  exact Lts.run_invariant hstep h hrun

theorem content_length (h : c.Valid) : c.content.length = c.size := by
  rw [content, size]
  split
  · rfl
  · rw [List.length_take, c.bufrcv.length_eq, Nat.min_eq_left h.bytercv]

/-- Below its length the bytes of the content are those of the buffer. -/
theorem getElem?_content {j : ℕ} (hj : j < c.content.length) :
    c.content[j]? = some (c.byteAt j) := by
  rw [List.getElem?_eq_getElem hj]
  cases hu : c.usebuf with
  | false => rw [byteAt_eq_content hu hj]
  | true =>
    have hcontent : c.content = c.crcrcv := by simp [content, hu]
    simp only [hcontent] at hj ⊢
    simp [byteAt, hu, List.getD_eq_getElem?_getD, List.getElem?_eq_getElem hj]

/-! ### The search with checked access -/

/-- The inner loop; `none` when a byte past the content is read. -/
def matchIn (content : Bytes) : Bytes → ℕ → Option ℕ
  | [], _ => some 0
  | f :: fs, j => do
    let b ← content[j]?
    if f = b then (matchIn content fs (j + 1)).map (· + 1) else some 0

/-- The outer loop. -/
def lookupLoopIn (content flag : Bytes) : ℕ → ℕ → Option ℤ
  | 0, _ => some (-1)
  | todo + 1, pos => do
    let i ← matchIn content flag pos
    if i = flag.length then some pos else lookupLoopIn content flag todo (pos + 1)

/-- `Lookup` on a content. -/
def lookupIn (content flag : Bytes) (start : ℤ) : Option ℤ :=
  if flag.length = 0 ∨ start < 0 then some (-1)
  else
    let n : ℤ := content.length - flag.length
    lookupLoopIn content flag (n + 1 - start).toNat start.toNat

/-- Inside the content the checked loop is the loop of the code. -/
theorem matchIn_eq {content : Bytes} {at' : ℕ → UInt8} :
    ∀ {flag : Bytes} {pos : ℕ},
      (∀ j, pos ≤ j → j < pos + flag.length → content[j]? = some (at' j)) →
      matchIn content flag pos = some (matchLength at' flag pos)
  | [], _, _ => rfl
  | f :: fs, pos, h => by
    rw [List.length_cons] at h
    have hrest := @matchIn_eq content at' fs (pos + 1) fun j hj hlt => h j (by omega) (by omega)
    rw [matchIn, h pos (Nat.le_refl _) (by omega), matchLength, hrest]
    by_cases hf : f = at' pos <;> simp [hf]

theorem lookupLoopIn_eq {content flag : Bytes} {at' : ℕ → UInt8} :
    ∀ {todo pos : ℕ},
      (∀ j, 0 < todo → j + 1 < pos + todo + flag.length → content[j]? = some (at' j)) →
      lookupLoopIn content flag todo pos = some (lookupLoop at' flag todo pos)
  | 0, _, _ => rfl
  | todo + 1, pos, h => by
    have hmatch := @matchIn_eq content at' flag pos fun j _ hlt =>
      h j (by omega) (by omega)
    have hrest := @lookupLoopIn_eq content flag at' todo (pos + 1) fun j _ hlt =>
      h j (by omega) (by omega)
    rw [lookupLoopIn, hmatch, lookupLoop, hrest]
    by_cases hi : matchLength at' flag pos = flag.length <;> simp [hi]

/-- **`Lookup` reads inside the content only**, and nothing else decides. -/
theorem lookupIn_content (h : c.Valid) {flag : Bytes} {start : ℤ} :
    lookupIn c.content flag start = some (c.lookup flag start) := by
  rw [lookupIn, lookup]
  split
  · rfl
  · rw [content_length h]
    refine lookupLoopIn_eq fun j htodo hj => getElem?_content ?_
    rw [content_length h]
    omega

/-! ### The first occurrence -/

/-- The places from `start` on where the flag stands. -/
def occurrences (content flag : Bytes) (start : ℤ) : Set ℕ :=
  {p | start ≤ p ∧ (content.drop p).take flag.length = flag}

/-- A flag that stands somewhere ends inside the content. -/
theorem add_length_le_of_take {content flag : Bytes} {p : ℕ} (hf : flag ≠ [])
    (h : (content.drop p).take flag.length = flag) : p + flag.length ≤ content.length := by
  have hpos := List.length_pos_iff.mpr hf
  have hlen := congrArg List.length h
  rw [List.length_take, List.length_drop] at hlen
  omega

/-- Inside the content the inner loop decides whether the flag stands there. -/
theorem matchLength_iff_take {flag : Bytes} {p : ℕ}
    (hp : p + flag.length ≤ c.content.length) :
    matchLength c.byteAt flag p = flag.length ↔ (c.content.drop p).take flag.length = flag := by
  rw [matchLength_eq_length_iff]
  constructor
  · intro hmatch
    apply List.ext_getElem?
    intro k
    rw [List.getElem?_take]
    split
    · rename_i hk
      rw [List.getElem?_drop, getElem?_content (by omega), List.getElem?_eq_getElem hk,
        hmatch k hk]
    · rw [List.getElem?_eq_none (by omega)]
  · intro htake k hk
    have hget := congrArg (·[k]?) htake
    simp only [List.getElem?_take_of_lt hk, List.getElem?_drop, List.getElem?_eq_getElem hk] at hget
    rw [getElem?_content (by omega), Option.some.injEq] at hget
    exact hget.symm

variable {flag : Bytes} {start : ℤ}

/-- A place where the flag stands, and no earlier one. -/
theorem lookup_of_isLeast (h : c.Valid) (hf : flag ≠ []) (hs : 0 ≤ start) {p : ℕ}
    (hp : IsLeast (occurrences c.content flag start) p) : c.lookup flag start = p := by
  obtain ⟨⟨hstart, htake⟩, hleast⟩ := hp
  have hpos := List.length_pos_iff.mpr hf
  have hend := add_length_le_of_take hf htake
  have hguard : ¬ (flag.length = 0 ∨ start < 0) := by omega
  have hsize := content_length h
  rw [lookup, if_neg hguard]
  apply lookupLoop_found ((matchLength_iff_take hend).mpr htake) (by omega) (by omega)
  intro j hj hlt hmatch
  have hoccurs := (matchLength_iff_take (by omega)).mp hmatch
  have hle := hleast ⟨by omega, hoccurs⟩
  omega

/-- No such place. -/
theorem lookup_of_empty (h : c.Valid) (hf : flag ≠ []) (hs : 0 ≤ start)
    (hnone : occurrences c.content flag start = ∅) : c.lookup flag start = -1 := by
  have hpos := List.length_pos_iff.mpr hf
  have hguard : ¬ (flag.length = 0 ∨ start < 0) := by omega
  have hsize := content_length h
  rw [lookup, if_neg hguard]
  apply lookupLoop_absent
  intro j hj hlt hmatch
  have hoccurs := (matchLength_iff_take (by omega)).mp hmatch
  exact Set.notMem_empty j (hnone ▸ ⟨by omega, hoccurs⟩)

/-- **`Lookup` finds the first occurrence.**  It returns the first place where
the flag stands, and -1 exactly when there is none; it reads inside the content
only, and another connection with the same content gives the same answer. -/
theorem lookup_spec (h : c.Valid) (hf : flag ≠ []) (hs : 0 ≤ start) :
    (∀ p : ℕ, c.lookup flag start = p ↔ IsLeast (occurrences c.content flag start) p) ∧
      (c.lookup flag start = -1 ↔ occurrences c.content flag start = ∅) ∧
      lookupIn c.content flag start = some (c.lookup flag start) ∧
      ∀ c' : TCPClient, c'.Valid → c'.content = c.content →
        c'.lookup flag start = c.lookup flag start := by
  refine ⟨fun p => ⟨fun hp => ?_, lookup_of_isLeast h hf hs⟩, ⟨fun hnone => ?_,
    lookup_of_empty h hf hs⟩, lookupIn_content h, fun c' h' hc => ?_⟩
  · rcases Set.eq_empty_or_nonempty (occurrences c.content flag start) with hempty | hne
    · have hnone := lookup_of_empty h hf hs hempty
      omega
    · have hleast : IsLeast _ _ := ⟨Nat.sInf_mem hne, fun _ hq => Nat.sInf_le hq⟩
      have hfound := lookup_of_isLeast h hf hs hleast
      have heq : p = sInf (occurrences c.content flag start) := by omega
      exact heq ▸ hleast
  · by_contra hne
    have hleast : IsLeast _ _ := ⟨Nat.sInf_mem (Set.nonempty_iff_ne_empty.mpr hne),
      fun _ hq => Nat.sInf_le hq⟩
    have hfound := lookup_of_isLeast h hf hs hleast
    omega
  · have hin := @lookupIn_content c h flag start
    rw [← hc, lookupIn_content h', Option.some.injEq] at hin
    exact hin

/-- The ring that holds `d`. -/
def ringOf (d : Bytes) : TCPClient where
  usebuf := true
  bytercv := 0
  bufrcv := zeroBuf
  crcrcv := d
  isOpen := true

theorem lookup_spec_overlap :
    (ringOf (lit "aaab")).lookup (lit "aab") 0 = 1 ∧
      IsLeast (occurrences (lit "aaab") (lit "aab") 0) 1 := by
  have hvalid : (ringOf (lit "aaab")).Valid := ⟨by decide, by decide⟩
  have hfound : (ringOf (lit "aaab")).lookup (lit "aab") 0 = (1 : ℕ) := by decide
  exact ⟨hfound, ((lookup_spec hvalid (by decide) (Int.le_refl 0)).1 1).mp hfound⟩

/-! ### Read -/

/-- The number of bytes that there are to read. -/
def readCount (content : Bytes) (len start : ℤ) : ℕ :=
  (min len (max 0 (content.length - start))).toNat

/-- **`Read` removes what it returned**: it copies the bytes from `start` on, as
many as there are up to `len`, and leaves the content without them. -/
structure ReadsExactly (c : TCPClient) (len start : ℤ) : Prop where
  count : ((c.read len start).1.length : ℤ) = min len (max 0 (c.content.length - start))
  copied : (c.read len start).1 =
    (c.content.drop start.toNat).take (readCount c.content len start)
  removed : (c.read len start).2.content =
    c.content.take start.toNat ++ c.content.drop (start.toNat + readCount c.content len start)

/-- There is nothing to read, or the ring is used and the bytes before the
segment are those at its front again, moved by its length. -/
def FrontRepeats (c : TCPClient) (len start : ℤ) : Prop :=
  (c.content.length : ℤ) ≤ start ∨ c.usebuf = true ∧
    ∀ k < start.toNat, c.content[k]? = c.content[k + readCount c.content len start]?

variable {len : ℤ}

/-- What is copied, in both modes. -/
theorem read_copied (hl : 0 < len) (hs : 0 ≤ start) :
    (c.read len start).1 = (c.content.drop start.toNat).take (readCount c.content len start) := by
  have hguard : ¬ (len ≤ 0 ∨ start < 0) := by omega
  rw [read, if_neg hguard]
  cases hu : c.usebuf with
  | true =>
    have hcontent : c.content = c.crcrcv := by simp [content, hu]
    simp only [hcontent, if_true]
    rw [List.drop_take, List.take_eq_take_iff, List.length_drop, readCount]
    omega
  | false =>
    have hcontent : c.content = c.bufrcv.bytes.take c.bytercv := by simp [content, hu]
    simp only [hcontent, Bool.false_eq_true, if_false]
    rw [List.drop_take, List.take_take, List.take_eq_take_iff, List.length_drop, readCount,
      List.length_take]
    split <;> omega

/-- What is left: the ring gives up bytes at its front. -/
theorem read_content (hl : 0 < len) (hs : 0 ≤ start) :
    (c.read len start).2.content =
      if c.usebuf then c.content.drop (c.read len start).1.length else c.content := by
  have hguard : ¬ (len ≤ 0 ∨ start < 0) := by omega
  rw [read, if_neg hguard]
  cases hu : c.usebuf <;> simp [content, hu]

theorem read_count (hl : 0 < len) (hs : 0 ≤ start) :
    (c.read len start).1.length = readCount c.content len start := by
  rw [read_copied hl hs, List.length_take, List.length_drop, readCount]
  omega

/-- Taking `r` bytes off the front leaves what taking them off at `s` leaves when
the first `s` bytes repeat. -/
theorem drop_eq_removed_iff {content : Bytes} {s r : ℕ} :
    content.drop r = content.take s ++ content.drop (s + r) ↔
      ∀ k < s, content[k]? = content[k + r]? := by
  have hsplit : content.drop r = (content.drop r).take s ++ content.drop (s + r) := by
    rw [Nat.add_comm, ← List.drop_drop, List.take_append_drop]
  rw [hsplit, List.append_left_inj]
  constructor
  · intro heq k hk
    have hget := congrArg (·[k]?) heq
    simp only [List.getElem?_take_of_lt hk, List.getElem?_drop] at hget
    rw [← hget, Nat.add_comm]
  · intro heq
    apply List.ext_getElem?
    intro k
    rw [List.getElem?_take, List.getElem?_take]
    split
    · rename_i hk
      rw [List.getElem?_drop, heq k hk, Nat.add_comm]
    · rfl

/-- **When `Read` removes what it returned.** -/
theorem readsExactly_iff (hl : 0 < len) (hs : 0 ≤ start) :
    c.ReadsExactly len start ↔ c.FrontRepeats len start := by
  have hcount := read_count (c := c) hl hs
  have hcontent := read_content (c := c) hl hs
  have hcopied := read_copied (c := c) hl hs
  have hremoved : c.ReadsExactly len start ↔ (c.read len start).2.content =
      c.content.take start.toNat ++
        c.content.drop (start.toNat + readCount c.content len start) := by
    refine ⟨ReadsExactly.removed, fun h => ⟨?_, hcopied, h⟩⟩
    rw [hcount, readCount]
    omega
  rw [hremoved, hcontent, hcount, FrontRepeats]
  rcases Int.lt_or_le start c.content.length with hlt | hle
  · have hpos : 0 < readCount c.content len start := by
      rw [readCount]
      omega
    rw [or_iff_right (by omega)]
    cases hu : c.usebuf with
    | true =>
      rw [if_pos rfl, drop_eq_removed_iff]
      simp
    | false =>
      -- the segment is still there
      refine iff_of_false (fun h => ?_) (by simp)
      have hlen := congrArg List.length h
      simp only [Bool.false_eq_true, if_false, List.length_append, List.length_take,
        List.length_drop] at hlen
      omega
  · have hnone : readCount c.content len start = 0 := by
      rw [readCount]
      omega
    rw [hnone]
    refine iff_of_true ?_ (.inl hle)
    simp

/-- From the front of the ring. -/
theorem readsExactly_front : (ringOf (lit "ab\n")).ReadsExactly 2 0 :=
  (readsExactly_iff (by decide) (by decide)).mpr (.inr ⟨rfl, by simp⟩)

/-- From the middle of the ring: `cd` is returned and `cd` is left. -/
theorem not_readsExactly_middle :
    ¬ ∀ (c : TCPClient) (len start : ℤ), c.Valid → 0 < len → 0 ≤ start →
      c.ReadsExactly len start := by
  intro h
  have hread := (h (ringOf (lit "abcd")) 2 2 ⟨by decide, by decide⟩ (by decide) (by decide)).removed
  exact absurd hread (by decide)

end TCPClient

end FtServer
