/-
FtServer/ReceiveStream.lean

The receiving side of a TCP connection in the buffered mode.  Each completed
read appends its bytes to the ring `crcrcv_`, and `Read` takes bytes off the
front of it.  `handle_read` does not look at the room in the ring; on a full one
an append overwrites the oldest byte, as `Write` avoids on the sending side.

`streamKept_iff` says for every run that the bytes read and those in the ring
are the bytes received, in order, exactly if every completed read has found room
for its bytes.
-/
import FtServer.Lts
import FtServer.Ring
import FtServer.TCPClient

namespace FtServer

namespace TCPClient

/-- What can happen: a completed read of the bytes `d`, and a call
`Read(buff, len, 0)`. -/
inductive StreamEvent
  | recv (d : Bytes)
  | read (len : ℤ)
  deriving DecidableEq, Repr

/-- `handle_read` without error, once the bytes have landed in `bufrcv_`, and
`Read`. -/
def streamStep (c : TCPClient) : StreamEvent → Option TCPClient
  | .recv d =>
    if 1 ≤ d.length ∧ d.length ≤ tcpPackSize then some ((c.land d).handleRead d.length) else none
  | .read len => some (c.read len 0).2

/-- What a call of `Read` returns. -/
def returned (c : TCPClient) : StreamEvent → Bytes
  | .recv _ => []
  | .read len => (c.read len 0).1

/-- The bytes that arrive. -/
def received (es : List StreamEvent) : Bytes :=
  es.flatMap fun e =>
    match e with
    | .recv d => d
    | .read _ => []

/-- A connection in the buffered mode before anything is received. -/
def buffered (buf : PackBuf) : TCPClient where
  usebuf := true
  bytercv := 0
  bufrcv := buf
  crcrcv := []
  isOpen := true

/-- All bytes received so far have been read, in order, or are in the ring. -/
def StreamKept (buf : PackBuf) (es : List StreamEvent) (c : TCPClient) : Prop :=
  Lts.outputs streamStep returned (buffered buf) es ++ c.crcrcv = received es

/-- The bytes of a completed read fit into the ring. -/
def FitsStep (c : TCPClient) : StreamEvent → Prop
  | .recv d => c.crcrcv.length + d.length ≤ ringCapacity
  | .read _ => True

instance (c : TCPClient) : (e : StreamEvent) → Decidable (FitsStep c e)
  | .recv d => inferInstanceAs (Decidable (c.crcrcv.length + d.length ≤ ringCapacity))
  | .read _ => isTrue trivial

/-! ### The ring -/

/-- `crcrcv` is the contents of a circular buffer. -/
theorem ringPush_contents (r : Ring UInt8 ringCapacity) (b : UInt8) :
    ringPush r.contents b = (r.pushBack b).contents := by
  rw [ringPush, Ring.contents_length]
  by_cases h : r.size < ringCapacity
  · rw [if_pos h, r.contents_pushBack b h]
  · rw [if_neg h, r.contents_pushBack_full b (Nat.le_antisymm r.size_le (Nat.not_lt.mp h))]

theorem foldl_ringPush {ring d : Bytes} (h : ring.length + d.length ≤ ringCapacity) :
    d.foldl ringPush ring = ring ++ d := by
  induction d generalizing ring with
  | nil => simp
  | cons b d ih =>
    have hroom : ring.length < ringCapacity := by
      simp only [List.length_cons] at h
      omega
    rw [List.foldl_cons, ringPush, if_pos hroom, ih (by simp at h ⊢; omega)]
    simp

/-- Appending never makes the ring longer than its capacity. -/
theorem length_foldl_ringPush {ring : Bytes} (h : ring.length ≤ ringCapacity) (d : Bytes) :
    (d.foldl ringPush ring).length = min (ring.length + d.length) ringCapacity := by
  induction d generalizing ring with
  | nil => simpa using (Nat.min_eq_left h).symm
  | cons b d ih =>
    have hlen : (ringPush ring b).length = min (ring.length + 1) ringCapacity := by
      unfold ringPush
      split
      · rw [List.length_append, List.length_singleton]
        omega
      · have hcap : 0 < ringCapacity := by decide
        rw [List.length_append, List.length_tail, List.length_singleton]
        omega
    rw [List.foldl_cons, ih (by rw [hlen]; exact Nat.min_le_right ..), hlen, List.length_cons]
    omega

/-! ### Steps -/

/-- A completed read appends its bytes, as far as there is room. -/
theorem streamStep_recv {c c' : TCPClient} {d : Bytes} (hu : c.usebuf = true)
    (hs : c.streamStep (.recv d) = some c') :
    c'.usebuf = true ∧ c'.crcrcv = d.foldl ringPush c.crcrcv := by
  simp only [streamStep] at hs
  split at hs
  · rename_i hd
    obtain rfl := Option.some.inj hs
    have hbytes : (c.land d).bufrcv.bytes.take d.length = d := c.bufrcv.write_take hd.2
    have hmode : (c.land d).usebuf = true := hu
    rw [handleRead, if_pos hmode, hbytes]
    exact ⟨hmode, rfl⟩
  · cases hs

/-- `Read` takes what it returns off the ring. -/
theorem streamStep_read {c c' : TCPClient} {len : ℤ} (hu : c.usebuf = true)
    (hs : c.streamStep (.read len) = some c') :
    c'.usebuf = true ∧ c.returned (.read len) ++ c'.crcrcv = c.crcrcv := by
  obtain rfl := Option.some.inj hs
  simp only [returned, read]
  split
  · exact ⟨hu, rfl⟩
  · exact ⟨hu, List.prefix_iff_eq_append.mp (List.take_prefix ..)⟩

/-! ### Runs -/

theorem received_cons (e : StreamEvent) (es : List StreamEvent) :
    received (e :: es) = received [e] ++ received es := by
  simp [received]

/-- What is read and what is in the ring in the end was in the ring or has been
received. -/
theorem length_stream_le {es : List StreamEvent} {c c' : TCPClient} (hu : c.usebuf = true)
    (hc : c.crcrcv.length ≤ ringCapacity) (hrun : Lts.run streamStep c es = some c') :
    (Lts.outputs streamStep returned c es).length + c'.crcrcv.length ≤
      c.crcrcv.length + (received es).length := by
  induction es generalizing c with
  | nil =>
    obtain rfl : c = c' := by simpa using hrun
    simp [Lts.outputs, received]
  | cons e es ih =>
    obtain ⟨c₁, h₁, hr⟩ := Lts.run_cons_inv hrun
    simp only [Lts.outputs, h₁, List.length_append]
    rw [received_cons, List.length_append]
    cases e with
    | recv d =>
      obtain ⟨hu₁, hring⟩ := streamStep_recv hu h₁
      have hlen := length_foldl_ringPush hc d
      rw [← hring] at hlen
      have hrest := ih hu₁ (by omega) hr
      simp [returned, received] at hrest ⊢
      omega
    | read len =>
      obtain ⟨hu₁, hring⟩ := streamStep_read hu h₁
      have hlen := congrArg List.length hring
      rw [List.length_append] at hlen
      have hrest := ih hu₁ (by omega) hr
      simp only [received, List.flatMap_cons, List.flatMap_nil, List.append_nil,
        List.length_nil] at hrest ⊢
      omega

/-- **From any state of the buffered mode** the stream goes on without a loss
exactly if every completed read finds room. -/
theorem stream_kept_iff {es : List StreamEvent} {c c' : TCPClient} (hu : c.usebuf = true)
    (hc : c.crcrcv.length ≤ ringCapacity) (hrun : Lts.run streamStep c es = some c') :
    Lts.outputs streamStep returned c es ++ c'.crcrcv = c.crcrcv ++ received es ↔
      Lts.RunAll streamStep FitsStep c es := by
  induction es generalizing c with
  | nil =>
    obtain rfl : c = c' := by simpa using hrun
    simp [Lts.outputs, received, Lts.RunAll]
  | cons e es ih =>
    obtain ⟨c₁, h₁, hr⟩ := Lts.run_cons_inv hrun
    rw [Lts.runAll_cons h₁, received_cons]
    simp only [Lts.outputs, h₁]
    cases e with
    | recv d =>
      obtain ⟨hu₁, hring⟩ := streamStep_recv hu h₁
      have hlen := length_foldl_ringPush hc d
      rw [← hring] at hlen
      have hrec : received [.recv d] = d := by simp [received]
      rw [hrec, returned, List.nil_append, FitsStep]
      by_cases hfit : c.crcrcv.length + d.length ≤ ringCapacity
      · rw [foldl_ringPush hfit] at hring
        rw [← ih hu₁ (by omega) hr, hring, List.append_assoc]
        simp [hfit]
      · -- a byte has been overwritten, and there are too few ever after
        have hrest := length_stream_le hu₁ (by omega) hr
        refine iff_of_false (fun h => ?_) fun h => hfit h.1
        have hlength := congrArg List.length h
        simp only [List.length_append] at hlength
        omega
    | read len =>
      obtain ⟨hu₁, hring⟩ := streamStep_read hu h₁
      have hlen := congrArg List.length hring
      rw [List.length_append] at hlen
      have hrec : received [.read len] = [] := rfl
      rw [hrec, List.nil_append, ← ih hu₁ (by omega) hr, ← hring, List.append_assoc,
        List.append_assoc, List.append_cancel_left_eq]
      simp [FitsStep]

/-- **Nothing is lost exactly if every completed read has found room** for its
bytes in the ring. -/
theorem streamKept_iff {buf : PackBuf} {es : List StreamEvent} {c : TCPClient}
    (hrun : Lts.run streamStep (buffered buf) es = some c) :
    StreamKept buf es c ↔ Lts.RunAll streamStep FitsStep (buffered buf) es := by
  rw [← stream_kept_iff rfl (Nat.zero_le _) hrun]
  rfl

/-- Two bytes, and one of them read. -/
theorem streamKept_two : ∃ c : TCPClient,
    Lts.run streamStep (buffered zeroBuf) [.recv [1, 2], .read 1] = some c ∧ c.crcrcv = [2] ∧
      StreamKept zeroBuf [.recv [1, 2], .read 1] c := by
  have hok : Lts.RunAll streamStep FitsStep (buffered zeroBuf) [.recv [1, 2], .read 1] := by
    decide +kernel
  have heval : (Lts.run streamStep (buffered zeroBuf) [.recv [1, 2], .read 1]).map (·.crcrcv) =
      some [2] := by
    decide +kernel
  obtain ⟨c, hrun, hring⟩ := Option.map_eq_some_iff.mp heval
  exact ⟨c, hrun, hring, (streamKept_iff hrun).mpr hok⟩

/-- The ring never exceeds its capacity. -/
theorem crcrcv_length_le {buf : PackBuf} {es : List StreamEvent} {c : TCPClient}
    (hrun : Lts.run streamStep (buffered buf) es = some c) : c.crcrcv.length ≤ ringCapacity := by
  have hstep : ∀ (c : TCPClient) e c', c.usebuf = true ∧ c.crcrcv.length ≤ ringCapacity →
      c.streamStep e = some c' → c'.usebuf = true ∧ c'.crcrcv.length ≤ ringCapacity := by
    intro c e c' h hs
    cases e with
    | recv d =>
      obtain ⟨hu, hring⟩ := streamStep_recv h.1 hs
      exact ⟨hu, by rw [hring, length_foldl_ringPush h.2]; exact Nat.min_le_right ..⟩
    | read len =>
      obtain ⟨hu, hring⟩ := streamStep_read h.1 hs
      have hlen := congrArg List.length hring
      rw [List.length_append] at hlen
      exact ⟨hu, by omega⟩
  exact (Lts.run_invariant hstep ⟨rfl, Nat.zero_le _⟩ hrun).2

/-- Eleven full packs that nobody reads. -/
def unread : List StreamEvent := List.replicate 11 (.recv zeroBuf.bytes)

/-- The first of them is lost. -/
theorem not_streamKept : ¬ ∀ (es : List StreamEvent) (c : TCPClient),
    Lts.run streamStep (buffered zeroBuf) es = some c → StreamKept zeroBuf es c := by
  intro hall
  have henabled : (Lts.run streamStep (buffered zeroBuf) unread).isSome = true := by
    decide +kernel
  obtain ⟨c, hrun⟩ := Option.isSome_iff_exists.mp henabled
  have hnone : Lts.outputs streamStep returned (buffered zeroBuf) unread = [] := by
    decide +kernel
  have hlength : (received unread).length = 16500 := by
    decide +kernel
  have hkept := hall unread c hrun
  rw [StreamKept, hnone, List.nil_append] at hkept
  have hle := crcrcv_length_le hrun
  rw [hkept, hlength] at hle
  exact absurd hle (by decide)

end TCPClient

end FtServer
