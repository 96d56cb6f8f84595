/-
FtServer/SendPipeline.lean

The sending side of a TCP connection.  In the unbuffered mode `Write` hands the
bytes to the socket at once.  In the buffered mode it appends them to the ring
`crcsnd_`, and one asynchronous write after the other takes them from there: the
first is started by a `Write` that finds the ring empty, each further one by the
completion of the one before.

`Pipeline` is what holds of the buffered mode in every reachable state, and
`pipeline` says so: nothing that `Write` accepted is lost, repeated or sent out
of order, and one write is outstanding as long as there is something to send.
-/
import FtServer.Lts
import FtServer.Ring
import FtServer.TCPClient

namespace FtServer

/-! ### The connection -/

/-- An asynchronous write that is outstanding: the stretch of memory it sends,
and what was in it when it was started. -/
structure WriteRequest where
  ptr : ℕ
  len : ℕ
  bytes : Bytes
  deriving DecidableEq, Repr

/-- The sending side of `TCPClient`, the asynchronous writes that are
outstanding, and the bytes given to the socket so far. -/
structure TCPSender where
  usebuf : Bool
  crcsnd : Ring UInt8 ringCapacity
  requests : List WriteRequest
  wire : Bytes

namespace TCPSender

/-- A new connection; `UseBuffer` has been called or not.  `mem` is what the
memory of the ring happens to contain. -/
def init (usebuf : Bool) (mem : Bytes) (h : mem.length = ringCapacity) : TCPSender where
  usebuf := usebuf
  crcsnd := .empty mem h (by decide)
  requests := []
  wire := []

variable (c : TCPSender)

/-- `start_write`. -/
def startWrite : TCPSender :=
  let n := c.crcsnd.size
  if n = 0 then c
  else
    let ring := c.crcsnd.linearize
    { c with
      crcsnd := ring
      requests := c.requests ++ [⟨ring.first, n, ring.slice ring.first n⟩] }

/-- `Write`: the value it returns, and the connection afterwards.  In the
unbuffered mode `write_some` takes `taken` bytes. -/
def write (buff : Bytes) (taken : ℕ) : ℕ × TCPSender :=
  if buff.length = 0 then (0, c)
  else if c.usebuf then
    let n0 := c.crcsnd.size
    let n := if buff.length < ringCapacity - n0 then buff.length else ringCapacity - n0
    let c := { c with crcsnd := (buff.take n).foldl Ring.pushBack c.crcsnd }
    (n, if n0 = 0 ∧ n ≠ 0 then c.startWrite else c)
  else (taken, { c with wire := c.wire ++ buff.take taken })

/-- `handle_write` without error. -/
def handleWrite (n : ℕ) : TCPSender :=
  { c with crcsnd := c.crcsnd.eraseBegin n }.startWrite

/-- What can happen: a call of `Write`, and the completion of an asynchronous
write, the `i`-th of those outstanding, after `k` bytes. -/
inductive Event
  | write (buff : Bytes) (taken : ℕ)
  | complete (i k : ℕ)
  deriving DecidableEq, Repr

def step : Event → Option TCPSender
  | .write buff taken =>
    if c.usebuf ∨ buff.length = 0 ∨ (1 ≤ taken ∧ taken ≤ buff.length) then
      some (c.write buff taken).2
    else none
  | .complete i k =>
    match c.requests[i]? with
    | none => none
    | some q =>
      -- the socket takes the first `k` bytes of the stretch
      if 1 ≤ k ∧ k ≤ q.len then
        let c := { c with
          wire := c.wire ++ (c.crcsnd.slice q.ptr q.len).take k
          requests := c.requests.eraseIdx i }
        some (c.handleWrite k)
      else none

/-- The part of the data that a call accepts. -/
def accepted : Event → Bytes
  | .write buff taken => buff.take (c.write buff taken).1
  | .complete _ _ => []

/-! ### The buffered mode -/

variable {c}

theorem startWrite_of_empty (h : c.crcsnd.size = 0) : c.startWrite = c := by
  rw [startWrite, if_pos h]

theorem startWrite_contents : c.startWrite.crcsnd.contents = c.crcsnd.contents := by
  unfold startWrite
  dsimp only
  split
  · rfl
  · exact c.crcsnd.contents_linearize

@[simp] theorem startWrite_usebuf : c.startWrite.usebuf = c.usebuf := by
  unfold startWrite
  dsimp only
  split <;> rfl

@[simp] theorem startWrite_wire : c.startWrite.wire = c.wire := by
  unfold startWrite
  dsimp only
  split <;> rfl

/-- The ring with as much of the data appended as there is room for. -/
def append (buff : Bytes) : TCPSender :=
  { c with
    crcsnd := (buff.take (min buff.length (ringCapacity - c.crcsnd.size))).foldl
      Ring.pushBack c.crcsnd }

/-- `Write` in the buffered mode. -/
theorem write_buffered (hu : c.usebuf = true) (buff : Bytes) (taken : ℕ) :
    c.write buff taken = (min buff.length (ringCapacity - c.crcsnd.size),
      if c.crcsnd.size = 0 ∧ min buff.length (ringCapacity - c.crcsnd.size) ≠ 0
      then (c.append buff).startWrite else c.append buff) := by
  unfold write
  by_cases hb : buff.length = 0
  · obtain rfl := List.eq_nil_of_length_eq_zero hb
    simp [append]
  · have hmin : (if buff.length < ringCapacity - c.crcsnd.size then buff.length
        else ringCapacity - c.crcsnd.size) = min buff.length (ringCapacity - c.crcsnd.size) := by
      split <;> omega
    rw [if_neg hb, if_pos hu]
    dsimp only
    rw [hmin]
    rfl

/-- `Write` in the unbuffered mode. -/
theorem write_unbuffered (hu : c.usebuf = false) (buff : Bytes) (taken : ℕ) :
    (c.write buff taken).2 = { c with wire := c.wire ++ buff.take taken } := by
  unfold write
  by_cases hb : buff.length = 0
  · obtain rfl := List.eq_nil_of_length_eq_zero hb
    simp
  · rw [if_neg hb, if_neg (by simp [hu])]

theorem append_room (buff : Bytes) :
    c.crcsnd.size + (buff.take (min buff.length (ringCapacity - c.crcsnd.size))).length ≤
      ringCapacity := by
  have hsize := c.crcsnd.size_le
  rw [List.length_take]
  omega

theorem append_contents (buff : Bytes) : (c.append buff).crcsnd.contents =
    c.crcsnd.contents ++ buff.take (min buff.length (ringCapacity - c.crcsnd.size)) :=
  (Ring.foldl_pushBack _ c.crcsnd (append_room buff)).1

/-- What `Write` appends to the ring is what it says it accepted. -/
theorem write_contents (hu : c.usebuf = true) (buff : Bytes) (taken : ℕ) :
    (c.write buff taken).2.crcsnd.contents =
      c.crcsnd.contents ++ buff.take (c.write buff taken).1 := by
  rw [write_buffered hu]
  dsimp only
  split
  · rw [startWrite_contents, append_contents]
  · rw [append_contents]

/-! ### The pipeline -/

/-- What holds of the buffered mode, for the bytes accepted so far. -/
structure Pipeline (c : TCPSender) (accepted : Bytes) : Prop where
  stream : c.wire ++ c.crcsnd.contents = accepted
  single : c.requests.length ≤ 1
  outstanding : c.requests ≠ [] ↔ c.crcsnd.contents ≠ []
  covered : ∀ q ∈ c.requests, q.len ≤ c.crcsnd.contents.length ∧
    c.crcsnd.slice q.ptr q.len = c.crcsnd.contents.take q.len
  frozen : ∀ q ∈ c.requests, c.crcsnd.slice q.ptr q.len = q.bytes
  bounded : c.crcsnd.contents.length ≤ 15000
  appended : ∀ buff taken, (c.write buff taken).2.crcsnd.contents =
    c.crcsnd.contents ++ buff.take (c.write buff taken).1

/-- The invariant behind it: the request sends from the first element on, and
does not run over the end of the memory. -/
structure PipelineInv (c : TCPSender) (accepted : Bytes) : Prop where
  usebuf : c.usebuf = true
  stream : c.wire ++ c.crcsnd.contents = accepted
  requests : c.crcsnd.size = 0 ∧ c.requests = [] ∨ ∃ q, c.requests = [q] ∧ 0 < q.len ∧
    q.ptr = c.crcsnd.first ∧ q.len ≤ c.crcsnd.size ∧ c.crcsnd.first + q.len ≤ ringCapacity ∧
    c.crcsnd.slice q.ptr q.len = q.bytes

theorem PipelineInv.result {accepted : Bytes} (h : PipelineInv c accepted) :
    Pipeline c accepted := by
  have hsize := c.crcsnd.size_le
  refine ⟨h.stream, ?_, ?_, ?_, ?_, by rwa [Ring.contents_length], write_contents h.usebuf⟩
  all_goals rcases h.requests with ⟨hzero, hnone⟩ | ⟨q, hq, hpos, hptr, hlen, hend, hbytes⟩
  · simp [hnone]
  · simp [hq]
  · have hempty : c.crcsnd.contents = [] := List.eq_nil_of_length_eq_zero (by simpa using hzero)
    simp [hnone, hempty]
  · have hne : c.crcsnd.contents ≠ [] := by
      intro hempty
      have hlength := c.crcsnd.contents_length
      simp only [hempty, List.length_nil] at hlength
      omega
    simp [hq, hne]
  · simp [hnone]
  · intro q' hq'
    obtain rfl : q' = q := by simpa [hq] using hq'
    exact ⟨by simpa using hlen, hptr ▸ c.crcsnd.slice_first hlen hend⟩
  · simp [hnone]
  · intro q' hq'
    obtain rfl : q' = q := by simpa [hq] using hq'
    exact hbytes

/-! ### Steps -/

/-- Starting a write when none is outstanding. -/
theorem PipelineInv.startWrite {accepted : Bytes} (hu : c.usebuf = true)
    (hstream : c.wire ++ c.crcsnd.contents = accepted) (hnone : c.requests = []) :
    PipelineInv c.startWrite accepted := by
  refine ⟨by simpa using hu, by rw [startWrite_wire, startWrite_contents]; exact hstream, ?_⟩
  by_cases hzero : c.crcsnd.size = 0
  · rw [startWrite_of_empty hzero]
    exact .inl ⟨hzero, hnone⟩
  · have hstart : c.startWrite = { c with
        crcsnd := c.crcsnd.linearize
        requests := c.requests ++ [⟨c.crcsnd.linearize.first, c.crcsnd.size,
          c.crcsnd.linearize.slice c.crcsnd.linearize.first c.crcsnd.size⟩] } := by
      rw [TCPSender.startWrite, if_neg hzero]
    have hend := c.crcsnd.linearize_end_le
    have hsize := c.crcsnd.size_linearize
    rw [hstart, hnone]
    refine .inr ⟨_, rfl, Nat.pos_of_ne_zero hzero, rfl, ?_, ?_, rfl⟩
    · exact Nat.le_of_eq hsize.symm
    · rwa [hsize] at hend

theorem PipelineInv.write {accepted : Bytes} (h : PipelineInv c accepted) (buff : Bytes)
    (taken : ℕ) :
    PipelineInv (c.write buff taken).2 (accepted ++ buff.take (c.write buff taken).1) := by
  rw [write_buffered h.usebuf]
  dsimp only
  have hstream : (c.append buff).wire ++ (c.append buff).crcsnd.contents =
      accepted ++ buff.take (min buff.length (ringCapacity - c.crcsnd.size)) := by
    rw [append_contents, ← h.stream, List.append_assoc]
    rfl
  rcases h.requests with ⟨hzero, hnone⟩ | ⟨q, hq, hpos, hptr, hlen, hend, hbytes⟩
  · -- the ring was empty: a write is started if there is something to send
    split
    · exact .startWrite h.usebuf hstream hnone
    · rename_i hn
      have hn0 : min buff.length (ringCapacity - c.crcsnd.size) = 0 := by
        by_contra hne
        exact hn ⟨hzero, hne⟩
      refine ⟨h.usebuf, hstream, .inl ⟨?_, hnone⟩⟩
      rw [append, hn0, List.take_zero]
      exact hzero
  · -- the request goes on over the same bytes
    have hroom := append_room (c := c) buff
    obtain ⟨-, hfirst⟩ := Ring.foldl_pushBack _ c.crcsnd hroom
    rw [if_neg (by omega)]
    refine ⟨h.usebuf, hstream, .inr ⟨q, hq, hpos, hptr.trans hfirst.symm, ?_, ?_, ?_⟩⟩
    · rw [← Ring.contents_length, append_contents, List.length_append, Ring.contents_length]
      omega
    · rw [append, hfirst]
      exact hend
    · rw [hptr] at hbytes ⊢
      exact (Ring.slice_foldl_pushBack _ _ hroom hlen hend).trans hbytes

theorem PipelineInv.step {accepted : Bytes} {e : Event} {c' : TCPSender}
    (h : PipelineInv c accepted) (hs : c.step e = some c') :
    PipelineInv c' (accepted ++ c.accepted e) := by
  cases e with
  | write buff taken =>
    rw [TCPSender.step, if_pos (.inl h.usebuf)] at hs
    obtain rfl := Option.some.inj hs
    exact h.write buff taken
  | complete i k =>
    rcases h.requests with ⟨-, hnone⟩ | ⟨q, hq, hpos, hptr, hlen, hend, hbytes⟩
    · simp [TCPSender.step, hnone] at hs
    · obtain rfl : i = 0 := by
        by_contra hi
        obtain ⟨i, rfl⟩ := Nat.exists_eq_succ_of_ne_zero hi
        simp [TCPSender.step, hq] at hs
      simp only [TCPSender.step, hq, List.getElem?_cons_zero, List.eraseIdx_cons_zero] at hs
      split at hs
      · rename_i hk
        obtain rfl := Option.some.inj hs
        refine .startWrite h.usebuf ?_ rfl
        -- what the socket took is what is erased
        have hslice : (c.crcsnd.slice q.ptr q.len).take k = c.crcsnd.contents.take k := by
          rw [hptr, c.crcsnd.slice_first hlen hend, List.take_take, Nat.min_eq_left hk.2]
        simp only [hslice, Ring.contents_eraseBegin, TCPSender.accepted, List.append_nil,
          List.append_assoc, List.take_append_drop]
        exact h.stream
      · cases hs

/-! ### Runs -/

/-- **The pipeline**: in every reachable state of the buffered mode the bytes
given to the socket and those in the ring are what the calls of `Write` have
accepted, in order; at most one asynchronous write is outstanding, one is as
long as the ring is not empty, and it sends the front of the ring, which does not
change meanwhile; the ring holds no more than its capacity, and a call overwrites
nothing. -/
theorem pipeline {mem : Bytes} {hmem : mem.length = ringCapacity} {es : List Event}
    {c : TCPSender} (hrun : Lts.run step (init true mem hmem) es = some c) :
    Pipeline c (Lts.outputs step TCPSender.accepted (init true mem hmem) es) := by
  have hinit : PipelineInv (init true mem hmem) [] := ⟨rfl, by simp [init], .inl ⟨rfl, rfl⟩⟩
  have hstep : ∀ c acc e c', PipelineInv c acc → c.step e = some c' →
      PipelineInv c' (acc ++ c.accepted e) :=
    fun c acc e c' h hs => h.step hs
  exact (Lts.run_outputs hstep hinit hrun).result

/-- A connection whose ring is zeroed. -/
def zeroed (usebuf : Bool) : TCPSender :=
  init usebuf (List.replicate ringCapacity 0) List.length_replicate

/-- Five bytes in two calls, with a completion after two of the first three. -/
theorem pipeline_partial : ∃ c : TCPSender,
    Lts.run step (zeroed true) [.write [1, 2, 3] 0, .complete 0 2, .write [4, 5] 0] = some c ∧
      c.wire = [1, 2] ∧ Pipeline c [1, 2, 3, 4, 5] := by
  have heval : (Lts.run step (zeroed true)
      [.write [1, 2, 3] 0, .complete 0 2, .write [4, 5] 0]).map (·.wire) = some [1, 2] := by
    decide +kernel
  have haccepted : Lts.outputs step TCPSender.accepted (zeroed true)
      [.write [1, 2, 3] 0, .complete 0 2, .write [4, 5] 0] = [1, 2, 3, 4, 5] := by
    decide +kernel
  obtain ⟨c, hrun, hwire⟩ := Option.map_eq_some_iff.mp heval
  exact ⟨c, hrun, hwire, haccepted ▸ pipeline hrun⟩

end TCPSender

end FtServer
