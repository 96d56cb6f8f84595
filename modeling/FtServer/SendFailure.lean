/-
FtServer/SendFailure.lean

The sending side of a buffered connection whose asynchronous writes may fail.
`handle_write` does nothing on an error: the bytes stay in the ring, and no write
is started.  `Write` starts one only when it finds the ring empty, which it is not,
and never will be again: the connection is `Dead`.

`silent_of_fail` says what that means for all that follows.  Nothing is given to
the socket any more; the ring takes the first bytes of what is written until it is
full, and from then on `Write` takes nothing.
-/
import FtServer.SendPipeline

namespace FtServer

namespace TCPSender

/-! ### Writes that fail -/

/-- A step without error, or the completion with an error of the `i`-th of the
asynchronous writes that are outstanding. -/
inductive FaultyEvent
  | sound (e : Event)
  | fail (i : ℕ)
  deriving DecidableEq, Repr

variable (c : TCPSender)

/-- `handle_write`, with an error or without. -/
def faultyStep : FaultyEvent → Option TCPSender
  | .sound e => c.step e
  | .fail i =>
    if i < c.requests.length then some { c with requests := c.requests.eraseIdx i } else none

/-- What is given to `Write`. -/
def FaultyEvent.given : FaultyEvent → Bytes
  | .sound (.write buff _) => buff
  | .sound (.complete _ _) | .fail _ => []

/-- The part of it that `Write` accepts. -/
def faultyAccepted : FaultyEvent → Bytes
  | .sound e => c.accepted e
  | .fail _ => []

/-! ### A dead connection -/

variable {c}

/-- There is something to send, and nothing that would send it. -/
structure Dead (c : TCPSender) (accepted : Bytes) : Prop where
  usebuf : c.usebuf = true
  stream : c.wire ++ c.crcsnd.contents = accepted
  pending : 0 < c.crcsnd.size
  idle : c.requests = []

/-- A failed write leaves it behind. -/
theorem PipelineInv.fail {accepted : Bytes} {i : ℕ} {c' : TCPSender} (h : PipelineInv c accepted)
    (hs : c.faultyStep (.fail i) = some c') : Dead c' accepted ∧ c'.crcsnd = c.crcsnd := by
  simp only [faultyStep] at hs
  split at hs
  · rename_i hi
    obtain rfl := Option.some.inj hs
    rcases h.requests with ⟨-, hnone⟩ | ⟨q, hq, hpos, -, hlen, -⟩
    · simp [hnone] at hi
    · obtain rfl : i = 0 := by simpa [hq] using hi
      refine ⟨⟨h.usebuf, h.stream, by dsimp only; omega, ?_⟩, rfl⟩
      simp [hq]
  · cases hs

/-- `Write` on a dead connection: what there is room for is appended. -/
theorem Dead.write {accepted : Bytes} (h : Dead c accepted) (buff : Bytes) (taken : ℕ) :
    (c.write buff taken).2 = c.append buff ∧
      (c.write buff taken).1 = min buff.length (ringCapacity - c.crcsnd.size) := by
  rw [write_buffered h.usebuf, if_neg fun hz => absurd hz.1 (Nat.pos_iff_ne_zero.mp h.pending)]
  exact ⟨rfl, rfl⟩

theorem Dead.step {accepted : Bytes} {e : FaultyEvent} {c' : TCPSender} (h : Dead c accepted)
    (hs : c.faultyStep e = some c') :
    Dead c' (accepted ++ c.faultyAccepted e) ∧ c'.wire = c.wire ∧
      c'.crcsnd.contents = c.crcsnd.contents ++ c.faultyAccepted e ∧
      c.faultyAccepted e = e.given.take (ringCapacity - c.crcsnd.contents.length) := by
  have hidle := h.idle
  cases e with
  | fail i => simp [faultyStep, hidle] at hs
  | sound e =>
    cases e with
    | complete i k => simp [faultyStep, TCPSender.step, hidle] at hs
    | write buff taken =>
      obtain ⟨hwrite, hcount⟩ := h.write buff taken
      simp only [faultyStep, TCPSender.step, h.usebuf, true_or, if_true] at hs
      obtain rfl := Option.some.inj hs
      have htaken : buff.take (min buff.length (ringCapacity - c.crcsnd.size)) =
          buff.take (ringCapacity - c.crcsnd.contents.length) := by
        rw [Ring.contents_length, Nat.min_comm, ← List.take_take, List.take_length]
      have haccepted : c.faultyAccepted (.sound (.write buff taken)) =
          buff.take (ringCapacity - c.crcsnd.contents.length) := by
        rw [← htaken, ← hcount]
        rfl
      have hcontents := append_contents (c := c) buff
      rw [htaken, ← haccepted] at hcontents
      rw [hwrite]
      refine ⟨⟨h.usebuf, ?_, ?_, hidle⟩, rfl, hcontents, haccepted⟩
      · rw [hcontents, ← List.append_assoc]
        exact congrArg (· ++ c.faultyAccepted (.sound (.write buff taken))) h.stream
      · have hlength := congrArg List.length hcontents
        have hpending := h.pending
        simp only [Ring.contents_length, List.length_append] at hlength
        omega

/-! ### Runs -/

/-- The connection is sound, or dead. -/
def Faulty (c : TCPSender) (accepted : Bytes) : Prop := PipelineInv c accepted ∨ Dead c accepted

theorem Faulty.step {accepted : Bytes} {e : FaultyEvent} {c' : TCPSender} (h : Faulty c accepted)
    (hs : c.faultyStep e = some c') : Faulty c' (accepted ++ c.faultyAccepted e) := by
  rcases h with h | h
  · cases e with
    | sound e => exact .inl (h.step hs)
    | fail i =>
      rw [faultyAccepted, List.append_nil]
      exact .inr (h.fail hs).1
  · exact .inr (h.step hs).1

/-- What a dead connection has accepted since it died. -/
theorem Dead.run {accepted : Bytes} {es : List FaultyEvent} {c' : TCPSender} (h : Dead c accepted)
    (hrun : Lts.run faultyStep c es = some c') :
    Dead c' (accepted ++ Lts.outputs faultyStep faultyAccepted c es) ∧ c'.wire = c.wire ∧
      c'.crcsnd.contents = c.crcsnd.contents ++ Lts.outputs faultyStep faultyAccepted c es ∧
      Lts.outputs faultyStep faultyAccepted c es =
        (es.flatMap FaultyEvent.given).take (ringCapacity - c.crcsnd.contents.length) := by
  induction es generalizing c accepted with
  | nil =>
    obtain rfl : c = c' := by simpa using hrun
    simpa [Lts.outputs] using h
  | cons e es ih =>
    obtain ⟨c₁, h₁, hrest⟩ := Lts.run_cons_inv hrun
    obtain ⟨hdead, hwire, hcontents, htaken⟩ := h.step h₁
    obtain ⟨hdead', hwire', hcontents', htaken'⟩ := ih hdead hrest
    have houtputs : Lts.outputs faultyStep faultyAccepted c (e :: es) =
        c.faultyAccepted e ++ Lts.outputs faultyStep faultyAccepted c₁ es := by
      simp [Lts.outputs, h₁]
    rw [houtputs, ← List.append_assoc, ← List.append_assoc]
    refine ⟨hdead', hwire'.trans hwire, by rw [hcontents', hcontents], ?_⟩
    -- the room that is left after the first call
    rw [htaken', hcontents, List.length_append, htaken, List.flatMap_cons, List.take_append,
      List.length_take]
    congr 2
    omega

/-- **After an error the connection is silent.**  From the first asynchronous write
that fails on, nothing is given to the socket any more, whatever is written; the
ring keeps what was not sent and takes the first bytes of what is written until it
is full, so at most 15000 of all bytes to come, and nothing of these is ever sent. -/
theorem silent_of_fail {mem : Bytes} {hmem : mem.length = ringCapacity}
    {es fs : List FaultyEvent} {i : ℕ} {c c₁ c₂ : TCPSender}
    (hrun : Lts.run faultyStep (init true mem hmem) es = some c)
    (hfail : c.faultyStep (.fail i) = some c₁) (hrest : Lts.run faultyStep c₁ fs = some c₂) :
    c.crcsnd.contents ≠ [] ∧ c₂.wire = c.wire ∧ c₂.requests = [] ∧
      c₂.crcsnd.contents = c.crcsnd.contents ++
        (fs.flatMap FaultyEvent.given).take (ringCapacity - c.crcsnd.contents.length) := by
  have hinit : Faulty (init true mem hmem) [] := .inl ⟨rfl, by simp [init], .inl ⟨rfl, rfl⟩⟩
  have h : Faulty c ([] ++ Lts.outputs faultyStep faultyAccepted _ es) :=
    Lts.run_outputs (fun _ _ _ _ => Faulty.step) hinit hrun
  rcases h with h | h
  · obtain ⟨hdead, hring⟩ := h.fail hfail
    obtain ⟨hdead', hwire, hcontents, htaken⟩ := hdead.run hrest
    have hwire₁ : c₁.wire = c.wire := by
      have hstream := hdead.stream.trans h.stream.symm
      rw [hring] at hstream
      exact List.append_cancel_right hstream
    refine ⟨?_, hwire.trans hwire₁, hdead'.idle, by rw [hcontents, htaken, hring]⟩
    intro hempty
    have hpending := hdead.pending
    rw [hring, ← Ring.contents_length, hempty] at hpending
    exact absurd hpending (Nat.lt_irrefl 0)
  · -- a dead connection has no write that could fail
    simp [faultyStep, h.idle] at hfail

/-- Three bytes of which two are sent, an error, and two more bytes. -/
theorem silent_of_fail_partial : ∃ c c₁ c₂ : TCPSender,
    Lts.run faultyStep (zeroed true) [.sound (.write [1, 2, 3] 0), .sound (.complete 0 2)] =
      some c ∧ c.faultyStep (.fail 0) = some c₁ ∧
    Lts.run faultyStep c₁ [.sound (.write [4, 5] 0)] = some c₂ ∧ c.wire = [1, 2] ∧
    c.crcsnd.contents ≠ [] ∧ c₂.wire = c.wire ∧ c₂.requests = [] ∧
    c₂.crcsnd.contents = c.crcsnd.contents ++
      ([FaultyEvent.sound (.write [4, 5] 0)].flatMap FaultyEvent.given).take
        (ringCapacity - c.crcsnd.contents.length) := by
  have heval : (Lts.run faultyStep (zeroed true)
      [.sound (.write [1, 2, 3] 0), .sound (.complete 0 2)]).map
        (fun c => (c.wire, c.requests.length, c.usebuf)) = some ([1, 2], 1, true) := by
    decide +kernel
  obtain ⟨c, hrun, hc⟩ := Option.map_eq_some_iff.mp heval
  obtain ⟨hwire, hc⟩ := Prod.mk.inj hc
  obtain ⟨hone, hbuf⟩ := Prod.mk.inj hc
  obtain ⟨c₁, h₁⟩ : ∃ c₁, c.faultyStep (.fail 0) = some c₁ :=
    ⟨_, by rw [faultyStep, if_pos (by omega)]⟩
  have hbuf₁ : c₁.usebuf = true := by
    rw [faultyStep, if_pos (by omega)] at h₁
    obtain rfl := Option.some.inj h₁
    exact hbuf
  obtain ⟨c₂, h₂⟩ : ∃ c₂, Lts.run faultyStep c₁ [.sound (.write [4, 5] 0)] = some c₂ :=
    ⟨_, by simp [Lts.run, faultyStep, step, hbuf₁]; rfl⟩
  exact ⟨c, c₁, c₂, hrun, h₁, h₂, hwire, silent_of_fail hrun h₁ h₂⟩

end TCPSender

end FtServer
