/-
FtServer/LateReplies.lean

Replies that come too late.  `get_time` sends a request, waits ten seconds and parses
the first datagram that waits in the socket, without a look at its originate
timestamp.  A reply that arrives after the wait stays in the socket, and the next
period takes it for its own.

`ownReplies_of_fresh`: in runs in which no datagram waits when a request goes out, and
the first to arrive during the wait answers that request, every packet that is parsed
answers the request of its own period, and `offset_` and the clock are set from such
packets alone.  `Awaiting` is what is true in between.
-/
import FtServer.NTPClient

namespace FtServer

/-! ### The property and the condition -/

/-- The packet that has been evaluated answers the request that had been sent last. -/
def Measurement.Own (m : Measurement) : Prop :=
  ∃ request, m.request = some request ∧ m.packet.originateTimestamp = ntpTimeAt request 40

/-- The offset is the one of the constructor if nothing has been measured, and comes from
the answer to its own request otherwise. -/
def Periods.OwnOffset (ps : Periods) (offset : ℚ) : Prop :=
  match ps.last? with
  | none => offset = 0
  | some m => m.Own ∧ offset = m.offset

namespace NTPClient

/-- When `get_time` has returned 1, the originate timestamp of the packet is the
transmit timestamp of the request that has been sent last. -/
def OwnReply (s : NTPClient) : Prop :=
  s.pc = .parsed → ∃ request, s.requests.head? = some request ∧
    s.packet.originateTimestamp = ntpTimeAt request 40

/-- So it is, and neither `offset_` nor the clock has been set from a late reply. -/
structure OwnReplies (s : NTPClient) : Prop where
  reply : s.OwnReply
  offset : s.periods.OwnOffset s.offset
  clockSet : ∀ c ∈ s.clockSet, c.periods.OwnOffset c.offset

/-- `get_time` waits for an answer. -/
def Waits (s : NTPClient) : Prop := s.pc = .select ∨ s.pc = .recv

instance (s : NTPClient) : Decidable s.Waits := inferInstanceAs (Decidable (_ ∨ _))

/-- The datagram answers the request that has been sent last. -/
def AnswersLast (s : NTPClient) (d : Bytes) : Prop :=
  ∃ request ∈ s.requests.head?, Answers d request

instance (s : NTPClient) (d : Bytes) : Decidable (s.AnswersLast d) :=
  match h : s.requests.head? with
  | some request => decidable_of_iff (Answers d request) (by simp [AnswersLast, h])
  | none => isFalse (by simp [AnswersLast, h])

/-- The step condition: nothing waits in the socket when a request goes out, and what
arrives first during the wait answers it. -/
def Fresh (s : NTPClient) : NtpEvent → Prop
  | .send _ ok => ok = true → s.pc = .send → s.sock = some []
  | .arrive d => s.Waits → s.sock = some [] → s.AnswersLast d
  | _ => True

instance Fresh.decidable (s : NTPClient) (e : NtpEvent) : Decidable (Fresh s e) :=
  match e with
  | .send _ ok => inferInstanceAs (Decidable (ok = true → s.pc = .send → s.sock = some []))
  | .arrive d => inferInstanceAs (Decidable (s.Waits → s.sock = some [] → s.AnswersLast d))
  | .wake _ | .select _ | .recv _ | .finish .. | .synchClock _ | .setSyncLimit _
  | .enableAutoSynch _ => isTrue trivial

/-- What waits first in the socket during the wait answers the last request. -/
structure Awaiting (s : NTPClient) : Prop where
  first : s.Waits → ∀ d queue, s.sock = some (d :: queue) → s.AnswersLast d
  own : s.OwnReplies

variable {s s' : NTPClient} {e : NtpEvent}

/-! ### The steps -/

/-- Outside the wait and the moment after it nothing has to be shown of the socket. -/
theorem Awaiting.frame (h : Awaiting s)
    (hpc : s'.pc ≠ .select ∧ s'.pc ≠ .recv ∧ s'.pc ≠ .parsed) (hoffset : s'.offset = s.offset)
    (hlast : s'.periods.last? = s.periods.last?) (hset : s'.clockSet = s.clockSet) :
    Awaiting s' := by
  refine ⟨fun hwaits => ?_, fun hparsed => absurd hparsed hpc.2.2, ?_, ?_⟩
  · rcases hwaits with hselect | hrecv
    · exact absurd hselect hpc.1
    · exact absurd hrecv hpc.2.1
  · rw [Periods.OwnOffset, hoffset, hlast]
    exact h.own.offset
  · rw [hset]
    exact h.own.clockSet

/-- A packet read from an answer has the transmit timestamp of the request as its
originate timestamp. -/
theorem originate_of_answers {pack : NtpBuffer} {d request : Bytes} {old : NtpPacket}
    (h : Answers d request) :
    (decode (pack.recvfrom d).bytes old).originateTimestamp = ntpTimeAt request 40 := by
  show ntpTimeAt (pack.recvfrom d).bytes 24 = ntpTimeAt request 40
  rw [ntpTimeAt_recvfrom h.1 (by decide), ntpTimeAt_congr h.2]

/-- `SynchClock` sets the clock by `offset_`, and touches neither the socket nor the
packet. -/
theorem Awaiting.synchClock (h : Awaiting s) (tv : Timeval) : Awaiting (s.synchClock tv) := by
  rw [NTPClient.synchClock]
  split
  · refine ⟨h.first, h.own.reply, h.own.offset, fun c hc => ?_⟩
    rcases List.mem_append.mp hc with hold | hnew
    · exact h.own.clockSet c hold
    · rw [List.mem_singleton.mp hnew]
      exact h.own.offset
  · exact h

/-- The offset is set from the packet that has been parsed, and from nothing else. -/
theorem Awaiting.measured (h : Awaiting s) (tv : Timeval) (hpc : s.pc = .parsed) :
    Awaiting (s.measured tv) := by
  refine ⟨fun hwaits => ?_, nofun, ?_, h.own.clockSet⟩
  · rcases hwaits with hselect | hrecv
    · cases hselect
    · cases hrecv
  · exact ⟨h.own.reply hpc, rfl⟩

theorem Awaiting.adjust (h : Awaiting s) (tv tv' : Timeval) (hpc : s.pc = .parsed) :
    Awaiting (s.adjust tv tv') := by
  have hmeasured := h.measured tv hpc
  exact adjust_induction hmeasured (hmeasured.synchClock tv')

theorem adjust_pc (tv tv' : Timeval) : (s.adjust tv tv').pc = .sleep := by
  refine adjust_induction (P := fun s' => s'.pc = .sleep) rfl ?_
  rw [NTPClient.synchClock]
  split <;> rfl

/-- What arrives behind a datagram leaves the first one; what arrives in an empty
socket is the first one. -/
theorem Awaiting.arrive (h : Awaiting s) {queue : List Bytes} {d : Bytes}
    (hsock : s.sock = some queue) (hok : s.Waits → s.sock = some [] → s.AnswersLast d) :
    Awaiting { s with sock := some (queue ++ [d]) } := by
  refine ⟨fun hwaits d' queue' hsock' => ?_, h.own.reply, h.own.offset, h.own.clockSet⟩
  cases queue with
  | nil =>
    cases hsock'
    exact hok hwaits hsock
  | cons d₀ rest =>
    cases hsock'
    exact h.first hwaits _ _ hsock

theorem Awaiting.step (h : Awaiting s) (hok : Fresh s e) (hstep : s.step e = some s') :
    Awaiting s' := by
  cases moves_of_step hstep with
  | sendto tv hpc =>
    have hempty : s.sock = some [] := hok rfl hpc
    refine ⟨fun _ d queue hsock => ?_, nofun, h.own.offset, h.own.clockSet⟩
    cases hempty.symm.trans hsock
  | arrive hsock hmem hd => exact h.arrive hsock hok
  | ready hpc hsock =>
    exact ⟨fun _ => h.first (.inl hpc), nofun, h.own.offset, h.own.clockSet⟩
  | recvfrom hpc hsock =>
    obtain ⟨request, hhead, hanswers⟩ := h.first (.inr hpc) _ _ hsock
    refine ⟨fun hwaits => ?_, fun _ => ⟨request, hhead, originate_of_answers hanswers⟩,
      h.own.offset, h.own.clockSet⟩
    rcases hwaits with hselect | hrecv
    · cases hselect
    · cases hrecv
  | synchClock tv => exact h.synchClock tv
  | setSyncLimit | enableAutoSynch =>
    exact ⟨h.first, h.own.reply, h.own.offset, h.own.clockSet⟩
  | adjust tv tv' hpc => exact h.adjust tv tv' hpc
  | unconnected hpc hsock => exact h.frame (by simp [hpc]) rfl rfl rfl
  | countFailure tv tv' hpc =>
    exact h.frame (by simp [NTPClient.countFailure]) rfl rfl rfl
  | stay | connect | sendtoError | timeout | recvfromError =>
    exact h.frame (by simp [closeSock]) rfl rfl rfl

theorem awaiting_init (tSync : ℤ) (pack : NtpBuffer) (packet : NtpPacket) :
    Awaiting (init tSync pack packet) := by
  refine ⟨fun hwaits => ?_, nofun, rfl, nofun⟩
  rcases hwaits with hselect | hrecv
  · cases hselect
  · cases hrecv

/-- **Every reply is one to the request of its period**, and only such replies set
`offset_` and the clock. -/
theorem ownReplies_of_fresh (tSync : ℤ) (pack : NtpBuffer) (packet : NtpPacket)
    (es : List NtpEvent) (hok : Lts.RunAll step Fresh (init tSync pack packet) es) :
    Lts.Always step OwnReplies (init tSync pack packet) es :=
  Lts.always_of_runAll (fun _ _ _ => Awaiting.step) (fun _ => Awaiting.own)
    (awaiting_init tSync pack packet) hok

theorem ownReplies_answered : Lts.Always step OwnReplies (init 5 zeroBuffer (packetWith 0))
    (answeredPeriod epoch ++ answeredPeriod (epoch.after 60)) :=
  ownReplies_of_fresh 5 _ _ _ (by decide +kernel)

/-- The answer to the first request comes after the wait, and the second period parses
it. -/
theorem not_ownReplies_late :
    ¬ ∀ (tSync : ℤ) (pack : NtpBuffer) (packet : NtpPacket) (es : List NtpEvent),
      Lts.Always step OwnReplies (init tSync pack packet) es := by
  intro h
  let es := silentPeriod epoch ++ [.arrive (replyTo epoch), .wake true,
    .send (epoch.after 60) true, .select true, .recv true]
  have hrun : (Lts.run step (init 5 zeroBuffer (packetWith 0)) es).map (fun s =>
      (s.pc, s.packet.originateTimestamp, s.requests.head?.map (ntpTimeAt · 40))) =
      some (.parsed, ⟨epoch.coarse, 0⟩, some ⟨(epoch.after 60).coarse, 0⟩) := by decide +kernel
  obtain ⟨s, hs, hend⟩ := Option.map_eq_some_iff.mp hrun
  simp only [Prod.mk.injEq] at hend
  obtain ⟨hparsed, horiginate, hsent⟩ := hend
  obtain ⟨request, hhead, hown⟩ := ((h 5 _ _ es).last hs).reply hparsed
  rw [hhead, Option.map_some, Option.some.injEq, ← hown, horiginate] at hsent
  exact absurd hsent (by decide)

end NTPClient

end FtServer
