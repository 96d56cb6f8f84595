/-
FtServer/OffsetExpiry.lean

How long a measured offset counts.  `valid_` is meant to fall after five periods
without a measurement; `nfail_` counts the periods in which `get_time` has failed,
but a period that gets no socket leaves the loop body by `continue` and is not
counted.  And `get_time` sets `valid_` as soon as the reply is there, when `offset_`
is still the old one: until `thread_body` assigns it, `SynchClock` sets the clock by an
offset of any age.

`expires_of_counted`: in runs in which the first only happens while there is no valid
offset, and `SynchClock` is not called in that moment on an offset that has expired,
`nfail_` is at least the number of periods since the last measurement (`Counted`), an
offset expires in time, and the clock is never set by one that has expired.
-/
import FtServer.NTPClient

namespace FtServer

namespace NTPClient

/-! ### The property and the condition -/

/-- How many periods have passed since the last measurement. -/
def unmeasured (s : NTPClient) : ℕ := s.periods.unmeasured

/-- There is no valid offset, and `SynchClock` does nothing. -/
structure Expired (s : NTPClient) : Prop where
  valid : s.valid = false
  synchClock : ∀ tv, s.synchClock tv = s

/-- After five periods without a measurement the offset has expired, unless `get_time`
has just returned 1 again, and no call of `SynchClock` has set the clock by such an
offset. -/
structure Expires (s : NTPClient) : Prop where
  expired : 5 ≤ s.unmeasured → s.pc ≠ .parsed → s.Expired
  clockSet : ∀ c ∈ s.clockSet, c.periods.unmeasured < 5

/-- The step condition: a period that gets no socket has no valid offset, and when
`get_time` has returned 1 `SynchClock` is not called on an offset that has expired. -/
def Timely (s : NTPClient) : NtpEvent → Prop
  | .wake connected => connected = false → s.pc = .sleep → s.sock = none → s.valid = false
  | .synchClock _ => s.pc = .parsed → 5 ≤ s.unmeasured → ¬ s.Drifts
  | _ => True

instance Timely.decidable (s : NTPClient) (e : NtpEvent) : Decidable (Timely s e) :=
  match e with
  | .wake connected => inferInstanceAs
      (Decidable (connected = false → s.pc = .sleep → s.sock = none → s.valid = false))
  | .synchClock _ => inferInstanceAs (Decidable (s.pc = .parsed → 5 ≤ s.unmeasured → ¬ s.Drifts))
  | .send .. | .arrive _ | .select _ | .recv _ | .finish .. | .setSyncLimit _
  | .enableAutoSynch _ => isTrue trivial

/-- While there is a valid offset, the periods without a measurement are counted, but for
the moment in which a reply has been read and not been evaluated. -/
structure Counted (s : NTPClient) : Prop where
  nfail : s.valid = true → s.nfail < 5
  unmeasured : s.valid = true → s.pc ≠ .parsed → s.unmeasured ≤ s.nfail
  clockSet : ∀ c ∈ s.clockSet, c.periods.unmeasured < 5

variable {s s' : NTPClient} {e : NtpEvent}

/-! ### The steps -/

/-- `SynchClock` uses an offset that has not expired, and leaves none valid. -/
theorem Counted.synchClock (h : Counted s) (hage : s.valid = true → s.Drifts → s.unmeasured < 5)
    (tv : Timeval) : Counted (s.synchClock tv) := by
  rw [NTPClient.synchClock]
  split
  · rename_i hvalid
    refine ⟨fun hv => absurd hv Bool.false_ne_true, fun hv => absurd hv Bool.false_ne_true,
      fun c hc => ?_⟩
    rcases List.mem_append.mp hc with hold | hnew
    · exact h.clockSet c hold
    · rw [List.mem_singleton.mp hnew]
      exact hage hvalid.1 hvalid.2
  · exact h

/-- A valid offset that is not being replaced has not expired. -/
theorem Counted.unmeasured_lt (h : Counted s) (hvalid : s.valid = true) (hpc : s.pc ≠ .parsed) :
    s.unmeasured < 5 :=
  lt_of_le_of_lt (h.unmeasured hvalid hpc) (h.nfail hvalid)

/-- The measurement starts the count anew. -/
theorem Counted.measured (h : Counted s) (tv : Timeval) : Counted (s.measured tv) :=
  ⟨h.nfail, fun _ _ => Nat.zero_le _, h.clockSet⟩

theorem Counted.adjust (h : Counted s) (tv tv' : Timeval) : Counted (s.adjust tv tv') := by
  have hmeasured := h.measured tv
  exact adjust_induction hmeasured
    (hmeasured.synchClock (fun hvalid _ => hmeasured.unmeasured_lt hvalid nofun) tv')

/-- The count is raised with the periods, and takes the offset away at 5. -/
theorem Counted.countFailure (h : Counted s) (hpc : s.pc = .failed) : Counted s.countFailure := by
  have hfew : s.countFailure.valid = true → s.valid = true ∧ s.nfail + 1 < 5 := by
    intro hvalid
    simp only [NTPClient.countFailure] at hvalid
    split at hvalid
    · cases hvalid
    · rename_i hcount
      exact ⟨hvalid, not_le.mp fun hfive => hcount ⟨hfive, hvalid⟩⟩
  refine ⟨fun hvalid => (hfew hvalid).2, fun hvalid _ => ?_, h.clockSet⟩
  have hle := h.unmeasured (hfew hvalid).1 (by rw [hpc]; nofun)
  have hperiods : s.countFailure.unmeasured = s.unmeasured + 1 := by
    simp [NTPClient.unmeasured, Periods.unmeasured, NTPClient.countFailure]
  rw [hperiods]
  exact Nat.succ_le_succ hle

theorem Counted.step (h : Counted s) (hok : Timely s e) (hstep : s.step e = some s') :
    Counted s' := by
  cases moves_of_step hstep with
  | unconnected hpc hsock =>
    have hinvalid : s.valid = false := hok rfl hpc hsock
    refine ⟨fun hvalid => ?_, fun hvalid => ?_, h.clockSet⟩
    · cases hinvalid.symm.trans hvalid
    · cases hinvalid.symm.trans hvalid
  | recvfrom hpc hsock => exact ⟨fun _ => Nat.zero_lt_succ 4, fun _ => absurd rfl, h.clockSet⟩
  | adjust tv tv' hpc => exact h.adjust tv tv'
  | countFailure tv tv' hpc => exact h.countFailure hpc
  | synchClock tv =>
    refine h.synchClock (fun hvalid hdrift => ?_) tv
    by_cases hpc : s.pc = .parsed
    · exact not_le.mp fun hfive => hok hpc hfive hdrift
    · exact h.unmeasured_lt hvalid hpc
  | arrive | setSyncLimit | enableAutoSynch => exact ⟨h.nfail, h.unmeasured, h.clockSet⟩
  | stay hpc | connect hpc | sendto _ hpc | sendtoError _ hpc | ready hpc | timeout hpc
  | recvfromError hpc =>
    exact ⟨h.nfail, fun hvalid _ => h.unmeasured hvalid (by rw [hpc]; nofun), h.clockSet⟩

theorem Counted.expires (h : Counted s) : Expires s := by
  refine ⟨fun hfive hpc => ?_, h.clockSet⟩
  have hvalid : s.valid = false :=
    Bool.eq_false_iff.mpr fun hvalid => (h.unmeasured_lt hvalid hpc).not_ge hfive
  exact ⟨hvalid, fun tv => by simp [NTPClient.synchClock, hvalid]⟩

theorem counted_init (tSync : ℤ) (pack : NtpBuffer) (packet : NtpPacket) :
    Counted (init tSync pack packet) :=
  ⟨nofun, nofun, nofun⟩

/-- **A measured offset expires.** -/
theorem expires_of_counted (tSync : ℤ) (pack : NtpBuffer) (packet : NtpPacket)
    (es : List NtpEvent) (hok : Lts.RunAll step Timely (init tSync pack packet) es) :
    Lts.Always step Expires (init tSync pack packet) es :=
  Lts.always_of_runAll (fun _ _ _ => Counted.step) (fun _ => Counted.expires)
    (counted_init tSync pack packet) hok

/-- A period whose request is not sent, which closes the socket. -/
def unsentPeriod (tv : Timeval) : List NtpEvent := [.wake true, .send tv false, .finish tv tv]

theorem expires_silent : Lts.Always step Expires (init 5 zeroBuffer (packetWith 0))
    (answeredPeriod epoch ++ (List.replicate 5 (silentPeriod epoch)).flatten) :=
  expires_of_counted 5 _ _ _ (by decide +kernel)

/-- A measurement, a send that fails, and four periods without a socket: the offset is
still valid. -/
theorem not_expires_unconnected :
    ¬ ∀ (tSync : ℤ) (pack : NtpBuffer) (packet : NtpPacket) (es : List NtpEvent),
      Lts.Always step Expires (init tSync pack packet) es := by
  intro h
  let es := answeredPeriod epoch ++ unsentPeriod epoch ++ List.replicate 4 (.wake false)
  have hrun : (Lts.run step (init 5 zeroBuffer (packetWith 0)) es).map
      (fun s => (s.unmeasured, s.valid, s.pc)) = some (5, true, .sleep) := by decide +kernel
  obtain ⟨s, hs, hend⟩ := Option.map_eq_some_iff.mp hrun
  simp only [Prod.mk.injEq] at hend
  obtain ⟨hfive, hvalid, hpc⟩ := hend
  have hexpired := ((h 5 _ _ es).last hs).expired hfive.ge (by rw [hpc]; nofun)
  cases hexpired.valid.symm.trans hvalid

end NTPClient

end FtServer
