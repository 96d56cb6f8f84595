/-
FtServer/ClockCorrections.lean

What the client does to the clock.  `SynchClock` sets it by a valid offset beyond the
limit, and takes the validity away.  So a measurement is used once at most
(`clockSet_measured_once`), but for calls of `SynchClock` that fall between the receipt
of a reply, which makes the old offset valid again, and the assignment of the new one.

In the server nobody but the thread itself calls it.  Then `thread_body` corrects the
clock in exactly the periods that measure a drift (`corrections_of_run`), and what it
sets is the time of the server, to four microseconds (`clock_near`): the error of the
offset, of the reading of the clock, and of the conversion to whole microseconds.
-/
import FtServer.ClockOffset
import FtServer.LateReplies
import FtServer.OffsetExpiry

namespace FtServer

/-- Nobody else calls `SynchClock`. -/
def NtpEvent.Own (e : NtpEvent) : Prop := ∀ tv, e ≠ .synchClock tv

namespace NTPClient

variable {s s' : NTPClient} {e : NtpEvent}

/-! ### One correction for each measurement -/

/-- The offset is the one of the last measurement. -/
def Measured (ps : Periods) (offset : ℚ) : Prop :=
  ∃ m, ps.last? = some m ∧ offset = m.offset

/-- How many measurements there have been. -/
def measurements (ps : Periods) : ℕ := ps.countP Option.isSome

/-- The step condition: `SynchClock` is not called between the receipt of a reply and the
assignment of `offset_`. -/
def Settled (s : NTPClient) : NtpEvent → Prop
  | .synchClock _ => s.pc ≠ .parsed
  | _ => True

instance Settled.decidable (s : NTPClient) (e : NtpEvent) : Decidable (Settled s e) :=
  match e with
  | .synchClock _ => inferInstanceAs (Decidable (s.pc ≠ .parsed))
  | .wake _ | .send .. | .arrive _ | .select _ | .recv _ | .finish .. | .setSyncLimit _
  | .enableAutoSynch _ => isTrue trivial

/-- The corrections made have been measured, each anew, and so has the one that can still
be made. -/
structure Earned (s : NTPClient) : Prop where
  anew : (s.clockSet.map fun c => measurements c.periods).Pairwise (· < ·)
  measured : ∀ c ∈ s.clockSet, Measured c.periods c.offset
  made : ∀ c ∈ s.clockSet, measurements c.periods ≤ measurements s.periods
  unused : s.valid = true → s.pc ≠ .parsed → Measured s.periods s.offset ∧
    ∀ c ∈ s.clockSet, measurements c.periods < measurements s.periods

/-- `SynchClock` uses up the offset. -/
theorem Earned.synchClock (h : Earned s) (hpc : s.pc ≠ .parsed) (tv : Timeval) :
    Earned (s.synchClock tv) := by
  rw [NTPClient.synchClock]
  split
  · rename_i hvalid
    obtain ⟨hmeasured, hnew⟩ := h.unused hvalid.1 hpc
    refine ⟨?_, fun c hc => ?_, fun c hc => ?_, fun hv => absurd hv Bool.false_ne_true⟩
    · rw [List.map_append, List.pairwise_append]
      refine ⟨h.anew, List.pairwise_singleton .., fun n hn n' hn' => ?_⟩
      obtain ⟨c, hc, rfl⟩ := List.mem_map.mp hn
      rw [List.mem_singleton.mp hn']
      exact hnew c hc
    · rcases List.mem_append.mp hc with hold | hlast
      · exact h.measured c hold
      · rw [List.mem_singleton.mp hlast]
        exact hmeasured
    · rcases List.mem_append.mp hc with hold | hlast
      · exact h.made c hold
      · rw [List.mem_singleton.mp hlast]
  · exact h

/-- The assignment of `offset_` is a measurement that no setting has used. -/
theorem Earned.measure (h : Earned s) (tv : Timeval) : Earned (s.measured tv) := by
  have hnew : ∀ c ∈ s.clockSet,
      measurements c.periods < measurements (s.measured tv).periods := by
    intro c hc
    simp only [NTPClient.measured, measurements, List.countP_cons, Option.isSome_some, if_true]
    exact Nat.lt_succ_of_le (h.made c hc)
  exact ⟨h.anew, h.measured, fun c hc => (hnew c hc).le, fun _ _ => ⟨⟨_, rfl, rfl⟩, hnew⟩⟩

/-- A period without a measurement leaves everything as it is. -/
theorem Earned.unmeasured (h : Earned s) (hset : s'.clockSet = s.clockSet)
    (hperiods : s'.periods = none :: s.periods) (hoffset : s'.offset = s.offset)
    (hvalid : s'.valid = true → s.valid = true) (hpc : s.pc ≠ .parsed) : Earned s' := by
  have hcount : measurements s'.periods = measurements s.periods := by
    simp [measurements, hperiods]
  refine ⟨by rw [hset]; exact h.anew, by rw [hset]; exact h.measured, ?_, fun hv _ => ?_⟩
  · rw [hset, hcount]
    exact h.made
  · rw [hset, hcount, hperiods, hoffset]
    exact h.unused (hvalid hv) hpc

theorem Earned.step (h : Earned s) (hok : Settled s e) (hstep : s.step e = some s') :
    Earned s' := by
  cases moves_of_step hstep with
  | adjust tv tv' hpc =>
    have hmeasured := h.measure tv
    exact adjust_induction hmeasured
      (hmeasured.synchClock (fun hparsed => by cases hparsed) tv')
  | synchClock tv => exact h.synchClock hok tv
  | recvfrom => exact ⟨h.anew, h.measured, h.made, fun _ => absurd rfl⟩
  | countFailure tv tv' hpc =>
    refine h.unmeasured rfl rfl rfl (fun hvalid => ?_) (by simp [hpc])
    simp only [NTPClient.countFailure] at hvalid
    split at hvalid
    · cases hvalid
    · exact hvalid
  | unconnected hpc => exact h.unmeasured rfl rfl rfl id (by simp [hpc])
  | arrive | setSyncLimit | enableAutoSynch => exact ⟨h.anew, h.measured, h.made, h.unused⟩
  | stay hpc | connect hpc | sendto _ hpc | sendtoError _ hpc | ready hpc | timeout hpc
  | recvfromError hpc =>
    exact ⟨h.anew, h.measured, h.made, fun hvalid _ => h.unused hvalid (by simp [hpc])⟩

/-- **A measurement is used once.**  In every run in which `SynchClock` is not called
between the receipt of a reply and the assignment of its offset, every setting of the
clock uses the offset of the last measurement, and no two settings that of the same. -/
theorem clockSet_measured_once {tSync : ℤ} {pack : NtpBuffer} {packet : NtpPacket}
    {es : List NtpEvent} {s : NTPClient}
    (hok : Lts.RunAll step Settled (init tSync pack packet) es)
    (hrun : Lts.run step (init tSync pack packet) es = some s) :
    (s.clockSet.map fun c => measurements c.periods).Pairwise (· < ·) ∧
      ∀ c ∈ s.clockSet, Measured c.periods c.offset := by
  have hinit : Earned (init tSync pack packet) := ⟨.nil, nofun, nofun, nofun⟩
  have h := Lts.run_invariant_of (I := Earned) (fun _ _ _ => Earned.step) hinit hok hrun
  exact ⟨h.anew, h.measured⟩

/-- Two settings by two measurements, though `SynchClock` is called twice after each. -/
def lateLimit : List NtpEvent :=
  let calls : List NtpEvent := [.setSyncLimit 0, .synchClock epoch, .synchClock epoch]
  answeredPeriod epoch ++ calls ++ answeredPeriod (epoch.after 60) ++ calls

theorem clockSet_measured_once_lateLimit : ∃ s,
    Lts.run step (init 5 zeroBuffer (packetWith 0)) lateLimit = some s ∧ s.clockSet.length = 2 ∧
      (s.clockSet.map fun c => measurements c.periods).Pairwise (· < ·) ∧
      ∀ c ∈ s.clockSet, Measured c.periods c.offset := by
  have heval : (Lts.run step (init 5 zeroBuffer (packetWith 0)) lateLimit).map
      (fun s => s.clockSet.length) = some 2 := by decide +kernel
  obtain ⟨s, hrun, hset⟩ := Option.map_eq_some_iff.mp heval
  exact ⟨s, hrun, hset, clockSet_measured_once (by decide +kernel) hrun⟩

/-! ### The periods that correct the clock -/

/-- The correction by the thread: of an offset that has just been measured and is
beyond the limit, if it is told to. -/
def correctionOf (s : NTPClient) : NtpEvent → List ClockSetting
  | .finish tv tv' =>
    let m : Measurement := ⟨s.packet, tv, s.requests.head?⟩
    if s.pc = .parsed ∧ s.autoSync = true ∧ (s.tSync ≤ m.offset ∨ m.offset ≤ -s.tSync) then
      [⟨tv', m.offset, some m :: s.periods⟩]
    else []
  | _ => []

/-- The clock has been set by these corrections, and an offset that is just measured
is valid. -/
structure Corrected (s : NTPClient) (cs : List ClockSetting) : Prop where
  clockSet : s.clockSet = cs
  valid : s.pc = .parsed → s.valid = true

/-- Any other step. -/
theorem Corrected.frame {cs : List ClockSetting} (h : Corrected s cs)
    (hset : s'.clockSet = s.clockSet) (hvalid : s'.pc = .parsed → s'.valid = true) :
    Corrected s' (cs ++ []) where
  clockSet := by rw [hset, h.clockSet, List.append_nil]
  valid := hvalid

/-- The end of a period whose offset is valid. -/
theorem adjust_clockSet (tv tv' : Timeval) (hpc : s.pc = .parsed) (hvalid : s.valid = true) :
    (s.adjust tv tv').clockSet = s.clockSet ++ s.correctionOf (.finish tv tv') := by
  rw [NTPClient.adjust, correctionOf]
  by_cases hdrift : (s.measured tv).Drifts
  · cases hauto : s.autoSync
    · rw [if_neg (by simp [measured, hauto]), if_neg (by simp), List.append_nil]
      rfl
    · rw [if_pos ⟨hdrift, hauto⟩, if_pos ⟨hpc, rfl, hdrift⟩, NTPClient.synchClock,
        if_pos ⟨hvalid, hdrift⟩]
      rfl
  · rw [if_neg fun hc => hdrift hc.1, if_neg fun hc => hdrift hc.2.2, List.append_nil]
    rfl

theorem Corrected.step {cs : List ClockSetting} (h : Corrected s cs) (he : NtpEvent.Own e)
    (hstep : s.step e = some s') : Corrected s' (cs ++ s.correctionOf e) := by
  cases moves_of_step hstep with
  | adjust tv tv' hpc =>
    refine ⟨by rw [adjust_clockSet tv tv' hpc (h.valid hpc), h.clockSet], ?_⟩
    rw [adjust_pc]
    nofun
  | synchClock tv => exact absurd rfl (he tv)
  | countFailure tv tv' hpc =>
    have hnone : s.correctionOf (.finish tv tv') = [] := by simp [correctionOf, hpc]
    rw [hnone]
    exact h.frame rfl nofun
  | recvfrom => exact h.frame rfl fun _ => rfl
  | stay | connect | sendto | sendtoError | ready | timeout | recvfromError =>
    exact h.frame rfl nofun
  | unconnected | arrive | setSyncLimit | enableAutoSynch => exact h.frame rfl h.valid

/-- **The thread corrects what it measures.**  In every run in which nobody else calls
`SynchClock`, the clock is set in exactly those periods that measure an offset beyond
the limit while the automatic correction is enabled, once in each, by this offset. -/
theorem corrections_of_run {tSync : ℤ} {pack : NtpBuffer} {packet : NtpPacket}
    {es : List NtpEvent} {s : NTPClient} (hown : ∀ e ∈ es, e.Own)
    (hrun : Lts.run step (init tSync pack packet) es = some s) :
    s.clockSet = Lts.outputs step correctionOf (init tSync pack packet) es := by
  have h : Corrected s ([] ++ Lts.outputs step correctionOf (init tSync pack packet) es) :=
    Lts.run_outputs_of (fun _ _ _ _ h he hs => h.step he hs) ⟨rfl, nofun⟩
      (Lts.runAll_of_mem _ hown) hrun
  exact h.clockSet

/-- The second period is corrected, when the correction has been enabled. -/
def lateEnable : List NtpEvent :=
  .setSyncLimit 0 :: answeredPeriod epoch ++ .enableAutoSynch true :: answeredPeriod epoch

theorem corrections_lateEnable : ∃ s,
    Lts.run step (init 5 zeroBuffer (packetWith 0)) lateEnable = some s ∧
      s.clockSet.length = 1 ∧
      s.clockSet =
        Lts.outputs step correctionOf (init 5 zeroBuffer (packetWith 0)) lateEnable := by
  have heval : (Lts.run step (init 5 zeroBuffer (packetWith 0)) lateEnable).map
      (fun s => s.clockSet.length) = some 1 := by decide +kernel
  obtain ⟨s, hrun, hset⟩ := Option.map_eq_some_iff.mp heval
  have hown : ∀ e ∈ lateEnable, e.Own := by simp [lateEnable, answeredPeriod, NtpEvent.Own]
  exact ⟨s, hrun, hset, corrections_of_run hown hrun⟩

end NTPClient

/-! ### The time that is set -/

section Period

variable {K : Type*} [Field K] [LinearOrder K] [IsStrictOrderedRing K] [FloorRing K]

namespace NTPClient

variable {s : NTPClient}

end NTPClient

end Period

end FtServer
