/-
FtServer/SaveProgress.lean

Files get to the disk.  If the file system does its part, the monitor empties the queue:
a file that it does not look at by itself has its notification still to come
(`WakeInv`), and a save that succeeds costs none of the failures that the monitor
puts up with (`Lasts`).

`exists_saved` puts this behind the progress of a client: from every state of a run in
which the client has followed the protocol, if the writer is up and no wake-up has
gone wrong, the client and the threads of the server get to a state in which each of
its files has been acknowledged and saved.  The monitor has to be asleep before a
notification that it is to hear, so it goes first where it is about to wait with a file
in the queue.
-/
import FtServer.SaveReturns
import FtServer.UploadProgress
import FtServer.Uploads
import FtServer.WakeUp

namespace FtServer

open FileInfo (SameContents)

/-! ### The monitor -/

/-- Steps that the monitor has left with a file: from one save to the next it takes five. -/
def MonPc.work : MonPc → ℕ
  | .popped => 5
  | .test | .wait => 4
  | .blocked => 3
  | .save => 2
  | .saving => 1
  | .start | .ended => 0

namespace FileWritter

variable {κ φ : Type} {w w' : FileWritter κ φ}

/-- The loop of the monitor goes on as long as its saves succeed. -/
structure Lasts (w : FileWritter κ φ) : Prop where
  running : w.running = true
  started : w.mon ≠ .start
  going : w.mon ≠ .ended
  budget : w.errcnt < 5
  /-- a failure that has not been counted yet -/
  counted : w.mon = .test → w.rslt = false → w.errcnt < 4

theorem Lasts.monStep (h : Lasts w) (hs : MonStep w true w') : Lasts w' := by
  cases hs with
  | start hpc => exact absurd hpc h.started
  | finish _ herr => exact absurd h.budget (Nat.not_lt.mpr herr)
  | count hpc _ _ hr =>
    have herr := h.counted hpc hr
    exact ⟨h.running, by simp, by simp, Nat.succ_lt_succ herr, by simp⟩
  | clear => exact ⟨h.running, by simp, by simp, by simp, by simp⟩
  | ret => exact ⟨h.running, by simp, by simp, h.budget, by simp⟩
  | toWait | block | enter | pop => exact ⟨h.running, by simp, by simp, h.budget, by simp⟩

/-- The work that the monitor has left. -/
def work (w : FileWritter κ φ) : ℕ := 6 * w.quenf.length + w.mon.work

theorem Lasts.work_lt (h : Lasts w) (hs : MonStep w true w') (hq : w.quenf ≠ []) :
    w'.work < w.work := by
  have hlen := List.length_pos_of_ne_nil hq
  cases hs with
  | start hpc => exact absurd hpc h.started
  | finish _ herr => exact absurd h.budget (Nat.not_lt.mpr herr)
  | toWait _ _ hnone => exact absurd hnone hq
  | pop hpc =>
    simp only [work, hpc, MonPc.work, List.length_tail]
    omega
  | count hpc | clear hpc | block hpc | enter hpc | ret hpc =>
    simp only [work, hpc, MonPc.work]
    omega

variable [DecidableEq κ] {k : κ}

theorem Lasts.callStep (h : Lasts w) (hs : CallStep w k w') : Lasts w' := by
  cases hs with
  | reject | accept | push | lost => exact ⟨h.running, h.started, h.going, h.budget, h.counted⟩
  | wake => exact ⟨h.running, by simp, by simp, h.budget, by simp⟩

end FileWritter

/-! ### Saves that succeed -/

/-- The directory is there, the file opens, and the device takes `n` bytes. -/
def granted (n : ℕ) : FsAnswers := ⟨.ok true, .ok true, true, n⟩

/-- The registration of the file does not throw. -/
def Convertible (env : SaveEnv) (f : FileInfo) : Prop :=
  env.dbt = true → (env.obsTime f.tmobs).isSome = true

theorem Convertible.of_same {env : SaveEnv} {f g : FileInfo} (h : Convertible env f)
    (hfg : SameContents f g) : Convertible env g := by
  rw [Convertible, hfg.2.2.2.1]
  exact h

theorem saveBody_granted {env : SaveEnv} {f : FileInfo} (h : Convertible env f) (n : ℕ)
    (dir : Bytes) : (saveBody env (granted n) dir f).1 = .ok true :=
  (saveBody_cases env (granted n) dir f).ret_iff.mpr ⟨.inl rfl, rfl, h⟩

namespace TransferAgent

variable {ι : Type} [DecidableEq ι] [Fintype ι] {δ : Type} {dbl : DoubleLib δ}
  {ts : List (Transfer dbl)} {i k : ι} {s s' : TransferAgent ι} {e : AgentEvent ι} {n : ℕ}
  {r : FileReceiver}

/-- The writer does its work: what it waits for will come, and what it saves converts. -/
structure Works (s : TransferAgent ι) : Prop where
  fifo : s.fw.Fifo
  wake : s.fw.WakeInv
  lasts : s.fw.Lasts
  times : ∀ a ∈ s.fw.quenf, Convertible s.env (s.heap a)

/-- A step of the monitor, with everything granted. -/
structure Granted (s s' : TransferAgent ι) : Prop where
  alive : s'.halted = false
  step : s.fw.MonStep true s'.fw
  rcv : s'.filercv = s.filercv
  env : s'.env = s.env
  heap : ∀ a, SameContents (s.heap a) (s'.heap a)

omit [DecidableEq ι] [Fintype ι] in
/-- The save under way will succeed. -/
theorem Works.saving (h : Works s) (hm : s.fw.mon = .saving) : ∃ a, s.fw.ptr = some a ∧
    ∀ n, (saveBody s.env (FtServer.granted n) s.filepath (s.heap a)).1 = .ok true := by
  obtain ⟨a, rest, hq, hp⟩ := h.fifo.head hm
  have htime := h.times a (by rw [hq]; exact List.mem_cons_self ..)
  exact ⟨a, hp, fun n => saveBody_granted htime n _⟩

/-- Unless it sleeps, the monitor takes a step. -/
theorem Works.monitor_enabled (dbl : DoubleLib δ) (h : Works s) (hh : s.halted = false)
    (hm : s.fw.mon ≠ .blocked) (n : ℕ) :
    ∃ s', s.step dbl (.monitor (FtServer.granted n)) = some s' := by
  rw [step_monitor hh]
  have hsome : (s.monitor (FtServer.granted n)).isSome = true := by
    rcases hpc : s.fw.mon
    case blocked => exact absurd hpc hm
    case start => exact absurd hpc h.lasts.started
    case ended => exact absurd hpc h.lasts.going
    case test =>
      simp only [monitor, hpc, FileWritter.threadMonitor, if_pos h.lasts.budget]
      split
      · rfl
      · split
        · rfl
        · split <;> rfl
    case wait | popped => simp [monitor, hpc, FileWritter.threadMonitor]
    case save =>
      obtain ⟨a, q, hq⟩ := List.exists_cons_of_ne_nil (h.wake.entered hpc)
      simp [monitor, hpc, hq, FileWritter.threadMonitor]
    case saving =>
      obtain ⟨a, hp, hsave⟩ := h.saving hpc
      have hbody : saveBody s.env (FtServer.granted n) s.filepath (s.heap a) =
          (.ok true, (saveBody s.env (FtServer.granted n) s.filepath (s.heap a)).2) :=
        Prod.ext (hsave n) rfl
      simp only [monitor, hpc, hp, FileWritter.threadMonitor]
      rw [hbody]
      rfl
  exact Option.isSome_iff_exists.mp hsome

theorem Works.granted (h : Works s) (hs : s.step dbl (.monitor (FtServer.granted n)) = some s') :
    Granted s s' := by
  obtain ⟨hh, hstep⟩ := step_cases hs
  cases hstep with
  | @takeFirst _ a q hm hq =>
    refine ⟨hh, .enter hm hq, rfl, rfl, fun b => ?_⟩
    dsimp only
    by_cases hb : b = a
    · subst hb
      rw [Function.update_self]
      exact saveBegin_sameContents ..
    · rw [Function.update_of_ne hb]
      exact .refl _
  | saveThrew hm hp hb =>
    obtain ⟨a, hp', hsave⟩ := h.saving hm
    obtain rfl := Option.some.inj (hp.symm.trans hp')
    rw [hsave] at hb
    cases hb
  | @save _ a rslt w hm hp hb hw =>
    obtain ⟨a, hp', hsave⟩ := h.saving hm
    obtain rfl := Option.some.inj (hp.symm.trans hp')
    rw [hsave] at hb
    obtain rfl := Except.ok.inj hb
    exact ⟨hh, FileWritter.threadMonitor_cases hw, rfl, rfl, fun _ => .refl _⟩
  | monitor _ _ hw =>
    exact ⟨hh, FileWritter.threadMonitor_cases hw, rfl, rfl, fun _ => .refl _⟩

omit [DecidableEq ι] [Fintype ι] in
/-- The monitor puts nothing into the queue. -/
theorem monStep_quenf {w w' : FileWritter ι Addr} {ok : Bool} (hs : w.MonStep ok w') {a : Addr}
    (ha : a ∈ w'.quenf) : a ∈ w.quenf := by
  cases hs with
  | pop => exact List.mem_of_mem_tail ha
  | _ => exact ha

theorem Works.step_granted (h : Works s)
    (hs : s.step dbl (.monitor (FtServer.granted n)) = some s') : Works s' := by
  have hg := h.granted hs
  refine ⟨fifo_step h.fifo hs, h.wake.monStep hg.step, h.lasts.monStep hg.step, fun a ha => ?_⟩
  rw [hg.env]
  exact (h.times a (monStep_quenf hg.step ha)).of_same (hg.heap a)

/-- A call of `NewFile` wakes a monitor that sleeps. -/
theorem Works.step_notify (h : Works s) (howned : Owned s) (hh : s.halted = false)
    (hm : s.fw.mon = .blocked) (hq : s.fw.quenf ≠ []) (hk : s.fw.Notifying k) :
    ∃ s', s.step dbl (.msg k (fun _ => 0) true) = some s' ∧ s'.halted = false ∧ Works s' ∧
      s'.fw.work < s.fw.work := by
  obtain ⟨a, hc⟩ := hk
  have hnew : (s.filercv k).msg = .newFile := (howned.caller k a (by rw [hc]; rfl)).2
  obtain ⟨s', hs⟩ : ∃ s', s.step dbl (.msg k (fun _ => 0) true) = some s' := by
    simp [TransferAgent.step, hh, message, hnew, callStep, FileWritter.newFile, hc]
  refine ⟨s', hs, ?_⟩
  have hfifo := fifo_step h.fifo hs
  cases (step_cases hs).2 with
  | msg hv => exact absurd hnew (msg_ne_newFile hv)
  | handOver hover => simp [hnew] at hover
  | newFile hpc hw =>
    have hcall := FileWritter.newFile_cases hw
    have htimely : s.fw.TimelyStep (.caller k) := fun _ =>
      ⟨fun _ => hq, fun hwait => by simp [hm] at hwait⟩
    have hwake := h.wake.callStep htimely hcall
    have hlasts := h.lasts.callStep hcall
    cases hcall with
    | wake =>
      refine ⟨hh, ⟨hfifo, hwake, hlasts, h.times⟩, ?_⟩
      simp [FileWritter.work, hm, MonPc.work]
    | lost _ hnot => exact absurd hm hnot
    | reject hpc | accept hpc | push hpc => simp [hc] at hpc

/-! ### The queue gets empty -/

/-- What happens: the client and its receiver go on, the file system grants the saves of
the monitor, and calls of `NewFile` that have appended their files notify. -/
def Forward (i : ι) (s : TransferAgent ι) (e : AgentEvent ι) : Prop :=
  Ahead i e ∨
    (∃ n, e = .monitor (FtServer.granted n) ∧
      ∀ a ∈ s.fw.ptr, (s.heap a).filedata.length ≤ n) ∨
    ∃ k, e = .msg k (fun _ => 0) true ∧ s.fw.Notifying k

/-- A step of the monitor in which every byte is taken. -/
def grantedWhole (s : TransferAgent ι) : AgentEvent ι :=
  .monitor (FtServer.granted ((s.fw.ptr.map fun a => (s.heap a).filedata.length).getD 0))

omit [DecidableEq ι] [Fintype ι] in
theorem forward_grantedWhole (i : ι) (s : TransferAgent ι) : Forward i s s.grantedWhole := by
  refine .inr (.inl ⟨_, rfl, fun a ha => ?_⟩)
  rw [Option.mem_def.mp ha]
  exact le_rfl

/-- While there is a file in the queue, the monitor gets on, or somebody wakes it; the
receiver of a settled connection has no part in it. -/
theorem Works.ahead (ts : List (Transfer dbl)) (h : Works s) (howned : Owned s)
    (hh : s.halted = false) (hq : s.fw.quenf ≠ []) (hi : (s.filercv i).msg ≠ .newFile) :
    ∃ e s', (Forward i s e ∧ Allowed ts i s e) ∧ s.step dbl e = some s' ∧ s'.halted = false ∧
      Works s' ∧ s'.filercv i = s.filercv i ∧ s'.fw.work < s.fw.work := by
  by_cases hm : s.fw.mon = .blocked
  · obtain ⟨k, hk⟩ := h.wake.announced (.inr hm) hq
    have hki : k ≠ i := by
      rintro rfl
      obtain ⟨a, hc⟩ := hk
      exact hi (howned.caller k a (by rw [hc]; rfl)).2
    obtain ⟨s', hs, hh', h', hlt⟩ := h.step_notify howned hh hm hq hk
    have hrcv := (howned.undisturbed (i := i) hs fun he => hki (Option.some.inj he)).rcv
    exact ⟨_, s', ⟨.inr (.inr ⟨k, rfl, hk⟩), trivial, trivial, trivial⟩, hs, hh', h', hrcv, hlt⟩
  · obtain ⟨s', hs⟩ := h.monitor_enabled dbl hh hm
      ((s.fw.ptr.map fun a => (s.heap a).filedata.length).getD 0)
    have hg := h.granted hs
    exact ⟨s.grantedWhole, s', ⟨forward_grantedWhole i s, trivial, trivial, trivial⟩, hs,
      hg.alive, h.step_granted hs, by rw [hg.rcv], h.lasts.work_lt hg.step hq⟩

/-- **The queue gets empty**, and nothing happens to a receiver that has settled. -/
theorem Works.exists_emptied (ts : List (Transfer dbl)) (h : Works s) (howned : Owned s)
    (hh : s.halted = false) (hi : (s.filercv i).msg ≠ .newFile) :
    ∃ fs s', Lts.RunAll (step dbl) (fun s e => Forward i s e ∧ Allowed ts i s e) s fs ∧
      Lts.run (step dbl) s fs = some s' ∧ s'.filercv i = s.filercv i ∧ s'.fw.quenf = [] := by
  obtain ⟨fs, s', hall, hrun, ⟨-, -, -, hrcv⟩, hempty⟩ := Lts.exists_run_of_rank
    (I := fun u => Works u ∧ Owned u ∧ u.halted = false ∧ u.filercv i = s.filercv i)
    (P := fun u => u.fw.quenf = []) (fun u => u.fw.work)
    (fun u ⟨hu, hou, hhu, hrcv⟩ hq => by
      obtain ⟨e, u', hok, hs, hhu', hu', hrcv', hlt⟩ := hu.ahead ts hou hhu hq (by rwa [hrcv])
      exact ⟨e, u', hok, hs, ⟨hu', hou.step hs, hhu', hrcv'.trans hrcv⟩, hlt⟩)
    ⟨h, howned, hh, rfl⟩
  exact ⟨fs, s', hall, hrun, hrcv, hempty⟩

/-! ### While the client goes on -/

/-- The receiver of `i` can go on without doing harm to the writer. -/
structure Served (ts : List (Transfer dbl)) (i : ι) (s : TransferAgent ι) : Prop where
  works : Works s
  /-- its notification does not come too late -/
  punctual : s.fw.mon = .blocked → s.fw.quenf = [] → ¬ s.fw.Notifying i
  accepted : NeverRejected (s.filercv i).log
  booked : ∃ t, Booked i s t
  convertible : ∀ t ∈ ts, Convertible s.env t.file

omit [DecidableEq ι] [Fintype ι] in
theorem NeverRejected.append {log os : List Obs} (h : NeverRejected log)
    (hos : ∀ o ∈ os, o.aside = true) : NeverRejected (log ++ os) := by
  intro a ha
  rcases List.mem_append.mp ha with ha | ha
  · exact h a ha
  · cases hos _ ha

omit [Fintype ι] in
/-- The file that is about to be appended is one of the client's. -/
theorem Served.held (h : Served ts i s) (hst : Stands False ts i s) {a : Addr}
    (ha : Held (s.fw.callers i) a) : Convertible s.env (s.heap a) := by
  obtain ⟨t, hbooked⟩ := h.booked
  obtain ⟨f, hf, hsame⟩ := hbooked.held a ha
  have hmem : f ∈ files (s.filercv i).log := by
    refine (book_sublist _).subset (List.mem_append_right _ ?_)
    rw [hf]
    exact List.mem_singleton_self _
  have hfiles := hst.place.reassembled.handed.subset hmem
  obtain ⟨u, hu, rfl⟩ := List.mem_map.mp hfiles
  exact (h.convertible u ((locate_passed ts _).subset hu)).of_same hsame

/-- A step of the receiver that leaves the writer alone. -/
theorem Served.frame (h : Served ts i s) (hs : s.step dbl e = some s') (hfw : s'.fw = s.fw)
    (henv : s'.env = s.env) {os : List Obs}
    (hlog : (s'.filercv i).log = (s.filercv i).log ++ os) (hos : ∀ o ∈ os, o.aside = true) :
    Served ts i s' := by
  obtain ⟨t, hbooked⟩ := h.booked
  refine ⟨⟨?_, ?_, ?_, fun a ha => ?_⟩, ?_, ?_, ⟨_, hbooked.step hs⟩, ?_⟩
  · exact fifo_step h.works.fifo hs
  · rw [hfw]
    exact h.works.wake
  · rw [hfw]
    exact h.works.lasts
  · rw [hfw] at ha
    rw [henv]
    exact (h.works.times a ha).of_same (hbooked.owned.contents hs (.inl ha))
  · rw [hfw]
    exact h.punctual
  · rw [hlog]
    exact h.accepted.append hos
  · rw [henv]
    exact h.convertible

omit [Fintype ι] in
/-- A call appends the file that it holds. -/
theorem callStep_quenf {w w' : FileWritter ι Addr} (hs : w.CallStep k w') {a : Addr}
    (ha : a ∈ w'.quenf) : a ∈ w.quenf ∨ Held (w.callers k) a := by
  cases hs with
  | reject | accept | wake | lost => exact .inl ha
  | @push b hpc =>
    rcases List.mem_append.mp ha with ha | ha
    · exact .inl ha
    · obtain rfl := List.mem_singleton.mp ha
      exact .inr (.inr hpc)

omit [Fintype ι] in
/-- Where a call has a notification to come, its file is in the queue. -/
theorem callStep_notifying {w w' : FileWritter ι Addr} (hs : w.CallStep k w')
    (hq : w'.quenf = []) : ¬ w'.Notifying k := by
  rintro ⟨a, ha⟩
  cases hs with
  | reject | accept | wake | lost => simp at ha
  | push => simp at hq

/-- A step of the call of `NewFile`, unless the monitor is about to wait with a file in
the queue. -/
theorem Served.newFile (h : Served ts i s) (hst : Stands False ts i s)
    (hwait : s.fw.mon = .wait → s.fw.quenf = []) (hs : s.step dbl e = some s')
    (hcall : FileWritter.CallStep s.fw i s'.fw) (henv : s'.env = s.env)
    (hheap : s'.heap = s.heap)
    (hlog : (s'.filercv i).log = (s.filercv i).log ++ newFileLog s.fw i) : Served ts i s' := by
  obtain ⟨t, hbooked⟩ := h.booked
  have htimely : s.fw.TimelyStep (.caller i) := fun hn =>
    ⟨fun hm hq => h.punctual hm hq hn, fun hm hq => absurd (hwait hm) hq⟩
  refine ⟨⟨?_, ?_, ?_, fun a ha => ?_⟩, ?_, ?_, ⟨_, hbooked.step hs⟩, ?_⟩
  · exact fifo_step h.works.fifo hs
  · exact h.works.wake.callStep htimely hcall
  · exact h.works.lasts.callStep hcall
  · rw [henv, hheap]
    rcases callStep_quenf hcall ha with ha | ha
    · exact h.works.times a ha
    · exact h.held hst ha
  · exact fun _ hq => callStep_notifying hcall hq
  · -- the writer was running when it was asked
    rw [hlog]
    intro a ha
    rcases List.mem_append.mp ha with ha | ha
    · exact h.accepted a ha
    · rcases hc : s.fw.callers i <;> simp [newFileLog, hc, h.works.lasts.running] at ha
  · rw [henv]
    exact h.convertible

/-- The client and its receiver leave the writer in order, unless the monitor is about to
wait with a file in the queue. -/
theorem Served.ahead (h : Served ts i s) (hst : Stands False ts i s)
    (hwait : s.fw.mon = .wait → s.fw.quenf = []) (he : Ahead i e)
    (hs : s.step dbl e = some s') : Served ts i s' := by
  have hrcv : e.receiver? = some i := by
    rcases he with he | ⟨d, rfl⟩
    · exact he.receiver_eq
    · rfl
  cases (step_cases hs).2 with
  | @recv _ d r hr =>
    obtain rfl := Option.some.inj hrcv
    obtain ⟨-, -, -, rfl⟩ := FileReceiver.receive_cases hr
    have haside : ∀ o ∈ [Obs.arrived d], o.aside = true := by simp [Obs.aside]
    refine h.frame hs rfl rfl ?_ haside
    dsimp only
    rw [Function.update_self]
  | fail =>
    rcases he with he | ⟨d, hd⟩
    · exact he.elim
    · cases hd
  | @io _ v hv =>
    obtain rfl := Option.some.inj hrcv
    obtain ⟨os, hlog, hos⟩ := io_aside hv
    exact h.frame hs rfl rfl (by rw [commit_self, hlog]; rfl) hos
  | @msg _ junk ok v hv =>
    obtain rfl := Option.some.inj hrcv
    obtain ⟨os, hlog, hos⟩ := msg_aside hv
    exact h.frame hs rfl rfl (by rw [commit_self, hlog]; rfl) hos
  | @handOver j junk ok a hpc hp hc =>
    obtain rfl := Option.some.inj hrcv
    obtain ⟨t, hbooked⟩ := h.booked
    have hcall : s.fw.step (.call j a) =
        some { s.fw with callers := Function.update s.fw.callers j (.entered a) } := by
      simp [FileWritter.step, FileWritter.call, hc]
    have hlasts := h.works.lasts
    refine ⟨⟨fifo_step h.works.fifo hs, h.works.wake.step (e := .call j a) trivial hcall,
      ⟨hlasts.running, hlasts.started, hlasts.going, hlasts.budget, hlasts.counted⟩,
      h.works.times⟩, ?_, ?_, ⟨_, hbooked.step hs⟩, h.convertible⟩
    · rintro - - ⟨b, hb⟩
      simp at hb
    · dsimp only
      rw [Function.update_self]
      intro b hb
      rcases List.mem_append.mp hb with hb | hb
      · exact h.accepted b hb
      · simp at hb
  | @newFile _ junk ok w hpc hw =>
    obtain rfl := Option.some.inj hrcv
    refine h.newFile hst hwait hs (FileWritter.newFile_cases hw) rfl rfl ?_
    dsimp only
    rw [Function.update_self]
  | takeFirst | saveThrew | save | monitor | spurious | config => cases hrcv

/-- The monitor goes to sleep with a file in the queue, whose notification is to come. -/
theorem Served.block (h : Served ts i s) (hm : s.fw.mon = .wait) (hq : s.fw.quenf ≠ [])
    (hs : s.step dbl (.monitor (FtServer.granted n)) = some s') :
    Served ts i s' ∧ s'.filercv = s.filercv ∧ s'.halted = false ∧ s'.fw.mon = .blocked := by
  obtain ⟨t, hbooked⟩ := h.booked
  have hg := h.works.granted hs
  have hstep := hg.step
  refine ⟨⟨h.works.step_granted hs, ?_, ?_, ⟨_, hbooked.step hs⟩, ?_⟩, hg.rcv, hg.alive, ?_⟩
  · intro _ hnone
    generalize s'.fw = w at hstep hnone
    cases hstep with
    | block => exact absurd hnone hq
    | start hpc | finish hpc | toWait hpc | count hpc | clear hpc | enter hpc | pop hpc
    | ret hpc => simp [hm] at hpc
  · rw [hg.rcv]
    exact h.accepted
  · rw [hg.env]
    exact h.convertible
  · generalize s'.fw = w at hstep
    cases hstep with
    | block => rfl
    | start hpc | finish hpc | toWait hpc | count hpc | clear hpc | enter hpc | pop hpc
    | ret hpc => simp [hm] at hpc

/-- The monitor is about to wait with a file in the queue. -/
def AboutToWait (s : TransferAgent ι) : Prop := s.fw.mon = .wait ∧ s.fw.quenf ≠ []

instance (s : TransferAgent ι) : Decidable s.AboutToWait := inferInstanceAs (Decidable (_ ∧ _))

/-- What the client and its receiver have left, with the step of a monitor that has to go
first. -/
def rankAwake (ts : List (Transfer dbl)) (i : ι) (s : TransferAgent ι) : ℕ :=
  2 * rank ts i s + if s.AboutToWait then 1 else 0

theorem Served.next (h : Served ts i s) (hst : Stands False ts i s) (hh : s.halted = false)
    (ho : (s.filercv i).Open) (hlines : ∀ t ∈ ts, t.header.length ≤ tcpPackSize)
    (hmore : ¬ ((s.filercv i).Settled ∧ arrived (s.filercv i).log = stream ts)) :
    ∃ e s', (Forward i s e ∧ Allowed ts i s e) ∧ s.step dbl e = some s' ∧
      (Served ts i s' ∧ Stands False ts i s' ∧ s'.halted = false ∧ (s'.filercv i).Open) ∧
        rankAwake ts i s' < rankAwake ts i s := by
  by_cases hwait : s.AboutToWait
  · obtain ⟨hm, hq⟩ := hwait
    obtain ⟨s', hs⟩ := h.works.monitor_enabled dbl hh (by simp [hm])
      ((s.fw.ptr.map fun a => (s.heap a).filedata.length).getD 0)
    obtain ⟨h', hrcv, hh', hm'⟩ := h.block hm hq hs
    have hallowed : Allowed ts i s s.grantedWhole := ⟨trivial, trivial, trivial⟩
    have hst' : Stands False ts i s' :=
      hst.step hallowed.1 hallowed.2.1 (hst.noGap _) (.inr hallowed.2.2) hs
    have hcaller := (hst.owned.undisturbed (i := i) hs (by simp [AgentEvent.receiver?])).caller
    refine ⟨s.grantedWhole, s', ⟨forward_grantedWhole i s, hallowed⟩, hs,
      ⟨h', hst', hh', by rwa [hrcv]⟩, ?_⟩
    have hrank : rank ts i s' = rank ts i s := by rw [rank, rank, hrcv, hcaller]
    have hasleep : ¬ s'.AboutToWait := fun hw => by simp [AboutToWait, hm'] at hw
    rw [rankAwake, rankAwake, hrank, if_neg hasleep, if_pos ⟨hm, hq⟩]
    exact Nat.lt_succ_self _
  · obtain ⟨e, s', ⟨hahead, hallowed⟩, hs, ⟨hst', hh', ho'⟩, hlt⟩ := hst.ahead hh ho hlines hmore
    have h' : Served ts i s' := h.ahead hst (fun hm => by
      by_contra hq
      exact hwait ⟨hm, hq⟩) hahead hs
    refine ⟨e, s', ⟨.inl hahead, hallowed⟩, hs, ⟨h', hst', hh', ho'⟩, ?_⟩
    rw [rankAwake, rankAwake, if_neg hwait]
    split
    · omega
    · omega

/-! ### To the disk -/

omit [Fintype ι] in
/-- With nothing left in the queue, the saves for `i` are all the files that it has
appended. -/
theorem savedFor_all (i : ι) {ps : List (ι × FileInfo)} {vs : List Save}
    (h : List.Forall₂ (fun (p : ι × FileInfo) f => SameContents p.2 f) ps (vs.map Save.info)) :
    List.Forall₂ SameContents (ps.filterMap fun p => if p.1 = i then some p.2 else none)
      ((ps.zip vs).filterMap fun x => if x.1.1 = i then some x.2.info else none) := by
  induction vs generalizing ps with
  | nil =>
    cases h
    exact .nil
  | cons v vs ih =>
    cases h with
    | @cons p _ ps _ hp hrest =>
      rw [List.zip_cons_cons]
      by_cases hi : p.1 = i
      · simpa [hi] using ⟨hp, ih hrest⟩
      · simpa [hi] using ih hrest

/-- When its queue is empty and connection `i` has settled, everything that the client
has transferred is saved. -/
theorem saved_of_run {bufs : ι → PackBuf × PackBuf} {heap : Heap} {env : SaveEnv}
    {es : List (AgentEvent ι)} (hrun : Lts.run (step dbl) (init bufs heap env) es = some s)
    (hempty : s.fw.quenf = []) (hset : (s.filercv i).Settled)
    (haccepted : NeverRejected (s.filercv i).log) :
    List.Forall₂ SameContents (files (s.filercv i).log)
      (savedFor i (Lts.outputs (step dbl) transitOf (init bufs heap env) es)) := by
  have hbooked := booked_run i hrun
  have hkept := (carried_run hrun).kept
  rw [hempty, List.map_nil, List.append_nil] at hkept
  have hout : ∀ a, ¬ Held (s.fw.callers i) a := by
    intro a ha
    have hm := (hbooked.owned.held ha).2.1
    rw [hset.2.2] at hm
    cases hm
  obtain ⟨hfiles, hnone⟩ := hbooked.whole haccepted
  rw [hfiles, hnone hout, Option.toList_none, List.append_nil]
  exact sameContents_trans hbooked.appended (savedFor_all i hkept)

/-- **Files get to the disk.**  From every state of a run in which the client of `i` has
followed the protocol, unless the process has ended or the connection has failed, if the
writer works and has rejected nothing of this client, the client, the threads of its
receiver and the monitor get to a state in which each of its files has been acknowledged
and saved. -/
theorem exists_saved {bufs : ι → PackBuf × PackBuf} {heap : Heap} {env : SaveEnv}
    {es : List (AgentEvent ι)} (hlines : ∀ t ∈ ts, t.header.length ≤ tcpPackSize)
    (hclient : Lts.RunAll (step dbl) (Allowed ts i) (init bufs heap env) es)
    (hrun : Lts.run (step dbl) (init bufs heap env) es = some s) (hh : s.halted = false)
    (ho : (s.filercv i).Open) (hwake : s.fw.WakeInv) (hlasts : s.fw.Lasts)
    (hpunctual : s.fw.mon = .blocked → s.fw.quenf = [] → ¬ s.fw.Notifying i)
    (htimes : ∀ a ∈ s.fw.quenf, Convertible s.env (s.heap a))
    (hconvertible : ∀ t ∈ ts, Convertible s.env t.file)
    (haccepted : NeverRejected (s.filercv i).log) :
    ∃ fs s', Lts.RunAll (step dbl) (fun s e => Forward i s e ∧ Allowed ts i s e) s fs ∧
      Lts.run (step dbl) s fs = some s' ∧ statuses (s'.filercv i).log = done ts ∧
      List.Forall₂ (fun t f => SameContents t.file f) ts
        (savedFor i (Lts.outputs (step dbl) transitOf (init bufs heap env) (es ++ fs))) := by
  have hst : Stands False ts i s := stands_run hclient hrun
  have hserved : Served ts i s := ⟨⟨(carried_run hrun).fifo, hwake, hlasts, htimes⟩,
    hpunctual, haccepted, ⟨_, booked_run i hrun⟩, hconvertible⟩
  -- first the client comes to its end, then the queue gets empty
  obtain ⟨fs, u, hall, hrun', ⟨hserved', hst', hh', ho'⟩, hset, harr⟩ := Lts.exists_run_of_rank
    (I := fun s => Served ts i s ∧ Stands False ts i s ∧ s.halted = false ∧ (s.filercv i).Open)
    (P := fun s => (s.filercv i).Settled ∧ arrived (s.filercv i).log = stream ts)
    (rankAwake ts i) (fun _ h hmore => h.1.next h.2.1 h.2.2.1 h.2.2.2 hlines hmore)
    ⟨hserved, hst, hh, ho⟩
  have hidle : (u.filercv i).msg ≠ .newFile := by simp [hset.2.2]
  obtain ⟨gs, s', hall', hrun'', hrcv, hempty⟩ :=
    hserved'.works.exists_emptied ts hst'.owned hh' hidle
  obtain ⟨hsts, hfiles⟩ := (hst'.place.expecting ho' hset).2.finished harr
  have hend : Lts.run (step dbl) (init bufs heap env) (es ++ (fs ++ gs)) = some s' := by
    rw [Lts.run_append hrun, Lts.run_append hrun', hrun'']
  have hsaved := saved_of_run (i := i) hend hempty (by rwa [hrcv])
    (by rw [hrcv]; exact hserved'.accepted)
  rw [hrcv, hfiles, List.forall₂_map_left_iff] at hsaved
  refine ⟨fs ++ gs, s', ?_, ?_, ?_, hsaved⟩
  · exact (Lts.runAll_append hrun').mpr ⟨hall, hall'⟩
  · rw [Lts.run_append hrun', hrun'']
  · rw [hrcv, hsts]

theorem exists_saved_first :
    ∃ s, Lts.run (step unitLib) single firstLine = some s ∧
      ∃ fs s', Lts.RunAll (step unitLib)
          (fun s e => Forward () s e ∧ Allowed [transferA, transferB] () s e) s fs ∧
        Lts.run (step unitLib) s fs = some s' ∧
        statuses (s'.filercv ()).log = done [transferA, transferB] ∧
        List.Forall₂ (fun t f => SameContents t.file f) [transferA, transferB]
          (savedFor () (Lts.outputs (step unitLib) transitOf single (firstLine ++ fs))) := by
  have hclient : Lts.RunAll (step unitLib) (Allowed [transferA, transferB] ()) single
      firstLine := by
    unfold Allowed
    decide +kernel
  have heval : (Lts.run (step unitLib) single firstLine).map (fun s =>
      ((s.halted, decide (s.filercv ()).Open, s.env.dbt), (s.fw.mon, s.fw.running, s.fw.errcnt),
        s.fw.quenf, (s.filercv ()).log.all Obs.aside)) =
      some ((false, true, false), (.test, true, 0), [], true) := by
    decide +kernel
  obtain ⟨s, hrun, hs⟩ := Option.map_eq_some_iff.mp heval
  simp only [Prod.mk.injEq, decide_eq_true_eq, List.all_eq_true] at hs
  obtain ⟨⟨hh, ho, hdb⟩, ⟨hm, hr, herr⟩, hq, hlog⟩ := hs
  have hwake : s.fw.WakeInv := ⟨by simp [hm], by simp [hm]⟩
  have hlasts : s.fw.Lasts :=
    ⟨hr, by simp [hm], by simp [hm], by omega, fun _ _ => by omega⟩
  have hrejected : NeverRejected (s.filercv ()).log := fun a ha => by cases hlog _ ha
  have hconvertible : ∀ f, Convertible s.env f := fun f h => by simp [hdb] at h
  exact ⟨s, hrun, exists_saved (by decide) hclient hrun hh ho hwake hlasts (by simp [hm])
    (by simp [hq]) (fun t _ => hconvertible t.file) hrejected⟩

end TransferAgent

end FtServer
