/-
FtServer/SaveReturns.lean

What can throw out of the writer.  `thread_monitor` calls `save_first` and catches
nothing.  On the way to its result `save_first` hands the text of a client to
three calls that report a failure by an exception: the test for the directory, its
creation, and, once the data are written, the conversion of the time for the
database.  The message to the data process throws nothing, as its connection is
buffered.

`attempts_iff` says which attempts return to `thread_monitor`, in every state that
the server reaches.
-/
import FtServer.WriterQueue

namespace FtServer

/-! ### `save_first` -/

/-- The calls of an attempt answer: the directory is found or not found, created if
it has to be, and the time converts if it comes to the registration. -/
structure Answered (env : SaveEnv) (ans : FsAnswers) (f : FileInfo) : Prop where
  isDirectory : ans.isDirectory.isOk = true
  createDirectory : ans.isDirectory = .ok false → ans.createDirectory.isOk = true
  time : (ans.isDirectory = .ok true ∨
      (ans.isDirectory = .ok false ∧ ans.createDirectory = .ok true)) →
    ans.fopen = true → env.dbt = true → (env.obsTime f.tmobs).isSome = true

theorem isOk_iff {ε α : Type} {x : Except ε α} : x.isOk = true ↔ ∃ y, x = .ok y := by
  cases x <;> simp [Except.isOk, Except.toBool]

/-- The guard returns exactly if the two calls do. -/
theorem makeDirectory_returns_iff (ans : FsAnswers) (dir : Bytes) :
    (makeDirectory ans dir).1.isOk = true ↔ ans.isDirectory.isOk = true ∧
      (ans.isDirectory = .ok false → ans.createDirectory.isOk = true) := by
  rcases hd : ans.isDirectory with e | there
  · simp [makeDirectory, hd, Except.isOk, Except.toBool]
  · cases there <;> simp [makeDirectory, hd, Except.isOk, Except.toBool]

/-- **`save_first` returns exactly if its calls answer.** -/
theorem saveBody_returns_iff (env : SaveEnv) (ans : FsAnswers) (dir : Bytes) (f : FileInfo) :
    (∃ b, (saveBody env ans dir f).1 = .ok b) ↔ Answered env ans f := by
  have hguard := makeDirectory_returns_iff ans dir
  have hmade := makeDirectory_ok_iff ans dir
  have hanswered : Answered env ans f ↔ (makeDirectory ans dir).1.isOk = true ∧
      ((makeDirectory ans dir).1 = .ok true → ans.fopen = true →
        env.dbt = true → (env.obsTime f.tmobs).isSome = true) := by
    rw [hguard, hmade]
    constructor
    · intro h
      exact ⟨⟨h.isDirectory, h.createDirectory⟩, h.time⟩
    · rintro ⟨⟨hd, hc⟩, ht⟩
      exact ⟨hd, hc, ht⟩
  rw [hanswered]
  have hstep := saveBody_cases env ans dir f
  generalize saveBody env ans dir f = body at hstep
  cases hstep with
  | noDirectory hd =>
    rw [← isOk_iff]
    exact ⟨fun h => ⟨h, fun hd' => absurd hd' hd⟩, And.left⟩
  | noFile hd hf =>
    refine iff_of_true ⟨_, rfl⟩ ⟨isOk_iff.mpr ⟨_, hd⟩, fun _ hf' => ?_⟩
    rw [hf] at hf'
    cases hf'
  | badTime hd hf ht =>
    refine iff_of_false nofun fun ⟨_, htime⟩ => ?_
    obtain ⟨reg, hreg⟩ := (register_ok_iff env _ f).mpr (htime hd hf)
    rw [ht] at hreg
    cases hreg
  | saved hd hf ht =>
    exact iff_of_true ⟨_, rfl⟩
      ⟨isOk_iff.mpr ⟨_, hd⟩, fun _ _ => (register_ok_iff env _ f).mp ⟨_, ht⟩⟩

instance Answered.decidable (env : SaveEnv) (ans : FsAnswers) (f : FileInfo) :
    Decidable (Answered env ans f) :=
  decidable_of_iff (ans.isDirectory.isOk = true ∧
      (ans.isDirectory = .ok false → ans.createDirectory.isOk = true) ∧
      ((ans.isDirectory = .ok true ∨
        (ans.isDirectory = .ok false ∧ ans.createDirectory = .ok true)) →
      ans.fopen = true → env.dbt = true → (env.obsTime f.tmobs).isSome = true))
    ⟨fun h => ⟨h.1, h.2.1, h.2.2⟩, fun h => ⟨h.isDirectory, h.createDirectory, h.time⟩⟩

/-! ### `thread_monitor` -/

namespace TransferAgent

variable {ι : Type}

/-- What is left of an attempt that returns `rslt`: the pop of the file is a step
of its own. -/
def attemptSteps (ans : FsAnswers) : Bool → List (AgentEvent ι)
  | false => [.monitor ans]
  | true => [.monitor ans, .monitor ans]

variable [DecidableEq ι] [Fintype ι] {δ : Type} (dbl : DoubleLib δ)

/-- An attempt under way returns true or false, and the monitor goes on with it at
the condition of its loop. -/
def AttemptReturns (s : TransferAgent ι) : AgentEvent ι → Prop
  | .monitor ans => s.halted = false → s.fw.mon = .saving →
    ∃ rslt s', Lts.run (step dbl) s (attemptSteps ans rslt) = some s' ∧ s'.halted = false ∧
      s'.fw.mon = .test ∧ s'.fw.rslt = rslt
  | .recv .. | .fail _ | .io _ | .msg .. | .spurious | .config _ => True

omit [DecidableEq ι] [Fintype ι] in
/-- The step condition: the calls of an attempt answer. -/
def AttemptAnswered (s : TransferAgent ι) : AgentEvent ι → Prop
  | .monitor ans => s.halted = false → s.fw.mon = .saving →
    ∀ a ∈ s.fw.ptr, Answered s.env ans (s.heap a)
  | .recv .. | .fail _ | .io _ | .msg .. | .spurious | .config _ => True

omit [DecidableEq ι] [Fintype ι] in
instance AttemptAnswered.decidable (s : TransferAgent ι) (e : AgentEvent ι) :
    Decidable (AttemptAnswered s e) :=
  match e with
  | .monitor ans => inferInstanceAs (Decidable (s.halted = false → s.fw.mon = .saving →
      ∀ a ∈ s.fw.ptr, Answered s.env ans (s.heap a)))
  | .recv .. | .fail _ | .io _ | .msg .. | .spurious | .config _ => isTrue trivial

variable {dbl} {s : TransferAgent ι}

theorem step_monitor {ans : FsAnswers} (hlive : s.halted = false) :
    s.step dbl (.monitor ans) = s.monitor ans := by
  rw [step, hlive]
  rfl

omit [DecidableEq ι] [Fintype ι] in
/-- The rest of `save_first` throws: the process ends. -/
theorem monitor_threw {ans : FsAnswers} {a : Addr} {e : StdException} (hm : s.fw.mon = .saving)
    (hp : s.fw.ptr = some a) (hb : (saveBody s.env ans s.filepath (s.heap a)).1 = .error e) :
    s.monitor ans = some { s with
      effects := s.effects ++ (saveBody s.env ans s.filepath (s.heap a)).2
      halted := true } := by
  have hbody : saveBody s.env ans s.filepath (s.heap a) =
      (.error e, (saveBody s.env ans s.filepath (s.heap a)).2) := Prod.ext hb rfl
  simp only [monitor, hm, hp]
  rw [hbody]

/-- After the pop the monitor comes back to its loop. -/
theorem run_popped {ans : FsAnswers} (hlive : s.halted = false) (hm : s.fw.mon = .popped) :
    ∃ s', Lts.run (step dbl) s [.monitor ans] = some s' ∧ s'.halted = false ∧
      s'.fw.mon = .test ∧ s'.fw.rslt = true := by
  have hstep : s.step dbl (.monitor ans) = s.monitor ans := step_monitor hlive
  simp only [monitor, hm, FileWritter.threadMonitor] at hstep
  exact ⟨_, Lts.run_cons hstep, hlive, rfl, rfl⟩

/-- The rest of `save_first` returns `rslt`: the monitor comes back to its loop with
it. -/
theorem run_attemptSteps {ans : FsAnswers} {a : Addr} {rslt : Bool} (hlive : s.halted = false)
    (hm : s.fw.mon = .saving) (hp : s.fw.ptr = some a)
    (hb : (saveBody s.env ans s.filepath (s.heap a)).1 = .ok rslt) :
    ∃ s', Lts.run (step dbl) s (attemptSteps ans rslt) = some s' ∧ s'.halted = false ∧
      s'.fw.mon = .test ∧ s'.fw.rslt = rslt := by
  have hbody : saveBody s.env ans s.filepath (s.heap a) =
      (.ok rslt, (saveBody s.env ans s.filepath (s.heap a)).2) := Prod.ext hb rfl
  have hstep : s.step dbl (.monitor ans) = s.monitor ans := step_monitor hlive
  simp only [monitor, hm, hp, FileWritter.threadMonitor] at hstep
  rw [hbody] at hstep
  cases rslt with
  | false => exact ⟨_, Lts.run_cons hstep, hlive, rfl, rfl⟩
  | true =>
    rw [attemptSteps, Lts.run_cons hstep]
    exact run_popped hlive rfl

/-! ### When an attempt returns -/

/-- The writer of the server works on the head of its queue. -/
theorem fifo_step {s' : TransferAgent ι} {e : AgentEvent ι} (h : s.fw.Fifo)
    (hs : s.step dbl e = some s') : s'.fw.Fifo := by
  rcases step_fw hs with hsame | ⟨d, hd⟩
  · rw [hsame]
    exact h
  · exact h.step hd

/-- **An attempt returns exactly if its calls answer.** -/
theorem attemptReturns_iff (h : s.fw.Fifo) (e : AgentEvent ι) :
    AttemptReturns dbl s e ↔ AttemptAnswered s e := by
  cases e with
  | recv | fail | io | msg | spurious | config => exact Iff.rfl
  | monitor ans =>
    refine imp_congr_right fun hlive => forall_congr' fun hm => ?_
    obtain ⟨a, -, -, hp⟩ := h.head hm
    have hbody := saveBody_returns_iff s.env ans s.filepath (s.heap a)
    simp only [hp, Option.mem_def, Option.some.injEq, forall_eq']
    rw [← hbody]
    constructor
    · rintro ⟨rslt, s', hrun, hlive', -⟩
      cases hb : (saveBody s.env ans s.filepath (s.heap a)).1 with
      | ok rslt => exact ⟨rslt, rfl⟩
      | error e =>
        -- the first step ends the process
        have hthrew : s.step dbl (.monitor ans) = _ :=
          (step_monitor hlive).trans (monitor_threw hm hp hb)
        cases rslt with
        | false =>
          rw [attemptSteps, Lts.run_cons hthrew, Lts.run_nil] at hrun
          rw [← Option.some.inj hrun] at hlive'
          cases hlive'
        | true =>
          rw [attemptSteps, Lts.run_cons hthrew] at hrun
          obtain ⟨s₁, h₁, -⟩ := Lts.run_cons_inv hrun
          cases (step_cases h₁).1
    · rintro ⟨rslt, hb⟩
      exact ⟨rslt, run_attemptSteps hlive hm hp hb⟩

/-- **No exception leaves `thread_monitor` exactly if the calls of its attempts
answer**: in every state that the server reaches, whatever the file and the
outcomes of the calls, and so all along every run. -/
theorem attempts_iff {bufs : ι → PackBuf × PackBuf} {heap : Heap} {env : SaveEnv}
    {es : List (AgentEvent ι)} (hrun : Lts.run (step dbl) (init bufs heap env) es = some s) :
    (∀ e, AttemptReturns dbl s e ↔ AttemptAnswered s e) ∧
      (Lts.RunAll (step dbl) (AttemptReturns dbl) (init bufs heap env) es ↔
        Lts.RunAll (step dbl) AttemptAnswered (init bufs heap env) es) := by
  have hinit : (init bufs heap env).fw.Fifo := FileWritter.Fifo.init
  have hstep : ∀ (s : TransferAgent ι) e s', s.fw.Fifo → s.step dbl e = some s' → s'.fw.Fifo :=
    fun _ _ _ => fifo_step
  have hfifo : s.fw.Fifo := Lts.run_invariant (I := fun s => s.fw.Fifo) hstep hinit hrun
  refine ⟨attemptReturns_iff hfifo, ?_⟩
  exact Lts.runAll_congr (I := fun s : TransferAgent ι => s.fw.Fifo) hstep
    (fun _ e h => attemptReturns_iff h e) hinit

/-- The run of a file up to its save. -/
def saveSchedule (line : Bytes) : List (AgentEvent Unit) :=
  monitorSteps 1 ++ lineSchedule line ++ dataSchedule [7, 8] ++ msgSteps 7 ++ monitorSteps 2

/-- A file that is saved, without a database and with no time in its line. -/
theorem attempts_saved : ∃ s : TransferAgent Unit,
    Lts.run (step unitLib) single
        (saveSchedule (lit "fileinfo filename=a,filesize=2\n") ++ monitorSteps 2) = some s ∧
      s.fw.saved = [0] ∧
      Lts.RunAll (step unitLib) (AttemptReturns unitLib) single
        (saveSchedule (lit "fileinfo filename=a,filesize=2\n") ++ monitorSteps 2) := by
  have heval : (Lts.run (step unitLib) single
      (saveSchedule (lit "fileinfo filename=a,filesize=2\n") ++ monitorSteps 2)).map
        (fun s => s.fw.saved) = some [0] := by decide +kernel
  obtain ⟨s, hrun, hs⟩ := Option.map_eq_some_iff.mp heval
  exact ⟨s, hrun, hs, (attempts_iff hrun).2.mpr (by decide +kernel)⟩

/-- A subpath of two new levels: the parent of the directory is missing. -/
theorem not_attemptReturns_nested : ∃ s : TransferAgent Unit,
    Lts.run (step unitLib) single
        (saveSchedule (lit "fileinfo filename=a,subpath=x/y,filesize=2\n")) = some s ∧
      s.fw.mon = .saving ∧ s.filepath = lit "x/y" ∧
      ¬ AttemptReturns unitLib s (.monitor ⟨.ok false, .error .filesystemError, true, 2⟩) := by
  have heval : (Lts.run (step unitLib) single
      (saveSchedule (lit "fileinfo filename=a,subpath=x/y,filesize=2\n"))).map
        (fun s => (s.fw.mon, s.filepath, s.halted, s.fw.ptr)) =
          some (.saving, lit "x/y", false, some 0) := by decide +kernel
  obtain ⟨s, hrun, hs⟩ := Option.map_eq_some_iff.mp heval
  obtain ⟨hm, hs⟩ := Prod.mk.inj hs
  obtain ⟨hpath, hs⟩ := Prod.mk.inj hs
  obtain ⟨hlive, hp⟩ := Prod.mk.inj hs
  have hfifo : s.fw.Fifo := Lts.run_invariant (I := fun s : TransferAgent Unit => s.fw.Fifo)
    (fun _ _ _ => fifo_step) FileWritter.Fifo.init hrun
  refine ⟨s, hrun, hm, hpath, fun h => ?_⟩
  have hanswered := (attemptReturns_iff hfifo _).mp h hlive hm 0 hp
  cases hanswered.createDirectory rfl

end TransferAgent

end FtServer
