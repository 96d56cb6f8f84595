/-
FtServer/TransferAgent.lean

The whole server: any finite number of receivers `ι`, the file writer they hand
their files to, and the objects they share.  A step is one access of one thread
to what the threads share, taken in any order:

* a read of a connection completes or fails, its I/O thread proceeds;
* a message thread proceeds, inside `NewFile` by a step of the writer;
* the monitor thread proceeds, inside `save_first` by the functions of
  `SaveFirst`, with the outcomes of the file-system calls as an input;
* the wait of the monitor ends spuriously;
* the storage, the database or the data-process connection is changed.

Once an exception has left a thread, or the counter of a file has overflowed,
the process has ended and nothing moves.  Every step of the writer in here is a
step of `FileWritter` (`run_fw`), so what holds of all its runs holds here.
-/
import Mathlib.Data.Fintype.Basic
import Mathlib.Data.Finset.Card
import FtServer.Lts
import FtServer.FileReceiver
import FtServer.FileWritter
import FtServer.SaveFirst

namespace FtServer

/-! ### State -/

/-- The server. -/
structure TransferAgent (ι : Type) where
  filercv : ι → FileReceiver
  fw : FileWritter ι Addr
  heap : Heap
  /-- addresses from here on are free -/
  brk : Addr
  env : SaveEnv
  /-- the local `filepath` of `save_first` -/
  filepath : Bytes
  halted : Bool
  /-- history: what `save_first` has done -/
  effects : List Effect

/-- What happens next. -/
inductive AgentEvent (ι : Type)
  | recv (i : ι) (d : Bytes)
  | fail (i : ι)
  | io (i : ι)
  | msg (i : ι) (junk : ℕ → UInt8) (ok : Bool)
  | monitor (ans : FsAnswers)
  | spurious
  | config (env : SaveEnv)

/-- The receiver that takes the step. -/
def AgentEvent.receiver? {ι : Type} : AgentEvent ι → Option ι
  | .recv i _ | .fail i | .io i | .msg i _ _ => some i
  | .monitor _ | .spurious | .config _ => none

/-- The event is a step of a receiver. -/
def AgentEvent.isReceiver {ι : Type} (e : AgentEvent ι) : Bool := e.receiver?.isSome

namespace TransferAgent

variable {ι : Type}

/-- What receiver `i` sees. -/
def view (s : TransferAgent ι) (i : ι) : RcvView := ⟨s.filercv i, s.heap, s.brk, s.halted⟩

@[simp] theorem view_rcv (s : TransferAgent ι) (i : ι) : (s.view i).rcv = s.filercv i := rfl

@[simp] theorem view_heap (s : TransferAgent ι) (i : ι) : (s.view i).heap = s.heap := rfl

@[simp] theorem view_brk (s : TransferAgent ι) (i : ι) : (s.view i).brk = s.brk := rfl

@[simp] theorem view_halted (s : TransferAgent ι) (i : ι) : (s.view i).halted = s.halted := rfl

variable [DecidableEq ι]

/-- The server with no file received; the contents of the buffers and of free
memory are arbitrary. -/
def init (bufs : ι → PackBuf × PackBuf) (heap : Heap) (env : SaveEnv) : TransferAgent ι where
  filercv := fun i => .init (bufs i).1 (bufs i).2
  fw := .init
  heap := heap
  brk := 0
  env := env
  filepath := []
  halted := false
  effects := []

/-! ### Steps of a receiver -/

/-- The server after a step of receiver `i`. -/
def commit (s : TransferAgent ι) (i : ι) (v : RcvView) : TransferAgent ι :=
  { s with
    filercv := Function.update s.filercv i v.rcv
    heap := v.heap
    brk := v.brk
    halted := v.halted }

@[simp] theorem commit_fw (s : TransferAgent ι) (i : ι) (v : RcvView) :
    (s.commit i v).fw = s.fw := rfl

@[simp] theorem commit_heap (s : TransferAgent ι) (i : ι) (v : RcvView) :
    (s.commit i v).heap = v.heap := rfl

@[simp] theorem commit_brk (s : TransferAgent ι) (i : ι) (v : RcvView) :
    (s.commit i v).brk = v.brk := rfl

@[simp] theorem commit_self (s : TransferAgent ι) (i : ι) (v : RcvView) :
    (s.commit i v).filercv i = v.rcv := Function.update_self ..

/-- `use_count` of the pointers to `a`: those of the receivers, the arguments of
the calls of `NewFile` under way, the queue, and the local of `save_first`. -/
def useCount [Fintype ι] (s : TransferAgent ι) (a : Addr) : ℕ :=
  (Finset.univ.filter fun i => (s.filercv i).fileptr = some a).card +
    (Finset.univ.filter fun i => (s.fw.callers i).file? = some a).card +
    s.fw.quenf.count a + if s.fw.ptr = some a then 1 else 0

/-- `fileptr_.use_count()` in receiver `i`. -/
def fileptrCount [Fintype ι] (s : TransferAgent ι) (i : ι) : ℕ :=
  ((s.filercv i).fileptr.map s.useCount).getD 0

/-- What a step of the call of `NewFile` by `i` leaves in the history. -/
def newFileLog (w : FileWritter ι Addr) (i : ι) : List Obs :=
  match w.callers i with
  | .entered a => [.tested a w.running]
  | .admitted a => [.appended a]
  | .idle | .pushed _ => []

/-- Where the message thread goes on while its call of `NewFile` stands at `c`. -/
def afterCall : CallPc Addr → MsgPc
  | .idle => .setState .complete
  | .entered _ | .admitted _ | .pushed _ => .newFile

/-- The steps of the message thread that call into the writer. -/
def callStep (s : TransferAgent ι) (i : ι) : Option (TransferAgent ι) :=
  let r := s.filercv i
  match r.msg with
  | .handOver =>
    match r.fileptr with
    | none => none
    | some a => (s.fw.call i a).map fun fw => { s with
        fw := fw
        filercv := Function.update s.filercv i
          { r with msg := .newFile, log := r.log ++ [.handed a (s.heap a)] } }
  | .newFile => (s.fw.newFile i).map fun fw => { s with
      fw := fw
      filercv := Function.update s.filercv i
        { r with
          msg := afterCall (fw.callers i)
          log := r.log ++ newFileLog s.fw i } }
  | _ => none

variable {δ : Type} (dbl : DoubleLib δ)

/-- One step of the message thread of receiver `i`. -/
def message [Fintype ι] (s : TransferAgent ι) (i : ι) (junk : ℕ → UInt8) (ok : Bool) :
    Option (TransferAgent ι) :=
  match (s.filercv i).msg with
  | .handOver | .newFile => s.callStep i
  | _ => (FileReceiver.msgStep dbl (s.fileptrCount i) junk ok (s.view i)).map (s.commit i)

/-! ### Steps of the writer -/

/-- One step of `thread_monitor`, with `save_first` spelled out. -/
def monitor (s : TransferAgent ι) (ans : FsAnswers) : Option (TransferAgent ι) :=
  match s.fw.mon with
  | .save =>
    match s.fw.quenf with
    | [] => none
    | a :: _ => (s.fw.threadMonitor true).map fun fw => { s with
        fw := fw
        filepath := directory s.env (s.heap a)
        heap := Function.update s.heap a (saveBegin s.env (s.heap a)) }
  | .saving =>
    match s.fw.ptr with
    | none => none
    | some a =>
      match saveBody s.env ans s.filepath (s.heap a) with
      -- nothing catches what `save_first` throws
      | (.error _, es) => some { s with effects := s.effects ++ es, halted := true }
      | (.ok rslt, es) => (s.fw.threadMonitor rslt).map fun fw =>
          { s with fw := fw, effects := s.effects ++ es }
  | _ => (s.fw.threadMonitor true).map fun fw => { s with fw := fw }

/-- One step of the server. -/
def step [Fintype ι] (s : TransferAgent ι) (e : AgentEvent ι) : Option (TransferAgent ι) :=
  if s.halted then none
  else match e with
    | .recv i d =>
      ((s.filercv i).receive d).map fun r =>
        { s with filercv := Function.update s.filercv i r }
    | .fail i =>
      (s.filercv i).receiveError.map fun r =>
        { s with filercv := Function.update s.filercv i r }
    | .io i => (FileReceiver.ioStep (s.view i)).map (s.commit i)
    | .msg i junk ok => s.message dbl i junk ok
    | .monitor ans => s.monitor ans
    | .spurious => s.fw.spuriousWake.map fun fw => { s with fw := fw }
    | .config env => some { s with env := env }

/-! ### What a step can do -/

/-- The steps of the server, by what they do to the receivers, the writer and
the objects. -/
inductive AgentStep [Fintype ι] (s : TransferAgent ι) : AgentEvent ι → TransferAgent ι → Prop
  | recv {i d r} (hr : (s.filercv i).receive d = some r) :
      AgentStep s (.recv i d) { s with filercv := Function.update s.filercv i r }
  | fail {i r} (hr : (s.filercv i).receiveError = some r) :
      AgentStep s (.fail i) { s with filercv := Function.update s.filercv i r }
  | io {i v} (hv : FileReceiver.IoStep (s.view i) v) : AgentStep s (.io i) (s.commit i v)
  | msg {i junk ok v}
      (hv : FileReceiver.MsgStep dbl (s.fileptrCount i) junk ok (s.view i) v) :
      AgentStep s (.msg i junk ok) (s.commit i v)
  | handOver {i junk ok a} (hpc : (s.filercv i).msg = .handOver)
      (hp : (s.filercv i).fileptr = some a) (hc : s.fw.callers i = .idle) :
      AgentStep s (.msg i junk ok) { s with
        fw := { s.fw with callers := Function.update s.fw.callers i (.entered a) }
        filercv := Function.update s.filercv i
          { s.filercv i with
            msg := .newFile, log := (s.filercv i).log ++ [.handed a (s.heap a)] } }
  | newFile {i junk ok w} (hpc : (s.filercv i).msg = .newFile)
      (hw : s.fw.newFile i = some w) :
      AgentStep s (.msg i junk ok) { s with
        fw := w
        filercv := Function.update s.filercv i
          { s.filercv i with
            msg := afterCall (w.callers i)
            log := (s.filercv i).log ++ newFileLog s.fw i } }
  | takeFirst {ans a q} (hm : s.fw.mon = .save) (hq : s.fw.quenf = a :: q) :
      AgentStep s (.monitor ans) { s with
        fw := { s.fw with ptr := some a, mon := .saving }
        filepath := directory s.env (s.heap a)
        heap := Function.update s.heap a (saveBegin s.env (s.heap a)) }
  | saveThrew {ans a e} (hm : s.fw.mon = .saving) (hp : s.fw.ptr = some a)
      (hb : (saveBody s.env ans s.filepath (s.heap a)).1 = .error e) :
      AgentStep s (.monitor ans) { s with
        effects := s.effects ++ (saveBody s.env ans s.filepath (s.heap a)).2
        halted := true }
  | save {ans a rslt w} (hm : s.fw.mon = .saving) (hp : s.fw.ptr = some a)
      (hb : (saveBody s.env ans s.filepath (s.heap a)).1 = .ok rslt)
      (hw : s.fw.threadMonitor rslt = some w) :
      AgentStep s (.monitor ans) { s with
        fw := w
        effects := s.effects ++ (saveBody s.env ans s.filepath (s.heap a)).2 }
  | monitor {ans w} (hm : s.fw.mon ≠ .save) (hm' : s.fw.mon ≠ .saving)
      (hw : s.fw.threadMonitor true = some w) : AgentStep s (.monitor ans) { s with fw := w }
  | spurious (hm : s.fw.mon = .blocked) :
      AgentStep s .spurious { s with fw := { s.fw with mon := .save } }
  | config {env} : AgentStep s (.config env) { s with env := env }

variable {dbl}

theorem message_cases [Fintype ι] {s s' : TransferAgent ι} {i : ι} {junk : ℕ → UInt8}
    {ok : Bool} (h : s.message dbl i junk ok = some s') :
    AgentStep dbl s (.msg i junk ok) s' := by
  have hlocal : (FileReceiver.msgStep dbl (s.fileptrCount i) junk ok (s.view i)).map
      (s.commit i) = some s' → AgentStep dbl s (.msg i junk ok) s' := by
    intro h'
    obtain ⟨v, hv, rfl⟩ := Option.map_eq_some_iff.mp h'
    exact .msg (FileReceiver.msgStep_cases dbl hv)
  -- the two positions that call into the writer, and all others
  rcases hpc : (s.filercv i).msg
  case handOver =>
    simp only [message, hpc, callStep] at h
    split at h
    · cases h
    · rename_i a hp
      obtain ⟨fw, hc, rfl⟩ := Option.map_eq_some_iff.mp h
      obtain ⟨hidle, rfl⟩ := FileWritter.call_cases hc
      exact .handOver hpc hp hidle
  case newFile =>
    simp only [message, hpc, callStep] at h
    obtain ⟨fw, hc, rfl⟩ := Option.map_eq_some_iff.mp h
    exact .newFile hpc hc
  all_goals
    simp only [message, hpc] at h
    exact hlocal h

theorem monitor_cases [Fintype ι] {s s' : TransferAgent ι} {ans : FsAnswers}
    (h : s.monitor ans = some s') : AgentStep dbl s (.monitor ans) s' := by
  have hplain : s.fw.mon ≠ .save → s.fw.mon ≠ .saving →
      (s.fw.threadMonitor true).map (fun fw => { s with fw := fw }) = some s' →
      AgentStep dbl s (.monitor ans) s' := by
    intro hm hm' h'
    obtain ⟨w, hw, rfl⟩ := Option.map_eq_some_iff.mp h'
    exact .monitor hm hm' hw
  rcases hm : s.fw.mon
  case save =>
    simp only [monitor, hm] at h
    split at h
    · cases h
    · rename_i a q hq
      obtain ⟨w, hw, rfl⟩ := Option.map_eq_some_iff.mp h
      rw [FileWritter.threadMonitor_save hm hq] at hw
      obtain rfl := Option.some.inj hw
      exact .takeFirst hm hq
  case saving =>
    simp only [monitor, hm] at h
    split at h
    · cases h
    · rename_i a hp
      split at h
      · rename_i e es hb
        obtain rfl : (saveBody s.env ans s.filepath (s.heap a)).2 = es := by rw [hb]
        obtain rfl := Option.some.inj h
        exact .saveThrew hm hp (by rw [hb])
      · rename_i rslt es hb
        obtain rfl : (saveBody s.env ans s.filepath (s.heap a)).2 = es := by rw [hb]
        obtain ⟨w, hw, rfl⟩ := Option.map_eq_some_iff.mp h
        exact .save hm hp (by rw [hb]) hw
  all_goals
    simp only [monitor, hm] at h
    exact hplain (by simp [hm]) (by simp [hm]) h

theorem step_cases [Fintype ι] {s s' : TransferAgent ι} {e : AgentEvent ι}
    (h : s.step dbl e = some s') : s.halted = false ∧ AgentStep dbl s e s' := by
  unfold step at h
  split at h
  · cases h
  · rename_i hh
    refine ⟨by simpa using hh, ?_⟩
    cases e with
    | recv i d =>
      obtain ⟨r, hr, rfl⟩ := Option.map_eq_some_iff.mp h
      exact .recv hr
    | fail i =>
      obtain ⟨r, hr, rfl⟩ := Option.map_eq_some_iff.mp h
      exact .fail hr
    | io i =>
      obtain ⟨v, hv, rfl⟩ := Option.map_eq_some_iff.mp h
      exact .io (FileReceiver.ioStep_cases hv)
    | msg i junk ok => exact message_cases h
    | monitor ans => exact monitor_cases h
    | spurious =>
      obtain ⟨w, hw, rfl⟩ := Option.map_eq_some_iff.mp h
      obtain ⟨hm, rfl⟩ := FileWritter.spuriousWake_cases hw
      exact .spurious hm
    | config env =>
      obtain rfl := Option.some.inj h
      exact .config

/-! ### What a step does to one receiver -/

variable (dbl) in
/-- What receiver `i` comes to by a step of its own. -/
inductive RcvStep [Fintype ι] (s : TransferAgent ι) (i : ι) : AgentEvent ι → FileReceiver → Prop
  | recv {d r} (hr : (s.filercv i).receive d = some r) : RcvStep s i (.recv i d) r
  | fail {r} (hr : (s.filercv i).receiveError = some r) : RcvStep s i (.fail i) r
  | io {v} (hv : FileReceiver.IoStep (s.view i) v) : RcvStep s i (.io i) v.rcv
  | msg {junk ok v}
      (hv : FileReceiver.MsgStep dbl (s.fileptrCount i) junk ok (s.view i) v) :
      RcvStep s i (.msg i junk ok) v.rcv
  | handOver {junk ok a} (hpc : (s.filercv i).msg = .handOver)
      (hp : (s.filercv i).fileptr = some a) :
      RcvStep s i (.msg i junk ok) { s.filercv i with
        msg := .newFile, log := (s.filercv i).log ++ [.handed a (s.heap a)] }
  | newFile {junk ok w} (hpc : (s.filercv i).msg = .newFile) (hw : s.fw.newFile i = some w) :
      RcvStep s i (.msg i junk ok) { s.filercv i with
        msg := afterCall (w.callers i)
        log := (s.filercv i).log ++ newFileLog s.fw i }

theorem step_rcv [Fintype ι] {s s' : TransferAgent ι} {e : AgentEvent ι} {i : ι}
    (hs : s.step dbl e = some s') (he : e.receiver? = some i) :
    ∃ r, s'.filercv i = r ∧ RcvStep dbl s i e r := by
  cases (step_cases hs).2 with
  | recv hr =>
    obtain rfl := Option.some.inj he
    exact ⟨_, Function.update_self .., .recv hr⟩
  | fail hr =>
    obtain rfl := Option.some.inj he
    exact ⟨_, Function.update_self .., .fail hr⟩
  | io hv =>
    obtain rfl := Option.some.inj he
    exact ⟨_, Function.update_self .., .io hv⟩
  | msg hv =>
    obtain rfl := Option.some.inj he
    exact ⟨_, Function.update_self .., .msg hv⟩
  | handOver hpc hp =>
    obtain rfl := Option.some.inj he
    exact ⟨_, Function.update_self .., .handOver hpc hp⟩
  | newFile hpc hw =>
    obtain rfl := Option.some.inj he
    exact ⟨_, Function.update_self .., .newFile hpc hw⟩
  | takeFirst | saveThrew | save | monitor | spurious | config => cases he

/-- The steps of the others leave it alone. -/
theorem filercv_of_ne [Fintype ι] {s s' : TransferAgent ι} {e : AgentEvent ι} {i : ι}
    (hs : s.step dbl e = some s') (he : e.receiver? ≠ some i) : s'.filercv i = s.filercv i := by
  have hne : ∀ {j : ι} {r : FileReceiver}, some j ≠ some i →
      Function.update s.filercv j r i = s.filercv i := fun hj =>
    Function.update_of_ne (fun hij => hj (congrArg some hij.symm)) ..
  cases (step_cases hs).2 with
  | recv | fail | io | msg | handOver | newFile => exact hne he
  | takeFirst | saveThrew | save | monitor | spurious | config => rfl

/-- What holds of receiver `i` and is kept by its own steps, as far as they meet
`Ok`, is kept by the server. -/
theorem rcv_invariant_of [Fintype ι] {i : ι} {I : FileReceiver → Prop}
    {Ok : TransferAgent ι → AgentEvent ι → Prop}
    (hstep : ∀ s e r, I (s.filercv i) → Ok s e → RcvStep dbl s i e r → I r)
    {s s' : TransferAgent ι} {es : List (AgentEvent ι)} (hs : I (s.filercv i))
    (hok : Lts.RunAll (step dbl) Ok s es) (hrun : Lts.run (step dbl) s es = some s') :
    I (s'.filercv i) := by
  refine Lts.run_invariant_of (I := fun s : TransferAgent ι => I (s.filercv i))
    (fun s e s₁ h hok hs₁ => ?_) hs hok hrun
  by_cases he : e.receiver? = some i
  · obtain ⟨r, hr, hstep₁⟩ := step_rcv hs₁ he
    rw [hr]
    exact hstep s e r h hok hstep₁
  · rw [filercv_of_ne hs₁ he]
    exact h

/-- What is kept by all its own steps. -/
theorem rcv_invariant [Fintype ι] {i : ι} {I : FileReceiver → Prop}
    (hstep : ∀ (s : TransferAgent ι) e r, I (s.filercv i) → RcvStep dbl s i e r → I r)
    {s s' : TransferAgent ι} {es : List (AgentEvent ι)} (hs : I (s.filercv i))
    (hrun : Lts.run (step dbl) s es = some s') : I (s'.filercv i) := by
  have hall : Lts.RunAll (step dbl) (fun _ _ => True) s es :=
    Lts.runAll_of_forall (fun _ _ => trivial) s es
  exact rcv_invariant_of (fun s e r h _ => hstep s e r h) hs hall hrun

/-! ### The writer in the server -/

/-- What a step of the server does to the writer is nothing, or a step of it. -/
theorem step_fw [Fintype ι] {s s' : TransferAgent ι} {e : AgentEvent ι}
    (h : s.step dbl e = some s') : s'.fw = s.fw ∨ ∃ d, s.fw.step d = some s'.fw := by
  cases (step_cases h).2 with
  | recv | fail | io | msg | saveThrew | config => exact .inl rfl
  | @handOver i _ _ a _ _ hc =>
    refine .inr ⟨.call i a, ?_⟩
    show s.fw.call i a = _
    rw [FileWritter.call, hc]
  | @newFile i _ _ w _ hw => exact .inr ⟨.caller i, hw⟩
  | takeFirst hm hq => exact .inr ⟨.monitor true, FileWritter.threadMonitor_save hm hq⟩
  | @save _ _ rslt w _ _ _ hw => exact .inr ⟨.monitor rslt, hw⟩
  | monitor _ _ hw => exact .inr ⟨.monitor true, hw⟩
  | spurious hm =>
    refine .inr ⟨.spurious, ?_⟩
    show s.fw.spuriousWake = _
    rw [FileWritter.spuriousWake, if_pos hm]

/-- **The writer of the server is the writer on its own**: whatever the
receivers do, what a run of the server does to the writer is a run of
`FileWritter`. -/
theorem run_fw [Fintype ι] {bufs : ι → PackBuf × PackBuf} {heap : Heap} {env : SaveEnv}
    {es : List (AgentEvent ι)} {s : TransferAgent ι}
    (h : Lts.run (step dbl) (init bufs heap env) es = some s) :
    ∃ ds, Lts.run FileWritter.step FileWritter.init ds = some s.fw := by
  refine Lts.run_project (fun s : TransferAgent ι => s.fw) (fun s e s' hs => ?_) h
  rcases step_fw hs with hsame | ⟨d, hd⟩
  · exact ⟨[], by rw [hsame]; rfl⟩
  · exact ⟨[d], Lts.run_cons hd⟩

omit [DecidableEq ι] in
/-- The first step of an attempt takes the head of the queue. -/
theorem monitor_takeFirst {s : TransferAgent ι} (ans : FsAnswers) {a : Addr} {q : List Addr}
    (hm : s.fw.mon = .save) (hq : s.fw.quenf = a :: q) :
    s.monitor ans = some { s with
      fw := { s.fw with ptr := some a, mon := .saving }
      filepath := directory s.env (s.heap a)
      heap := Function.update s.heap a (saveBegin s.env (s.heap a)) } := by
  unfold monitor
  split
  · split
    · rename_i hnil
      simp [hnil] at hq
    · rename_i b q' hcons
      obtain ⟨rfl, rfl⟩ := List.cons.inj (hcons.symm.trans hq)
      rw [FileWritter.threadMonitor_save hm hcons]
      rfl
  · rename_i hm'
    simp [hm] at hm'
  · rename_i hm' _
    exact absurd hm hm'

omit [DecidableEq ι] in
/-- The second step works on it; the queue loses its head if the file is saved. -/
theorem monitor_saving {s : TransferAgent ι} (ans : FsAnswers) {a : Addr} {f : FileInfo}
    {rslt : Bool} (hm : s.fw.mon = .saving) (hp : s.fw.ptr = some a) (hf : s.heap a = f)
    (hb : (saveBody s.env ans s.filepath f).1 = .ok rslt) :
    ∃ s', s.monitor ans = some s' ∧ s'.heap = s.heap ∧
      s'.effects = s.effects ++ (saveBody s.env ans s.filepath f).2 ∧
      s'.fw.quenf = if rslt then s.fw.quenf.tail else s.fw.quenf := by
  have hbody : saveBody s.env ans s.filepath f =
      (.ok rslt, (saveBody s.env ans s.filepath f).2) := Prod.ext hb rfl
  simp only [monitor, hm, hp, hf, FileWritter.threadMonitor]
  rw [hbody]
  cases rslt <;> exact ⟨_, rfl, rfl, rfl, rfl⟩

omit [DecidableEq ι] in
/-- **The two steps of the monitor that make up an attempt are `saveFirst`**: an
attempt that returns works on the same objects, to the same effects, and leaves
the same queue. -/
theorem monitor_saveFirst {s : TransferAgent ι} {ans : FsAnswers} {r : SaveResult} {rslt : Bool}
    (hm : s.fw.mon = .save) (hr : saveFirst s.env ans s.heap s.fw.quenf = some r)
    (hret : r.ret = .ok rslt) :
    ∃ s₁ s₂, s.monitor ans = some s₁ ∧ s₁.monitor ans = some s₂ ∧
      s₂.heap = r.heap ∧ s₂.effects = s.effects ++ r.effects ∧ s₂.fw.quenf = r.quenf := by
  rcases hq : s.fw.quenf with - | ⟨a, q⟩
  · simp [saveFirst, hq] at hr
  · rw [hq] at hr
    obtain rfl := Option.some.inj hr
    have hfirst := monitor_takeFirst ans hm hq
    have hself : Function.update s.heap a (saveBegin s.env (s.heap a)) a =
        saveBegin s.env (s.heap a) := Function.update_self ..
    obtain ⟨s₂, hsecond, hheap, heff, hqueue⟩ := @monitor_saving _ { s with
      fw := { s.fw with ptr := some a, mon := .saving }
      filepath := directory s.env (s.heap a)
      heap := Function.update s.heap a (saveBegin s.env (s.heap a)) } ans a _ rslt rfl rfl
      hself hret
    refine ⟨_, s₂, hfirst, hsecond, hheap, heff, ?_⟩
    · have hpop := popFront_mem_iff s.env ans (directory s.env (s.heap a))
        (saveBegin s.env (s.heap a))
      rw [show (saveBody s.env ans (directory s.env (s.heap a)) (saveBegin s.env (s.heap a))).1 =
        .ok rslt from hret] at hpop
      rw [hqueue]
      cases rslt with
      | true => simp [hpop, hq]
      | false => simp [hpop, hq]

/-! ### A server with one receiver -/

/-- One receiver, zeroed memory, an empty root path, no database and no data
process. -/
def single : TransferAgent Unit :=
  init (fun _ => (zeroBuf, zeroBuf)) (fun _ => twoBytes)
    { fs := .v3, pathRoot := [], dbt := false, tcpcDp := false, obsTime := fun _ => none }

/-- Steps of its threads, with nothing going wrong. -/
def ioSteps (n : ℕ) : List (AgentEvent Unit) := List.replicate n (.io ())

def msgSteps (n : ℕ) : List (AgentEvent Unit) := List.replicate n (.msg () (fun _ => 0) true)

def monitorSteps (n : ℕ) : List (AgentEvent Unit) :=
  List.replicate n (.monitor ⟨.ok true, .ok true, true, intMax.toNat⟩)

/-- A line arrives, is posted, and is answered with `READY`. -/
def lineSchedule (line : Bytes) : List (AgentEvent Unit) :=
  .recv () line :: ioSteps 5 ++ msgSteps 10

/-- The last bytes of a file arrive, and the completion is posted. -/
def dataSchedule (d : Bytes) : List (AgentEvent Unit) := .recv () d :: ioSteps 6

end TransferAgent

end FtServer
