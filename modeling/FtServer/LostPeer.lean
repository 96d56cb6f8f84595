/-
FtServer/LostPeer.lean

A client that has gone away.  The server notices it in two places: the read that
is under way ends with an error, for which the I/O thread posts the close
message, and a status that is sent meets an error, which `write_some` throws.
Nothing between the handlers and the message loop catches it.

`notifications_iff` says when a notification returns to the loop, in every state
that the server reaches: the socket is open and takes the line.  Then the queue
is as it was, the loop goes on with the next message, and after a completion or a
failure `state_` is `WAITING`.
-/
import FtServer.Handover
import FtServer.PointerSafety

namespace FtServer

namespace TransferAgent

variable {ι : Type}

/-! ### The property and the condition -/

/-- The file that was complete has been appended to the queue of the writer. -/
def Enqueued (accepted : List Addr) (l : List Obs) : Prop :=
  ∃ a f g, f.filesize = f.rcvsize ∧
    [.checked a f, .handed a g, .tested a true, .appended a] <:+ l ∧ a ∈ accepted

/-- What `NewFile` has found in `running_`. -/
def runningTested (log : List Obs) : List Bool :=
  log.filterMap fun
    | .tested _ running => some running
    | _ => none

/-- What is left of the handler that sends `st`: the write, and for a file that has
come to its end the assignment of `WAITING`. -/
def notifySteps (i : ι) (junk : ℕ → UInt8) (ok : Bool) : RcvState → List (AgentEvent ι)
  | .ready => [.msg i junk ok]
  | .waiting | .complete | .failure => [.msg i junk ok, .msg i junk ok]

variable [DecidableEq ι] [Fintype ι] {δ : Type} (dbl : DoubleLib δ)

/-- The handler that sends `st` in `s` has come back to the message loop in `s'`. -/
structure Returned (s s' : TransferAgent ι) (i : ι) (st : RcvState) : Prop where
  alive : s'.halted = false
  idle : (s'.filercv i).msg = .idle
  mq : (s'.filercv i).mq = (s.filercv i).mq
  /-- the next message is received and handled -/
  next : ∀ m q junk ok, (s'.filercv i).mq = m :: q → ∃ s'',
    s'.step dbl (.msg i junk ok) = some s'' ∧ s''.halted = false ∧
      (s''.filercv i).mq = q ∧ (s''.filercv i).msg = FileReceiver.handler m
  waiting : st ≠ .ready → (s'.filercv i).state = .waiting
  enqueued : st = .complete → Enqueued s'.fw.accepted (handover (s.filercv i).log)

/-- A notification that is about to write returns, with this outcome of the
write. -/
def Notifies (s : TransferAgent ι) : AgentEvent ι → Prop
  | .msg i junk ok => s.halted = false → ∀ st, (s.filercv i).msg = .write st →
    ∃ s', Lts.run (step dbl) s (notifySteps i junk ok st) = some s' ∧ Returned dbl s s' i st
  | .recv .. | .fail _ | .io _ | .monitor _ | .spurious | .config _ => True

/-- The socket takes what is written, and a file that is acknowledged has met a
running writer. -/
def Taken (r : FileReceiver) (ok : Bool) : MsgPc → Prop
  | .write st => (ok = true ∧ r.tcp.isOpen = true) ∧
    (st = .complete → (runningTested r.log).getLast? = some true)
  | _ => True

omit [DecidableEq ι] [Fintype ι] in
/-- The step condition: the line of a notification is taken. -/
def WriteTaken (s : TransferAgent ι) : AgentEvent ι → Prop
  | .msg i _ ok => s.halted = false → Taken (s.filercv i) ok (s.filercv i).msg
  | .recv .. | .fail _ | .io _ | .monitor _ | .spurious | .config _ => True

instance Taken.decidable (r : FileReceiver) (ok : Bool) (pc : MsgPc) : Decidable (Taken r ok pc) :=
  match pc with
  | .write st => inferInstanceAs (Decidable ((ok = true ∧ r.tcp.isOpen = true) ∧
      (st = .complete → (runningTested r.log).getLast? = some true)))
  | .idle | .lookup | .read _ | .terminate _ | .resolve | .useCount _ | .makeShared .. | .fill _
  | .close | .reset | .check | .handOver | .newFile | .toWaiting | .setState _ => isTrue trivial

omit [DecidableEq ι] [Fintype ι] in
instance WriteTaken.decidable (s : TransferAgent ι) (e : AgentEvent ι) :
    Decidable (WriteTaken s e) :=
  match e with
  | .msg i _ ok =>
    inferInstanceAs (Decidable (s.halted = false → Taken (s.filercv i) ok (s.filercv i).msg))
  | .recv .. | .fail _ | .io _ | .monitor _ | .spurious | .config _ => isTrue trivial

variable {dbl} {s : TransferAgent ι} {i : ι}

/-! ### The steps of a notification -/

omit [Fintype ι] in
@[simp] theorem view_commit (v : RcvView) : (s.commit i v).view i = v := by
  rw [view, commit_self]
  rfl

omit [Fintype ι] in
@[simp] theorem commit_commit (v v' : RcvView) : (s.commit i v).commit i v' = s.commit i v' := by
  simp [commit]

/-- A step of the message thread outside its calls into the writer. -/
theorem step_msg {junk : ℕ → UInt8} {ok : Bool} (hlive : s.halted = false)
    (hpc : (s.filercv i).msg ≠ .handOver) (hpc' : (s.filercv i).msg ≠ .newFile) :
    s.step dbl (.msg i junk ok) =
      (FileReceiver.msgStep dbl (s.fileptrCount i) junk ok (s.view i)).map (s.commit i) := by
  have hstep : s.step dbl (.msg i junk ok) = s.message dbl i junk ok := by
    rw [step, hlive]
    rfl
  rw [hstep, message]
  split
  · exact absurd ‹_› hpc
  · exact absurd ‹_› hpc'
  · rfl

theorem step_write {junk : ℕ → UInt8} {ok : Bool} {st : RcvState} (hlive : s.halted = false)
    (hpc : (s.filercv i).msg = .write st) (ht : (s.filercv i).tcpptr = true) :
    s.step dbl (.msg i junk ok) = some (s.commit i
      (if ok = true ∧ (s.filercv i).tcp.isOpen = true then
        { s.view i with rcv := { s.filercv i with
          msg := if st = .ready then .idle else .toWaiting
          log := (s.filercv i).log ++ [.sent st] } }
      else { s.view i with halted := true })) := by
  rw [step_msg hlive (by simp [hpc]) (by simp [hpc]), FileReceiver.msgStep, view_rcv, hpc]
  dsimp only
  rw [if_pos ht]
  split <;> rfl

theorem step_toWaiting {junk : ℕ → UInt8} {ok : Bool} (hlive : s.halted = false)
    (hpc : (s.filercv i).msg = .toWaiting) :
    s.step dbl (.msg i junk ok) = some (s.commit i
      { s.view i with rcv := { s.filercv i with state := .waiting, msg := .idle } }) := by
  rw [step_msg hlive (by simp [hpc]) (by simp [hpc]), FileReceiver.msgStep, view_rcv, hpc]
  rfl

/-- The loop takes the first message to its handler. -/
theorem step_idle {junk : ℕ → UInt8} {ok : Bool} {m : Msg} {q : List Msg}
    (hlive : s.halted = false) (hpc : (s.filercv i).msg = .idle)
    (hq : (s.filercv i).mq = m :: q) :
    s.step dbl (.msg i junk ok) = some (s.commit i
      { s.view i with rcv := { s.filercv i with mq := q, msg := FileReceiver.handler m } }) := by
  rw [step_msg hlive (by simp [hpc]) (by simp [hpc]), FileReceiver.msgStep, view_rcv, hpc]
  dsimp only
  rw [hq]
  cases m <;> rfl

/-- What a notification that has gone through leaves of the receiver. -/
def notified (r : FileReceiver) (st : RcvState) : FileReceiver :=
  { r with
    state := if st = .ready then r.state else .waiting
    msg := .idle
    log := r.log ++ [.sent st] }

theorem run_notifySteps {junk : ℕ → UInt8} {ok : Bool} {st : RcvState} (hlive : s.halted = false)
    (hpc : (s.filercv i).msg = .write st) (ht : (s.filercv i).tcpptr = true)
    (hok : ok = true ∧ (s.filercv i).tcp.isOpen = true) :
    Lts.run (step dbl) s (notifySteps i junk ok st) =
      some (s.commit i { s.view i with rcv := notified (s.filercv i) st }) := by
  have hwrite := @step_write ι _ _ δ dbl s i junk ok st hlive hpc ht
  rw [if_pos hok] at hwrite
  cases st with
  | ready =>
    rw [notifySteps, Lts.run_cons hwrite, Lts.run_nil]
    rfl
  | waiting | complete | failure =>
    rw [notifySteps, Lts.run_cons hwrite, Lts.run_cons (step_toWaiting (s := s.commit i _) ?_ ?_),
      Lts.run_nil, commit_commit, view_commit, commit_self]
    · rfl
    · exact hlive
    · rw [commit_self]
      rfl

/-- After an error of the write nothing goes on. -/
theorem not_alive_of_error {junk : ℕ → UInt8} {ok : Bool} {st : RcvState} {s' : TransferAgent ι}
    (hlive : s.halted = false) (hpc : (s.filercv i).msg = .write st)
    (ht : (s.filercv i).tcpptr = true) (hok : ¬ (ok = true ∧ (s.filercv i).tcp.isOpen = true))
    (hrun : Lts.run (step dbl) s (notifySteps i junk ok st) = some s') : s'.halted = true := by
  have hwrite := @step_write ι _ _ δ dbl s i junk ok st hlive hpc ht
  rw [if_neg hok] at hwrite
  cases st with
  | ready =>
    rw [notifySteps, Lts.run_cons hwrite, Lts.run_nil] at hrun
    rw [← Option.some.inj hrun]
    rfl
  | waiting | complete | failure =>
    rw [notifySteps, Lts.run_cons hwrite] at hrun
    obtain ⟨s₁, h₁, -⟩ := Lts.run_cons_inv hrun
    exact absurd (step_cases h₁).1 (by simp [commit])

/-! ### The file that is acknowledged -/

theorem runningTested_handover (log : List Obs) :
    runningTested (handover log) = runningTested log := by
  rw [runningTested, runningTested, handover, List.filterMap_filter]
  congr 1
  funext o
  cases o <;> rfl

/-- What a handover has left behind says what it has met. -/
theorem runningTested_of_suffix {xs l : List Obs} (h : xs <:+ l) {running : Bool}
    (hxs : (runningTested xs).getLast? = some running) :
    (runningTested l).getLast? = some running := by
  obtain ⟨pre, rfl⟩ := h
  rw [runningTested, List.filterMap_append, List.getLast?_append]
  rw [runningTested] at hxs
  rw [hxs]
  rfl

/-- A file that has been handed over is in the queue if the writer was running. -/
theorem enqueued_iff {accepted : List Addr} {log : List Obs} (h : Handed accepted (handover log)) :
    Enqueued accepted (handover log) ↔ (runningTested log).getLast? = some true := by
  rw [← runningTested_handover]
  obtain ⟨a, f, g, he, ⟨hs, ha⟩ | hs⟩ := h
  · have htested : (runningTested (handover log)).getLast? = some true :=
      runningTested_of_suffix hs rfl
    exact ⟨fun _ => htested, fun _ => ⟨a, f, g, he, hs, ha⟩⟩
  · have htested : (runningTested (handover log)).getLast? = some false :=
      runningTested_of_suffix hs rfl
    constructor
    · rintro ⟨_, _, _, -, hs', -⟩
      exact runningTested_of_suffix hs' rfl
    · intro h
      rw [htested] at h
      cases h

/-! ### When a notification returns -/

/-- What the server keeps that a notification relies on. -/
structure NotifyInv (s : TransferAgent ι) : Prop where
  handovers : HandoversInv s
  pointers : ∀ i, (s.filercv i).Pointers

omit [DecidableEq ι] [Fintype ι] in
theorem NotifyInv.init (bufs : ι → PackBuf × PackBuf) (heap : Heap) (env : SaveEnv) :
    NotifyInv (init bufs heap env) where
  handovers := ⟨.init bufs heap env, fun i => .init (bufs i)⟩
  pointers := fun i => .init (bufs i)

theorem NotifyInv.step {s' : TransferAgent ι} {e : AgentEvent ι} (h : NotifyInv s)
    (hs : s.step dbl e = some s') : NotifyInv s' where
  handovers := h.handovers.step hs
  pointers := fun i => by
    have hrun : Lts.run (TransferAgent.step dbl) s [e] = some s' := Lts.run_cons hs
    exact rcv_invariant (fun _ _ _ => pointers_step) (h.pointers i) hrun

/-- **A notification returns exactly if its line is taken.** -/
theorem NotifyInv.notifies_iff (h : NotifyInv s) (e : AgentEvent ι) :
    Notifies dbl s e ↔ WriteTaken s e := by
  cases e with
  | recv | fail | io | monitor | spurious | config => exact Iff.rfl
  | msg i junk ok =>
    apply imp_congr_right
    intro hlive
    have hhanded : (s.filercv i).msg = .write .complete →
        Handed s.fw.accepted (handover (s.filercv i).log) := by
      intro hpc
      have hpresent := (h.handovers.receivers i).present
      rw [hpc] at hpresent
      exact hpresent
    have hptr {st : RcvState} (hpc : (s.filercv i).msg = .write st) :
        (s.filercv i).tcpptr = true :=
      (h.pointers i).safe.tcpptr (.inr (by rw [hpc]; rfl))
    constructor
    · intro hret
      cases hpc : (s.filercv i).msg with
      | write st =>
        obtain ⟨s', hrun, hret⟩ := hret st hpc
        have hok : ok = true ∧ (s.filercv i).tcp.isOpen = true := by
          by_contra hn
          have hhalted := not_alive_of_error hlive hpc (hptr hpc) hn hrun
          rw [hret.alive] at hhalted
          cases hhalted
        refine ⟨hok, fun hst => ?_⟩
        subst hst
        rw [run_notifySteps hlive hpc (hptr hpc) hok] at hrun
        have henq := hret.enqueued rfl
        rw [← Option.some.inj hrun] at henq
        exact (enqueued_iff (hhanded hpc)).mp henq
      | _ => trivial
    · intro htaken st hpc
      rw [hpc] at htaken
      obtain ⟨hok, hrunning⟩ := htaken
      refine ⟨_, run_notifySteps hlive hpc (hptr hpc) hok, ?_⟩
      have hlive' : (s.commit i { s.view i with rcv := notified (s.filercv i) st }).halted =
        false := hlive
      refine ⟨hlive', ?_, ?_, fun m q junk' ok' hq => ?_, fun hst => ?_, fun hst => ?_⟩
      · rw [commit_self]
        rfl
      · rw [commit_self]
        rfl
      · refine ⟨_, step_idle hlive' (by rw [commit_self]; rfl) hq, hlive, ?_, ?_⟩
        · rw [commit_self]
        · rw [commit_self]
      · rw [commit_self]
        exact if_neg hst
      · subst hst
        exact (enqueued_iff (hhanded hpc)).mpr (hrunning rfl)

/-- **A notification returns to the message loop exactly if its line is taken**: in
every state that the server reaches, whatever the outcome of the write, and so all
along every run. -/
theorem notifications_iff {bufs : ι → PackBuf × PackBuf} {heap : Heap} {env : SaveEnv}
    {es : List (AgentEvent ι)} (hrun : Lts.run (step dbl) (init bufs heap env) es = some s) :
    (∀ e, Notifies dbl s e ↔ WriteTaken s e) ∧
      (Lts.RunAll (step dbl) (Notifies dbl) (init bufs heap env) es ↔
        Lts.RunAll (step dbl) WriteTaken (init bufs heap env) es) := by
  have hinit := NotifyInv.init bufs heap env
  have hstep : ∀ (s : TransferAgent ι) e s', NotifyInv s → s.step dbl e = some s' →
      NotifyInv s' := fun _ _ _ => NotifyInv.step
  refine ⟨(Lts.run_invariant hstep hinit hrun).notifies_iff, ?_⟩
  exact Lts.runAll_congr hstep (fun _ e h => h.notifies_iff e) hinit

/-- A file whose `READY` and `COMPLETE` are taken. -/
theorem notifications_taken : ∃ s : TransferAgent Unit,
    Lts.run (step unitLib) single (monitorSteps 1 ++
      lineSchedule (lit "fileinfo filename=a,filesize=2\n") ++ dataSchedule [7, 8] ++
        msgSteps 9) = some s ∧
      Lts.RunAll (step unitLib) (Notifies unitLib) single (monitorSteps 1 ++
        lineSchedule (lit "fileinfo filename=a,filesize=2\n") ++ dataSchedule [7, 8] ++
          msgSteps 9) := by
  have heval : (Lts.run (step unitLib) single (monitorSteps 1 ++
      lineSchedule (lit "fileinfo filename=a,filesize=2\n") ++ dataSchedule [7, 8] ++
        msgSteps 9)).isSome = true := by
    decide +kernel
  obtain ⟨s, hrun⟩ := Option.isSome_iff_exists.mp heval
  exact ⟨s, hrun, (notifications_iff hrun).2.mpr (by decide +kernel)⟩

/-- The client goes away before `READY` is written. -/
theorem not_notifies_lost : ∃ s : TransferAgent Unit,
    Lts.run (step unitLib) single (.recv () (lit "fileinfo filename=a,filesize=2\n") ::
      ioSteps 5 ++ msgSteps 9) = some s ∧ (s.filercv ()).msg = .write .ready ∧
      ¬ Notifies unitLib s (.msg () (fun _ => 0) false) := by
  have heval : (Lts.run (step unitLib) single (.recv () (lit "fileinfo filename=a,filesize=2\n") ::
      ioSteps 5 ++ msgSteps 9)).map (fun s => ((s.filercv ()).msg, s.halted)) =
        some (.write .ready, false) := by
    decide +kernel
  obtain ⟨s, hrun, hs⟩ := Option.map_eq_some_iff.mp heval
  obtain ⟨hpc, hlive⟩ := Prod.mk.inj hs
  refine ⟨s, hrun, hpc, fun h => ?_⟩
  obtain ⟨s', hrun', hret⟩ := h hlive _ hpc
  have hptr : (s.filercv ()).Pointers :=
    rcv_invariant (fun _ _ _ => pointers_step) (.init (zeroBuf, zeroBuf)) hrun
  have hhalted := not_alive_of_error hlive hpc (hptr.safe.tcpptr (.inr (by rw [hpc]; rfl)))
    (by simp) hrun'
  rw [hret.alive] at hhalted
  cases hhalted

end TransferAgent

end FtServer
