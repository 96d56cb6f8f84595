/-
FtServer/StatusPairs.lean

The statuses that a receiver sends.  They come in pairs, `READY` and then one
`COMPLETE` or `FAILURE`, as long as each message finds the state it was posted
for.  The handlers do not look: a line that was posted in `WAITING` is answered
with another `READY` if the state is `READY` by the time it is handled, and a
completion that was posted twice is answered twice.

`Expected` is the condition on a step, `PairsInv` ties the position of the
message thread to the transfer that is open, and `inPairs_of_expected` is the
result for whole runs.
-/
import FtServer.Client

namespace FtServer

/-! ### Pairs of statuses -/

/-- `COMPLETE` and `FAILURE` close a transfer. -/
def RcvState.closes (st : RcvState) : Prop := st = .complete ∨ st = .failure

/-- The statuses of transfers that end as given. -/
def pairs (ends : List RcvState) : List RcvState := ends.flatMap fun st => [.ready, st]

/-- A sequence of statuses as documented: pairs, the last one perhaps open. -/
def InPairs (sts : List RcvState) : Prop :=
  ∃ ends : List RcvState, (∀ st ∈ ends, st.closes) ∧ sts <+: pairs ends

theorem pairs_concat (ends : List RcvState) (st : RcvState) :
    pairs (ends ++ [st]) = pairs ends ++ [.ready] ++ [st] := by
  simp [pairs]

namespace FileReceiver

/-- `READY` has been sent, and no other status since. -/
def isOpen (r : FileReceiver) : Bool :=
  match r.msg with
  | .write .ready | .toWaiting => false
  | .write _ => true
  | _ => r.state = .ready

/-- The state that the message thread relies on at a position. -/
def relies (st : RcvState) : MsgPc → Prop
  | .useCount _ | .makeShared _ _ | .fill _ => st = .waiting
  | .check | .handOver | .newFile => st = .ready
  | .setState x => (x = .ready ∧ st = .waiting) ∨ (x.closes ∧ st = .ready)
  | .write x => st = x ∧ (x = .ready ∨ x.closes)
  | _ => True

structure PairsInv (r : FileReceiver) : Prop where
  relies : relies r.state r.msg
  sent : ∃ ends : List RcvState, (∀ st ∈ ends, st.closes) ∧
    statuses r.log = pairs ends ++ if r.isOpen then [.ready] else []

theorem PairsInv.init (bufs : PackBuf × PackBuf) : PairsInv (.init bufs.1 bufs.2) where
  relies := trivial
  sent := ⟨[], by simp, rfl⟩

theorem PairsInv.inPairs {r : FileReceiver} (h : PairsInv r) : InPairs (statuses r.log) := by
  obtain ⟨ends, hends, hlog⟩ := h.sent
  refine ⟨ends ++ [.complete], ?_, ?_⟩
  · intro st hst
    rcases List.mem_append.mp hst with hst | hst
    · exact hends st hst
    · obtain rfl := List.mem_singleton.mp hst
      exact .inl rfl
  · rw [hlog, pairs_concat]
    cases r.isOpen with
    | false => simp
    | true => exact List.prefix_append ..

/-! ### Steps -/

/-- A step that sends nothing and leaves the transfer as open as it was. -/
theorem PairsInv.frame {r r' : FileReceiver} (h : PairsInv r)
    (hrelies : FileReceiver.relies r'.state r'.msg) (hopen : r'.isOpen = r.isOpen)
    (hlog : statuses r'.log = statuses r.log) : PairsInv r' where
  relies := hrelies
  sent := by rw [hopen, hlog]; exact h.sent

/-- The I/O thread sends nothing. -/
theorem PairsInv.io {v v' : RcvView} (h : PairsInv v.rcv) (hs : IoStep v v') :
    PairsInv v'.rcv := by
  cases hs with
  | handleRead | isReady | notReady | read | isWaiting | ignored | rearm =>
    exact h.frame h.relies rfl rfl
  | overflow | arrive | post => exact h.frame h.relies rfl (by simp [statuses])

variable {δ : Type} {dbl : DoubleLib δ}

/-- The message that is handled finds the state it was posted for: a line of a
file is answered in `WAITING`, and a completion is taken in `READY`. -/
def ExpectedStep (dbl : DoubleLib δ) (r : FileReceiver) : Prop :=
  match r.msg with
  | .resolve =>
    match FtServer.resolve dbl (cstr r.bufrcv.bytes) with
    | .ok (some base) => base.base.type = lit "fileinfo" → r.state = .waiting
    | _ => True
  | .idle => r.mq.head? = some .receiveComplete → r.state = .ready
  | _ => True

instance (r : FileReceiver) : Decidable (ExpectedStep dbl r) :=
  match hmsg : r.msg with
  | .resolve =>
    match htext : FtServer.resolve dbl (cstr r.bufrcv.bytes) with
    | .ok (some base) =>
      decidable_of_iff (base.base.type = lit "fileinfo" → r.state = .waiting)
        (by simp only [ExpectedStep, hmsg, htext])
    | .ok none | .error _ => isTrue (by simp only [ExpectedStep, hmsg, htext])
  | .idle =>
    decidable_of_iff (r.mq.head? = some .receiveComplete → r.state = .ready)
      (by simp only [ExpectedStep, hmsg])
  | .lookup | .read _ | .terminate _ | .useCount _ | .makeShared _ _ | .fill _ | .close | .reset
  | .check | .handOver | .newFile | .toWaiting | .setState _ | .write _ =>
    isTrue (by simp only [ExpectedStep, hmsg])

theorem PairsInv.msg {n : ℕ} {junk : ℕ → UInt8} {ok : Bool} {v v' : RcvView}
    (h : PairsInv v.rcv) (hok : ExpectedStep dbl v.rcv) (hs : MsgStep dbl n junk ok v v') :
    PairsInv v'.rcv := by
  have hrelies := h.relies
  cases hs with
  | badText | badSize | writeError => exact h
  | popReceive hpc | popClose hpc | lookup hpc | read hpc | nullText hpc | otherText hpc
  | close hpc | reset hpc => exact h.frame trivial (by simp [isOpen, hpc]) rfl
  | @terminate pos hpc =>
    refine h.frame trivial (by simp [isOpen, hpc]) ?_
    dsimp only
    split
    · simp [statuses]
    · rfl
  | popComplete hpc hq =>
    have hstate : v.rcv.state = .ready := by
      simp only [ExpectedStep, hpc] at hok
      exact hok (by rw [hq]; rfl)
    exact h.frame hstate (by simp [isOpen, hpc]) rfl
  | fileinfo hpc hr ht =>
    have hstate : v.rcv.state = .waiting := by
      simp only [ExpectedStep, hpc, hr] at hok
      exact hok ht
    exact h.frame hstate (by simp [isOpen, hpc]) rfl
  | useCount hpc | keep hpc =>
    rw [hpc] at hrelies
    exact h.frame hrelies (by simp [isOpen, hpc]) rfl
  | replace hpc =>
    rw [hpc] at hrelies
    exact h.frame hrelies (by simp [isOpen, hpc]) (by simp [statuses])
  | fill hpc =>
    rw [hpc] at hrelies
    exact h.frame (.inl ⟨rfl, hrelies⟩) (by simp [isOpen, hpc]) (by simp [statuses])
  | equal hpc =>
    rw [hpc] at hrelies
    exact h.frame hrelies (by simp [isOpen, hpc]) (by simp [statuses])
  | unequal hpc =>
    rw [hpc] at hrelies
    exact h.frame (.inr ⟨.inr rfl, hrelies⟩) (by simp [isOpen, hpc]) rfl
  | @setState st hpc =>
    rw [hpc] at hrelies
    rcases hrelies with ⟨rfl, hstate⟩ | ⟨hcloses, hstate⟩
    · exact h.frame ⟨rfl, .inl rfl⟩ (by simp [isOpen, hpc, hstate]) rfl
    · refine h.frame ⟨rfl, .inr hcloses⟩ ?_ rfl
      rcases hcloses with rfl | rfl <;> simp [isOpen, hpc, hstate]
  | @sent st hpc =>
    rw [hpc] at hrelies
    obtain ⟨hstate, hst⟩ := hrelies
    obtain ⟨ends, hends, hlog⟩ := h.sent
    have hlog' : statuses (v.rcv.log ++ [.sent st]) = statuses v.rcv.log ++ [st] := by
      simp [statuses]
    rcases hst with rfl | hcloses
    · -- `READY` opens a transfer
      refine ⟨trivial, ends, hends, ?_⟩
      rw [hlog', hlog]
      simp [isOpen, hpc, hstate]
    · -- the status closes the transfer that is open
      have hne : st ≠ .ready := by rcases hcloses with rfl | rfl <;> simp
      have hopen : v.rcv.isOpen = true := by
        rcases hcloses with rfl | rfl <;> simp [isOpen, hpc]
      refine ⟨by simp [hne, FileReceiver.relies], ends ++ [st], ?_, ?_⟩
      · intro x hx
        rcases List.mem_append.mp hx with hx | hx
        · exact hends x hx
        · obtain rfl := List.mem_singleton.mp hx
          exact hcloses
      · rw [hlog', hlog, hopen, pairs_concat]
        simp [isOpen, hne]
  | toWaiting hpc => exact h.frame trivial (by simp [isOpen, hpc]) rfl

end FileReceiver

namespace TransferAgent

variable {ι : Type} [DecidableEq ι] [Fintype ι] {δ : Type} (dbl : DoubleLib δ)

/-- The condition on the steps of the server: receiver `i` handles no message in
a state it was not posted for. -/
def Expected (i : ι) (s : TransferAgent ι) : AgentEvent ι → Prop
  | .msg j _ _ => j = i → (s.filercv i).ExpectedStep dbl
  | _ => True

instance (i : ι) (s : TransferAgent ι) (e : AgentEvent ι) : Decidable (Expected dbl i s e) :=
  match e with
  | .msg j _ _ => inferInstanceAs (Decidable (j = i → (s.filercv i).ExpectedStep dbl))
  | .recv _ _ | .fail _ | .io _ | .monitor _ | .spurious | .config _ => isTrue trivial

variable {dbl}

theorem pairs_step {s : TransferAgent ι} {i : ι} {e : AgentEvent ι} {r : FileReceiver}
    (h : (s.filercv i).PairsInv) (hok : Expected dbl i s e) (hs : RcvStep dbl s i e r) :
    r.PairsInv := by
  cases hs with
  | recv hr =>
    obtain ⟨-, -, -, rfl⟩ := FileReceiver.receive_cases hr
    exact h.frame h.relies rfl (by simp [statuses])
  | fail hr =>
    obtain ⟨-, rfl⟩ := FileReceiver.receiveError_cases hr
    exact h.frame h.relies rfl rfl
  | io hv => exact h.io hv
  | msg hv => exact h.msg (hok rfl) hv
  | handOver hpc =>
    have hrelies := h.relies
    rw [hpc] at hrelies
    exact h.frame hrelies (by simp [FileReceiver.isOpen, hpc]) (by simp [statuses])
  | @newFile _ _ w hpc hw =>
    have hrelies := h.relies
    rw [hpc] at hrelies
    refine h.frame ?_ ?_ ?_
    · cases w.callers i with
      | idle => exact .inr ⟨.inl rfl, hrelies⟩
      | entered | admitted | pushed => exact hrelies
    · cases w.callers i <;> simp [FileReceiver.isOpen, hpc, afterCall]
    · cases hc : s.fw.callers i <;> simp [statuses, newFileLog, hc]

/-- **Statuses in pairs**: in a run in which receiver `i` handles no message in a
state it was not posted for, the statuses it has sent are at any time a prefix of
pairs of `READY` and one of `COMPLETE` and `FAILURE`. -/
theorem inPairs_of_expected {bufs : ι → PackBuf × PackBuf} {heap : Heap} {env : SaveEnv}
    {es : List (AgentEvent ι)} {s : TransferAgent ι} {i : ι}
    (hok : Lts.RunAll (step dbl) (Expected dbl i) (init bufs heap env) es)
    (hrun : Lts.run (step dbl) (init bufs heap env) es = some s) :
    InPairs (statuses (s.filercv i).log) := by
  have h : (s.filercv i).PairsInv :=
    rcv_invariant_of (fun _ _ _ => pairs_step) (FileReceiver.PairsInv.init (bufs i)) hok hrun
  exact h.inPairs

/-- A transfer, and the line of another one. -/
def pairsSchedule : List (AgentEvent Unit) :=
  lineSchedule (lit "fileinfo filename=a,filesize=2\n") ++ dataSchedule [7, 8] ++
    msgSteps 7 ++ lineSchedule (lit "fileinfo filename=b,filesize=1\n")

theorem inPairs_of_expected_two : ∃ s : TransferAgent Unit,
    Lts.run (step unitLib) single pairsSchedule = some s ∧
      statuses (s.filercv ()).log = [.ready, .complete, .ready] ∧
        InPairs (statuses (s.filercv ()).log) := by
  have hok : Lts.RunAll (step unitLib) (Expected unitLib ()) single pairsSchedule := by
    decide +kernel
  have heval : (Lts.run (step unitLib) single pairsSchedule).map
      (fun s => statuses (s.filercv ()).log) = some [.ready, .complete, .ready] := by
    decide +kernel
  obtain ⟨s, hrun, hs⟩ := Option.map_eq_some_iff.mp heval
  exact ⟨s, hrun, hs, inPairs_of_expected hok hrun⟩

/-- The line of a file arrives in two reads, both before the first is handled. -/
def lineTwice : List (AgentEvent Unit) :=
  .recv () (lit "fileinfo filename=a,filesize=2\n") :: ioSteps 5 ++
    .recv () (lit "fileinfo filename=a,filesize=2\n") :: ioSteps 5 ++ msgSteps 20

/-- It is answered with two `READY`. -/
theorem not_inPairs : ¬ ∀ (es : List (AgentEvent Unit)) (s : TransferAgent Unit),
    Lts.run (step unitLib) single es = some s → InPairs (statuses (s.filercv ()).log) := by
  intro hall
  have heval : (Lts.run (step unitLib) single lineTwice).map
      (fun s => statuses (s.filercv ()).log) = some [.ready, .ready] := by
    decide +kernel
  obtain ⟨s, hrun, hs⟩ := Option.map_eq_some_iff.mp heval
  obtain ⟨ends, hends, hpre⟩ := hall lineTwice s hrun
  rw [hs] at hpre
  cases ends with
  | nil => simp [pairs] at hpre
  | cons st ends =>
    -- the second status would have to close the first
    have hst : RcvState.ready = st := by simpa [pairs] using hpre
    rcases hends st List.mem_cons_self with h | h <;> simp [← hst] at h

end TransferAgent

end FtServer
