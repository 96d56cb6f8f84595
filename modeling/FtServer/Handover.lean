/-
FtServer/Handover.lean

What the status `COMPLETE` tells the client.  The message thread compares the
two counters of the file, calls `NewFile`, and sends `COMPLETE`.  `NewFile`
appends the file only while the writer runs, and reports nothing back: before
the monitor thread has started and after it has given up, the file is rejected
and the client is told all the same that it has been received.

`complete_handed` says exactly what stands behind a `COMPLETE`: the entries of
the handover that end before it in the history of the receiver are the check,
the call of `NewFile` for the file checked, the value of `running_` that the
call met, and, if it was true, the append.
-/
import FtServer.Ownership

namespace FtServer

/-! ### The handover in the history -/

/-- The entries that the handover of a file leaves. -/
def Obs.ofHandover : Obs → Bool
  | .checked .. | .handed .. | .tested .. | .appended _ | .sent _ => true
  | .arrived _ | .posted _ | .outOfBounds | .taken _ | .stored .. => false

namespace TransferAgent

variable {ι : Type}

/-- The handover entries of a history. -/
def handover (log : List Obs) : List Obs := log.filter Obs.ofHandover

/-- The entries `l` end with the handover of a file that was complete when it was
checked, to a writer that was running and appended it, or was not running and
rejected it. -/
def Handed (accepted : List Addr) (l : List Obs) : Prop :=
  ∃ a f g, f.filesize = f.rcvsize ∧
    (([.checked a f, .handed a g, .tested a true, .appended a] <:+ l ∧ a ∈ accepted) ∨
      [.checked a f, .handed a g, .tested a false] <:+ l)

/-- How far the handover has come, at a position of the message thread and of
its call of `NewFile`, for the pointer `ptr` and the entries `l`. -/
def Pending (ptr : Option Addr) (l : List Obs) (accepted : List Addr) :
    MsgPc → CallPc Addr → Prop
  | .handOver, _ => ∃ a f, ptr = some a ∧ f.filesize = f.rcvsize ∧ [.checked a f] <:+ l
  | .newFile, .idle => False
  | .newFile, .entered a => ∃ f g, f.filesize = f.rcvsize ∧ [.checked a f, .handed a g] <:+ l
  | .newFile, .admitted a => ∃ f g, f.filesize = f.rcvsize ∧
      [.checked a f, .handed a g, .tested a true] <:+ l
  | .newFile, .pushed a => a ∈ accepted ∧ ∃ f g, f.filesize = f.rcvsize ∧
      [.checked a f, .handed a g, .tested a true, .appended a] <:+ l
  | .setState .complete, _ | .write .complete, _ => Handed accepted l
  | _, _ => True

/-- Every `COMPLETE` in the history has its handover before it, and the handover
under way is recorded up to the position of the thread. -/
structure HandoverInv (r : FileReceiver) (c : CallPc Addr) (accepted : List Addr) : Prop where
  past : ∀ pre post, r.log = pre ++ .sent .complete :: post → Handed accepted (handover pre)
  present : Pending r.fileptr (handover r.log) accepted r.msg c

theorem HandoverInv.init (bufs : PackBuf × PackBuf) :
    HandoverInv (.init bufs.1 bufs.2) .idle [] where
  past := by simp [FileReceiver.init]
  present := trivial

/-- A split of `l ++ os` at an element that is not in `os` is one of `l`. -/
theorem split_of_append {α : Type} {l os pre post : List α} {x : α}
    (h : l ++ os = pre ++ x :: post) (hx : x ∉ os) : ∃ post', l = pre ++ x :: post' := by
  rcases List.append_eq_append_iff.mp h with ⟨as, -, hos⟩ | ⟨bs, hl, hb⟩
  · exact absurd (by rw [hos]; simp) hx
  · cases bs with
    | nil => exact absurd (by rw [← List.nil_append os, ← hb]; simp) hx
    | cons b bs =>
      obtain ⟨rfl, -⟩ := List.cons.inj hb
      exact ⟨bs, hl⟩

theorem Handed.mono {acc acc' : List Addr} {l : List Obs} (h : Handed acc l)
    (hacc : ∀ a ∈ acc, a ∈ acc') : Handed acc' l := by
  obtain ⟨a, f, g, he, ⟨hs, ha⟩ | hs⟩ := h
  · exact ⟨a, f, g, he, .inl ⟨hs, hacc a ha⟩⟩
  · exact ⟨a, f, g, he, .inr hs⟩

theorem Pending.mono {ptr : Option Addr} {l : List Obs} {acc acc' : List Addr} {m : MsgPc}
    {c : CallPc Addr} (h : Pending ptr l acc m c) (hacc : ∀ a ∈ acc, a ∈ acc') :
    Pending ptr l acc' m c := by
  cases m with
  | newFile =>
    cases c with
    | pushed a => exact ⟨hacc a h.1, h.2⟩
    | idle | entered | admitted => exact h
  | setState st =>
    cases st with
    | complete => exact Handed.mono h hacc
    | waiting | ready | failure => trivial
  | write st =>
    cases st with
    | complete => exact Handed.mono h hacc
    | waiting | ready | failure => trivial
  | handOver => exact h
  | _ => trivial

/-- The writer only ever adds to what it has accepted. -/
theorem HandoverInv.mono {r : FileReceiver} {c : CallPc Addr} {acc acc' : List Addr}
    (h : HandoverInv r c acc) (hacc : ∀ a ∈ acc, a ∈ acc') : HandoverInv r c acc' where
  past := fun pre post hl => (h.past pre post hl).mono hacc
  present := h.present.mono hacc

/-- A step that adds no `COMPLETE` to the history has to see to the handover
under way only. -/
theorem HandoverInv.of_append {r r' : FileReceiver} {c c' : CallPc Addr} {acc : List Addr}
    (h : HandoverInv r c acc) (os : List Obs) (hlog : r'.log = r.log ++ os)
    (hos : .sent .complete ∉ os)
    (hpresent : Pending r'.fileptr (handover r.log ++ handover os) acc r'.msg c') :
    HandoverInv r' c' acc where
  past := fun pre post hl => by
    rw [hlog] at hl
    obtain ⟨post', hl'⟩ := split_of_append hl hos
    exact h.past pre post' hl'
  present := by
    rw [hlog, handover, List.filter_append]
    exact hpresent

/-- A step of the I/O thread leaves the handover as it is. -/
theorem HandoverInv.io {v v' : RcvView} {c : CallPc Addr} {acc : List Addr}
    (h : HandoverInv v.rcv c acc) (hv : FileReceiver.IoStep v v') :
    HandoverInv v'.rcv c acc := by
  have hnil : v.rcv.log = v.rcv.log ++ [] := (List.append_nil _).symm
  have hpresent : Pending v.rcv.fileptr (handover v.rcv.log ++ []) acc v.rcv.msg c := by
    rw [List.append_nil]
    exact h.present
  cases hv with
  | handleRead | isReady | notReady | read | isWaiting | ignored | rearm =>
    exact h.of_append [] hnil (by simp) hpresent
  | overflow | arrive => exact h.of_append [.stored _ _ _] rfl (by simp) hpresent
  | post => exact h.of_append [.posted _] rfl (by simp) hpresent

theorem HandoverInv.msg {δ : Type} {dbl : DoubleLib δ} {n : ℕ} {junk : ℕ → UInt8} {ok : Bool}
    {v v' : RcvView} {c : CallPc Addr} {acc : List Addr} (h : HandoverInv v.rcv c acc)
    (hv : FileReceiver.MsgStep dbl n junk ok v v') : HandoverInv v'.rcv c acc := by
  have hnil : v.rcv.log = v.rcv.log ++ [] := (List.append_nil _).symm
  have hpresent := h.present
  cases hv with
  | popReceive | popClose | popComplete | lookup | read | nullText | fileinfo | otherText
  | useCount | keep | close | reset | unequal | toWaiting =>
    exact h.of_append [] hnil (by simp) trivial
  | badText | badSize | writeError => exact h
  | @terminate pos =>
    by_cases hpos : pos < 0
    · exact h.of_append [.outOfBounds] (if_pos hpos) (by simp) trivial
    · exact h.of_append [] ((if_neg hpos).trans hnil) (by simp) trivial
  | replace | fill => exact h.of_append [.taken _] rfl (by simp) trivial
  | @equal a hpc hp he =>
    exact h.of_append [.checked a (v.heap a)] rfl (by simp)
      ⟨a, v.heap a, hp, he, List.suffix_append ..⟩
  | @setState st hpc =>
    rw [hpc] at hpresent
    refine h.of_append [] hnil (by simp) ?_
    cases st with
    | complete =>
      rw [show handover [] = [] from rfl, List.append_nil]
      exact hpresent
    | waiting | ready | failure => trivial
  | @sent st hpc =>
    have hnext : ∀ l,
        Pending v.rcv.fileptr l acc (if st = .ready then .idle else .toWaiting) c := by
      intro l
      by_cases hst : st = .ready <;> simp [hst, Pending]
    rw [hpc] at hpresent
    cases st with
    | complete =>
      -- the entry added is the one that has to be accounted for
      refine ⟨fun pre post hl => ?_, hnext _⟩
      rcases List.append_eq_append_iff.mp hl with ⟨as, hpre, has⟩ | ⟨bs, hlog, hbs⟩
      · cases as with
        | nil =>
          rw [List.append_nil] at hpre
          rw [hpre]
          exact hpresent
        | cons o as => simp at has
      · cases bs with
        | nil =>
          rw [List.append_nil] at hlog
          rw [← hlog]
          exact hpresent
        | cons o bs =>
          obtain ⟨rfl, -⟩ := List.cons.inj hbs
          exact h.past pre bs hlog
    | waiting | ready | failure => exact h.of_append [.sent _] rfl (by simp) (hnext _)

/-! ### The calls into the writer -/

theorem suffix_concat {α : Type} {xs l : List α} (h : xs <:+ l) (x : α) :
    xs ++ [x] <:+ l ++ [x] := by
  obtain ⟨t, rfl⟩ := h
  exact ⟨t, by simp⟩

variable [DecidableEq ι]

/-- A step of the call of `NewFile` is recorded. -/
theorem HandoverInv.newFile {w w' : FileWritter ι Addr} {i : ι} {r : FileReceiver}
    (h : HandoverInv r (w.callers i) w.accepted) (hpc : r.msg = .newFile)
    (hw : w.newFile i = some w') :
    HandoverInv
      { r with
        msg := afterCall (w'.callers i)
        log := r.log ++ newFileLog w i } (w'.callers i) w'.accepted := by
  have hpresent := h.present
  rw [hpc] at hpresent
  cases FileWritter.newFile_cases hw with
  | @reject a hc hr =>
    rw [hc] at hpresent
    obtain ⟨f, g, he, hs⟩ := hpresent
    have hlog : newFileLog w i = [.tested a false] := by rw [newFileLog, hc, hr]
    dsimp only
    rw [Function.update_self, hlog]
    exact h.of_append [.tested a false] rfl (by simp)
      ⟨a, f, g, he, .inr (suffix_concat hs (.tested a false))⟩
  | @accept a hc hr =>
    rw [hc] at hpresent
    obtain ⟨f, g, he, hs⟩ := hpresent
    have hlog : newFileLog w i = [.tested a true] := by rw [newFileLog, hc, hr]
    dsimp only
    rw [Function.update_self, hlog]
    exact h.of_append [.tested a true] rfl (by simp)
      ⟨f, g, he, suffix_concat hs (.tested a true)⟩
  | @push a hc =>
    rw [hc] at hpresent
    obtain ⟨f, g, he, hs⟩ := hpresent
    have hlog : newFileLog w i = [.appended a] := by rw [newFileLog, hc]
    have hacc : ∀ b ∈ w.accepted, b ∈ w.accepted ++ [a] := fun b hb =>
      List.mem_append_left _ hb
    dsimp only
    rw [Function.update_self, hlog]
    exact (h.mono hacc).of_append [.appended a] rfl (by simp)
      ⟨by simp, f, g, he, suffix_concat hs (.appended a)⟩
  | @wake a hc | @lost a hc =>
    rw [hc] at hpresent
    obtain ⟨ha, f, g, he, hs⟩ := hpresent
    have hlog : newFileLog w i = [] := by rw [newFileLog, hc]
    dsimp only
    rw [Function.update_self, hlog]
    refine h.of_append [] rfl (by simp) ⟨a, f, g, he, .inl ⟨?_, ha⟩⟩
    rw [show handover [] = [] from rfl, List.append_nil]
    exact hs

omit [DecidableEq ι] in
theorem monStep_accepted {w w' : FileWritter ι Addr} {rslt : Bool}
    (hw : w.threadMonitor rslt = some w') : w'.accepted = w.accepted := by
  cases FileWritter.threadMonitor_cases hw <;> rfl

theorem newFile_accepted {w w' : FileWritter ι Addr} {i : ι} (hw : w.newFile i = some w') :
    ∀ a ∈ w.accepted, a ∈ w'.accepted := by
  cases FileWritter.newFile_cases hw with
  | push => exact fun a ha => List.mem_append_left _ ha
  | reject | accept | wake | lost => exact fun _ => id

/-- The records of all receivers are in order. -/
structure HandoversInv (s : TransferAgent ι) : Prop where
  owned : Owned s
  receivers : ∀ i, HandoverInv (s.filercv i) (s.fw.callers i) s.fw.accepted

variable [Fintype ι] {δ : Type} {dbl : DoubleLib δ}

theorem HandoversInv.step {s s' : TransferAgent ι} {e : AgentEvent ι} (h : HandoversInv s)
    (hs : s.step dbl e = some s') : HandoversInv s' := by
  refine ⟨h.owned.step hs, ?_⟩
  have hlocal : ∀ {i}, e.receiver? = some i → (∀ a ∈ s.fw.accepted, a ∈ s'.fw.accepted) →
      HandoverInv (s'.filercv i) (s'.fw.callers i) s'.fw.accepted →
      ∀ j, HandoverInv (s'.filercv j) (s'.fw.callers j) s'.fw.accepted := by
    intro i he hacc hi j
    by_cases hj : j = i
    · exact hj ▸ hi
    · have hu : Undisturbed s s' j := h.owned.undisturbed hs (by
        rw [he]
        exact fun hij => hj (Option.some.inj hij).symm)
      rw [hu.rcv, hu.caller]
      exact (h.receivers j).mono hacc
  have hwriter : e.receiver? = none → s'.fw.accepted = s.fw.accepted →
      ∀ j, HandoverInv (s'.filercv j) (s'.fw.callers j) s'.fw.accepted := by
    intro he hacc j
    have hu : Undisturbed s s' j := h.owned.undisturbed hs (by rw [he]; simp)
    rw [hu.rcv, hu.caller, hacc]
    exact h.receivers j
  cases (step_cases hs).2 with
  | @recv i d r hr =>
    obtain ⟨-, -, -, rfl⟩ := FileReceiver.receive_cases hr
    apply hlocal rfl (fun _ => id)
    dsimp only
    rw [Function.update_self]
    refine (h.receivers i).of_append [.arrived d] rfl (by simp) ?_
    rw [show handover [.arrived d] = [] from rfl, List.append_nil]
    exact (h.receivers i).present
  | @fail i r hr =>
    obtain ⟨-, rfl⟩ := FileReceiver.receiveError_cases hr
    apply hlocal rfl (fun _ => id)
    dsimp only
    rw [Function.update_self]
    exact ⟨(h.receivers i).past, (h.receivers i).present⟩
  | @io i v hv =>
    apply hlocal rfl (fun _ => id)
    rw [commit_self]
    exact (h.receivers i).io (v := s.view i) hv
  | @msg i _ _ v hv =>
    apply hlocal rfl (fun _ => id)
    rw [commit_self]
    exact (h.receivers i).msg (v := s.view i) hv
  | @handOver i _ _ a hpc hp hc =>
    apply hlocal rfl (fun _ => id)
    dsimp only
    rw [Function.update_self, Function.update_self]
    have hpresent := (h.receivers i).present
    rw [hpc] at hpresent
    obtain ⟨b, f, hb, he, hsuf⟩ := hpresent
    obtain rfl : a = b := Option.some.inj (hp.symm.trans hb)
    exact (h.receivers i).of_append [.handed a (s.heap a)] rfl (by simp)
      ⟨f, s.heap a, he, suffix_concat hsuf (.handed a (s.heap a))⟩
  | @newFile i _ _ w hpc hw =>
    apply hlocal rfl (newFile_accepted hw)
    dsimp only
    rw [Function.update_self]
    exact (h.receivers i).newFile hpc hw
  | takeFirst | saveThrew | config | spurious => exact hwriter rfl rfl
  | save _ _ _ hw | monitor _ _ hw => exact hwriter rfl (monStep_accepted hw)

/-- **What `COMPLETE` stands for.**  Whenever a receiver has sent `COMPLETE`, the
handover that ends before it in its history is one of a file whose bytes had all
arrived when it was checked, and the writer has accepted this file if it was
running when `NewFile` asked, and rejected it if it was not. -/
theorem complete_handed {bufs : ι → PackBuf × PackBuf} {heap : Heap} {env : SaveEnv}
    {es : List (AgentEvent ι)} {s : TransferAgent ι} {i : ι} {pre post : List Obs}
    (hrun : Lts.run (step dbl) (init bufs heap env) es = some s)
    (hsent : (s.filercv i).log = pre ++ .sent .complete :: post) :
    Handed s.fw.accepted (handover pre) := by
  have h : HandoversInv s := Lts.run_invariant (fun _ _ _ => HandoversInv.step)
    ⟨.init bufs heap env, fun i => .init (bufs i)⟩ hrun
  exact (h.receivers i).past pre post hsent

/-- A file that is handed to a running writer. -/
theorem complete_handed_running : ∃ (s : TransferAgent Unit) (pre : List Obs),
    Lts.run (step unitLib) single (monitorSteps 1 ++
      lineSchedule (lit "fileinfo filename=a,filesize=2\n") ++ dataSchedule [7, 8] ++
        msgSteps 8) = some s ∧
      (s.filercv ()).log = pre ++ [.sent .complete] ∧ s.fw.accepted = [0] ∧
        Handed s.fw.accepted (handover pre) := by
  have heval : (Lts.run (step unitLib) single (monitorSteps 1 ++
      lineSchedule (lit "fileinfo filename=a,filesize=2\n") ++ dataSchedule [7, 8] ++
        msgSteps 8)).map (fun s => ((s.filercv ()).log.getLast?, s.fw.accepted)) =
          some (some (.sent .complete), [0]) := by
    decide +kernel
  obtain ⟨s, hrun, hs⟩ := Option.map_eq_some_iff.mp heval
  obtain ⟨hlast, hacc⟩ := Prod.mk.inj hs
  obtain ⟨pre, hpre⟩ := List.getLast?_eq_some_iff.mp hlast
  exact ⟨s, pre, hrun, hpre, hacc, complete_handed hrun hpre⟩

/-- Before the monitor thread has started, a file is rejected and `COMPLETE` is
sent for it. -/
theorem not_complete_appended :
    ¬ ∀ (es : List (AgentEvent Unit)) (s : TransferAgent Unit),
      Lts.run (step unitLib) single es = some s → .sent .complete ∈ (s.filercv ()).log →
        ∃ a f, .handed a f ∈ (s.filercv ()).log ∧ f.filesize = f.rcvsize ∧
          a ∈ s.fw.accepted := by
  intro hall
  have heval : (Lts.run (step unitLib) single
      (lineSchedule (lit "fileinfo filename=a,filesize=2\n") ++ dataSchedule [7, 8] ++
        msgSteps 6)).map (fun s => (decide (.sent .complete ∈ (s.filercv ()).log),
          s.fw.accepted)) = some (true, []) := by
    decide +kernel
  obtain ⟨s, hrun, hs⟩ := Option.map_eq_some_iff.mp heval
  obtain ⟨hsent, hacc⟩ := Prod.mk.inj hs
  obtain ⟨a, -, -, -, ha⟩ := hall _ s hrun (of_decide_eq_true hsent)
  rw [hacc] at ha
  cases ha

end TransferAgent

end FtServer
