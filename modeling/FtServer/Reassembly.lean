/-
FtServer/Reassembly.lean

What becomes of the files of a client that follows the protocol and whose lines
arrive whole, in `WAITING`.  However the data are cut into reads, whatever the
writer does meanwhile, and whether the object of the last transfer is used again
or not: each transfer posts one completion, and the file handed over for it is
the file of the transfer, all of its fields and bytes (`Reassembled`).

That the threads get there is `settles`: at every place where there is work left,
one of the two threads of the receiver can take a step, no such step ends the
process, and the work left (`FileReceiver.rank`) gets less.
-/
import FtServer.ConnectionStep

namespace FtServer

variable {δ : Type} {dbl : DoubleLib δ} {ts : List (Transfer dbl)} {t : Transfer dbl}

/-! ### What is promised -/

/-- The completions posted and the files handed over are those of the transfers
whose last byte has arrived, up to what the two threads have not got to yet. -/
structure FileReceiver.Reassembled (ts : List (Transfer dbl)) (r : FileReceiver) : Prop where
  handed : files r.log <+: (locate ts (arrived r.log).length).owedFiles
  posted : (files r.log).length ≤ r.log.count (.posted .receiveComplete)
  owed : r.log.count (.posted .receiveComplete) ≤ (locate ts (arrived r.log).length).passed.length
  /-- a thread that is done with a read has posted the completion it calls for -/
  completions : r.io.busy = false → r.log.count (.posted .receiveComplete) =
    (locate ts (arrived r.log).length).passed.length
  /-- nothing is left out in the end -/
  settled : r.Settled → files r.log = (locate ts (arrived r.log).length).owedFiles

variable {r : FileReceiver} {c : CallPc Addr} {priv : FileInfo → Prop} {ms : List Msg}
variable {gap : Prop}

/-! ### At the places of a connection -/

/-- Where all completions due have been posted. -/
theorem reassembled_of_passed {past : List (Transfer dbl)} {fs : List FileInfo} {n m : ℕ}
    {bytes : Bytes} {sts : List RcvState} (hl : Ledger r.log bytes sts fs n m)
    (hpassed : (locate ts bytes.length).passed = past) (hm : m = past.length)
    (hfs : fs <+: past.map Transfer.file) (hend : r.Settled → fs = past.map Transfer.file) :
    r.Reassembled ts := by
  have hlen := hfs.length_le
  rw [List.length_map] at hlen
  constructor
  · rw [hl.files_eq, hl.bytes_eq, Position.owedFiles, hpassed]
    exact hfs
  · rw [hl.files_eq, hl.completions_eq, hm]
    exact hlen
  · rw [hl.completions_eq, hl.bytes_eq, hpassed, hm]
  · intro _
    rw [hl.completions_eq, hl.bytes_eq, hpassed, hm]
  · intro hsettled
    rw [hl.files_eq, hl.bytes_eq, Position.owedFiles, hpassed]
    exact hend hsettled

/-- Where the I/O thread is busy with the last bytes. -/
theorem reassembled_of_busy {past : List (Transfer dbl)} {bytes : Bytes} {n : ℕ}
    {sts : List RcvState} (hl : Ledger r.log bytes sts (past.map Transfer.file) n past.length)
    (hpassed : past <+: (locate ts bytes.length).passed) (hbusy : r.io.busy = true) :
    r.Reassembled ts := by
  constructor
  · rw [hl.files_eq, hl.bytes_eq]
    exact hpassed.map Transfer.file
  · rw [hl.files_eq, hl.completions_eq, List.length_map]
  · rw [hl.completions_eq, hl.bytes_eq]
    exact hpassed.length_le
  · intro hidle
    simp [hbusy] at hidle
  · intro hsettled
    exact absurd hsettled.1 (by simp [hbusy])

/-- The data up to some point: the transfers before are over, and this one
perhaps. -/
theorem passed_data (past todo : List (Transfer dbl)) {k : ℕ} (hk : k ≤ t.data.length) :
    past <+: (locate (past ++ t :: todo)
      (stream past ++ t.header ++ t.data.take k).length).passed := by
  rcases Nat.lt_or_eq_of_le hk with hlt | rfl
  · rw [locate_loading _ _ hlt]
  · rw [List.take_length, locate_full]
    exact List.prefix_append ..

theorem Resting.reassembled (h : Resting ts r c priv ms) (hq : Quiet r.io r.mq ms) :
    r.Reassembled ts := by
  cases h with
  | between hts hl =>
    exact reassembled_of_passed hl (by rw [hts, locate_rest]) rfl (List.prefix_refl _)
      fun _ => rfl
  | queued hts hl | handling hts hl =>
    exact reassembled_of_passed hl (by rw [hts, locate_line]) rfl (List.prefix_refl _)
      fun _ => rfl
  | loading hts hk hl =>
    exact reassembled_of_passed hl (by rw [hts, locate_loading _ _ hk]) rfl
      (List.prefix_refl _) fun _ => rfl
  | completed hts hl =>
    refine reassembled_of_passed hl (by rw [hts, locate_full]) (by simp)
      (by simp) fun hsettled => ?_
    rcases hq with ⟨hmq, -⟩ | ⟨hmq, -⟩ <;> exact absurd hsettled.2.1 (by simp [hmq])
  | checking hts hl hm =>
    refine reassembled_of_passed hl (by rw [hts, locate_full]) (by simp)
      (by simp) fun hsettled => ?_
    rcases hm with hm | hm <;> exact absurd hsettled.2.2 (by simp [hm])
  | handed hts hl =>
    exact reassembled_of_passed hl (by rw [hts, locate_full]) (by simp) (List.prefix_refl _)
      fun _ => rfl

theorem At.reassembled (h : At gap ts r c priv) : r.Reassembled ts := by
  cases h with
  | quiet _ hq h => exact h.reassembled hq
  | coming hts _ _ hl hio =>
    exact reassembled_of_busy hl (by rw [hts, locate_line]) hio.busy
  | storing hts _ _ _ hk _ hl hio =>
    exact reassembled_of_busy hl (by rw [hts]; exact passed_data _ _ hk) hio.busy
  | full hts _ _ hl hio =>
    exact reassembled_of_busy hl (by rw [hts, locate_full]; exact List.prefix_append ..)
      (by rw [hio]; rfl)
  | closedBetween hts _ _ _ hl =>
    exact reassembled_of_passed hl (by rw [hts, locate_rest]) rfl (List.prefix_refl _)
      fun _ => rfl
  | closedLoading hts _ _ _ hk hl =>
    exact reassembled_of_passed hl (by rw [hts, locate_loading _ _ hk]) rfl
      (List.prefix_refl _) fun _ => rfl

/-! ### The work left -/

/-- Steps that the I/O thread has left for the last read. -/
def IoPc.work : IoPc → ℕ
  | .landed _ => 5
  | .testReady => 4
  | .read | .testWaiting => 3
  | .arrive _ => 2
  | .post m => if m = .networkClose then 0 else 1
  | .idle | .rearm | .stopped => 0

/-- Steps that a call of `NewFile` has left. -/
def CallPc.work : CallPc Addr → ℕ
  | .idle => 0
  | .entered _ => 3
  | .admitted _ => 2
  | .pushed _ => 1

/-- Steps that the message thread has left in its handler. -/
def MsgPc.work (c : CallPc Addr) : MsgPc → ℕ
  | .idle => 0
  | .lookup => 11
  | .read _ => 10
  | .terminate _ => 9
  | .resolve => 8
  | .useCount _ => 7
  | .makeShared .. => 6
  | .fill _ => 5
  | .close | .reset => 1
  | .check => 9
  | .handOver => 8
  | .newFile => 4 + c.work
  | .toWaiting => 2
  | .setState _ => 4
  | .write _ => 3

/-- The work left: every message costs less than a handler, every read less than
the queue. -/
def FileReceiver.work (r : FileReceiver) (c : CallPc Addr) : ℕ :=
  100 * r.io.work + 20 * r.mq.length + r.msg.work c

variable {frozen : Addr → Prop} {v v' : RcvView}

/-- A busy I/O thread takes a step when nothing it needs is missing. -/
theorem FileReceiver.io_progress (hbusy : v.rcv.io.busy = true)
    (hq : v.rcv.mq.length < FileReceiver.mqCapacity)
    (hread : v.rcv.io = .read → v.rcv.tcpptr = true)
    (harrive : ∀ n, v.rcv.io = .arrive n → ∃ a, v.rcv.fileptr = some a ∧
      (v.heap a).dataArrive (v.rcv.bufrcv.bytes.take n) ≠ none) :
    ∃ v', FileReceiver.ioStep v = some v' ∧ v'.halted = v.halted ∧
      v'.rcv.work c < v.rcv.work c := by
  have hsome : (FileReceiver.ioStep v).isSome = true := by
    rcases hpc : v.rcv.io with - | n | - | - | n | - | m | - | -
    case read => simp [FileReceiver.ioStep, hpc, hread hpc]
    case arrive =>
      obtain ⟨a, hp, hd⟩ := harrive n hpc
      obtain ⟨p, hp'⟩ := Option.ne_none_iff_exists'.mp hd
      simp [FileReceiver.ioStep, hpc, hp, hp']
    case post => simp [FileReceiver.ioStep, hpc, hq]
    case idle | stopped => simp [hpc, IoPc.busy] at hbusy
    case landed | testReady | testWaiting | rearm => simp [FileReceiver.ioStep, hpc]
  obtain ⟨v', hv'⟩ := Option.isSome_iff_exists.mp hsome
  refine ⟨v', hv', ?_⟩
  cases FileReceiver.ioStep_cases hv' with
  | handleRead hpc | isReady hpc | notReady hpc | read hpc | isWaiting hpc | ignored hpc =>
    exact ⟨rfl, by simp [FileReceiver.work, hpc, IoPc.work]⟩
  | overflow hpc hp hd =>
    obtain ⟨b, hb, hne⟩ := harrive _ hpc
    obtain rfl := Option.some.inj (hp.symm.trans hb)
    exact absurd hd hne
  | @arrive _ _ _ full hpc =>
    refine ⟨rfl, ?_⟩
    cases full <;> simp [FileReceiver.work, hpc, IoPc.work]
  | @post m hpc =>
    -- the message costs the queue less than posting it cost the thread
    have hm : m ≠ .networkClose := by simpa [hpc, IoPc.busy] using hbusy
    refine ⟨rfl, ?_⟩
    simp only [FileReceiver.work, hpc, IoPc.work, if_neg hm, List.length_append,
      List.length_singleton]
    omega
  | rearm hpc => simp [hpc, IoPc.busy] at hbusy

theorem At.io_progress (h : At gap ts v.rcv c (Private frozen v.rcv v.heap))
    (hbusy : v.rcv.io.busy = true) :
    ∃ v', FileReceiver.ioStep v = some v' ∧ v'.halted = v.halted ∧
      v'.rcv.work c < v.rcv.work c := by
  have hroom : v.rcv.mq = [] → v.rcv.mq.length < FileReceiver.mqCapacity := fun hq => by
    rw [hq]
    decide
  cases h with
  | quiet _ hq => rcases hq with ⟨-, hq | hq | hq⟩ | ⟨-, hq⟩ <;> simp [hq, IoPc.busy] at hbusy
  | coming _ hv hq _ hio =>
    refine FileReceiver.io_progress hbusy (hroom hq) (fun _ => hv.tcpptr_eq) fun n hpc => ?_
    rw [hpc] at hio
    exact hio.elim
  | storing _ hv hq _ hk _ _ hio _ _ hf =>
    refine FileReceiver.io_progress hbusy (hroom hq) (fun _ => hv.tcpptr_eq) fun n hpc => ?_
    obtain ⟨f, ⟨a, ha, -, rfl⟩, hf⟩ := hf
    rw [hpc] at hio
    exact ⟨a, ha, hio.noOverflow hf hk⟩
  | full _ hv hq _ hio =>
    refine FileReceiver.io_progress hbusy (hroom hq) (fun _ => hv.tcpptr_eq) fun n hpc => ?_
    simp [hio] at hpc
  | closedBetween _ hio | closedLoading _ hio => simp [hio, IoPc.busy] at hbusy

/-- Where the message thread may stand, and what it has there. -/
theorem At.position (h : At gap ts r c priv) :
    r.msg = .idle ∨ r.msg = .toWaiting ∨ r.msg = .reset ∨ (Live r.tcp r.tcpptr ∧
      ((∃ t : Transfer dbl, Handling r.tcp r.bufrcv r.state priv t r.msg) ∨
        ((r.msg = .check ∨ r.msg = .handOver) ∧
          ∃ (t : Transfer dbl) (f : FileInfo), priv f ∧ Holding t t.data.length f) ∨
        Acknowledging r.state c r.msg)) := by
  cases h with
  | quiet hv _ h =>
    cases h with
    | between _ _ hm => exact hm.elim (fun h => .inl h.1) fun h => .inr (.inl h.1)
    | queued _ _ hm | loading _ _ _ hm | completed _ _ hm => exact .inl hm
    | handling _ _ hm => exact .inr (.inr (.inr ⟨hv, .inl ⟨_, hm⟩⟩))
    | checking _ _ hm hf => exact .inr (.inr (.inr ⟨hv, .inr (.inl ⟨hm, _, hf⟩)⟩))
    | handed _ _ hm => exact .inr (.inr (.inr ⟨hv, .inr (.inr hm)⟩))
  | coming _ _ _ _ _ hm => exact hm.elim (fun h => .inl h.1) fun h => .inr (.inl h.2.1)
  | storing _ _ _ _ _ _ _ _ hm | full _ _ _ _ _ hm => exact .inl hm
  | closedBetween _ _ _ hm | closedLoading _ _ _ hm =>
    exact hm.elim (fun h => .inr (.inr (.inl h))) .inl

variable {n : ℕ} {junk : ℕ → UInt8}

/-- Outside the writer the message thread takes a step when it has work. -/
theorem At.msg_enabled (h : At gap ts v.rcv c (Private frozen v.rcv v.heap))
    (hwork : v.rcv.msg ≠ .idle ∨ v.rcv.mq ≠ []) (hover : v.rcv.msg ≠ .handOver)
    (hnew : v.rcv.msg ≠ .newFile) :
    (FileReceiver.msgStep dbl n junk true v).isSome = true := by
  rcases h.position with hm | hm | hm | ⟨hv, ⟨t, hm⟩ | ⟨hm, t, f, ⟨a, ha, -⟩, -⟩ | hm⟩
  · rcases hq : v.rcv.mq with - | ⟨m, q⟩
    · simp [hm, hq] at hwork
    · cases m <;> simp [FileReceiver.msgStep, hm, hq]
  · simp [FileReceiver.msgStep, hm]
  · simp [FileReceiver.msgStep, hm]
  · rcases hpc : v.rcv.msg <;> rw [hpc] at hm
    case lookup | read => simp [FileReceiver.msgStep, hpc, hv.tcpptr_eq]
    case terminate | useCount | setState => simp [FileReceiver.msgStep, hpc]
    case resolve => simp [FileReceiver.msgStep, hpc, t.resolve_eq hm, Apbase.base, t.type_eq]
    case makeShared p m =>
      simp only [FileReceiver.msgStep, hpc]
      split
      · split <;> rfl
      · rfl
    case fill p =>
      obtain ⟨-, f, ⟨a, ha, -⟩, -⟩ := hm
      simp [FileReceiver.msgStep, hpc, ha]
    case write => simp [FileReceiver.msgStep, hpc, hv.tcpptr_eq, hv.isOpen]
    all_goals exact hm.elim
  · have hm := hm.resolve_right hover
    simp only [FileReceiver.msgStep, hm, ha]
    split <;> rfl
  · rcases hpc : v.rcv.msg <;> rw [hpc] at hm
    case newFile => exact absurd hpc hnew
    case setState => simp [FileReceiver.msgStep, hpc]
    case write => simp [FileReceiver.msgStep, hpc, hv.tcpptr_eq, hv.isOpen]
    all_goals exact hm.elim

/-- It does not end the process when its writes succeed, and gets on. -/
theorem At.msg_progress (h : At gap ts v.rcv c (Private frozen v.rcv v.heap))
    (hs : FileReceiver.MsgStep dbl n junk true v v') :
    v'.halted = v.halted ∧ v'.rcv.work c < v.rcv.work c := by
  have hpos := h.position
  cases hs with
  | popReceive hpc hq | popClose hpc hq | popComplete hpc hq =>
    refine ⟨rfl, ?_⟩
    simp only [FileReceiver.work, hpc, hq, MsgPc.work, List.length_cons]
    omega
  | badText hpc hr =>
    -- the text is that of the line, which parses
    rw [hpc] at hpos
    simp only [Handling, Acknowledging, reduceCtorEq, false_or, or_false, false_and] at hpos
    obtain ⟨-, t, hm⟩ := hpos
    rw [t.resolve_eq hm] at hr
    cases hr
  | badSize hpc _ hf =>
    rw [hpc] at hpos
    simp only [Handling, Acknowledging, reduceCtorEq, false_or, or_false, false_and] at hpos
    obtain ⟨-, t, rfl⟩ := hpos
    obtain ⟨f, hf'⟩ := t.create_ok junk
    rw [hf'] at hf
    cases hf
  | writeError hpc _ hok =>
    rw [hpc] at hpos
    simp only [reduceCtorEq, false_or] at hpos
    exact absurd ⟨rfl, hpos.1.isOpen⟩ hok
  | @sent st hpc =>
    refine ⟨rfl, ?_⟩
    by_cases hst : st = .ready <;> simp [FileReceiver.work, hpc, MsgPc.work, hst]
  | lookup hpc | read hpc | terminate hpc | nullText hpc | fileinfo hpc | otherText hpc
  | useCount hpc | replace hpc | keep hpc | fill hpc | close hpc | reset hpc | equal hpc
  | unequal hpc | setState hpc | toWaiting hpc =>
    exact ⟨rfl, by simp [FileReceiver.work, hpc, MsgPc.work]⟩

/-! ### Runs -/

namespace TransferAgent

variable {ι : Type} {i : ι} {s s' : TransferAgent ι} {e : AgentEvent ι}

/-- A step of one of the two threads of receiver `i`, whose writes succeed. -/
def Own (i : ι) : AgentEvent ι → Prop
  | .io j => j = i
  | .msg j _ ok => j = i ∧ ok = true
  | _ => False

variable [DecidableEq ι] [Fintype ι]

/-- Outside the calls into the writer a step of the message thread is `msgStep`. -/
theorem message_local {junk : ℕ → UInt8} {ok : Bool} (hover : (s.filercv i).msg ≠ .handOver)
    (hnew : (s.filercv i).msg ≠ .newFile) : s.message dbl i junk ok =
      (FileReceiver.msgStep dbl (s.fileptrCount i) junk ok (s.view i)).map (s.commit i) := by
  unfold message
  split
  · rename_i hpc
    exact absurd hpc hover
  · rename_i hpc
    exact absurd hpc hnew
  · rfl

omit [DecidableEq ι] [Fintype ι] in
theorem Own.receiver_eq (he : Own i e) : e.receiver? = some i := by
  cases e with
  | io j => exact congrArg some he
  | msg j _ ok => exact congrArg some he.1
  | recv | fail | monitor | spurious | config => exact he.elim

/-- The threads of the receiver take no note of anything that has not arrived. -/
theorem Own.arrived_eq (he : Own i e) (hs : s.step dbl e = some s') :
    arrived (s'.filercv i).log = arrived (s.filercv i).log := by
  obtain ⟨r, hr, hstep⟩ := step_rcv hs he.receiver_eq
  rw [hr]
  cases hstep with
  | recv | fail => exact he.elim
  | io hv => cases hv <;> simp [arrived, reads]
  | msg hv =>
    cases hv with
    | @terminate pos => by_cases hpos : pos < 0 <;> simp [arrived, reads, hpos]
    | replace | fill | equal | sent => simp [arrived, reads]
    | _ => rfl
  | handOver => simp [arrived, reads]
  | newFile => rcases hc : s.fw.callers i <;> simp [arrived, reads, newFileLog, hc]

/-- The message thread takes a step when it has work. -/
theorem Stands.msg_enabled (h : Stands gap ts i s) (hh : s.halted = false)
    (hwork : (s.filercv i).msg ≠ .idle ∨ (s.filercv i).mq ≠ []) :
    ∃ s', s.step dbl (.msg i (fun _ => 0) true) = some s' := by
  have hstep : s.step dbl (.msg i (fun _ => 0) true) = s.message dbl i (fun _ => 0) true := by
    simp [TransferAgent.step, hh]
  rw [hstep]
  have hpos := h.place.position
  by_cases hover : (s.filercv i).msg = .handOver
  · simp only [hover, reduceCtorEq, false_or, or_true, true_and, Handling, Acknowledging,
      exists_false, or_false] at hpos
    obtain ⟨-, t, f, ⟨a, ha, -⟩, -⟩ := hpos
    -- a call under way is one of a thread inside `NewFile`
    have hidle : s.fw.callers i = .idle := by
      rcases hc : s.fw.callers i with - | b | b | b
      · rfl
      all_goals
        have hnew := (h.owned.caller i b (by rw [hc]; rfl)).2
        rw [hover] at hnew
        cases hnew
    simp [message, hover, callStep, ha, FileWritter.call, hidle]
  · by_cases hnew : (s.filercv i).msg = .newFile
    · simp only [hnew, reduceCtorEq, false_or, false_and, Handling, Acknowledging,
        exists_false] at hpos
      have hsome : (s.fw.newFile i).isSome = true := by
        rcases hc : s.fw.callers i with - | b | b | b
        · exact absurd hc hpos.2
        · simp only [FileWritter.newFile, hc]
          split <;> rfl
        all_goals simp [FileWritter.newFile, hc]
      obtain ⟨w, hw⟩ := Option.isSome_iff_exists.mp hsome
      simp [message, hnew, callStep, hw]
    · rw [message_local hover hnew]
      obtain ⟨v, hv⟩ := Option.isSome_iff_exists.mp
        (At.msg_enabled (v := s.view i) h.place hwork hover hnew)
      exact ⟨s.commit i v, by rw [hv]; rfl⟩

/-- A receiver that is not settled can take a step of its own, and has less work
left then. -/
theorem Stands.progress (h : Stands gap ts i s) (hh : s.halted = false)
    (hn : ¬ (s.filercv i).Settled) : ∃ e s', Own i e ∧ s.step dbl e = some s' ∧
      s'.halted = false ∧
      (s'.filercv i).work (s'.fw.callers i) < (s.filercv i).work (s.fw.callers i) := by
  by_cases hbusy : (s.filercv i).io.busy = true
  · obtain ⟨v, hv, hhalt, hlt⟩ := At.io_progress (v := s.view i) h.place hbusy
    refine ⟨.io i, s.commit i v, rfl, by simp [TransferAgent.step, hh, hv], hhalt.trans hh, ?_⟩
    rw [commit_self]
    exact hlt
  · have hwork : (s.filercv i).msg ≠ .idle ∨ (s.filercv i).mq ≠ [] := by
      by_contra hnone
      rw [not_or, not_not, not_not] at hnone
      exact hn ⟨by simpa using hbusy, hnone.2, hnone.1⟩
    obtain ⟨s', hs⟩ := h.msg_enabled hh hwork
    refine ⟨.msg i (fun _ => 0) true, s', ⟨rfl, rfl⟩, hs, ?_⟩
    cases (step_cases hs).2 with
    | msg hv =>
      obtain ⟨hhalt, hlt⟩ := At.msg_progress (v := s.view i) h.place hv
      refine ⟨hhalt.trans hh, ?_⟩
      rw [commit_self]
      exact hlt
    | handOver hpc =>
      refine ⟨hh, ?_⟩
      dsimp only
      rw [Function.update_self, Function.update_self]
      simp [FileReceiver.work, hpc, MsgPc.work, CallPc.work]
    | newFile hpc hw =>
      refine ⟨hh, ?_⟩
      dsimp only
      rw [Function.update_self]
      cases FileWritter.newFile_cases hw with
      | reject hc | accept hc | push hc | wake hc | lost hc =>
        simp [FileReceiver.work, hpc, hc, MsgPc.work, CallPc.work, afterCall]

/-- The rules of the environment do not bear on the threads of the receiver. -/
theorem Stands.own (h : Stands False ts i s) (he : Own i e) (hs : s.step dbl e = some s') :
    Stands False ts i s' := by
  have henv : Follows ts i s e ∧ WholeLines ts i s e ∧ InWaiting ts i s e := by
    cases e with
    | io | msg => exact ⟨trivial, trivial, trivial⟩
    | recv | fail | monitor | spurious | config => exact he.elim
  exact h.step henv.1 henv.2.1 (h.noGap e) (.inr henv.2.2) hs

/-- Unless the process has ended, the two threads of the receiver can settle what
has arrived. -/
theorem Stands.settles (h : Stands False ts i s) (hh : s.halted = false) :
    ∃ es s', Lts.RunAll (TransferAgent.step dbl) (fun _ e => Own i e) s es ∧
      Lts.run (TransferAgent.step dbl) s es = some s' ∧
      (s'.filercv i).Settled ∧ Stands False ts i s' ∧
      arrived (s'.filercv i).log = arrived (s.filercv i).log := by
  obtain ⟨es, s', hown, hrun, ⟨h', -, harr⟩, hsettled⟩ := Lts.exists_run_of_rank
    (I := fun u => Stands False ts i u ∧ u.halted = false ∧
      arrived (u.filercv i).log = arrived (s.filercv i).log)
    (P := fun u => (u.filercv i).Settled) (fun u => (u.filercv i).work (u.fw.callers i))
    (fun u ⟨hu, hhu, harr⟩ hn => by
      obtain ⟨e, u', he, hs, hhalt, hlt⟩ := hu.progress hhu hn
      exact ⟨e, u', he, hs, ⟨hu.own he hs, hhalt, (he.arrived_eq hs).trans harr⟩, hlt⟩)
    ⟨h, hh, rfl⟩
  exact ⟨es, s', hown, hrun, hsettled, h', harr⟩

/-- **Files are reassembled.**  In every state of a run with a client that
follows the protocol and whose lines arrive whole, in `WAITING`, the files
handed over are the files of the first transfers, in order, and each is handed
over after its one completion; a receiver that has settled what has arrived has
handed over the file of every transfer whose last byte has arrived; and unless
the process has ended its threads can always settle. -/
theorem transfers_reassembled {bufs : ι → PackBuf × PackBuf} {heap : Heap} {env : SaveEnv}
    {es : List (AgentEvent ι)}
    (hclient : Lts.RunAll (step dbl)
      (fun s e => Follows ts i s e ∧ WholeLines ts i s e ∧ InWaiting ts i s e)
      (init bufs heap env) es)
    (hrun : Lts.run (step dbl) (init bufs heap env) es = some s) :
    (s.filercv i).Reassembled ts ∧ (s.halted = false →
      ∃ es' s', Lts.RunAll (step dbl) (fun _ e => Own i e) s es' ∧
        Lts.run (step dbl) s es' = some s' ∧ (s'.filercv i).Settled ∧
        files (s'.filercv i).log =
          (locate ts (arrived (s.filercv i).log).length).owedFiles) := by
  have h := stands_run hclient hrun
  refine ⟨h.place.reassembled, fun hh => ?_⟩
  obtain ⟨es', s', hown, hrun', hsettled, h', harr⟩ := h.settles hh
  refine ⟨es', s', hown, hrun', hsettled, ?_⟩
  rw [h'.place.reassembled.settled hsettled, harr]

/-- Two transfers, the data of the first in two reads, the second object new
since the writer holds the first. -/
def twoTransfers : List (AgentEvent Unit) :=
  monitorSteps 1 ++ lineSchedule transferA.header ++ .recv () [7] :: ioSteps 5 ++
    dataSchedule [8] ++ msgSteps 9 ++ lineSchedule transferB.header ++
      dataSchedule transferB.data ++ msgSteps 9

theorem transfers_reassembled_two :
    ∃ s, Lts.run (step unitLib) single twoTransfers = some s ∧
      (s.filercv ()).Reassembled [transferA, transferB] ∧
      (locate [transferA, transferB] (arrived (s.filercv ()).log).length).owedFiles =
        [transferA.file, transferB.file] := by
  have hclient : Lts.RunAll (step unitLib) (fun s e =>
      Follows [transferA, transferB] () s e ∧ WholeLines [transferA, transferB] () s e ∧
        InWaiting [transferA, transferB] () s e) single twoTransfers := by
    decide +kernel
  have heval : (Lts.run (step unitLib) single twoTransfers).map (fun s =>
      (locate [transferA, transferB] (arrived (s.filercv ()).log).length).owedFiles) =
        some [transferA.file, transferB.file] := by
    decide +kernel
  obtain ⟨s, hrun, hs⟩ := Option.map_eq_some_iff.mp heval
  exact ⟨s, hrun, (transfers_reassembled hclient hrun).1, hs⟩

end TransferAgent

end FtServer
