/-
FtServer/UploadProgress.lean

Uploads come to their end.  While the connection holds, a client that follows the
protocol never waits in vain: at every place either the threads of its receiver have
work left, and then they can do it, or the client may write its next line or its next
bytes, and the receiver takes them.  `rank` puts the bytes that have not arrived
before the work that the threads have left.

`exists_acknowledged`: from every state of such a run, the client and the two threads
of its receiver alone get to the end of all the transfers, whatever the other
connections and the writer have done before.
-/
import FtServer.Reassembly

namespace FtServer

variable {δ : Type} {dbl : DoubleLib δ} {ts : List (Transfer dbl)} {r : FileReceiver}
variable {c : CallPc Addr} {priv : FileInfo → Prop}

/-! ### While the connection holds -/

/-- The I/O thread has not stopped reading, and is not about to report an error. -/
def FileReceiver.Open (r : FileReceiver) : Prop := r.io ≠ .stopped ∧ r.io ≠ .post .networkClose

instance (r : FileReceiver) : Decidable r.Open := inferInstanceAs (Decidable (_ ∧ _))

theorem At.live {gap : Prop} (h : At gap ts r c priv) (ho : r.Open) : Live r.tcp r.tcpptr := by
  cases h with
  | quiet hv => exact hv
  | coming _ hv | storing _ hv | full _ hv => exact hv
  | closedBetween _ hio | closedLoading _ hio => exact absurd hio ho.1

/-- A receiver that has settled waits for a line, or for more of the data. -/
inductive Waiting (ts : List (Transfer dbl)) (r : FileReceiver) : Prop
  | line {past todo} (hts : ts = past ++ todo) (hstate : r.state = .waiting)
      (hl : Ledger r.log (stream past) (done past) (past.map Transfer.file) past.length
        past.length)
  | data {past t todo k} (hts : ts = past ++ t :: todo) (hk : k < t.data.length)
      (hl : Ledger r.log (stream past ++ t.header ++ t.data.take k) (done past ++ [.ready])
        (past.map Transfer.file) (past.length + 1) past.length)

theorem At.expecting (h : At False ts r c priv) (ho : r.Open) (hs : r.Settled) :
    (r.io = .idle ∨ r.io = .rearm) ∧ Waiting ts r := by
  obtain ⟨hbusy, hmq, hmsg⟩ := hs
  cases h with
  | quiet hv hq h =>
    rcases hq with ⟨rfl, hio⟩ | ⟨hq, hio⟩
    · refine ⟨?_, ?_⟩
      · rcases hio with hio | hio | hio
        · exact .inl hio
        · exact .inr hio
        · exact absurd hio ho.2
      · rw [hmq] at h
        cases h with
        | between hts hl hm =>
          rcases hm with ⟨-, hstate⟩ | ⟨hm, -⟩
          · exact .line hts hstate hl
          · cases hmsg.symm.trans hm
        | handling _ _ hm =>
          rw [hmsg] at hm
          exact hm.elim
        | loading hts hk hl => exact .data hts hk hl
        | checking _ _ hm => simp [hmsg] at hm
        | handed _ _ hm =>
          rw [hmsg] at hm
          exact hm.elim
    · exact absurd hio ho.1
  | coming _ _ _ _ hio => simp [hio.busy] at hbusy
  | storing _ _ _ _ _ _ _ hio => simp [hio.busy] at hbusy
  | full _ _ _ _ hio => simp [hio, IoPc.busy] at hbusy
  | closedBetween _ hio | closedLoading _ hio => exact absurd hio ho.1

/-- What the client may write next. -/
structure NextRead (ts : List (Transfer dbl)) (r : FileReceiver) (d : Bytes) : Prop where
  ne_nil : d ≠ []
  fits : d.length ≤ tcpPackSize
  length_le : (arrived r.log).length + d.length ≤ (stream ts).length
  follows : arrived r.log ++ d <+: written ts (statuses r.log)
  whole : ¬ (locate ts ((arrived r.log).length + d.length)).InLine
  inWaiting : (locate ts (arrived r.log).length).AtLine → r.state = .waiting

/-- The next line goes out in one read. -/
theorem nextRead_line {past todo : List (Transfer dbl)} {t : Transfer dbl}
    (hts : ts = past ++ t :: todo) (hstate : r.state = .waiting)
    (harr : arrived r.log = stream past) (hsts : statuses r.log = done past)
    (hline : t.header.length ≤ tcpPackSize) : NextRead ts r t.header where
  ne_nil := by simp [Transfer.header]
  fits := hline
  length_le := by
    rw [harr, hts, stream_append]
    simp [stream]
  follows := by
    rw [harr, hsts, hts, written_rest]
    exact List.prefix_refl _
  whole := by
    rw [harr, hts, ← List.length_append, locate_line]
    exact fun h => Nat.lt_irrefl _ h.2
  inWaiting := fun _ => hstate

/-- The next bytes of the data, as many as a read takes. -/
theorem nextRead_data {past todo : List (Transfer dbl)} {t : Transfer dbl} {k : ℕ}
    (hts : ts = past ++ t :: todo) (hk : k < t.data.length)
    (harr : arrived r.log = stream past ++ t.header ++ t.data.take k)
    (hsts : statuses r.log = done past ++ [.ready]) :
    NextRead ts r ((t.data.drop k).take tcpPackSize) := by
  set d := (t.data.drop k).take tcpPackSize with hd
  have hprefix : t.data.take k ++ d <+: t.data := by
    rw [hd, ← List.take_add]
    exact List.take_prefix ..
  obtain ⟨hlen, -, happend⟩ := next_chunk hprefix hk
  have hbytes : arrived r.log ++ d = stream past ++ t.header ++ t.data.take (k + d.length) := by
    rw [harr, List.append_assoc, happend]
  refine ⟨?_, ?_, ?_, ?_, ?_, ?_⟩
  · have hsize : tcpPackSize = 1500 := rfl
    refine List.ne_nil_of_length_pos ?_
    rw [hd, List.length_take, List.length_drop]
    omega
  · exact List.length_take_le ..
  · have hwhole : (stream past ++ t.header ++ t.data).length ≤ (stream ts).length := by
      rw [hts, List.append_cons, stream_append, stream_concat]
      simp
    rw [← List.length_append, hbytes]
    simp only [List.length_append, List.length_take] at hwhole ⊢
    omega
  · rw [hbytes, hsts, hts, written_ready]
    exact (List.prefix_append_right_inj _).mpr (List.take_prefix ..)
  · rw [← List.length_append, hbytes, hts]
    rcases hlen.lt_or_eq with hlt | heq
    · rw [locate_loading past todo hlt]
      exact fun h => absurd h.2 (by simp)
    · rw [heq, List.take_length, locate_full]
      cases todo with
      | nil => exact id
      | cons t' todo => exact fun h => Nat.lt_irrefl _ h.1
  · rw [harr, hts, locate_loading past todo hk]
    intro h
    have hzero : t.header.length + k = 0 := h
    rw [Transfer.header_length] at hzero
    omega

theorem Waiting.exists_read (h : Waiting ts r) (hlines : ∀ t ∈ ts, t.header.length ≤ tcpPackSize)
    (hmore : arrived r.log ≠ stream ts) : ∃ d, NextRead ts r d := by
  cases h with
  | @line past todo hts hstate hl =>
    cases todo with
    | nil => exact absurd (by rw [hl.bytes_eq, hts, List.append_nil]) hmore
    | cons t todo =>
      exact ⟨_, nextRead_line hts hstate hl.bytes_eq hl.statuses_eq (hlines t (by simp [hts]))⟩
  | data hts hk hl => exact ⟨_, nextRead_data hts hk hl.bytes_eq hl.statuses_eq⟩

/-- A receiver that has settled when everything has arrived is done. -/
theorem Waiting.finished (h : Waiting ts r) (hall : arrived r.log = stream ts) :
    statuses r.log = done ts ∧ files r.log = ts.map Transfer.file := by
  cases h with
  | @line past todo hts hstate hl =>
    have hrest : stream todo = [] := by
      rw [hl.bytes_eq, hts, stream_append] at hall
      exact List.self_eq_append_right.mp hall
    cases todo with
    | nil =>
      rw [List.append_nil] at hts
      rw [hl.statuses_eq, hl.files_eq, hts]
      exact ⟨rfl, rfl⟩
    | cons t todo => simp [stream, Transfer.header] at hrest
  | @data past t todo k hts hk hl =>
    -- bytes of the data are missing
    have hlen := congrArg List.length hall
    rw [hl.bytes_eq, hts, List.append_cons, stream_append, stream_concat] at hlen
    simp only [List.length_append, List.length_take] at hlen
    omega

namespace TransferAgent

variable {ι : Type} [DecidableEq ι] [Fintype ι] {i : ι} {s s' : TransferAgent ι}
  {e : AgentEvent ι}

/-- The threads of the receiver do not close the connection. -/
theorem Stands.open_own (h : Stands False ts i s) (ho : (s.filercv i).Open) (he : Own i e)
    (hs : s.step dbl e = some s') : (s'.filercv i).Open := by
  have hlive := h.place.live ho
  obtain ⟨r, hr, hstep⟩ := step_rcv hs he.receiver_eq
  rw [hr]
  cases hstep with
  | recv | fail => exact he.elim
  | msg hv => cases hv <;> exact ho
  | handOver | newFile => exact ho
  | io hv =>
    cases hv with
    | post hpc =>
      have hm := ho.2
      rw [view_rcv] at hpc
      simp only [hpc, ne_eq, IoPc.post.injEq] at hm
      simp [FileReceiver.Open, hm]
    | rearm => simp [FileReceiver.Open, hlive.isOpen]
    | @arrive n a f full => cases full <;> simp [FileReceiver.Open]
    | overflow => exact ho
    | handleRead | isReady | notReady | read | isWaiting | ignored => simp [FileReceiver.Open]

/-! ### The next step -/

/-- The client and the threads of the receiver. -/
def Ahead (i : ι) (e : AgentEvent ι) : Prop := Own i e ∨ ∃ d, e = .recv i d

/-- What the client may do. -/
def Allowed (ts : List (Transfer dbl)) (i : ι) (s : TransferAgent ι) (e : AgentEvent ι) : Prop :=
  Follows ts i s e ∧ WholeLines ts i s e ∧ InWaiting ts i s e

/-- The bytes that have not arrived count most, then the work of the threads. -/
def rank (ts : List (Transfer dbl)) (i : ι) (s : TransferAgent ι) : ℕ :=
  2000 * ((stream ts).length - (arrived (s.filercv i).log).length) +
    2 * (s.filercv i).work (s.fw.callers i) + if (s.filercv i).io = .rearm then 1 else 0

omit [DecidableEq ι] [Fintype ι] in
theorem Own.allowed (he : Own i e) : Allowed ts i s e := by
  cases e with
  | io | msg => exact ⟨trivial, trivial, trivial⟩
  | recv | fail | monitor | spurious | config => exact he.elim

/-- The I/O thread starts the next read. -/
theorem Stands.rearm (h : Stands False ts i s) (hh : s.halted = false) (ho : (s.filercv i).Open)
    (hio : (s.filercv i).io = .rearm) :
    ∃ s', s.step dbl (.io i) = some s' ∧ s'.halted = false ∧ rank ts i s' < rank ts i s := by
  have hopen := (h.place.live ho).isOpen
  have hstep : FileReceiver.ioStep (s.view i) =
      some { s.view i with rcv := { s.filercv i with io := .idle } } := by
    simp [FileReceiver.ioStep, hio, hopen]
  refine ⟨s.commit i { s.view i with rcv := { s.filercv i with io := .idle } }, ?_, hh, ?_⟩
  · simp [TransferAgent.step, hh, hstep]
  · simp [rank, FileReceiver.work, hio, IoPc.work, commit]

/-- The receiver takes what the client writes. -/
theorem Stands.read {d : Bytes} (h : Stands False ts i s) (hh : s.halted = false)
    (ho : (s.filercv i).Open) (hset : (s.filercv i).Settled) (hio : (s.filercv i).io = .idle)
    (hd : NextRead ts (s.filercv i) d) :
    ∃ s', s.step dbl (.recv i d) = some s' ∧ s'.halted = false ∧ (s'.filercv i).Open ∧
      rank ts i s' < rank ts i s := by
  have hopen := (h.place.live ho).isOpen
  let r : FileReceiver := { s.filercv i with
    tcp := (s.filercv i).tcp.land d
    io := .landed d.length
    log := (s.filercv i).log ++ [.arrived d] }
  have hread : (s.filercv i).receive d = some r := by
    rw [FileReceiver.receive, if_pos ⟨hio, hopen, hd.ne_nil, hd.fits⟩]
  refine ⟨{ s with filercv := Function.update s.filercv i r }, ?_, hh, ?_, ?_⟩
  · simp [TransferAgent.step, hh, hread]
  · simp [FileReceiver.Open, r]
  · have hpos := List.length_pos_of_ne_nil hd.ne_nil
    have hle := hd.length_le
    have harr : (arrived ((s.filercv i).log ++ [.arrived d])).length =
        (arrived (s.filercv i).log).length + d.length := by
      simp [arrived, reads]
    obtain ⟨-, hmq, hmsg⟩ := hset
    simp only [rank, Function.update_self, r, harr, FileReceiver.work, hio, hmq, hmsg, IoPc.work,
      MsgPc.work, List.length_nil, reduceCtorEq, if_false]
    omega

/-- Short of the end somebody has something to do. -/
theorem Stands.ahead (h : Stands False ts i s) (hh : s.halted = false) (ho : (s.filercv i).Open)
    (hlines : ∀ t ∈ ts, t.header.length ≤ tcpPackSize)
    (hmore : ¬ ((s.filercv i).Settled ∧ arrived (s.filercv i).log = stream ts)) :
    ∃ e s', (Ahead i e ∧ Allowed ts i s e) ∧ s.step dbl e = some s' ∧
      (Stands False ts i s' ∧ s'.halted = false ∧ (s'.filercv i).Open) ∧
        rank ts i s' < rank ts i s := by
  by_cases hset : (s.filercv i).Settled
  · obtain ⟨hio | hio, hwaiting⟩ := h.place.expecting ho hset
    · obtain ⟨d, hd⟩ := hwaiting.exists_read hlines fun hall => hmore ⟨hset, hall⟩
      obtain ⟨s', hs, hh', ho', hlt⟩ := h.read hh ho hset hio hd
      have hallowed : Allowed ts i s (.recv i d) :=
        ⟨fun _ => hd.follows, fun _ => hd.whole, fun _ => hd.inWaiting⟩
      have h' := h.step hallowed.1 hallowed.2.1 (h.noGap _) (.inr hallowed.2.2) hs
      exact ⟨_, s', ⟨.inr ⟨d, rfl⟩, hallowed⟩, hs, ⟨h', hh', ho'⟩, hlt⟩
    · obtain ⟨s', hs, hh', hlt⟩ := h.rearm hh ho hio
      have he : Own i (.io i) := rfl
      exact ⟨_, s', ⟨.inl he, he.allowed⟩, hs, ⟨h.own he hs, hh', h.open_own ho he hs⟩, hlt⟩
  · obtain ⟨e, s', he, hs, hh', hlt⟩ := h.progress hh hset
    refine ⟨e, s', ⟨.inl he, he.allowed⟩, hs, ⟨h.own he hs, hh', h.open_own ho he hs⟩, ?_⟩
    have harr := he.arrived_eq hs
    rw [rank, rank, harr]
    split
    · split
      · omega
      · omega
    · split
      · omega
      · omega

/-- **Uploads come to their end.**  From every state of a run in which the client of `i`
has followed the protocol, unless the process has ended or the connection has failed,
steps of the client and of the two threads of its receiver lead to a state in which all
its files have been handed over and acknowledged. -/
theorem exists_acknowledged {bufs : ι → PackBuf × PackBuf} {heap : Heap} {env : SaveEnv}
    {es : List (AgentEvent ι)} (hlines : ∀ t ∈ ts, t.header.length ≤ tcpPackSize)
    (hclient : Lts.RunAll (step dbl) (Allowed ts i) (init bufs heap env) es)
    (hrun : Lts.run (step dbl) (init bufs heap env) es = some s) (hh : s.halted = false)
    (ho : (s.filercv i).Open) :
    ∃ fs s', Lts.RunAll (step dbl) (fun s e => Ahead i e ∧ Allowed ts i s e) s fs ∧
      Lts.run (step dbl) s fs = some s' ∧ (s'.filercv i).Settled ∧
      statuses (s'.filercv i).log = done ts ∧
      files (s'.filercv i).log = ts.map Transfer.file := by
  have hstands : Stands False ts i s := stands_run hclient hrun
  obtain ⟨fs, s', hall, hrun', ⟨h', -, ho'⟩, hset, harr⟩ := Lts.exists_run_of_rank
    (I := fun s => Stands False ts i s ∧ s.halted = false ∧ (s.filercv i).Open)
    (P := fun s => (s.filercv i).Settled ∧ arrived (s.filercv i).log = stream ts)
    (rank ts i) (fun _ h hmore => h.1.ahead h.2.1 h.2.2 hlines hmore) ⟨hstands, hh, ho⟩
  exact ⟨fs, s', hall, hrun', hset, (h'.place.expecting ho' hset).2.finished harr⟩

/-- The first line has come in, its bytes have not been dealt with. -/
def firstLine : List (AgentEvent Unit) := monitorSteps 1 ++ [.recv () transferA.header, .io ()]

theorem exists_acknowledged_first :
    ∃ s, Lts.run (step unitLib) single firstLine = some s ∧
      ∃ fs s', Lts.RunAll (step unitLib)
          (fun s e => Ahead () e ∧ Allowed [transferA, transferB] () s e) s fs ∧
        Lts.run (step unitLib) s fs = some s' ∧ (s'.filercv ()).Settled ∧
        statuses (s'.filercv ()).log = done [transferA, transferB] ∧
        files (s'.filercv ()).log = [transferA, transferB].map Transfer.file := by
  have hclient : Lts.RunAll (step unitLib) (Allowed [transferA, transferB] ()) single
      firstLine := by
    unfold Allowed
    decide +kernel
  have heval : (Lts.run (step unitLib) single firstLine).map (fun s =>
      (s.halted, decide (s.filercv ()).Open)) = some (false, true) := by
    decide +kernel
  obtain ⟨s, hrun, hs⟩ := Option.map_eq_some_iff.mp heval
  obtain ⟨hh, ho⟩ := Prod.mk.inj hs
  rw [decide_eq_true_eq] at ho
  exact ⟨s, hrun, exists_acknowledged (by decide) hclient hrun hh ho⟩

end TransferAgent

end FtServer
