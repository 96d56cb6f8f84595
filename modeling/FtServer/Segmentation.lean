/-
FtServer/Segmentation.lean

Does it matter how TCP cuts the stream?  The connections of the receivers are
unbuffered: each read replaces the one before.  So the data of a file may be cut
anywhere, but a line is looked for in one read only.  Where a read ends inside a
line, `Lookup` finds no newline and returns -1, nothing is copied, and
`bufrcv_[-1]` is set to zero, outside the buffer; what is parsed then is whatever
the buffer held before.

`Cut` follows such a piece of a line from the read to the write out of bounds.
`segmentation_iff` compares two ways to cut one stream, with each read handled
before the next one arrives: both are free of writes out of bounds and lead to
the same files and the same statuses if and only if no read ends inside a line.
-/
import FtServer.Reassembly

namespace FtServer

variable {δ : Type} {dbl : DoubleLib δ} {ts : List (Transfer dbl)} {t : Transfer dbl}
variable {r r' : FileReceiver} {c : CallPc Addr} {priv : FileInfo → Prop} {gap : Prop}

/-! ### Where a settled receiver stands -/

/-- Between two transfers, or inside the data of one. -/
theorem At.settled (h : At gap ts r c priv) (hs : r.Settled) : r.tcp.isOpen = true ∧
    ((∃ past todo, ts = past ++ todo ∧
        Ledger r.log (stream past) (done past) (past.map Transfer.file) past.length past.length ∧
        (r.io ≠ .stopped → Live r.tcp r.tcpptr ∧ r.state = .waiting)) ∨
      ∃ past t todo k, ts = past ++ t :: todo ∧ k < t.data.length ∧
        Ledger r.log (stream past ++ t.header ++ t.data.take k) (done past ++ [.ready])
          (past.map Transfer.file) (past.length + 1) past.length) := by
  obtain ⟨hbusy, hmq, hidle⟩ := hs
  cases h with
  | quiet hv hq h =>
    refine ⟨hv.isOpen, ?_⟩
    cases h with
    | between hts hl hm =>
      refine .inl ⟨_, _, hts, hl, fun _ => ⟨hv, ?_⟩⟩
      rcases hm with ⟨-, hst⟩ | ⟨hm, -⟩
      · exact hst
      · simp [hidle] at hm
    | loading hts hk hl => exact .inr ⟨_, _, _, _, hts, hk, hl⟩
    | queued | completed => rcases hq with ⟨hq, -⟩ | ⟨hq, -⟩ <;> simp [hmq] at hq
    | checking _ _ hm => simp [hidle] at hm
    | handling _ _ hm | handed _ _ hm =>
      rw [hidle] at hm
      exact hm.elim
  | coming _ _ _ _ hio => simp [hio.busy] at hbusy
  | storing _ _ _ _ _ _ _ hio => simp [hio.busy] at hbusy
  | full _ _ _ _ hio => simp [hio, IoPc.busy] at hbusy
  | closedBetween hts hio _ _ hl ho =>
    exact ⟨ho, .inl ⟨_, _, hts, hl, fun hne => absurd hio hne⟩⟩
  | closedLoading hts _ _ _ hk hl ho => exact ⟨ho, .inr ⟨_, _, _, _, hts, hk, hl⟩⟩

/-- It has sent the statuses that the bytes call for. -/
theorem At.statuses_eq (h : At gap ts r c priv) (hs : r.Settled) :
    statuses r.log = (locate ts (arrived r.log).length).owedStatuses := by
  obtain ⟨-, ⟨past, todo, hts, hl, -⟩ | ⟨past, t, todo, k, hts, hk, hl⟩⟩ := h.settled hs
  · rw [hl.statuses_eq, hl.bytes_eq, hts, locate_rest, Position.owedStatuses,
      if_neg Position.not_lineIn_start, List.append_nil]
  · rw [hl.statuses_eq, hl.bytes_eq, hts, locate_loading _ _ hk, Position.owedStatuses,
      if_pos (Position.lineIn_of_le (Nat.le_add_right ..))]

/-- A line that arrives at a settled receiver arrives in `WAITING`. -/
theorem At.waiting (h : At gap ts r c priv) (hs : r.Settled) (hidle : r.io = .idle)
    (hline : (locate ts (arrived r.log).length).AtLine) : r.state = .waiting := by
  obtain ⟨-, ⟨past, todo, -, -, hst⟩ | ⟨past, t, todo, k, hts, hk, hl⟩⟩ := h.settled hs
  · exact (hst (by simp [hidle])).2
  · rw [hl.bytes_eq, hts, locate_loading _ _ hk] at hline
    have hzero : t.header.length + k = 0 := hline
    rw [t.header_length] at hzero
    omega

/-- Nothing is written out of bounds. -/
theorem At.clean (h : At gap ts r c priv) : .outOfBounds ∉ r.log := by
  cases h with
  | quiet _ _ h => cases h <;> exact Ledger.clean ‹_›
  | coming | storing | full | closedBetween | closedLoading => exact Ledger.clean ‹_›

/-! ### A piece of a line -/

/-- A piece of a line without its end is on its way to the write out of bounds. -/
inductive Cut (r : FileReceiver) : Prop
  | coming {d : Bytes} (hd : 10 ∉ d) (hv : Live r.tcp r.tcpptr) (hq : r.mq = [])
      (hio : Coming r.tcp r.msg d r.io) (hm : r.msg = .idle) (hst : r.state = .waiting)
  | queued {d : Bytes} (hd : 10 ∉ d) (hv : Live r.tcp r.tcpptr)
      (hq : Quiet r.io r.mq [.networkReceive]) (hm : r.msg = .idle) (hh : Holds r.tcp d)
  | lookup {d : Bytes} (hd : 10 ∉ d) (hv : Live r.tcp r.tcpptr) (hq : Quiet r.io r.mq [])
      (hm : r.msg = .lookup) (hh : Holds r.tcp d)
  | read (hm : r.msg = .read (-1))
  | terminate (hm : r.msg = .terminate (-1))

/-- A receiver with such a piece is not settled. -/
theorem Cut.not_settled (h : Cut r) : ¬ r.Settled := by
  rintro ⟨hbusy, hmq, hidle⟩
  cases h with
  | coming _ _ _ hio => simp [hio.busy] at hbusy
  | queued _ _ hq => rcases hq with ⟨hq, -⟩ | ⟨hq, -⟩ <;> simp [hmq] at hq
  | lookup _ _ _ hm | read hm | terminate hm => simp [hidle] at hm

variable {v v' : RcvView}

theorem Cut.io (h : Cut v.rcv) (hs : FileReceiver.IoStep v v') : Cut v'.rcv := by
  cases h with
  | coming hd hv hq hio hm hst =>
    cases hs with
    | handleRead hpc =>
      rw [hpc] at hio
      exact .coming hd (hv.handleRead _) hq (Landed.handleRead hio hv.usebuf) hm hst
    | isReady _ hst' => simp [hst] at hst'
    | notReady hpc =>
      rw [hpc] at hio
      exact .coming hd hv hq hio hm hst
    | isWaiting hpc =>
      rw [hpc] at hio
      exact .coming hd hv hq ⟨hio, hm⟩ hm hst
    | ignored _ hne => exact absurd hst hne
    | @post m hpc =>
      rw [hpc] at hio
      cases m with
      | networkReceive =>
        exact .queued hd hv (.inl ⟨by rw [hq]; rfl, .inr (.inl rfl)⟩) hm hio.1
      | networkClose | receiveComplete => exact hio.elim
    | read hpc | overflow hpc | arrive hpc | rearm hpc =>
      rw [hpc] at hio
      exact hio.elim
  | queued hd hv hq hm hh =>
    obtain ⟨hmq, rfl | rfl⟩ := hq.io hv.isOpen hs
    · exact .queued hd hv (.inl ⟨hmq, .inl rfl⟩) hm hh
    · exact .queued hd hv (.inr ⟨by rw [hmq], rfl⟩) hm hh
  | lookup hd hv hq hm hh =>
    obtain ⟨hmq, rfl | rfl⟩ := hq.io hv.isOpen hs
    · exact .lookup hd hv (.inl ⟨hmq, .inl rfl⟩) hm hh
    · exact .lookup hd hv (.inr ⟨by rw [hmq], rfl⟩) hm hh
  | read hm => cases hs <;> exact .read hm
  | terminate hm => cases hs <;> exact .terminate hm

variable {n : ℕ} {junk : ℕ → UInt8} {ok : Bool}

/-- The handler looks for a newline, finds none, and writes out of bounds. -/
theorem Cut.msg (h : Cut v.rcv) (hs : FileReceiver.MsgStep dbl n junk ok v v') :
    Cut v'.rcv ∨ .outOfBounds ∈ v'.rcv.log := by
  cases h with
  | coming _ _ hq _ hm =>
    obtain ⟨m, q, hmq, -⟩ := hs.of_idle hm
    simp [hq] at hmq
  | queued hd hv hq hm hh =>
    obtain ⟨q, hq', rfl⟩ := hq.take hm hs
    exact .inl (.lookup hd hv hq' rfl hh)
  | lookup hd hv hq hm hh =>
    cases hs with
    | lookup =>
      -- the piece is all there is to look at
      have hpos : v.rcv.tcp.lookup (lit "\n") 0 = -1 :=
        TCPClient.lookup_absent hv.usebuf (by rw [hh.bytercv]; exact hh.fits)
          (by rw [hh.content]; exact hd)
      exact .inl (.read (congrArg MsgPc.read hpos))
    | _ => simp_all
  | read hm =>
    cases hs with
    | @read pos hpc =>
      obtain rfl : pos = -1 := by simpa [hm] using hpc.symm
      exact .inl (.terminate rfl)
    | _ => simp_all
  | terminate hm =>
    cases hs with
    | @terminate pos hpc =>
      obtain rfl : pos = -1 := by simpa [hm] using hpc.symm
      exact .inr (by simp)
    | _ => simp_all

/-- The connection may fail meanwhile. -/
theorem Cut.fail (h : Cut r) (hr : r.receiveError = some r') : Cut r' := by
  obtain ⟨hidle, rfl⟩ := FileReceiver.receiveError_cases hr
  have hquiet : ∀ {ms}, Quiet r.io r.mq ms → Quiet (.post .networkClose) r.mq ms := fun hq => by
    rcases hq with ⟨hmq, -⟩ | ⟨-, hio⟩
    · exact .inl ⟨hmq, .inr (.inr rfl)⟩
    · simp [hidle] at hio
  cases h with
  | coming _ _ _ hio =>
    rw [hidle] at hio
    exact hio.elim
  | queued hd hv hq hm hh => exact .queued hd hv (hquiet hq) hm hh
  | lookup hd hv hq hm hh => exact .lookup hd hv (hquiet hq) hm hh
  | read hm => exact .read hm
  | terminate hm => exact .terminate hm

/-- A read that ends inside a line brings a piece without a newline. -/
theorem no_newline_of_cut {d : Bytes} (h : d <+: t.header) (hlt : d.length < t.header.length) :
    10 ∉ d := by
  rcases List.prefix_concat_iff.mp h with rfl | hline
  · simp [Transfer.header] at hlt
  · exact fun h => t.no_newline (hline.subset h)

/-- A read that ends inside a line arrives between two transfers. -/
theorem At.cut {d : Bytes} (h : At gap ts r c priv) (hs : r.Settled)
    (hfollow : arrived r.log ++ d <+: written ts (statuses r.log))
    (hin : (locate ts ((arrived r.log).length + d.length)).InLine)
    (hr : r.receive d = some r') : Cut r' := by
  obtain ⟨hidle, hd, hfits, rfl⟩ := FileReceiver.receive_cases hr
  have hland : Landed (r.tcp.land d) d d.length := ⟨rfl, hfits, PackBuf.write_take _ hfits⟩
  obtain ⟨-, ⟨past, todo, hts, hl, hst⟩ | ⟨past, t, todo, k, hts, hk, hl⟩⟩ := h.settled hs
  · rw [hl.bytes_eq, hl.statuses_eq, hts, written_rest,
      List.prefix_append_right_inj] at hfollow
    rw [hl.bytes_eq, hts] at hin
    obtain ⟨hv, hwait⟩ := hst (by simp [hidle])
    cases todo with
    | nil => exact absurd (List.prefix_nil.mp hfollow) hd
    | cons t todo =>
      have hle : d.length ≤ t.header.length := hfollow.length_le
      have hsize : d.length < t.size := by
        have := t.data_pos
        unfold Transfer.size
        omega
      rw [locate_inside past todo hsize] at hin
      exact .coming (no_newline_of_cut hfollow hin.2) ⟨hv.usebuf, hv.isOpen, hv.tcpptr_eq⟩
        hs.2.1 hland hs.2.2 hwait
  · -- inside the data no line begins
    rw [hl.bytes_eq, hl.statuses_eq, hts, written_ready, List.append_assoc,
      List.prefix_append_right_inj] at hfollow
    obtain ⟨hlen, -, htake⟩ := next_chunk hfollow hk
    have hbytes : (arrived r.log).length + d.length =
        (stream past ++ t.header ++ t.data.take (k + d.length)).length := by
      rw [hl.bytes_eq, ← htake, ← List.append_assoc]
      exact List.length_append.symm
    rw [hbytes, hts] at hin
    rcases Nat.lt_or_eq_of_le hlen with hlt | heq
    · rw [locate_loading _ _ hlt] at hin
      exact absurd hin.2 (Nat.not_lt.mpr (Nat.le_add_right ..))
    · rw [heq, List.take_length, locate_full] at hin
      cases todo with
      | nil => exact hin.elim
      | cons u todo => exact absurd hin.1 (Nat.lt_irrefl 0)

/-! ### Histories only grow -/

theorem FileReceiver.IoStep.log_extends (hs : FileReceiver.IoStep v v') :
    v.rcv.log <+: v'.rcv.log := by
  cases hs with
  | overflow | arrive | post => exact List.prefix_append ..
  | _ => exact List.prefix_refl _

theorem FileReceiver.MsgStep.log_extends (hs : FileReceiver.MsgStep dbl n junk ok v v') :
    v.rcv.log <+: v'.rcv.log := by
  cases hs with
  | @terminate pos =>
    dsimp only
    split
    · exact List.prefix_append ..
    · exact List.prefix_refl _
  | replace | fill | equal | sent => exact List.prefix_append ..
  | _ => exact List.prefix_refl _

namespace TransferAgent

variable {ι : Type} [DecidableEq ι] [Fintype ι] {i : ι} {s s' : TransferAgent ι}
variable {e : AgentEvent ι}

theorem log_extends (hs : s.step dbl e = some s') (i : ι) :
    (s.filercv i).log <+: (s'.filercv i).log := by
  by_cases he : e.receiver? = some i
  · obtain ⟨r, hr, hstep⟩ := step_rcv hs he
    rw [hr]
    cases hstep with
    | recv hr =>
      rw [(FileReceiver.receive_cases hr).2.2.2]
      exact List.prefix_append ..
    | fail hr => rw [(FileReceiver.receiveError_cases hr).2]
    | io hv | msg hv => exact hv.log_extends
    | handOver | newFile => exact List.prefix_append ..
  · rw [filercv_of_ne hs he]

/-! ### Runs -/

/-- A read arrives when the receiver has handled the one before. -/
def InTurn (i : ι) (s : TransferAgent ι) : AgentEvent ι → Prop
  | .recv j _ => j = i → (s.filercv i).Settled
  | _ => True

instance InTurn.decidable (i : ι) (s : TransferAgent ι) (e : AgentEvent ι) :
    Decidable (InTurn i s e) :=
  match e with
  | .recv j _ => inferInstanceAs (Decidable (j = i → (s.filercv i).Settled))
  | .fail _ | .io _ | .msg .. | .monitor _ | .spurious | .config _ => isTrue trivial

/-- A write out of bounds has happened, or is about to. -/
def Astray (i : ι) (s : TransferAgent ι) : Prop :=
  Cut (s.filercv i) ∨ .outOfBounds ∈ (s.filercv i).log

theorem Astray.step (h : Astray i s) (hturn : InTurn i s e) (hs : s.step dbl e = some s') :
    Astray i s' := by
  rcases h with h | h
  · by_cases he : e.receiver? = some i
    · obtain ⟨r, hr, hstep⟩ := step_rcv hs he
      rw [Astray, hr]
      cases hstep with
      | recv => exact absurd (hturn rfl) h.not_settled
      | fail hr => exact .inl (h.fail hr)
      | io hv => exact .inl (Cut.io (v := s.view i) h hv)
      | msg hv => exact Cut.msg (v := s.view i) h hv
      | handOver hpc | newFile hpc =>
        cases h with
        | coming _ _ _ _ hm | queued _ _ _ hm | lookup _ _ _ hm | read hm | terminate hm =>
          simp [hpc] at hm
    · exact .inl (by rwa [filercv_of_ne hs he])
  · exact .inr ((log_extends hs i).subset h)

/-- The first read that ends inside a line leads astray. -/
theorem Stands.cut (h : Stands False ts i s) (hfollow : Follows ts i s e)
    (hturn : InTurn i s e) (hbad : ¬ WholeLines ts i s e) (hs : s.step dbl e = some s') :
    Astray i s' := by
  cases (step_cases hs).2 with
  | @recv j d r hr =>
    simp only [WholeLines, Classical.not_imp, not_not] at hbad
    obtain ⟨rfl, hin⟩ := hbad
    refine .inl ?_
    dsimp only
    rw [Function.update_self]
    exact h.place.cut (hturn rfl) (hfollow rfl) hin hr
  | fail | io | msg | handOver | newFile | takeFirst | saveThrew | save | monitor | spurious
  | config =>
    exact absurd trivial hbad

/-- In turn, lines arrive in `WAITING`. -/
theorem Stands.inWaiting (h : Stands False ts i s) (hturn : InTurn i s e)
    (hs : s.step dbl e = some s') : InWaiting ts i s e := by
  cases (step_cases hs).2 with
  | @recv j d r hr =>
    intro hj hline
    subst hj
    exact h.place.waiting (hturn rfl) (FileReceiver.receive_cases hr).1 hline
  | fail | io | msg | handOver | newFile | takeFirst | saveThrew | save | monitor | spurious
  | config =>
    trivial

/-- A run with reads in turn: no line is cut and the connection stands at one of
its places, or one is and the receiver is astray. -/
theorem whole_or_astray {bufs : ι → PackBuf × PackBuf} {heap : Heap} {env : SaveEnv}
    {es : List (AgentEvent ι)}
    (hclient : Lts.RunAll (step dbl) (fun s e => Follows ts i s e ∧ InTurn i s e)
      (init bufs heap env) es)
    (hrun : Lts.run (step dbl) (init bufs heap env) es = some s) :
    (Lts.RunAll (step dbl) (WholeLines ts i) (init bufs heap env) es ∧ Stands False ts i s) ∨
      (¬ Lts.RunAll (step dbl) (WholeLines ts i) (init bufs heap env) es ∧ Astray i s) := by
  refine Lts.runAll_or_of (fun s e s' h henv hok hs => ?_) (fun s e s' h henv hbad hs => ?_)
    (fun s e s' h henv hs => ?_) (.init False ts i bufs heap env) hclient hrun
  · exact h.step henv.1 hok (h.noGap e) (.inr (h.inWaiting henv.2 hs)) hs
  · exact h.cut henv.1 henv.2 hbad hs
  · exact h.step henv.2 hs

end TransferAgent

/-! ### Two ways to cut a stream -/

/-- The receiver has settled, and all of the stream has arrived unless the server
has closed the connection before. -/
def FileReceiver.Received (bytes : Bytes) (r : FileReceiver) : Prop :=
  r.Settled ∧ arrived r.log <+: bytes ∧ (r.tcp.isOpen = true → arrived r.log = bytes)

instance (bytes : Bytes) (r : FileReceiver) : Decidable (r.Received bytes) := by
  unfold FileReceiver.Received
  infer_instance

namespace TransferAgent

variable {ι : Type} {i : ι} {s : TransferAgent ι}

/-- What a stream that arrives in whole lines leads to. -/
theorem Stands.outcome {bytes : Bytes} (h : Stands False ts i s)
    (hr : (s.filercv i).Received bytes) :
    files (s.filercv i).log = (locate ts bytes.length).owedFiles ∧
      statuses (s.filercv i).log = (locate ts bytes.length).owedStatuses := by
  obtain ⟨hsettled, -, hall⟩ := hr
  have harr := hall (h.place.settled hsettled).1
  rw [h.place.reassembled.settled hsettled, h.place.statuses_eq hsettled, harr]
  exact ⟨rfl, rfl⟩

variable [DecidableEq ι] [Fintype ι]

/-- **Segmentation.**  Let one stream be received in two ways, with each read
handled before the next one arrives, up to a write out of bounds if there is
one.  Neither way writes out of bounds, and both lead to the same files and to
the same statuses, if and only if no read of either ends inside a line. -/
theorem segmentation_iff {bytes : Bytes} {bufs₁ bufs₂ : ι → PackBuf × PackBuf}
    {heap₁ heap₂ : Heap} {env₁ env₂ : SaveEnv} {es₁ es₂ : List (AgentEvent ι)}
    {s₁ s₂ : TransferAgent ι}
    (hclient₁ : Lts.RunAll (step dbl) (fun s e => Follows ts i s e ∧ InTurn i s e)
      (init bufs₁ heap₁ env₁) es₁)
    (hclient₂ : Lts.RunAll (step dbl) (fun s e => Follows ts i s e ∧ InTurn i s e)
      (init bufs₂ heap₂ env₂) es₂)
    (hrun₁ : Lts.run (step dbl) (init bufs₁ heap₁ env₁) es₁ = some s₁)
    (hrun₂ : Lts.run (step dbl) (init bufs₂ heap₂ env₂) es₂ = some s₂)
    (hrcv₁ : .outOfBounds ∉ (s₁.filercv i).log → (s₁.filercv i).Received bytes)
    (hrcv₂ : .outOfBounds ∉ (s₂.filercv i).log → (s₂.filercv i).Received bytes) :
    (.outOfBounds ∉ (s₁.filercv i).log ∧ .outOfBounds ∉ (s₂.filercv i).log ∧
        files (s₁.filercv i).log = files (s₂.filercv i).log ∧
        statuses (s₁.filercv i).log = statuses (s₂.filercv i).log) ↔
      Lts.RunAll (step dbl) (WholeLines ts i) (init bufs₁ heap₁ env₁) es₁ ∧
        Lts.RunAll (step dbl) (WholeLines ts i) (init bufs₂ heap₂ env₂) es₂ := by
  -- a receiver that is astray does not get through the stream in bounds
  have hastray : ∀ {s : TransferAgent ι}, Astray i s → .outOfBounds ∉ (s.filercv i).log →
      ¬ (s.filercv i).Received bytes := by
    rintro s (hcut | hmem) hclean hrcv
    · exact hcut.not_settled hrcv.1
    · exact hclean hmem
  constructor
  · rintro ⟨hclean₁, hclean₂, -⟩
    refine ⟨?_, ?_⟩
    · rcases whole_or_astray hclient₁ hrun₁ with ⟨hwhole, -⟩ | ⟨-, hst⟩
      · exact hwhole
      · exact absurd (hrcv₁ hclean₁) (hastray hst hclean₁)
    · rcases whole_or_astray hclient₂ hrun₂ with ⟨hwhole, -⟩ | ⟨-, hst⟩
      · exact hwhole
      · exact absurd (hrcv₂ hclean₂) (hastray hst hclean₂)
  · rintro ⟨hwhole₁, hwhole₂⟩
    have h₁ := ((whole_or_astray hclient₁ hrun₁).resolve_right fun h => h.1 hwhole₁).2
    have h₂ := ((whole_or_astray hclient₂ hrun₂).resolve_right fun h => h.1 hwhole₂).2
    obtain ⟨hfiles₁, hsts₁⟩ := h₁.outcome (hrcv₁ h₁.place.clean)
    obtain ⟨hfiles₂, hsts₂⟩ := h₂.outcome (hrcv₂ h₂.place.clean)
    exact ⟨h₁.place.clean, h₂.place.clean, hfiles₁.trans hfiles₂.symm, hsts₁.trans hsts₂.symm⟩

/-- The file `a`, its data in one read. -/
def inOne : List (AgentEvent Unit) :=
  lineSchedule transferA.header ++ dataSchedule [7, 8] ++ msgSteps 7

/-- The file `a`, its data in two reads. -/
def inTwo : List (AgentEvent Unit) :=
  lineSchedule transferA.header ++ .recv () [7] :: ioSteps 5 ++ dataSchedule [8] ++ msgSteps 7

theorem segmentation_data : ∃ s₁ s₂,
    Lts.run (step unitLib) single inOne = some s₁ ∧
      Lts.run (step unitLib) single inTwo = some s₂ ∧
      .outOfBounds ∉ (s₁.filercv ()).log ∧ .outOfBounds ∉ (s₂.filercv ()).log ∧
      files (s₁.filercv ()).log = files (s₂.filercv ()).log ∧
      statuses (s₁.filercv ()).log = statuses (s₂.filercv ()).log := by
  have hclient₁ : Lts.RunAll (step unitLib)
      (fun s e => Follows [transferA] () s e ∧ InTurn () s e) single inOne := by
    decide +kernel
  have hclient₂ : Lts.RunAll (step unitLib)
      (fun s e => Follows [transferA] () s e ∧ InTurn () s e) single inTwo := by
    decide +kernel
  have heval₁ : (Lts.run (step unitLib) single inOne).map (fun s =>
      decide ((s.filercv ()).Received (stream [transferA]))) = some true := by
    decide +kernel
  have heval₂ : (Lts.run (step unitLib) single inTwo).map (fun s =>
      decide ((s.filercv ()).Received (stream [transferA]))) = some true := by
    decide +kernel
  obtain ⟨s₁, hrun₁, hs₁⟩ := Option.map_eq_some_iff.mp heval₁
  obtain ⟨s₂, hrun₂, hs₂⟩ := Option.map_eq_some_iff.mp heval₂
  refine ⟨s₁, s₂, hrun₁, hrun₂, (segmentation_iff hclient₁ hclient₂ hrun₁ hrun₂
    (fun _ => of_decide_eq_true hs₁) (fun _ => of_decide_eq_true hs₂)).mpr ⟨?_, ?_⟩⟩
  · decide +kernel
  · decide +kernel

/-- The first ten bytes of the line arrive alone.  The handler finds no newline,
parses an empty buffer, and closes the connection. -/
def inPieces : List (AgentEvent Unit) :=
  .recv () (transferA.header.take 10) :: ioSteps 5 ++ msgSteps 6

/-- The same stream in two ways: a file is received, or none. -/
theorem not_segmentation :
    ¬ ∀ (ts : List (Transfer unitLib)) (bytes : Bytes) (es₁ es₂ : List (AgentEvent Unit))
      (s₁ s₂ : TransferAgent Unit),
      Lts.RunAll (step unitLib) (fun s e => Follows ts () s e ∧ InTurn () s e) single es₁ →
      Lts.RunAll (step unitLib) (fun s e => Follows ts () s e ∧ InTurn () s e) single es₂ →
      Lts.run (step unitLib) single es₁ = some s₁ →
      Lts.run (step unitLib) single es₂ = some s₂ →
      (s₁.filercv ()).Received bytes → (s₂.filercv ()).Received bytes →
      files (s₁.filercv ()).log = files (s₂.filercv ()).log ∧
        statuses (s₁.filercv ()).log = statuses (s₂.filercv ()).log := by
  intro hall
  have hclient₁ : Lts.RunAll (step unitLib)
      (fun s e => Follows [transferA] () s e ∧ InTurn () s e) single inOne := by
    decide +kernel
  have hclient₂ : Lts.RunAll (step unitLib)
      (fun s e => Follows [transferA] () s e ∧ InTurn () s e) single inPieces := by
    decide +kernel
  have heval₁ : (Lts.run (step unitLib) single inOne).map (fun s =>
      (decide ((s.filercv ()).Received (stream [transferA])), statuses (s.filercv ()).log)) =
        some (true, [.ready, .complete]) := by
    decide +kernel
  have heval₂ : (Lts.run (step unitLib) single inPieces).map (fun s =>
      (decide ((s.filercv ()).Received (stream [transferA])), statuses (s.filercv ()).log)) =
        some (true, []) := by
    decide +kernel
  obtain ⟨s₁, hrun₁, hs₁⟩ := Option.map_eq_some_iff.mp heval₁
  obtain ⟨s₂, hrun₂, hs₂⟩ := Option.map_eq_some_iff.mp heval₂
  obtain ⟨hrcv₁, hsts₁⟩ := Prod.mk.inj hs₁
  obtain ⟨hrcv₂, hsts₂⟩ := Prod.mk.inj hs₂
  have hsame := (hall _ _ _ _ s₁ s₂ hclient₁ hclient₂ hrun₁ hrun₂ (of_decide_eq_true hrcv₁)
    (of_decide_eq_true hrcv₂)).2
  rw [hsts₁, hsts₂] at hsame
  cases hsame

end TransferAgent

end FtServer
