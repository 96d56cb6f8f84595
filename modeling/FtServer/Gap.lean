/-
FtServer/Gap.lean

Are all lines posted?  `on_receive_complete` sends `COMPLETE` first and assigns
`WAITING` to `state_` afterwards, without a lock.  The client may write its next
line as soon as it has seen `COMPLETE`; when the I/O thread looks at `state_` for
that line before the assignment, it finds neither `READY` nor `WAITING`, and the
line is gone.

`linesPosted_iff` says that this is the only way to lose a line: in a run with a
client that follows the protocol, every line is posted if and only if the I/O
thread never looks at `state_` inside the gap.
-/
import FtServer.ConnectionStep

namespace FtServer

variable {δ : Type} {dbl : DoubleLib δ} {ts : List (Transfer dbl)}

/-! ### What is promised -/

/-- Once the I/O thread is done with a read, a message has been posted for each
line that has arrived. -/
def FileReceiver.LinesPosted (ts : List (Transfer dbl)) (r : FileReceiver) : Prop :=
  r.io.busy = false →
    r.log.count (.posted .networkReceive) = (locate ts (arrived r.log).length).lines

instance (ts : List (Transfer dbl)) (r : FileReceiver) : Decidable (r.LinesPosted ts) := by
  unfold FileReceiver.LinesPosted
  infer_instance

namespace Position

variable {past todo : List (Transfer dbl)} {t : Transfer dbl} {n : ℕ}

theorem lines_start : (⟨past, todo, 0⟩ : Position dbl).lines = past.length := by
  rw [lines, if_neg not_lineIn_start, Nat.add_zero]

theorem lines_inside (h : t.header.length ≤ n) :
    (⟨past, t :: todo, n⟩ : Position dbl).lines = past.length + 1 := by
  rw [lines, if_pos (lineIn_of_le h)]

end Position

/-! ### At the places of a connection -/

variable {r : FileReceiver} {c : CallPc Addr} {priv : FileInfo → Prop} {ms : List Msg}
variable {gap : Prop}

theorem Resting.linesPosted (h : Resting ts r c priv ms) :
    r.log.count (.posted .networkReceive) = (locate ts (arrived r.log).length).lines := by
  cases h with
  | between hts hl =>
    rw [hl.lines_eq, hl.bytes_eq, hts, locate_rest, Position.lines_start]
  | queued hts hl | handling hts hl =>
    rw [hl.lines_eq, hl.bytes_eq, hts, locate_line, Position.lines_inside (Nat.le_refl _)]
  | loading hts hk hl =>
    rw [hl.lines_eq, hl.bytes_eq, hts, locate_loading _ _ hk,
      Position.lines_inside (Nat.le_add_right ..)]
  | completed hts hl | checking hts hl | handed hts hl =>
    rw [hl.lines_eq, hl.bytes_eq, hts, locate_full, Position.lines_start]
    simp

theorem At.linesPosted (h : At gap ts r c priv) : r.LinesPosted ts := by
  intro hbusy
  cases h with
  | quiet _ _ h => exact h.linesPosted
  | coming _ _ _ _ hio => simp [hio.busy] at hbusy
  | storing _ _ _ _ _ _ _ hio => simp [hio.busy] at hbusy
  | full _ _ _ _ hio => simp [hio, IoPc.busy] at hbusy
  | closedBetween hts _ _ _ hl =>
    rw [hl.lines_eq, hl.bytes_eq, hts, locate_rest, Position.lines_start]
  | closedLoading hts _ _ _ hk hl =>
    rw [hl.lines_eq, hl.bytes_eq, hts, locate_loading _ _ hk,
      Position.lines_inside (Nat.le_add_right ..)]

/-- A look into the gap loses the line. -/
theorem At.lost {v v' : RcvView} (h : At gap ts v.rcv c priv) (hio : v.rcv.io = .testWaiting)
    (hmsg : v.rcv.msg = .toWaiting) (hs : FileReceiver.IoStep v v') :
    ¬ v'.rcv.LinesPosted ts := by
  cases h with
  | coming hts _ _ hl _ hm =>
    have hst : v.rcv.state = .complete := by
      rcases hm with ⟨hm, -⟩ | ⟨-, -, hst⟩
      · simp [hmsg] at hm
      · exact hst
    cases hs with
    | ignored =>
      -- the thread is done with the read, and nothing has been posted for its line
      intro hposted
      have hcount := hposted rfl
      dsimp only at hcount
      rw [hl.lines_eq, hl.bytes_eq, hts, locate_line,
        Position.lines_inside (Nat.le_refl _)] at hcount
      omega
    | isWaiting _ hw => simp [hst] at hw
    | _ => simp_all
  | quiet _ hq => rcases hq with ⟨-, hq | hq | hq⟩ | ⟨-, hq⟩ <;> simp [hio] at hq
  | storing _ _ _ _ _ _ _ _ hm | full _ _ _ _ _ hm | closedBetween _ _ _ hm
  | closedLoading _ _ _ hm => simp [hmsg] at hm

/-! ### Runs -/

namespace TransferAgent

variable {ι : Type} [DecidableEq ι] [Fintype ι] {i : ι} {s : TransferAgent ι}

/-- **The gap is the only place where a line is lost.**  In a run with a client
that follows the protocol, its lines arriving whole, every line is posted in
every state if and only if the I/O thread never compares `state_` with `WAITING`
while the message thread stands between the write of `COMPLETE` and the
assignment of `WAITING`. -/
theorem linesPosted_iff {bufs : ι → PackBuf × PackBuf} {heap : Heap} {env : SaveEnv}
    {es : List (AgentEvent ι)}
    (hclient : Lts.RunAll (step dbl) (fun s e => Follows ts i s e ∧ WholeLines ts i s e)
      (init bufs heap env) es)
    (hrun : Lts.run (step dbl) (init bufs heap env) es = some s) :
    Lts.Always (step dbl) (fun s => (s.filercv i).LinesPosted ts) (init bufs heap env) es ↔
      Lts.RunAll (step dbl) (NoGap i) (init bufs heap env) es := by
  refine Lts.always_iff_runAll_of (I := Stands True ts i) (fun s e s' h henv hok hs => ?_)
    (fun s h => h.place.linesPosted) (fun s e s' h henv hbad hs => ?_)
    (.init True ts i bufs heap env) hclient hrun
  · exact h.step henv.1 henv.2 hok (.inl trivial) hs
  · cases (step_cases hs).2 with
    | @io j v hv =>
      simp only [NoGap, Classical.not_imp, not_not] at hbad
      obtain ⟨rfl, hio, hmsg⟩ := hbad
      have hlost := At.lost (v := s.view j) h.place hio hmsg hv
      rw [commit_self]
      exact hlost
    | recv | fail | msg | handOver | newFile | takeFirst | saveThrew | save | monitor | spurious
    | config =>
      exact absurd trivial hbad

/-- The file `a` is received, up to the write of `COMPLETE`. -/
def toGap : List (AgentEvent Unit) :=
  lineSchedule transferA.header ++ dataSchedule transferA.data ++ msgSteps 6

/-- The second line arrives after the gap. -/
theorem linesPosted_after :
    ∃ s, Lts.run (step unitLib) single
      (toGap ++ msgSteps 1 ++ .recv () transferB.header :: ioSteps 5) = some s ∧
        (s.filercv ()).log.count (.posted .networkReceive) = 2 ∧
        Lts.Always (step unitLib) (fun s => (s.filercv ()).LinesPosted [transferA, transferB])
          single (toGap ++ msgSteps 1 ++ .recv () transferB.header :: ioSteps 5) := by
  have hclient : Lts.RunAll (step unitLib) (fun s e =>
      Follows [transferA, transferB] () s e ∧ WholeLines [transferA, transferB] () s e)
      single (toGap ++ msgSteps 1 ++ .recv () transferB.header :: ioSteps 5) := by
    decide +kernel
  have hok : Lts.RunAll (step unitLib) (NoGap ()) single
      (toGap ++ msgSteps 1 ++ .recv () transferB.header :: ioSteps 5) := by
    decide +kernel
  have heval : (Lts.run (step unitLib) single
      (toGap ++ msgSteps 1 ++ .recv () transferB.header :: ioSteps 5)).map
        (fun s => (s.filercv ()).log.count (.posted .networkReceive)) = some 2 := by
    decide +kernel
  obtain ⟨s, hrun, hs⟩ := Option.map_eq_some_iff.mp heval
  exact ⟨s, hrun, hs, (linesPosted_iff hclient hrun).mpr hok⟩

/-- The second line arrives in the gap, and is lost. -/
theorem not_linesPosted :
    ¬ ∀ (ts : List (Transfer unitLib)) (es : List (AgentEvent Unit)) (s : TransferAgent Unit),
      Lts.RunAll (step unitLib) (fun s e => Follows ts () s e ∧ WholeLines ts () s e) single es →
      Lts.run (step unitLib) single es = some s → (s.filercv ()).LinesPosted ts := by
  intro hall
  have hclient : Lts.RunAll (step unitLib) (fun s e =>
      Follows [transferA, transferB] () s e ∧ WholeLines [transferA, transferB] () s e)
      single (toGap ++ .recv () transferB.header :: ioSteps 4) := by
    decide +kernel
  have heval : (Lts.run (step unitLib) single
      (toGap ++ .recv () transferB.header :: ioSteps 4)).map (fun s =>
        decide ((s.filercv ()).LinesPosted [transferA, transferB])) = some false := by
    decide +kernel
  obtain ⟨s, hrun, hs⟩ := Option.map_eq_some_iff.mp heval
  exact of_decide_eq_false hs (hall _ _ s hclient hrun)

end TransferAgent

end FtServer
