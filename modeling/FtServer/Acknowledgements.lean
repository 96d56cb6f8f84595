/-
FtServer/Acknowledgements.lean

The server and its connection to a client.  `notify_status` encodes the status as a line
and writes it with one `write_some`, which may take a part of it only; the client reads
lines.

`acknowledged_iff`: the lines that the client has read say, one for one and in order, the
statuses that it has been told, exactly if each of its lines was taken whole.  A line that
was not stays short for good: the rest is not sent later, and what comes next is glued to
its front.
-/
import FtServer.Announcements
import FtServer.Client

namespace FtServer

/-! ### Lines of a stream -/

/-- A stream has as many lines as newlines. -/
theorem readLines_length (wire : Bytes) : (readLines wire).length = wire.count 10 := by
  induction hn : wire.length using Nat.strongRecOn generalizing wire with
  | ind n ih =>
    by_cases hmem : (10 : UInt8) ∈ wire
    · obtain ⟨front, rest, rfl, hfront⟩ := List.eq_append_cons_of_mem hmem
      have hrest := ih rest.length (by simp [← hn]; omega) rest rfl
      rw [readLines_cons hfront, List.length_cons, hrest, List.count_append, List.count_cons_self,
        List.count_eq_zero_of_not_mem hfront, Nat.zero_add]
    · rw [readLines_of_notMem hmem, List.count_eq_zero_of_not_mem hmem]
      rfl

/-- Of a line less than the whole has no newline. -/
theorem count_take_line {text : Bytes} (h : 10 ∉ text) (n : ℕ) :
    ((text ++ [10]).take n).count 10 = if (text ++ [10]).length ≤ n then 1 else 0 := by
  split
  · rename_i hn
    rw [List.take_of_length_le hn, List.count_append, List.count_eq_zero_of_not_mem h]
    rfl
  · rename_i hn
    have hle : n ≤ text.length := by
      rw [List.length_append, List.length_singleton] at hn
      omega
    rw [List.take_append_of_le_length hle]
    exact List.count_eq_zero_of_not_mem fun hmem => h (List.take_subset _ _ hmem)

/-! ### The line of a status -/

section

variable {δ : Type} (dbl : DoubleLib δ)

theorem writable_filestat (status : RcvState) :
    (Apbase.filestat { type := lit "filestat", status := status.toInt32 }).Writable
      (plainFmt dbl) where
  numeric := (by decide : MsgType.filestat ∈ numericTypes)
  type := rfl
  ids := (by decide : FieldText [] ∧ FieldText [] ∧ FieldText [])
  texts := by simp [Apbase.written]
  doubles := by simp [Apbase.written]

/-- The line says that the status is this one. -/
def Tells (status : RcvState) (text : Bytes) : Prop :=
  ∃ now, resolve dbl text =
    .ok (some (.filestat { type := lit "filestat", utc := now, status := status.toInt32 }))

/-- **The line of a status is read back as this status.** -/
theorem tells_statusLine {now : Bytes} (hnow : FieldText now) (status : RcvState) :
    ∃ text, TCPSender.statusLine now status = some (text ++ [10]) ∧ 10 ∉ text ∧
      Tells dbl status text := by
  have hkind : ∀ c ∈ (schema dbl .filestat).columns, c.kind = .text ∨ c.kind = .int := by
    show ∀ c ∈ filestatColumns, _
    simp [filestatColumns, Column.int]
  obtain ⟨text, hline, hnewline, hread⟩ :=
    resolve_plainLine dbl hnow (t := .filestat)
      (p := { type := lit "filestat", status := status.toInt32 }) (writable_filestat dbl status)
      rfl hkind
  refine ⟨text, ?_, hnewline, now, hread⟩
  show some (compactFields ..).2 = _
  rw [compactFields_eq, ← hline]
  rfl

end

/-! ### The server and the connection -/

/-- The server, and the sending side of its connection to a client. -/
structure ClientLink (ι : Type) where
  agent : TransferAgent ι
  tcpptr : TCPSender

/-- A step of the server, at the local time `now`, and how much the socket takes of what
is written in it. -/
structure ClientEvent (ι : Type) where
  agent : AgentEvent ι
  now : Bytes
  taken : ℕ

namespace ClientLink

/-- The server with no file received, and a connection without buffers. -/
def init {ι : Type} [DecidableEq ι] (bufs : ι → PackBuf × PackBuf) (heap : Heap) (env : SaveEnv)
    (mem : Bytes) (hmem : mem.length = ringCapacity) : ClientLink ι where
  agent := .init bufs heap env
  tcpptr := .init false mem hmem

/-- The end of `notify_status`. -/
def notify (now : Bytes) (taken : ℕ) (c : TCPSender) (status : RcvState) : TCPSender :=
  match TCPSender.statusLine now status with
  | some line => (c.write line taken).2
  | none => c

/-- The statuses told in a step. -/
def told {ι : Type} (i : ι) (s s' : TransferAgent ι) : List RcvState :=
  statuses ((s'.filercv i).log.drop (s.filercv i).log.length)

section

variable {ι : Type} [DecidableEq ι] [Fintype ι] {δ : Type} (i : ι) (dbl : DoubleLib δ)

/-- One step.  What it tells client `i` is written in it. -/
def step (x : ClientLink ι) (e : ClientEvent ι) : Option (ClientLink ι) :=
  (x.agent.step dbl e.agent).map fun s =>
    ⟨s, (told i x.agent s).foldl (notify e.now e.taken) x.tcpptr⟩

/-- The step condition: what is written is taken whole. -/
def Whole (x : ClientLink ι) (e : ClientEvent ι) : Prop :=
  ∀ s ∈ x.agent.step dbl e.agent, ∀ status ∈ told i x.agent s,
    ∀ line ∈ TCPSender.statusLine e.now status, line.length ≤ e.taken

end

/-! ### What is told -/

section

variable {ι : Type} [DecidableEq ι] [Fintype ι] {δ : Type} {i : ι} {dbl : DoubleLib δ}

theorem statuses_append (log os : List Obs) : statuses (log ++ os) = statuses log ++ statuses os :=
  List.filterMap_append ..

/-- An access to the shared state sends one status at most. -/
def Short (log log' : List Obs) : Prop :=
  ∃ os, log' = log ++ os ∧ (statuses os = [] ∨ ∃ status, statuses os = [status])

theorem Short.refl (log : List Obs) : Short log log := ⟨[], by simp, .inl rfl⟩

omit [DecidableEq ι] [Fintype ι] in
theorem short_io {v v' : RcvView} (h : FileReceiver.IoStep v v') : Short v.rcv.log v'.rcv.log := by
  cases h with
  | overflow | arrive | post => exact ⟨[_], rfl, .inl rfl⟩
  | _ => exact .refl _

omit [DecidableEq ι] [Fintype ι] in
theorem short_msg {n : ℕ} {junk : ℕ → UInt8} {ok : Bool} {v v' : RcvView}
    (h : FileReceiver.MsgStep dbl n junk ok v v') : Short v.rcv.log v'.rcv.log := by
  cases h with
  | @terminate pos =>
    by_cases hpos : pos < 0
    · exact ⟨[.outOfBounds], if_pos hpos, .inl rfl⟩
    · exact ⟨[], (if_neg hpos).trans (List.append_nil _).symm, .inl rfl⟩
  | replace | fill | equal => exact ⟨[_], rfl, .inl rfl⟩
  | @sent status => exact ⟨[.sent status], rfl, .inr ⟨status, rfl⟩⟩
  | _ => exact .refl _

theorem short_step {s s' : TransferAgent ι} {e : AgentEvent ι} (hs : s.step dbl e = some s') :
    Short (s.filercv i).log (s'.filercv i).log := by
  by_cases he : e.receiver? = some i
  · obtain ⟨r, hnext, hr⟩ := TransferAgent.step_rcv hs he
    rw [hnext]
    cases hr with
    | recv hr =>
      obtain ⟨-, -, -, rfl⟩ := FileReceiver.receive_cases hr
      exact ⟨[.arrived _], rfl, .inl rfl⟩
    | fail hr =>
      obtain ⟨-, rfl⟩ := FileReceiver.receiveError_cases hr
      exact .refl _
    | io hv => exact short_io hv
    | msg hv => exact short_msg hv
    | handOver hpc hp => exact ⟨[.handed _ _], rfl, .inl rfl⟩
    | newFile hpc hw =>
      refine ⟨TransferAgent.newFileLog s.fw i, rfl, .inl ?_⟩
      unfold TransferAgent.newFileLog
      split <;> rfl
  · rw [TransferAgent.filercv_of_ne hs he]
    exact .refl _

/-- The statuses told so far, and at most one more. -/
theorem told_cases {s s' : TransferAgent ι} {e : AgentEvent ι} (hs : s.step dbl e = some s') :
    statuses (s'.filercv i).log = statuses (s.filercv i).log ++ told i s s' ∧
      (told i s s' = [] ∨ ∃ status, told i s s' = [status]) := by
  obtain ⟨os, hlog, hos⟩ := short_step (i := i) hs
  have htold : told i s s' = statuses os := by rw [told, hlog, List.drop_left]
  rw [htold, hlog, statuses_append]
  exact ⟨rfl, hos⟩

/-! ### What is read -/

variable (i dbl) in
/-- What the client has been sent says what it has been told. -/
structure Acknowledged (x : ClientLink ι) : Prop where
  unbuffered : x.tcpptr.usebuf = false
  sent : ∃ texts, List.Forall₂ (Tells dbl) (statuses (x.agent.filercv i).log) texts ∧
    (∀ text ∈ texts, 10 ∉ text) ∧ x.tcpptr.wire = texts.flatMap (· ++ [10])

variable (i) in
/-- A line is missing. -/
structure Missing (x : ClientLink ι) : Prop where
  unbuffered : x.tcpptr.usebuf = false
  lines : x.tcpptr.wire.count 10 < (statuses (x.agent.filercv i).log).length

omit [DecidableEq ι] [Fintype ι] in
/-- The client has read what it has been told. -/
theorem Acknowledged.read {x : ClientLink ι} (h : Acknowledged i dbl x) :
    List.Forall₂ (Tells dbl) (statuses (x.agent.filercv i).log) (readLines x.tcpptr.wire) := by
  obtain ⟨texts, htells, hnewline, hwire⟩ := h.sent
  have hstream : x.tcpptr.wire ++ [] = texts.flatMap (· ++ [10]) := by rw [List.append_nil, hwire]
  obtain ⟨k, hk, hall⟩ := exists_readLines hnewline hstream
  rw [hk, List.take_of_length_le (hall rfl)]
  exact htells

omit [DecidableEq ι] [Fintype ι] in
theorem Missing.not_read {x : ClientLink ι} (h : Missing i x) :
    ¬ List.Forall₂ (Tells dbl) (statuses (x.agent.filercv i).log)
      (readLines x.tcpptr.wire) := by
  intro hread
  have hlines := h.lines
  rw [hread.length_eq, readLines_length] at hlines
  exact Nat.lt_irrefl _ hlines

/-- What `notify_status` does to the connection. -/
theorem notify_cases {c : TCPSender} {now : Bytes} (hu : c.usebuf = false) (hnow : FieldText now)
    (taken : ℕ) (status : RcvState) :
    ∃ text, TCPSender.statusLine now status = some (text ++ [10]) ∧ 10 ∉ text ∧
      Tells dbl status text ∧
      notify now taken c status = { c with wire := c.wire ++ (text ++ [10]).take taken } := by
  obtain ⟨text, hline, hnewline, htells⟩ := tells_statusLine dbl hnow status
  refine ⟨text, hline, hnewline, htells, ?_⟩
  rw [notify, hline]
  exact TCPSender.write_unbuffered hu _ _

variable (i dbl) in
/-- A step that tells the client nothing, or one status whose line is `text`. -/
inductive Tell (x : ClientLink ι) (e : ClientEvent ι) (x' : ClientLink ι) : Prop
  | nothing (hlog : statuses (x'.agent.filercv i).log = statuses (x.agent.filercv i).log)
      (hsame : x'.tcpptr = x.tcpptr) (hwhole : Whole i dbl x e)
  | status (status : RcvState) (text : Bytes)
      (hlog : statuses (x'.agent.filercv i).log = statuses (x.agent.filercv i).log ++ [status])
      (hnewline : 10 ∉ text) (htells : Tells dbl status text)
      (hwire : x'.tcpptr =
        { x.tcpptr with wire := x.tcpptr.wire ++ (text ++ [10]).take e.taken })
      (hwhole : Whole i dbl x e ↔ (text ++ [10]).length ≤ e.taken)

theorem tell_of_step {x x' : ClientLink ι} {e : ClientEvent ι} (hu : x.tcpptr.usebuf = false)
    (hnow : FieldText e.now) (hs : step i dbl x e = some x') : Tell i dbl x e x' := by
  obtain ⟨s, hagent, rfl⟩ := Option.map_eq_some_iff.mp hs
  obtain ⟨hlog, hnone | ⟨status, hone⟩⟩ := told_cases (i := i) hagent
  · refine .nothing ?_ ?_ ?_
    · rw [hlog, hnone, List.append_nil]
    · dsimp only
      rw [hnone, List.foldl_nil]
    · simp [Whole, hagent, hnone]
  · obtain ⟨text, hline, hnewline, htells, hwrite⟩ :=
      @notify_cases δ dbl x.tcpptr e.now hu hnow e.taken status
    refine .status status text ?_ hnewline htells ?_ ?_
    · rw [hlog, hone]
    · dsimp only
      rw [hone, List.foldl_cons, List.foldl_nil, hwrite]
    · simp [Whole, hagent, hone, hline]

theorem Acknowledged.step {x x' : ClientLink ι} {e : ClientEvent ι} (h : Acknowledged i dbl x)
    (hnow : FieldText e.now) (hok : Whole i dbl x e)
    (hs : ClientLink.step i dbl x e = some x') : Acknowledged i dbl x' := by
  obtain ⟨texts, htexts, hnewlines, hwires⟩ := h.sent
  cases tell_of_step h.unbuffered hnow hs with
  | nothing hlog hsame hwhole =>
    refine ⟨hsame ▸ h.unbuffered, texts, ?_, hnewlines, ?_⟩
    · rw [hlog]
      exact htexts
    · rw [hsame, hwires]
  | status status text hlog hnewline htells hwire hwhole =>
    refine ⟨?_, texts ++ [text], ?_, ?_, ?_⟩
    · rw [hwire]
      exact h.unbuffered
    · rw [hlog]
      exact List.rel_append htexts (.cons htells .nil)
    · intro text' hmem
      rcases List.mem_append.mp hmem with hmem | hmem
      · exact hnewlines text' hmem
      · exact List.mem_singleton.mp hmem ▸ hnewline
    · rw [hwire, List.take_of_length_le (hwhole.mp hok), hwires]
      simp

theorem Acknowledged.cut {x x' : ClientLink ι} {e : ClientEvent ι} (h : Acknowledged i dbl x)
    (hnow : FieldText e.now) (hbad : ¬ Whole i dbl x e)
    (hs : ClientLink.step i dbl x e = some x') : Missing i x' := by
  cases tell_of_step h.unbuffered hnow hs with
  | nothing hlog hsame hwhole => exact absurd hwhole hbad
  | status status text hlog hnewline htells hwire hwhole =>
    refine ⟨?_, ?_⟩
    · rw [hwire]
      exact h.unbuffered
    · -- the lines so far are there, and the new one has no newline
      have hlines : x.tcpptr.wire.count 10 = (statuses (x.agent.filercv i).log).length := by
        rw [← readLines_length, ← h.read.length_eq]
      rw [hlog, hwire]
      dsimp only
      rw [List.count_append, count_take_line hnewline, if_neg fun hle => hbad (hwhole.mpr hle),
        hlines, List.length_append, List.length_singleton]
      omega

theorem Missing.step {x x' : ClientLink ι} {e : ClientEvent ι} (h : Missing i x)
    (hnow : FieldText e.now) (hs : ClientLink.step i dbl x e = some x') : Missing i x' := by
  have hlines := h.lines
  cases tell_of_step h.unbuffered hnow hs with
  | nothing hlog hsame hwhole =>
    refine ⟨hsame ▸ h.unbuffered, ?_⟩
    rw [hsame, hlog]
    exact hlines
  | status status text hlog hnewline htells hwire hwhole =>
    refine ⟨?_, ?_⟩
    · rw [hwire]
      exact h.unbuffered
    · have hone : ((text ++ [10]).take e.taken).count 10 ≤ 1 := by
        rw [count_take_line hnewline]
        split <;> omega
      rw [hlog, hwire]
      simp only [List.count_append, List.length_append, List.length_singleton]
      omega

/-! ### Runs -/

/-- **What the client learns.**  In every run, whatever the other connections and the writer
do, the lines that the client has read say, one for one and in order, the statuses that it has
been told if and only if every line was taken whole. -/
theorem acknowledged_iff {bufs : ι → PackBuf × PackBuf} {heap : Heap} {env : SaveEnv}
    {mem : Bytes} {hmem : mem.length = ringCapacity} {es : List (ClientEvent ι)}
    {x : ClientLink ι} (hnow : ∀ e ∈ es, FieldText e.now)
    (hrun : Lts.run (step i dbl) (init bufs heap env mem hmem) es = some x) :
    List.Forall₂ (Tells dbl) (statuses (x.agent.filercv i).log) (readLines x.tcpptr.wire) ↔
      Lts.RunAll (step i dbl) (Whole i dbl) (init bufs heap env mem hmem) es := by
  have hinit : Acknowledged i dbl (init bufs heap env mem hmem) :=
    ⟨rfl, [], .nil, nofun, rfl⟩
  have hends :=
    Lts.runAll_or_of (fun _ _ _ h hnow hok hs => h.step hnow hok hs)
      (fun _ _ _ h hnow hbad hs => h.cut hnow hbad hs) (fun _ _ _ h hnow hs => h.step hnow hs)
      hinit (Lts.runAll_of_mem _ hnow) hrun
  rcases hends with ⟨hall, hread⟩ | ⟨hall, hmissing⟩
  · exact iff_of_true hread.read hall
  · exact iff_of_false hmissing.not_read hall

end

/-! ### One upload -/

/-- The server without data, and a new connection. -/
def fresh : ClientLink Unit :=
  init (fun _ => (zeroBuf, zeroBuf)) (fun _ => twoBytes) TransferAgent.single.env
    (List.replicate ringCapacity 0) DataLink.zeroRing_length

/-- One file is received; the socket takes up to 100 bytes of each line. -/
def oneUpload : List (ClientEvent Unit) :=
  (TransferAgent.monitorSteps 1 ++
    TransferAgent.lineSchedule (lit "fileinfo filename=a,subpath=d,filesize=2\n") ++
    TransferAgent.dataSchedule [7, 8] ++ TransferAgent.msgSteps 9).map (⟨·, lit "now", 100⟩)

theorem acknowledged_oneUpload : ∃ x, Lts.run (step () unitLib) fresh oneUpload = some x ∧
    readLines x.tcpptr.wire =
      [lit "filestat utc=now,status=1", lit "filestat utc=now,status=2"] ∧
    (List.Forall₂ (Tells unitLib) (statuses (x.agent.filercv ()).log) (readLines x.tcpptr.wire) ↔
      Lts.RunAll (step () unitLib) (Whole () unitLib) fresh oneUpload) := by
  have hnow : ∀ e ∈ oneUpload, FieldText e.now := by
    intro e he
    obtain ⟨e, -, rfl⟩ := List.mem_map.mp he
    exact (by decide : FieldText (lit "now"))
  have heval : (Lts.run (step () unitLib) fresh oneUpload).map
      (fun x => readLines x.tcpptr.wire) =
        some [lit "filestat utc=now,status=1", lit "filestat utc=now,status=2"] := by
    decide +kernel
  obtain ⟨x, hrun, hread⟩ := Option.map_eq_some_iff.mp heval
  exact ⟨x, hrun, hread, acknowledged_iff hnow hrun⟩

end ClientLink

end FtServer
