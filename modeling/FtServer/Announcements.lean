/-
FtServer/Announcements.lean

The server and its connection to the data process.  What `save_first` announces
goes through `CompactFileInfo` and `Write` into the ring of the connection, and
from there, by one asynchronous write after the other, to the peer, who reads
lines (`readLines`).

`announcements_of_run`: as long as the storage root fits into a line, no newline is in
the texts that are parsed, and there is room for the lines, the peer reads the
announcements of the files saved while it was coupled, in the order of the saves, each
once and whole.  `exists_drain`: once the peer takes what is sent, none is left over.
-/
import FtServer.CaseFolding
import FtServer.FileTexts
import FtServer.LinesSent

namespace FtServer

/-! ### Lines of a stream -/

/-- The lines that have come in whole. -/
def readLines (wire : Bytes) : List Bytes := (wire.splitOn 10).dropLast

/-- The front of a line is no line yet. -/
theorem readLines_of_notMem {s : Bytes} (h : 10 ∉ s) : readLines s = [] := by
  rw [readLines, List.splitOn_eq_singleton h, List.dropLast_singleton]

theorem readLines_cons {l : Bytes} (h : 10 ∉ l) (s : Bytes) :
    readLines (l ++ 10 :: s) = l :: readLines s := by
  rw [readLines, List.splitOn_append_cons_self, List.splitOn_eq_singleton h, List.singleton_append,
    List.dropLast_cons_of_ne_nil (List.splitOn_ne_nil 10 s), readLines]

/-- **The front of a stream of lines** consists of the first lines. -/
theorem exists_readLines {ls : List Bytes} (hls : ∀ l ∈ ls, 10 ∉ l) {wire rest : Bytes}
    (h : wire ++ rest = ls.flatMap (· ++ [10])) :
    ∃ k, readLines wire = ls.take k ∧ (rest = [] → ls.length ≤ k) := by
  induction ls generalizing wire with
  | nil =>
    obtain ⟨rfl, -⟩ := List.append_eq_nil_iff.mp h
    exact ⟨0, rfl, fun _ => Nat.le_refl 0⟩
  | cons l ls ih =>
    obtain ⟨hl, hls⟩ := List.forall_mem_cons.mp hls
    rw [List.flatMap_cons] at h
    rcases List.append_eq_append_iff.mp h with ⟨as, hfront, hrest⟩ | ⟨later, hwire, hlater⟩
    · rcases List.eq_nil_or_concat as with rfl | ⟨as, b, rfl⟩
      · -- the line is whole, and nothing is behind it
        obtain rfl : wire = l ++ [10] := by simpa using hfront.symm
        have htail : ([] : Bytes) ++ rest = ls.flatMap (· ++ [10]) := by simpa using hrest
        obtain ⟨k, hk, hall⟩ := ih hls htail
        exact ⟨k + 1, by rw [readLines_cons hl, hk, List.take_succ_cons],
          fun hr => Nat.succ_le_succ (hall hr)⟩
      · -- the stream ends inside the line
        rw [List.concat_eq_append, ← List.append_assoc] at hfront
        obtain ⟨rfl, -⟩ := List.append_inj' hfront rfl
        refine ⟨0, readLines_of_notMem fun hb => hl (List.mem_append_left _ hb), ?_⟩
        rintro rfl
        simp at hrest
    · obtain ⟨k, hk, hall⟩ := ih hls hlater.symm
      refine ⟨k + 1, ?_, fun hr => Nat.succ_le_succ (hall hr)⟩
      rw [hwire, List.append_assoc, List.singleton_append, readLines_cons hl, hk,
        List.take_succ_cons]

/-! ### The server and the connection -/

/-- The server, and the sending side of its connection to the data process. -/
structure DataLink (ι : Type) where
  agent : TransferAgent ι
  tcpcDp : TCPSender

/-- A step of the server, at the local time `now`; the completion of an
asynchronous write. -/
inductive LinkEvent (ι : Type)
  | agent (e : AgentEvent ι) (now : Bytes)
  | complete (i k : ℕ)

namespace DataLink

/-- The server with no file received, and a new connection. -/
def init {ι : Type} [DecidableEq ι] (bufs : ι → PackBuf × PackBuf) (heap : Heap) (env : SaveEnv)
    (mem : Bytes) (hmem : mem.length = ringCapacity) : DataLink ι where
  agent := .init bufs heap env
  tcpcDp := .init true mem hmem

/-- The end of `save_first`: the line of the message is encoded and written. -/
def announce (now : Bytes) (c : TCPSender) (proto : AsciiProtoFileinfo) : TCPSender :=
  match compactFileInfo now (some proto) with
  | some (_, line) => (c.write line 0).2
  | none => c

section

variable {ι : Type} [DecidableEq ι] [Fintype ι] {δ : Type} (dbl : DoubleLib δ)

/-- One step.  What a step of the server notifies is announced in it. -/
def step (x : DataLink ι) : LinkEvent ι → Option (DataLink ι)
  | .agent e now => (x.agent.step dbl e).map fun s =>
      ⟨s, (notifications (s.effects.drop x.agent.effects.length)).foldl (announce now) x.tcpcDp⟩
  | .complete i k => (x.tcpcDp.step (.complete i k)).map fun c => { x with tcpcDp := c }

/-- The saves of a step during which the data process was coupled. -/
def savesOf (x : DataLink ι) : LinkEvent ι → List Save
  | .agent e _ => (x.agent.saveOf e).filter Save.coupled
  | .complete _ _ => []

/-- The storage root and what is parsed are plain texts, and what is announced fits into
its slot of the encoder and into the ring. -/
def Fits (x : DataLink ι) : LinkEvent ι → Prop
  | .agent e now => FieldText now ∧ x.agent.PlainTexts e ∧
      ∀ v ∈ x.savesOf (.agent e now), ∀ line ∈ TCPSender.fileLine now v.info,
        line.length < 1024 ∧ x.tcpcDp.crcsnd.size + line.length ≤ ringCapacity
  | .complete _ _ => True

end

/-! ### One announcement -/

section

variable {δ : Type} (dbl : DoubleLib δ)

/-- The line is read as the message about the save. -/
def Reads (v : Save) (text : Bytes) : Prop :=
  10 ∉ text ∧
    ∃ now, resolve dbl text = .ok (some (.fileinfo { notification v.info with utc := now }))

variable {dbl}

/-- An announcement for which there is room is queued whole. -/
theorem exists_announce {c : TCPSender} {accepted now : Bytes} {v : Save}
    (h : c.PipelineInv accepted) (hnow : FieldText now) (hv : (notification v.info).Sendable)
    (hroom : ∀ line ∈ TCPSender.fileLine now v.info,
      c.crcsnd.size + line.length ≤ ringCapacity) :
    ∃ text, Reads dbl v text ∧
      (announce now c (notification v.info)).PipelineInv (accepted ++ (text ++ [10])) := by
  obtain ⟨text, hline, hnewline, hread⟩ := resolve_fileLine dbl hnow hv
  have hfits : c.crcsnd.size + (text ++ [10]).length ≤ ringCapacity := by
    refine hroom _ ?_
    rw [TCPSender.fileLine, hline]
    rfl
  refine ⟨text, ⟨hnewline, now, hread⟩, ?_⟩
  have hwrite := h.write (text ++ [10]) 0
  rw [TCPSender.write_buffered h.usebuf, Nat.min_eq_left (by omega), List.take_length] at hwrite
  rw [announce, hline]
  dsimp only
  rw [TCPSender.write_buffered h.usebuf, Nat.min_eq_left (by omega)]
  exact hwrite

end

/-! ### Steps -/

section

variable {ι : Type} [DecidableEq ι] [Fintype ι] {δ : Type} {dbl : DoubleLib δ}

/-- A step adds to what has been done. -/
theorem effects_append {s s' : TransferAgent ι} {e : AgentEvent ι} (hs : s.step dbl e = some s') :
    ∃ es, s'.effects = s.effects ++ es := by
  cases (TransferAgent.step_cases hs).2 with
  | saveThrew | save => exact ⟨_, rfl⟩
  | _ => exact ⟨[], (List.append_nil _).symm⟩

/-- What a step notifies is about the saves of the step. -/
theorem notifications_drop {s s' : TransferAgent ι} {e : AgentEvent ι} {vs : List Save}
    (h : TransferAgent.QueueInv s vs) (hs : s.step dbl e = some s') :
    notifications (s'.effects.drop s.effects.length) = Save.messages (s.saveOf e) := by
  obtain ⟨es, hes⟩ := effects_append hs
  have hnotified := (h.step hs).notified
  rw [hes, notifications_append, Save.messages_append, h.notified] at hnotified
  rw [hes, List.drop_left]
  exact List.append_cancel_left hnotified

omit [DecidableEq ι] [Fintype ι] in
/-- One file at most is saved in a step. -/
theorem saveOf_cases (s : TransferAgent ι) (e : AgentEvent ι) :
    s.saveOf e = [] ∨ ∃ v, s.saveOf e = [v] := by
  cases e with
  | monitor ans =>
    simp only [TransferAgent.saveOf]
    split
    · split
      · exact .inr ⟨_, rfl⟩
      · exact .inl rfl
    · exact .inl rfl
  | _ => exact .inl rfl

variable (dbl)

/-- The lines for the saves so far are what the connection has accepted. -/
structure Announced (x : DataLink ι) (vs : List Save) : Prop where
  files : x.agent.FileTexts
  queue : ∃ all, TransferAgent.QueueInv x.agent all
  sent : ∃ texts, List.Forall₂ (Reads dbl) vs texts ∧
    x.tcpcDp.PipelineInv (texts.flatMap (· ++ [10]))

variable {dbl}

theorem Announced.step {x x' : DataLink ι} {e : LinkEvent ι} {vs : List Save}
    (h : Announced dbl x vs) (hok : x.Fits e) (hs : x.step dbl e = some x') :
    Announced dbl x' (vs ++ x.savesOf e) := by
  obtain ⟨all, hall⟩ := h.queue
  obtain ⟨texts, hreads, hpipe⟩ := h.sent
  cases e with
  | complete i k =>
    obtain ⟨c, hc, rfl⟩ := Option.map_eq_some_iff.mp hs
    refine ⟨h.files, ⟨all, hall⟩, texts, ?_, ?_⟩
    · rw [savesOf, List.append_nil]
      exact hreads
    · have hnext := hpipe.step hc
      rwa [TCPSender.accepted, List.append_nil] at hnext
  | agent e now =>
    obtain ⟨s, hagent, rfl⟩ := Option.map_eq_some_iff.mp hs
    obtain ⟨hnow, hplain, hfits⟩ := hok
    refine ⟨h.files.step hplain hagent, ⟨_, hall.step hagent⟩, ?_⟩
    simp only [notifications_drop hall hagent, Save.messages]
    have hcoupled : (x.agent.saveOf e).filter Save.coupled = [] ∨
        ∃ v, (x.agent.saveOf e).filter Save.coupled = [v] := by
      rcases saveOf_cases x.agent e with hnone | ⟨v, hv⟩
      · exact .inl (by rw [hnone]; rfl)
      · rw [hv, List.filter_singleton]
        cases v.coupled
        · exact .inl rfl
        · exact .inr ⟨v, rfl⟩
    rcases hcoupled with hnone | ⟨v, hv⟩
    · refine ⟨texts, ?_, ?_⟩
      · rw [savesOf, hnone, List.append_nil]
        exact hreads
      · rw [hnone]
        exact hpipe
    · have hmem : v ∈ (x.agent.saveOf e).filter Save.coupled :=
        hv ▸ List.mem_singleton_self v
      obtain ⟨text, hread, hnext⟩ := @exists_announce δ dbl _ _ _ v hpipe hnow
        (h.files.sendable (List.mem_of_mem_filter hmem)) fun line hl => (hfits v hmem line hl).2
      refine ⟨texts ++ [text], ?_, ?_⟩
      · rw [savesOf, hv]
        exact List.rel_append hreads (.cons hread .nil)
      · rw [hv, List.flatMap_append]
        simpa using hnext

/-! ### Runs -/

theorem announced_run {bufs : ι → PackBuf × PackBuf} {heap : Heap} {env : SaveEnv}
    {mem : Bytes} {hmem : mem.length = ringCapacity} {es : List (LinkEvent ι)} {x : DataLink ι}
    (hok : Lts.RunAll (step dbl) Fits (init bufs heap env mem hmem) es)
    (hrun : Lts.run (step dbl) (init bufs heap env mem hmem) es = some x) :
    Announced dbl x (Lts.outputs (step dbl) savesOf (init bufs heap env mem hmem) es) := by
  have hinit : Announced dbl (init bufs heap env mem hmem) [] :=
    ⟨.init bufs heap env, ⟨[], .init, rfl, rfl⟩, [], .nil, rfl, by simp [init, TCPSender.init],
      .inl ⟨rfl, rfl⟩⟩
  exact Lts.run_outputs_of (fun _ _ _ _ h hok hs => h.step hok hs) hinit hok hrun

omit [DecidableEq ι] [Fintype ι] in
/-- What the peer has read. -/
theorem Announced.read {x : DataLink ι} {vs : List Save} (h : Announced dbl x vs) :
    ∃ k, List.Forall₂ (Reads dbl) (vs.take k) (readLines x.tcpcDp.wire) ∧
      (x.tcpcDp.crcsnd.contents = [] → vs.length ≤ k) := by
  obtain ⟨texts, hreads, hpipe⟩ := h.sent
  have hnewline : ∀ l ∈ texts, 10 ∉ l := by
    intro l hl
    obtain ⟨v, -, hv⟩ := exists_of_forall₂_right hreads hl
    exact hv.1
  obtain ⟨k, hk, hall⟩ := exists_readLines hnewline hpipe.stream
  refine ⟨k, ?_, fun hr => ?_⟩
  · rw [hk]
    exact List.forall₂_take k hreads
  · rw [hreads.length_eq]
    exact hall hr

/-- **The data process learns of the files saved.**  In every run in which the storage
root fits into a line, no newline is in the texts that are parsed, and there is room for
the announcements, the lines that the peer has read are, one for one and in order, the
messages about the first files saved while it was coupled, and about all of them
where the ring is empty. -/
theorem announcements_of_run {bufs : ι → PackBuf × PackBuf} {heap : Heap} {env : SaveEnv}
    {mem : Bytes} {hmem : mem.length = ringCapacity} {es : List (LinkEvent ι)} {x : DataLink ι}
    (hok : Lts.RunAll (step dbl) Fits (init bufs heap env mem hmem) es)
    (hrun : Lts.run (step dbl) (init bufs heap env mem hmem) es = some x) :
    ∃ k, List.Forall₂ (Reads dbl)
        ((Lts.outputs (step dbl) savesOf (init bufs heap env mem hmem) es).take k)
        (readLines x.tcpcDp.wire) ∧
      (x.tcpcDp.crcsnd.contents = [] →
        (Lts.outputs (step dbl) savesOf (init bufs heap env mem hmem) es).length ≤ k) :=
  (announced_run hok hrun).read

/-- While there is something to send, a write can complete. -/
theorem exists_complete {c : TCPSender} {accepted : Bytes} (h : c.PipelineInv accepted)
    (hne : c.crcsnd.contents ≠ []) :
    ∃ k c', c.step (.complete 0 k) = some c' ∧
      c'.crcsnd.contents.length < c.crcsnd.contents.length := by
  rcases h.requests with ⟨hzero, -⟩ | ⟨q, hq, hpos, -, hlen, -⟩
  · rw [← Ring.contents_length] at hzero
    exact absurd (List.eq_nil_of_length_eq_zero hzero) hne
  · have hstep : c.step (.complete 0 q.len) = some (TCPSender.handleWrite { c with
        wire := c.wire ++ (c.crcsnd.slice q.ptr q.len).take q.len
        requests := [] } q.len) := by
      simp only [TCPSender.step, hq, List.getElem?_cons_zero, List.eraseIdx_cons_zero]
      rw [if_pos ⟨hpos, Nat.le_refl _⟩]
    refine ⟨q.len, _, hstep, ?_⟩
    rw [TCPSender.handleWrite, TCPSender.startWrite_contents]
    dsimp only
    rw [Ring.contents_eraseBegin, List.length_drop, Ring.contents_length]
    omega

/-- **Nothing is left over.**  From every state of such a run, once the peer takes
what is sent, it has read the messages about all the files saved while it was
coupled. -/
theorem exists_drain {bufs : ι → PackBuf × PackBuf} {heap : Heap} {env : SaveEnv}
    {mem : Bytes} {hmem : mem.length = ringCapacity} {es : List (LinkEvent ι)} {x : DataLink ι}
    (hok : Lts.RunAll (step dbl) Fits (init bufs heap env mem hmem) es)
    (hrun : Lts.run (step dbl) (init bufs heap env mem hmem) es = some x) :
    ∃ fs x', Lts.RunAll (step dbl) (fun _ e => ∃ k, e = .complete 0 k) x fs ∧
      Lts.run (step dbl) x fs = some x' ∧
      List.Forall₂ (Reads dbl)
        (Lts.outputs (step dbl) savesOf (init bufs heap env mem hmem) es)
        (readLines x'.tcpcDp.wire) := by
  generalize hvs : Lts.outputs (step dbl) savesOf (init bufs heap env mem hmem) es = vs
  have hx : Announced dbl x vs := hvs ▸ announced_run hok hrun
  have hprogress : ∀ y : DataLink ι, Announced dbl y vs → ¬ y.tcpcDp.crcsnd.contents = [] →
      ∃ e y', (∃ k, e = .complete 0 k) ∧ y.step dbl e = some y' ∧ Announced dbl y' vs ∧
        y'.tcpcDp.crcsnd.contents.length < y.tcpcDp.crcsnd.contents.length := by
    intro y hy hne
    obtain ⟨texts, hreads, hpipe⟩ := hy.sent
    obtain ⟨k, c, hc, hlt⟩ := exists_complete hpipe hne
    have hstep : y.step dbl (.complete 0 k) = some { y with tcpcDp := c } := by
      rw [step, hc]
      rfl
    have hnext := hy.step (e := .complete 0 k) trivial hstep
    rw [savesOf, List.append_nil] at hnext
    exact ⟨_, _, ⟨k, rfl⟩, hstep, hnext, hlt⟩
  obtain ⟨fs, x', hall, hfs, hx', hempty⟩ := Lts.exists_run_of_rank
    (fun y : DataLink ι => y.tcpcDp.crcsnd.contents.length) hprogress hx
  obtain ⟨k, hreads, hlength⟩ := hx'.read
  rw [List.take_of_length_le (hlength hempty)] at hreads
  exact ⟨fs, x', hall, hfs, hreads⟩

end

/-! ### One file -/

instance (x : DataLink Unit) : (e : LinkEvent Unit) → Decidable (x.Fits e)
  | .agent e now => inferInstanceAs (Decidable (FieldText now ∧ x.agent.PlainTexts e ∧
      ∀ v ∈ x.savesOf (.agent e now), ∀ line ∈ TCPSender.fileLine now v.info,
        line.length < 1024 ∧ x.tcpcDp.crcsnd.size + line.length ≤ ringCapacity))
  | .complete _ _ => isTrue trivial

theorem zeroRing_length : (List.replicate ringCapacity (0 : UInt8)).length = ringCapacity :=
  List.length_replicate

/-- The server without data, and a zeroed ring. -/
def fresh : DataLink Unit :=
  init (fun _ => (zeroBuf, zeroBuf)) (fun _ => twoBytes) TransferAgent.single.env
    (List.replicate ringCapacity 0) zeroRing_length

/-- One file is received and saved while the data process is coupled, and the peer
takes the first five bytes of its line. -/
def oneFile : List (LinkEvent Unit) :=
  (TransferAgent.monitorSteps 1 ++
    .config { TransferAgent.single.env with pathRoot := lit "/data", tcpcDp := true } ::
    TransferAgent.lineSchedule (lit "fileinfo filename=a,subpath=d,filesize=2\n") ++
    TransferAgent.dataSchedule [7, 8] ++ TransferAgent.msgSteps 9 ++
    TransferAgent.monitorSteps 4).map (.agent · (lit "now")) ++ [.complete 0 5]

theorem announcements_oneFile : ∃ x,
    Lts.run (step unitLib) fresh (oneFile ++ [.complete 0 67]) = some x ∧
    readLines x.tcpcDp.wire =
      [lit "fileinfo utc=now,tmobs=,subpath=/data/d,filename=a,filesize=-2147483648"] ∧
    ∃ k, List.Forall₂ (Reads unitLib)
        ((Lts.outputs (step unitLib) savesOf fresh (oneFile ++ [.complete 0 67])).take k)
        (readLines x.tcpcDp.wire) ∧
      (x.tcpcDp.crcsnd.contents = [] →
        (Lts.outputs (step unitLib) savesOf fresh (oneFile ++ [.complete 0 67])).length ≤ k) := by
  have hok : Lts.RunAll (step unitLib) Fits fresh (oneFile ++ [.complete 0 67]) := by
    decide +kernel
  have heval : (Lts.run (step unitLib) fresh (oneFile ++ [.complete 0 67])).map
      (fun x => readLines x.tcpcDp.wire) =
        some [lit "fileinfo utc=now,tmobs=,subpath=/data/d,filename=a,filesize=-2147483648"] := by
    decide +kernel
  obtain ⟨x, hrun, hread⟩ := Option.map_eq_some_iff.mp heval
  exact ⟨x, hrun, hread, announcements_of_run hok hrun⟩

theorem exists_drain_oneFile : ∃ x, Lts.run (step unitLib) fresh oneFile = some x ∧
    x.tcpcDp.wire = lit "filei" ∧
    ∃ fs x', Lts.RunAll (step unitLib) (fun _ e => ∃ k, e = .complete 0 k) x fs ∧
      Lts.run (step unitLib) x fs = some x' ∧
      List.Forall₂ (Reads unitLib) (Lts.outputs (step unitLib) savesOf fresh oneFile)
        (readLines x'.tcpcDp.wire) := by
  have hok : Lts.RunAll (step unitLib) Fits fresh oneFile := by
    decide +kernel
  have heval : (Lts.run (step unitLib) fresh oneFile).map (fun x => x.tcpcDp.wire) =
      some (lit "filei") := by
    decide +kernel
  obtain ⟨x, hrun, hwire⟩ := Option.map_eq_some_iff.mp heval
  exact ⟨x, hrun, hwire, exists_drain hok hrun⟩

end DataLink

end FtServer
