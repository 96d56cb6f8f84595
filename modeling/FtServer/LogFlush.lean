/-
FtServer/LogFlush.lean

What of the log is on disk.  `Write` prints to a buffered stream; the library moves
bytes from the buffer to the file when it likes, and `fclose` and `fflush` move them
all.  `bytecache_` counts what has been printed since the last `fflush` of the file that
is open, and `thread_cycle` calls `fflush` once a second, if the count is positive and
`second_clock` shows at least two seconds more than at the last record.  `fflush` and
`fclose` are taken to succeed.

`durable_of_run` says that whatever is not on disk is in the buffer of the file that is
open, and no more of it than is counted; so a round of the thread in a quiet second
leaves nothing behind, and no record is lost or printed twice on its way to the disk.
-/
import FtServer.GLog
import FtServer.Lts

namespace FtServer

/-! ### Streams -/

/-- The files of the log, and the buffers of their streams. -/
structure LogFiles where
  disk : LogFd → Bytes
  buffer : LogFd → Bytes

namespace LogFiles

/-- The first bytes of the buffer go to the disk. -/
def writeOut (f : LogFiles) (fd : LogFd) (n : ℕ) : LogFiles where
  disk := Function.update f.disk fd (f.disk fd ++ (f.buffer fd).take n)
  buffer := Function.update f.buffer fd ((f.buffer fd).drop n)

/-- `fflush (fd)`. -/
def fflush (f : LogFiles) (fd : LogFd) : LogFiles := f.writeOut fd (f.buffer fd).length

/-- `fprintf (fd, ..)`. -/
def fprintf (f : LogFiles) (fd : LogFd) (text : Bytes) : LogFiles :=
  { f with buffer := Function.update f.buffer fd (f.buffer fd ++ text) }

/-- The actions of `Write`; a file is opened at its end. -/
def act (f : LogFiles) : LogAction → LogFiles
  | .fopen fd => { f with buffer := Function.update f.buffer fd [] }
  | .fclose fd => f.fflush fd
  | .print fd text => f.fprintf fd text
  | .record fd e => f.fprintf fd e.line

def acts (f : LogFiles) (as : List LogAction) : LogFiles := as.foldl act f

end LogFiles

/-- What the actions print to a file. -/
def printedTo (fd : LogFd) (as : List LogAction) : Bytes :=
  as.flatMap fun
    | .print fd' text => if fd' = fd then text else []
    | .record fd' e => if fd' = fd then e.line else []
    | .fopen _ | .fclose _ => []

/-! ### The log with its thread -/

/-- The seconds of a `ptime`. -/
def Ptime.seconds (t : Ptime) : ℤ := t.date.dayNumber * 86400 + t.secs

structure CycledLog where
  log : GLog
  bytecache : ℕ
  /-- `tmlast_`, `not_a_date_time` at first -/
  tmlast : Option Ptime
  /-- `thrdCycle_` is there -/
  cycling : Bool
  files : LogFiles

inductive LogEvent
  /-- `Write` -/
  | write (e : Entry) (ans : LogAnswers)
  /-- a round of `thread_cycle` -/
  | cycle (now : Ptime)
  /-- the library writes out the first bytes of the buffer -/
  | stdio (n : ℕ)

/-- `valid_file` has opened a file. -/
def opens (as : List LogAction) : Bool :=
  as.any fun
    | .fopen _ => true
    | .fclose _ | .print _ _ | .record _ _ => false

/-- `fprintf (fd_, "%s\n", string (79, '-'))` -/
def separatorLine : Bytes := List.replicate 79 45 ++ lit "\n"

namespace CycledLog

/-- `Write`.  The count of the bytes is an `int`. -/
def write (s : CycledLog) (e : Entry) (ans : LogAnswers) : Option CycledLog :=
  match s.log.write e ans with
  | none => none
  | some (log, as) =>
    let bytecache := if opens as then separatorLine.length else s.bytecache
    let bytecache := if log.fd.isSome then bytecache + e.line.length else bytecache
    if bytecache < 2 ^ 31 then
      some {
        log := log
        bytecache := bytecache
        tmlast := if log.fd.isSome then some e.time else s.tmlast
        cycling := s.cycling || opens as
        files := s.files.acts as }
    else none

/-- `second_clock` shows at least two seconds more than at the last record. -/
def quiet (s : CycledLog) (now : Ptime) : Prop := ∀ t ∈ s.tmlast, 1 < now.seconds - t.seconds

instance (s : CycledLog) (now : Ptime) : Decidable (s.quiet now) :=
  inferInstanceAs (Decidable (∀ t ∈ s.tmlast, _))

def step (s : CycledLog) : LogEvent → Option CycledLog
  | .write e ans => s.write e ans
  | .cycle now =>
    if s.cycling then
      if 0 < s.bytecache ∧ s.quiet now then
        some { s with
          bytecache := 0
          -- `fflush (NULL)` writes out all streams, but none of the log is open
          files := match s.log.fd with
            | some fd => s.files.fflush fd
            | none => s.files }
      else some s
    else none
  | .stdio n =>
    match s.log.fd with
    | some fd =>
      if n ≤ (s.files.buffer fd).length then some { s with files := s.files.writeOut fd n }
      else none
    | none => none

/-- `GLog (out)`; the files have their contents from before. -/
def init (out : Option LogFd) (disk : LogFd → Bytes) : CycledLog where
  log := .init out
  bytecache := 0
  tmlast := none
  cycling := false
  files := ⟨disk, fun _ => []⟩

/-- What a step prints. -/
def prints (s : CycledLog) : LogEvent → List LogAction
  | .write e ans => ((s.log.write e ans).map Prod.snd).getD []
  | .cycle _ | .stdio _ => []

end CycledLog

/-! ### Where the bytes are -/

@[simp] theorem printedTo_append (fd : LogFd) (as as' : List LogAction) :
    printedTo fd (as ++ as') = printedTo fd as ++ printedTo fd as' := List.flatMap_append

/-- What has been printed is on disk or in the buffer of the file that is open, and `n`
bytes at most are in this buffer. -/
structure Streams (start : LogFd → Bytes) (opened : Option LogFd) (n : ℕ) (f : LogFiles)
    (as : List LogAction) : Prop where
  stream : ∀ fd, f.disk fd ++ f.buffer fd = start fd ++ printedTo fd as
  closed : ∀ fd, opened ≠ some fd → f.buffer fd = []
  counted : ∀ fd, opened = some fd → (f.buffer fd).length ≤ n

namespace Streams

variable {start : LogFd → Bytes} {opened : Option LogFd} {fd : LogFd} {m n k : ℕ} {f : LogFiles}
  {as : List LogAction}

/-- A line is printed, of a record or between the records. -/
theorem fprintf (h : Streams start (some fd) n f as) {text : Bytes} {a : LogAction}
    (ha : ∀ fd', printedTo fd' [a] = if fd = fd' then text else []) :
    Streams start (some fd) (n + text.length) (f.fprintf fd text) (as ++ [a]) where
  stream := by
    intro fd'
    rw [printedTo_append, ha, ← List.append_assoc, ← h.stream fd', LogFiles.fprintf]
    by_cases hfd : fd' = fd
    · subst hfd
      simp
    · simp [hfd, Ne.symm hfd]
  closed := by
    intro fd' hfd
    have hne : fd' ≠ fd := fun he => hfd (by rw [he])
    simpa [LogFiles.fprintf, hne] using h.closed fd' hfd
  counted := by
    rintro _ ⟨⟩
    simpa [LogFiles.fprintf] using h.counted fd rfl

/-- Bytes go to the disk. -/
theorem writeOut (h : Streams start (some fd) n f as) :
    Streams start (some fd) n (f.writeOut fd k) as where
  stream := by
    intro fd'
    rw [← h.stream fd', LogFiles.writeOut]
    by_cases hfd : fd' = fd
    · subst hfd
      simp
    · simp [hfd]
  closed := by
    intro fd' hfd
    have hne : fd' ≠ fd := fun he => hfd (by rw [he])
    simpa [LogFiles.writeOut, hne] using h.closed fd' hfd
  counted := by
    rintro _ ⟨⟩
    have hle := h.counted fd rfl
    simp only [LogFiles.writeOut, Function.update_self, List.length_drop]
    omega

theorem fflush (h : Streams start (some fd) n f as) : Streams start (some fd) 0 (f.fflush fd) as :=
  ⟨h.writeOut.stream, h.writeOut.closed, by
    rintro _ ⟨⟩
    simp [LogFiles.fflush, LogFiles.writeOut]⟩

/-- When nothing is counted, everything is on disk. -/
theorem disk_eq (h : Streams start opened 0 f as) (fd : LogFd) :
    f.disk fd = start fd ++ printedTo fd as := by
  have hbuffer : f.buffer fd = [] := by
    by_cases hfd : opened = some fd
    · exact List.length_eq_zero_iff.mp (Nat.le_zero.mp (h.counted fd hfd))
    · exact h.closed fd hfd
  rw [← h.stream fd, hbuffer, List.append_nil]

theorem fclose (h : Streams start (some fd) n f as) :
    Streams start none m (f.fflush fd) (as ++ [.fclose fd]) where
  stream := by
    intro fd'
    rw [printedTo_append, h.fflush.stream fd']
    simp [printedTo]
  closed := by
    intro fd' _
    by_cases hfd : fd' = fd
    · subst hfd
      exact List.length_eq_zero_iff.mp (Nat.le_zero.mp (h.fflush.counted fd' rfl))
    · exact h.fflush.closed fd' fun he => hfd (Option.some.inj he).symm
  counted := nofun

theorem fopen (h : Streams start none n f as) (fd : LogFd) :
    Streams start (some fd) 0 (f.act (.fopen fd)) (as ++ [.fopen fd]) := by
  have hbuffer : Function.update f.buffer fd [] = f.buffer :=
    Function.update_eq_self_iff.mpr (h.closed fd nofun).symm
  refine ⟨fun fd' => ?_, fun fd' _ => ?_, fun fd' _ => ?_⟩
  · rw [LogFiles.act, hbuffer, h.stream fd', printedTo_append]
    simp [printedTo]
  · rw [LogFiles.act, hbuffer]
    exact h.closed fd' nofun
  · rw [LogFiles.act, hbuffer, h.closed fd' nofun]
    rfl

end Streams

/-! ### One call of `Write` -/

/-- The actions that close the file of the day before. -/
def closing : Option LogFd → List LogAction
  | some fd => [.print fd (List.replicate 69 62 ++ lit " continue\n"), .fclose fd]
  | none => []

/-- What `Write` does: it prints to the file that is open, it finds no file to print to,
or it opens one. -/
inductive Logged (s : GLog) (e : Entry) : GLog → List LogAction → Prop
  | same {fd : LogFd} {log : GLog} : s.fd = some fd → log.fd = some fd →
      Logged s e log [.record fd e]
  | missing {log : GLog} : log.fd = none → Logged s e log (closing s.fd)
  | opened {path : Bytes} {log : GLog} : log.fd = some (.file path) →
      Logged s e log (closing s.fd ++ [.fopen (.file path), .print (.file path) separatorLine,
        .record (.file path) e])

theorem changeDay_eq (s : GLog) (d : GregDate) :
    s.changeDay d = if s.day ≠ d.day then (⟨d.day, none⟩, closing s.fd) else (s, []) := by
  rw [GLog.changeDay]
  split
  · cases s.fd <;> rfl
  · rfl

/-- The file that `valid_file` finds or opens. -/
theorem validFile_cases {s log : GLog} {t : Ptime} {ans : LogAnswers} {as : List LogAction}
    (h : s.validFile t ans = some (log, as)) :
    (∃ fd, s.fd = some fd ∧ log.fd = some fd ∧ as = []) ∨
      (log.fd = none ∧ as = closing s.fd) ∨
      ∃ path, log.fd = some (.file path) ∧
        as = closing s.fd ++ [.fopen (.file path), .print (.file path) separatorLine] := by
  rw [GLog.validFile, changeDay_eq] at h
  by_cases hstd : s.fd = some .stdout ∨ s.fd = some .stderr
  · rw [if_pos hstd] at h
    cases h
    rcases hstd with hfd | hfd
    · exact .inl ⟨_, hfd, hfd, rfl⟩
    · exact .inl ⟨_, hfd, hfd, rfl⟩
  rw [if_neg hstd] at h
  -- what is left is the file to be opened, if it can be
  have hopen : ∀ {s₁ : GLog}, s₁.fd = none →
      (if ans.writable then
        if ans.fopen then
          some ({ s₁ with fd := some (.file (logPath t.date)) }, closing s.fd ++
            [.fopen (.file (logPath t.date)), .print (.file (logPath t.date)) separatorLine])
        else none
      else some (s₁, closing s.fd)) = some (log, as) →
      (log.fd = none ∧ as = closing s.fd) ∨
        ∃ path, log.fd = some (.file path) ∧
          as = closing s.fd ++ [.fopen (.file path), .print (.file path) separatorLine] := by
    intro s₁ hfd₁ hif
    split at hif
    · split at hif
      · cases hif
        exact .inr ⟨_, rfl, rfl⟩
      · cases hif
    · cases hif
      exact .inl ⟨hfd₁, rfl⟩
  by_cases hday : s.day ≠ t.date.day
  · rw [if_pos hday] at h
    exact .inr (hopen rfl h)
  · rw [if_neg hday] at h
    rcases hfd : s.fd with - | fd
    · have hclosing : closing s.fd = [] := by rw [hfd]; rfl
      simp only [hfd] at h
      refine .inr (hfd ▸ hopen hfd ?_)
      rw [hclosing]
      exact h
    · simp only [hfd] at h
      cases h
      exact .inl ⟨fd, rfl, hfd, rfl⟩

theorem logged_of_write {s log : GLog} {e : Entry} {ans : LogAnswers} {as : List LogAction}
    (h : s.write e ans = some (log, as)) : Logged s e log as := by
  rw [GLog.write] at h
  rcases hvalid : s.validFile e.time ans with - | ⟨log₁, as₁⟩
  · rw [hvalid] at h
    cases h
  rw [hvalid] at h
  dsimp only at h
  rcases validFile_cases hvalid with ⟨fd, hfd, hfd₁, rfl⟩ | ⟨hfd₁, rfl⟩ | ⟨path, hfd₁, rfl⟩
  · rw [hfd₁] at h
    cases h
    exact .same hfd hfd₁
  · rw [hfd₁] at h
    cases h
    exact .missing hfd₁
  · rw [hfd₁] at h
    cases h
    rw [List.append_assoc]
    exact .opened hfd₁

/-! ### Runs -/

variable {start : LogFd → Bytes}

/-- A line between the records. -/
theorem Streams.print {fd : LogFd} {n : ℕ} {f : LogFiles} {as : List LogAction}
    (h : Streams start (some fd) n f as) (text : Bytes) :
    Streams start (some fd) (n + text.length) (f.fprintf fd text) (as ++ [.print fd text]) :=
  h.fprintf fun fd' => by simp [printedTo]

/-- A record. -/
theorem Streams.record {fd : LogFd} {n : ℕ} {f : LogFiles} {as : List LogAction}
    (h : Streams start (some fd) n f as) (e : Entry) :
    Streams start (some fd) (n + e.line.length) (f.fprintf fd e.line) (as ++ [.record fd e]) :=
  h.fprintf fun fd' => by simp [printedTo]

theorem Streams.closing {opened : Option LogFd} {n m : ℕ} {f : LogFiles} {as : List LogAction}
    (h : Streams start opened n f as) :
    Streams start none m (f.acts (closing opened)) (as ++ closing opened) := by
  cases opened with
  | none =>
    refine ⟨fun fd => ?_, h.closed, nofun⟩
    rw [FtServer.closing, List.append_nil]
    exact h.stream fd
  | some fd =>
    have hprint := h.print (List.replicate 69 62 ++ lit " continue\n")
    simpa [FtServer.closing, LogFiles.acts, LogFiles.act] using hprint.fclose

namespace CycledLog

variable {s s' : CycledLog} {e : LogEvent} {as : List LogAction}

/-- What is left to be flushed is counted. -/
def Durable (start : LogFd → Bytes) (s : CycledLog) (as : List LogAction) : Prop :=
  Streams start s.log.fd s.bytecache s.files as

theorem Durable.write {e : Entry} {ans : LogAnswers} (h : Durable start s as)
    (hwrite : s.write e ans = some s') :
    Durable start s' (as ++ s.prints (.write e ans)) := by
  rw [CycledLog.write] at hwrite
  rcases hlog : s.log.write e ans with - | ⟨log, bs⟩
  · rw [hlog] at hwrite
    cases hwrite
  simp only [hlog, Option.ite_none_right_eq_some] at hwrite
  obtain ⟨-, hwrite⟩ := hwrite
  cases hwrite
  have hprints : s.prints (.write e ans) = bs := by rw [prints, hlog]; rfl
  rw [hprints]
  cases logged_of_write hlog with
  | @same fd _ hfd hfd' =>
    rw [Durable, hfd] at h
    simpa [Durable, opens, hfd', LogFiles.acts, LogFiles.act] using h.record e
  | missing hfd' =>
    rw [Durable, hfd']
    exact Streams.closing h
  | @opened path _ hfd' =>
    have hopen := (Streams.closing (m := 0) h).fopen (.file path)
    have hrecord := (hopen.print separatorLine).record e
    simpa [Durable, opens, hfd', LogFiles.acts, LogFiles.act] using hrecord

/-- A round of the thread.  A quiet one leaves nothing to be counted. -/
theorem Durable.cycle {now : Ptime} (h : Durable start s as)
    (hcycle : s.step (.cycle now) = some s') :
    Durable start s' as ∧ (s.quiet now → Streams start s.log.fd 0 s'.files as) := by
  simp only [step, Option.ite_none_right_eq_some] at hcycle
  obtain ⟨-, hcycle⟩ := hcycle
  split at hcycle
  · cases hcycle
    have hflush : Streams start s.log.fd 0 (match s.log.fd with
        | some fd => s.files.fflush fd
        | none => s.files) as := by
      rw [Durable] at h
      rcases hfd : s.log.fd with - | fd
      · rw [hfd] at h
        exact ⟨h.stream, h.closed, nofun⟩
      · rw [hfd] at h
        exact h.fflush
    exact ⟨hflush, fun _ => hflush⟩
  · rename_i hidle
    cases hcycle
    refine ⟨h, fun hquiet => ?_⟩
    -- a quiet round that does nothing has nothing to do
    have hzero : s.bytecache = 0 := Nat.eq_zero_of_not_pos fun hpos => hidle ⟨hpos, hquiet⟩
    rw [Durable, hzero] at h
    exact h

theorem Durable.step (h : Durable start s as) (hstep : s.step e = some s') :
    Durable start s' (as ++ s.prints e) := by
  cases e with
  | write e ans => exact h.write hstep
  | cycle now =>
    rw [prints, List.append_nil]
    exact (h.cycle hstep).1
  | stdio n =>
    simp only [CycledLog.step] at hstep
    split at hstep
    · rename_i fd hfd
      simp only [Option.ite_none_right_eq_some] at hstep
      obtain ⟨-, hstep⟩ := hstep
      cases hstep
      rw [Durable, hfd] at h
      rw [prints, List.append_nil, Durable, hfd]
      exact h.writeOut
    · cases hstep

/-- **The log reaches the disk.**  Whoever calls `Write`, whenever the thread runs and
whatever the library writes out by itself, each file is what has been printed to it, in
order, the end of which may still be in the buffer of the file that is open; and after a
round of the thread two seconds or more after the last record it is on disk too. -/
theorem durable_of_run {out : Option LogFd} {disk : LogFd → Bytes} {es : List LogEvent}
    (hrun : Lts.run step (init out disk) es = some s) :
    let as := Lts.outputs step prints (init out disk) es
    (∀ fd, s.files.disk fd ++ s.files.buffer fd = disk fd ++ printedTo fd as) ∧
      (∀ fd, s.log.fd ≠ some fd → s.files.disk fd = disk fd ++ printedTo fd as) ∧
      ∀ now s', s.step (.cycle now) = some s' → s.quiet now →
        ∀ fd, s'.files.disk fd = disk fd ++ printedTo fd as := by
  intro as
  have hinit : Durable disk (init out disk) [] := by
    refine ⟨fun fd => ?_, fun _ _ => rfl, fun _ _ => Nat.le_refl 0⟩
    simp [init, printedTo]
  have h : Durable disk s ([] ++ as) :=
    Lts.run_outputs (J := Durable disk) (fun _ _ _ _ h hs => h.step hs) hinit hrun
  rw [List.nil_append] at h
  refine ⟨h.stream, fun fd hfd => ?_, fun now s' hcycle hquiet => ?_⟩
  · rw [← h.stream fd, h.closed fd hfd, List.append_nil]
  · exact ((h.cycle hcycle).2 hquiet).disk_eq

/-- A line at noon, of which the library writes out the first bytes, and a round of the
thread in the next second. -/
def noonLine : List LogEvent :=
  [.write (GLog.noonEntry jan2024) ⟨true, true⟩, .stdio 10, .cycle ⟨jan2024, 43201, by decide⟩]

/-- The round in the second after that. -/
theorem durable_noonLine : ∃ s s',
    Lts.run step (init none fun _ => []) noonLine = some s ∧
      s.files.disk (.file (logPath jan2024)) = List.replicate 10 45 ∧
      s.step (.cycle ⟨jan2024, 43202, by decide⟩) = some s' ∧
      s'.files.disk (.file (logPath jan2024)) = printedTo (.file (logPath jan2024))
        (Lts.outputs step prints (init none fun _ => []) noonLine) := by
  let now : Ptime := ⟨jan2024, 43202, by decide⟩
  have heval : ((Lts.run step (init none fun _ => []) noonLine).bind fun s =>
      (s.step (.cycle now)).map fun _ => (s.files.disk (.file (logPath jan2024)),
        decide (s.quiet now))) = some (List.replicate 10 45, true) := by decide +kernel
  obtain ⟨s, hrun, hs⟩ := Option.bind_eq_some_iff.mp heval
  obtain ⟨s', hcycle, hend⟩ := Option.map_eq_some_iff.mp hs
  obtain ⟨hdisk, hquiet⟩ := Prod.mk.inj hend
  exact ⟨s, s', hrun, hdisk, hcycle,
    (durable_of_run hrun).2.2 now s' hcycle (of_decide_eq_true hquiet) _⟩

end CycledLog

end FtServer
