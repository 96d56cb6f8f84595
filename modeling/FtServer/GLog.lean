/-
FtServer/GLog.lean

The log (`GLog.cpp`).  `Write` asks `valid_file` for the file to write to; this keeps
one file open and opens another one when the day has changed, which it sees from the
day of the month.  What is written, opened and closed is a list of actions; the bytes
counted for the thread that flushes are left out.

`ownDayFiles_iff` says for which sequences of writes each record goes to the file of its
date, with no other file open: two writes that follow each other on the same day of the
month have to be of the same date.
-/
import FtServer.FsPath
import FtServer.Retention

namespace FtServer

/-! ### Texts -/

/-- The last decimal digit. -/
def digit (n : ℕ) : UInt8 := UInt8.ofNat (48 + n % 10)

/-- Two decimal digits. -/
def pad2 (n : ℕ) : Bytes := [digit (n / 10), digit n]

/-- `to_iso_string (date)`. -/
def toIsoString (d : GregDate) : Bytes :=
  [digit (d.year / 1000), digit (d.year / 100), digit (d.year / 10), digit d.year] ++
    pad2 d.month ++ pad2 d.day

/-- A `ptime` of `second_clock`. -/
structure Ptime where
  date : GregDate
  secs : ℕ
  secs_lt : secs < 86400

/-- `to_simple_string (t.time_of_day ())`. -/
def Ptime.timeOfDay (t : Ptime) : Bytes :=
  pad2 (t.secs / 3600) ++ [58] ++ pad2 (t.secs / 60 % 60) ++ [58] ++ pad2 (t.secs % 60)

/-- Not later. -/
def Ptime.NotAfter (t u : Ptime) : Prop :=
  t.date.dayNumber < u.date.dayNumber ∨ t.date.dayNumber = u.date.dayNumber ∧ t.secs ≤ u.secs

instance (t u : Ptime) : Decidable (t.NotAfter u) := inferInstanceAs (Decidable (_ ∨ _))

inductive LogType
  | normal | warn | fault
deriving DecidableEq

/-- A call of `Write`, with its time and what the format makes of its arguments.  The
overload without type and place writes `normal` and `none`; a call without a format
returns at once. -/
structure Entry where
  time : Ptime
  type : LogType
  place : Option Bytes
  message : Bytes

/-- The line of a record. -/
def Entry.line (e : Entry) : Bytes :=
  e.time.timeOfDay ++ lit " >> " ++
    (match e.type with
      | .normal => []
      | .warn => lit "WARN: "
      | .fault => lit "ERROR: ") ++
    (match e.place with
      | some place => place ++ lit ", "
      | none => []) ++
    e.message ++ lit "\n"

def gLogDir : Bytes := lit "/var/log/ftserver"

def gLogPrefix : Bytes := lit "ftserver_"

/-- The file of a date. -/
def logPath (d : GregDate) : Bytes :=
  gLogDir ++ FsPath.separatorFor gLogDir ++ (gLogPrefix ++ toIsoString d ++ lit ".log")

/-! ### The log -/

/-- What `fd_` points to. -/
inductive LogFd
  | stdout
  | stderr
  | file (path : Bytes)
deriving DecidableEq

inductive LogAction
  | fopen (fd : LogFd)
  | fclose (fd : LogFd)
  /-- a line between the records -/
  | print (fd : LogFd) (text : Bytes)
  /-- the line of a record -/
  | record (fd : LogFd) (e : Entry)

structure GLog where
  day : ℤ
  fd : Option LogFd

/-- What the file system answers: whether the directory is there or has been made, and
can be written, and whether `fopen` succeeds. -/
structure LogAnswers where
  writable : Bool
  fopen : Bool

namespace GLog

/-- `GLog (out)`. -/
def init (out : Option LogFd) : GLog := ⟨-1, out⟩

/-- The change of the day: the file that is open is closed. -/
def changeDay (s : GLog) (d : GregDate) : GLog × List LogAction :=
  if s.day ≠ d.day then
    match s.fd with
    | some fd =>
      (⟨d.day, none⟩, [.print fd (List.replicate 69 62 ++ lit " continue\n"), .fclose fd])
    | none => (⟨d.day, none⟩, [])
  else (s, [])

/-- `valid_file`; what it returns is whether `fd_` is set.  After an `fopen` that fails
the text goes to a null pointer, which is undefined. -/
def validFile (s : GLog) (t : Ptime) (ans : LogAnswers) : Option (GLog × List LogAction) :=
  if s.fd = some .stdout ∨ s.fd = some .stderr then some (s, [])
  else
    let (s, acts) := s.changeDay t.date
    match s.fd with
    | some _ => some (s, acts)
    | none =>
      if ans.writable then
        if ans.fopen then
          let fd := .file (logPath t.date)
          some ({ s with fd := some fd },
            acts ++ [.fopen fd, .print fd (List.replicate 79 45 ++ lit "\n")])
        else none
      else some (s, acts)

/-- `Write`. -/
def write (s : GLog) (e : Entry) (ans : LogAnswers) : Option (GLog × List LogAction) :=
  match s.validFile e.time ans with
  | none => none
  | some (s, acts) =>
    match s.fd with
    | some fd => some (s, acts ++ [.record fd e])
    | none => some (s, acts)

/-- Calls of `Write` one after the other. -/
def writes (s : GLog) : List (Entry × LogAnswers) → Option (GLog × List LogAction)
  | [] => some (s, [])
  | (e, ans) :: rest =>
    match s.write e ans with
    | none => none
    | some (s, acts) => (s.writes rest).map fun (s, acts') => (s, acts ++ acts')

/-! ### The property and the condition -/

/-- The directory can be written, and the file opened. -/
def fine (e : Entry) : Entry × LogAnswers := (e, ⟨true, true⟩)

/-- The records among the actions. -/
def recorded (acts : List LogAction) : List Entry :=
  acts.filterMap fun
    | .record _ e => some e
    | _ => none

/-- With these files open, each record goes to the file of its date, which is then the
only one that is open. -/
def InOwnFile : List LogFd → List LogAction → Prop
  | _, [] => True
  | opened, .fopen fd :: rest => InOwnFile (fd :: opened) rest
  | opened, .fclose fd :: rest => InOwnFile (opened.erase fd) rest
  | opened, .print _ _ :: rest => InOwnFile opened rest
  | opened, .record fd e :: rest =>
    (fd = .file (logPath e.time.date) ∧ opened = [fd]) ∧ InOwnFile opened rest

/-- From `s`, with these files open, everything is recorded in the files of the dates. -/
def OwnFiles (s : GLog) (opened : List LogFd) (es : List Entry) : Prop :=
  ∃ s' acts, s.writes (es.map fine) = some (s', acts) ∧ recorded acts = es ∧
    InOwnFile opened acts

/-- **Each record goes to its own day's file.** -/
def OwnDayFiles (es : List Entry) : Prop := OwnFiles (init none) [] es

/-- On the same day of the month it is the same date. -/
def SameDate (d d' : GregDate) : Prop := d.day = d'.day → d = d'

/-! ### Names -/

theorem digit_inj {m n : ℕ} : digit m = digit n ↔ m % 10 = n % 10 := by
  rw [digit, digit, ← UInt8.toNat_inj, UInt8.toNat_ofNat', UInt8.toNat_ofNat']
  omega

theorem toIsoString_injective {d d' : GregDate} (h : toIsoString d = toIsoString d') : d = d' := by
  have hyear := d.year_le
  have hyear' := d'.year_le
  have hmonth := d.month_le
  have hmonth' := d'.month_le
  have hday := d.day_le.trans (daysInMonth_le d.year d.month)
  have hday' := d'.day_le.trans (daysInMonth_le d'.year d'.month)
  simp only [toIsoString, pad2, List.cons_append, List.nil_append, List.cons.injEq, digit_inj,
    and_true] at h
  have hdate : d.toDate = d'.toDate := by
    ext
    · omega
    · omega
    · omega
  cases d
  cases d'
  cases hdate
  rfl

/-- **No two dates share a file.** -/
theorem logPath_inj {d d' : GregDate} : logPath d = logPath d' ↔ d = d' := by
  constructor
  · intro h
    rw [logPath, logPath, List.append_cancel_left_eq, List.append_cancel_right_eq,
      List.append_cancel_left_eq] at h
    exact toIsoString_injective h
  · rintro rfl
    rfl

/-! ### One write -/

variable {d : GregDate} {e : Entry}

/-- The log with the file of `d` open. -/
def onDate (d : GregDate) : GLog := ⟨d.day, some (.file (logPath d))⟩

/-- The actions that come before the record of a new date. -/
def turnOver (fd : Option LogFd) (d : GregDate) : List LogAction :=
  (match fd with
    | some fd => [.print fd (List.replicate 69 62 ++ lit " continue\n"), .fclose fd]
    | none => []) ++
  [.fopen (.file (logPath d)), .print (.file (logPath d)) (List.replicate 79 45 ++ lit "\n")]

/-- On the same day of the month the file stays as it is, whatever the date. -/
theorem write_same (h : d.day = e.time.date.day) :
    (onDate d).write e ⟨true, true⟩ = some (onDate d, [.record (.file (logPath d)) e]) := by
  simp [write, validFile, changeDay, onDate, h]

/-- On another one, and at first, a new file is opened. -/
theorem write_new {s : GLog} (hday : s.day ≠ e.time.date.day)
    (hfd : s.fd = none ∨ ∃ path, s.fd = some (.file path)) :
    s.write e ⟨true, true⟩ = some (onDate e.time.date,
      turnOver s.fd e.time.date ++ [.record (.file (logPath e.time.date)) e]) := by
  obtain ⟨day, fd⟩ := s
  rcases hfd with hfd | ⟨path, hfd⟩
  · obtain rfl : fd = none := hfd
    simp [write, validFile, changeDay, turnOver, onDate, show day ≠ e.time.date.day from hday]
  · obtain rfl : fd = some (.file path) := hfd
    simp [write, validFile, changeDay, turnOver, onDate, show day ≠ e.time.date.day from hday]

theorem writes_cons {s s' : GLog} {ans : LogAnswers} {acts : List LogAction}
    {rest : List (Entry × LogAnswers)} (h : s.write e ans = some (s', acts)) :
    s.writes ((e, ans) :: rest) =
      (s'.writes rest).map fun r => (r.1, acts ++ r.2) := by
  rw [writes, h]

/-! ### Sequences of writes -/

/-- The files that are open after the actions. -/
def openAfter : List LogFd → List LogAction → List LogFd
  | opened, [] => opened
  | opened, .fopen fd :: rest => openAfter (fd :: opened) rest
  | opened, .fclose fd :: rest => openAfter (opened.erase fd) rest
  | opened, .print _ _ :: rest => openAfter opened rest
  | opened, .record _ _ :: rest => openAfter opened rest

theorem inOwnFile_append {opened : List LogFd} {acts acts' : List LogAction} :
    InOwnFile opened (acts ++ acts') ↔
      InOwnFile opened acts ∧ InOwnFile (openAfter opened acts) acts' := by
  induction acts generalizing opened with
  | nil => simp [InOwnFile, openAfter]
  | cons act acts ih =>
    rcases act with fd | fd | ⟨fd, text⟩ | ⟨fd, e⟩
    · exact ih
    · exact ih
    · exact ih
    · rw [List.cons_append, InOwnFile, InOwnFile, openAfter, ih]
      exact and_assoc.symm

theorem recorded_append {acts acts' : List LogAction} :
    recorded (acts ++ acts') = recorded acts ++ recorded acts' := List.filterMap_append

/-- The first record is in its own file, and the others are. -/
theorem ownFiles_cons {s s' : GLog} {opened : List LogFd} {pre : List LogAction} {fd : LogFd}
    {es : List Entry} (hwrite : s.write e ⟨true, true⟩ = some (s', pre ++ [.record fd e]))
    (hpre : recorded pre = []) (hown : InOwnFile opened pre) :
    OwnFiles s opened (e :: es) ↔
      (fd = .file (logPath e.time.date) ∧ openAfter opened pre = [fd]) ∧
        OwnFiles s' (openAfter opened pre) es := by
  have hcons : s.writes ((e :: es).map fine) =
      (s'.writes (es.map fine)).map fun r => (r.1, (pre ++ [.record fd e]) ++ r.2) :=
    writes_cons hwrite
  have hrecorded : ∀ acts, recorded (pre ++ [.record fd e] ++ acts) = e :: recorded acts := by
    intro acts
    rw [recorded_append, recorded_append, hpre]
    rfl
  have hin : ∀ acts, InOwnFile opened (pre ++ [.record fd e] ++ acts) ↔
      (fd = .file (logPath e.time.date) ∧ openAfter opened pre = [fd]) ∧
        InOwnFile (openAfter opened pre) acts := by
    intro acts
    rw [List.append_assoc, inOwnFile_append]
    exact and_iff_right hown
  rw [OwnFiles, OwnFiles, hcons]
  constructor
  · rintro ⟨s₁, acts, hrun, hrec, hacts⟩
    obtain ⟨⟨s₂, acts₂⟩, hrun₂, hpair⟩ := Option.map_eq_some_iff.mp hrun
    cases hpair
    rw [hrecorded] at hrec
    obtain ⟨hfd, hrest⟩ := (hin acts₂).mp hacts
    exact ⟨hfd, s₂, acts₂, hrun₂, (List.cons.inj hrec).2, hrest⟩
  · rintro ⟨hfd, s₂, acts₂, hrun₂, hrec, hrest⟩
    refine ⟨s₂, _, Option.map_eq_some_iff.mpr ⟨(s₂, acts₂), hrun₂, rfl⟩, ?_, ?_⟩
    · rw [hrecorded, hrec]
    · exact (hin acts₂).mpr ⟨hfd, hrest⟩

theorem ownFiles_onDate (es : List Entry) (d : GregDate) :
    OwnFiles (onDate d) [.file (logPath d)] es ↔
      List.IsChain SameDate (d :: es.map fun e => e.time.date) := by
  induction es generalizing d with
  | nil => exact iff_of_true ⟨_, [], rfl, rfl, trivial⟩ (List.IsChain.singleton _)
  | cons e es ih =>
    rw [List.map_cons, List.isChain_cons_cons, ← ih]
    by_cases hday : d.day = e.time.date.day
    · -- the file of `d` stays open
      rw [@ownFiles_cons _ _ _ _ [] _ _ (write_same hday) rfl trivial]
      by_cases hdate : d = e.time.date
      · subst hdate
        exact and_congr_left fun _ => iff_of_true ⟨rfl, rfl⟩ fun _ => rfl
      · refine iff_of_false ?_ fun h => hdate (h.1 hday)
        rintro ⟨⟨hfd, -⟩, -⟩
        exact hdate (logPath_inj.mp (LogFd.file.inj hfd))
    · -- the file of `d` is closed, and that of the new date opened
      have hnew : (onDate d).day ≠ e.time.date.day := fun h => hday (Nat.cast_injective h)
      have hopen : openAfter [.file (logPath d)] (turnOver (onDate d).fd e.time.date) =
          [.file (logPath e.time.date)] := by
        simp [turnOver, onDate, openAfter]
      rw [ownFiles_cons (write_new hnew (.inr ⟨_, rfl⟩)) rfl trivial, hopen]
      exact and_congr_left fun _ => iff_of_true ⟨rfl, rfl⟩ fun h => absurd h hday

/-- The first record opens the first file. -/
theorem ownDayFiles_cons (e : Entry) (es : List Entry) :
    OwnDayFiles (e :: es) ↔ List.IsChain SameDate ((e :: es).map fun e => e.time.date) := by
  have hnew : (init none).day ≠ e.time.date.day := by
    show (-1 : ℤ) ≠ e.time.date.day
    omega
  rw [OwnDayFiles, ownFiles_cons (write_new hnew (.inl rfl)) rfl trivial, List.map_cons,
    ← ownFiles_onDate]
  exact and_iff_right ⟨rfl, rfl⟩

/-- **When each record goes to its own day's file.** -/
theorem ownDayFiles_iff (es : List Entry) :
    OwnDayFiles es ↔ (es.map fun e => e.time.date).IsChain SameDate := by
  cases es with
  | nil => exact iff_of_true ⟨_, [], rfl, rfl, trivial⟩ .nil
  | cons e es => exact ownDayFiles_cons e es

/-- A line at noon. -/
def noonEntry (d : GregDate) : Entry := ⟨⟨d, 43200, by decide⟩, .normal, none, lit "ok"⟩

/-- After a silence of a month the record goes to the old file. -/
theorem not_ownDayFiles_month :
    ¬ ∀ es : List Entry, es.Pairwise (fun e e' => e.time.NotAfter e'.time) → OwnDayFiles es := by
  intro h
  let feb2024 := gregDate 2024 2 10 (by decide)
  have hchain := (ownDayFiles_cons _ _).mp (h [noonEntry jan2024, noonEntry feb2024] (by decide))
  rw [List.map_cons, List.map_cons, List.isChain_cons_cons] at hchain
  have hmonth := congrArg (fun d : GregDate => d.month) (hchain.1 rfl)
  exact absurd hmonth (by decide)

end GLog

end FtServer
