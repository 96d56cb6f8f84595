/-
FtServer/LinesSent.lean

The lines that the server sends.  `notify_status` writes a status line to the
client, on a connection without buffers; `save_first` writes a file line to the
data process, on a buffered one.  `Write` may take only a part of a line, and
says so by the value it returns, which neither of the two looks at.

`LinesWhole` is what the peer relies on: it has seen whole lines, and at most the
front of one more whose rest is on the way.  `linesWhole_of_whole` says that this
holds all along a run in which no line is taken in part, and `not_linesWhole` is a
run in which one is.
-/
import Mathlib.Data.List.Sublists
import FtServer.Compact
import FtServer.FileReceiver
import FtServer.SaveFirst
import FtServer.SendPipeline

namespace FtServer

/-- The number of a status in a `filestat` line. -/
def RcvState.toInt32 : RcvState → Int32
  | .waiting => 0
  | .ready => 1
  | .complete => 2
  | .failure => 3

namespace TCPSender

/-! ### The callers -/

/-- What `notify_status` encodes. -/
def statusLine (now : Bytes) (status : RcvState) : Option Bytes :=
  (compactFileStat now (some { type := lit "filestat", status := status.toInt32 })).map Prod.snd

/-- What `save_first` encodes for a file it has saved. -/
def fileLine (now : Bytes) (f : FileInfo) : Option Bytes :=
  (compactFileInfo now (some (notification f))).map Prod.snd

/-- `notify_status`, whose `write_some` takes `taken` bytes; the end of
`save_first`; the completion of an asynchronous write. -/
inductive LineEvent
  | notifyStatus (now : Bytes) (status : RcvState) (taken : ℕ)
  | notifyFile (now : Bytes) (f : FileInfo)
  | complete (i k : ℕ)

/-- The line of a call. -/
def LineEvent.line : LineEvent → Option Bytes
  | .notifyStatus now status _ => statusLine now status
  | .notifyFile now f => fileLine now f
  | .complete _ _ => none

variable (c : TCPSender)

/-- The connection to a client has no buffers, the one to the data process has.
A null pointer writes nothing. -/
def lineStep : LineEvent → Option TCPSender
  | .notifyStatus now status taken =>
    if c.usebuf then none
    else
      match statusLine now status with
      | some line => step c (.write line taken)
      | none => some c
  | .notifyFile now f =>
    if c.usebuf then
      match fileLine now f with
      | some line => step c (.write line 0)
      | none => some c
    else none
  | .complete i k => step c (.complete i k)

/-- The lines of the calls of a run, in order. -/
def lines (c : TCPSender) (es : List LineEvent) : List Bytes :=
  Lts.outputs lineStep (fun _ e => e.line.toList) c es

/-- The peer has seen whole lines, and then at most the front of a line whose
rest is the next thing that the ring sends. -/
def LinesWhole (lines : List Bytes) : Prop :=
  ∃ whole part, c.wire = whole.flatten ++ part ∧ whole.Sublist lines ∧
    (∀ l ∈ whole, ∃ text, l = text ++ [10]) ∧
    (part = [] ∨ ∃ rest later, c.crcsnd.contents = rest ++ later ∧
      (whole ++ [part ++ rest]).Sublist lines)

/-- The line of the call is taken whole: by the socket, or by the ring; a full
ring takes nothing of it. -/
def WholeStep : LineEvent → Prop
  | .notifyStatus now status taken => ∀ l ∈ statusLine now status, taken = l.length
  | .notifyFile now f => ∀ l ∈ fileLine now f,
    c.crcsnd.size + l.length ≤ ringCapacity ∨ c.crcsnd.size = ringCapacity
  | .complete _ _ => True

instance (c : TCPSender) : (e : LineEvent) → Decidable (WholeStep c e)
  | .notifyStatus now status taken =>
    inferInstanceAs (Decidable (∀ l ∈ statusLine now status, taken = l.length))
  | .notifyFile now f => inferInstanceAs (Decidable (∀ l ∈ fileLine now f,
    c.crcsnd.size + l.length ≤ ringCapacity ∨ c.crcsnd.size = ringCapacity))
  | .complete _ _ => isTrue trivial

/-! ### Lines -/

/-- An encoder ends its text with a newline, whatever the fields are. -/
theorem line_newline {e : LineEvent} {l : Bytes} (h : l ∈ e.line) : ∃ text, l = text ++ [10] := by
  cases e with
  | notifyStatus now status taken =>
    obtain rfl := Option.some.inj h
    exact ⟨_, rfl⟩
  | notifyFile now f =>
    obtain rfl := Option.some.inj h
    exact ⟨_, rfl⟩
  | complete i k => cases h

/-- Where the bytes sent and queued are lines, the peer has seen whole ones and
the front of the next. -/
theorem LinesWhole.of_flatten {c : TCPSender} {lines ls : List Bytes} (hsub : ls.Sublist lines)
    (hnewline : ∀ l ∈ lines, ∃ text, l = text ++ [10])
    (h : c.wire ++ c.crcsnd.contents = ls.flatten) : LinesWhole c lines := by
  rcases List.flatten_eq_append_iff.mp h.symm with
    ⟨whole, todo, rfl, hwire, -⟩ | ⟨whole, part, b, rest, todo, rfl, hwire, hqueued⟩
  · -- the ring begins with a line
    have hwhole := (List.sublist_append_left whole todo).trans hsub
    exact ⟨whole, [], by simpa using hwire, hwhole,
      fun l hl => hnewline l (hwhole.subset hl), .inl rfl⟩
  · -- the ring begins inside one
    have hnext : (whole ++ [part ++ b :: rest]).Sublist lines := by
      refine .trans (.append_left ?_ whole) hsub
      exact List.singleton_sublist.mpr (List.mem_cons_self ..)
    have hwhole := (List.sublist_append_left whole _).trans hnext
    exact ⟨whole, part, hwire, hwhole, fun l hl => hnewline l (hwhole.subset hl),
      .inr ⟨b :: rest, todo.flatten, hqueued, hnext⟩⟩

/-! ### Steps -/

/-- Of the lines of the calls so far, some have been accepted, and these whole. -/
inductive LinesInv (c : TCPSender) (lines : List Bytes) : Prop
  | buffered {ls : List Bytes} (hsub : ls.Sublist lines) (h : PipelineInv c ls.flatten)
  | unbuffered {ls : List Bytes} (hsub : ls.Sublist lines) (hu : c.usebuf = false)
      (hwire : c.wire = ls.flatten) (hring : c.crcsnd.contents = []) (hnone : c.requests = [])

theorem LinesInv.flatten {c : TCPSender} {lines : List Bytes} (h : LinesInv c lines) :
    ∃ ls : List Bytes, ls.Sublist lines ∧ c.wire ++ c.crcsnd.contents = ls.flatten := by
  cases h with
  | @buffered ls hsub h => exact ⟨ls, hsub, h.stream⟩
  | @unbuffered ls hsub _ hwire hring _ => exact ⟨ls, hsub, by simpa [hring] using hwire⟩

/-- A line that is taken whole, or not at all. -/
theorem LinesInv.notifyFile {c c' : TCPSender} {ls lines : List Bytes} {line : Bytes}
    (hsub : ls.Sublist lines) (h : PipelineInv c ls.flatten)
    (hwhole : c.crcsnd.size + line.length ≤ ringCapacity ∨ c.crcsnd.size = ringCapacity)
    (hs : step c (.write line 0) = some c') : LinesInv c' (lines ++ [line]) := by
  have hnext := h.step hs
  rw [accepted, write_buffered h.usebuf] at hnext
  rcases hwhole with hroom | hfull
  · have haccepted : (ls ++ [line]).Sublist (lines ++ [line]) := hsub.append (.refl _)
    rw [Nat.min_eq_left (by omega), List.take_length] at hnext
    exact .buffered haccepted (by simpa using hnext)
  · rw [hfull, Nat.sub_self, Nat.min_zero, List.take_zero, List.append_nil] at hnext
    exact .buffered (hsub.trans (List.sublist_append_left ..)) hnext

theorem LinesInv.notifyStatus {c c' : TCPSender} {ls lines : List Bytes} {line : Bytes}
    (hsub : ls.Sublist lines) (hu : c.usebuf = false) (hwire : c.wire = ls.flatten)
    (hring : c.crcsnd.contents = []) (hnone : c.requests = [])
    (hs : step c (.write line line.length) = some c') : LinesInv c' (lines ++ [line]) := by
  have haccepted : (ls ++ [line]).Sublist (lines ++ [line]) := hsub.append (.refl _)
  simp only [step] at hs
  split at hs
  · obtain rfl := Option.some.inj hs
    rw [write_unbuffered hu, List.take_length]
    exact .unbuffered haccepted hu (by simp [hwire]) hring hnone
  · cases hs

theorem LinesInv.step {c c' : TCPSender} {lines : List Bytes} {e : LineEvent}
    (h : LinesInv c lines) (hwhole : WholeStep c e) (hs : lineStep c e = some c') :
    LinesInv c' (lines ++ e.line.toList) := by
  cases h with
  | @buffered ls hsub h =>
    cases e with
    | notifyStatus now status taken => simp [lineStep, h.usebuf] at hs
    | notifyFile now f =>
      rw [lineStep, if_pos h.usebuf] at hs
      exact .notifyFile hsub h (hwhole _ rfl) hs
    | complete i k =>
      have hnext : PipelineInv c' ls.flatten := by
        simpa [accepted] using h.step (e := .complete i k) hs
      exact .buffered (by simpa [LineEvent.line] using hsub) hnext
  | @unbuffered ls hsub hu hwire hring hnone =>
    cases e with
    | notifyStatus now status taken =>
      obtain rfl := hwhole _ rfl
      rw [lineStep, if_neg (by simp [hu])] at hs
      exact .notifyStatus hsub hu hwire hring hnone hs
    | notifyFile now f => simp [lineStep, hu] at hs
    | complete i k => simp [lineStep, TCPSender.step, hnone] at hs

/-! ### Runs -/

theorem lines_newline (c : TCPSender) (es : List LineEvent) :
    ∀ l ∈ lines c es, ∃ text, l = text ++ [10] := by
  induction es generalizing c with
  | nil => simp [lines, Lts.outputs]
  | cons e es ih =>
    intro l hl
    simp only [lines, Lts.outputs] at hl
    split at hl
    · rcases List.mem_append.mp hl with hl | hl
      · exact line_newline (Option.mem_toList.mp hl)
      · exact ih _ l hl
    · cases hl

/-- **Lines are sent whole or not at all as long as none is taken in part**: in
every run, with or without buffers, whose unbuffered writes take the whole line
and whose buffered ones find room for it or none at all. -/
theorem linesWhole_of_whole {usebuf : Bool} {mem : Bytes} {hmem : mem.length = ringCapacity}
    {es : List LineEvent} {c : TCPSender}
    (hwhole : Lts.RunAll lineStep WholeStep (init usebuf mem hmem) es)
    (hrun : Lts.run lineStep (init usebuf mem hmem) es = some c) :
    LinesWhole c (lines (init usebuf mem hmem) es) := by
  have hinit : LinesInv (init usebuf mem hmem) [] := by
    cases usebuf with
    | true => exact .buffered .slnil ⟨rfl, by simp [init], .inl ⟨rfl, rfl⟩⟩
    | false => exact .unbuffered .slnil rfl rfl (by simp [init]) rfl
  have hstep : ∀ c ls e c', LinesInv c ls → WholeStep c e → lineStep c e = some c' →
      LinesInv c' (ls ++ e.line.toList) :=
    fun c ls e c' h hok hs => h.step hok hs
  obtain ⟨ls, hsub, hstream⟩ := (Lts.run_outputs_of hstep hinit hwhole hrun).flatten
  exact .of_flatten hsub (lines_newline _ es) hstream

/-- A file line of which the peer takes five bytes at first, and another one that
is queued behind it. -/
def twoFiles : List LineEvent :=
  [.notifyFile (lit "now") twoBytes, .complete 0 5, .notifyFile (lit "now") twoBytes]

theorem linesWhole_twoFiles : ∃ c : TCPSender, Lts.run lineStep (zeroed true) twoFiles = some c ∧
    c.wire = lit "filei" ∧ LinesWhole c (lines (zeroed true) twoFiles) := by
  have hwhole : Lts.RunAll lineStep WholeStep (zeroed true) twoFiles := by
    decide +kernel
  have heval : (Lts.run lineStep (zeroed true) twoFiles).map (·.wire) = some (lit "filei") := by
    decide +kernel
  obtain ⟨c, hrun, hwire⟩ := Option.map_eq_some_iff.mp heval
  exact ⟨c, hrun, hwire, linesWhole_of_whole hwhole hrun⟩

/-- A client that is told `READY`, of which the socket takes five bytes, and
then `COMPLETE`. -/
def cutShort : List LineEvent :=
  [.notifyStatus (lit "now") .ready 5, .notifyStatus (lit "now") .complete 26]

/-- The peer sees the front of the one line run into the other. -/
theorem not_linesWhole : ¬ ∀ (usebuf : Bool) (es : List LineEvent) (c : TCPSender),
    Lts.run lineStep (zeroed usebuf) es = some c →
      LinesWhole c (lines (zeroed usebuf) es) := by
  intro hall
  have heval : (Lts.run lineStep (zeroed false) cutShort).map
      (fun c => (c.wire, c.crcsnd.contents)) =
        some (lit "filesfilestat utc=now,status=2\n", []) := by
    decide +kernel
  obtain ⟨c, hrun, hc⟩ := Option.map_eq_some_iff.mp heval
  obtain ⟨hwire, hring⟩ := Prod.mk.inj hc
  obtain ⟨whole, part, hsplit, hwhole, -, hpart⟩ := hall false cutShort c hrun
  -- nothing is queued, so what the peer has seen would be some of the lines
  have hlines : ∃ ls ∈ (lines (zeroed false) cutShort).sublists, c.wire = ls.flatten := by
    rcases hpart with rfl | ⟨rest, later, hqueued, hnext⟩
    · exact ⟨whole, List.mem_sublists.mpr hwhole, by simpa using hsplit⟩
    · rw [hring] at hqueued
      obtain ⟨rfl, -⟩ := List.append_eq_nil_iff.mp hqueued.symm
      exact ⟨_, List.mem_sublists.mpr hnext, by simpa using hsplit⟩
  rw [hwire] at hlines
  revert hlines
  decide +kernel

end TCPSender

end FtServer
