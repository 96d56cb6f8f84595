/-
FtServer/StoredFiles.lean

What is on the disk.  `fopen` with `"wb"` leaves an empty file at its path, and
`fwrite` appends to the file opened last; everything else that `save_first` does
leaves the contents of files alone.  `diskAfter` is the disk that the effects of a
run lead to.  A file is where its path leads: `a` and `./a` are one file.  Relative paths
are kept apart from absolute ones, and links are left out.

`disk_of_run` says what it holds: at every place the bytes of the last file saved
there, and where none was saved what was there before.  A file that is saved again
at the same place replaces the earlier one, and no two files mix.
-/
import FtServer.PropertyTree
import FtServer.UploadPaths
import FtServer.Uploads

namespace FtServer

open FsPath (append)
open Lexical (Place)

/-! ### The disk -/

/-- The contents of the files, and where the file is that was opened last. -/
structure Disk where
  files : Place Bytes → Option Bytes
  opened : Option (Place Bytes)

/-- What an effect does to the disk. -/
def Effect.onDisk (d : Disk) : Effect → Disk
  | .fopen path => ⟨Function.update d.files (place path) (some []), some (place path)⟩
  | .fwrite bytes =>
    match d.opened with
    | none => d
    | some p => { d with
        files := Function.update d.files p ((d.files p).map fun old => old ++ bytes) }
  | .createDirectory _ | .regImageFile .. | .popFront | .notify _ => d

/-- The files after the effects, on a disk that held `start`. -/
def diskAfter (start : Place Bytes → Option Bytes) (effects : List Effect) : Disk :=
  effects.foldl Effect.onDisk ⟨start, none⟩

/-- The effect touches no file. -/
def Effect.untouching : Effect → Bool
  | .fopen _ | .fwrite _ => false
  | .createDirectory _ | .regImageFile .. | .popFront | .notify _ => true

theorem onDisk_untouching {effects : List Effect} (h : ∀ x ∈ effects, x.untouching = true)
    (d : Disk) : effects.foldl Effect.onDisk d = d := by
  induction effects with
  | nil => rfl
  | cons x effects ih =>
    have hx := h x (List.mem_cons_self ..)
    have hd : Effect.onDisk d x = d := by
      cases x with
      | fopen | fwrite => cases hx
      | _ => rfl
    rw [List.foldl_cons, hd]
    exact ih fun y hy => h y (List.mem_cons_of_mem x hy)

/-- A file is opened and written. -/
theorem onDisk_write (d : Disk) (path bytes : Bytes) :
    [Effect.fopen path, .fwrite bytes].foldl Effect.onDisk d =
      ⟨Function.update d.files (place path) (some bytes), some (place path)⟩ := by
  simp [Effect.onDisk]

/-- What an attempt to save does to the disk. -/
theorem SaveStep.onDisk {env : SaveEnv} {ans : FsAnswers} {dir : Bytes} {f : FileInfo}
    {body : Except StdException Bool × List Effect} (h : SaveStep env ans dir f body)
    {rslt : Bool} (hr : body.1 = .ok rslt) (d : Disk) :
    (body.2.foldl Effect.onDisk d).files =
      if rslt then Function.update d.files (place (append env.fs dir f.filename))
        (some (f.filedata.take ans.fwrite))
      else d.files := by
  have hmake : ∀ d, (makeDirectory ans dir).2.foldl Effect.onDisk d = d := by
    refine onDisk_untouching fun x hx => ?_
    rw [makeDirectory_effects hx]
    rfl
  cases h with
  | noDirectory hd =>
    cases rslt with
    | true => exact absurd hr hd
    | false => simp [hmake]
  | noFile =>
    obtain rfl := Except.ok.inj hr
    simp [hmake]
  | badTime => cases hr
  | @saved hd hf reg ht =>
    obtain rfl := Except.ok.inj hr
    have hreg : ∀ d, reg.foldl Effect.onDisk d = d := by
      refine onDisk_untouching fun x hx => ?_
      unfold register at ht
      split at ht
      · split at ht
        · cases ht
        · obtain rfl := Except.ok.inj ht
          rw [List.mem_singleton.mp hx]
          rfl
      · obtain rfl := Except.ok.inj ht
        cases hx
    have hrest : ∀ d, (Effect.popFront ::
        if env.tcpcDp then [.notify (notification f)] else []).foldl Effect.onDisk d = d := by
      refine onDisk_untouching fun x hx => ?_
      rcases List.mem_cons.mp hx with rfl | hx
      · rfl
      · split at hx
        · rw [List.mem_singleton.mp hx]
          rfl
        · cases hx
    rw [List.foldl_append, List.foldl_append, List.foldl_append, hmake, onDisk_write, hreg, hrest,
      if_pos rfl]

namespace TransferAgent

variable {ι : Type}

/-! ### The saves and their paths -/

/-- A file on the disk: where it is, and its bytes. -/
structure Stored where
  place : Place Bytes
  bytes : Bytes
  deriving DecidableEq

/-- The file that a step writes to the disk: as much of it as the device takes. -/
def storedOf (s : TransferAgent ι) (e : AgentEvent ι) : List Stored :=
  match e with
  | .monitor ans => (s.saveOf e).map fun v =>
      ⟨place (append s.env.fs s.filepath v.info.filename),
        v.info.filedata.take ans.fwrite⟩
  | _ => []

/-- The disk on which a file has been stored. -/
def store (files : Place Bytes → Option Bytes) (x : Stored) : Place Bytes → Option Bytes :=
  Function.update files x.place (some x.bytes)

/-- As long as the process lives, the disk holds the files stored, one after the
other. -/
def OnDisk (start : Place Bytes → Option Bytes) (s : TransferAgent ι) (xs : List Stored) : Prop :=
  s.halted = false → (diskAfter start s.effects).files = xs.foldl store start

variable [DecidableEq ι] [Fintype ι] {δ : Type} {dbl : DoubleLib δ}

theorem OnDisk.step {start : Place Bytes → Option Bytes} {s s' : TransferAgent ι} {xs : List Stored}
    {e : AgentEvent ι} (h : OnDisk start s xs) (hs : s.step dbl e = some s') :
    OnDisk start s' (xs ++ s.storedOf e) := by
  intro hlive
  obtain ⟨hh, hstep⟩ := step_cases hs
  have hsame : s'.effects = s.effects → s.storedOf e = [] →
      (diskAfter start s'.effects).files = (xs ++ s.storedOf e).foldl store start := by
    intro heff hnone
    rw [heff, hnone, List.append_nil]
    exact h hh
  have hmon : ∀ ans, s.fw.mon ≠ .saving → s.storedOf (.monitor ans) = [] := by
    intro ans hm
    rw [storedOf, saveOf_eq_nil hm, List.map_nil]
  cases hstep with
  | recv | fail | io | msg | handOver | newFile | spurious | config => exact hsame rfl rfl
  | takeFirst hm => exact hsame rfl (hmon _ (by simp [hm]))
  | monitor hm hm' => exact hsame rfl (hmon _ hm')
  | saveThrew => cases hlive
  | @save ans a rslt w hm hp hb hw =>
    have hbody := (saveBody_cases s.env ans s.filepath (s.heap a)).onDisk hb
      (diskAfter start s.effects)
    rw [diskAfter, List.foldl_append, ← diskAfter, hbody, h hh]
    cases rslt with
    | true => simp [storedOf, saveOf, hm, hp, hb, store]
    | false => simp [storedOf, saveOf, hm, hp, hb]

/-- **The last file stays.**  As long as the process lives, the disk holds at every
place the bytes of the last file that was saved there, as many as the device took,
and what it held before the run where no file was saved. -/
theorem disk_of_run (start : Place Bytes → Option Bytes) {bufs : ι → PackBuf × PackBuf}
    {heap : Heap} {env : SaveEnv} {es : List (AgentEvent ι)} {s : TransferAgent ι}
    (hrun : Lts.run (step dbl) (init bufs heap env) es = some s) (hlive : s.halted = false)
    (p : Place Bytes) :
    (diskAfter start s.effects).files p =
      ((((Lts.outputs (step dbl) storedOf (init bufs heap env) es).filter
        fun x => x.place = p).getLast?).map fun x => some x.bytes).getD (start p) := by
  have h : OnDisk start s ([] ++ Lts.outputs (step dbl) storedOf (init bufs heap env) es) :=
    Lts.run_outputs (fun _ _ _ _ => OnDisk.step) (fun _ => rfl) hrun
  rw [h hlive, List.nil_append]
  refine @foldl_assign _ _ _ (fun files => files p) (fun x => x.place = p)
    (fun x => some x.bytes) store ?_ ..
  intro files x
  by_cases hx : x.place = p
  · simp [store, hx]
  · simp [store, hx, Function.update_of_ne (Ne.symm hx)]

/-- Two files at one place, one after the other. -/
def replacedSchedule : List (AgentEvent Unit) :=
  monitorSteps 1 ++ lineSchedule (lit "fileinfo filename=a,filesize=2\n") ++
    dataSchedule [7, 8] ++ msgSteps 9 ++ monitorSteps 4 ++
    lineSchedule (lit "fileinfo subpath=.,filename=a,filesize=1\n") ++ dataSchedule [9] ++
      msgSteps 9 ++ monitorSteps 4

theorem disk_replaced : ∃ s : TransferAgent Unit,
    Lts.run (step unitLib) single replacedSchedule = some s ∧
    Lts.outputs (step unitLib) storedOf single replacedSchedule =
      [⟨place (lit "a"), [7, 8]⟩, ⟨place (lit "a"), [9]⟩] ∧
    (diskAfter (fun _ => none) s.effects).files (place (lit "a")) =
      ((((Lts.outputs (step unitLib) storedOf single replacedSchedule).filter
        fun x => x.place = place (lit "a")).getLast?).map
          fun x => some x.bytes).getD none := by
  have heval : (Lts.run (step unitLib) single replacedSchedule).map
      (fun s => s.halted) = some false := by decide +kernel
  obtain ⟨s, hrun, hlive⟩ := Option.map_eq_some_iff.mp heval
  exact ⟨s, hrun, by decide +kernel, disk_of_run (fun _ => none) hrun hlive _⟩

end TransferAgent

end FtServer
