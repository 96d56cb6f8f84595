/-
FtServer/FileWritter.lean

The file writer as a transition system.  Producers, one for each index `k`,
call `NewFile`; the monitor thread runs `thread_monitor`.  One step is one
access to what the threads share:

* `NewFile` tests `running_`, then appends to the queue, then notifies;
* `thread_monitor` sets `running_`, tests the loop condition and the queue,
  enters the wait, and calls `save_first`, which takes the head of the queue,
  works on it, pops it and returns.

The queue holds file handles of any type `φ`, and how `save_first` fares on the
head is an input of the monitor's step, so the results about the thread hold
for every behaviour of the file system.  The condition variable is the
documented one: `notify_one` wakes the monitor when it is blocked in the wait
and is lost otherwise, and a blocked monitor may wake for no reason.

`accepted`, `saved` and `attempts` are history: what was ever appended, what
was ever popped, and the results of the calls of `save_first`, latest first.
No step reads them.
-/
import Mathlib.Tactic.Common
import Mathlib.Data.Nat.Notation
import Mathlib.Logic.Function.Basic

namespace FtServer

/-! ### State -/

/-- Where `thread_monitor` stands. -/
inductive MonPc
  /-- the thread has not set `running_` yet -/
  | start
  /-- at the loop condition -/
  | test
  /-- the queue was found empty, `wait` comes next -/
  | wait
  /-- inside `wait` -/
  | blocked
  /-- about to call `save_first` -/
  | save
  /-- inside `save_first`, the head of the queue has been taken -/
  | saving
  /-- inside `save_first`, the head has been popped -/
  | popped
  /-- the loop has ended -/
  | ended
  deriving DecidableEq, Repr

/-- Where a call of `NewFile(f)` stands. -/
inductive CallPc (φ : Type)
  | idle
  /-- about to test `running_` -/
  | entered (f : φ)
  /-- `running_` was true, `push_back` comes next -/
  | admitted (f : φ)
  /-- appended, `notify_one` comes next -/
  | pushed (f : φ)
  deriving DecidableEq, Repr

/-- The file a call is about; it holds a reference to it. -/
def CallPc.file? {φ : Type} : CallPc φ → Option φ
  | .idle => none
  | .entered f | .admitted f | .pushed f => some f

/-- `FileWritter`, with its monitor thread and its callers `κ`. -/
structure FileWritter (κ φ : Type) where
  quenf : List φ
  running : Bool
  callers : κ → CallPc φ
  mon : MonPc
  errcnt : ℕ
  rslt : Bool
  /-- the local pointer of `save_first` -/
  ptr : Option φ
  accepted : List φ
  saved : List φ
  attempts : List Bool

/-- Events: a producer calls `NewFile`, a call proceeds, the monitor proceeds
(`ok` is what `save_first` makes of the file), the wait ends spuriously. -/
inductive WriterEvent (κ φ : Type)
  | call (k : κ) (f : φ)
  | caller (k : κ)
  | monitor (ok : Bool)
  | spurious
  deriving DecidableEq, Repr

namespace FileWritter

variable {κ φ : Type} [DecidableEq κ]

/-! ### Steps -/

/-- The writer as constructed: the monitor thread exists but has not run. -/
def init : FileWritter κ φ where
  quenf := []
  running := false
  callers := fun _ => .idle
  mon := .start
  errcnt := 0
  rslt := true
  ptr := none
  accepted := []
  saved := []
  attempts := []

/-- Enter `NewFile(f)`. -/
def call (w : FileWritter κ φ) (k : κ) (f : φ) : Option (FileWritter κ φ) :=
  match w.callers k with
  | .idle => some { w with callers := Function.update w.callers k (.entered f) }
  | _ => none

/-- One step of the call of `NewFile` by `k`. -/
def newFile (w : FileWritter κ φ) (k : κ) : Option (FileWritter κ φ) :=
  match w.callers k with
  | .idle => none
  | .entered f =>
    if w.running then some { w with callers := Function.update w.callers k (.admitted f) }
    else some { w with callers := Function.update w.callers k .idle }
  | .admitted f =>
    some { w with
      quenf := w.quenf ++ [f]
      accepted := w.accepted ++ [f]
      callers := Function.update w.callers k (.pushed f) }
  | .pushed _ =>
    some { w with
      callers := Function.update w.callers k .idle
      -- `notify_one` is lost on a monitor that does not wait yet
      mon := if w.mon = .blocked then .save else w.mon }

/-- One step of `thread_monitor`. -/
def threadMonitor (w : FileWritter κ φ) (ok : Bool) : Option (FileWritter κ φ) :=
  match w.mon with
  | .start => some { w with running := true, errcnt := 0, rslt := true, mon := .test }
  | .test =>
    if w.errcnt < 5 then
      -- the branches exclude each other: on an empty queue `rslt` is not looked at
      if w.quenf.isEmpty then some { w with mon := .wait }
      else if !w.rslt then some { w with errcnt := w.errcnt + 1, mon := .save }
      else if w.errcnt ≠ 0 then some { w with errcnt := 0, mon := .save }
      else some { w with mon := .save }
    else some { w with running := false, mon := .ended }
  | .wait => some { w with mon := .blocked }
  | .blocked => none
  | .save =>
    match w.quenf with
    | [] => none  -- front() of an empty deque is undefined
    | f :: _ => some { w with ptr := some f, mon := .saving }
  | .saving =>
    if ok then
      some { w with quenf := w.quenf.tail, saved := w.saved ++ w.quenf.take 1, mon := .popped }
    else
      some { w with ptr := none, rslt := false, attempts := false :: w.attempts, mon := .test }
  | .popped =>
    some { w with ptr := none, rslt := true, attempts := true :: w.attempts, mon := .test }
  | .ended => none

/-- The wait ends without a notification. -/
def spuriousWake (w : FileWritter κ φ) : Option (FileWritter κ φ) :=
  if w.mon = .blocked then some { w with mon := .save } else none

/-- One step of the writer. -/
def step (w : FileWritter κ φ) : WriterEvent κ φ → Option (FileWritter κ φ)
  | .call k f => w.call k f
  | .caller k => w.newFile k
  | .monitor ok => w.threadMonitor ok
  | .spurious => w.spuriousWake

/-! ### What a step can do -/

/-- The steps of `thread_monitor`, one constructor for each. -/
inductive MonStep (w : FileWritter κ φ) : Bool → FileWritter κ φ → Prop
  | start {ok} (hpc : w.mon = .start) :
      MonStep w ok { w with running := true, errcnt := 0, rslt := true, mon := .test }
  | finish {ok} (hpc : w.mon = .test) (herr : 5 ≤ w.errcnt) :
      MonStep w ok { w with running := false, mon := .ended }
  | toWait {ok} (hpc : w.mon = .test) (herr : w.errcnt < 5) (hq : w.quenf = []) :
      MonStep w ok { w with mon := .wait }
  | count {ok} (hpc : w.mon = .test) (herr : w.errcnt < 5) (hq : w.quenf ≠ [])
      (hr : w.rslt = false) : MonStep w ok { w with errcnt := w.errcnt + 1, mon := .save }
  | clear {ok} (hpc : w.mon = .test) (herr : w.errcnt < 5) (hq : w.quenf ≠ [])
      (hr : w.rslt = true) : MonStep w ok { w with errcnt := 0, mon := .save }
  | block {ok} (hpc : w.mon = .wait) : MonStep w ok { w with mon := .blocked }
  | enter {ok} (hpc : w.mon = .save) {f rest} (hq : w.quenf = f :: rest) :
      MonStep w ok { w with ptr := some f, mon := .saving }
  | fail (hpc : w.mon = .saving) :
      MonStep w false
        { w with ptr := none, rslt := false, attempts := false :: w.attempts, mon := .test }
  | pop (hpc : w.mon = .saving) :
      MonStep w true
        { w with quenf := w.quenf.tail, saved := w.saved ++ w.quenf.take 1, mon := .popped }
  | ret {ok} (hpc : w.mon = .popped) :
      MonStep w ok
        { w with ptr := none, rslt := true, attempts := true :: w.attempts, mon := .test }

omit [DecidableEq κ] in
theorem threadMonitor_cases {w w' : FileWritter κ φ} {ok : Bool}
    (h : w.threadMonitor ok = some w') : MonStep w ok w' := by
  obtain ⟨quenf, running, callers, mon, errcnt, rslt, ptr, accepted, saved, attempts⟩ := w
  cases mon with
  | start =>
    obtain rfl := Option.some.inj h
    exact .start rfl
  | test =>
    simp only [threadMonitor] at h
    by_cases herr : errcnt < 5
    · rw [if_pos herr] at h
      cases quenf with
      | nil =>
        obtain rfl := Option.some.inj h
        exact .toWait rfl herr rfl
      | cons f rest =>
        cases rslt with
        | false =>
          obtain rfl := Option.some.inj h
          exact .count rfl herr (List.cons_ne_nil _ _) rfl
        | true =>
          -- the count is cleared where it is not zero, which leaves it zero
          have hclear := @MonStep.clear _ _ ⟨f :: rest, running, callers, .test, errcnt, true,
            ptr, accepted, saved, attempts⟩ ok rfl herr (List.cons_ne_nil _ _) rfl
          by_cases hz : errcnt = 0
          · subst hz
            obtain rfl := Option.some.inj h
            exact hclear
          · simp only [List.isEmpty_cons, Bool.false_eq_true, ↓reduceIte, Bool.not_true,
              ne_eq, hz, not_false_eq_true] at h
            obtain rfl := Option.some.inj h
            exact hclear
    · rw [if_neg herr] at h
      obtain rfl := Option.some.inj h
      exact .finish rfl (Nat.le_of_not_lt herr)
  | wait =>
    obtain rfl := Option.some.inj h
    exact .block rfl
  | blocked => cases h
  | save =>
    cases quenf with
    | nil => cases h
    | cons f rest =>
      obtain rfl := Option.some.inj h
      exact .enter rfl rfl
  | saving =>
    cases ok with
    | false =>
      obtain rfl := Option.some.inj h
      exact .fail rfl
    | true =>
      obtain rfl := Option.some.inj h
      exact .pop rfl
  | popped =>
    obtain rfl := Option.some.inj h
    exact .ret rfl
  | ended => cases h

omit [DecidableEq κ] in
/-- `save_first` takes the head of the queue. -/
theorem threadMonitor_save {w : FileWritter κ φ} {ok : Bool} {f : φ} {rest : List φ}
    (hm : w.mon = .save) (hq : w.quenf = f :: rest) :
    w.threadMonitor ok = some { w with ptr := some f, mon := .saving } := by
  simp only [threadMonitor, hm, hq]

/-- The steps of a call of `NewFile`. -/
inductive CallStep (w : FileWritter κ φ) (k : κ) : FileWritter κ φ → Prop
  | reject {f} (hpc : w.callers k = .entered f) (hr : w.running = false) :
      CallStep w k { w with callers := Function.update w.callers k .idle }
  | accept {f} (hpc : w.callers k = .entered f) (hr : w.running = true) :
      CallStep w k { w with callers := Function.update w.callers k (.admitted f) }
  | push {f} (hpc : w.callers k = .admitted f) :
      CallStep w k
        { w with
          quenf := w.quenf ++ [f]
          accepted := w.accepted ++ [f]
          callers := Function.update w.callers k (.pushed f) }
  | wake {f} (hpc : w.callers k = .pushed f) (hm : w.mon = .blocked) :
      CallStep w k { w with callers := Function.update w.callers k .idle, mon := .save }
  | lost {f} (hpc : w.callers k = .pushed f) (hm : w.mon ≠ .blocked) :
      CallStep w k { w with callers := Function.update w.callers k .idle }

theorem newFile_cases {w w' : FileWritter κ φ} {k : κ} (h : w.newFile k = some w') :
    CallStep w k w' := by
  unfold newFile at h
  split at h
  · cases h
  · rename_i f hpc
    split at h
    · rename_i hr
      obtain rfl := Option.some.inj h
      exact .accept hpc hr
    · rename_i hr
      obtain rfl := Option.some.inj h
      exact .reject hpc (by simpa using hr)
  · rename_i f hpc
    obtain rfl := Option.some.inj h
    exact .push hpc
  · rename_i f hpc
    by_cases hm : w.mon = .blocked
    · rw [if_pos hm] at h
      obtain rfl := Option.some.inj h
      exact .wake hpc hm
    · rw [if_neg hm] at h
      obtain rfl := Option.some.inj h
      exact .lost hpc hm

theorem call_cases {w w' : FileWritter κ φ} {k : κ} {f : φ} (h : w.call k f = some w') :
    w.callers k = .idle ∧ w' = { w with callers := Function.update w.callers k (.entered f) } := by
  unfold call at h
  split at h
  · rename_i hpc
    exact ⟨hpc, (Option.some.inj h).symm⟩
  · cases h

omit [DecidableEq κ] in
theorem spuriousWake_cases {w w' : FileWritter κ φ} (h : w.spuriousWake = some w') :
    w.mon = .blocked ∧ w' = { w with mon := .save } := by
  unfold spuriousWake at h
  split at h
  · rename_i hm
    exact ⟨hm, (Option.some.inj h).symm⟩
  · cases h

end FileWritter

end FtServer
