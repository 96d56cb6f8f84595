/-
FtServer/WakeUp.lean

Waking the writer.  The monitor waits on a condition variable with a mutex that
nobody else takes and without a predicate, and the producers append and notify
without any mutex.  Two things can go wrong, and both do:

* a file is appended and notified between the monitor's test of the queue and
  its wait: nobody is waiting yet, the notification is lost, and the monitor
  blocks with a file in the queue;
* the wait ends with an empty queue, by a spurious wake-up or by the late
  notification of a file that has been saved already: `save_first` then calls
  `front()` on an empty deque.

`wakeSafe_iff` says that these two are all: along a run the monitor is, and
stays over its own next step, safe exactly when every step is timely.
-/
import Mathlib.Data.Fintype.Basic
import FtServer.Lts
import FtServer.FileWritter

namespace FtServer

namespace FileWritter

variable {κ φ : Type}

/-! ### The property and the condition -/

/-- A call of `NewFile` has appended its file and has not notified yet. -/
def Notifying (w : FileWritter κ φ) (k : κ) : Prop := ∃ f, w.callers k = .pushed f

/-- `save_first` is entered with a file in the queue, and the monitor is
blocked with a file in the queue only while a notification is to come. -/
structure WakeSafe (w : FileWritter κ φ) : Prop where
  entered : w.mon = .save → w.quenf ≠ []
  blocked : w.mon = .blocked → w.quenf ≠ [] → ∃ k, w.Notifying k

/-- `WakeSafe`, and still so after the monitor's own next step. -/
def StaysWakeSafe (w : FileWritter κ φ) : Prop :=
  w.WakeSafe ∧ ∀ ok w', w.threadMonitor ok = some w' → w'.WakeSafe

/-- The step condition.  A wake-up finds a file in the queue; and a
notification that meets the monitor on its way from the test to the wait, with
a file in the queue, is not the last one. -/
def TimelyStep (w : FileWritter κ φ) : WriterEvent κ φ → Prop
  | .caller k => w.Notifying k →
      (w.mon = .blocked → w.quenf ≠ []) ∧
        (w.mon = .wait → w.quenf ≠ [] → ∃ j, j ≠ k ∧ w.Notifying j)
  | .spurious => w.quenf ≠ []
  | _ => True

instance Notifying.decidable (w : FileWritter κ φ) (k : κ) : Decidable (w.Notifying k) :=
  match h : w.callers k with
  | .pushed f => isTrue ⟨f, h⟩
  | .idle | .entered _ | .admitted _ => isFalse fun ⟨_, hf⟩ => by simp [h] at hf

instance TimelyStep.decidable [Fintype κ] [DecidableEq κ] (w : FileWritter κ φ)
    (e : WriterEvent κ φ) : Decidable (TimelyStep w e) :=
  match e with
  | .caller k => inferInstanceAs (Decidable (w.Notifying k →
      (w.mon = .blocked → w.quenf ≠ []) ∧
        (w.mon = .wait → w.quenf ≠ [] → ∃ j, j ≠ k ∧ w.Notifying j)))
  | .spurious => inferInstanceAs (Decidable (w.quenf ≠ []))
  | .call .. | .monitor _ => isTrue trivial

/-! ### The invariant -/

/-- From the test on, a file in the queue has its notification still to come. -/
structure WakeInv (w : FileWritter κ φ) : Prop where
  entered : w.mon = .save → w.quenf ≠ []
  announced : w.mon = .wait ∨ w.mon = .blocked → w.quenf ≠ [] → ∃ k, w.Notifying k

theorem WakeInv.init : WakeInv (FileWritter.init : FileWritter κ φ) := by
  constructor <;> simp [FileWritter.init]

theorem WakeInv.safe {w : FileWritter κ φ} (h : WakeInv w) : WakeSafe w where
  entered := h.entered
  blocked := fun hpc => h.announced (.inr hpc)

theorem WakeInv.monStep {w w' : FileWritter κ φ} {ok : Bool} (h : WakeInv w)
    (hstep : MonStep w ok w') : WakeInv w' := by
  cases hstep with
  | start | finish | enter | fail | pop | ret => constructor <;> simp
  | toWait _ _ hq => constructor <;> simp [hq]
  | count _ _ hq | clear _ _ hq => constructor <;> simp [hq]
  | block hpc =>
    constructor
    · simp
    · exact fun _ hq => h.announced (.inl hpc) hq

variable [DecidableEq κ]

/-- A notification to come from another caller is still to come. -/
theorem Notifying.update {w w' : FileWritter κ φ} {j k : κ} {c : CallPc φ}
    (h : w.Notifying j) (hjk : j ≠ k)
    (hw : w'.callers = Function.update w.callers k c) : w'.Notifying j := by
  obtain ⟨f, hf⟩ := h
  exact ⟨f, by rw [hw, Function.update_of_ne hjk, hf]⟩

omit [DecidableEq κ] in
/-- A call that has not appended yet is not among the notifications to come. -/
theorem ne_of_notifying {w : FileWritter κ φ} {j k : κ} (h : w.Notifying j)
    (hk : ∀ f, w.callers k ≠ .pushed f) : j ≠ k := by
  rintro rfl
  obtain ⟨f, hf⟩ := h
  exact hk f hf

theorem WakeInv.callStep {w w' : FileWritter κ φ} {k : κ} (h : WakeInv w)
    (hok : TimelyStep w (.caller k)) (hstep : CallStep w k w') : WakeInv w' := by
  cases hstep with
  | reject hpc | accept hpc =>
    refine ⟨h.entered, fun hm hq => ?_⟩
    obtain ⟨j, hj⟩ := h.announced hm hq
    exact ⟨j, hj.update (ne_of_notifying hj (by simp [hpc])) rfl⟩
  | push hpc =>
    -- the caller that has appended has its notification still to come
    refine ⟨by simp, fun _ _ => ⟨k, _, Function.update_self ..⟩⟩
  | wake hpc hm => exact ⟨fun _ => (hok ⟨_, hpc⟩).1 hm, by simp⟩
  | lost hpc hm =>
    -- the notification is gone, so another one has to come
    refine ⟨h.entered, fun hm' hq => ?_⟩
    obtain ⟨j, hjk, hj⟩ := (hok ⟨_, hpc⟩).2 (hm'.resolve_right hm) hq
    exact ⟨j, hj.update hjk rfl⟩

theorem WakeInv.step {w w' : FileWritter κ φ} {e : WriterEvent κ φ} (h : WakeInv w)
    (hok : TimelyStep w e) (hstep : w.step e = some w') : WakeInv w' := by
  cases e with
  | call k f =>
    obtain ⟨hpc, rfl⟩ := call_cases hstep
    refine ⟨h.entered, fun hm hq => ?_⟩
    obtain ⟨j, hj⟩ := h.announced hm hq
    exact ⟨j, hj.update (ne_of_notifying hj (by simp [hpc])) rfl⟩
  | caller k => exact h.callStep hok (newFile_cases hstep)
  | monitor ok => exact h.monStep (threadMonitor_cases hstep)
  | spurious =>
    obtain ⟨-, rfl⟩ := spuriousWake_cases hstep
    exact ⟨fun _ => hok, by simp⟩

/-- A step that is not timely leaves the monitor unsafe, or about to be. -/
theorem not_staysWakeSafe {w w' : FileWritter κ φ} {e : WriterEvent κ φ}
    (hok : ¬ TimelyStep w e) (hstep : w.step e = some w') : ¬ StaysWakeSafe w' := by
  rintro ⟨hsafe, hnext⟩
  cases e with
  | call | monitor => exact hok trivial
  | caller k =>
    refine hok fun hk => ?_
    obtain ⟨f, hf⟩ := hk
    cases newFile_cases hstep with
    | reject hpc | accept hpc | push hpc => simp [hf] at hpc
    | wake _ hm => exact ⟨fun _ => hsafe.entered rfl, by simp [hm]⟩
    | lost _ hm =>
      refine ⟨fun hb => absurd hb hm, fun hw hq => ?_⟩
      -- the monitor goes on to block, and its next step must be safe
      obtain ⟨j, g, hj⟩ := (hnext true { w with
        callers := Function.update w.callers k .idle, mon := .blocked }
        (by simp [threadMonitor, hw])).blocked rfl hq
      have hjk : j ≠ k := by
        rintro rfl
        simp at hj
      exact ⟨j, hjk, g, by simpa [Function.update_of_ne hjk] using hj⟩
  | spurious =>
    obtain ⟨-, rfl⟩ := spuriousWake_cases hstep
    exact hok (hsafe.entered rfl)

/-! ### The condition is exact -/

/-- **Waking is safe exactly in the runs of timely steps.**  In such a run
`save_first` is entered with a file in the queue and the monitor is never
blocked with a file in the queue and no notification to come.  And only in such
a run do both stay so over the monitor's own next step: the condition is that no
wake-up finds the queue empty, and that no last notification falls between the
test of a queue that has since been filled and the wait. -/
theorem wakeSafe_iff {es : List (WriterEvent κ φ)} {w : FileWritter κ φ}
    (hrun : Lts.run step init es = some w) :
    (Lts.RunAll step TimelyStep init es → Lts.Always step WakeSafe init es) ∧
      (Lts.Always step StaysWakeSafe init es ↔ Lts.RunAll step TimelyStep init es) := by
  have hiff : Lts.Always step StaysWakeSafe init es ↔ Lts.RunAll step TimelyStep init es :=
    Lts.always_iff_runAll (fun _ _ _ => WakeInv.step)
      (fun _ h => ⟨h.safe, fun _ _ hm => (h.monStep (threadMonitor_cases hm)).safe⟩)
      (fun _ _ _ _ => not_staysWakeSafe) WakeInv.init hrun
  exact ⟨fun hok => (hiff.mpr hok).mono fun _ h => h.1, hiff⟩

/-- A file that arrives while the monitor is blocked and is then saved. -/
theorem wakeSafe_single : Lts.Always step WakeSafe (init : FileWritter Unit ℕ)
    [.monitor true, .monitor true, .monitor true, .call () 0, .caller (), .caller (),
      .caller (), .monitor true, .monitor true, .monitor true, .monitor true] :=
  (wakeSafe_iff rfl).1 (by decide)

/-- The monitor blocks on the empty queue and wakes for no reason. -/
def spuriousSchedule : List (WriterEvent Unit ℕ) :=
  [.monitor true, .monitor true, .monitor true, .spurious]

/-- A file is appended and notified between the test and the wait. -/
def lostSchedule : List (WriterEvent Unit ℕ) :=
  [.monitor true, .monitor true, .call () 0, .caller (), .caller (), .caller (), .monitor true]

/-- Neither half of the wake-up safety holds of all runs: `save_first` is
entered with an empty queue, and the monitor is blocked with a file in the queue
while no call of `NewFile` is under way. -/
theorem not_wakeSafe :
    (Lts.run step init spuriousSchedule).map (fun w => (w.mon, w.quenf)) = some (.save, []) ∧
    (Lts.run step init lostSchedule).map (fun w => (w.mon, w.quenf, w.callers ())) =
      some (.blocked, [0], .idle) ∧
    ¬ ∀ (es : List (WriterEvent Unit ℕ)) (w : FileWritter Unit ℕ),
      Lts.run step init es = some w → Lts.Always step WakeSafe init es := by
  have hspurious : (Lts.run step init spuriousSchedule).map (fun w => (w.mon, w.quenf)) =
      some (.save, []) := by decide
  have hlost : (Lts.run step init lostSchedule).map (fun w => (w.mon, w.quenf, w.callers ())) =
      some (.blocked, [0], .idle) := by decide
  refine ⟨hspurious, hlost, fun h => ?_⟩
  obtain ⟨w, hrun, hw⟩ := Option.map_eq_some_iff.mp hspurious
  obtain ⟨hmon, hq⟩ := by simpa only [Prod.mk.injEq] using hw
  exact ((h _ _ hrun).last hrun).entered hmon hq

end FileWritter

end FtServer
