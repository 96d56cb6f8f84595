/-
FtServer/FailureBudget.lean

The failure budget of the writer.  `thread_monitor` is meant to give up after
five failures in a row: a failed save is counted before the next attempt, and
"stored successfully, clear the count" says its last branch.  But the three
branches of its `if` exclude each other.  When a success has emptied the queue,
the next round finds the queue empty, waits, and never reaches the branch that
clears the count; and the attempt that follows the fifth count is made although
the loop is already lost, so it may succeed.

`BudgetKept` is the intended budget as a safety property.  `budgetKept_iff`
says that it holds all along a run exactly when every step is a `CountedStep`:
no round finds the queue empty while failures are counted, and no attempt
succeeds after the fifth count.  `budget_overrun` is a run of two files that
ends the thread although the third last attempt had succeeded.
-/
import Mathlib.Data.List.TakeWhile
import FtServer.Lts
import FtServer.FileWritter

namespace FtServer

namespace FileWritter

variable {κ φ : Type}

/-! ### The budget -/

/-- Number of failed attempts since the latest success. -/
def failures (w : FileWritter κ φ) : ℕ := (w.attempts.takeWhile (· = false)).length

/-- The budget counts consecutive failures: outside the test, where the last
result has not been noticed yet, no failure before the latest success is
counted; and when the loop is over the five latest attempts have failed. -/
structure BudgetKept (w : FileWritter κ φ) : Prop where
  count : w.mon ≠ .test → w.errcnt ≤ w.failures
  exhausted : w.mon = .ended ∨ (w.mon = .test ∧ 5 ≤ w.errcnt) →
    w.attempts.take 5 = List.replicate 5 false

/-- The step condition: the monitor does not find the queue empty while
failures are counted, and no attempt made with a count of five succeeds. -/
def CountedStep (w : FileWritter κ φ) : WriterEvent κ φ → Prop
  | .monitor _ =>
    (w.mon = .test → w.errcnt < 5 → w.quenf = [] → w.errcnt = 0) ∧
      (w.mon = .popped → w.errcnt < 5)
  | _ => True

instance CountedStep.decidable (w : FileWritter κ φ) (e : WriterEvent κ φ) :
    Decidable (CountedStep w e) := by
  cases e <;> unfold CountedStep <;> infer_instance

theorem take_of_le_failures {w : FileWritter κ φ} (h : 5 ≤ w.failures) :
    w.attempts.take 5 = List.replicate 5 false := by
  -- the latest five attempts lie within the row of failures
  have htake : w.attempts.take 5 = (w.attempts.takeWhile (· = false)).take 5 := by
    obtain ⟨rest, hrest⟩ := List.takeWhile_prefix (l := w.attempts) (· = false)
    conv_lhs => rw [← hrest]
    exact List.take_append_of_le_length h
  rw [List.eq_replicate_iff, htake]
  refine ⟨?_, fun b hb => ?_⟩
  · rw [List.length_take]
    exact Nat.min_eq_left h
  · simpa using List.mem_takeWhile_imp (List.mem_of_mem_take hb)

/-! ### The invariant -/

/-- What holds between the count, the queue and the history as long as every
step is a `CountedStep`. -/
structure BudgetInv (w : FileWritter κ φ) : Prop where
  saving : w.mon = .saving → w.quenf ≠ []
  /-- a failure not yet noticed leaves the file in the queue and the count behind -/
  failed : w.mon = .test → w.rslt = false → w.quenf ≠ [] ∧ w.errcnt < w.failures
  /-- the thread comes to its first test as if from a success -/
  succeeded : (w.mon = .test ∧ w.rslt = true) ∨ w.mon = .start →
    w.failures = 0 ∧ w.errcnt < 5
  count : w.mon ≠ .test → w.errcnt ≤ w.failures
  ended : w.mon = .ended → 5 ≤ w.errcnt

theorem BudgetInv.init : BudgetInv (FileWritter.init : FileWritter κ φ) := by
  constructor <;> simp [FileWritter.init, failures]

theorem BudgetInv.kept {w : FileWritter κ φ} (h : BudgetInv w) : BudgetKept w where
  count := h.count
  exhausted := by
    intro hend
    apply take_of_le_failures
    rcases hend with hpc | ⟨hpc, herr⟩
    · exact Nat.le_trans (h.ended hpc) (h.count (by simp [hpc]))
    · cases hr : w.rslt with
      | false => exact Nat.le_of_lt (Nat.lt_of_le_of_lt herr (h.failed hpc hr).2)
      | true => exact absurd (h.succeeded (.inl ⟨hpc, hr⟩)).2 (by omega)

/-- Steps of the producers and wake-ups change neither the count nor the
history, only extend the queue, and move the monitor at most from the wait to
a save. -/
theorem BudgetInv.frame {w w' : FileWritter κ φ} (h : BudgetInv w)
    (hq : w.quenf ≠ [] → w'.quenf ≠ []) (herr : w'.errcnt = w.errcnt)
    (hr : w'.rslt = w.rslt) (hatt : w'.attempts = w.attempts)
    (hm : w'.mon = w.mon ∨ (w.mon = .blocked ∧ w'.mon = .save)) : BudgetInv w' := by
  have hf : w'.failures = w.failures := by rw [failures, hatt, failures]
  rcases hm with hm | ⟨hb, hs⟩
  · constructor
    · exact fun hpc => hq (h.saving (hm ▸ hpc))
    · intro hpc hr'
      obtain ⟨h₁, h₂⟩ := h.failed (hm ▸ hpc) (hr ▸ hr')
      exact ⟨hq h₁, by rwa [herr, hf]⟩
    · rw [hm, hr, hf, herr]
      exact h.succeeded
    · rw [hm, hf, herr]
      exact h.count
    · rw [hm, herr]
      exact h.ended
  · -- the monitor was blocked, so only the count has to be kept
    have hcount : w.errcnt ≤ w.failures := h.count (by simp [hb])
    constructor <;> simp [hs, herr, hf, hcount]

theorem BudgetInv.monStep {w w' : FileWritter κ φ} {ok : Bool} (h : BudgetInv w)
    (hok : CountedStep w (.monitor ok)) (hstep : MonStep w ok w') : BudgetInv w' := by
  obtain ⟨hempty, hlast⟩ := hok
  cases hstep with
  | start hpc =>
    have hz : w.failures = 0 := (h.succeeded (.inr hpc)).1
    constructor <;> simp [failures] at hz ⊢
    exact hz
  | finish hpc herr =>
    have hcount : w.errcnt ≤ w.failures := by
      cases hr : w.rslt with
      | false => exact Nat.le_of_lt (h.failed hpc hr).2
      | true => exact absurd (h.succeeded (.inl ⟨hpc, hr⟩)).2 (by omega)
    constructor <;> simp [failures] at hcount ⊢
    · exact hcount
    · exact herr
  | toWait hpc herr hq =>
    -- an empty queue is met with nothing counted
    have hz : w.errcnt = 0 := hempty hpc herr hq
    constructor <;> simp [hz]
  | count hpc herr hq hr =>
    have hlt : w.errcnt + 1 ≤ w.failures := (h.failed hpc hr).2
    constructor <;> simp [failures] at hlt ⊢
    exact hlt
  | clear hpc herr hq hr => constructor <;> simp
  | block hpc =>
    have hcount : w.errcnt ≤ w.failures := h.count (by simp [hpc])
    constructor <;> simp [failures] at hcount ⊢
    exact hcount
  | enter hpc hq =>
    have hcount : w.errcnt ≤ w.failures := h.count (by simp [hpc])
    constructor <;> simp [failures, hq] at hcount ⊢
    exact hcount
  | fail hpc =>
    -- the failed attempt lengthens the row of failures by one
    have hcount : w.errcnt ≤ w.failures := h.count (by simp [hpc])
    have hq := h.saving hpc
    constructor <;> simp [failures] at hcount ⊢
    exact ⟨hq, by omega⟩
  | pop hpc =>
    have hcount : w.errcnt ≤ w.failures := h.count (by simp [hpc])
    constructor <;> simp [failures] at hcount ⊢
    exact hcount
  | ret hpc =>
    have hlt : w.errcnt < 5 := hlast hpc
    constructor <;> simp [failures]
    exact hlt

variable [DecidableEq κ]

theorem BudgetInv.step {w w' : FileWritter κ φ} {e : WriterEvent κ φ} (h : BudgetInv w)
    (hok : CountedStep w e) (hstep : w.step e = some w') : BudgetInv w' := by
  cases e with
  | call k f =>
    obtain ⟨-, rfl⟩ := call_cases hstep
    exact h.frame id rfl rfl rfl (.inl rfl)
  | caller k =>
    cases newFile_cases hstep with
    | reject | accept | lost => exact h.frame id rfl rfl rfl (.inl rfl)
    | push => exact h.frame (by simp) rfl rfl rfl (.inl rfl)
    | wake _ hm => exact h.frame id rfl rfl rfl (.inr ⟨hm, rfl⟩)
  | monitor ok => exact h.monStep hok (threadMonitor_cases hstep)
  | spurious =>
    obtain ⟨hm, rfl⟩ := spuriousWake_cases hstep
    exact h.frame id rfl rfl rfl (.inr ⟨hm, rfl⟩)

/-- A step that is not a `CountedStep` breaks the budget at once. -/
theorem BudgetInv.broken {w w' : FileWritter κ φ} {e : WriterEvent κ φ} (h : BudgetInv w)
    (hok : ¬ CountedStep w e) (hstep : w.step e = some w') : ¬ BudgetKept w' := by
  cases e with
  | call | caller | spurious => exact absurd trivial hok
  | monitor ok =>
    intro hkept
    refine hok ⟨fun hpc herr hq => ?_, fun hpc => ?_⟩
    · -- the empty queue shows that the last attempt succeeded
      have hr : w.rslt = true := by
        by_contra hr
        exact (h.failed hpc (by simpa using hr)).1 hq
      have hz : w.failures = 0 := (h.succeeded (.inl ⟨hpc, hr⟩)).1
      cases threadMonitor_cases hstep with
      | toWait =>
        have hcount := hkept.count (by simp)
        simp only [failures] at hz hcount
        omega
      | start hpc' | block hpc' | enter hpc' | fail hpc' | pop hpc' | ret hpc' =>
        simp [hpc] at hpc'
      | finish _ herr' => omega
      | count _ _ hq' | clear _ _ hq' => exact absurd hq hq'
    · -- a success after the fifth count is the latest attempt when the loop ends
      by_contra herr
      cases threadMonitor_cases hstep with
      | ret =>
        have hfail := hkept.exhausted (.inr ⟨rfl, by simpa using herr⟩)
        simp [List.replicate_succ] at hfail
      | start hpc' | toWait hpc' | count hpc' | clear hpc' | block hpc' | enter hpc'
      | fail hpc' | pop hpc' | finish hpc' => simp [hpc] at hpc'

/-! ### The condition is exact -/

/-- **The failure budget counts consecutive failures exactly in the runs of
counted steps**: those in which the monitor never finds the queue empty while
failures are counted and no attempt succeeds after the fifth count. -/
theorem budgetKept_iff {es : List (WriterEvent κ φ)} {w : FileWritter κ φ}
    (hrun : Lts.run step init es = some w) :
    Lts.Always step BudgetKept init es ↔ Lts.RunAll step CountedStep init es :=
  Lts.always_iff_runAll (fun _ _ _ => BudgetInv.step) (fun _ => BudgetInv.kept)
    (fun _ _ _ => BudgetInv.broken) BudgetInv.init hrun

/-- A file that is saved at the second attempt, with another one behind it, so
that the success finds the queue non-empty and clears the count. -/
theorem budgetKept_retry : Lts.Always step BudgetKept (init : FileWritter Unit ℕ)
    [.call () 0, .monitor true, .caller (), .caller (), .caller (), .call () 1, .caller (),
      .caller (), .caller (), .monitor true, .monitor false, .monitor false, .monitor true,
      .monitor true, .monitor true, .monitor true, .monitor true] :=
  (budgetKept_iff rfl).mpr (by decide)

/-- Two files.  The first fails four times and is saved at the fifth attempt,
which empties the queue; the second then fails twice. -/
def overrunSchedule : List (WriterEvent Unit ℕ) :=
  let arrival (f : ℕ) : List (WriterEvent Unit ℕ) :=
    [.call () f, .caller (), .caller (), .caller ()]
  let attempt (ok : Bool) : List (WriterEvent Unit ℕ) :=
    [.monitor ok, .monitor ok, .monitor ok]
  [.monitor true] ++ arrival 0 ++
    attempt false ++ attempt false ++ attempt false ++ attempt false ++
    -- the success takes one step more to return, and the wait two
    attempt true ++ [.monitor true, .monitor true, .monitor true] ++
    arrival 1 ++ [.monitor false, .monitor false] ++ attempt false ++ [.monitor false]

/-- The thread ends although the third last attempt succeeded. -/
theorem budget_overrun :
    (Lts.run step init overrunSchedule).map (fun w => (w.mon, w.running, w.attempts)) =
      some (.ended, false, [false, false, true, false, false, false, false]) := by
  decide

/-- The failure budget is not a budget of consecutive failures. -/
theorem not_budgetKept : ¬ ∀ (es : List (WriterEvent Unit ℕ)) (w : FileWritter Unit ℕ),
    Lts.run step init es = some w → Lts.Always step BudgetKept init es := by
  intro h
  obtain ⟨w, hrun, hw⟩ := Option.map_eq_some_iff.mp budget_overrun
  obtain ⟨hmon, -, hatt⟩ := by simpa only [Prod.mk.injEq] using hw
  have hfail := ((h _ _ hrun).last hrun).exhausted (.inl hmon)
  rw [hatt] at hfail
  exact absurd hfail (by decide)

end FileWritter

end FtServer
