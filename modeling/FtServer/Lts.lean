/-
FtServer/Lts.lean

Guarded step functions as labelled transition systems.  A machine is a function
`step : σ → ε → Option σ`: `step s e = some s'` when event `e` is enabled in
`s` and leads to `s'`, and `none` when it is not enabled there.

* `run` executes a list of events, so a concrete schedule is checked by
  evaluation;
* `RunAll Ok` says that every step of a run meets the step condition `Ok`,
  and `Always P` that every state of a run, first and last included, meets `P`;
* `run_invariant` and `run_invariant_of` turn a step lemma into a run lemma,
  without and with a step condition;
* `always_iff_runAll` is the form used for exact conditions: a safety property
  holds all along a run exactly when every step of the run meets the condition;
* `exists_run_of_rank` turns a step that lowers a rank into a run to a goal;
* `outputs` collects what the steps of a run put out, for histories that the
  state itself does not keep, and `run_outputs` is the induction over it.

Nothing here mentions the file server.
-/
import Mathlib.Tactic.Common

namespace FtServer

namespace Lts

variable {σ ε τ δ : Type*}

/-! ### Runs -/

/-- Execute the events in order; `none` as soon as one of them is not enabled. -/
def run (step : σ → ε → Option σ) : σ → List ε → Option σ
  | s, [] => some s
  | s, e :: es =>
    match step s e with
    | some s' => run step s' es
    | none => none

/-- Every step of the run from `s` along the events meets `Ok`. -/
def RunAll (step : σ → ε → Option σ) (Ok : σ → ε → Prop) : σ → List ε → Prop
  | _, [] => True
  | s, e :: es => Ok s e ∧
    match step s e with
    | some s' => RunAll step Ok s' es
    | none => True

/-- Every state of the run from `s` along the events meets `P`. -/
def Always (step : σ → ε → Option σ) (P : σ → Prop) : σ → List ε → Prop
  | s, [] => P s
  | s, e :: es => P s ∧
    match step s e with
    | some s' => Always step P s' es
    | none => True

variable {step : σ → ε → Option σ} {Ok Ok' : σ → ε → Prop} {I P : σ → Prop}

instance RunAll.decidable [∀ s e, Decidable (Ok s e)] :
    ∀ s es, Decidable (RunAll step Ok s es)
  | _, [] => isTrue trivial
  | s, e :: es =>
    have : Decidable (match step s e with
        | some s' => RunAll step Ok s' es
        | none => True) :=
      match step s e with
      | some s' => RunAll.decidable s' es
      | none => isTrue trivial
    inferInstanceAs (Decidable (_ ∧ _))

instance Always.decidable [DecidablePred P] : ∀ s es, Decidable (Always step P s es)
  | s, [] => inferInstanceAs (Decidable (P s))
  | s, e :: es =>
    have : Decidable (match step s e with
        | some s' => Always step P s' es
        | none => True) :=
      match step s e with
      | some s' => Always.decidable s' es
      | none => isTrue trivial
    inferInstanceAs (Decidable (_ ∧ _))

@[simp] theorem run_nil (s : σ) : run step s [] = some s := rfl

/-- A run whose first event is enabled goes on from the state reached. -/
theorem run_cons {s s' : σ} {e : ε} {es : List ε} (h : step s e = some s') :
    run step s (e :: es) = run step s' es := by
  simp [run, h]

/-- Peel the first step off a successful run. -/
theorem run_cons_inv {s s₂ : σ} {e : ε} {es : List ε}
    (h : run step s (e :: es) = some s₂) :
    ∃ s₁, step s e = some s₁ ∧ run step s₁ es = some s₂ := by
  rcases hs : step s e with - | s₁
  · simp [run, hs] at h
  · exact ⟨s₁, rfl, by simpa [run, hs] using h⟩

theorem runAll_cons {s s' : σ} {e : ε} {es : List ε} (h : step s e = some s') :
    RunAll step Ok s (e :: es) ↔ Ok s e ∧ RunAll step Ok s' es := by
  simp [RunAll, h]

theorem always_cons {s s' : σ} {e : ε} {es : List ε} (h : step s e = some s') :
    Always step P s (e :: es) ↔ P s ∧ Always step P s' es := by
  simp [Always, h]

/-- Runs compose. -/
theorem run_append {s s₁ : σ} {es : List ε} (h : run step s es = some s₁) (fs : List ε) :
    run step s (es ++ fs) = run step s₁ fs := by
  induction es generalizing s with
  | nil =>
    obtain rfl : s = s₁ := by simpa using h
    rfl
  | cons e es ih =>
    obtain ⟨s₂, hs, hr⟩ := run_cons_inv h
    rw [List.cons_append, run_cons hs, ih hr]

/-- A step condition holds along a run that is put together if it holds along both parts. -/
theorem runAll_append {s s₁ : σ} {es fs : List ε} (h : run step s es = some s₁) :
    RunAll step Ok s (es ++ fs) ↔ RunAll step Ok s es ∧ RunAll step Ok s₁ fs := by
  induction es generalizing s with
  | nil =>
    obtain rfl : s = s₁ := by simpa using h
    simp [RunAll]
  | cons e es ih =>
    obtain ⟨s₂, hs, hr⟩ := run_cons_inv h
    rw [List.cons_append, runAll_cons hs, runAll_cons hs, ih hr, and_assoc]

/-! ### Invariants -/

/-- A predicate kept by every step that meets `Ok` is kept by every run all
of whose steps meet it. -/
theorem run_invariant_of
    (hstep : ∀ s e s', I s → Ok s e → step s e = some s' → I s')
    {s s' : σ} {es : List ε} (hs : I s) (hok : RunAll step Ok s es)
    (hrun : run step s es = some s') : I s' := by
  induction es generalizing s with
  | nil =>
    obtain rfl : s = s' := by simpa using hrun
    exact hs
  | cons e es ih =>
    obtain ⟨s₁, h₁, hr⟩ := run_cons_inv hrun
    rw [runAll_cons h₁] at hok
    exact ih (hstep _ _ _ hs hok.1 h₁) hok.2 hr

/-- A predicate kept by every step is kept by every run. -/
theorem run_invariant (hstep : ∀ s e s', I s → step s e = some s' → I s')
    {s s' : σ} {es : List ε} (hs : I s) (hrun : run step s es = some s') : I s' := by
  induction es generalizing s with
  | nil =>
    obtain rfl : s = s' := by simpa using hrun
    exact hs
  | cons e es ih =>
    obtain ⟨s₁, h₁, hr⟩ := run_cons_inv hrun
    exact ih (hstep _ _ _ hs h₁) hr

/-- A weaker property holds along a run wherever a stronger one does. -/
theorem Always.mono (hPI : ∀ s, I s → P s) {s : σ} {es : List ε}
    (h : Always step I s es) : Always step P s es := by
  induction es generalizing s with
  | nil => exact hPI s h
  | cons e es ih =>
    refine ⟨hPI s h.1, ?_⟩
    have hrest := h.2
    rcases hs : step s e with - | s'
    · trivial
    · rw [hs] at hrest
      exact ih hrest

/-- What holds all along a run holds at its end. -/
theorem Always.last {s s' : σ} {es : List ε} (h : Always step P s es)
    (hrun : run step s es = some s') : P s' := by
  induction es generalizing s with
  | nil =>
    obtain rfl : s = s' := by simpa using hrun
    exact h
  | cons e es ih =>
    obtain ⟨s₁, h₁, hr⟩ := run_cons_inv hrun
    rw [always_cons h₁] at h
    exact ih h.2 hr

/-- What an invariant implies holds all along a run whose steps meet the condition
under which the invariant is kept. -/
theorem always_of_runAll (hstep : ∀ s e s', I s → Ok s e → step s e = some s' → I s')
    (hsafe : ∀ s, I s → P s) {s : σ} {es : List ε} (hs : I s) (hok : RunAll step Ok s es) :
    Always step P s es := by
  induction es generalizing s with
  | nil => exact hsafe s hs
  | cons e es ih =>
    refine ⟨hsafe s hs, ?_⟩
    have hrest := hok.2
    rcases h₁ : step s e with - | s₁
    · trivial
    · rw [h₁] at hrest
      exact ih (hstep _ _ _ hs hok.1 h₁) hrest

/-- **Exact step conditions.**  Suppose the invariant `I` is kept by the steps
that meet `Ok` and implies the safety property `P`, and that a step from an
`I`-state which violates `Ok` leads to a state that violates `P`, all this in
an environment that keeps its steps to `Env`.  Then `P` holds all along a run
exactly when every step of the run meets `Ok`. -/
theorem always_iff_runAll_of {Env : σ → ε → Prop}
    (hstep : ∀ s e s', I s → Env s e → Ok s e → step s e = some s' → I s')
    (hsafe : ∀ s, I s → P s)
    (hbad : ∀ s e s', I s → Env s e → ¬ Ok s e → step s e = some s' → ¬ P s')
    {s s' : σ} {es : List ε} (hs : I s) (henv : RunAll step Env s es)
    (hrun : run step s es = some s') : Always step P s es ↔ RunAll step Ok s es := by
  induction es generalizing s with
  | nil => exact ⟨fun _ => trivial, fun _ => hsafe s hs⟩
  | cons e es ih =>
    obtain ⟨s₁, h₁, hr⟩ := run_cons_inv hrun
    rw [runAll_cons h₁] at henv
    obtain ⟨he, henv⟩ := henv
    rw [always_cons h₁, runAll_cons h₁]
    constructor
    · rintro ⟨-, hrest⟩
      -- the safety of the rest of the run begins with the state just reached
      have hfirst : P s₁ := by
        cases es with
        | nil => exact hrest
        | cons f fs => exact hrest.1
      have hok : Ok s e := by
        by_contra hn
        exact hbad _ _ _ hs he hn h₁ hfirst
      exact ⟨hok, (ih (hstep _ _ _ hs he hok h₁) henv hr).mp hrest⟩
    · rintro ⟨hok, hrest⟩
      exact ⟨hsafe s hs, (ih (hstep _ _ _ hs he hok h₁) henv hr).mpr hrest⟩

/-- **The first violation.**  If `I` is kept by the steps that meet `Ok`, a step
that violates it leads from `I` to `J`, and `J` is kept by all steps, a run that
starts in `I` ends in `I` if all its steps meet `Ok` and in `J` if not. -/
theorem runAll_or_of {Env : σ → ε → Prop} {J : σ → Prop}
    (hstep : ∀ s e s', I s → Env s e → Ok s e → step s e = some s' → I s')
    (hbad : ∀ s e s', I s → Env s e → ¬ Ok s e → step s e = some s' → J s')
    (hstay : ∀ s e s', J s → Env s e → step s e = some s' → J s')
    {s s' : σ} {es : List ε} (hs : I s) (henv : RunAll step Env s es)
    (hrun : run step s es = some s') :
    (RunAll step Ok s es ∧ I s') ∨ (¬ RunAll step Ok s es ∧ J s') := by
  induction es generalizing s with
  | nil =>
    obtain rfl : s = s' := by simpa using hrun
    exact .inl ⟨trivial, hs⟩
  | cons e es ih =>
    obtain ⟨s₁, h₁, hr⟩ := run_cons_inv hrun
    rw [runAll_cons h₁] at henv
    rw [runAll_cons h₁]
    obtain ⟨he, henv⟩ := henv
    by_cases hok : Ok s e
    · rcases ih (hstep _ _ _ hs he hok h₁) henv hr with ⟨hall, hend⟩ | ⟨hall, hend⟩
      · exact .inl ⟨⟨hok, hall⟩, hend⟩
      · exact .inr ⟨fun h => hall h.2, hend⟩
    · -- from the first violation on the run stays in `J`
      exact .inr ⟨fun h => hok h.1, run_invariant_of hstay (hbad _ _ _ hs he hok h₁) henv hr⟩

/-- A condition met in every state is met by every step of a run. -/
theorem runAll_of_forall (h : ∀ s e, Ok s e) (s : σ) (es : List ε) : RunAll step Ok s es := by
  induction es generalizing s with
  | nil => trivial
  | cons e es ih =>
    refine ⟨h s e, ?_⟩
    rcases step s e with - | s'
    · trivial
    · exact ih s'

/-- So is a condition on the events alone that all of them meet. -/
theorem runAll_of_mem {Q : ε → Prop} (s : σ) {es : List ε} (h : ∀ e ∈ es, Q e) :
    RunAll step (fun _ e => Q e) s es := by
  induction es generalizing s with
  | nil => trivial
  | cons e es ih =>
    refine ⟨h e (List.mem_cons_self ..), ?_⟩
    rcases step s e with - | s'
    · trivial
    · exact ih s' fun e' he' => h e' (List.mem_cons_of_mem e he')

/-- Along a run that meets `Ok`, a step condition that follows from it in every
`I`-state is met as well. -/
theorem RunAll.imp_of (hstep : ∀ s e s', I s → Ok s e → step s e = some s' → I s')
    (himp : ∀ s e, I s → Ok s e → Ok' s e) {s : σ} {es : List ε} (hs : I s)
    (hok : RunAll step Ok s es) : RunAll step Ok' s es := by
  induction es generalizing s with
  | nil => trivial
  | cons e es ih =>
    refine ⟨himp s e hs hok.1, ?_⟩
    have hrest := hok.2
    rcases h₁ : step s e with - | s₁
    · trivial
    · rw [h₁] at hrest
      exact ih (hstep _ _ _ hs hok.1 h₁) hrest

/-- Step conditions that are the same in every `I`-state are met by the same
runs. -/
theorem runAll_congr (hstep : ∀ s e s', I s → step s e = some s' → I s')
    (hiff : ∀ s e, I s → (Ok s e ↔ Ok' s e)) {s : σ} {es : List ε} (hs : I s) :
    RunAll step Ok s es ↔ RunAll step Ok' s es := by
  induction es generalizing s with
  | nil => exact Iff.rfl
  | cons e es ih =>
    refine and_congr (hiff s e hs) ?_
    rcases h₁ : step s e with - | s₁
    · exact Iff.rfl
    · exact ih (hstep _ _ _ hs h₁)

/-- Exact step conditions in an environment without rules. -/
theorem always_iff_runAll
    (hstep : ∀ s e s', I s → Ok s e → step s e = some s' → I s')
    (hsafe : ∀ s, I s → P s)
    (hbad : ∀ s e s', I s → ¬ Ok s e → step s e = some s' → ¬ P s')
    {s s' : σ} {es : List ε} (hs : I s) (hrun : run step s es = some s') :
    Always step P s es ↔ RunAll step Ok s es :=
  always_iff_runAll_of (fun s e s' h _ => hstep s e s' h) hsafe
    (fun s e s' h _ => hbad s e s' h) hs (runAll_of_forall (fun _ _ => trivial) s es) hrun

/-! ### Runs that get somewhere -/

/-- **Progress.**  If every `I`-state short of the goal `P` has a step that meets
`Ok`, keeps `I` and lowers the rank, a run of such steps reaches the goal. -/
theorem exists_run_of_rank (rank : σ → ℕ)
    (hprogress : ∀ s, I s → ¬ P s →
      ∃ e s', Ok s e ∧ step s e = some s' ∧ I s' ∧ rank s' < rank s)
    {s : σ} (hs : I s) :
    ∃ es s', RunAll step Ok s es ∧ run step s es = some s' ∧ I s' ∧ P s' := by
  -- strong induction on the rank, since a step may lower it by more than one
  induction hn : rank s using Nat.strongRecOn generalizing s with
  | ind n ih =>
    by_cases hp : P s
    · exact ⟨[], s, trivial, rfl, hs, hp⟩
    · obtain ⟨e, s₁, hok, h₁, hs₁, hlt⟩ := hprogress s hs hp
      obtain ⟨es, s', hall, hrun, hgoal⟩ := ih _ (hn ▸ hlt) hs₁ rfl
      exact ⟨e :: es, s', (runAll_cons h₁).mpr ⟨hok, hall⟩, by rw [run_cons h₁, hrun], hgoal⟩

/-! ### What a run puts out -/

/-- What the steps of the run put out, in order. -/
def outputs {ω : Type*} (step : σ → ε → Option σ) (out : σ → ε → List ω) : σ → List ε → List ω
  | _, [] => []
  | s, e :: es =>
    match step s e with
    | some s' => out s e ++ outputs step out s' es
    | none => []

/-- The outputs of runs compose. -/
theorem outputs_append {ω : Type*} {out : σ → ε → List ω} {s s₁ : σ} {es : List ε}
    (h : run step s es = some s₁) (fs : List ε) :
    outputs step out s (es ++ fs) = outputs step out s es ++ outputs step out s₁ fs := by
  induction es generalizing s with
  | nil =>
    obtain rfl : s = s₁ := by simpa using h
    rfl
  | cons e es ih =>
    obtain ⟨s₂, hs, hr⟩ := run_cons_inv h
    simp only [List.cons_append, outputs, hs, ih hr, List.append_assoc]

/-- A relation between the state and the outputs so far, kept by every step that
meets `Ok`, is kept by every run all of whose steps meet it. -/
theorem run_outputs_of {ω : Type*} {out : σ → ε → List ω} {J : σ → List ω → Prop}
    (hstep : ∀ s os e s', J s os → Ok s e → step s e = some s' → J s' (os ++ out s e))
    {s s' : σ} {os : List ω} {es : List ε} (hs : J s os) (hok : RunAll step Ok s es)
    (hrun : run step s es = some s') : J s' (os ++ outputs step out s es) := by
  induction es generalizing s os with
  | nil =>
    obtain rfl : s = s' := by simpa using hrun
    simpa [outputs] using hs
  | cons e es ih =>
    obtain ⟨s₁, h₁, hr⟩ := run_cons_inv hrun
    rw [runAll_cons h₁] at hok
    have hrest := ih (hstep _ _ _ _ hs hok.1 h₁) hok.2 hr
    rw [List.append_assoc] at hrest
    simpa [outputs, h₁] using hrest

/-- A relation kept by every step is kept by every run. -/
theorem run_outputs {ω : Type*} {out : σ → ε → List ω} {J : σ → List ω → Prop}
    (hstep : ∀ s os e s', J s os → step s e = some s' → J s' (os ++ out s e))
    {s s' : σ} {os : List ω} {es : List ε} (hs : J s os) (hrun : run step s es = some s') :
    J s' (os ++ outputs step out s es) :=
  run_outputs_of (fun s os e s' h _ => hstep s os e s' h) hs
    (runAll_of_forall (fun _ _ => trivial) s es) hrun

/-! ### Projection of runs -/

/-- If every step of one machine is a run of another on the projected state,
so is every run. -/
theorem run_project {step₂ : τ → δ → Option τ} (f : σ → τ)
    (hstep : ∀ s e s', step s e = some s' → ∃ ds, run step₂ (f s) ds = some (f s'))
    {s s' : σ} {es : List ε} (hrun : run step s es = some s') :
    ∃ ds, run step₂ (f s) ds = some (f s') := by
  induction es generalizing s with
  | nil =>
    obtain rfl : s = s' := by simpa using hrun
    exact ⟨[], rfl⟩
  | cons e es ih =>
    obtain ⟨s₁, h₁, hr⟩ := run_cons_inv hrun
    obtain ⟨ds₁, hd₁⟩ := hstep _ _ _ h₁
    obtain ⟨ds₂, hd₂⟩ := ih hr
    exact ⟨ds₁ ++ ds₂, by rw [run_append hd₁, hd₂]⟩

end Lts

end FtServer
