/-
FtServer/DataProcess.lean

The connection to the data process.  `network_accept` runs on the thread of the
server and puts a new connection into two places, `tcpc_dp_` of the agent and of the
file writer; `receive_dp` runs on the thread of the connection that reports an error,
tests that connection, and then empties the writer's pointer and closes the agent's.
Every statement is a step of its own.

A connection that neither pointer nor the handler of its acceptance holds is
destroyed, which closes its socket.  `accepted`, `reported` and `effects` are
histories: the connections accepted, those that have reported an error, and each
decoupling or closing by a `receive_dp` with what `tcpc_dp_` held at that moment, the
last first.

`kept_iff`: errors hit no other connection in the runs in which no `receive_dp` goes on
for a connection that has been replaced, and none is replaced while its `receive_dp` is
past the test.  `Held` is the invariant.
-/
import FtServer.Lts
import Mathlib.Logic.Function.Basic

namespace FtServer

variable {ι : Type} [DecidableEq ι]

/-! ### State -/

/-- Where the acceptance of a connection stands: before a statement of
`network_accept`, or before `client->start ()`. -/
inductive AcceptPc (ι : Type)
  | idle
  | registerRead (c : ι)
  | useBuffer (c : ι)
  | assign (c : ι)
  | couple (c : ι)
  | start (c : ι)
deriving DecidableEq

/-- The connection that the handler holds. -/
def AcceptPc.client? : AcceptPc ι → Option ι
  | .idle => none
  | .registerRead c | .useBuffer c | .assign c | .couple c | .start c => some c

/-- `tcpc_dp_ = client` comes next. -/
def AcceptPc.isAssign : AcceptPc ι → Bool
  | .assign _ => true
  | .idle | .registerRead _ | .useBuffer _ | .couple _ | .start _ => false

omit [DecidableEq ι] in
theorem AcceptPc.exists_of_isAssign {pc : AcceptPc ι} (h : pc.isAssign = true) :
    ∃ c, pc = .assign c := by
  cases pc with
  | assign c => exact ⟨c, rfl⟩
  | idle | registerRead | useBuffer | couple | start => cases h

/-- Where `receive_dp` of a connection stands: before the test, before
`DecoupleNetowrk ()` and before `tcpc_dp_->Close ()`. -/
inductive ReportPc
  | idle
  | test (ec : Bool)
  | decouple
  | close
deriving DecidableEq

structure DataProcess (ι : Type) where
  /-- `tcpc_dp_` of `TransferAgent` -/
  agent : Option ι
  /-- `tcpc_dp_` of `FileWritter` -/
  writer : Option ι
  accept : AcceptPc ι
  report : ι → ReportPc
  /-- `cbrcv_` has a slot -/
  slot : ι → Bool
  isOpen : ι → Bool
  /-- an `async_read_some` is under way -/
  reading : ι → Bool
  accepted : List ι
  reported : List ι
  effects : List (ι × Option ι)

inductive DpEvent (ι : Type)
  /-- a data process connects -/
  | connect (c : ι)
  /-- the thread of the server takes its next step -/
  | networkAccept
  /-- a read ends, with an error or not -/
  | handleRead (c : ι) (ec : Bool)
  /-- the thread of the connection takes its next step -/
  | receiveDp (c : ι)
deriving DecidableEq

namespace DataProcess

/-- No data process has connected. -/
def init : DataProcess ι where
  agent := none
  writer := none
  accept := .idle
  report := fun _ => .idle
  slot := fun _ => false
  isOpen := fun _ => false
  reading := fun _ => false
  accepted := []
  reported := []
  effects := []

/-! ### Steps -/

/-- Something holds a reference to the connection. -/
def Referenced (s : DataProcess ι) (c : ι) : Prop :=
  s.agent = some c ∨ s.writer = some c ∨ s.accept.client? = some c

instance (s : DataProcess ι) (c : ι) : Decidable (s.Referenced c) :=
  inferInstanceAs (Decidable (_ ∨ _))

/-- The connection behind a pointer that has been overwritten is destroyed. -/
def Destroyed (s : DataProcess ι) (old : Option ι) (c : ι) : Prop := old = some c ∧ ¬ s.Referenced c

instance (s : DataProcess ι) (old : Option ι) (c : ι) : Decidable (s.Destroyed old c) :=
  inferInstanceAs (Decidable (_ ∧ _))

/-- Overwrite a pointer that held `old`. -/
def release (s : DataProcess ι) (old : Option ι) : DataProcess ι :=
  { s with
    isOpen := fun c => s.isOpen c && !decide (s.Destroyed old c)
    reading := fun c => s.reading c && !decide (s.Destroyed old c) }

/-- The next step of `network_accept` and `handle_accept`. -/
def networkAccept (s : DataProcess ι) : Option (DataProcess ι) :=
  match s.accept with
  | .idle => none
  | .registerRead c =>
    some { s with accept := .useBuffer c, slot := Function.update s.slot c true }
  | .useBuffer c => some { s with accept := .assign c }
  | .assign c => some ({ s with accept := .couple c, agent := some c }.release s.agent)
  | .couple c => some ({ s with accept := .start c, writer := some c }.release s.writer)
  | .start c =>
    -- `set_option` throws on a closed socket
    if s.isOpen c then
      some ({ s with
        accept := .idle
        reading := Function.update s.reading c true }.release (some c))
    else none

/-- The next step of `receive_dp`. -/
def receiveDp (s : DataProcess ι) (c : ι) : Option (DataProcess ι) :=
  match s.report c with
  | .idle => none
  | .test ec =>
    if ec = true ∧ s.isOpen c = true then
      some { s with report := Function.update s.report c .decouple }
    else
      -- `handle_read` goes on reading if there was no error
      some { s with
        report := Function.update s.report c .idle
        reading := Function.update s.reading c (!ec && s.isOpen c) }
  | .decouple =>
    some ({ s with
      writer := none
      report := Function.update s.report c .close
      effects := (c, s.agent) :: s.effects }.release s.writer)
  | .close =>
    match s.agent with
    | some x => some { s with
        isOpen := Function.update s.isOpen x false
        report := Function.update s.report c .idle
        effects := (c, s.agent) :: s.effects }
    | none => none

def step (s : DataProcess ι) : DpEvent ι → Option (DataProcess ι)
  | .connect c =>
    if s.accept = .idle ∧ c ∉ s.accepted then
      some { s with
        accept := .registerRead c
        isOpen := Function.update s.isOpen c true
        accepted := c :: s.accepted }
    else none
  | .networkAccept => s.networkAccept
  | .handleRead c ec =>
    if s.reading c = true ∧ s.report c = .idle ∧ s.slot c = true then
      some { s with
        reading := Function.update s.reading c false
        report := Function.update s.report c (.test ec)
        reported := if ec then c :: s.reported else s.reported }
    else none
  | .receiveDp c => s.receiveDp c

/-! ### The property and the condition -/

/-- `receive_dp` has found the connection open and with an error. -/
def PastTest (s : DataProcess ι) (c : ι) : Prop := s.report c = .decouple ∨ s.report c = .close

instance (s : DataProcess ι) (c : ι) : Decidable (s.PastTest c) :=
  inferInstanceAs (Decidable (_ ∨ _))

/-- All callbacks have run. -/
structure Quiet (s : DataProcess ι) : Prop where
  accept : s.accept = .idle
  report : ∀ c, s.report c = .idle

/-- **No connection takes down another**: what an error has done it has done to the
connection in `tcpc_dp_`, and when all is quiet the writer is coupled to the last
connection unless that has reported an error itself. -/
structure Kept (s : DataProcess ι) : Prop where
  effects : ∀ x ∈ s.effects, x.2 = some x.1
  coupled : s.Quiet → ∀ c, s.accepted.head? = some c → s.writer = some c ∨ c ∈ s.reported

/-- That is so, and stays so over the next statement of any `receive_dp`. -/
def StaysKept (s : DataProcess ι) : Prop :=
  s.Kept ∧ ∀ c s', s.receiveDp c = some s' → s'.Kept

/-- The step condition: an open connection whose error is tested is the one in
`tcpc_dp_`, and this is not replaced while a `receive_dp` is past its test. -/
def Undisturbed (s : DataProcess ι) : DpEvent ι → Prop
  | .receiveDp c => s.report c = .test true → s.isOpen c = true → s.agent = some c
  | .networkAccept => s.accept.isAssign = true → ∀ c ∈ s.accepted, ¬ s.PastTest c
  | .connect _ | .handleRead .. => True

instance Undisturbed.decidable (s : DataProcess ι) (e : DpEvent ι) : Decidable (Undisturbed s e) :=
  match e with
  | .receiveDp c => inferInstanceAs
      (Decidable (s.report c = .test true → s.isOpen c = true → s.agent = some c))
  | .networkAccept => inferInstanceAs
      (Decidable (s.accept.isAssign = true → ∀ c ∈ s.accepted, ¬ s.PastTest c))
  | .connect _ | .handleRead .. => isTrue trivial

/-- What is known of the pointers at each statement of the acceptance. -/
def Phase (s : DataProcess ι) : AcceptPc ι → Prop
  | .idle => ∀ c, s.accepted.head? = some c →
      s.agent = some c ∧ (s.writer = some c ∨ c ∈ s.reported)
  | .registerRead c | .useBuffer c | .assign c => s.accepted.head? = some c
  | .couple c => s.accepted.head? = some c ∧ s.agent = some c
  | .start c => s.accepted.head? = some c ∧ s.agent = some c ∧ s.writer = some c

structure Held (s : DataProcess ι) : Prop where
  own : ∀ c, s.PastTest c → s.agent = some c
  effects : ∀ x ∈ s.effects, x.2 = some x.1
  /-- a connection that has not been started reports nothing -/
  silent : ∀ c, c ∉ s.accepted ∨ s.accept.client? = some c →
    s.reading c = false ∧ s.report c = .idle
  reported : ∀ c, s.PastTest c ∨ s.report c = .test true → c ∈ s.reported
  phase : s.Phase s.accept

variable {s s' : DataProcess ι} {c : ι} {e : DpEvent ι}

/-! ### The steps -/

/-- What has been destroyed does not report any more; nothing else changes. -/
theorem Held.release (h : Held s) (old : Option ι) : Held (s.release old) := by
  refine ⟨h.own, h.effects, fun c hc => ?_, h.reported, h.phase⟩
  obtain ⟨hreading, hreport⟩ := h.silent c hc
  exact ⟨by simp [DataProcess.release, hreading], hreport⟩

omit [DecidableEq ι] in
theorem not_pastTest_of_idle (h : s.report c = .idle) : ¬ s.PastTest c := by
  rintro (hc | hc)
  · cases h.symm.trans hc
  · cases h.symm.trans hc

omit [DecidableEq ι] in
/-- What is past its test is in `tcpc_dp_`, so nothing is while a connection that has
not been started is there. -/
theorem Held.not_pastTest (h : Held s) (hagent : s.agent = some c)
    (hc : s.accept.client? = some c) (x : ι) : ¬ s.PastTest x := by
  intro hx
  have hown := h.own x hx
  rw [hagent] at hown
  cases hown
  exact not_pastTest_of_idle (h.silent c (.inr hc)).2 hx

theorem Held.connect (h : Held s) (hnew : c ∉ s.accepted) : Held { s with
    accept := .registerRead c
    isOpen := Function.update s.isOpen c true
    accepted := c :: s.accepted } := by
  refine ⟨h.own, h.effects, fun x hx => ?_, h.reported, rfl⟩
  rcases hx with hx | hx
  · exact h.silent x (.inl fun hmem => hx (List.mem_cons_of_mem _ hmem))
  · cases hx
    exact h.silent c (.inl hnew)

theorem Held.networkAccept (h : Held s) (hok : Undisturbed s .networkAccept)
    (hstep : s.networkAccept = some s') : Held s' := by
  have hphase := h.phase
  have hsilent := h.silent
  rw [DataProcess.networkAccept] at hstep
  rcases haccept : s.accept with - | c | c | c | c | c <;> rw [haccept] at hstep hphase hsilent
  · cases hstep
  · cases hstep
    exact ⟨h.own, h.effects, hsilent, h.reported, hphase⟩
  · cases hstep
    exact ⟨h.own, h.effects, hsilent, h.reported, hphase⟩
  · cases hstep
    apply Held.release
    refine ⟨fun x hx => ?_, h.effects, hsilent, h.reported, ⟨hphase, rfl⟩⟩
    -- nothing is past its test
    have hmem : x ∈ s.accepted := by
      by_contra hnot
      exact not_pastTest_of_idle (h.silent x (.inl hnot)).2 hx
    exact absurd hx (hok (by rw [haccept]; rfl) x hmem)
  · cases hstep
    apply Held.release
    exact ⟨h.own, h.effects, hsilent, h.reported, ⟨hphase.1, hphase.2, rfl⟩⟩
  · dsimp only at hstep
    split at hstep
    · cases hstep
      apply Held.release
      refine ⟨h.own, h.effects, fun x hx => ?_, h.reported, fun x hx => ?_⟩
      · rcases hx with hx | hx
        · have hne : x ≠ c := by
            rintro rfl
            exact hx (List.mem_of_mem_head? hphase.1)
          obtain ⟨hreading, hreport⟩ := hsilent x (.inl hx)
          exact ⟨(Function.update_of_ne hne ..).trans hreading, hreport⟩
        · cases hx
      · cases hphase.1.symm.trans hx
        exact ⟨hphase.2.1, .inl hphase.2.2⟩
    · cases hstep

/-- What the next step of `receive_dp` can do. -/
inductive ReceiveStep (s : DataProcess ι) (c : ι) : DataProcess ι → Prop
  | broken : s.report c = .test true → s.isOpen c = true →
      ReceiveStep s c { s with report := Function.update s.report c .decouple }
  | done {ec reading : Bool} : s.report c = .test ec → ¬ (ec = true ∧ s.isOpen c = true) →
      ReceiveStep s c { s with
        report := Function.update s.report c .idle
        reading := Function.update s.reading c reading }
  | decouple : s.report c = .decouple →
      ReceiveStep s c ({ s with
        writer := none
        report := Function.update s.report c .close
        effects := (c, s.agent) :: s.effects }.release s.writer)
  | close {x : ι} : s.report c = .close → s.agent = some x →
      ReceiveStep s c { s with
        isOpen := Function.update s.isOpen x false
        report := Function.update s.report c .idle
        effects := (c, s.agent) :: s.effects }

theorem receiveDp_cases (h : s.receiveDp c = some s') : ReceiveStep s c s' := by
  rw [receiveDp] at h
  rcases hreport : s.report c with - | ec | - | - <;> rw [hreport] at h
  · cases h
  · dsimp only at h
    split at h
    · rename_i htest
      cases h
      obtain ⟨rfl, hopen⟩ := htest
      exact .broken hreport hopen
    · rename_i htest
      cases h
      exact .done hreport htest
  · cases h
    exact .decouple hreport
  · dsimp only at h
    split at h
    · rename_i x hagent
      cases h
      exact .close hreport hagent
    · cases h

omit [DecidableEq ι] in
/-- A report that is added says nothing about the pointers. -/
theorem Held.phase_reported (h : Held s) {reported : List ι} (hmono : s.reported ⊆ reported) :
    Phase { s with reported := reported } s.accept := by
  have hphase := h.phase
  rcases haccept : s.accept with - | x | x | x | x | x <;> rw [haccept] at hphase
  · intro x hx
    obtain ⟨hagent, hwriter⟩ := hphase x hx
    exact ⟨hagent, hwriter.imp_right fun hmem => hmono hmem⟩
  all_goals exact hphase

/-- A statement on the thread of `c`, which has been started, leaves the other callbacks
where they are. -/
theorem Held.of_report (h : Held s) {pc : ReportPc} {reading : ι → Bool} {reported : List ι}
    (hstarted : s.reading c = false → s.report c ≠ .idle)
    (hreading : ∀ x, x ≠ c → reading x = s.reading x) (hmono : s.reported ⊆ reported)
    (hown : pc = .decouple ∨ pc = .close → s.agent = some c)
    (hreported : (pc = .decouple ∨ pc = .close) ∨ pc = .test true → c ∈ reported) :
    Held { s with
      report := Function.update s.report c pc
      reading := reading
      reported := reported } := by
  have hother : ∀ x, x ≠ c → (Function.update s.report c pc) x = s.report x := fun x hne =>
    Function.update_of_ne hne ..
  have hself : (Function.update s.report c pc) c = pc := Function.update_self ..
  refine ⟨fun x hx => ?_, h.effects, fun x hx => ?_, fun x hx => ?_, h.phase_reported hmono⟩
  · rcases eq_or_ne x c with rfl | hne
    · simp only [PastTest, hself] at hx
      exact hown hx
    · simp only [PastTest, hother x hne] at hx
      exact h.own x hx
  · obtain ⟨hsilent, hreport⟩ := h.silent x hx
    have hne : x ≠ c := by
      rintro rfl
      exact hstarted hsilent hreport
    exact ⟨(hreading x hne).trans hsilent, (hother x hne).trans hreport⟩
  · rcases eq_or_ne x c with rfl | hne
    · simp only [PastTest, hself] at hx
      exact hreported hx
    · simp only [PastTest, hother x hne] at hx
      exact hmono (h.reported x hx)

omit [DecidableEq ι] in
/-- A connection past its test has reported an error, so the writer may be without a
connection once it is the current one. -/
theorem Held.phase_decoupled (h : Held s) (hc : s.PastTest c) :
    Phase { s with writer := none } s.accept := by
  have hphase := h.phase
  have hagent := h.own c hc
  rcases haccept : s.accept with - | x | x | x | x | x <;> rw [haccept] at hphase
  · intro x hx
    have hx' := (hphase x hx).1
    cases hagent.symm.trans hx'
    exact ⟨hagent, .inr (h.reported c (.inl hc))⟩
  · exact hphase
  · exact hphase
  · exact hphase
  · exact hphase
  · exact absurd hc (h.not_pastTest hphase.2.1 (by rw [haccept]; rfl) c)

theorem Held.receiveDp (h : Held s) (hok : Undisturbed s (.receiveDp c))
    (hstep : s.receiveDp c = some s') : Held s' := by
  have hsame : ∀ x, x ≠ c → s.reading x = s.reading x := fun _ _ => rfl
  cases receiveDp_cases hstep with
  | broken htest hopen =>
    exact h.of_report (by simp [htest]) hsame (List.Subset.refl _) (fun _ => hok htest hopen)
      fun _ => h.reported c (.inr htest)
  | @done ec reading htest _ =>
    exact h.of_report (by simp [htest]) (fun x hne => Function.update_of_ne hne ..)
      (List.Subset.refl _) (by simp) (by simp)
  | decouple hpc =>
    apply Held.release
    have hagent := h.own c (.inl hpc)
    have hclose : Held { s with report := Function.update s.report c .close } :=
      h.of_report (by simp [hpc]) hsame (List.Subset.refl _) (fun _ => hagent)
        fun _ => h.reported c (.inl (.inl hpc))
    exact ⟨hclose.own, List.forall_mem_cons.mpr ⟨hagent, h.effects⟩, hclose.silent,
      hclose.reported, h.phase_decoupled (.inl hpc)⟩
  | @close x hpc hagent =>
    have hidle : Held { s with report := Function.update s.report c .idle } :=
      h.of_report (by simp [hpc]) hsame (List.Subset.refl _) (by simp) (by simp)
    exact ⟨hidle.own, List.forall_mem_cons.mpr ⟨h.own c (.inr hpc), h.effects⟩, hidle.silent,
      hidle.reported, hidle.phase⟩

theorem Held.handleRead (h : Held s) {ec : Bool} (hreading : s.reading c = true) : Held { s with
      reading := Function.update s.reading c false
      report := Function.update s.report c (.test ec)
      reported := if ec then c :: s.reported else s.reported } := by
  refine h.of_report (by simp [hreading]) (fun x hne => Function.update_of_ne hne ..) ?_
    (by simp) (by simp +contextual)
  split
  · exact List.subset_cons_self ..
  · exact List.Subset.refl _

theorem Held.step (h : Held s) (hok : Undisturbed s e) (hstep : s.step e = some s') : Held s' := by
  cases e with
  | connect c =>
    simp only [DataProcess.step] at hstep
    split at hstep
    · rename_i hnew
      cases hstep
      exact h.connect hnew.2
    · cases hstep
  | networkAccept => exact h.networkAccept hok hstep
  | handleRead c ec =>
    simp only [DataProcess.step] at hstep
    split at hstep
    · rename_i hread
      cases hstep
      exact h.handleRead hread.1
    · cases hstep
  | receiveDp c => exact h.receiveDp hok hstep

omit [DecidableEq ι] in
theorem held_init : Held (init : DataProcess ι) := by
  refine ⟨fun c hc => ?_, fun x hx => ?_, fun c _ => ⟨rfl, rfl⟩, fun c hc => ?_, fun c hc => ?_⟩
  · rcases hc with hc | hc <;> cases hc
  · cases hx
  · rcases hc with (hc | hc) | hc <;> cases hc
  · cases hc

/-! ### The condition is exact -/

omit [DecidableEq ι] in
theorem Held.kept (h : Held s) : Kept s := by
  refine ⟨h.effects, fun hquiet c hc => ?_⟩
  have hphase := h.phase
  rw [hquiet.accept] at hphase
  exact (hphase c hc).2

/-- The test alone does no harm. -/
theorem Held.kept_receiveDp (h : Held s) (hstep : s.receiveDp c = some s') : Kept s' := by
  by_cases hok : Undisturbed s (.receiveDp c)
  · exact (h.receiveDp hok hstep).kept
  · have hkept := h.kept
    cases receiveDp_cases hstep with
    | broken htest hopen =>
      refine ⟨hkept.effects, fun hquiet => ?_⟩
      have hidle := hquiet.report c
      simp at hidle
    | done htest hnot =>
      refine absurd (fun htrue hopen => ?_) hok
      cases htest.symm.trans htrue
      exact absurd ⟨rfl, hopen⟩ hnot
    | decouple hpc | close hpc hagent =>
      refine absurd (fun htest => ?_) hok
      cases hpc.symm.trans htest

/-- The next statement past the test has an effect. -/
theorem exists_effect (hc : s.PastTest c) (hagent : s.report c = .close → s.agent.isSome) :
    ∃ s', s.receiveDp c = some s' ∧ (c, s.agent) ∈ s'.effects := by
  rcases hc with hc | hc
  · exact ⟨_, by rw [receiveDp, hc], List.mem_cons_self ..⟩
  · obtain ⟨x, hx⟩ := Option.isSome_iff_exists.mp (hagent hc)
    exact ⟨_, by rw [receiveDp, hc, hx], by rw [hx]; exact List.mem_cons_self ..⟩

/-- After a step that violates the condition, the next statement of that
`receive_dp` hits another connection. -/
theorem Held.not_staysKept (h : Held s) (hok : ¬ Undisturbed s e) (hstep : s.step e = some s') :
    ¬ StaysKept s' := by
  rintro ⟨-, hnext⟩
  cases e with
  | connect | handleRead => exact hok trivial
  | networkAccept =>
    refine hok fun hassign x hx hpast => ?_
    have hown := h.own x hpast
    obtain ⟨c, haccept⟩ := AcceptPc.exists_of_isAssign hassign
    simp only [DataProcess.step, DataProcess.networkAccept, haccept] at hstep
    cases hstep
    obtain ⟨s'', hs'', hmem⟩ := @exists_effect _ _
      ({ s with accept := .couple c, agent := some c }.release s.agent) x hpast fun _ => rfl
    have heffect : some c = some x := (hnext x s'' hs'').effects _ hmem
    cases heffect
    -- but the new connection has not been started
    exact not_pastTest_of_idle (h.silent x (.inr (by rw [haccept]; rfl))).2 hpast
  | receiveDp c =>
    refine hok fun htest hopen => ?_
    cases receiveDp_cases hstep with
    | broken _ _ =>
      have hdecouple : (Function.update s.report c .decouple) c = .decouple :=
        Function.update_self ..
      obtain ⟨s'', hs'', hmem⟩ := @exists_effect _ _
        { s with report := Function.update s.report c .decouple } c (.inl hdecouple)
        fun hclose => by cases hdecouple.symm.trans hclose
      exact (hnext c s'' hs'').effects _ hmem
    | done htest' hnot =>
      cases htest.symm.trans htest'
      exact absurd ⟨rfl, hopen⟩ hnot
    | decouple hpc | close hpc _ => cases htest.symm.trans hpc

/-- **When an error hits no other connection.** -/
theorem kept_iff {es : List (DpEvent ι)} (hrun : Lts.run step init es = some s) :
    (Lts.RunAll step Undisturbed init es → Lts.Always step Kept init es) ∧
      (Lts.Always step StaysKept init es ↔ Lts.RunAll step Undisturbed init es) := by
  have hiff : Lts.Always step StaysKept init es ↔ Lts.RunAll step Undisturbed init es :=
    Lts.always_iff_runAll (fun _ _ _ => Held.step)
      (fun _ h => ⟨h.kept, fun _ _ => h.kept_receiveDp⟩)
      (fun _ _ _ => Held.not_staysKept) held_init hrun
  exact ⟨fun hok => (hiff.mpr hok).mono fun _ h => h.1, hiff⟩

/-- The data process `c` connects and is started. -/
def connected (c : ℕ) : List (DpEvent ℕ) := .connect c :: List.replicate 5 .networkAccept

/-- The read of `c` ends with an error, and `receive_dp` runs. -/
def broken (c : ℕ) : List (DpEvent ℕ) := .handleRead c true :: List.replicate 3 (.receiveDp c)

/-- A connection breaks, and then another one comes. -/
theorem kept_two : Lts.Always step Kept init (connected 1 ++ broken 1 ++ connected 2) :=
  (kept_iff rfl).1 (by decide)

/-- The second connection comes while `receive_dp` of the first one is past its test,
and is decoupled. -/
theorem not_kept_replaced :
    ¬ ∀ (es : List (DpEvent ℕ)) (s : DataProcess ℕ),
      Lts.run step init es = some s → Lts.Always step Kept init es := by
  intro h
  let es : List (DpEvent ℕ) := connected 1 ++ [.handleRead 1 true, .receiveDp 1, .connect 2,
    .networkAccept, .networkAccept, .networkAccept, .networkAccept, .receiveDp 1]
  have hrun : (Lts.run step init es).map DataProcess.effects = some [(1, some 2)] := by decide
  obtain ⟨s, hs, heffects⟩ := Option.map_eq_some_iff.mp hrun
  have heffect := ((h es s hs).last hs).effects (1, some 2) (by rw [heffects]; decide)
  exact absurd heffect (by decide)

end DataProcess

end FtServer
