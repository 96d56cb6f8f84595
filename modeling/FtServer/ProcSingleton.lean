/-
FtServer/ProcSingleton.lean

Starting the server (`main`, `MakeItDaemon` and `isProcSingleton` of `ftserver.cpp` and
`daemon.cpp`).  Any number of processes start it, each on its own way through these
functions; a step is one system call of one of them, which may fail.  What they share
is the PID file and the record lock on it.  `F_SETLK` fails if another process holds the
lock; the lock goes with the process that holds it, and a child does not inherit it.

`singleton_of_run` says that one process at most is in service, and that the PID file
names it; `service_kept` that the others cannot change that; and `startup_of_run` that a
start succeeds or gives up, according to whether the lock is free.
-/
import FtServer.Lts
import FtServer.Numerals
import Mathlib.Logic.Function.Basic

namespace FtServer

/-! ### The host -/

/-- What a process has to do next. -/
inductive ProcPc
  /-- the first and the second `fork` of `MakeItDaemon` -/
  | fork₁ | fork₂
  /-- `open ("/dev/null", O_RDONLY)` -/
  | null
  /-- the calls of `isProcSingleton`: `open`, `F_SETLK`, `ftruncate`, `write`, `F_GETFD` and
  `F_SETFD` -/
  | openFile | setLk | ftruncate | write | getFd | setFd
  /-- `isProcSingleton` has returned true -/
  | service
  /-- `exit (0)` in a parent, or the `return` of `main` -/
  | leave
deriving DecidableEq

/-- The processes that run the program, by their `getpid ()`, and what they share. -/
structure Host where
  proc : ℕ → Option ProcPc
  /-- the contents of `gPIDPath`, if it is there -/
  pidfile : Option Bytes
  /-- who holds the record lock on it -/
  lock : Option ℕ

/-- `sprintf (buff, "%d\n", getpid ())` -/
def pidLine (p : ℕ) : Bytes := printNat p ++ lit "\n"

inductive HostEvent
  | launch (p : ℕ)
  /-- a `fork` that succeeds -/
  | fork (p child : ℕ)
  /-- any other call that `p` has to make; whether it succeeds -/
  | call (p : ℕ) (ok : Bool)
  /-- `write` puts out this many bytes -/
  | write (p : ℕ) (n : ℕ)
  /-- the process ends, or is killed -/
  | exit (p : ℕ)
deriving DecidableEq

/-- The process that takes the step. -/
def HostEvent.proc : HostEvent → ℕ
  | .launch p | .fork p _ | .call p _ | .write p _ | .exit p => p

namespace Host

/-- Process `p` goes on to `pc`. -/
def goto (h : Host) (p : ℕ) (pc : ProcPc) : Host :=
  { h with proc := Function.update h.proc p (some pc) }

/-- A system call other than `fork` and `write`. -/
def call (h : Host) (p : ℕ) (ok : Bool) : ProcPc → Option Host
  | .fork₁ | .fork₂ => if ok then none else some (h.goto p .leave)
  | .null => some (h.goto p (if ok then .openFile else .leave))
  | .openFile =>
    if ok then some { h.goto p .setLk with pidfile := some (h.pidfile.getD []) }
    else some (h.goto p .leave)
  | .setLk =>
    if ok = true ∧ (h.lock = none ∨ h.lock = some p) then
      some { h.goto p .ftruncate with lock := some p }
    else some (h.goto p .leave)
  | .ftruncate =>
    if ok then some { h.goto p .write with pidfile := some [] } else some (h.goto p .leave)
  | .getFd => some (h.goto p (if ok then .setFd else .leave))
  | .setFd => some (h.goto p (if ok then .service else .leave))
  -- the service is stopped, or does not start
  | .service => some (h.goto p .leave)
  | .write | .leave => none

def step (h : Host) : HostEvent → Option Host
  | .launch p => if h.proc p = none then some (h.goto p .fork₁) else none
  | .fork p child =>
    if h.proc child = none then
      match h.proc p with
      | some .fork₁ => some ((h.goto p .leave).goto child .fork₂)
      | some .fork₂ => some ((h.goto p .leave).goto child .null)
      | _ => none
    else none
  | .call p ok => (h.proc p).bind (h.call p ok)
  | .write p n =>
    if h.proc p = some .write ∧ n ≤ (pidLine p).length then
      -- the file is empty, and the offset is 0
      some { h.goto p (if n = (pidLine p).length then .getFd else .leave) with
        pidfile := some ((pidLine p).take n ++ (h.pidfile.getD []).drop n) }
    else none
  | .exit p =>
    if h.proc p = none then none
    else some { h with
      proc := Function.update h.proc p none
      lock := if h.lock = some p then none else h.lock }

/-- Nobody has been started yet; an old PID file may be there. -/
def init (pidfile : Option Bytes) : Host := ⟨fun _ => none, pidfile, none⟩

end Host

/-- The process has locked the PID file. -/
def ProcPc.Holds : ProcPc → Prop
  | .ftruncate | .write | .getFd | .setFd | .service => True
  | .fork₁ | .fork₂ | .null | .openFile | .setLk | .leave => False

namespace Host

variable {h h' : Host} {e : HostEvent} {p q r : ℕ} {pc : ProcPc}

@[simp] theorem goto_self (h : Host) (p : ℕ) (pc : ProcPc) : (h.goto p pc).proc p = some pc :=
  Function.update_self ..

theorem goto_of_ne (h : Host) (pc : ProcPc) (hne : q ≠ p) : (h.goto p pc).proc q = h.proc q :=
  Function.update_of_ne hne ..

/-! ### What a step can do -/

inductive Moves (h : Host) : HostEvent → Host → Prop
  | launch {p : ℕ} : h.proc p = none → Moves h (.launch p) (h.goto p .fork₁)
  | fork {p child : ℕ} {pc : ProcPc} : h.proc child = none → h.proc p ≠ none →
      pc = .fork₂ ∨ pc = .null →
      Moves h (.fork p child) ((h.goto p .leave).goto child pc)
  | giveUp {p : ℕ} {ok : Bool} : Moves h (.call p ok) (h.goto p .leave)
  | null {p : ℕ} : Moves h (.call p true) (h.goto p .openFile)
  | openFile {p : ℕ} :
      Moves h (.call p true) { h.goto p .setLk with pidfile := some (h.pidfile.getD []) }
  | setLk {p : ℕ} : h.proc p = some .setLk → h.lock = none ∨ h.lock = some p →
      Moves h (.call p true) { h.goto p .ftruncate with lock := some p }
  | ftruncate {p : ℕ} : h.proc p = some .ftruncate →
      Moves h (.call p true) { h.goto p .write with pidfile := some [] }
  | getFd {p : ℕ} : h.proc p = some .getFd → Moves h (.call p true) (h.goto p .setFd)
  | setFd {p : ℕ} : h.proc p = some .setFd → Moves h (.call p true) (h.goto p .service)
  | write {p n : ℕ} : h.proc p = some .write → n ≤ (pidLine p).length →
      Moves h (.write p n) { h.goto p (if n = (pidLine p).length then .getFd else .leave) with
        pidfile := some ((pidLine p).take n ++ (h.pidfile.getD []).drop n) }
  | exit {p : ℕ} : Moves h (.exit p) { h with
      proc := Function.update h.proc p none
      lock := if h.lock = some p then none else h.lock }

theorem moves_of_call {ok : Bool} (hp : h.proc p = some pc) (hcall : h.call p ok pc = some h') :
    Moves h (.call p ok) h' := by
  cases ok
  · -- whatever fails, the process gives up
    cases pc
    all_goals
      cases hcall
      try exact .giveUp
  · cases pc with
    | fork₁ | fork₂ | write | leave => cases hcall
    | null =>
      cases hcall
      exact .null
    | openFile =>
      cases hcall
      exact .openFile
    | setLk =>
      simp only [call, true_and] at hcall
      split at hcall
      · rename_i hlock
        cases hcall
        exact .setLk hp hlock
      · cases hcall
        exact .giveUp
    | ftruncate =>
      cases hcall
      exact .ftruncate hp
    | getFd =>
      cases hcall
      exact .getFd hp
    | setFd =>
      cases hcall
      exact .setFd hp
    | service =>
      cases hcall
      exact .giveUp

theorem moves_of_step (hstep : h.step e = some h') : Moves h e h' := by
  cases e with
  | launch p =>
    simp only [step, Option.ite_none_right_eq_some] at hstep
    obtain ⟨hp, hstep⟩ := hstep
    cases hstep
    exact .launch hp
  | fork p child =>
    simp only [step, Option.ite_none_right_eq_some] at hstep
    obtain ⟨hchild, hstep⟩ := hstep
    split at hstep
    · rename_i hp
      cases hstep
      exact .fork hchild (by simp [hp]) (.inl rfl)
    · rename_i hp
      cases hstep
      exact .fork hchild (by simp [hp]) (.inr rfl)
    · cases hstep
  | call p ok =>
    obtain ⟨pc, hp, hcall⟩ := Option.bind_eq_some_iff.mp hstep
    exact moves_of_call hp hcall
  | write p n =>
    simp only [step, Option.ite_none_right_eq_some] at hstep
    obtain ⟨⟨hp, hn⟩, hstep⟩ := hstep
    cases hstep
    exact .write hp hn
  | exit p =>
    simp only [step, Option.ite_none_left_eq_some] at hstep
    obtain ⟨-, hstep⟩ := hstep
    cases hstep
    exact .exit

/-- A step moves the process that takes it, and one that it starts. -/
theorem proc_of_ne (hne : q ≠ e.proc) (hq : h.proc q ≠ none) (hstep : h.step e = some h') :
    h'.proc q = h.proc q := by
  cases moves_of_step hstep with
  | fork hchild =>
    have hqc : q ≠ _ := fun hc => hq (hc ▸ hchild)
    exact (goto_of_ne _ _ hqc).trans (goto_of_ne _ _ hne)
  | exit => exact Function.update_of_ne hne ..
  | _ => exact goto_of_ne _ _ hne

/-! ### The owner of the PID file -/

/-- What a process that stands at `pc` can rely on. -/
def Sees (h : Host) (p : ℕ) : ProcPc → Prop
  | .setLk => h.pidfile ≠ none
  | .ftruncate => h.lock = some p
  | .write => h.lock = some p ∧ h.pidfile = some []
  | .getFd | .setFd | .service => h.lock = some p ∧ h.pidfile = some (pidLine p)
  | .fork₁ | .fork₂ | .null | .openFile | .leave => True

theorem Sees.holds (hsees : h.Sees p pc) (hpc : pc.Holds) : h.lock = some p := by
  cases pc with
  | ftruncate => exact hsees
  | write | getFd | setFd | service => exact hsees.1
  | fork₁ | fork₂ | null | openFile | setLk | leave => cases hpc

/-- The lock protects it. -/
theorem Sees.mono (hsees : h.Sees q pc) (hfile : h.pidfile ≠ none → h'.pidfile ≠ none)
    (hkeep : h.lock = some q → h'.lock = h.lock ∧ (h.pidfile ≠ none → h'.pidfile = h.pidfile)) :
    h'.Sees q pc := by
  cases pc with
  | setLk => exact hfile hsees
  | ftruncate => exact (hkeep hsees).1.trans hsees
  | write | getFd | setFd | service =>
    obtain ⟨hlock, hpid⟩ := hsees
    obtain ⟨hlock', hpid'⟩ := hkeep hlock
    exact ⟨hlock'.trans hlock, (hpid' (by simp [hpid])).trans hpid⟩
  | fork₁ | fork₂ | null | openFile | leave => trivial

/-- Every process sees what it relies on, and who holds the lock of the PID file is
alive. -/
structure Guarded (h : Host) : Prop where
  sees : ∀ {p pc}, h.proc p = some pc → h.Sees p pc
  alive : ∀ {p}, h.lock = some p → h.proc p ≠ none ∧ h.pidfile ≠ none

theorem Guarded.init (pidfile : Option Bytes) : Guarded (init pidfile) := ⟨nofun, nofun⟩

/-- A step that moves `p` and no other process, and leaves alone what is locked by
others. -/
theorem Guarded.move (hg : Guarded h) (hproc : ∀ q ≠ p, h'.proc q = h.proc q)
    (hsees : ∀ pc, h'.proc p = some pc → h'.Sees p pc)
    (hfile : h.pidfile ≠ none → h'.pidfile ≠ none)
    (hkeep : ∀ q ≠ p, h.lock = some q →
      h'.lock = h.lock ∧ (h.pidfile ≠ none → h'.pidfile = h.pidfile))
    (halive : ∀ q, h'.lock = some q → q = p ∨ h.lock = some q)
    (hown : h'.lock = some p → h'.proc p ≠ none ∧ h'.pidfile ≠ none) : Guarded h' where
  sees := by
    intro q pc hq
    by_cases hqp : q = p
    · subst hqp
      exact hsees pc hq
    · rw [hproc q hqp] at hq
      exact (hg.sees hq).mono hfile (hkeep q hqp)
  alive := by
    intro q hq
    by_cases hqp : q = p
    · subst hqp
      exact hown hq
    · obtain ⟨hlive, hpid⟩ := hg.alive ((halive q hq).resolve_left hqp)
      exact ⟨by rwa [hproc q hqp], hfile hpid⟩

/-- A step to a place where the process relies on what it sees already. -/
theorem Guarded.goto (hg : Guarded h) (hsees : h.Sees p pc) : Guarded (h.goto p pc) := by
  refine hg.move (fun q hne => goto_of_ne h pc hne) ?_ id (fun _ _ _ => ⟨rfl, fun _ => rfl⟩)
    (fun _ => .inr) fun hlock => ⟨by simp, (hg.alive hlock).2⟩
  intro pc' hpc'
  rw [goto_self, Option.some.injEq] at hpc'
  exact hpc' ▸ hsees.mono id fun _ => ⟨rfl, fun _ => rfl⟩

/-- A write to the PID file by the process that holds the lock. -/
theorem Guarded.overwrite (hg : Guarded h) (hlock : h.lock = some p) (file : Bytes)
    (hsees : ({ h with pidfile := some file } : Host).Sees p pc) :
    Guarded { h.goto p pc with pidfile := some file } := by
  refine hg.move (fun q hne => goto_of_ne h pc hne) ?_ (fun _ => by simp) ?_ (fun _ => .inr)
    fun _ => ⟨by simp, by simp⟩
  · intro pc' hpc'
    rw [goto_self, Option.some.injEq] at hpc'
    exact hpc' ▸ hsees.mono id fun _ => ⟨rfl, fun _ => rfl⟩
  · intro q hne hq
    exact absurd (Option.some.inj (hq.symm.trans hlock)) hne

theorem Guarded.step (hg : Guarded h) (hstep : h.step e = some h') : Guarded h' := by
  cases moves_of_step hstep with
  | launch | giveUp | null => exact hg.goto trivial
  | @fork p child pc hchild hp hpc =>
    have hparent : Guarded (h.goto p .leave) := hg.goto trivial
    refine hparent.goto ?_
    rcases hpc with rfl | rfl
    · trivial
    · trivial
  | @openFile p =>
    refine hg.move (fun q hne => goto_of_ne h _ hne) ?_ (fun _ => by simp) ?_ (fun _ => .inr)
      fun _ => ⟨by simp, by simp⟩
    · intro pc' hpc'
      rw [goto_self, Option.some.injEq] at hpc'
      subst hpc'
      exact Option.some_ne_none _
    · -- `open` without `O_TRUNC`: what is there stays
      intro q hne hq
      refine ⟨rfl, fun hpid => ?_⟩
      obtain ⟨file, hfile⟩ := Option.ne_none_iff_exists'.mp hpid
      simp [hfile]
  | @setLk p hp hlock =>
    have hpid : h.pidfile ≠ none := hg.sees hp
    refine hg.move (fun q hne => goto_of_ne h _ hne) ?_ id ?_ ?_ fun _ => ⟨by simp, hpid⟩
    · intro pc' hpc'
      rw [goto_self, Option.some.injEq] at hpc'
      subst hpc'
      rfl
    · -- nobody else holds the lock
      intro q hne hq
      rcases hlock with hlock | hlock
      · cases hlock.symm.trans hq
      · exact absurd (Option.some.inj (hq.symm.trans hlock)) hne
    · exact fun q hq => .inl (Option.some.inj hq).symm
  | @ftruncate p hp =>
    have hlock : h.lock = some p := hg.sees hp
    exact hg.overwrite hlock [] ⟨hlock, rfl⟩
  | getFd hp =>
    obtain ⟨hlock, hpid⟩ := hg.sees hp
    exact hg.goto ⟨hlock, hpid⟩
  | setFd hp =>
    obtain ⟨hlock, hpid⟩ := hg.sees hp
    exact hg.goto ⟨hlock, hpid⟩
  | @write p n hp hn =>
    obtain ⟨hlock, hempty⟩ := hg.sees hp
    refine hg.overwrite hlock _ ?_
    split
    · rename_i hall
      refine ⟨hlock, ?_⟩
      simp [hempty, hall]
    · trivial
  | @exit p =>
    refine hg.move (fun q hne => Function.update_of_ne hne ..) ?_ id ?_ ?_ ?_
    · intro pc hpc
      dsimp only at hpc
      rw [Function.update_self] at hpc
      cases hpc
    · intro q hne hq
      have hother : h.lock ≠ some p := fun hp => hne (Option.some.inj (hq.symm.trans hp))
      exact ⟨if_neg hother, fun _ => rfl⟩
    · intro q hq
      dsimp only at hq
      split at hq
      · cases hq
      · exact .inr hq
    · intro hp
      dsimp only at hp
      split at hp
      · cases hp
      · rename_i hother
        exact absurd hp hother

theorem guarded_run {pidfile : Option Bytes} {es : List HostEvent}
    (hrun : Lts.run step (init pidfile) es = some h) : Guarded h :=
  Lts.run_invariant (I := Guarded) (fun _ _ _ hg hs => hg.step hs) (.init pidfile) hrun

/-- **One server.**  However many processes are started, forked, killed or fail, and in
whatever order they proceed, at most one of them is in service, and the PID file names
it. -/
theorem singleton_of_run {pidfile : Option Bytes} {es : List HostEvent}
    (hrun : Lts.run step (init pidfile) es = some h) :
    (∀ p q, h.proc p = some .service → h.proc q = some .service → p = q) ∧
      ∀ p, h.proc p = some .service → h.pidfile = some (pidLine p) := by
  have hg := guarded_run hrun
  refine ⟨fun p q hp hq => ?_, fun p hp => (hg.sees hp).2⟩
  exact Option.some.inj ((hg.sees hp).1.symm.trans (hg.sees hq).1)

/-- **A server is not disturbed.**  As long as the process in service does nothing itself
that ends it, whatever is started beside it does not come past the lock, and the PID
file stays as it is. -/
theorem service_kept {pidfile : Option Bytes} {es fs : List HostEvent}
    (hrun : Lts.run step (init pidfile) es = some h) (hp : h.proc p = some .service)
    (hfs : ∀ e ∈ fs, e.proc ≠ p) (hrun' : Lts.run step h fs = some h') :
    h'.proc p = some .service ∧ h'.pidfile = some (pidLine p) ∧
      ∀ q pc, h'.proc q = some pc → pc.Holds → q = p := by
  have hend : Guarded h' ∧ h'.proc p = some .service := by
    have hall : Lts.RunAll step (fun _ e => e.proc ≠ p) h fs := Lts.runAll_of_mem h hfs
    refine Lts.run_invariant_of (I := fun h => Guarded h ∧ h.proc p = some .service) ?_
      ⟨guarded_run hrun, hp⟩ hall hrun'
    rintro h e h₁ ⟨hg, hp⟩ hne hstep
    exact ⟨hg.step hstep, (proc_of_ne hne.symm (by simp [hp]) hstep).trans hp⟩
  obtain ⟨hg, hp'⟩ := hend
  obtain ⟨hlock, hpid⟩ := hg.sees hp'
  refine ⟨hp', hpid, fun q pc hq hpc => ?_⟩
  exact Option.some.inj (((hg.sees hq).holds hpc).symm.trans hlock)

/-! ### Starting the server -/

/-- The way to the lock: `p` is started, forks `q`, and `q` forks `r`. -/
def toLock (p q r : ℕ) : List HostEvent :=
  [.launch p, .fork p q, .fork q r, .call r true, .call r true]

/-- The way from there into service, in which every call succeeds. -/
def toService (r : ℕ) : List HostEvent :=
  [.call r true, .call r true, .write r (pidLine r).length, .call r true, .call r true]

/-- Calls that succeed. -/
theorem step_call (hp : h.proc p = some pc) (hcall : h.call p true pc = some h') :
    h.step (.call p true) = some h' := by
  rw [step, hp, Option.bind_some, hcall]

theorem run_toLock (hp : h.proc p = none) (hq : h.proc q = none) (hr : h.proc r = none)
    (hpq : q ≠ p) (hpr : r ≠ p) (hqr : r ≠ q) :
    ∃ h', Lts.run step h (toLock p q r) = some h' ∧ h'.proc r = some .setLk ∧
      h'.lock = h.lock ∧ h'.pidfile = some (h.pidfile.getD []) := by
  have hlaunch : h.step (.launch p) = some (h.goto p .fork₁) := by rw [step, if_pos hp]
  set h₁ := h.goto p .fork₁ with hh₁
  have hfork₁ : h₁.step (.fork p q) = some ((h₁.goto p .leave).goto q .fork₂) := by
    have hq₁ : h₁.proc q = none := (goto_of_ne h _ hpq).trans hq
    rw [step, if_pos hq₁, hh₁, goto_self]
  set h₂ := (h₁.goto p .leave).goto q .fork₂ with hh₂
  have hfork₂ : h₂.step (.fork q r) = some ((h₂.goto q .leave).goto r .null) := by
    have hr₂ : h₂.proc r = none := by
      rw [hh₂, goto_of_ne _ _ hqr, goto_of_ne _ _ hpr, hh₁, goto_of_ne _ _ hpr, hr]
    rw [step, if_pos hr₂, hh₂, goto_self]
  set h₃ := (h₂.goto q .leave).goto r .null with hh₃
  have hnull : h₃.step (.call r true) = some (h₃.goto r .openFile) :=
    step_call (goto_self ..) rfl
  set h₄ := h₃.goto r .openFile with hh₄
  set h₅ : Host := { h₄.goto r .setLk with pidfile := some (h₄.pidfile.getD []) } with hh₅
  have hopen : h₄.step (.call r true) = some h₅ := step_call (goto_self ..) rfl
  refine ⟨h₅, ?_, goto_self h₄ r .setLk, rfl, rfl⟩
  rw [toLock, Lts.run_cons hlaunch, Lts.run_cons hfork₁, Lts.run_cons hfork₂, Lts.run_cons hnull,
    Lts.run_cons hopen, Lts.run_nil]

theorem run_toService (hr : h.proc r = some .setLk) (hlock : h.lock = none) :
    ∃ h', Lts.run step h (toService r) = some h' ∧ h'.proc r = some .service ∧
      h'.pidfile = some (pidLine r) := by
  set h₁ : Host := { h.goto r .ftruncate with lock := some r } with hh₁
  have hsetLk : h.step (.call r true) = some h₁ :=
    step_call hr (if_pos ⟨rfl, .inl hlock⟩)
  set h₂ : Host := { h₁.goto r .write with pidfile := some [] } with hh₂
  have htruncate : h₁.step (.call r true) = some h₂ := step_call (goto_self ..) rfl
  set h₃ : Host := { h₂.goto r .getFd with pidfile := some (pidLine r) } with hh₃
  have hwrite : h₂.step (.write r (pidLine r).length) = some h₃ := by
    rw [step, if_pos ⟨goto_self .., le_rfl⟩, if_pos rfl, hh₃]
    simp [hh₂]
  set h₄ := h₃.goto r .setFd with hh₄
  have hgetFd : h₃.step (.call r true) = some h₄ := step_call (goto_self ..) rfl
  have hsetFd : h₄.step (.call r true) = some (h₄.goto r .service) :=
    step_call (goto_self ..) rfl
  refine ⟨h₄.goto r .service, ?_, goto_self .., rfl⟩
  rw [toService, Lts.run_cons hsetLk, Lts.run_cons htruncate, Lts.run_cons hwrite,
    Lts.run_cons hgetFd, Lts.run_cons hsetFd, Lts.run_nil]

/-- **A start succeeds or gives up.**  After any run, a start that is not interrupted and
all of whose calls are answered comes into service if nobody holds the lock; if somebody does, it returns from
`main` with nothing changed. -/
theorem startup_of_run {pidfile : Option Bytes} {es : List HostEvent}
    (hrun : Lts.run step (init pidfile) es = some h) (hp : h.proc p = none)
    (hq : h.proc q = none) (hr : h.proc r = none) (hpq : q ≠ p) (hpr : r ≠ p) (hqr : r ≠ q) :
    (h.lock = none → ∃ h', Lts.run step h (toLock p q r ++ toService r) = some h' ∧
        h'.proc r = some .service ∧ h'.pidfile = some (pidLine r)) ∧
      (h.lock ≠ none → ∃ h', Lts.run step h (toLock p q r ++ [.call r true]) = some h' ∧
        h'.proc r = some .leave ∧ h'.pidfile = h.pidfile ∧ h'.lock = h.lock) := by
  have hg := guarded_run hrun
  obtain ⟨h₁, hrun₁, hr₁, hlock₁, hpid₁⟩ := run_toLock hp hq hr hpq hpr hqr
  constructor
  · intro hfree
    obtain ⟨h', hrun', hservice, hpid⟩ := run_toService hr₁ (hlock₁.trans hfree)
    exact ⟨h', by rw [Lts.run_append hrun₁, hrun'], hservice, hpid⟩
  · intro hheld
    obtain ⟨o, ho⟩ := Option.ne_none_iff_exists'.mp hheld
    obtain ⟨halive, hfile⟩ := hg.alive ho
    obtain ⟨file, hfile⟩ := Option.ne_none_iff_exists'.mp hfile
    have hother : o ≠ r := fun hor => halive (hor ▸ hr)
    have hsetLk : h₁.step (.call r true) = some (h₁.goto r .leave) := by
      refine step_call hr₁ (if_neg ?_)
      simp [hlock₁, ho, hother]
    refine ⟨h₁.goto r .leave, ?_, goto_self .., ?_, hlock₁⟩
    · rw [Lts.run_append hrun₁, Lts.run_cons hsetLk, Lts.run_nil]
    · exact hpid₁.trans (by simp [hfile])

/-- Two starts at a time, of which the second gets the lock. -/
def twoStarts : List HostEvent :=
  [.launch 1, .launch 2, .fork 1 3, .fork 2 4, .fork 4 6, .fork 3 5] ++
    [.call 5 true, .call 6 true, .call 5 true, .call 6 true, .call 6 true, .call 5 true] ++
    [.call 6 true, .write 6 2, .exit 5, .call 6 true, .call 6 true]

theorem run_twoStarts : ∃ h, Lts.run step (init (some (lit "17\n"))) twoStarts = some h ∧
    h.proc 6 = some .service ∧ h.proc 7 = none ∧ h.proc 8 = none ∧ h.proc 9 = none ∧
      h.lock = some 6 := by
  have heval : (Lts.run step (init (some (lit "17\n"))) twoStarts).map
      (fun h => (h.proc 6, h.proc 7, h.proc 8, h.proc 9, h.lock)) =
        some (some .service, none, none, none, some 6) := by decide
  obtain ⟨h, hrun, hend⟩ := Option.map_eq_some_iff.mp heval
  simp only [Prod.mk.injEq] at hend
  exact ⟨h, hrun, hend⟩

theorem singleton_twoStarts : ∃ h,
    Lts.run step (init (some (lit "17\n"))) twoStarts = some h ∧ h.pidfile = some (lit "6\n") := by
  obtain ⟨h, hrun, hp, -⟩ := run_twoStarts
  exact ⟨h, hrun, (singleton_of_run hrun).2 6 hp⟩

theorem service_kept_twoStarts : ∃ h h',
    Lts.run step (init (some (lit "17\n"))) twoStarts = some h ∧
      Lts.run step h (toLock 7 8 9) = some h' ∧ h'.proc 9 = some .setLk ∧
        h'.proc 6 = some .service ∧ h'.pidfile = some (lit "6\n") := by
  obtain ⟨h, hrun, hp, h7, h8, h9, -⟩ := run_twoStarts
  obtain ⟨h', hrun', hp', -⟩ := run_toLock h7 h8 h9 (by decide) (by decide) (by decide)
  have hkept := service_kept hrun hp (by decide) hrun'
  exact ⟨h, h', hrun, hrun', hp', hkept.1, hkept.2.1⟩

/-- The server that has got the lock is still there. -/
theorem startup_twoStarts : ∃ h h',
    Lts.run step (init (some (lit "17\n"))) twoStarts = some h ∧
      Lts.run step h (toLock 7 8 9 ++ [.call 9 true]) = some h' ∧
        h'.proc 9 = some .leave ∧ h'.pidfile = h.pidfile := by
  obtain ⟨h, hrun, -, h7, h8, h9, hlock⟩ := run_twoStarts
  have hstart := startup_of_run hrun h7 h8 h9 (by decide) (by decide) (by decide)
  obtain ⟨h', hrun', hp', hfile, -⟩ := hstart.2 (by simp [hlock])
  exact ⟨h, h', hrun, hrun', hp', hfile⟩

end Host

end FtServer
