/-
FtServer/AutoFree.lean

The thread that cleans the storage.  `thread_autofree` checks the disk five seconds after
the start of the service and then, so its comment, every day at noon: after each check it
sleeps until the noon that `next_noon` gives it.  It measures the sleep by the steady
clock, and the noon by the clock of the system, which can be set meanwhile.

* `noons_iff`: the noons slept to are those of consecutive days exactly as long as each
  check ends within the day that begins ten seconds before its noon and ends ten seconds
  before the next, by the whole seconds of `second_clock` (`OnTime`); a clock that shows at
  most nine seconds less than the noon does not lead to a second check.
* `checked_after_noon`: while nobody sets the clock and local time is not shifted, no check
  begins before its noon.
* `removes_future`: what all these checks remove.  Before the year 2346 nothing that bears
  a date of the past is removed, so the disk is not freed.
-/
import Mathlib.Data.List.Chain
import FtServer.Lts
import FtServer.LogFlush
import FtServer.OddNames

namespace FtServer

/-! ### `next_noon` -/

/-- `next_noon`, in seconds: to the noon of the day, or of the next day if that is less
than ten seconds ahead or gone. -/
def nextNoon (now : Ptime) : ℤ :=
  let secs : ℤ := 12 * 3600 - now.secs
  if secs < 10 then secs + 86400 else secs

/-- The noon of a day, counted in seconds like `Ptime.seconds`. -/
def IsNoon (t : ℤ) : Prop := t % 86400 = 43200

instance (t : ℤ) : Decidable (IsNoon t) := inferInstanceAs (Decidable (_ = _))

/-- It is the first noon that is ten seconds ahead. -/
theorem nextNoon_spec (now : Ptime) :
    IsNoon (now.seconds + nextNoon now) ∧ 10 ≤ nextNoon now ∧ nextNoon now < 86410 := by
  have hsecs := now.secs_lt
  simp only [IsNoon, nextNoon, Ptime.seconds]
  split <;> omega

/-- Seen from ten seconds before a noon until ten seconds before the next, that is the
next one. -/
theorem nextNoon_eq_iff {noon : ℤ} (hnoon : IsNoon noon) (now : Ptime) :
    now.seconds + nextNoon now = noon + 86400 ↔
      noon - 10 < now.seconds ∧ now.seconds ≤ noon + 86390 := by
  obtain ⟨hnext, hge, hlt⟩ := nextNoon_spec now
  simp only [IsNoon] at hnoon hnext
  omega

/-! ### What `free_storage` removes -/

variable {t : DateInt} {now : GregDate}

/-- What the loop removes, it removes in its body. -/
theorem cleanLoop_removed {xs : List DirEntry} {name : Bytes}
    (h : name ∈ (cleanLoop t now xs).1) :
    ∃ x ∈ xs, x.name = name ∧ cleanEntry t now x = .ok true := by
  induction xs with
  | nil => simp [cleanLoop] at h
  | cons x xs ih =>
    rw [cleanLoop] at h
    rcases hx : cleanEntry t now x with e | removed
    · simp [hx] at h
    · simp only [hx] at h
      by_cases hhead : removed = true ∧ name = x.name
      · exact ⟨x, List.mem_cons_self .., hhead.2.symm, by rw [hx, hhead.1]⟩
      · have hrest : name ∈ (cleanLoop t now xs).1 := by
          cases removed with
          | false => simpa using h
          | true => simpa [show name ≠ x.name from fun heq => hhead ⟨rfl, heq⟩] using h
        obtain ⟨x', hmem, hfound⟩ := ih hrest
        exact ⟨x', List.mem_cons_of_mem _ hmem, hfound⟩

/-- The calendar of the library begins less than `days4` days before 2346. -/
theorem older_future {d : GregDate} (hyear : now.year ≤ 2345) (h : older t now d = true) :
    t = .uint32 ∧ now.dayNumber < d.dayNumber := by
  have hfirst := Date.dayNumber_bounds d.year_ge d.year_le
  have hlast := Date.dayNumber_bounds now.year_ge hyear
  have h1400 : Date.monthStart 1400 1 = 2232399 := by decide
  have h2346 : Date.monthStart (2345 + 1) 1 = 2577918 := by decide
  have hfuture : now.dayNumber < d.dayNumber := by
    by_contra hpast
    rw [older_iff (by omega), Date.moreThanDaysBefore_iff] at h
    omega
  refine ⟨?_, hfuture⟩
  cases t with
  | long =>
    rw [older, DateInt.exceeds_long, days4, GregDate.modjulianDay, GregDate.modjulianDay] at h
    omega
  | uint32 => rfl

/-- The name bears a date after that day. -/
def FutureName (now : GregDate) (name : Bytes) : Prop :=
  ∃ text d, afterLast 95 name = some text ∧ tmdir text = .ok d ∧ now.dayNumber < d.dayNumber

theorem freeStorage_future {available : UInt64} {minDiskStorage : Int32} {root : StorageRoot}
    {name : Bytes} (hyear : now.year ≤ 2345)
    (h : name ∈ (freeStorage t available minDiskStorage now root).removed) :
    t = .uint32 ∧ FutureName now name := by
  rw [freeStorage] at h
  split at h
  · obtain ⟨x, -, rfl, htrue⟩ := cleanLoop_removed h
    obtain ⟨-, d, ⟨-, text, htext, hdate⟩, hold⟩ := cleanEntry_true_iff.mp htrue
    obtain ⟨hunsigned, hfuture⟩ := older_future hyear hold
    exact ⟨hunsigned, text, d, htext, hdate, hfuture⟩
  · simp at h

/-! ### The thread -/

inductive AutoFreePc
  /-- in `sleep_for`, with so many microseconds left -/
  | sleeping (left : ℤ)
  /-- before the check -/
  | awake
  /-- before `next_noon` -/
  | checked
  | ended
  deriving DecidableEq

/-- The thread and the clock of the system, in microseconds like `Ptime.seconds`. -/
structure AutoFree where
  clock : ℤ
  pc : AutoFreePc
  bFreeStorage : Bool
  minDiskStorage : Int32
  /-- when the checks began -/
  checks : List ℤ
  /-- the noons slept to, in seconds -/
  noons : List ℤ
  /-- what `free_storage` did, with the day of the call -/
  cleanings : List (GregDate × Cleaning)

inductive AutoFreeEvent
  /-- so many microseconds pass -/
  | pass (d : ℕ)
  /-- the clock is set by `settimeofday`, or local time shifted (by summer time) -/
  | setClock (clock : ℤ)
  | wake
  /-- the check, with what the file system answers -/
  | check (now : GregDate) (available : UInt64) (root : StorageRoot)
  /-- `space` or the iterator throws -/
  | checkThrows
  /-- the call of `next_noon` -/
  | schedule (now : Ptime)
  /-- `StopService` -/
  | interrupt

/-- Nobody sets the clock, and local time is not shifted. -/
def AutoFreeEvent.Undisturbed (e : AutoFreeEvent) : Prop := ∀ clock, e ≠ .setClock clock

namespace AutoFree

/-- What `second_clock` shows. -/
def seconds (s : AutoFree) : ℤ := s.clock / 1000000

def step (t : DateInt) (s : AutoFree) : AutoFreeEvent → Option AutoFree
  | .pass d =>
    match s.pc with
    | .sleeping left => some { s with clock := s.clock + d, pc := .sleeping (left - d) }
    | .awake | .checked | .ended => some { s with clock := s.clock + d }
  | .setClock clock => some { s with clock := clock }
  | .wake =>
    match s.pc with
    | .sleeping left =>
      if left ≤ 0 then some { s with pc := .awake, checks := s.checks ++ [s.clock] } else none
    | .awake | .checked | .ended => none
  | .check now available root =>
    if s.pc = .awake then
      if s.bFreeStorage = true then
        if now.dayNumber = s.seconds / 86400 then
          let c := freeStorage t available s.minDiskStorage now root
          -- an exception leaves the thread and ends the process
          some { s with
            pc := if c.thrown.isSome then .ended else .checked
            cleanings := s.cleanings ++ [(now, c)] }
        else none
      else some { s with pc := .checked }
    else none
  | .checkThrows =>
    if s.pc = .awake ∧ s.bFreeStorage = true then some { s with pc := .ended } else none
  | .schedule now =>
    if s.pc = .checked ∧ now.seconds = s.seconds then
      some { s with
        pc := .sleeping (nextNoon now * 1000000)
        noons := s.noons ++ [now.seconds + nextNoon now] }
    else none
  | .interrupt =>
    match s.pc with
    | .sleeping _ => some { s with pc := .ended }
    | .awake | .checked | .ended => none

/-- The start of the thread. -/
def init (clock : ℤ) (bFreeStorage : Bool) (minDiskStorage : Int32) : AutoFree where
  clock := clock
  pc := .sleeping 5000000
  bFreeStorage := bFreeStorage
  minDiskStorage := minDiskStorage
  checks := []
  noons := []
  cleanings := []

variable {s s' : AutoFree} {e : AutoFreeEvent}

/-- What a step does. -/
inductive Moves (t : DateInt) (s : AutoFree) : AutoFreeEvent → AutoFree → Prop
  | sleepOn (d : ℕ) (left : ℤ) (hpc : s.pc = .sleeping left) :
    Moves t s (.pass d) { s with clock := s.clock + d, pc := .sleeping (left - d) }
  | goOn (d : ℕ) (hpc : ∀ left, s.pc ≠ .sleeping left) :
    Moves t s (.pass d) { s with clock := s.clock + d }
  | setClock (clock : ℤ) : Moves t s (.setClock clock) { s with clock := clock }
  | wake (left : ℤ) (hpc : s.pc = .sleeping left) (hleft : left ≤ 0) :
    Moves t s .wake { s with pc := .awake, checks := s.checks ++ [s.clock] }
  | clean (now : GregDate) (available : UInt64) (root : StorageRoot) (pc : AutoFreePc)
    (hpc : s.pc = .awake) (hnow : now.dayNumber = s.seconds / 86400)
    (hpc' : pc = .checked ∨ pc = .ended) :
    Moves t s (.check now available root) { s with
      pc := pc
      cleanings := s.cleanings ++ [(now, freeStorage t available s.minDiskStorage now root)] }
  | skip (now : GregDate) (available : UInt64) (root : StorageRoot) (hpc : s.pc = .awake) :
    Moves t s (.check now available root) { s with pc := .checked }
  | checkThrows (hpc : s.pc = .awake) : Moves t s .checkThrows { s with pc := .ended }
  | schedule (now : Ptime) (hpc : s.pc = .checked) (hnow : now.seconds = s.seconds) :
    Moves t s (.schedule now) { s with
      pc := .sleeping (nextNoon now * 1000000)
      noons := s.noons ++ [now.seconds + nextNoon now] }
  | interrupt (left : ℤ) (hpc : s.pc = .sleeping left) :
    Moves t s .interrupt { s with pc := .ended }

theorem moves_of_step (hstep : step t s e = some s') : Moves t s e s' := by
  cases e with
  | pass d =>
    rw [step] at hstep
    split at hstep <;> rename_i hpc <;> rw [Option.some.injEq] at hstep <;> subst hstep
    · exact .sleepOn d _ hpc
    all_goals exact .goOn d fun left hsleep => by simp [hpc] at hsleep
  | setClock clock =>
    simp only [step, Option.some.injEq] at hstep
    subst hstep
    exact .setClock clock
  | wake =>
    rcases hpc : s.pc with left | - | - | - <;>
      simp only [step, hpc, Option.ite_none_right_eq_some, Option.some.injEq, reduceCtorEq]
        at hstep
    obtain ⟨hleft, rfl⟩ := hstep
    exact .wake left hpc hleft
  | check now available root =>
    simp only [step, Option.ite_none_right_eq_some] at hstep
    obtain ⟨hpc, hstep⟩ := hstep
    split at hstep
    · simp only [Option.ite_none_right_eq_some, Option.some.injEq] at hstep
      obtain ⟨hnow, rfl⟩ := hstep
      refine .clean now available root _ hpc hnow ?_
      split
      · exact .inr rfl
      · exact .inl rfl
    · rw [Option.some.injEq] at hstep
      subst hstep
      exact .skip now available root hpc
  | checkThrows =>
    simp only [step, Option.ite_none_right_eq_some, Option.some.injEq] at hstep
    obtain ⟨⟨hpc, -⟩, rfl⟩ := hstep
    exact .checkThrows hpc
  | schedule now =>
    simp only [step, Option.ite_none_right_eq_some, Option.some.injEq] at hstep
    obtain ⟨⟨hpc, hnow⟩, rfl⟩ := hstep
    exact .schedule now hpc hnow
  | interrupt =>
    rcases hpc : s.pc with left | - | - | - <;>
      simp only [step, hpc, Option.some.injEq, reduceCtorEq] at hstep
    subst hstep
    exact .interrupt left hpc

/-! ### The noons -/

/-- The step condition: the check ends within the day that begins ten seconds before the
noon slept to and ends ten seconds before the next. -/
def OnTime (s : AutoFree) : AutoFreeEvent → Prop
  | .schedule _ => ∀ noon ∈ s.noons.getLast?, noon - 10 < s.seconds ∧ s.seconds ≤ noon + 86390
  | _ => True

/-- The noon of the next day. -/
def DayAfter (noon noon' : ℤ) : Prop := noon' = noon + 86400

/-- Only `next_noon` adds a noon. -/
theorem noons_of_moves (h : Moves t s e s') :
    (s'.noons = s.noons ∧ ∀ s₀, OnTime s₀ e) ∨
      ∃ now, e = .schedule now ∧ now.seconds = s.seconds ∧
        s'.noons = s.noons ++ [now.seconds + nextNoon now] := by
  cases h with
  | schedule now hpc hnow => exact .inr ⟨now, rfl, hnow, rfl⟩
  | sleepOn | goOn | setClock | wake | clean | skip | checkThrows | interrupt =>
    exact .inl ⟨rfl, fun _ => trivial⟩

/-- Every noon slept to is one. -/
def Noons (s : AutoFree) : Prop := ∀ noon ∈ s.noons, IsNoon noon

theorem Noons.snoc (h : Noons s) (now : Ptime) :
    ∀ noon ∈ s.noons ++ [now.seconds + nextNoon now], IsNoon noon := by
  intro noon hmem
  rcases List.mem_append.mp hmem with hmem | hmem
  · exact h noon hmem
  · rw [List.mem_singleton.mp hmem]
    exact (nextNoon_spec now).1

theorem Noons.step (h : Noons s) (hstep : step t s e = some s') : Noons s' := by
  rcases noons_of_moves (moves_of_step hstep) with ⟨hnoons, -⟩ | ⟨now, -, -, hnoons⟩
  · rwa [Noons, hnoons]
  · rw [Noons, hnoons]
    exact h.snoc now

theorem chain_snoc {R : ℤ → ℤ → Prop} {noons : List ℤ} {noon : ℤ} :
    (noons ++ [noon]).IsChain R ↔ noons.IsChain R ∧ ∀ x ∈ noons.getLast?, R x noon := by
  simp [List.isChain_append]

/-- The noon added is that of the next day exactly if the call is made in time. -/
theorem Noons.onTime_iff (h : Noons s) {now : Ptime} (hnow : now.seconds = s.seconds) :
    (∀ noon ∈ s.noons.getLast?, DayAfter noon (now.seconds + nextNoon now)) ↔
      OnTime s (.schedule now) := by
  refine forall₂_congr fun noon hmem => ?_
  rw [DayAfter, nextNoon_eq_iff (h noon (List.mem_of_getLast? hmem)), hnow]

/-- The noons so far are those of consecutive days. -/
structure Daily (s : AutoFree) : Prop where
  noons : Noons s
  chain : s.noons.IsChain DayAfter

/-- A day has been left out, or had two checks. -/
structure Slipped (s : AutoFree) : Prop where
  noons : Noons s
  chain : ¬ s.noons.IsChain DayAfter

theorem Daily.step (h : Daily s) (hok : OnTime s e) (hstep : step t s e = some s') :
    Daily s' where
  noons := h.noons.step hstep
  chain := by
    rcases noons_of_moves (moves_of_step hstep) with ⟨hnoons, -⟩ | ⟨now, rfl, hnow, hnoons⟩
    · rw [hnoons]
      exact h.chain
    · rw [hnoons, chain_snoc]
      exact ⟨h.chain, (h.noons.onTime_iff hnow).mpr hok⟩

theorem Daily.slip (h : Daily s) (hbad : ¬ OnTime s e) (hstep : AutoFree.step t s e = some s') :
    Slipped s' where
  noons := h.noons.step hstep
  chain := by
    rcases noons_of_moves (moves_of_step hstep) with ⟨-, hok⟩ | ⟨now, rfl, hnow, hnoons⟩
    · exact absurd (hok s) hbad
    · rw [hnoons, chain_snoc]
      exact fun hchain => hbad ((h.noons.onTime_iff hnow).mp hchain.2)

theorem Slipped.step (h : Slipped s) (hstep : step t s e = some s') : Slipped s' where
  noons := h.noons.step hstep
  chain := by
    rcases noons_of_moves (moves_of_step hstep) with ⟨hnoons, -⟩ | ⟨now, -, -, hnoons⟩
    · rw [hnoons]
      exact h.chain
    · rw [hnoons, chain_snoc]
      exact fun hchain => h.chain hchain.1

/-- **One check a day.**  In every run, whatever the clock is set to and however long the
checks take, all that the thread sleeps to are noons, and they are those of consecutive days
exactly if every check ends in time. -/
theorem noons_iff {clock : ℤ} {bFreeStorage : Bool} {minDiskStorage : Int32}
    {es : List AutoFreeEvent} {s : AutoFree}
    (hrun : Lts.run (step t) (init clock bFreeStorage minDiskStorage) es = some s) :
    (∀ noon ∈ s.noons, IsNoon noon) ∧
      (s.noons.IsChain DayAfter ↔
        Lts.RunAll (step t) OnTime (init clock bFreeStorage minDiskStorage) es) := by
  have hinit : Daily (init clock bFreeStorage minDiskStorage) := ⟨nofun, .nil⟩
  have hends :=
    Lts.runAll_or_of (fun _ _ _ h _ hok hs => h.step hok hs)
      (fun _ _ _ h _ hbad hs => h.slip hbad hs) (fun _ _ _ h _ hs => h.step hs) hinit
      (Lts.runAll_of_forall (fun _ _ => trivial) _ es) hrun
  rcases hends with ⟨hall, hdaily⟩ | ⟨hall, hslipped⟩
  · exact ⟨hdaily.noons, iff_of_true hdaily.chain hall⟩
  · exact ⟨hslipped.noons, iff_of_false hslipped.chain hall⟩

/-- Noon of 10 January 2024. -/
def noon2024 : ℤ := jan2024.dayNumber * 86400 + 43200

def jan2024At (secs : ℕ) (h : secs < 86400) : Ptime := ⟨jan2024, secs, h⟩

/-- Started a minute before noon; the clock is set back by nine seconds while the thread
sleeps, so that the second check is made before the noon slept to. -/
def setBack : List AutoFreeEvent :=
  [.pass 5000000, .wake, .check jan2024 0 datelessRoot, .schedule (jan2024At 43145 (by decide)),
    .pass 55000000, .setClock ((noon2024 - 9) * 1000000), .wake,
    .check jan2024 0 datelessRoot, .schedule (jan2024At 43191 (by decide))]

theorem noons_setBack : ∃ s,
    Lts.run (step .long) (init ((noon2024 - 60) * 1000000) true 500) setBack = some s ∧
      s.noons = [noon2024, noon2024 + 86400] ∧
      (∀ noon ∈ s.noons, IsNoon noon) ∧
      (s.noons.IsChain DayAfter ↔
        Lts.RunAll (step .long) OnTime (init ((noon2024 - 60) * 1000000) true 500) setBack) := by
  have heval : (Lts.run (step .long) (init ((noon2024 - 60) * 1000000) true 500) setBack).map
      AutoFree.noons = some [noon2024, noon2024 + 86400] := by decide +kernel
  obtain ⟨s, hrun, hnoons⟩ := Option.map_eq_some_iff.mp heval
  exact ⟨s, hrun, hnoons, noons_iff hrun⟩

/-! ### The checks -/

/-- Each check but the first has its noon, which is a day after the noon of the check
before it or later, and does not begin earlier. -/
structure AtNoon (s : AutoFree) : Prop where
  chain : s.noons.IsChain fun noon noon' => noon + 86400 ≤ noon'
  length : s.checks.length ≤ s.noons.length + 1
  after : ∀ k noon clock, s.noons[k]? = some noon → s.checks[k + 1]? = some clock →
    noon * 1000000 ≤ clock

/-- The noon slept to is reached with the end of the sleep, and never left behind. -/
structure Punctual (s : AutoFree) : Prop extends AtNoon s where
  noons : Noons s
  sleeping : ∀ left, s.pc = .sleeping left → s.checks.length = s.noons.length ∧
    ∀ noon ∈ s.noons.getLast?, noon * 1000000 ≤ s.clock + left
  working : s.pc = .awake ∨ s.pc = .checked → s.checks.length = s.noons.length + 1 ∧
    ∀ noon ∈ s.noons.getLast?, noon * 1000000 ≤ s.clock

theorem Punctual.init (clock : ℤ) (bFreeStorage : Bool) (minDiskStorage : Int32) :
    Punctual (init clock bFreeStorage minDiskStorage) where
  chain := .nil
  length := Nat.zero_le _
  after := nofun
  noons := nofun
  sleeping := fun _ _ => ⟨rfl, nofun⟩
  working := nofun

/-- Steps of a thread that is awake, or ends. -/
theorem Punctual.goOn (h : Punctual s) (hnoons : s'.noons = s.noons)
    (hchecks : s'.checks = s.checks) (hclock : s.clock ≤ s'.clock)
    (hsleep : ∀ left, s'.pc ≠ .sleeping left)
    (hpc : s'.pc = .awake ∨ s'.pc = .checked → s.pc = .awake ∨ s.pc = .checked) :
    Punctual s' where
  chain := hnoons ▸ h.chain
  length := by
    rw [hnoons, hchecks]
    exact h.length
  after := by
    rw [hnoons, hchecks]
    exact h.after
  noons := by
    rw [Noons, hnoons]
    exact h.noons
  sleeping := fun left hleft => absurd hleft (hsleep left)
  working := by
    intro hwork
    obtain ⟨hlength, hlast⟩ := h.working (hpc hwork)
    rw [hnoons, hchecks]
    exact ⟨hlength, fun noon hnoon => Int.le_trans (hlast noon hnoon) hclock⟩

/-- The check begins when the sleep is over. -/
theorem Punctual.wake {left : ℤ} (h : Punctual s) (hpc : s.pc = .sleeping left)
    (hleft : left ≤ 0) :
    Punctual { s with pc := .awake, checks := s.checks ++ [s.clock] } := by
  obtain ⟨hlength, hlast⟩ := h.sleeping left hpc
  have hreached : ∀ noon ∈ s.noons.getLast?, noon * 1000000 ≤ s.clock := by
    intro noon hnoon
    have hle := hlast noon hnoon
    omega
  refine ⟨⟨h.chain, ?_, ?_⟩, h.noons, nofun, fun _ => ⟨?_, hreached⟩⟩
  · simp [hlength]
  · intro k noon clock hnoon hclock
    have hk : k < s.noons.length := (List.getElem?_eq_some_iff.mp hnoon).1
    by_cases hnew : k + 1 = s.checks.length
    · -- the noon of the check that begins is the last one
      rw [hnew, List.getElem?_concat_length, Option.some.injEq] at hclock
      rw [← hclock]
      refine hreached noon ?_
      rwa [List.getLast?_eq_getElem?, show s.noons.length - 1 = k by omega]
    · rw [List.getElem?_append_left (by omega)] at hclock
      exact h.after k noon clock hnoon hclock
  · simp [hlength]

/-- The next noon is after the clock, which has passed the last one. -/
theorem Punctual.schedule {now : Ptime} (h : Punctual s) (hpc : s.pc = .checked)
    (hnow : now.seconds = s.seconds) :
    Punctual { s with
      pc := .sleeping (nextNoon now * 1000000)
      noons := s.noons ++ [now.seconds + nextNoon now] } := by
  obtain ⟨hlength, hlast⟩ := h.working (.inr hpc)
  obtain ⟨hnext, hge, -⟩ := nextNoon_spec now
  rw [seconds] at hnow
  refine ⟨⟨chain_snoc.mpr ⟨h.chain, fun noon hnoon => ?_⟩, ?_, ?_⟩, h.noons.snoc now, ?_, nofun⟩
  · have hlast' := hlast noon hnoon
    have hnoon' := h.noons noon (List.mem_of_getLast? hnoon)
    simp only [IsNoon] at hnext hnoon'
    omega
  · simp [hlength]
  · intro k noon clock hnoon hclock
    have hk : k + 1 < s.checks.length := (List.getElem?_eq_some_iff.mp hclock).1
    rw [List.getElem?_append_left (by omega)] at hnoon
    exact h.after k noon clock hnoon hclock
  · intro left hleft
    simp only [AutoFreePc.sleeping.injEq] at hleft
    subst hleft
    refine ⟨by simp [hlength], fun noon hnoon => ?_⟩
    simp only [List.getLast?_concat, Option.mem_def, Option.some.injEq] at hnoon
    subst hnoon
    dsimp only
    omega

theorem Punctual.step (h : Punctual s) (he : e.Undisturbed)
    (hstep : AutoFree.step t s e = some s') : Punctual s' := by
  cases moves_of_step hstep with
  | sleepOn d left hpc =>
    obtain ⟨hlength, hlast⟩ := h.sleeping left hpc
    refine ⟨⟨h.chain, h.length, h.after⟩, h.noons,
      fun left' hleft => ⟨hlength, fun noon hnoon => ?_⟩, nofun⟩
    have hle := hlast noon hnoon
    simp only [AutoFreePc.sleeping.injEq] at hleft
    subst hleft
    dsimp only
    omega
  | goOn d hpc => exact h.goOn rfl rfl (by simp) hpc id
  | setClock clock => exact absurd rfl (he clock)
  | wake left hpc hleft => exact h.wake hpc hleft
  | clean now available root pc hpc hnow hpc' =>
    refine h.goOn rfl rfl (Int.le_refl _) ?_ fun _ => .inl hpc
    rcases hpc' with rfl | rfl <;> nofun
  | skip now available root hpc => exact h.goOn rfl rfl (Int.le_refl _) nofun fun _ => .inl hpc
  | checkThrows => exact h.goOn rfl rfl (Int.le_refl _) nofun nofun
  | schedule now hpc hnow => exact h.schedule hpc hnow
  | interrupt => exact h.goOn rfl rfl (Int.le_refl _) nofun nofun

/-- **No check before its noon**, and no two for one noon, as long as nobody sets the
clock. -/
theorem checked_after_noon {clock : ℤ} {bFreeStorage : Bool} {minDiskStorage : Int32}
    {es : List AutoFreeEvent} {s : AutoFree} (hset : ∀ e ∈ es, e.Undisturbed)
    (hrun : Lts.run (step t) (init clock bFreeStorage minDiskStorage) es = some s) :
    AtNoon s := by
  have hinit := Punctual.init clock bFreeStorage minDiskStorage
  have hstep : ∀ s e s', Punctual s → e.Undisturbed → step t s e = some s' → Punctual s' :=
    fun _ _ _ h he hs => h.step he hs
  exact (Lts.run_invariant_of hstep hinit (Lts.runAll_of_mem _ hset) hrun).toAtNoon

/-- Two checks, the second four minutes after noon. -/
def lateCheck : List AutoFreeEvent :=
  [.pass 5000000, .wake, .check jan2024 0 datelessRoot, .schedule (jan2024At 43145 (by decide)),
    .pass 295000000, .wake, .check jan2024 0 datelessRoot]

theorem checked_lateCheck : ∃ s,
    Lts.run (step .long) (init ((noon2024 - 60) * 1000000) true 500) lateCheck = some s ∧
      s.checks = [(noon2024 - 55) * 1000000, (noon2024 + 240) * 1000000] ∧ AtNoon s := by
  have heval : (Lts.run (step .long) (init ((noon2024 - 60) * 1000000) true 500) lateCheck).map
      AutoFree.checks = some [(noon2024 - 55) * 1000000, (noon2024 + 240) * 1000000] := by
    decide +kernel
  obtain ⟨s, hrun, hchecks⟩ := Option.map_eq_some_iff.mp heval
  refine ⟨s, hrun, hchecks, checked_after_noon ?_ hrun⟩
  simp [lateCheck, AutoFreeEvent.Undisturbed]

/-! ### The cleanings -/

/-- What was done, `free_storage` did. -/
def Cleaned (t : DateInt) (s : AutoFree) : Prop :=
  ∀ p ∈ s.cleanings, ∃ available minDiskStorage root,
    p.2 = freeStorage t available minDiskStorage p.1 root

theorem Cleaned.step (h : Cleaned t s) (hstep : AutoFree.step t s e = some s') :
    Cleaned t s' := by
  cases moves_of_step hstep with
  | clean now available root pc hpc hnow hpc' =>
    intro p hp
    rcases List.mem_append.mp hp with hp | hp
    · exact h p hp
    · rw [List.mem_singleton.mp hp]
      exact ⟨available, s.minDiskStorage, root, rfl⟩
  | sleepOn | goOn | setClock | wake | skip | checkThrows | schedule | interrupt => exact h

/-- **The cleaning never removes what is past.**  In every run, a call of `free_storage` made
before the year 2346 removes nothing but entries whose name bears a date after the day of the
call, and nothing at all if the days are compared as signed numbers. -/
theorem removes_future {clock : ℤ} {bFreeStorage : Bool} {minDiskStorage : Int32}
    {es : List AutoFreeEvent} {s : AutoFree}
    (hrun : Lts.run (step t) (init clock bFreeStorage minDiskStorage) es = some s)
    {c : Cleaning} (hmem : (now, c) ∈ s.cleanings) (hyear : now.year ≤ 2345) {name : Bytes}
    (hname : name ∈ c.removed) : t = .uint32 ∧ FutureName now name := by
  have hinit : Cleaned t (init clock bFreeStorage minDiskStorage) := nofun
  obtain ⟨available, minDisk, root, hc⟩ :=
    Lts.run_invariant (I := Cleaned t) (fun _ _ _ h hs => h.step hs) hinit hrun _ hmem
  dsimp only at hc
  rw [hc] at hname
  exact freeStorage_future hyear hname

/-- A directory of the last night of the century, with the disk full. -/
def fullDisk : List AutoFreeEvent :=
  [.pass 5000000, .wake, .check jan2024 0 (oneNight "991231" (by decide))]

theorem removes_fullDisk : ∃ s now c,
    Lts.run (step .uint32) (init (noon2024 * 1000000) true 500) fullDisk = some s ∧
      (now, c) ∈ s.cleanings ∧ now.year = 2024 ∧ lit "G021_991231" ∈ c.removed ∧
      FutureName now (lit "G021_991231") := by
  have heval : (Lts.run (step .uint32) (init (noon2024 * 1000000) true 500) fullDisk).map
      (fun s => s.cleanings.map fun p => (p.1.year, p.2.removed)) =
      some [(2024, [lit "G021_991231"])] := by decide +kernel
  obtain ⟨s, hrun, hmap⟩ := Option.map_eq_some_iff.mp heval
  obtain ⟨⟨now, c⟩, hcleanings, heq⟩ := List.map_eq_singleton_iff.mp hmap
  obtain ⟨hyear : now.year = 2024, hremoved : c.removed = _⟩ := Prod.mk.inj heq
  have hmem : (now, c) ∈ s.cleanings := by simp [hcleanings]
  have hname : lit "G021_991231" ∈ c.removed := by
    rw [hremoved]
    exact List.mem_singleton_self _
  exact ⟨s, now, c, hrun, hmem, hyear, hname, (removes_future hrun hmem (by omega) hname).2⟩

end AutoFree

end FtServer
