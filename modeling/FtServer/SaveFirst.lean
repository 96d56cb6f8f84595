/-
FtServer/SaveFirst.lean

Saving the file at the head of the queue.  `saveFirst` is the function of the
source with the outcomes of its file-system calls as an input (`FsAnswers`) and
everything it does to the outside as a list of effects.  Up to the guard it
computes the directory and stores its name in the file (`saveBegin`); the rest
is `saveBody`.  The date arithmetic of Boost is a parameter of the environment.

Two things that a save ought to guarantee hold only under a condition:

* the result of `fwrite` is ignored, so a file that was cut short on the disk is
  popped, registered and notified as if it were whole
  (`givenUp_written_iff`);
* the directory name is stored before anything is known to work, so a failed
  attempt is repeated from another path (`failuresHarmless_iff`).
-/
import FtServer.AsciiProtocol
import FtServer.FileInfo
import FtServer.FsPath

namespace FtServer

open FsPath

/-! ### Environment, outcomes and effects -/

/-- What `save_first` reads besides the queue: the root path, whether the
database and the data-process connection are there, and the conversion of
`tmobs` to the UTC text and the fractional seconds, `none` where it throws. -/
structure SaveEnv where
  fs : FsVersion
  pathRoot : Bytes
  dbt : Bool
  tcpcDp : Bool
  obsTime : Bytes → Option (Bytes × ℤ)

/-- Outcomes of the file-system calls of one attempt; `fwrite` is the number of
bytes the device takes. -/
structure FsAnswers where
  isDirectory : Except StdException Bool
  createDirectory : Except StdException Bool
  fopen : Bool
  fwrite : ℕ

/-- What an attempt does. -/
inductive Effect
  | createDirectory (dir : Bytes)
  | fopen (path : Bytes)
  | fwrite (bytes : Bytes)
  | regImageFile (cid filename dir tmutc : Bytes) (microsec : ℤ)
  | popFront
  | notify (proto : AsciiProtoFileinfo)
  deriving DecidableEq

/-- Result, effects, and the objects and the queue afterwards. -/
structure SaveResult where
  ret : Except StdException Bool
  effects : List Effect
  heap : Heap
  quenf : List Addr

/-! ### `save_first` -/

/-- The directory of a file, `pathRoot_ / subpath`. -/
def directory (env : SaveEnv) (f : FileInfo) : Bytes := append env.fs env.pathRoot f.subpath

/-- `ptr->subpath = filepath.string()`. -/
def saveBegin (env : SaveEnv) (f : FileInfo) : FileInfo := { f with subpath := directory env f }

/-- The guard: is the directory there, or can it be created? -/
def makeDirectory (ans : FsAnswers) (dir : Bytes) : Except StdException Bool × List Effect :=
  match ans.isDirectory with
  | .error e => (.error e, [])
  | .ok true => (.ok true, [])
  | .ok false => (ans.createDirectory, [.createDirectory dir])

/-- The registration of a saved file; the time is converted first. -/
def register (env : SaveEnv) (path : Bytes) (f : FileInfo) : Except StdException (List Effect) :=
  if env.dbt then
    match env.obsTime f.tmobs with
    | none => .error .badTimeText
    | some (tmutc, microsec) =>
      .ok [.regImageFile f.cid f.filename (parentPath path) tmutc microsec]
  else .ok []

/-- The message to the data process; `tmobs` and `filesize` keep their defaults. -/
def notification (f : FileInfo) : AsciiProtoFileinfo where
  type := lit "fileinfo"
  gid := f.gid
  uid := f.uid
  cid := f.cid
  subpath := f.subpath
  filename := f.filename

/-- `save_first` from the guard on, for the file `f` and the directory `dir`. -/
def saveBody (env : SaveEnv) (ans : FsAnswers) (dir : Bytes) (f : FileInfo) :
    Except StdException Bool × List Effect :=
  match makeDirectory ans dir with
  | (.error e, es) => (.error e, es)
  | (.ok false, es) => (.ok false, es)
  | (.ok true, es) =>
    let path := append env.fs dir f.filename
    if ans.fopen then
      -- how much of it the device takes is not looked at
      let es := es ++ [.fopen path, .fwrite (f.filedata.take ans.fwrite)]
      match register env path f with
      | .error e => (.error e, es)
      | .ok reg =>
        (.ok true, es ++ reg ++ .popFront :: if env.tcpcDp then [.notify (notification f)] else [])
    else (.ok false, es)

/-- `FileWritter::save_first`; `none` on the empty queue, whose `front()` is
undefined. -/
def saveFirst (env : SaveEnv) (ans : FsAnswers) (h : Heap) : List Addr → Option SaveResult
  | [] => none
  | a :: rest =>
    let body := saveBody env ans (directory env (h a)) (saveBegin env (h a))
    some {
      ret := body.1
      effects := body.2
      heap := Function.update h a (saveBegin env (h a))
      quenf := if .popFront ∈ body.2 then rest else a :: rest }

/-! ### Giving a file up -/

/-- The file is taken out of the queue, reported as saved, registered or
notified. -/
def GivenUp (r : SaveResult) : Prop :=
  .popFront ∈ r.effects ∨ r.ret = .ok true ∨
    (∃ cid name dir t us, .regImageFile cid name dir t us ∈ r.effects) ∨
    ∃ proto, .notify proto ∈ r.effects

/-- All the bytes of the file have been written. -/
def Written (f : FileInfo) (r : SaveResult) : Prop := .fwrite f.filedata ∈ r.effects

/-- The attempt gets as far as the write, which is cut short, and nothing after
the write throws. -/
structure ShortWrite (env : SaveEnv) (ans : FsAnswers) (f : FileInfo) : Prop where
  dir : ans.isDirectory = .ok true ∨
    (ans.isDirectory = .ok false ∧ ans.createDirectory = .ok true)
  file : ans.fopen = true
  short : ans.fwrite < f.filedata.length
  time : env.dbt = true → (env.obsTime f.tmobs).isSome = true

/-- The guard passes in exactly two ways. -/
theorem makeDirectory_ok_iff (ans : FsAnswers) (dir : Bytes) :
    (makeDirectory ans dir).1 = .ok true ↔ ans.isDirectory = .ok true ∨
      (ans.isDirectory = .ok false ∧ ans.createDirectory = .ok true) := by
  rcases hd : ans.isDirectory with e | there
  · simp [makeDirectory, hd]
  · cases there <;> simp [makeDirectory, hd]

/-- The guard does nothing but create the directory. -/
theorem makeDirectory_effects {ans : FsAnswers} {dir : Bytes} {x : Effect}
    (hx : x ∈ (makeDirectory ans dir).2) : x = .createDirectory dir := by
  rcases hd : ans.isDirectory with e | there
  · simp [makeDirectory, hd] at hx
  · cases there <;> simp [makeDirectory, hd] at hx
    exact hx

/-- The registration throws exactly where there is a database and the time text
does not convert. -/
theorem register_ok_iff (env : SaveEnv) (path : Bytes) (f : FileInfo) :
    (∃ reg, register env path f = .ok reg) ↔
      (env.dbt = true → (env.obsTime f.tmobs).isSome = true) := by
  cases hdb : env.dbt with
  | false => simp [register, hdb]
  | true => rcases ht : env.obsTime f.tmobs with - | ⟨t, us⟩ <;> simp [register, hdb, ht]

/-- The registration writes no file. -/
theorem register_effects {env : SaveEnv} {path : Bytes} {f : FileInfo} {reg : List Effect}
    (h : register env path f = .ok reg) (bytes : Bytes) : .fwrite bytes ∉ reg := by
  unfold register at h
  split at h
  · split at h
    · cases h
    · obtain rfl := Except.ok.inj h
      simp
  · obtain rfl := Except.ok.inj h
    simp

/-- The ways through `save_first`, one constructor for each. -/
inductive SaveStep (env : SaveEnv) (ans : FsAnswers) (dir : Bytes) (f : FileInfo) :
    Except StdException Bool × List Effect → Prop
  | noDirectory (hd : (makeDirectory ans dir).1 ≠ .ok true) :
      SaveStep env ans dir f (makeDirectory ans dir)
  | noFile (hd : (makeDirectory ans dir).1 = .ok true) (hf : ans.fopen = false) :
      SaveStep env ans dir f (.ok false, (makeDirectory ans dir).2)
  | badTime (hd : (makeDirectory ans dir).1 = .ok true) (hf : ans.fopen = true) {e}
      (ht : register env (append env.fs dir f.filename) f = .error e) :
      SaveStep env ans dir f (.error e, (makeDirectory ans dir).2 ++
        [.fopen (append env.fs dir f.filename), .fwrite (f.filedata.take ans.fwrite)])
  | saved (hd : (makeDirectory ans dir).1 = .ok true) (hf : ans.fopen = true) {reg}
      (ht : register env (append env.fs dir f.filename) f = .ok reg) :
      SaveStep env ans dir f (.ok true, (makeDirectory ans dir).2 ++
        [.fopen (append env.fs dir f.filename), .fwrite (f.filedata.take ans.fwrite)] ++ reg ++
          .popFront :: if env.tcpcDp then [.notify (notification f)] else [])

theorem saveBody_cases (env : SaveEnv) (ans : FsAnswers) (dir : Bytes) (f : FileInfo) :
    SaveStep env ans dir f (saveBody env ans dir f) := by
  unfold saveBody
  rcases hm : makeDirectory ans dir with ⟨ret, es⟩
  have hstop : ret ≠ .ok true → SaveStep env ans dir f (ret, es) := by
    intro hr
    rw [← hm]
    exact .noDirectory (by rw [hm]; exact hr)
  rcases ret with e | there
  · exact hstop (by simp)
  · cases there with
    | false => exact hstop (by simp)
    | true =>
      have hd : (makeDirectory ans dir).1 = .ok true := by rw [hm]
      obtain rfl : es = (makeDirectory ans dir).2 := by rw [hm]
      dsimp only
      split
      · rename_i hf
        rcases ht : register env (append env.fs dir f.filename) f with e | reg
        · exact .badTime hd hf ht
        · exact .saved hd hf ht
      · rename_i hf
        exact .noFile hd (by simpa using hf)

theorem SaveStep.ret_iff {env : SaveEnv} {ans : FsAnswers} {dir : Bytes} {f : FileInfo}
    {body : Except StdException Bool × List Effect} (h : SaveStep env ans dir f body) :
    body.1 = .ok true ↔
      (ans.isDirectory = .ok true ∨
        (ans.isDirectory = .ok false ∧ ans.createDirectory = .ok true)) ∧
      ans.fopen = true ∧ (env.dbt = true → (env.obsTime f.tmobs).isSome = true) := by
  rw [← makeDirectory_ok_iff ans dir]
  cases h with
  | noDirectory hd => exact iff_of_false hd fun ⟨hd', _⟩ => hd hd'
  | noFile hd hf => simp [hf]
  | badTime hd hf ht =>
    refine iff_of_false (by simp) fun ⟨_, _, htime⟩ => ?_
    obtain ⟨reg, hreg⟩ := (register_ok_iff env _ f).mpr htime
    rw [ht] at hreg
    cases hreg
  | saved hd hf ht =>
    exact iff_of_true rfl ⟨hd, hf, (register_ok_iff env _ f).mp ⟨_, ht⟩⟩

/-- Until the last way but one nothing is popped, registered or notified. -/
theorem SaveStep.effects_of_ret {env : SaveEnv} {ans : FsAnswers} {dir : Bytes} {f : FileInfo}
    {body : Except StdException Bool × List Effect} (h : SaveStep env ans dir f body)
    (hr : body.1 ≠ .ok true) {x : Effect} (hx : x ∈ body.2) :
    x = .createDirectory dir ∨ (∃ p, x = .fopen p) ∨ ∃ b, x = .fwrite b := by
  cases h with
  | noDirectory | noFile => exact .inl (makeDirectory_effects hx)
  | badTime =>
    rcases List.mem_append.mp hx with hx | hx
    · exact .inl (makeDirectory_effects hx)
    · rcases List.mem_cons.mp hx with rfl | hx
      · exact .inr (.inl ⟨_, rfl⟩)
      · exact .inr (.inr ⟨_, List.mem_singleton.mp hx⟩)
  | saved => exact absurd rfl hr

/-- A save that returns has popped the file, and the one write it made is of
what the device took. -/
theorem SaveStep.saved_effects {env : SaveEnv} {ans : FsAnswers} {dir : Bytes} {f : FileInfo}
    {body : Except StdException Bool × List Effect} (h : SaveStep env ans dir f body)
    (hr : body.1 = .ok true) :
    .popFront ∈ body.2 ∧ ∀ b, .fwrite b ∈ body.2 ↔ b = f.filedata.take ans.fwrite := by
  cases h with
  | noDirectory hd => exact absurd hr hd
  | noFile | badTime => cases hr
  | saved hd hf ht =>
    have hmake : ∀ b, .fwrite b ∉ (makeDirectory ans dir).2 := fun b hb => by
      cases makeDirectory_effects hb
    have hreg := register_effects ht
    refine ⟨by simp, fun b => ?_⟩
    cases env.tcpcDp <;> simp [hmake, hreg]

/-- The file is popped exactly by an attempt that returns true. -/
theorem popFront_mem_iff (env : SaveEnv) (ans : FsAnswers) (dir : Bytes) (f : FileInfo) :
    .popFront ∈ (saveBody env ans dir f).2 ↔ (saveBody env ans dir f).1 = .ok true := by
  have hstep := saveBody_cases env ans dir f
  constructor
  · intro hpop
    by_contra hr
    rcases hstep.effects_of_ret hr hpop with h | ⟨_, h⟩ | ⟨_, h⟩ <;> cases h
  · exact fun hr => (hstep.saved_effects hr).1

/-! ### No file is given up before it is on the disk -/

/-- **A file is given up only if it is on the disk, exactly when no write is cut
short**: for every environment, queue and outcome of the calls, `save_first`
pops, reports, registers or notifies only a file written whole if and only if
it does not get through the guard and `fopen` to a short write with nothing
throwing after it. -/
theorem givenUp_written_iff (env : SaveEnv) (ans : FsAnswers) (h : Heap) (a : Addr)
    (rest : List Addr) :
    ∃ r, saveFirst env ans h (a :: rest) = some r ∧
      ((GivenUp r → Written (h a) r) ↔ ¬ ShortWrite env ans (h a)) := by
  refine ⟨_, rfl, ?_⟩
  have hstep := saveBody_cases env ans (directory env (h a)) (saveBegin env (h a))
  generalize saveBody env ans (directory env (h a)) (saveBegin env (h a)) = body at hstep
  have hret : body.1 = .ok true ↔ _ := hstep.ret_iff
  by_cases hr : body.1 = .ok true
  · -- the file is given up, so all depends on the one write
    obtain ⟨hpop, hwrite⟩ := hstep.saved_effects hr
    obtain ⟨hdir, hfile, htime⟩ := hret.mp hr
    have hall : .fwrite (h a).filedata ∈ body.2 ↔ (h a).filedata.length ≤ ans.fwrite := by
      rw [hwrite]
      constructor
      · intro he
        have hlen := congrArg List.length he
        rw [List.length_take] at hlen
        omega
      · exact fun hle => (List.take_of_length_le hle).symm
    have hshort : ShortWrite env ans (h a) ↔ ans.fwrite < (h a).filedata.length :=
      ⟨fun hs => hs.short, fun hs => ⟨hdir, hfile, hs, htime⟩⟩
    rw [hshort, Nat.not_lt, ← hall]
    exact ⟨fun hw => hw (.inl hpop), fun hw _ => hw⟩
  · -- nothing is given up, and the attempt does not get through to a short write
    have hquiet := fun {x : Effect} => @hstep.effects_of_ret _ _ _ _ _ hr x
    refine iff_of_true ?_ fun hs => hr (hret.mpr ⟨hs.dir, hs.file, hs.time⟩)
    rintro (hx | hx | ⟨_, _, _, _, _, hx⟩ | ⟨_, hx⟩)
    · rcases hquiet hx with h | ⟨_, h⟩ | ⟨_, h⟩ <;> cases h
    · exact absurd hx hr
    · rcases hquiet hx with h | ⟨_, h⟩ | ⟨_, h⟩ <;> cases h
    · rcases hquiet hx with h | ⟨_, h⟩ | ⟨_, h⟩ <;> cases h

/-- An environment with a database and a data process, and a conversion that
accepts every text. -/
def plainEnv : SaveEnv where
  fs := .v3
  pathRoot := lit "/data"
  dbt := true
  tcpcDp := true
  obsTime := fun t => some (t, 0)

/-- A file of two bytes. -/
def twoBytes : FileInfo where
  gid := lit "001"
  uid := lit "01"
  cid := lit "G021"
  tmobs := lit "2017-10-29T12:00:00"
  subpath := lit "G021_171029"
  filename := lit "a.fit"
  filesize := 2
  rcvsize := 2
  filedata := [7, 8]
  filedata_length := rfl

/-- On a full disk one of the two bytes is written, and the file is popped,
reported, registered and notified. -/
theorem not_givenUp_written : ¬ ∀ (env : SaveEnv) (ans : FsAnswers) (h : Heap) (a : Addr)
    (rest : List Addr) (r : SaveResult),
    saveFirst env ans h (a :: rest) = some r → GivenUp r → Written (h a) r := by
  intro hall
  let full : FsAnswers := ⟨.ok true, .ok true, true, 1⟩
  have hw := hall plainEnv full (fun _ => twoBytes) 0 [] _ rfl (.inr (.inl rfl))
  revert hw
  unfold Written
  decide

/-! ### A failed save leaves everything as it was -/

/-- The directory and the file path that the next attempt uses for `f`. -/
def attemptPaths (env : SaveEnv) (f : FileInfo) : Bytes × Bytes :=
  (directory env f, append env.fs (directory env f) f.filename)

/-- Attempts that all return false, one for each entry of the list: the objects
and the queue afterwards. -/
def failedAttempts (env : SaveEnv) : List FsAnswers → Heap → List Addr → Option (Heap × List Addr)
  | [], h, q => some (h, q)
  | ans :: anss, h, q =>
    match saveFirst env ans h q with
    | none => none
    | some r => if r.ret = .ok false then failedAttempts env anss r.heap r.quenf else none

/-- However often the save of the head of the queue fails, the objects and the
queue are as before and the next attempt uses the paths of the first. -/
def FailuresHarmless (env : SaveEnv) (h : Heap) (a : Addr) (rest : List Addr) : Prop :=
  ∀ anss h' q', failedAttempts env anss h (a :: rest) = some (h', q') →
    h' = h ∧ q' = a :: rest ∧ attemptPaths env (h' a) = attemptPaths env (h a)

/-- A failed attempt keeps the queue and rewrites the subpath. -/
theorem saveFirst_failed {env : SaveEnv} {ans : FsAnswers} {h : Heap} {a : Addr}
    {rest : List Addr} {r : SaveResult} (hs : saveFirst env ans h (a :: rest) = some r)
    (hr : r.ret = .ok false) :
    r.quenf = a :: rest ∧ r.heap = Function.update h a (saveBegin env (h a)) := by
  obtain rfl := Option.some.inj hs
  refine ⟨if_neg fun hpop => ?_, rfl⟩
  rw [popFront_mem_iff] at hpop
  exact absurd (hr.symm.trans hpop) (by simp)

/-- Storing the directory changes nothing exactly when the append can be
repeated. -/
theorem saveBegin_eq_self_iff (env : SaveEnv) (f : FileInfo) :
    saveBegin env f = f ↔ Kept env.fs env.pathRoot f.subpath := by
  rw [← append_eq_self_iff]
  constructor
  · intro h
    exact congrArg FileInfo.subpath h
  · intro h
    show { f with subpath := append env.fs env.pathRoot f.subpath } = f
    rw [h]

/-- **Failed attempts are harmless exactly when the root path is empty or the
subpath is absolute and replaces it.** -/
theorem failuresHarmless_iff (env : SaveEnv) (h : Heap) (a : Addr) (rest : List Addr) :
    FailuresHarmless env h a rest ↔ Kept env.fs env.pathRoot (h a).subpath := by
  rw [← saveBegin_eq_self_iff]
  constructor
  · intro hall
    -- one attempt, which fails to create the directory
    let refused : FsAnswers := ⟨.ok false, .ok false, false, 0⟩
    obtain ⟨hheap, -, -⟩ := hall [refused] _ _ rfl
    have ha : Function.update h a (saveBegin env (h a)) a = h a := congrFun hheap a
    rwa [Function.update_self] at ha
  · intro hkept anss
    induction anss with
    | nil =>
      intro h' q' hrun
      obtain ⟨rfl, rfl⟩ := Prod.mk.inj (Option.some.inj hrun)
      exact ⟨rfl, rfl, rfl⟩
    | cons ans anss ih =>
      intro h' q' hrun
      rw [failedAttempts] at hrun
      rcases hs : saveFirst env ans h (a :: rest) with - | r
      · rw [hs] at hrun
        cases hrun
      · simp only [hs] at hrun
        split at hrun
        · rename_i hr
          obtain ⟨hq, hheap⟩ := saveFirst_failed hs hr
          rw [hq, hheap, hkept, Function.update_eq_self] at hrun
          exact ih h' q' hrun
        · cases hrun

/-- After one failed attempt the next one looks for the directory under the
root twice. -/
theorem not_failuresHarmless : ¬ ∀ (env : SaveEnv) (h : Heap) (a : Addr) (rest : List Addr),
    FailuresHarmless env h a rest := by
  intro hall
  let refused : FsAnswers := ⟨.ok false, .ok false, false, 0⟩
  obtain ⟨-, -, hpaths⟩ := hall plainEnv (fun _ => twoBytes) 0 [] [refused] _ _ rfl
  have hdir : directory plainEnv (saveBegin plainEnv twoBytes) = directory plainEnv twoBytes := by
    simpa [attemptPaths, saveBegin] using congrArg Prod.fst hpaths
  revert hdir
  decide

end FtServer
