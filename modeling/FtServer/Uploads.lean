/-
FtServer/Uploads.lean

From the client to the disk.  A file is appended to the queue by the receiver of
its client, waits there as a shared object, and is saved by the monitor.

`Transit` records the two ends, with the file as it is there.  `Carried` is the
invariant between them: what was appended is what was saved, and then what
waits, with all the contents; only the subpath is rewritten by `save_first`, and
the counter of bytes may still grow.  `savedFor` are the saves of one receiver;
for a client that follows the protocol they are files of its transfers, in order
(`uploads_saved`), whatever the other clients do.
-/
import FtServer.Reassembly
import FtServer.WriterQueue

namespace FtServer

/-! ### Contents -/

namespace FileInfo

/-- The same file up to its subpath and the counter of bytes received. -/
def SameContents (f g : FileInfo) : Prop :=
  g.gid = f.gid ∧ g.uid = f.uid ∧ g.cid = f.cid ∧ g.tmobs = f.tmobs ∧
    g.filename = f.filename ∧ g.filesize = f.filesize ∧ g.filedata = f.filedata

instance (f g : FileInfo) : Decidable (SameContents f g) := by
  unfold SameContents
  infer_instance

theorem SameContents.refl (f : FileInfo) : SameContents f f := ⟨rfl, rfl, rfl, rfl, rfl, rfl, rfl⟩

theorem SameContents.trans {f g h : FileInfo} (hfg : SameContents f g) (hgh : SameContents g h) :
    SameContents f h := by
  obtain ⟨h₁, h₂, h₃, h₄, h₅, h₆, h₇⟩ := hfg
  obtain ⟨k₁, k₂, k₃, k₄, k₅, k₆, k₇⟩ := hgh
  exact ⟨k₁.trans h₁, k₂.trans h₂, k₃.trans h₃, k₄.trans h₄, k₅.trans h₅, k₆.trans h₆,
    k₇.trans h₇⟩

theorem SameFile.sameContents {f g : FileInfo} (h : SameFile f g) : SameContents f g := by
  obtain ⟨h₁, h₂, h₃, h₄, -, h₆, h₇, h₈⟩ := h
  exact ⟨h₁, h₂, h₃, h₄, h₆, h₇, h₈⟩

end FileInfo

open FileInfo (SameContents)

theorem saveBegin_sameContents (env : SaveEnv) (f : FileInfo) :
    SameContents f (saveBegin env f) := ⟨rfl, rfl, rfl, rfl, rfl, rfl, rfl⟩

/-- Entries of the history that say nothing of a handover. -/
def Obs.aside : Obs → Bool
  | .handed .. | .tested .. | .appended _ => false
  | _ => true

/-! ### The two ends -/

/-- A file enters the queue, or leaves it for the disk. -/
inductive Transit (ι : Type)
  | appended (i : ι) (f : FileInfo)
  | saved (v : Save)

namespace TransferAgent

variable {ι : Type}

/-- The file that a step of the message thread of `i` appends. -/
def appendOf (s : TransferAgent ι) (i : ι) : List (ι × FileInfo) :=
  match (s.filercv i).msg, s.fw.callers i with
  | .newFile, .admitted a => [(i, s.heap a)]
  | _, _ => []

/-- What a step carries. -/
def transitOf (s : TransferAgent ι) (e : AgentEvent ι) : List (Transit ι) :=
  match e with
  | .msg i _ _ => (s.appendOf i).map fun p => .appended p.1 p.2
  | _ => (s.saveOf e).map .saved

/-- The files appended, with the receivers that appended them. -/
def appendedOf (t : List (Transit ι)) : List (ι × FileInfo) :=
  t.filterMap fun
    | .appended i f => some (i, f)
    | .saved _ => none

/-- The saves. -/
def savedOf (t : List (Transit ι)) : List Save :=
  t.filterMap fun
    | .saved v => some v
    | .appended .. => none

@[simp] theorem appendedOf_append (t u : List (Transit ι)) :
    appendedOf (t ++ u) = appendedOf t ++ appendedOf u := List.filterMap_append

@[simp] theorem savedOf_append (t u : List (Transit ι)) :
    savedOf (t ++ u) = savedOf t ++ savedOf u := List.filterMap_append

variable [DecidableEq ι] [Fintype ι] {δ : Type} {dbl : DoubleLib δ}

/-! ### The way through the queue -/

omit [Fintype ι] in
/-- Bytes that arrive late fall past the end of a full file. -/
theorem io_contents {s : TransferAgent ι} {i : ι} {v : RcvView} {a : Addr}
    (hv : FileReceiver.IoStep (s.view i) v) (hfull : s.Full a) :
    SameContents (s.heap a) ((s.commit i v).heap a) := by
  cases hv with
  | @arrive n b f full hpc hp hd =>
    rw [commit_heap]
    dsimp only
    rw [view_heap]
    by_cases hb : b = a
    · subst hb
      rw [Function.update_self]
      exact (FileInfo.dataArrive_sameFile hd hfull).sameContents
    · rw [Function.update_of_ne (Ne.symm hb)]
      exact .refl _
  | handleRead | isReady | notReady | read | overflow | isWaiting | ignored | post | rearm =>
    exact .refl _

/-- No step changes the contents of a file that the writer holds. -/
theorem Owned.contents {s s' : TransferAgent ι} {e : AgentEvent ι} {a : Addr} (h : Owned s)
    (hs : s.step dbl e = some s') (ha : s.Frozen a) : SameContents (s.heap a) (s'.heap a) := by
  have hne : ∀ {b f}, b ≠ a → SameContents (s.heap a) (Function.update s.heap b f a) := by
    intro b f hb
    rw [Function.update_of_ne (Ne.symm hb)]
    exact .refl _
  cases (step_cases hs).2 with
  | recv | fail | handOver | newFile | saveThrew | save | monitor | spurious | config =>
    exact .refl _
  | @takeFirst _ b q hm hq =>
    by_cases hb : b = a
    · subst hb
      dsimp only
      rw [Function.update_self]
      exact saveBegin_sameContents ..
    · exact hne hb
  | io hv => exact io_contents hv (h.full a ha)
  | @msg i _ _ _ hv =>
    cases hv with
    | replace => exact hne (Nat.ne_of_lt (h.frozen_lt a ha)).symm
    | @fill p b hpc hp =>
      have hg : ¬ s.Frozen b := by
        have hg := h.guard i b hp
        rwa [show (s.filercv i).msg = _ from hpc] at hg
      exact hne fun hb => hg (hb ▸ ha)
    | _ => exact .refl _

omit [DecidableEq ι] [Fintype ι] in
/-- Inside `NewFile` the message thread makes steps of the writer only. -/
theorem msg_ne_newFile {n : ℕ} {junk : ℕ → UInt8} {ok : Bool} {v v' : RcvView}
    (hv : FileReceiver.MsgStep dbl n junk ok v v') : v.rcv.msg ≠ .newFile := by
  intro hm
  cases hv <;> simp_all

/-- What was appended is what was saved and then what waits, with all contents. -/
structure Carried (s : TransferAgent ι) (t : List (Transit ι)) : Prop where
  owned : Owned s
  fifo : s.fw.Fifo
  kept : List.Forall₂ (fun (p : ι × FileInfo) f => SameContents p.2 f) (appendedOf t)
    ((savedOf t).map Save.info ++ s.fw.quenf.map s.heap)

/-- The files in the queue keep their contents. -/
theorem forall₂_queue {s s' : TransferAgent ι} {e : AgentEvent ι} (h : Owned s)
    (hs : s.step dbl e = some s') :
    List.Forall₂ SameContents (s.fw.quenf.map s.heap) (s.fw.quenf.map s'.heap) := by
  rw [List.forall₂_map_left_iff, List.forall₂_map_right_iff, List.forall₂_same]
  intro a ha
  exact h.contents hs (.inl ha)

omit [DecidableEq ι] [Fintype ι] in
/-- Files that keep their contents are still those appended. -/
theorem kept_trans {ps : List (ι × FileInfo)} {fs gs : List FileInfo}
    (h : List.Forall₂ (fun (p : ι × FileInfo) f => SameContents p.2 f) ps fs)
    (hfg : List.Forall₂ SameContents fs gs) :
    List.Forall₂ (fun (p : ι × FileInfo) f => SameContents p.2 f) ps gs := by
  induction h generalizing gs with
  | nil =>
    cases hfg
    exact .nil
  | cons hpf _ ih =>
    cases hfg with
    | cons hfg hrest => exact .cons (hpf.trans hfg) (ih hrest)

omit [DecidableEq ι] [Fintype ι] in
theorem sameContents_refl (fs : List FileInfo) : List.Forall₂ SameContents fs fs :=
  List.forall₂_same.mpr fun f _ => .refl f

/-- A step that carries nothing. -/
theorem Carried.frame {s s' : TransferAgent ι} {t : List (Transit ι)} {e : AgentEvent ι}
    (h : Carried s t) (hs : s.step dbl e = some s') (hfifo : s'.fw.Fifo)
    (hq : s'.fw.quenf = s.fw.quenf) : Carried s' (t ++ []) where
  owned := h.owned.step hs
  fifo := hfifo
  kept := by
    rw [List.append_nil, hq]
    exact kept_trans h.kept (List.rel_append (sameContents_refl _) (forall₂_queue h.owned hs))

theorem Carried.step {s s' : TransferAgent ι} {t : List (Transit ι)} {e : AgentEvent ι}
    (h : Carried s t) (hs : s.step dbl e = some s') : Carried s' (t ++ s.transitOf e) := by
  have hfifo : s'.fw.Fifo := by
    rcases step_fw hs with hsame | ⟨d, hd⟩
    · rw [hsame]
      exact h.fifo
    · exact h.fifo.step hd
  have hnone : ∀ {i : ι}, (∀ a, s.fw.callers i ≠ .admitted a) → s.appendOf i = [] := by
    intro i hc
    unfold appendOf
    split
    · rename_i a _ ha
      exact absurd ha (hc a)
    · rfl
  cases (step_cases hs).2 with
  | recv | fail | io | spurious | config => exact h.frame hs hfifo rfl
  | @msg i _ _ v hv =>
    have hmsg : (s.filercv i).msg ≠ .newFile := msg_ne_newFile hv
    have happ : s.appendOf i = [] := by
      unfold appendOf
      split
      · rename_i hm _
        exact absurd hm hmsg
      · rfl
    simp only [transitOf, happ, List.map_nil]
    exact h.frame hs hfifo rfl
  | @handOver i _ _ a hpc hp hc =>
    simp only [transitOf, hnone (i := i) (by simp [hc]), List.map_nil]
    exact h.frame hs hfifo rfl
  | @newFile i _ _ w hpc hw =>
    cases FileWritter.newFile_cases hw with
    | reject hc | accept hc | wake hc | lost hc =>
      simp only [transitOf, hnone (i := i) (by simp [hc]), List.map_nil]
      exact h.frame hs hfifo rfl
    | @push a hc =>
      have happ : s.appendOf i = [(i, s.heap a)] := by simp [appendOf, hpc, hc]
      simp only [transitOf, happ, List.map_cons, List.map_nil]
      refine ⟨h.owned.step hs, hfifo, ?_⟩
      -- the file takes its place at the end of the queue
      rw [appendedOf_append, savedOf_append]
      simp only [appendedOf, savedOf, List.filterMap_cons, List.filterMap_nil, List.append_nil,
        List.map_append, List.map_cons, List.map_nil, ← List.append_assoc]
      exact List.rel_append h.kept (.cons (.refl _) .nil)
  | takeFirst hm hq =>
    simp only [transitOf, saveOf_eq_nil (show s.fw.mon ≠ .saving by simp [hm]), List.map_nil]
    exact h.frame hs hfifo rfl
  | @monitor ans w hm hm' hw =>
    simp only [transitOf, saveOf_eq_nil hm', List.map_nil]
    refine h.frame hs hfifo ?_
    cases FileWritter.threadMonitor_cases hw with
    | pop hpc => exact absurd hpc hm'
    | _ => rfl
  | @saveThrew ans a e hm hp hb =>
    have hsave : s.saveOf (.monitor ans) = [] := by simp [saveOf, hm, hp, hb]
    simp only [transitOf, hsave, List.map_nil]
    exact h.frame hs hfifo rfl
  | @save ans a rslt w hm hp hb hw =>
    obtain ⟨f, rest, hq, hp'⟩ := h.fifo.head hm
    obtain rfl : a = f := Option.some.inj (hp.symm.trans hp')
    cases FileWritter.threadMonitor_cases hw with
    | fail =>
      have hsave : s.saveOf (.monitor ans) = [] := by simp [saveOf, hm, hp, hb]
      simp only [transitOf, hsave, List.map_nil]
      exact h.frame hs hfifo rfl
    | pop =>
      have hsave : s.saveOf (.monitor ans) = [⟨a, s.heap a, s.env.tcpcDp⟩] := by
        simp [saveOf, hm, hp, hb]
      simp only [transitOf, hsave, List.map_cons, List.map_nil]
      refine ⟨h.owned.step hs, hfifo, ?_⟩
      -- the head of the queue becomes the last file saved
      have hkept := h.kept
      rw [hq] at hkept
      rw [appendedOf_append, savedOf_append]
      simpa [appendedOf, savedOf, hq] using hkept
    | start hpc | finish hpc | toWait hpc | count hpc | clear hpc | block hpc | enter hpc
    | ret hpc => simp [hm] at hpc

theorem carried_run {bufs : ι → PackBuf × PackBuf} {heap : Heap} {env : SaveEnv}
    {es : List (AgentEvent ι)} {s : TransferAgent ι}
    (hrun : Lts.run (step dbl) (init bufs heap env) es = some s) :
    Carried s (Lts.outputs (step dbl) transitOf (init bufs heap env) es) := by
  have h : Carried s ([] ++ Lts.outputs (step dbl) transitOf (init bufs heap env) es) :=
    Lts.run_outputs (fun _ _ _ _ => Carried.step) ⟨.init bufs heap env, .init, .nil⟩ hrun
  rwa [List.nil_append] at h

/-- **Files keep their contents on the way.**  At any time the files appended to the
queue are, in order and with all their contents, the files saved and then those
that wait. -/
theorem uploads_kept {bufs : ι → PackBuf × PackBuf} {heap : Heap} {env : SaveEnv}
    {es : List (AgentEvent ι)} {s : TransferAgent ι}
    (hrun : Lts.run (step dbl) (init bufs heap env) es = some s) :
    List.Forall₂ (fun (p : ι × FileInfo) f => SameContents p.2 f)
      (appendedOf (Lts.outputs (step dbl) transitOf (init bufs heap env) es))
      ((savedOf (Lts.outputs (step dbl) transitOf (init bufs heap env) es)).map Save.info ++
        s.fw.quenf.map s.heap) := (carried_run hrun).kept

/-! ### The files of one receiver -/

/-- The file handed over last, until it is appended, and the files appended. -/
def enter (b : Option FileInfo × List FileInfo) (o : Obs) : Option FileInfo × List FileInfo :=
  match o, b with
  | .handed _ f, (_, fs) => (some f, fs)
  | .appended _, (some f, fs) => (none, fs ++ [f])
  | _, b => b

def book (log : List Obs) : Option FileInfo × List FileInfo := log.foldl enter (none, [])

theorem book_concat (log : List Obs) (o : Obs) : book (log ++ [o]) = enter (book log) o := by
  rw [book, List.foldl_append]
  rfl

theorem files_append (log os : List Obs) : files (log ++ os) = files log ++ files os :=
  List.filterMap_append

theorem book_aside {log os : List Obs} (h : ∀ o ∈ os, o.aside = true) :
    book (log ++ os) = book log := by
  induction os using List.reverseRecOn with
  | nil => rw [List.append_nil]
  | append_singleton os o ih =>
    rw [← List.append_assoc, book_concat, ih fun o' ho' => h o' (List.mem_append_left _ ho')]
    have ho := h o (by simp)
    cases o with
    | handed | tested | appended => cases ho
    | _ => rfl

theorem files_aside {log os : List Obs} (h : ∀ o ∈ os, o.aside = true) :
    files (log ++ os) = files log := by
  rw [files_append]
  have hnil : files os = [] := by
    refine List.filterMap_eq_nil_iff.mpr fun o ho => ?_
    have ho := h o ho
    cases o with
    | handed => cases ho
    | _ => rfl
  rw [hnil, List.append_nil]

/-- Every file appended has been handed over. -/
theorem book_sublist (log : List Obs) :
    ((book log).2 ++ (book log).1.toList).Sublist (files log) := by
  induction log using List.reverseRecOn with
  | nil => exact List.Sublist.refl _
  | append_singleton log o ih =>
    rw [book_concat, files_append]
    have hleft : (book log).2.Sublist (files log) := (List.sublist_append_left ..).trans ih
    cases o with
    | handed a f => exact hleft.append (List.Sublist.refl _)
    | appended a =>
      have hnil : files [.appended a] = [] := rfl
      rw [hnil, List.append_nil]
      rcases hb : book log with ⟨- | f, fs⟩
      · simpa [enter, hb] using ih
      · simpa [enter, hb] using ih
    | _ => exact ih.trans (List.sublist_append_left ..)

omit [DecidableEq ι] [Fintype ι] in
/-- What the steps of the I/O thread add to the history. -/
theorem io_aside {v v' : RcvView} (h : FileReceiver.IoStep v v') :
    ∃ os, v'.rcv.log = v.rcv.log ++ os ∧ ∀ o ∈ os, o.aside = true := by
  cases h with
  | overflow | arrive => exact ⟨[.stored _ _ _], rfl, by simp [Obs.aside]⟩
  | post => exact ⟨[.posted _], rfl, by simp [Obs.aside]⟩
  | _ => exact ⟨[], (List.append_nil _).symm, by simp⟩

/-- What the steps of the message thread outside `NewFile` add. -/
theorem msg_aside {n : ℕ} {junk : ℕ → UInt8} {ok : Bool} {v v' : RcvView}
    (h : FileReceiver.MsgStep dbl n junk ok v v') :
    ∃ os, v'.rcv.log = v.rcv.log ++ os ∧ ∀ o ∈ os, o.aside = true := by
  cases h with
  | @terminate pos =>
    by_cases hpos : pos < 0
    · exact ⟨[.outOfBounds], if_pos hpos, by simp [Obs.aside]⟩
    · exact ⟨[], (if_neg hpos).trans (List.append_nil _).symm, by simp⟩
  | replace | fill => exact ⟨[.taken _], rfl, by simp [Obs.aside]⟩
  | equal => exact ⟨[.checked _ _], rfl, by simp [Obs.aside]⟩
  | sent => exact ⟨[.sent _], rfl, by simp [Obs.aside]⟩
  | _ => exact ⟨[], (List.append_nil _).symm, by simp⟩

/-- The files that receiver `i` has appended. -/
def appendedBy (i : ι) (t : List (Transit ι)) : List FileInfo :=
  (appendedOf t).filterMap fun p => if p.1 = i then some p.2 else none

omit [Fintype ι] in
@[simp] theorem appendedBy_append (i : ι) (t u : List (Transit ι)) :
    appendedBy i (t ++ u) = appendedBy i t ++ appendedBy i u := by
  rw [appendedBy, appendedOf_append, List.filterMap_append]
  rfl

/-- The writer was running whenever the receiver asked. -/
def NeverRejected (log : List Obs) : Prop := ∀ a, .tested a false ∉ log

/-- The call of `NewFile` holds the file `a`, which it has not appended. -/
def Held (c : CallPc Addr) (a : Addr) : Prop := c = .entered a ∨ c = .admitted a

/-- The files appended by `i` are those it has handed over and the writer has not
rejected, with their contents. -/
structure Booked (i : ι) (s : TransferAgent ι) (t : List (Transit ι)) : Prop where
  owned : Owned s
  appended : List.Forall₂ SameContents (book (s.filercv i).log).2 (appendedBy i t)
  held : ∀ a, Held (s.fw.callers i) a →
    ∃ f, (book (s.filercv i).log).1 = some f ∧ SameContents f (s.heap a)
  whole : NeverRejected (s.filercv i).log →
    files (s.filercv i).log = (book (s.filercv i).log).2 ++ (book (s.filercv i).log).1.toList ∧
      ((∀ a, ¬ Held (s.fw.callers i) a) → (book (s.filercv i).log).1 = none)

omit [Fintype ι] in
/-- A step that neither hands a file over nor appends one. -/
theorem Booked.frame {s s' : TransferAgent ι} {i : ι} {t u : List (Transit ι)}
    (h : Booked i s t) (howned : Owned s') (os : List Obs)
    (hlog : (s'.filercv i).log = (s.filercv i).log ++ os)
    (hos : ∀ o ∈ os, o.aside = true) (hcall : ∀ a, Held (s'.fw.callers i) a →
      Held (s.fw.callers i) a ∧ SameContents (s.heap a) (s'.heap a))
    (hcall' : ∀ a, Held (s.fw.callers i) a → Held (s'.fw.callers i) a)
    (hu : appendedBy i u = []) : Booked i s' (t ++ u) := by
  have hrejected : NeverRejected (s'.filercv i).log → NeverRejected (s.filercv i).log := by
    intro hn a ha
    refine hn a ?_
    rw [hlog]
    exact List.mem_append_left _ ha
  refine ⟨howned, ?_, ?_, ?_⟩
  · rw [hlog, book_aside hos, appendedBy_append, hu, List.append_nil]
    exact h.appended
  · intro a ha
    rw [hlog, book_aside hos]
    obtain ⟨ha', hsame⟩ := hcall a ha
    obtain ⟨f, hf, hfa⟩ := h.held a ha'
    exact ⟨f, hf, hfa.trans hsame⟩
  · intro hn
    obtain ⟨hfiles, hnone⟩ := h.whole (hrejected hn)
    rw [hlog, book_aside hos, files_aside hos]
    exact ⟨hfiles, fun hno => hnone fun a ha => hno a (hcall' a ha)⟩

omit [DecidableEq ι] [Fintype ι] in
/-- A call of `NewFile` is about the caller's own file, which is full. -/
theorem Owned.held {s : TransferAgent ι} {i : ι} {a : Addr} (h : Owned s)
    (ha : Held (s.fw.callers i) a) :
    (s.filercv i).fileptr = some a ∧ (s.filercv i).msg = .newFile ∧ s.Full a := by
  have hfile : (s.fw.callers i).file? = some a := by
    rcases ha with ha | ha <;> rw [ha] <;> rfl
  obtain ⟨hp, hm⟩ := h.caller i a hfile
  have hg := h.guard i a hp
  rw [hm] at hg
  exact ⟨hp, hm, hg⟩

/-- The steps of the others leave the contents of the file at hand alone. -/
theorem Booked.other {s s' : TransferAgent ι} {e : AgentEvent ι} {i : ι} {t u : List (Transit ι)}
    (h : Booked i s t) (hs : s.step dbl e = some s') (he : e.receiver? ≠ some i)
    (hu : appendedBy i u = []) : Booked i s' (t ++ u) := by
  have hund := h.owned.undisturbed hs he
  refine h.frame (h.owned.step hs) [] ?_ (by simp) ?_ ?_ hu
  · rw [hund.rcv, List.append_nil]
  · intro a ha
    rw [hund.caller] at ha
    refine ⟨ha, ?_⟩
    rcases hund.heap a (h.owned.held ha).1 with hheap | ⟨-, hheap⟩
    · rw [hheap]
      exact .refl _
    · rw [hheap]
      exact saveBegin_sameContents ..
  · intro a ha
    rw [hund.caller]
    exact ha

omit [Fintype ι] in
/-- Only `i` itself appends for `i`. -/
theorem appendedBy_of_ne {s : TransferAgent ι} {e : AgentEvent ι} {i : ι}
    (he : e.receiver? ≠ some i) : appendedBy i (s.transitOf e) = [] := by
  have hsaved : ∀ vs : List Save, appendedOf (vs.map (Transit.saved : Save → Transit ι)) = [] := by
    intro vs
    simp [appendedOf]
  cases e with
  | msg j junk ok =>
    have hji : j ≠ i := fun h => he (congrArg some h)
    simp only [transitOf, appendOf]
    split <;> simp [appendedBy, appendedOf, hji]
  | _ => rw [transitOf, appendedBy, hsaved] <;> simp

omit [Fintype ι] [DecidableEq ι] in
/-- Outside the append of a file a step of the message thread carries nothing. -/
theorem transitOf_msg {s : TransferAgent ι} {i : ι} {junk : ℕ → UInt8} {ok : Bool}
    (h : (s.filercv i).msg = .newFile → ∀ a, s.fw.callers i ≠ .admitted a) :
    s.transitOf (.msg i junk ok) = [] := by
  simp only [transitOf, appendOf]
  split
  · rename_i a hm hc
    exact absurd hc (h hm a)
  · rfl

omit [Fintype ι] in
/-- A file is handed over. -/
theorem Booked.handOver {s s' : TransferAgent ι} {i : ι} {t : List (Transit ι)} {a : Addr}
    (h : Booked i s t) (howned : Owned s') (hc : s.fw.callers i = .idle)
    (hc' : s'.fw.callers i = .entered a)
    (hlog : (s'.filercv i).log = (s.filercv i).log ++ [.handed a (s.heap a)])
    (hheap : s'.heap = s.heap) : Booked i s' (t ++ []) := by
  have hbook : book (s'.filercv i).log = (some (s.heap a), (book (s.filercv i).log).2) := by
    rw [hlog, book_concat]
    rfl
  rw [List.append_nil]
  refine ⟨howned, ?_, ?_, ?_⟩
  · rw [hbook]
    exact h.appended
  · rintro b (hb | hb)
    · obtain rfl : a = b := CallPc.entered.inj (hc'.symm.trans hb)
      exact ⟨s.heap a, by rw [hbook], by rw [hheap]; exact .refl _⟩
    · rw [hc'] at hb
      cases hb
  · intro hn
    have hn' : NeverRejected (s.filercv i).log := by
      intro b hb
      refine hn b ?_
      rw [hlog]
      exact List.mem_append_left _ hb
    obtain ⟨hfiles, hnone⟩ := h.whole hn'
    have hidle : (book (s.filercv i).log).1 = none := by
      refine hnone fun b hb => ?_
      rcases hb with hb | hb <;> simp [hc] at hb
    refine ⟨?_, fun hno => absurd (.inl hc') (hno a)⟩
    rw [hlog, files_append, hfiles, hidle, ← hlog, hbook, Option.toList_none, List.append_nil]
    rfl

omit [Fintype ι] in
/-- A call of `NewFile` goes on. -/
theorem Booked.newFile {s s' : TransferAgent ι} {i : ι} {t : List (Transit ι)}
    {w : FileWritter ι Addr} {junk : ℕ → UInt8} {ok : Bool} (h : Booked i s t)
    (howned : Owned s') (hpc : (s.filercv i).msg = .newFile) (hw : s.fw.newFile i = some w)
    (hlog : (s'.filercv i).log = (s.filercv i).log ++ newFileLog s.fw i) (hfw : s'.fw = w)
    (hheap : s'.heap = s.heap) : Booked i s' (t ++ s.transitOf (.msg i junk ok)) := by
  have htransit : (∀ a, s.fw.callers i ≠ .admitted a) →
      s.transitOf (.msg i junk ok) = [] := fun hc => transitOf_msg fun _ => hc
  have hback : NeverRejected (s'.filercv i).log → NeverRejected (s.filercv i).log := by
    intro hn b hb
    refine hn b ?_
    rw [hlog]
    exact List.mem_append_left _ hb
  cases FileWritter.newFile_cases hw with
  | @reject a hc hr =>
    have hlog' : newFileLog s.fw i = [.tested a false] := by rw [newFileLog, hc, hr]
    have hbook : book (s'.filercv i).log = book (s.filercv i).log := by
      rw [hlog, hlog', book_concat]
      rfl
    rw [htransit (by simp [hc]), List.append_nil]
    refine ⟨howned, by rw [hbook]; exact h.appended, ?_, ?_⟩
    · rintro b (hb | hb) <;> simp [hfw] at hb
    · intro hn
      refine absurd ?_ (hn a)
      rw [hlog, hlog']
      exact List.mem_append_right _ (List.mem_singleton_self _)
  | @accept a hc hr =>
    have hlog' : newFileLog s.fw i = [.tested a true] := by rw [newFileLog, hc, hr]
    have hbook : book (s'.filercv i).log = book (s.filercv i).log := by
      rw [hlog, hlog', book_concat]
      rfl
    rw [htransit (by simp [hc]), List.append_nil]
    refine ⟨howned, by rw [hbook]; exact h.appended, ?_, ?_⟩
    · rintro b (hb | hb)
      · simp [hfw] at hb
      · obtain rfl : a = b := by simpa [hfw] using hb
        obtain ⟨f, hf, hfa⟩ := h.held a (.inl hc)
        exact ⟨f, by rw [hbook, hf], by rw [hheap]; exact hfa⟩
    · intro hn
      refine ⟨?_, fun hno => absurd (.inr (by simp [hfw])) (hno a)⟩
      rw [hbook, hlog, hlog', files_append]
      rw [show files [.tested a true] = [] from rfl, List.append_nil]
      exact (h.whole (hback hn)).1
  | @push a hc =>
    obtain ⟨f, hf, hfa⟩ := h.held a (.inr hc)
    have hlog' : newFileLog s.fw i = [.appended a] := by rw [newFileLog, hc]
    have hbook : book (s'.filercv i).log = (none, (book (s.filercv i).log).2 ++ [f]) := by
      rw [hlog, hlog', book_concat]
      rcases hb : book (s.filercv i).log with ⟨p, fs⟩
      obtain rfl : p = some f := by rw [hb] at hf; exact hf
      rfl
    have happ : appendedBy i (s.transitOf (.msg i junk ok)) = [s.heap a] := by
      simp [transitOf, appendOf, hpc, hc, appendedBy, appendedOf]
    refine ⟨howned, ?_, ?_, ?_⟩
    · rw [hbook, appendedBy_append, happ]
      exact List.rel_append h.appended (.cons hfa .nil)
    · rintro b (hb | hb) <;> simp [hfw] at hb
    · intro hn
      refine ⟨?_, fun _ => by rw [hbook]⟩
      rw [hbook, hlog, hlog', files_append, (h.whole (hback hn)).1, hf]
      rw [show files [.appended a] = [] from rfl, Option.toList_none, Option.toList_some]
  | @wake a hc | @lost a hc =>
    have hlog' : newFileLog s.fw i = [] := by rw [newFileLog, hc]
    rw [htransit (by simp [hc])]
    refine h.frame howned [] (by rw [hlog, hlog']) (by simp) ?_ ?_ rfl
    · rintro b (hb | hb) <;> simp [hfw] at hb
    · rintro b (hb | hb) <;> simp [hc] at hb

theorem Booked.step {s s' : TransferAgent ι} {e : AgentEvent ι} {i : ι} {t : List (Transit ι)}
    (h : Booked i s t) (hs : s.step dbl e = some s') : Booked i s' (t ++ s.transitOf e) := by
  have howned := h.owned.step hs
  by_cases he : e.receiver? = some i
  swap
  · exact h.other hs he (appendedBy_of_ne he)
  -- outside `NewFile` no file is at hand
  have hout : (s.filercv i).msg ≠ .newFile → ∀ a, ¬ Held (s.fw.callers i) a := fun hm a ha =>
    hm (h.owned.held ha).2.1
  cases (step_cases hs).2 with
  | @recv _ d r hr =>
    obtain rfl := Option.some.inj he
    obtain ⟨-, -, -, rfl⟩ := FileReceiver.receive_cases hr
    refine h.frame howned [.arrived d] ?_ (by simp [Obs.aside]) (fun a ha => ⟨ha, .refl _⟩)
      (fun _ => id) rfl
    dsimp only
    rw [Function.update_self]
  | @fail _ r hr =>
    obtain rfl := Option.some.inj he
    obtain ⟨-, rfl⟩ := FileReceiver.receiveError_cases hr
    refine h.frame howned [] ?_ (by simp) (fun a ha => ⟨ha, .refl _⟩) (fun _ => id) rfl
    dsimp only
    rw [Function.update_self, List.append_nil]
  | @io _ v hv =>
    obtain rfl := Option.some.inj he
    obtain ⟨os, hlog, hos⟩ := io_aside hv
    exact h.frame howned os (by rw [commit_self, hlog]; rfl) hos
      (fun a ha => ⟨ha, io_contents hv (h.owned.held ha).2.2⟩) (fun _ => id) rfl
  | @msg _ junk ok v hv =>
    obtain rfl := Option.some.inj he
    obtain ⟨os, hlog, hos⟩ := msg_aside hv
    have hm := msg_ne_newFile hv
    rw [transitOf_msg fun hnew => absurd hnew hm]
    exact h.frame howned os (by rw [commit_self, hlog]; rfl) hos
      (fun a ha => absurd ha (hout hm a)) (fun _ => id) rfl
  | @handOver _ junk ok a hpc hp hc =>
    obtain rfl := Option.some.inj he
    rw [transitOf_msg fun hm => by simp [hpc] at hm]
    exact h.handOver howned hc (Function.update_self ..) (by dsimp only; rw [Function.update_self])
      rfl
  | @newFile _ junk ok w hpc hw =>
    obtain rfl := Option.some.inj he
    exact h.newFile howned hpc hw (by dsimp only; rw [Function.update_self]) rfl rfl
  | takeFirst | saveThrew | save | monitor | spurious | config => cases he

theorem booked_run (i : ι) {bufs : ι → PackBuf × PackBuf} {heap : Heap} {env : SaveEnv}
    {es : List (AgentEvent ι)} {s : TransferAgent ι}
    (hrun : Lts.run (step dbl) (init bufs heap env) es = some s) :
    Booked i s (Lts.outputs (step dbl) transitOf (init bufs heap env) es) := by
  have h : Booked i s ([] ++ Lts.outputs (step dbl) transitOf (init bufs heap env) es) := by
    refine Lts.run_outputs (fun _ _ _ _ => Booked.step) ?_ hrun
    refine ⟨.init bufs heap env, .nil, ?_, fun _ => ⟨rfl, fun _ => rfl⟩⟩
    rintro a (ha | ha)
    all_goals cases ha
  rwa [List.nil_append] at h

/-! ### From the transfers to the saves -/

/-- The saves of the files that receiver `i` has appended. -/
def savedFor (i : ι) (t : List (Transit ι)) : List FileInfo :=
  ((appendedOf t).zip (savedOf t)).filterMap fun x => if x.1.1 = i then some x.2.info else none

omit [Fintype ι] in
/-- The saves for `i` are the first files that it has appended. -/
theorem savedFor_kept (i : ι) {ps : List (ι × FileInfo)} {vs : List Save} {fs : List FileInfo}
    (h : List.Forall₂ (fun (p : ι × FileInfo) f => SameContents p.2 f) ps
      (vs.map Save.info ++ fs)) :
    ∃ gs, gs <+: ps.filterMap (fun p => if p.1 = i then some p.2 else none) ∧
      List.Forall₂ SameContents gs
        ((ps.zip vs).filterMap fun x => if x.1.1 = i then some x.2.info else none) := by
  induction vs generalizing ps with
  | nil =>
    refine ⟨[], List.nil_prefix, ?_⟩
    rw [List.zip_nil_right]
    exact .nil
  | cons v vs ih =>
    cases h with
    | @cons p _ ps _ hp hrest =>
      obtain ⟨gs, hgs, hsame⟩ := ih hrest
      rw [List.zip_cons_cons]
      by_cases hi : p.1 = i
      · refine ⟨p.2 :: gs, ?_, ?_⟩
        · simpa [hi] using hgs
        · simpa [hi] using ⟨hp, hsame⟩
      · exact ⟨gs, by simpa [hi] using hgs, by simpa [hi] using hsame⟩

omit [DecidableEq ι] [Fintype ι] in
theorem sameContents_trans {fs gs hs : List FileInfo} (h : List.Forall₂ SameContents fs gs)
    (h' : List.Forall₂ SameContents gs hs) : List.Forall₂ SameContents fs hs := by
  induction h generalizing hs with
  | nil =>
    cases h'
    exact .nil
  | cons hfg _ ih =>
    cases h' with
    | cons hgh hrest => exact .cons (hfg.trans hgh) (ih hrest)

omit [DecidableEq ι] [Fintype ι] in
/-- The transfers before a position are the first ones. -/
theorem locate_passed (ts : List (Transfer dbl)) (n : ℕ) : (locate ts n).passed <+: ts := by
  induction ts generalizing n with
  | nil => exact List.nil_prefix
  | cons t ts ih =>
    unfold locate
    split
    · exact List.nil_prefix
    · exact List.cons_prefix_cons.mpr ⟨rfl, ih _⟩

/-- **Saved is what was sent.**  In every run with a client on connection `i` that
follows the protocol and whose lines arrive whole, in `WAITING`, whatever all the
other connections do, the saves made for this connection are files of its
transfers, in order and each at most once, with the description and the bytes that
the client has sent; they are the first transfers if the writer was running at
every handover. -/
theorem uploads_saved {ts : List (Transfer dbl)} {i : ι} {bufs : ι → PackBuf × PackBuf}
    {heap : Heap} {env : SaveEnv} {es : List (AgentEvent ι)} {s : TransferAgent ι}
    (hclient : Lts.RunAll (step dbl)
      (fun s e => Follows ts i s e ∧ WholeLines ts i s e ∧ InWaiting ts i s e)
      (init bufs heap env) es)
    (hrun : Lts.run (step dbl) (init bufs heap env) es = some s) :
    ∃ us : List (Transfer dbl), us.Sublist ts ∧
      (NeverRejected (s.filercv i).log → us <+: ts) ∧
      List.Forall₂ (fun u f => SameContents u.file f) us
        (savedFor i (Lts.outputs (step dbl) transitOf (init bufs heap env) es)) := by
  have hcarried := carried_run hrun
  have hbooked := booked_run i hrun
  -- the saves for `i`, back to what it has handed over
  obtain ⟨gs, hgs, hsaved⟩ := savedFor_kept i hcarried.kept
  obtain ⟨n, rfl⟩ : ∃ n, gs = (appendedBy i _).take n := ⟨_, List.prefix_iff_eq_take.mp hgs⟩
  have hsame := sameContents_trans (List.forall₂_take n hbooked.appended) hsaved
  -- and from there to the transfers
  have hfiles : files (s.filercv i).log <+: ts.map Transfer.file := by
    have hhanded := (stands_run hclient hrun).place.reassembled.handed
    exact hhanded.trans ((locate_passed ts _).map _)
  have hbook : (book (s.filercv i).log).2.Sublist (files (s.filercv i).log) :=
    (List.sublist_append_left ..).trans (book_sublist _)
  by_cases hn : NeverRejected (s.filercv i).log
  · have hprefix : (book (s.filercv i).log).2.take n <+: ts.map Transfer.file := by
      refine (List.take_prefix ..).trans (List.IsPrefix.trans ?_ hfiles)
      rw [(hbooked.whole hn).1]
      exact List.prefix_append ..
    obtain ⟨k, hk⟩ : ∃ k, (book (s.filercv i).log).2.take n = (ts.take k).map Transfer.file := by
      refine ⟨((book (s.filercv i).log).2.take n).length, ?_⟩
      rw [List.map_take]
      exact List.prefix_iff_eq_take.mp hprefix
    rw [hk] at hsame
    exact ⟨ts.take k, List.take_sublist .., fun _ => List.take_prefix ..,
      List.forall₂_map_left_iff.mp hsame⟩
  · have hsub : ((book (s.filercv i).log).2.take n).Sublist (ts.map Transfer.file) :=
      (List.take_sublist ..).trans (hbook.trans hfiles.sublist)
    obtain ⟨us, hus, hmap⟩ := List.sublist_map_iff.mp hsub
    rw [hmap] at hsame
    exact ⟨us, hus, fun h => absurd h hn, List.forall₂_map_left_iff.mp hsame⟩

/-- Two transfers, and the monitor saves both files. -/
def savedSchedule : List (AgentEvent Unit) := twoTransfers ++ monitorSteps 7

theorem uploads_kept_two : ∃ s : TransferAgent Unit,
    Lts.run (step unitLib) single savedSchedule = some s ∧
    List.Forall₂ (fun (p : Unit × FileInfo) f => SameContents p.2 f)
      (appendedOf (Lts.outputs (step unitLib) transitOf single savedSchedule))
      ((savedOf (Lts.outputs (step unitLib) transitOf single savedSchedule)).map Save.info ++
        s.fw.quenf.map s.heap) := by
  have hsome : (Lts.run (step unitLib) single savedSchedule).isSome = true := by decide +kernel
  obtain ⟨s, hrun⟩ := Option.isSome_iff_exists.mp hsome
  exact ⟨s, hrun, uploads_kept hrun⟩

theorem uploads_saved_two : ∃ s : TransferAgent Unit,
    Lts.run (step unitLib) single savedSchedule = some s ∧
    ((savedFor () (Lts.outputs (step unitLib) transitOf single savedSchedule)).map
      FileInfo.filedata = [[7, 8], [1, 2, 3]]) ∧
    ∃ us : List (Transfer unitLib), us.Sublist [transferA, transferB] ∧
      (NeverRejected (s.filercv ()).log → us <+: [transferA, transferB]) ∧
      List.Forall₂ (fun u f => SameContents u.file f) us
        (savedFor () (Lts.outputs (step unitLib) transitOf single savedSchedule)) := by
  have hclient : Lts.RunAll (step unitLib) (fun s e =>
      Follows [transferA, transferB] () s e ∧ WholeLines [transferA, transferB] () s e ∧
        InWaiting [transferA, transferB] () s e) single savedSchedule := by
    decide +kernel
  have hsome : (Lts.run (step unitLib) single savedSchedule).isSome = true := by decide +kernel
  obtain ⟨s, hrun⟩ := Option.isSome_iff_exists.mp hsome
  exact ⟨s, hrun, by decide +kernel, uploads_saved hclient hrun⟩

end TransferAgent

end FtServer
