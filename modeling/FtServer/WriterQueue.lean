/-
FtServer/WriterQueue.lean

The queue of the writer.  Producers append at its end while the monitor works on
its head, which it reads at the start of a save and pops at the end.

`Fifo` is the invariant of the writer: what was ever accepted is what was saved
followed by what is queued, and the file that `save_first` works on is still the
head.  In the server every pop is a `Save`: the file, its description, and
whether a data-process connection was coupled when `save_first` asked.
`queue_fifo` is the result: nothing is lost, duplicated or reordered on the way
from `NewFile` to the notification.
-/
import FtServer.Ownership

namespace FtServer

/-! ### The queue -/

namespace FileWritter

variable {κ φ : Type} [DecidableEq κ]

/-- Accepted is saved and then queued, and a save works on the head. -/
structure Fifo (w : FileWritter κ φ) : Prop where
  order : w.accepted = w.saved ++ w.quenf
  head : w.mon = .saving → ∃ f rest, w.quenf = f :: rest ∧ w.ptr = some f

omit [DecidableEq κ] in
theorem Fifo.init : Fifo (FileWritter.init : FileWritter κ φ) where
  order := rfl
  head := fun h => by cases h

omit [DecidableEq κ] in
theorem Fifo.monStep {w w' : FileWritter κ φ} {ok : Bool} (h : Fifo w) (hs : MonStep w ok w') :
    Fifo w' := by
  cases hs with
  | start | finish | toWait | count | clear | block | fail | ret =>
    exact ⟨h.order, fun hm => by cases hm⟩
  | enter _ hq => exact ⟨h.order, fun _ => ⟨_, _, hq, rfl⟩⟩
  | pop hpc =>
    obtain ⟨f, rest, hq, -⟩ := h.head hpc
    refine ⟨?_, fun hm => by cases hm⟩
    -- the head moves from the queue to the end of what is saved
    show w.accepted = w.saved ++ w.quenf.take 1 ++ w.quenf.tail
    rw [h.order, hq]
    simp

theorem Fifo.callStep {w w' : FileWritter κ φ} {k : κ} (h : Fifo w) (hs : CallStep w k w') :
    Fifo w' := by
  cases hs with
  | reject | accept | lost => exact ⟨h.order, h.head⟩
  | wake => exact ⟨h.order, fun hm => by cases hm⟩
  | @push f =>
    refine ⟨?_, fun hm => ?_⟩
    · show w.accepted ++ [f] = w.saved ++ (w.quenf ++ [f])
      rw [h.order, List.append_assoc]
    · obtain ⟨g, rest, hq, hp⟩ := h.head hm
      exact ⟨g, rest ++ [f], by rw [hq]; rfl, hp⟩

theorem Fifo.step {w w' : FileWritter κ φ} {e : WriterEvent κ φ} (h : Fifo w)
    (hs : w.step e = some w') : Fifo w' := by
  cases e with
  | call k f =>
    obtain ⟨-, rfl⟩ := call_cases hs
    exact ⟨h.order, h.head⟩
  | caller k => exact h.callStep (newFile_cases hs)
  | monitor ok => exact h.monStep (threadMonitor_cases hs)
  | spurious =>
    obtain ⟨-, rfl⟩ := spuriousWake_cases hs
    exact ⟨h.order, fun hm => by cases hm⟩

end FileWritter

/-! ### Saves and notifications -/

/-- A file popped by `save_first`: its address, its description at the pop, and
whether the data-process connection was coupled. -/
structure Save where
  file : Addr
  info : FileInfo
  coupled : Bool

/-- The messages sent to the data process. -/
def notifications (effects : List Effect) : List AsciiProtoFileinfo :=
  effects.filterMap fun x => match x with
    | .notify proto => some proto
    | _ => none

/-- The messages that a list of saves leads to. -/
def Save.messages (vs : List Save) : List AsciiProtoFileinfo :=
  (vs.filter Save.coupled).map fun v => notification v.info

/-- Without a message among the effects nothing is sent. -/
theorem notifications_eq_nil {effects : List Effect}
    (h : ∀ proto, .notify proto ∉ effects) : notifications effects = [] := by
  refine List.filterMap_eq_nil_iff.mpr fun x hx => ?_
  cases x with
  | notify proto => exact absurd hx (h proto)
  | _ => rfl

theorem notifications_append (xs ys : List Effect) :
    notifications (xs ++ ys) = notifications xs ++ notifications ys := List.filterMap_append

theorem Save.messages_append (vs ws : List Save) :
    messages (vs ++ ws) = messages vs ++ messages ws := by
  simp [messages]

/-- An attempt sends one message if it returns true and the data process is
coupled, and none otherwise. -/
theorem SaveStep.notifications {env : SaveEnv} {ans : FsAnswers} {dir : Bytes} {f : FileInfo}
    {body : Except StdException Bool × List Effect} (h : SaveStep env ans dir f body) :
    FtServer.notifications body.2 =
      if body.1 = .ok true ∧ env.tcpcDp then [notification f] else [] := by
  by_cases hr : body.1 = .ok true
  · cases h with
    | noDirectory hd => exact absurd hr hd
    | noFile | badTime => cases hr
    | @saved hd hf reg ht =>
      have hmake : FtServer.notifications (makeDirectory ans dir).2 = [] :=
        notifications_eq_nil fun proto hx => by cases makeDirectory_effects hx
      have hreg : FtServer.notifications reg = [] := by
        refine notifications_eq_nil fun proto hx => ?_
        unfold register at ht
        split at ht
        · split at ht
          · cases ht
          · obtain rfl := Except.ok.inj ht
            simp at hx
        · obtain rfl := Except.ok.inj ht
          cases hx
      simp only [notifications_append, hmake, hreg]
      cases env.tcpcDp <;> rfl
  · rw [if_neg fun hc => hr hc.1]
    refine notifications_eq_nil fun proto hx => ?_
    rcases h.effects_of_ret hr hx with hx | ⟨_, hx⟩ | ⟨_, hx⟩ <;> cases hx

namespace TransferAgent

variable {ι : Type}

/-- The save that a step completes. -/
def saveOf (s : TransferAgent ι) : AgentEvent ι → List Save
  | .monitor ans =>
    match s.fw.mon, s.fw.ptr with
    | .saving, some a =>
      if (saveBody s.env ans s.filepath (s.heap a)).1 = .ok true then
        [⟨a, s.heap a, s.env.tcpcDp⟩]
      else []
    | _, _ => []
  | _ => []

theorem saveOf_eq_nil {s : TransferAgent ι} (hm : s.fw.mon ≠ .saving) (e : AgentEvent ι) :
    s.saveOf e = [] := by
  cases e with
  | monitor ans =>
    simp only [saveOf]
    split
    · rename_i hsaving _
      exact absurd hsaving hm
    · rfl
  | _ => rfl

variable [DecidableEq ι] [Fintype ι] {δ : Type} (dbl : DoubleLib δ)

/-- The saves of a run, in order. -/
def saves : TransferAgent ι → List (AgentEvent ι) → List Save := Lts.outputs (step dbl) saveOf

variable {dbl}

/-- What links the server to the saves of the run so far. -/
structure QueueInv (s : TransferAgent ι) (vs : List Save) : Prop where
  fifo : s.fw.Fifo
  saved : vs.map Save.file = s.fw.saved
  notified : notifications s.effects = Save.messages vs

omit [Fintype ι] [DecidableEq ι] in
/-- Outside the end of a save nothing is popped and nothing is notified. -/
theorem QueueInv.frame {s s' : TransferAgent ι} {vs : List Save} (h : QueueInv s vs)
    (hfifo : s'.fw.Fifo) (hsaved : s'.fw.saved = s.fw.saved)
    (heff : notifications s'.effects = notifications s.effects) : QueueInv s' (vs ++ []) where
  fifo := hfifo
  saved := by rw [List.append_nil, h.saved, hsaved]
  notified := by rw [List.append_nil, heff, h.notified]

omit [DecidableEq ι] [Fintype ι] in
/-- Outside `save_first` the monitor pops nothing. -/
theorem monStep_saved {w w' : FileWritter ι Addr} {ok : Bool} (hs : w.MonStep ok w')
    (hm : w.mon ≠ .saving) : w'.saved = w.saved := by
  cases hs with
  | pop hpc => exact absurd hpc hm
  | _ => rfl

theorem QueueInv.step {s s' : TransferAgent ι} {vs : List Save} {e : AgentEvent ι}
    (h : QueueInv s vs) (hs : s.step dbl e = some s') : QueueInv s' (vs ++ s.saveOf e) := by
  -- the writer takes a step of its own or none
  have hfifo : s'.fw.Fifo := by
    rcases step_fw hs with hsame | ⟨d, hd⟩
    · rw [hsame]
      exact h.fifo
    · exact h.fifo.step hd
  cases (step_cases hs).2 with
  | recv | fail | io | msg | handOver | spurious | config => exact h.frame hfifo rfl rfl
  | @newFile i _ _ w hpc hw =>
    refine h.frame hfifo ?_ rfl
    cases FileWritter.newFile_cases hw <;> rfl
  | takeFirst hm hq =>
    rw [saveOf_eq_nil (by simp [hm])]
    exact h.frame hfifo rfl rfl
  | monitor hm hm' hw =>
    rw [saveOf_eq_nil hm']
    exact h.frame hfifo (monStep_saved (FileWritter.threadMonitor_cases hw) hm') rfl
  | @saveThrew ans a e hm hp hb =>
    have hbody := (saveBody_cases s.env ans s.filepath (s.heap a)).notifications
    have hnone : s.saveOf (.monitor ans) = [] := by simp [saveOf, hm, hp, hb]
    rw [hb, if_neg (by simp)] at hbody
    rw [hnone]
    refine h.frame hfifo rfl ?_
    rw [notifications_append, hbody, List.append_nil]
  | @save ans a rslt w hm hp hb hw =>
    have hbody := (saveBody_cases s.env ans s.filepath (s.heap a)).notifications
    obtain ⟨f, rest, hq, hp'⟩ := h.fifo.head hm
    obtain rfl : a = f := Option.some.inj (hp.symm.trans hp')
    rw [hb] at hbody
    cases FileWritter.threadMonitor_cases hw with
    | fail =>
      have hnone : s.saveOf (.monitor ans) = [] := by simp [saveOf, hm, hp, hb]
      rw [if_neg (by simp)] at hbody
      rw [hnone]
      refine h.frame hfifo rfl ?_
      rw [notifications_append, hbody, List.append_nil]
    | pop =>
      -- the one step that pops: the head is the file that was saved
      have hone : s.saveOf (.monitor ans) = [⟨a, s.heap a, s.env.tcpcDp⟩] := by
        simp [saveOf, hm, hp, hb]
      rw [hone]
      refine ⟨hfifo, ?_, ?_⟩
      · show (vs ++ [_]).map Save.file = s.fw.saved ++ s.fw.quenf.take 1
        rw [List.map_append, h.saved, hq]
        rfl
      · rw [notifications_append, hbody, h.notified, Save.messages_append]
        cases hc : s.env.tcpcDp <;> simp [Save.messages]
    | start hpc | finish hpc | toWait hpc | count hpc | clear hpc | block hpc | enter hpc
    | ret hpc => simp [hm] at hpc

/-- **No file is lost, duplicated or reordered**: at every moment the accepted
files are the saved files followed by the queue, and the messages to the data
process are those of the files during whose save it was coupled, one each and in
the order of the saves. -/
theorem queue_fifo {bufs : ι → PackBuf × PackBuf} {heap : Heap} {env : SaveEnv}
    {es : List (AgentEvent ι)} {s : TransferAgent ι}
    (hrun : Lts.run (step dbl) (init bufs heap env) es = some s) :
    s.fw.accepted = s.fw.saved ++ s.fw.quenf ∧
      (saves dbl (init bufs heap env) es).map Save.file = s.fw.saved ∧
      notifications s.effects =
        ((saves dbl (init bufs heap env) es).filter Save.coupled).map
          fun v => notification v.info := by
  have h : QueueInv s ([] ++ saves dbl (init bufs heap env) es) :=
    Lts.run_outputs (fun _ _ _ _ => QueueInv.step) ⟨.init, rfl, rfl⟩ hrun
  rw [List.nil_append] at h
  exact ⟨h.fifo.order, h.saved, h.notified⟩

/-- Two files, the first saved while the data process is coupled, the second
while it is not. -/
def coupledSchedule : List (AgentEvent Unit) :=
  monitorSteps 1 ++ .config { single.env with tcpcDp := true } ::
    lineSchedule (lit "fileinfo filename=a,filesize=2\n") ++ dataSchedule [7, 8] ++
      msgSteps 9 ++ monitorSteps 4 ++ .config { single.env with tcpcDp := false } ::
    lineSchedule (lit "fileinfo filename=b,filesize=1\n") ++ dataSchedule [9] ++
      msgSteps 9 ++ monitorSteps 3

theorem queue_fifo_coupled : ∃ s : TransferAgent Unit,
    Lts.run (step unitLib) single coupledSchedule = some s ∧ s.fw.saved = [0, 1] ∧
      s.fw.accepted = s.fw.saved ++ s.fw.quenf ∧
      (saves unitLib single coupledSchedule).map Save.file = s.fw.saved ∧
      notifications s.effects =
        ((saves unitLib single coupledSchedule).filter Save.coupled).map
          fun v => notification v.info := by
  have heval : (Lts.run (step unitLib) single coupledSchedule).map
      (fun s => s.fw.saved) = some [0, 1] := by
    decide +kernel
  obtain ⟨s, hrun, hs⟩ := Option.map_eq_some_iff.mp heval
  exact ⟨s, hrun, hs, queue_fifo hrun⟩

end TransferAgent

end FtServer
