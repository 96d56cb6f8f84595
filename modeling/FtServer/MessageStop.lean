/-
FtServer/MessageStop.lean

What a call of `Stop` does to the messages that wait.

`Stop` sends `MSG_QUIT` with high priority and joins the thread, which ends when
it has received it.  What is received until then was fixed when the quit got in
(`owed`): the urgent messages before it.  Posted messages are not among them
(`receipts_of_quit`); they go with the queue.

The thread and `Stop` get there by themselves, even if the queue was full
(`exists_stop`): every step of theirs lowers `remaining`.
-/
import Mathlib.Algebra.Ring.Nat
import FtServer.MessageDelivery

namespace FtServer

namespace MessageQueue

variable {κ : Type}

/-! ### What is received after the quit -/

/-- The entries up to the first `MSG_QUIT`, and that one. -/
def untilQuit : List (ℕ × MsgUnit) → List (ℕ × MsgUnit)
  | [] => []
  | x :: q => if x.2.id = msgQuit then [x] else x :: untilQuit q

/-- What comes behind a `MSG_QUIT` does not count. -/
theorem untilQuit_append (q q' : List (ℕ × MsgUnit)) {x : ℕ × MsgUnit} (hx : x.2.id = msgQuit) :
    untilQuit (q ++ x :: q') <+: q ++ [x] := by
  induction q with
  | nil => simp [untilQuit, hx]
  | cons y q ih =>
    rw [List.cons_append, untilQuit]
    split
    · exact ⟨q ++ [x], rfl⟩
    · exact List.cons_prefix_cons.mpr ⟨rfl, ih⟩

/-- A message that is no more urgent than a `MSG_QUIT` in the queue does not count. -/
theorem untilQuit_place {q : List (ℕ × MsgUnit)} {x y : ℕ × MsgUnit}
    (hq : q.Pairwise fun x y => y.1 ≤ x.1) (hy : y ∈ q) (hquit : y.2.id = msgQuit)
    (hle : x.1 ≤ y.1) : untilQuit (Mailbox.place x q) = untilQuit q := by
  induction q with
  | nil => cases hy
  | cons z q ih =>
    rw [List.pairwise_cons] at hq
    have hzy : y.1 ≤ z.1 := by
      rcases List.mem_cons.mp hy with rfl | hmem
      · exact Nat.le_refl _
      · exact hq.1 y hmem
    rw [Mailbox.place, if_neg (by omega), untilQuit, untilQuit]
    split
    · rfl
    · rename_i hz
      rcases List.mem_cons.mp hy with rfl | hmem
      · exact absurd hquit hz
      · rw [ih hq.2 hmem]

/-- The thread will receive further messages: it has not received a `MSG_QUIT`. -/
def awaits (q : MessageQueue κ) : Bool :=
  match q.thrdmsg with
  | some .receive => true
  | some (.dispatch m) | some (.call m _) => m.id ≠ msgQuit
  | some .ended | none => false

/-- What the thread will still receive before it ends. -/
def owed (q : MessageQueue κ) : List (ℕ × MsgUnit) :=
  if q.awaits then untilQuit q.box.entries else []

/-- `Stop` has sent its quit and has not returned: the quit is before the thread or
behind it. -/
structure Quitting (q : MessageQueue κ) : Prop where
  stop : q.stop = .join ∨ q.stop = .reset ∧ q.thrdmsg = none
  waits : q.awaits = true → ∃ x ∈ q.box.entries, x.2.id = msgQuit ∧ 10 ≤ x.1

theorem message_le {e : MqEvent κ} {x : ℕ × MsgUnit} (he : e.message? = some x) : x.1 ≤ 10 := by
  cases e <;> simp only [MqEvent.message?, Option.some.injEq, reduceCtorEq] at he <;>
    subst he
  · exact Nat.le_of_ble_eq_true rfl
  · exact Nat.le_refl 10

/-- What is the same for a state with the same thread, queue and owner. -/
theorem Quitting.same {q q' : MessageQueue κ} (h : Quitting q) (hs : q'.stop = q.stop)
    (ht : q'.thrdmsg = q.thrdmsg) (hb : q'.box = q.box) : Quitting q' ∧ owed q = owed q' := by
  have hawaits : q'.awaits = q.awaits := by rw [awaits, ht, awaits]
  refine ⟨⟨by rw [hs, ht]; exact h.stop, ?_⟩, by rw [owed, owed, hawaits, hb]⟩
  rw [hawaits, hb]
  exact h.waits

/-- Other messages go behind the quit. -/
theorem Quitting.post {q : MessageQueue κ} {b : Mailbox MsgUnit} {x : ℕ × MsgUnit}
    (h : Quitting q) (hb : q.mq = some b) (hx : x.1 ≤ 10) :
    Quitting { q with mq := some (b.send x.1 x.2) } ∧
      owed q = owed { q with mq := some (b.send x.1 x.2) } := by
  have hawaits : ({ q with mq := some (b.send x.1 x.2) } : MessageQueue κ).awaits = q.awaits := rfl
  refine ⟨⟨h.stop, ?_⟩, ?_⟩
  · intro ha
    obtain ⟨y, hy, hquit, hle⟩ := h.waits ha
    rw [box_of_some hb] at hy
    exact ⟨y, Mailbox.mem_place.mpr (.inr hy), hquit, hle⟩
  · rw [owed, owed, hawaits]
    by_cases ha : q.awaits = true
    · obtain ⟨y, hy, hquit, hle⟩ := h.waits ha
      have hplace := untilQuit_place q.box.urgent hy hquit (Nat.le_trans hx hle)
      rw [if_pos ha, if_pos ha, ← hplace, box_of_some hb]
      rfl
    · rw [if_neg ha, if_neg ha]

/-- The thread goes on between two receives. -/
theorem Quitting.thread {q : MessageQueue κ} {t : MqThread κ} (h : Quitting q)
    (hs : q.stop = .join) (ht : ({ q with thrdmsg := some t } : MessageQueue κ).awaits = q.awaits) :
    Quitting { q with thrdmsg := some t } ∧ owed q = owed { q with thrdmsg := some t } := by
  refine ⟨⟨.inl hs, ?_⟩, by rw [owed, owed, ht]; rfl⟩
  rw [ht]
  exact h.waits

/-- A receive takes the first of what is owed. -/
theorem Quitting.receive {q : MessageQueue κ} {b b' : Mailbox MsgUnit} {x : ℕ × MsgUnit}
    (h : Quitting q) (hs : q.stop = .join) (ht : q.thrdmsg = some .receive) (hb : q.mq = some b)
    (hx : b.receive = some (x, b')) :
    Quitting { q with mq := some b', thrdmsg := some (.dispatch x.2) } ∧
      owed q = x :: owed { q with mq := some b', thrdmsg := some (.dispatch x.2) } := by
  have hentries : q.box.entries = x :: b'.entries := by
    rw [box_of_some hb, Mailbox.receive_eq_some.mp hx]
  have hawaits : q.awaits = true := by simp [awaits, ht]
  obtain ⟨y, hy, hquit, hle⟩ := h.waits hawaits
  rw [hentries] at hy
  refine ⟨⟨.inl hs, ?_⟩, ?_⟩
  · intro hnext
    have hne : x.2.id ≠ msgQuit := by simpa [awaits] using hnext
    rcases List.mem_cons.mp hy with rfl | hmem
    · exact absurd hquit hne
    · exact ⟨y, hmem, hquit, hle⟩
  · rw [owed, if_pos hawaits, hentries, untilQuit]
    by_cases hid : x.2.id = msgQuit
    · simp [owed, awaits, hid]
    · simp [owed, awaits, hid, box]

theorem Quitting.step {q q' : MessageQueue κ} {e : MqEvent κ} (h : Quitting q)
    (hstep : q.step e = some q') (hs' : q'.stop ≠ .idle) :
    Quitting q' ∧ owed q = receipts (q.observe e) ++ owed q' := by
  have hjoin : q.thrdmsg ≠ none → q.stop = .join := by
    intro ht
    rcases h.stop with hj | ⟨-, hn⟩
    · exact hj
    · exact absurd hn ht
  have hnot : q.stop ≠ .idle ∧ q.stop ≠ .send := by
    rcases h.stop with hj | ⟨hr, -⟩
    · simp [hj]
    · simp [hr]
  -- without a receipt what is owed stays as it is
  have hnone : Quitting q' ∧ owed q = owed q' → receipts (q.observe e) = [] →
      Quitting q' ∧ owed q = receipts (q.observe e) ++ owed q' := by
    rintro ⟨hq, ho⟩ hr
    rw [hr]
    exact ⟨hq, ho⟩
  cases step_cases hstep with
  | register =>
    refine hnone (h.same ?_ ?_ ?_) ?_
    · exact registerMessage_stop ..
    · exact registerMessage_thrdmsg ..
    · rw [box, registerMessage_mq, box]
    · simp only [observe]
      split <;> rfl
  | unheard he hb =>
    refine hnone (h.same rfl rfl rfl) ?_
    rw [observe_message he, observeSend_none hb]
    rfl
  | sent he hb hlt =>
    refine hnone (h.post hb (message_le he)) ?_
    rw [observe_message he, observeSend_some hb]
    rfl
  | started hs ht => exact absurd hs hnot.1
  | notStarted hc =>
    refine hnone (h.same rfl rfl rfl) ?_
    simp only [observe]
    split
    · exact receipts_end q
    · rfl
  | stopping hs ht => exact absurd hs hnot.1
  | neverStarted hs ht => exact absurd hs hnot.1
  | quit hs hb hlt => exact absurd hs hnot.2
  | quitUnheard hs hb => exact absurd hs hnot.2
  | joined hs ht =>
    refine hnone ?_ (by simp only [observe, hs]; rfl)
    refine ⟨⟨.inr ⟨rfl, rfl⟩, fun ha => by simp [awaits] at ha⟩, ?_⟩
    simp [owed, awaits, ht]
  | reset hs => exact absurd rfl hs'
  | @received b b' x ht hb hx =>
    have hs := hjoin (by simp [ht])
    have hobs : q.observe .thread = [.received x] := by
      simp only [observe, ht, box_of_some hb, Mailbox.receive_eq_some.mp hx]
    rw [hobs]
    exact h.receive hs ht hb hx
  | dispatched ht | called ht =>
    refine hnone (h.thread (hjoin (by simp [ht])) (by simp [awaits, ht])) ?_
    simp only [observe, ht]
    rfl
  | looped ht hm | left ht hm =>
    refine hnone (h.thread (hjoin (by simp [ht])) (by simp [awaits, ht, hm])) ?_
    simp only [observe, ht]
    rfl

/-- As long as the thread exists, so does the queue. -/
structure Started (q : MessageQueue κ) : Prop where
  queue : q.thrdmsg ≠ none → q.mq ≠ none
  owner : q.stop = .send ∨ q.stop = .join → q.thrdmsg ≠ none
  gone : q.stop = .reset → q.thrdmsg = none

theorem Started.step {q q' : MessageQueue κ} {e : MqEvent κ} (h : Started q)
    (hstep : q.step e = some q') : Started q' := by
  cases step_cases hstep with
  | register =>
    refine ⟨?_, ?_, ?_⟩ <;> simp only [registerMessage_mq, registerMessage_thrdmsg,
      registerMessage_stop]
    · exact h.queue
    · exact h.owner
    · exact h.gone
  | unheard | notStarted => exact h
  | sent => exact ⟨fun _ => Option.some_ne_none _, h.owner, h.gone⟩
  | started hs ht => simp [Started.mk, hs]
  | stopping hs ht => exact ⟨h.queue, fun _ => by simp [ht], fun hr => by cases hr⟩
  | neverStarted hs ht =>
    refine ⟨fun hn => absurd ht hn, ?_, fun _ => ht⟩
    rintro (hj | hj)
    all_goals cases hs.symm.trans hj
  | quit hs hb hlt =>
    exact ⟨fun _ => Option.some_ne_none _, fun _ => h.owner (.inl hs), fun hr => by cases hr⟩
  | quitUnheard hs hb => exact ⟨h.queue, fun _ => h.owner (.inl hs), fun hr => by cases hr⟩
  | joined hs ht =>
    refine ⟨fun hn => absurd rfl hn, ?_, fun _ => rfl⟩
    rintro (hj | hj)
    all_goals cases hj
  | reset hs =>
    refine ⟨fun hn => absurd (h.gone hs) hn, ?_, fun hr => by cases hr⟩
    rintro (hj | hj)
    all_goals cases hj
  | received ht hb hx =>
    refine ⟨fun _ => Option.some_ne_none _, fun _ => Option.some_ne_none _, fun hr => ?_⟩
    exact absurd (h.gone hr) (by simp [ht])
  | dispatched ht | called ht | looped ht | left ht =>
    refine ⟨fun _ => h.queue (by simp [ht]), fun _ => Option.some_ne_none _, fun hr => ?_⟩
    exact absurd (h.gone hr) (by simp [ht])

theorem started_run {q : MessageQueue κ} {es : List (MqEvent κ)}
    (hrun : Lts.run step init es = some q) : Started q :=
  Lts.run_invariant (fun _ _ _ h hstep => h.step hstep)
    ⟨fun h => absurd rfl h, fun h => by simp [init] at h, fun _ => rfl⟩ hrun

/-- When the quit gets in, the urgent messages are before it, and nothing else is. -/
theorem quitting_of_send {q q₁ : MessageQueue κ} (hq : Started q) (hs : q.stop = .send)
    (h₁ : q.step .stop = some q₁) :
    Quitting q₁ ∧
      owed q₁ <+: (q.box.entries.takeWhile fun x => 10 ≤ x.1) ++ [(10, ⟨msgQuit, 0, 0⟩)] := by
  cases step_cases h₁ with
  | unheard he => cases he
  | sent he => cases he
  | stopping hi => cases hs.symm.trans hi
  | neverStarted hi => cases hs.symm.trans hi
  | quitUnheard _ hb => exact absurd hb (hq.queue (hq.owner (.inl hs)))
  | joined hj => cases hs.symm.trans hj
  | reset hr => cases hs.symm.trans hr
  | quit _ hb hlt =>
    refine ⟨⟨.inl rfl, fun _ => ?_⟩, ?_⟩
    · exact ⟨(10, ⟨msgQuit, 0, 0⟩), Mailbox.mem_place.mpr (.inl rfl), rfl, Nat.le_refl 10⟩
    · rw [owed]
      split
      · rw [box_of_some hb, box_of_some rfl, Mailbox.entries_send, Mailbox.place_eq]
        exact untilQuit_append _ _ rfl
      · exact List.nil_prefix

/-- Along a run in which `Stop` has not returned, what is received is what was owed. -/
theorem owed_run {q₁ q₂ : MessageQueue κ} {fs : List (MqEvent κ)} (h : Quitting q₁)
    (hall : Lts.Always step (fun q => q.stop ≠ .idle) q₁ fs)
    (hrun : Lts.run step q₁ fs = some q₂) :
    receipts (trace q₁ fs) ++ owed q₂ = owed q₁ := by
  induction fs generalizing q₁ with
  | nil =>
    obtain rfl : q₁ = q₂ := by simpa using hrun
    rfl
  | cons e fs ih =>
    obtain ⟨q, hstep, hrest⟩ := Lts.run_cons_inv hrun
    rw [Lts.always_cons hstep] at hall
    have hq : q.stop ≠ .idle := by
      cases fs with
      | nil => exact hall.2
      | cons => exact hall.2.1
    obtain ⟨hquitting, howed⟩ := h.step hstep hq
    rw [howed, ← ih hquitting hall.2 hrest]
    simp [trace, Lts.outputs, hstep]

/-- **Stop lets nothing else through.**  From the moment the quit of `Stop` is in the
queue until `Stop` returns, the thread receives at most the urgent messages that
waited before it and the quit, in this order; no posted message is received. -/
theorem receipts_of_stop {es fs : List (MqEvent κ)} {q q₁ q₂ : MessageQueue κ}
    (hrun : Lts.run step init es = some q) (hs : q.stop = .send)
    (h₁ : q.step .stop = some q₁)
    (hall : Lts.Always step (fun q => q.stop ≠ .idle) q₁ fs)
    (h₂ : Lts.run step q₁ fs = some q₂) :
    receipts (trace q₁ fs) <+:
      (q.box.entries.takeWhile fun x => 10 ≤ x.1) ++ [(10, ⟨msgQuit, 0, 0⟩)] := by
  obtain ⟨hquitting, hprefix⟩ := quitting_of_send (started_run hrun) hs h₁
  rw [← owed_run hquitting hall h₂] at hprefix
  exact List.IsPrefix.trans ⟨owed q₂, rfl⟩ hprefix

/-- A message is posted, another is urgent, and `Stop` is called. -/
def stopping : List (MqEvent Unit) :=
  [.registerMessage 200 (), .start true, .postMessage 200 1 0, .sendMessage 201 2 0, .stop]

/-- The thread runs until it has ended; `Stop` has not returned. -/
def drained : List (MqEvent Unit) := List.replicate 6 .thread

theorem receipts_stopping : ∃ q q₁ q₂ : MessageQueue Unit,
    Lts.run step init stopping = some q ∧ q.step .stop = some q₁ ∧
    Lts.run step q₁ drained = some q₂ ∧
    receipts (trace q₁ drained) <+:
      (q.box.entries.takeWhile fun x => 10 ≤ x.1) ++ [(10, ⟨msgQuit, 0, 0⟩)] ∧
    receipts (trace q₁ drained) = [(10, ⟨201, 2, 0⟩), (10, ⟨msgQuit, 0, 0⟩)] := by
  have hrun : Lts.run step init stopping = some _ := rfl
  exact ⟨_, _, _, hrun, rfl, rfl, receipts_of_stop hrun rfl rfl (by decide) rfl, by decide⟩

/-! ### Stop comes to an end -/

/-- The `MSG_QUIT` in the queue and the one that the thread has received. -/
def quits (q : MessageQueue κ) : ℕ :=
  (q.box.entries.countP fun x => x.2.id = msgQuit) +
    match q.thrdmsg with
    | some (.dispatch m) | some (.call m _) => if m.id = msgQuit then 1 else 0
    | some .ended => 1
    | some .receive | none => 0

/-- Only `Stop` sends `MSG_QUIT`. -/
def Sole (q : MessageQueue κ) : Prop := q.quits = if q.stop = .join then 1 else 0

/-- The event is not a send of `MSG_QUIT` by another than `Stop`. -/
def NoQuit (e : MqEvent κ) : Prop := ∀ x, e.message? = some x → x.2.id ≠ msgQuit

theorem Sole.step {q q' : MessageQueue κ} {e : MqEvent κ} (h : Sole q) (hq : Started q)
    (he : NoQuit e) (hstep : q.step e = some q') : Sole q' := by
  unfold Sole quits at h ⊢
  cases step_cases hstep with
  | register =>
    rw [registerMessage_stop, registerMessage_thrdmsg, box, registerMessage_mq, ← box]
    exact h
  | unheard | notStarted => exact h
  | @sent _ x b hx hb hlt =>
    have hne : x.2.id ≠ msgQuit := he x hx
    have hcount : ((b.send x.1 x.2).entries.countP fun x => x.2.id = msgQuit) =
        b.entries.countP fun x => x.2.id = msgQuit := by
      rw [Mailbox.entries_send, (Mailbox.place_perm _ _).countP_eq]
      simp [hne]
    rw [box_of_some hb] at h
    rw [box_of_some rfl, hcount]
    exact h
  | started hs ht => simp [box, hs]
  | stopping hs ht => simpa [hs, box] using h
  | neverStarted hs ht => simp [box, hs, ht]
  | quit hs hb hlt =>
    have hcount : ∀ b : Mailbox MsgUnit,
        ((b.send 10 ⟨msgQuit, 0, 0⟩).entries.countP fun x => x.2.id = msgQuit) =
          (b.entries.countP fun x => x.2.id = msgQuit) + 1 := by
      intro b
      rw [Mailbox.entries_send, (Mailbox.place_perm _ _).countP_eq]
      simp
    rw [box_of_some hb, hs, if_neg (by decide)] at h
    rw [box_of_some rfl, hcount, if_pos rfl]
    simp only at h ⊢
    omega
  | quitUnheard hs hb => exact absurd hb (hq.queue (hq.owner (.inl hs)))
  | joined hs ht =>
    rw [ht, hs, if_pos rfl] at h
    simp only [box] at h ⊢
    simp only [reduceCtorEq, if_false]
    omega
  | reset hs => simp [box, hq.gone hs]
  | @received b b' x ht hb hx =>
    rw [box_of_some hb, ht, Mailbox.receive_eq_some.mp hx, List.countP_cons] at h
    rw [box_of_some rfl]
    simpa using h
  | dispatched ht | called ht => simpa [ht, box] using h
  | looped ht hm | left ht hm => simpa [ht, hm, box] using h

/-- Steps left to receive `x` and call the functions for it. -/
def weight (q : MessageQueue κ) (x : ℕ × MsgUnit) : ℕ := (q.slots x.2.id).length + 3

/-- Steps left for the messages that wait. -/
def load (q : MessageQueue κ) : ℕ := (q.box.entries.map q.weight).sum

/-- Steps left for the message at hand. -/
def threadLeft (q : MessageQueue κ) : ℕ :=
  match q.thrdmsg with
  | some (.dispatch m) => (q.slots m.id).length + 2
  | some (.call _ slots) => slots.length + 1
  | _ => 0

/-- Steps left for `Stop`, and for the quit that it sends. -/
def stopLeft : StopPc → ℕ
  | .idle => 0
  | .reset => 1
  | .join => 2
  | .send => 6

/-- A bound on the steps of the thread and of `Stop` until `Stop` has returned. -/
def remaining (q : MessageQueue κ) : ℕ := q.load + q.threadLeft + stopLeft q.stop

/-- The load is that of the queue, whoever reads it. -/
theorem load_eq {q q' : MessageQueue κ} {b : Mailbox MsgUnit} (hf : q'.funcs = q.funcs)
    (hb : q'.mq = some b) : q'.load = (b.entries.map q.weight).sum := by
  have hweight : q'.weight = q.weight := by
    funext x
    simp only [weight, slots, hf]
  rw [load, box_of_some hb, hweight]

theorem load_receive {q : MessageQueue κ} {b b' : Mailbox MsgUnit} {x : ℕ × MsgUnit}
    (hb : q.mq = some b) (hx : b.receive = some (x, b')) :
    q.load = q.weight x + (b'.entries.map q.weight).sum := by
  rw [load_eq rfl hb, Mailbox.receive_eq_some.mp hx, List.map_cons, List.sum_cons]

theorem load_send {q q' : MessageQueue κ} {b : Mailbox MsgUnit} {x : ℕ × MsgUnit}
    (hb : q.mq = some b) (hf : q'.funcs = q.funcs) (hb' : q'.mq = some (b.send x.1 x.2)) :
    q'.load = q.weight x + q.load := by
  rw [load_eq hf hb', load_eq rfl hb, Mailbox.entries_send,
    ((Mailbox.place_perm _ _).map _).sum_nat, List.map_cons, List.sum_cons]

/-- `Stop` has returned: no thread, no queue. -/
def Stopped (q : MessageQueue κ) : Prop := q.stop = .idle ∧ q.thrdmsg = none ∧ q.mq = none

/-- A thread that has something to receive or to call makes a step. -/
theorem exists_thread {q : MessageQueue κ} {t : MqThread κ} (hq : Started q)
    (ht : q.thrdmsg = some t) (hend : t ≠ .ended) (hempty : t = .receive → q.box.entries ≠ []) :
    ∃ q', q.step .thread = some q' ∧ q'.stop = q.stop ∧ q'.remaining < q.remaining := by
  cases t with
  | ended => exact absurd rfl hend
  | receive =>
    obtain ⟨b, hb⟩ := Option.ne_none_iff_exists'.mp (hq.queue (by simp [ht]))
    rw [box_of_some hb] at hempty
    obtain ⟨⟨x, b'⟩, hx⟩ := Option.ne_none_iff_exists'.mp
      (mt Mailbox.receive_eq_none.mp (hempty rfl))
    refine ⟨{ q with mq := some b', thrdmsg := some (.dispatch x.2) }, ?_, rfl, ?_⟩
    · simp only [step, threadMessage, ht, hb, hx, Option.map_some]
    · -- the functions of the message are counted by the thread now
      have hload : ({ q with mq := some b', thrdmsg := some (.dispatch x.2) } :
          MessageQueue κ).load = (b'.entries.map q.weight).sum := load_eq rfl rfl
      have hleft : ({ q with mq := some b', thrdmsg := some (.dispatch x.2) } :
          MessageQueue κ).threadLeft = (q.slots x.2.id).length + 2 := rfl
      rw [remaining, remaining, load_receive hb hx, hload, hleft, weight]
      simp only [threadLeft, ht]
      omega
  | dispatch m =>
    refine ⟨{ q with thrdmsg := some (.call m (q.slots m.id)) }, ?_, rfl, ?_⟩
    · simp only [step, threadMessage, ht]
    · simp only [remaining, threadLeft, ht]
      exact Nat.add_lt_add_right (Nat.lt_succ_self _) _
  | call m ks =>
    cases ks with
    | nil =>
      refine ⟨{ q with thrdmsg := some (if m.id = msgQuit then .ended else .receive) }, ?_, rfl, ?_⟩
      · simp only [step, threadMessage, ht]
      · have hleft : ({ q with thrdmsg := some (if m.id = msgQuit then .ended else .receive) } :
            MessageQueue κ).threadLeft = 0 := by
          split <;> rfl
        rw [remaining, remaining, hleft]
        simp only [threadLeft, ht]
        exact Nat.add_lt_add_right (Nat.lt_succ_self _) _
    | cons k ks =>
      refine ⟨{ q with thrdmsg := some (.call m ks) }, ?_, rfl, ?_⟩
      · simp only [step, threadMessage, ht]
      · simp only [remaining, ht, threadLeft, List.length_cons]
        exact Nat.add_lt_add_right (Nat.lt_succ_self _) _

/-- A thread that has ended has received a `MSG_QUIT`. -/
theorem quits_pos {q : MessageQueue κ} (ht : q.thrdmsg = some .ended) : 0 < q.quits := by
  rw [quits, ht]
  exact Nat.succ_pos _

/-- `Stop` can go on, or the thread can. -/
theorem exists_step {q : MessageQueue κ} (hq : Started q) (hsole : Sole q)
    (hs : q.stop ≠ .idle) :
    ∃ e q', (e = .stop ∨ e = .thread) ∧ q.step e = some q' ∧
      (q'.stop ≠ .idle ∨ Stopped q') ∧ q'.remaining < q.remaining := by
  have hthread : ∀ t, q.thrdmsg = some t → t ≠ .ended →
      (t = .receive → q.box.entries ≠ []) →
      ∃ e q', (e = .stop ∨ e = .thread) ∧ q.step e = some q' ∧
        (q'.stop ≠ .idle ∨ Stopped q') ∧ q'.remaining < q.remaining := by
    intro t ht hend hempty
    obtain ⟨q', hstep, hstop, hlt⟩ := exists_thread hq ht hend hempty
    exact ⟨.thread, q', .inr rfl, hstep, .inl (hstop ▸ hs), hlt⟩
  rcases hstop : q.stop with - | - | - | -
  case idle => exact absurd hstop hs
  case send =>
    obtain ⟨t, ht⟩ := Option.ne_none_iff_exists'.mp (hq.owner (.inl hstop))
    obtain ⟨b, hb⟩ := Option.ne_none_iff_exists'.mp (hq.queue (by simp [ht]))
    by_cases hlt : b.entries.length < capacity
    · refine ⟨.stop, { q with mq := some (b.send 10 ⟨msgQuit, 0, 0⟩), stop := .join },
        .inl rfl, ?_, .inl (by simp), ?_⟩
      · simp only [step, stopStep, hstop, put, hb, if_pos hlt, Option.map_some]
      · have hload : ({ q with mq := some (b.send 10 ⟨msgQuit, 0, 0⟩), stop := .join } :
            MessageQueue κ).load = q.weight (10, ⟨msgQuit, 0, 0⟩) + q.load :=
          load_send (x := (10, ⟨msgQuit, 0, 0⟩)) hb rfl rfl
        have hweight : q.weight (10, ⟨msgQuit, 0, 0⟩) = 3 := rfl
        have hleft : ({ q with mq := some (b.send 10 ⟨msgQuit, 0, 0⟩), stop := .join } :
            MessageQueue κ).threadLeft = q.threadLeft := rfl
        rw [remaining, remaining, hload, hweight, hleft, hstop]
        simp only [stopLeft]
        omega
    · -- the queue is full, so there is something to receive
      refine hthread t ht ?_ fun _ hnil => ?_
      · rintro rfl
        have hpos := quits_pos ht
        rw [Sole, hstop, if_neg (by decide)] at hsole
        omega
      · rw [box_of_some hb] at hnil
        rw [hnil] at hlt
        exact hlt (by decide)
  case join =>
    obtain ⟨t, ht⟩ := Option.ne_none_iff_exists'.mp (hq.owner (.inr hstop))
    by_cases hend : t = .ended
    · subst hend
      refine ⟨.stop, { q with thrdmsg := none, stop := .reset }, .inl rfl, ?_, .inl (by simp), ?_⟩
      · simp only [step, stopStep, hstop, ht]
      · simp only [remaining, hstop, ht, threadLeft, stopLeft]
        exact Nat.lt_succ_self _
    · -- the quit waits in the queue if the thread has not received it
      refine hthread t ht hend ?_
      rintro rfl hnil
      rw [Sole, quits, hnil, ht, hstop] at hsole
      simp at hsole
  case reset =>
    refine ⟨.stop, { q with mq := none, stop := .idle }, .inl rfl, ?_,
      .inr ⟨rfl, hq.gone hstop, rfl⟩, ?_⟩
    · simp only [step, stopStep, hstop]
    · have hload : ({ q with mq := none, stop := .idle } : MessageQueue κ).load = 0 := rfl
      have hleft : ({ q with mq := none, stop := .idle } : MessageQueue κ).threadLeft =
          q.threadLeft := rfl
      rw [remaining, remaining, hload, hleft, hstop]
      simp only [stopLeft]
      omega

/-- **Stop returns.**  From any state in which `Stop` is under way, whatever waits in
the queue and however full it is, the steps of `Stop` and of the thread lead to its
end, provided that nobody else has sent `MSG_QUIT`. -/
theorem exists_stop {es : List (MqEvent κ)} {q : MessageQueue κ}
    (hes : ∀ e ∈ es, NoQuit e) (hrun : Lts.run step init es = some q) (hs : q.stop ≠ .idle) :
    ∃ fs q', Lts.RunAll step (fun _ e => e = .stop ∨ e = .thread) q fs ∧
      Lts.run step q fs = some q' ∧ Stopped q' := by
  have hstarted := started_run hrun
  have hall : Lts.RunAll step (fun _ e => NoQuit e) init es := Lts.runAll_of_mem init hes
  have hsole : Sole q := by
    have hinv : Started q ∧ Sole q := Lts.run_invariant_of (I := fun q => Started q ∧ Sole q)
      (fun _ _ _ h he hstep => ⟨h.1.step hstep, h.2.step h.1 he hstep⟩)
      ⟨@started_run κ init [] rfl, rfl⟩ hall hrun
    exact hinv.2
  have hprogress : ∀ q : MessageQueue κ, (Started q ∧ Sole q ∧ (q.stop ≠ .idle ∨ Stopped q)) →
      ¬ Stopped q → ∃ e q', (e = .stop ∨ e = .thread) ∧ q.step e = some q' ∧
        (Started q' ∧ Sole q' ∧ (q'.stop ≠ .idle ∨ Stopped q')) ∧ q'.remaining < q.remaining := by
    rintro q ⟨hq, hsole, hs | hp⟩ hn
    · obtain ⟨e, q', he, hstep, hs', hlt⟩ := exists_step hq hsole hs
      refine ⟨e, q', he, hstep, ⟨hq.step hstep, hsole.step hq ?_ hstep, hs'⟩, hlt⟩
      intro x hx
      rcases he with rfl | rfl
      all_goals cases hx
    · exact absurd hp hn
  obtain ⟨fs, q', hall, hfs, -, hstopped⟩ :=
    Lts.exists_run_of_rank remaining hprogress ⟨hstarted, hsole, .inl hs⟩
  exact ⟨fs, q', hall, hfs, hstopped⟩

theorem exists_stop_stopping : ∃ q : MessageQueue Unit, Lts.run step init stopping = some q ∧
    ∃ fs q', Lts.RunAll step (fun _ e => e = .stop ∨ e = .thread) q fs ∧
      Lts.run step q fs = some q' ∧ Stopped q' := by
  have hrun : Lts.run step init stopping = some _ := rfl
  refine ⟨_, hrun, exists_stop ?_ hrun (by decide)⟩
  intro e he x hx
  simp only [stopping, List.mem_cons, List.not_mem_nil, or_false] at he
  rcases he with rfl | rfl | rfl | rfl | rfl <;>
    simp only [MqEvent.message?, Option.some.injEq, reduceCtorEq] at hx <;> subst hx <;> decide

end MessageQueue

end FtServer
