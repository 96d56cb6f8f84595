/-
FtServer/MessageDelivery.lean

What becomes of the messages of a `MessageQueue`, over all its runs: any number
of starts and stops, with sends from any thread at any time.

`observe` is the trace of a run: which functions were registered, what was sent,
what became of it, and which functions were looked up and called.

* `lanes_of_run`: every message sent is received, discarded with the queue or
  still waiting, once and in the order of its priority, and a message is
  received only when no more urgent one waits;
* `calls_of_run`: for the messages received, in order, each function is called once that
  was registered for the message when its calls began.
-/
import FtServer.MessageQueue

namespace FtServer

/-- Entries of the trace. -/
inductive MqObs (κ : Type)
  | registered (id : Int64) (slot : κ)
  | sent (x : ℕ × MsgUnit)
  | received (x : ℕ × MsgUnit)
  /-- its calls begin: the functions looked up are `slots` -/
  | dispatched (m : MsgUnit) (slots : List κ)
  /-- was in the queue when it was destroyed -/
  | discarded (x : ℕ × MsgUnit)
  | called (slot : κ) (p1 p2 : Int64)

namespace MessageQueue

variable {κ : Type}

/-! ### The trace -/

/-- The messages that wait; none if there is no queue. -/
def box (q : MessageQueue κ) : Mailbox MsgUnit := q.mq.getD .empty

/-- The calls still to be made for the message at hand. -/
def pending (q : MessageQueue κ) : List (κ × Int64 × Int64) :=
  match q.thrdmsg with
  | some (.call m slots) => slots.map fun k => (k, m.par1, m.par2)
  | _ => []

/-- The message that was received and whose calls have not begun. -/
def atHand (q : MessageQueue κ) : List MsgUnit :=
  match q.thrdmsg with
  | some (.dispatch m) => [m]
  | _ => []

/-- What a send leaves in the trace: nothing if there is no queue. -/
def observeSend (q : MessageQueue κ) (x : ℕ × MsgUnit) : List (MqObs κ) :=
  if q.mq.isSome then [.sent x] else []

/-- What the end of the queue leaves in the trace. -/
def observeEnd (q : MessageQueue κ) : List (MqObs κ) := q.box.entries.map .discarded

/-- What a step adds to the trace. -/
def observe (q : MessageQueue κ) (e : MqEvent κ) : List (MqObs κ) :=
  match e with
  | .registerMessage id slot => if (q.registerMessage id slot).1 then [.registered id slot] else []
  | .postMessage id p1 p2 => q.observeSend (1, ⟨id, p1, p2⟩)
  | .sendMessage id p1 p2 => q.observeSend (10, ⟨id, p1, p2⟩)
  | .start created => if created = true ∧ q.thrdmsg.isNone then q.observeEnd else []
  | .stop =>
    match q.stop with
    | .idle => if q.thrdmsg.isNone then q.observeEnd else []
    | .send => q.observeSend (10, ⟨msgQuit, 0, 0⟩)
    | .join => []
    | .reset => q.observeEnd
  | .thread =>
    match q.thrdmsg with
    | some .receive =>
      match q.box.entries with
      | x :: _ => [.received x]
      | [] => []
    | some (.dispatch m) => [.dispatched m (q.slots m.id)]
    | some (.call m (k :: _)) => [.called k m.par1 m.par2]
    | _ => []

/-- The trace of a run. -/
def trace (q : MessageQueue κ) (es : List (MqEvent κ)) : List (MqObs κ) :=
  Lts.outputs step observe q es

/-- The messages sent. -/
def sent (t : List (MqObs κ)) : List (ℕ × MsgUnit) :=
  t.filterMap fun
    | .sent x => some x
    | _ => none

/-- The messages that left the queue. -/
def disposed (t : List (MqObs κ)) : List (ℕ × MsgUnit) :=
  t.filterMap fun
    | .received x => some x
    | .discarded x => some x
    | _ => none

def receipt? : MqObs κ → Option (ℕ × MsgUnit)
  | .received x => some x
  | _ => none

def dispatch? : MqObs κ → Option (MsgUnit × List κ)
  | .dispatched m slots => some (m, slots)
  | _ => none

/-- The messages received. -/
def receipts (t : List (MqObs κ)) : List (ℕ × MsgUnit) := t.filterMap receipt?

/-- The messages whose calls have begun, with the functions looked up. -/
def dispatches (t : List (MqObs κ)) : List (MsgUnit × List κ) := t.filterMap dispatch?

/-- The calls made. -/
def calls (t : List (MqObs κ)) : List (κ × Int64 × Int64) :=
  t.filterMap fun
    | .called slot p1 p2 => some (slot, p1, p2)
    | _ => none

/-- The functions registered for `id`. -/
def registeredFor (id : Int64) (t : List (MqObs κ)) : List κ :=
  t.filterMap fun
    | .registered id' slot => if id' = id then some slot else none
    | _ => none

section append

variable (t u : List (MqObs κ))

@[simp] theorem sent_append : sent (t ++ u) = sent t ++ sent u := List.filterMap_append

@[simp] theorem disposed_append : disposed (t ++ u) = disposed t ++ disposed u :=
  List.filterMap_append

@[simp] theorem receipts_append : receipts (t ++ u) = receipts t ++ receipts u :=
  List.filterMap_append

@[simp] theorem dispatches_append : dispatches (t ++ u) = dispatches t ++ dispatches u :=
  List.filterMap_append

@[simp] theorem calls_append : calls (t ++ u) = calls t ++ calls u := List.filterMap_append

@[simp] theorem registeredFor_append (id : Int64) :
    registeredFor id (t ++ u) = registeredFor id t ++ registeredFor id u :=
  List.filterMap_append

end append

@[simp] theorem receipts_nil : receipts ([] : List (MqObs κ)) = [] := rfl

@[simp] theorem receipts_singleton (o : MqObs κ) : receipts [o] = (receipt? o).toList := by
  cases o <;> rfl

@[simp] theorem dispatches_nil : dispatches ([] : List (MqObs κ)) = [] := rfl

@[simp] theorem dispatches_singleton (o : MqObs κ) : dispatches [o] = (dispatch? o).toList := by
  cases o <;> rfl

@[simp] theorem sent_end (q : MessageQueue κ) : sent q.observeEnd = [] := by
  simp [sent, observeEnd]

@[simp] theorem disposed_end (q : MessageQueue κ) : disposed q.observeEnd = q.box.entries := by
  simp [disposed, observeEnd, List.filterMap_map]

@[simp] theorem receipts_end (q : MessageQueue κ) : receipts q.observeEnd = [] := by
  simp [receipts, receipt?, observeEnd]

@[simp] theorem dispatches_end (q : MessageQueue κ) : dispatches q.observeEnd = [] := by
  simp [dispatches, dispatch?, observeEnd]

@[simp] theorem calls_end (q : MessageQueue κ) : calls q.observeEnd = [] := by
  simp [calls, observeEnd]

@[simp] theorem registeredFor_end (q : MessageQueue κ) (id : Int64) :
    registeredFor id q.observeEnd = [] := by
  simp [registeredFor, observeEnd]

theorem box_of_some {q : MessageQueue κ} {b : Mailbox MsgUnit} (h : q.mq = some b) :
    q.box = b := by
  rw [box, h, Option.getD_some]

/-- What the steps of the service do to the messages and the functions, with what
they add to the trace. -/
inductive Visible (q : MessageQueue κ) : List (MqObs κ) → MessageQueue κ → Prop
  | quiet {q'} (hb : q'.box = q.box) (hp : q'.pending = q.pending) (ha : q'.atHand = q.atHand)
      (hf : q'.funcs = q.funcs) : Visible q [] q'
  | register {id slot} :
      Visible q (if (q.registerMessage id slot).1 then [.registered id slot] else [])
        (q.registerMessage id slot).2
  | send {x q'} (hb : q'.box = q.box.send x.1 x.2) (hp : q'.pending = q.pending)
      (ha : q'.atHand = q.atHand) (hf : q'.funcs = q.funcs) : Visible q [.sent x] q'
  | finish {q'} (hb : q'.box = .empty) (hp : q'.pending = q.pending)
      (ha : q'.atHand = q.atHand) (hf : q'.funcs = q.funcs) : Visible q q.observeEnd q'
  | receive {b x} (ht : q.thrdmsg = some .receive) (hx : q.box.receive = some (x, b)) :
      Visible q [.received x] { q with mq := some b, thrdmsg := some (.dispatch x.2) }
  | dispatch {m} (ht : q.thrdmsg = some (.dispatch m)) :
      Visible q [.dispatched m (q.slots m.id)]
        { q with thrdmsg := some (.call m (q.slots m.id)) }
  | call {m k ks} (ht : q.thrdmsg = some (.call m (k :: ks))) :
      Visible q [.called k m.par1 m.par2] { q with thrdmsg := some (.call m ks) }

theorem observe_message {q : MessageQueue κ} {e : MqEvent κ} {x : ℕ × MsgUnit}
    (he : e.message? = some x) : q.observe e = q.observeSend x := by
  cases e <;> simp only [MqEvent.message?, Option.some.injEq, reduceCtorEq] at he <;>
    rw [← he] <;> rfl

theorem observeSend_some {q : MessageQueue κ} {b : Mailbox MsgUnit} (h : q.mq = some b)
    (x : ℕ × MsgUnit) : q.observeSend x = [.sent x] := by
  rw [observeSend, h, Option.isSome_some, if_pos rfl]

theorem observeSend_none {q : MessageQueue κ} (h : q.mq = none) (x : ℕ × MsgUnit) :
    q.observeSend x = [] := by
  rw [observeSend, h, Option.isSome_none, if_neg Bool.false_ne_true]

theorem step_visible {q q' : MessageQueue κ} {e : MqEvent κ} (hstep : q.step e = some q') :
    Visible q (q.observe e) q' := by
  cases step_cases hstep with
  | register => exact .register
  | unheard he hb =>
    rw [observe_message he, observeSend_none hb]
    exact .quiet rfl rfl rfl rfl
  | sent he hb hlt =>
    rw [observe_message he, observeSend_some hb]
    exact .send (by rw [box_of_some hb, box_of_some rfl]) rfl rfl rfl
  | started hs ht =>
    simp only [observe, ht, Option.isNone_none, and_self, if_true]
    exact .finish rfl (by simp [pending, ht]) (by simp [atHand, ht]) rfl
  | notStarted hc =>
    rename_i created
    have hnone : ¬ (created = true ∧ q.thrdmsg.isNone) := by
      rintro ⟨h₁, h₂⟩
      exact hc h₁ (Option.isNone_iff_eq_none.mp h₂)
    simp only [observe, if_neg hnone]
    exact .quiet rfl rfl rfl rfl
  | stopping hs ht =>
    simp only [observe, hs, ht, Option.isNone_some, Bool.false_eq_true, if_false]
    exact .quiet rfl (by simp [pending, ht]) (by simp [atHand, ht]) rfl
  | neverStarted hs ht =>
    simp only [observe, hs, ht, Option.isNone_none, if_true]
    exact .finish rfl (by simp [pending, ht]) (by simp [atHand, ht]) rfl
  | quit hs hb hlt =>
    simp only [observe, hs, observeSend_some hb]
    exact .send (by rw [box_of_some hb, box_of_some rfl]) rfl rfl rfl
  | quitUnheard hs hb =>
    simp only [observe, hs, observeSend_none hb]
    exact .quiet rfl rfl rfl rfl
  | joined hs ht =>
    simp only [observe, hs]
    exact .quiet rfl (by simp [pending, ht]) (by simp [atHand, ht]) rfl
  | reset hs =>
    simp only [observe, hs]
    exact .finish rfl rfl rfl rfl
  | received ht hb hx =>
    simp only [observe, ht, box_of_some hb, Mailbox.receive_eq_some.mp hx]
    exact .receive ht (by rw [box_of_some hb, hx])
  | dispatched ht =>
    simp only [observe, ht]
    exact .dispatch ht
  | called ht =>
    simp only [observe, ht]
    exact .call ht
  | looped ht hm | left ht hm =>
    simp only [observe, ht]
    exact .quiet rfl (by simp [pending, ht]) (by simp [atHand, ht]) rfl

/-! ### Entries of one kind -/

section Entries

variable {α : Type} {sel : MqObs κ → Option α} {P : List (MqObs κ) → α → Prop}
  {t u : List (MqObs κ)}

/-- At every entry that `sel` picks, `P` of the trace before it and what is picked. -/
def AtEntries (sel : MqObs κ → Option α) (P : List (MqObs κ) → α → Prop) (t : List (MqObs κ)) :
    Prop :=
  ∀ t₁ o t₂, t = t₁ ++ o :: t₂ → ∀ a ∈ sel o, P t₁ a

theorem AtEntries.nil : AtEntries sel P [] := by
  intro t₁ o t₂ h
  simp at h

theorem AtEntries.append (h : AtEntries sel P t)
    (hu : ∀ u₁ o u₂, u = u₁ ++ o :: u₂ → ∀ a ∈ sel o, P (t ++ u₁) a) :
    AtEntries sel P (t ++ u) := by
  intro t₁ o t₂ heq
  rcases List.append_eq_append_iff.mp heq with ⟨u₁, rfl, hu₁⟩ | ⟨t₃, ht, ht₃⟩
  · exact hu u₁ o t₂ hu₁
  · rcases t₃ with - | ⟨o', t₃⟩
    · -- the entry is the first one of `u`
      obtain rfl : t = t₁ := by simpa using ht
      have hP := hu [] o t₂ (by simpa using ht₃.symm)
      rwa [List.append_nil] at hP
    · obtain ⟨rfl, -⟩ : o' = o ∧ t₂ = t₃ ++ u := by simpa [eq_comm] using ht₃
      exact h t₁ o' t₃ ht

/-- Where nothing is picked nothing is to be shown. -/
theorem AtEntries.append_of_nil (h : AtEntries sel P t) (hu : u.filterMap sel = []) :
    AtEntries sel P (t ++ u) := by
  refine h.append ?_
  rintro u₁ o u₂ rfl a ha
  rw [List.filterMap_append, List.append_eq_nil_iff, List.filterMap_cons_some ha] at hu
  exact absurd hu.2 (List.cons_ne_nil _ _)

theorem AtEntries.concat (h : AtEntries sel P t) {o : MqObs κ} (ho : ∀ a ∈ sel o, P t a) :
    AtEntries sel P (t ++ [o]) := by
  refine h.append fun u₁ o' u₂ hu => ?_
  rcases u₁ with - | ⟨o'', u₁⟩
  · obtain ⟨rfl, -⟩ := List.cons.inj hu
    rw [List.append_nil]
    exact ho
  · have hlen := congrArg List.length hu
    simp at hlen

end Entries

/-- What holds at the receipt of a step holds at all receipts of the trace. -/
theorem AtEntries.receipt {P : List (MqObs κ) → ℕ × MsgUnit → Prop} {q q' : MessageQueue κ}
    {t u : List (MqObs κ)} (h : AtEntries receipt? P t) (hv : Visible q u q')
    (hP : ∀ b x, q.box.receive = some (x, b) → P t x) : AtEntries receipt? P (t ++ u) := by
  cases hv with
  | receive ht hx => exact h.concat fun a ha => Option.some.inj ha ▸ hP _ _ hx
  | register =>
    refine h.append_of_nil ?_
    split <;> rfl
  | finish => exact h.append_of_nil (receipts_end q)
  | quiet | send | dispatch | call => exact h.append_of_nil rfl

/-- What holds when the calls for a message begin. -/
theorem AtEntries.dispatch {P : List (MqObs κ) → MsgUnit × List κ → Prop} {q q' : MessageQueue κ}
    {t u : List (MqObs κ)} (h : AtEntries dispatch? P t) (hv : Visible q u q')
    (hP : ∀ m, P t (m, q.slots m.id)) : AtEntries dispatch? P (t ++ u) := by
  cases hv with
  | dispatch ht => exact h.concat fun a ha => Option.some.inj ha ▸ hP _
  | register =>
    refine h.append_of_nil ?_
    split <;> rfl
  | finish => exact h.append_of_nil (dispatches_end q)
  | quiet | send | receive | call => exact h.append_of_nil rfl

/-! ### Every message once, in order -/

/-- The messages in the queue are those sent and not yet out of it. -/
def Served (q : MessageQueue κ) (t : List (MqObs κ)) : Prop :=
  Mailbox.Serves (sent t) (disposed t) q.box

/-- No more urgent message waits than the one received. -/
def MostUrgent (t : List (MqObs κ)) (x : ℕ × MsgUnit) : Prop :=
  ∀ p, x.1 < p → Mailbox.lane p (sent t) = Mailbox.lane p (disposed t)

theorem Served.step {q q' : MessageQueue κ} {t u : List (MqObs κ)} (h : Served q t)
    (hv : Visible q u q') : Served q' (t ++ u) := by
  unfold Served at h ⊢
  rw [sent_append, disposed_append]
  cases hv with
  | quiet hb => simpa [hb, sent, disposed] using h
  | @register id slot =>
    have hnone : ∀ (p : Prop) [Decidable p],
        sent (if p then [MqObs.registered id slot] else []) = [] ∧
          disposed (if p then [MqObs.registered id slot] else []) = [] := by
      intro p hp
      split <;> exact ⟨rfl, rfl⟩
    rw [(hnone _).1, (hnone _).2, List.append_nil, List.append_nil, box, registerMessage_mq]
    exact h
  | @send x _ hb => simpa [hb, sent, disposed] using Mailbox.Serves.send h x.1 x.2
  | finish hb =>
    rw [hb, sent_end, List.append_nil, disposed_end]
    exact Mailbox.Serves.discard h
  | receive ht hx => simpa [box, sent, disposed] using Mailbox.Serves.receive h hx
  | dispatch ht | call ht => simpa [box, sent, disposed] using h

/-- **Delivery.**  In every run, with any sends, starts and stops, each message
sent has left the queue or waits in it, once and in the order of its priority;
and whenever a message was received, all more urgent ones had left the queue. -/
theorem lanes_of_run {es : List (MqEvent κ)} {q : MessageQueue κ}
    (hrun : Lts.run step init es = some q) :
    (∀ p, Mailbox.lane p (sent (trace init es)) =
      Mailbox.lane p (disposed (trace init es)) ++ Mailbox.lane p q.box.entries) ∧
    AtEntries receipt? MostUrgent (trace init es) := by
  have hinv : Served q ([] ++ trace init es) ∧
      AtEntries receipt? MostUrgent ([] ++ trace init es) := by
    refine Lts.run_outputs (J := fun q t => Served q t ∧ AtEntries receipt? MostUrgent t)
      ?_ ?_ hrun
    · rintro s t e s' ⟨hserved, hurgent⟩ hstep
      refine ⟨hserved.step (step_visible hstep), hurgent.receipt (step_visible hstep) ?_⟩
      intro b x hx p hp
      have hlane := hserved p
      rwa [(Mailbox.receive_lane hx).2 p hp, List.append_nil] at hlane
    · exact ⟨Mailbox.Serves.empty, AtEntries.nil⟩
  exact hinv

/-- A posted message, and an urgent one that is received before it.  For the posted one
a second function is registered after its receipt, before its calls begin. -/
def overtaking : List (MqEvent Unit) :=
  [.registerMessage 200 (), .start true, .postMessage 200 1 0, .sendMessage 201 2 0, .thread,
    .thread, .thread, .thread, .registerMessage 200 (), .thread, .thread]

theorem lanes_overtaking : ∃ q : MessageQueue Unit, Lts.run step init overtaking = some q ∧
    (∀ p, Mailbox.lane p (sent (trace init overtaking)) =
      Mailbox.lane p (disposed (trace init overtaking)) ++ Mailbox.lane p q.box.entries) ∧
    AtEntries receipt? MostUrgent (trace init overtaking) ∧
    disposed (trace init overtaking) = [(10, ⟨201, 2, 0⟩), (1, ⟨200, 1, 0⟩)] := by
  obtain ⟨q, hrun⟩ : ∃ q : MessageQueue Unit, Lts.run step init overtaking = some q := ⟨_, rfl⟩
  obtain ⟨hlanes, hurgent⟩ := lanes_of_run hrun
  exact ⟨q, hrun, hlanes, hurgent, by decide⟩

/-! ### Calls -/

/-- The calls that a message makes. -/
def callsFor (r : MsgUnit × List κ) : List (κ × Int64 × Int64) :=
  r.2.map fun k => (k, r.1.par1, r.1.par2)

/-- The calls made and still to be made are those of the messages dispatched, and these
are, but for the one at hand, the messages received. -/
structure Called (q : MessageQueue κ) (t : List (MqObs κ)) : Prop where
  calls : calls t ++ q.pending = (dispatches t).flatMap callsFor
  received : (receipts t).map Prod.snd = (dispatches t).map Prod.fst ++ q.atHand

/-- The functions in place are those registered. -/
def Registered (q : MessageQueue κ) (t : List (MqObs κ)) : Prop :=
  ∀ id, q.slots id = registeredFor id t

theorem Called.step {q q' : MessageQueue κ} {t u : List (MqObs κ)} (h : Called q t)
    (hv : Visible q u q') : Called q' (t ++ u) := by
  constructor
  · rw [calls_append, dispatches_append, List.flatMap_append, ← h.calls]
    cases hv with
    | quiet hb hp => simp [hp, MessageQueue.calls]
    | @register id slot =>
      rw [pending, registerMessage_thrdmsg, ← pending]
      split <;> simp [MessageQueue.calls, dispatch?]
    | send hb hp => simp [hp, MessageQueue.calls, dispatch?]
    | finish hb hp => simp [hp]
    | receive ht | call ht => simp [pending, ht, MessageQueue.calls, dispatch?]
    | dispatch ht => simp [pending, ht, MessageQueue.calls, dispatch?, callsFor]
  · rw [receipts_append, dispatches_append, List.map_append, List.map_append, h.received]
    cases hv with
    | quiet hb hp ha => simp [ha]
    | @register id slot =>
      have hhand : (q.registerMessage id slot).2.atHand = q.atHand := by
        rw [atHand, registerMessage_thrdmsg, ← atHand]
      rw [hhand]
      split <;> simp [receipt?, dispatch?]
    | send hb hp ha => simp [ha, receipt?, dispatch?]
    | finish hb hp ha => simp [ha]
    | receive ht | dispatch ht | call ht => simp [atHand, ht, receipt?, dispatch?]

theorem funcPos_some {id : Int64} {pos : Fin mqfuncSize} (h : funcPos id = some pos) :
    id.toInt = pos + msgUser := by
  unfold funcPos at h
  split at h
  · rename_i hid
    obtain rfl := Option.some.inj h
    simp only
    omega
  · cases h

/-- Two messages have their functions in one place only if they are the same. -/
theorem funcPos_inj {id id' : Int64} {pos : Fin mqfuncSize} (h : funcPos id = some pos)
    (h' : funcPos id' = some pos) : id = id' :=
  Int64.toInt_inj.mp ((funcPos_some h).trans (funcPos_some h').symm)

/-- `RegisterMessage` adds the function behind those for the same message. -/
theorem slots_registerMessage (q : MessageQueue κ) (id id' : Int64) (slot : κ) :
    (q.registerMessage id slot).2.slots id' =
      q.slots id' ++ if id = id' ∧ (q.registerMessage id slot).1 then [slot] else [] := by
  unfold registerMessage
  split
  · rename_i pos hpos
    by_cases hid : id = id'
    · subst hid
      simp [slots, hpos]
    · simp only [hid, false_and, if_false, List.append_nil, slots]
      split
      · rename_i pos' hpos'
        have hne : pos' ≠ pos := by
          rintro rfl
          exact hid (funcPos_inj hpos hpos')
        exact Function.update_of_ne hne ..
      · rfl
  · simp

theorem Registered.step {q q' : MessageQueue κ} {t u : List (MqObs κ)} (h : Registered q t)
    (hv : Visible q u q') : Registered q' (t ++ u) := by
  intro id
  rw [registeredFor_append, ← h id]
  cases hv with
  | quiet hb hp ha hf => simp [slots, hf, registeredFor]
  | @register id' slot =>
    rw [slots_registerMessage]
    by_cases hid : id' = id
    · subst hid
      split <;> simp_all [registeredFor]
    · split <;> simp_all [registeredFor]
  | send hb hp ha hf => simp [slots, hf, registeredFor]
  | finish hb hp ha hf => simp [slots, hf]
  | receive | dispatch | call => simp [slots, registeredFor]

/-- The functions looked up are those registered so far. -/
def LookedUp (t : List (MqObs κ)) (r : MsgUnit × List κ) : Prop := r.2 = registeredFor r.1.id t

/-- **Dispatch.**  In every run the calls made, with those still to be made for the
message at hand, are those for the messages received, in order: one call of each
function that was registered for the message when its calls began. -/
theorem calls_of_run {es : List (MqEvent κ)} {q : MessageQueue κ}
    (hrun : Lts.run step init es = some q) :
    Called q (trace init es) ∧ AtEntries dispatch? LookedUp (trace init es) := by
  have hinv : Called q ([] ++ trace init es) ∧ Registered q ([] ++ trace init es) ∧
      AtEntries dispatch? LookedUp ([] ++ trace init es) := by
    refine Lts.run_outputs (J := fun q t => Called q t ∧ Registered q t ∧
      AtEntries dispatch? LookedUp t) ?_ ?_ hrun
    · rintro s t e s' ⟨hcalled, hreg, hat⟩ hstep
      have hv := step_visible hstep
      exact ⟨hcalled.step hv, hreg.step hv, hat.dispatch hv fun m => hreg m.id⟩
    · refine ⟨⟨rfl, rfl⟩, fun id => ?_, AtEntries.nil⟩
      unfold slots
      split <;> rfl
  exact ⟨hinv.1, hinv.2.2⟩

theorem calls_overtaking : ∃ q : MessageQueue Unit, Lts.run step init overtaking = some q ∧
    Called q (trace init overtaking) ∧
    AtEntries dispatch? LookedUp (trace init overtaking) ∧
    calls (trace init overtaking) ++ q.pending = [((), 1, 0), ((), 1, 0)] := by
  obtain ⟨q, hrun⟩ : ∃ q : MessageQueue Unit, Lts.run step init overtaking = some q := ⟨_, rfl⟩
  obtain ⟨hcalls, hat⟩ := calls_of_run hrun
  refine ⟨q, hrun, hcalls, hat, ?_⟩
  obtain rfl := Option.some.inj hrun
  decide

end MessageQueue

end FtServer
