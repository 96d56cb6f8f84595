/-
FtServer/MessageQueue.lean

The message queue under every receiver.  Any thread may post a message with low
or send one with high priority; one thread receives the messages and calls the
functions registered for them; the owner starts and stops the service.

A step is one access to what the threads share.  A send into a full queue, a
receive from an empty one and a join of a thread that has not ended are not
enabled: the caller blocks.  The functions that are called are handles of any
type `κ`.
-/
import Mathlib.Data.Int.Notation
import Mathlib.Logic.Function.Basic
import FtServer.Lts
import FtServer.Mailbox

namespace FtServer

/-! ### State -/

/-- `MSG_UNIT`. -/
structure MsgUnit where
  id : Int64
  par1 : Int64
  par2 : Int64
  deriving DecidableEq

/-- `MSG_QUIT`. -/
def msgQuit : Int64 := 0

/-- `MSG_USER`. -/
def msgUser : ℤ := 128

/-- `MQFUNC_SIZE`. -/
def mqfuncSize : ℕ := 1024

/-- Where `thread_message` stands. -/
inductive MqThread (κ : Type)
  /-- about to receive -/
  | receive
  /-- `m` was received; its functions have not been looked up -/
  | dispatch (m : MsgUnit)
  /-- the functions in `slots` are still to be called for `m` -/
  | call (m : MsgUnit) (slots : List κ)
  | ended
  deriving DecidableEq

/-- Where the owner stands in `Stop`. -/
inductive StopPc
  | idle
  /-- about to send `MSG_QUIT` -/
  | send
  | join
  /-- the thread is gone, the queue is about to go -/
  | reset
  deriving DecidableEq, Repr

/-- `MessageQueue`. -/
structure MessageQueue (κ : Type) where
  mq : Option (Mailbox MsgUnit)
  thrdmsg : Option (MqThread κ)
  funcs : Fin mqfuncSize → List κ
  stop : StopPc

/-- What happens next; `created` says whether the system could create the queue. -/
inductive MqEvent (κ : Type)
  | registerMessage (id : Int64) (slot : κ)
  | postMessage (id p1 p2 : Int64)
  | sendMessage (id p1 p2 : Int64)
  | start (created : Bool)
  | stop
  | thread

/-- The message of a call of `PostMessage` or `SendMessage`, with its priority. -/
def MqEvent.message? {κ : Type} : MqEvent κ → Option (ℕ × MsgUnit)
  | .postMessage id p1 p2 => some (1, ⟨id, p1, p2⟩)
  | .sendMessage id p1 p2 => some (10, ⟨id, p1, p2⟩)
  | _ => none

namespace MessageQueue

variable {κ : Type}

/-! ### Steps -/

/-- The queue as constructed. -/
def init : MessageQueue κ where
  mq := none
  thrdmsg := none
  funcs := fun _ => []
  stop := .idle

/-- Number of messages the queue holds. -/
def capacity : ℕ := 1024

/-- The place of the functions for `id`, if there is one. -/
def funcPos (id : Int64) : Option (Fin mqfuncSize) :=
  if h : 0 ≤ id.toInt - msgUser ∧ id.toInt - msgUser < mqfuncSize then
    some ⟨(id.toInt - msgUser).toNat, by omega⟩
  else none

/-- The functions called for `id`. -/
def slots (q : MessageQueue κ) (id : Int64) : List κ :=
  match funcPos id with
  | some pos => q.funcs pos
  | none => []

/-- `RegisterMessage`. -/
def registerMessage (q : MessageQueue κ) (id : Int64) (slot : κ) : Bool × MessageQueue κ :=
  match funcPos id with
  | some pos => (true, { q with funcs := Function.update q.funcs pos (q.funcs pos ++ [slot]) })
  | none => (false, q)

/-- `PostMessage` and `SendMessage`, with the priority each of them gives. -/
def put (q : MessageQueue κ) (priority : ℕ) (msg : MsgUnit) : Option (MessageQueue κ) :=
  match q.mq with
  | none => some q
  | some b =>
    if b.entries.length < capacity then some { q with mq := some (b.send priority msg) } else none

/-- `Start`. -/
def start (q : MessageQueue κ) (created : Bool) : Option (MessageQueue κ) :=
  if q.stop = .idle then
    match q.thrdmsg with
    | some _ => some q
    | none =>
      if created then some { q with mq := some .empty, thrdmsg := some .receive } else some q
  else none

/-- One step of `Stop`. -/
def stopStep (q : MessageQueue κ) : Option (MessageQueue κ) :=
  match q.stop with
  | .idle =>
    match q.thrdmsg with
    | some _ => some { q with stop := .send }
    | none => some { q with mq := none }
  | .send => (q.put 10 ⟨msgQuit, 0, 0⟩).map fun q' => { q' with stop := .join }
  | .join =>
    match q.thrdmsg with
    | some .ended => some { q with thrdmsg := none, stop := .reset }
    | _ => none
  | .reset => some { q with mq := none, stop := .idle }

/-- One step of `thread_message`. -/
def threadMessage (q : MessageQueue κ) : Option (MessageQueue κ) :=
  match q.thrdmsg with
  | none | some .ended => none
  | some .receive =>
    match q.mq with
    | none => none
    | some b => b.receive.map fun (x, b') =>
        { q with mq := some b', thrdmsg := some (.dispatch x.2) }
  | some (.dispatch m) => some { q with thrdmsg := some (.call m (q.slots m.id)) }
  | some (.call m (_ :: slots)) => some { q with thrdmsg := some (.call m slots) }
  | some (.call m []) =>
    some { q with thrdmsg := some (if m.id = msgQuit then .ended else .receive) }

/-- One step of the service. -/
def step (q : MessageQueue κ) (e : MqEvent κ) : Option (MessageQueue κ) :=
  match e with
  | .registerMessage id slot => some (q.registerMessage id slot).2
  | .postMessage id p1 p2 => q.put 1 ⟨id, p1, p2⟩
  | .sendMessage id p1 p2 => q.put 10 ⟨id, p1, p2⟩
  | .start created => q.start created
  | .stop => q.stopStep
  | .thread => q.threadMessage

/-! ### What a step can do -/

/-- The steps of the service, one constructor for each. -/
inductive MqStep (q : MessageQueue κ) : MqEvent κ → MessageQueue κ → Prop
  | register {id slot} : MqStep q (.registerMessage id slot) (q.registerMessage id slot).2
  | unheard {e x} (he : e.message? = some x) (hb : q.mq = none) : MqStep q e q
  | sent {e x b} (he : e.message? = some x) (hb : q.mq = some b)
      (hlt : b.entries.length < capacity) :
      MqStep q e { q with mq := some (b.send x.1 x.2) }
  | started (hs : q.stop = .idle) (ht : q.thrdmsg = none) :
      MqStep q (.start true) { q with mq := some .empty, thrdmsg := some .receive }
  | notStarted {created} (h : created = true → q.thrdmsg ≠ none) : MqStep q (.start created) q
  | stopping {t} (hs : q.stop = .idle) (ht : q.thrdmsg = some t) :
      MqStep q .stop { q with stop := .send }
  | neverStarted (hs : q.stop = .idle) (ht : q.thrdmsg = none) :
      MqStep q .stop { q with mq := none }
  | quit {b} (hs : q.stop = .send) (hb : q.mq = some b) (hlt : b.entries.length < capacity) :
      MqStep q .stop { q with mq := some (b.send 10 ⟨msgQuit, 0, 0⟩), stop := .join }
  | quitUnheard (hs : q.stop = .send) (hb : q.mq = none) : MqStep q .stop { q with stop := .join }
  | joined (hs : q.stop = .join) (ht : q.thrdmsg = some .ended) :
      MqStep q .stop { q with thrdmsg := none, stop := .reset }
  | reset (hs : q.stop = .reset) : MqStep q .stop { q with mq := none, stop := .idle }
  | received {b b' x} (ht : q.thrdmsg = some .receive) (hb : q.mq = some b)
      (hx : b.receive = some (x, b')) :
      MqStep q .thread { q with mq := some b', thrdmsg := some (.dispatch x.2) }
  | dispatched {m} (ht : q.thrdmsg = some (.dispatch m)) :
      MqStep q .thread { q with thrdmsg := some (.call m (q.slots m.id)) }
  | called {m k ks} (ht : q.thrdmsg = some (.call m (k :: ks))) :
      MqStep q .thread { q with thrdmsg := some (.call m ks) }
  | looped {m} (ht : q.thrdmsg = some (.call m [])) (hm : m.id ≠ msgQuit) :
      MqStep q .thread { q with thrdmsg := some .receive }
  | left {m} (ht : q.thrdmsg = some (.call m [])) (hm : m.id = msgQuit) :
      MqStep q .thread { q with thrdmsg := some .ended }

theorem put_cases {q q' : MessageQueue κ} {e : MqEvent κ} {x : ℕ × MsgUnit}
    (he : e.message? = some x) (h : q.put x.1 x.2 = some q') : MqStep q e q' := by
  unfold put at h
  split at h
  · rename_i hb
    obtain rfl := Option.some.inj h
    exact .unheard he hb
  · rename_i b hb
    split at h
    · rename_i hlt
      obtain rfl := Option.some.inj h
      exact .sent he hb hlt
    · cases h

theorem start_cases {q q' : MessageQueue κ} {created : Bool} (h : q.start created = some q') :
    MqStep q (.start created) q' := by
  unfold start at h
  split at h
  · rename_i hs
    split at h
    · rename_i t ht
      obtain rfl := Option.some.inj h
      exact .notStarted fun _ => by simp [ht]
    · rename_i ht
      cases created with
      | false =>
        obtain rfl := Option.some.inj h
        exact .notStarted fun hc => by cases hc
      | true =>
        obtain rfl := Option.some.inj h
        exact .started hs ht
  · cases h

theorem stopStep_cases {q q' : MessageQueue κ} (h : q.stopStep = some q') :
    MqStep q .stop q' := by
  unfold stopStep at h
  split at h
  · rename_i hs
    split at h
    · rename_i t ht
      obtain rfl := Option.some.inj h
      exact .stopping hs ht
    · rename_i ht
      obtain rfl := Option.some.inj h
      exact .neverStarted hs ht
  · rename_i hs
    obtain ⟨q₁, hq, rfl⟩ := Option.map_eq_some_iff.mp h
    unfold put at hq
    split at hq
    · rename_i hb
      obtain rfl := Option.some.inj hq
      exact .quitUnheard hs hb
    · rename_i b hb
      split at hq
      · rename_i hlt
        obtain rfl := Option.some.inj hq
        exact .quit hs hb hlt
      · cases hq
  · rename_i hs
    split at h
    · rename_i ht
      obtain rfl := Option.some.inj h
      exact .joined hs ht
    · cases h
  · rename_i hs
    obtain rfl := Option.some.inj h
    exact .reset hs

theorem threadMessage_cases {q q' : MessageQueue κ} (h : q.threadMessage = some q') :
    MqStep q .thread q' := by
  unfold threadMessage at h
  split at h
  · cases h
  · cases h
  · rename_i ht
    split at h
    · cases h
    · rename_i b hb
      obtain ⟨⟨x, b'⟩, hx, rfl⟩ := Option.map_eq_some_iff.mp h
      exact .received ht hb hx
  · rename_i m ht
    obtain rfl := Option.some.inj h
    exact .dispatched ht
  · rename_i m k ks ht
    obtain rfl := Option.some.inj h
    exact .called ht
  · rename_i m ht
    obtain rfl := Option.some.inj h
    by_cases hm : m.id = msgQuit
    · rw [if_pos hm]
      exact .left ht hm
    · rw [if_neg hm]
      exact .looped ht hm

theorem step_cases {q q' : MessageQueue κ} {e : MqEvent κ} (h : q.step e = some q') :
    MqStep q e q' := by
  cases e with
  | registerMessage id slot =>
    obtain rfl := Option.some.inj h
    exact .register
  | postMessage id p1 p2 => exact put_cases rfl h
  | sendMessage id p1 p2 => exact put_cases rfl h
  | start created => exact start_cases h
  | stop => exact stopStep_cases h
  | thread => exact threadMessage_cases h

@[simp] theorem registerMessage_mq (q : MessageQueue κ) (id : Int64) (slot : κ) :
    (q.registerMessage id slot).2.mq = q.mq := by
  unfold registerMessage
  split <;> rfl

@[simp] theorem registerMessage_thrdmsg (q : MessageQueue κ) (id : Int64) (slot : κ) :
    (q.registerMessage id slot).2.thrdmsg = q.thrdmsg := by
  unfold registerMessage
  split <;> rfl

@[simp] theorem registerMessage_stop (q : MessageQueue κ) (id : Int64) (slot : κ) :
    (q.registerMessage id slot).2.stop = q.stop := by
  unfold registerMessage
  split <;> rfl

end MessageQueue

end FtServer
