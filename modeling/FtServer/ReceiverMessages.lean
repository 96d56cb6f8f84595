/-
FtServer/ReceiverMessages.lean

The message queue of a receiver is the `MessageQueue` it inherits from.

A receiver is modelled with a list of messages and a program point of its
message thread.  `queueOf` reads the state of the real queue off it: the messages
wait with the priority of `PostMessage`, and the thread is receiving or inside
the function registered for the message at hand.  Every step of the server is,
on this queue, a few steps of `MessageQueue` or none; so a run of the server is a
run of it from `register_messages` and `Start` on, with the same messages sent
and the same functions called (`run_messageQueue`).
-/
import FtServer.TransferAgent
import FtServer.MessageDelivery

namespace FtServer

/-! ### The messages of a receiver -/

/-- The value of the message in `MSG_TC`. -/
def Msg.id : Msg → Int64
  | .networkReceive => 128
  | .networkClose => 129
  | .receiveComplete => 130

/-- The message as it is posted. -/
def Msg.unit (m : Msg) : MsgUnit := ⟨m.id, 0, 0⟩

/-- The message whose function the message thread is in. -/
def MsgPc.serving : MsgPc → Option Msg
  | .idle => none
  | .lookup | .read _ | .terminate _ | .resolve | .useCount _ | .makeShared .. | .fill _ | .close =>
    some .networkReceive
  | .reset => some .networkClose
  | .check | .handOver | .newFile | .toWaiting => some .receiveComplete
  | .setState st | .write st => some (if st = .ready then .networkReceive else .receiveComplete)

namespace FileReceiver

open MessageQueue (step trace sent calls)

/-- `CoupleNetwork`, as far as the messages are concerned. -/
def couple : List (MqEvent Msg) :=
  [.registerMessage Msg.networkReceive.id .networkReceive,
    .registerMessage Msg.networkClose.id .networkClose,
    .registerMessage Msg.receiveComplete.id .receiveComplete,
    .start true]

/-- `register_messages`. -/
def registerMessages (q : MessageQueue Msg) : MessageQueue Msg :=
  (((q.registerMessage Msg.networkReceive.id .networkReceive).2.registerMessage
    Msg.networkClose.id .networkClose).2.registerMessage
    Msg.receiveComplete.id .receiveComplete).2

/-- The message queue of a receiver. -/
def queueOf (r : FileReceiver) : MessageQueue Msg where
  mq := some (.ofLane 1 (r.mq.map Msg.unit))
  thrdmsg := some (match r.msg.serving with
    | none => .receive
    | some m => .call m.unit [])
  funcs := (registerMessages .init).funcs
  stop := .idle

/-- Each message calls its own function. -/
theorem slots_queueOf (r : FileReceiver) (m : Msg) : (queueOf r).slots m.id = [m] := by
  cases m <;> rfl

/-- The messages posted. -/
def posted (log : List Obs) : List Msg :=
  log.filterMap fun
    | .posted m => some m
    | _ => none

/-! ### Steps -/

/-- The functions called in a step of the message thread. -/
def served (r : FileReceiver) : List Msg :=
  match r.msg with
  | .idle => r.mq.head?.toList
  | _ => []

theorem served_of_ne {r : FileReceiver} (h : r.msg ≠ .idle) : served r = [] := by
  unfold served
  split
  · rename_i hidle
    exact absurd hidle h
  · rfl

/-- From `r` to `r'` the queue makes steps that send the messages posted and call
the functions served. -/
def Matches (r r' : FileReceiver) (handled : List Msg) : Prop :=
  ∃ ds ms, Lts.run step (queueOf r) ds = some (queueOf r') ∧
    posted r'.log = posted r.log ++ ms ∧
    sent (trace (queueOf r) ds) = ms.map (fun m => (1, m.unit)) ∧
    calls (trace (queueOf r) ds) = handled.map fun m => (m, 0, 0)

/-- A step that leaves the queue and the message at hand alone. -/
theorem Matches.of_same {r r' : FileReceiver} (hmq : r'.mq = r.mq)
    (hmsg : r'.msg.serving = r.msg.serving) (hlog : posted r'.log = posted r.log) :
    Matches r r' [] := by
  refine ⟨[], [], ?_, by rw [hlog, List.append_nil], rfl, rfl⟩
  rw [Lts.run_nil, queueOf, queueOf, hmq, hmsg]

/-- The thread receives a message and calls its function. -/
theorem Matches.of_receive {r r' : FileReceiver} {m : Msg} {q : List Msg} (hidle : r.msg = .idle)
    (hq : r.mq = m :: q) (hmq : r'.mq = q) (hmsg : r'.msg.serving = some m)
    (hlog : r'.log = r.log) : Matches r r' [m] := by
  have hreceive : step (queueOf r) .thread =
      some { queueOf r with
        mq := some (.ofLane 1 (q.map Msg.unit))
        thrdmsg := some (.dispatch m.unit) } := by
    simp only [step, MessageQueue.threadMessage, queueOf, hidle, MsgPc.serving, hq, List.map_cons,
      Mailbox.receive_ofLane, Option.map_some]
  have hdispatch : step { queueOf r with
        mq := some (.ofLane 1 (q.map Msg.unit))
        thrdmsg := some (.dispatch m.unit) } .thread =
      some { queueOf r with
        mq := some (.ofLane 1 (q.map Msg.unit))
        thrdmsg := some (.call m.unit [m]) } := by
    have hslots := slots_queueOf r m
    simp only [MessageQueue.slots, queueOf] at hslots
    simp only [step, MessageQueue.threadMessage, MessageQueue.slots, queueOf, Msg.unit, hslots]
  have hcall : step { queueOf r with
        mq := some (.ofLane 1 (q.map Msg.unit))
        thrdmsg := some (.call m.unit [m]) } .thread = some (queueOf r') := by
    simp only [step, MessageQueue.threadMessage, queueOf, hmq, hmsg]
  have hobs : trace (queueOf r) [.thread, .thread, .thread] =
      [.received (1, m.unit), .dispatched m.unit ((queueOf r).slots m.unit.id),
        .called m 0 0] := by
    simp only [trace, Lts.outputs, hreceive, hdispatch, hcall, MessageQueue.observe]
    simp [queueOf, hidle, MsgPc.serving, MessageQueue.box, hq, Msg.unit, MessageQueue.slots]
  refine ⟨[.thread, .thread, .thread], [], ?_, by rw [hlog, List.append_nil], ?_, ?_⟩
  · rw [Lts.run_cons hreceive, Lts.run_cons hdispatch, Lts.run_cons hcall, Lts.run_nil]
  · rw [hobs]
    rfl
  · rw [hobs]
    rfl

/-- The function returns. -/
theorem Matches.of_return {r r' : FileReceiver} {m : Msg} (hserving : r.msg.serving = some m)
    (hmq : r'.mq = r.mq) (hmsg : r'.msg = .idle) (hlog : posted r'.log = posted r.log) :
    Matches r r' [] := by
  have hne : m.unit.id ≠ msgQuit := by cases m <;> decide
  have hcall : (queueOf r).thrdmsg = some (.call m.unit []) := by simp only [queueOf, hserving]
  have hnext : queueOf r' = { queueOf r with thrdmsg := some .receive } := by
    simp only [queueOf, hmq, hmsg, MsgPc.serving]
  have hloop : step (queueOf r) .thread = some (queueOf r') := by
    rw [hnext]
    simp only [step, MessageQueue.threadMessage, hcall, if_neg hne]
  have hobs : trace (queueOf r) [.thread] = [] := by
    simp only [trace, Lts.outputs, hloop, MessageQueue.observe, hcall, List.append_nil]
  refine ⟨[.thread], [], ?_, by rw [hlog, List.append_nil], ?_, ?_⟩
  · rw [Lts.run_cons hloop, Lts.run_nil]
  · rw [hobs]
    rfl
  · rw [hobs]
    rfl

/-- `network_receive` posts a message. -/
theorem Matches.of_post {r r' : FileReceiver} {m : Msg} (hlt : r.mq.length < mqCapacity)
    (hmq : r'.mq = r.mq ++ [m]) (hmsg : r'.msg = r.msg)
    (hlog : posted r'.log = posted r.log ++ [m]) : Matches r r' [] := by
  have hpost : step (queueOf r) (.postMessage m.id 0 0) = some (queueOf r') := by
    have hroom : (r.mq.map Msg.unit).length < MessageQueue.capacity := by
      rw [List.length_map]
      exact hlt
    simp only [step, MessageQueue.put, queueOf, Mailbox.entries_ofLane, List.length_map,
      Mailbox.send_ofLane, hmq, hmsg, List.map_append] at hroom ⊢
    rw [if_pos hroom]
    rfl
  have hobs : trace (queueOf r) [.postMessage m.id 0 0] = [.sent (1, m.unit)] := by
    simp only [trace, Lts.outputs, hpost]
    rfl
  refine ⟨[.postMessage m.id 0 0], [m], ?_, hlog, ?_, ?_⟩
  · rw [Lts.run_cons hpost, Lts.run_nil]
  · rw [hobs]
    rfl
  · rw [hobs]
    rfl

/-- What the steps of the I/O thread do to the queue. -/
theorem Matches.of_io {v v' : RcvView} (h : IoStep v v') : Matches v.rcv v'.rcv [] := by
  cases h with
  | post hpc hlt => exact .of_post hlt rfl rfl (by simp [posted])
  | overflow | arrive => exact .of_same rfl rfl (by simp [posted])
  | _ => exact .of_same rfl rfl rfl

/-- What the steps of the message thread do to it. -/
theorem Matches.of_msg {δ : Type} {dbl : DoubleLib δ} {n : ℕ} {junk : ℕ → UInt8} {ok : Bool}
    {v v' : RcvView} (h : MsgStep dbl n junk ok v v') : Matches v.rcv v'.rcv (served v.rcv) := by
  cases h with
  | popReceive hpc hq =>
    rw [show served v.rcv = [.networkReceive] by simp [served, hpc, hq]]
    exact .of_receive hpc hq rfl rfl rfl
  | popClose hpc hq =>
    rw [show served v.rcv = [.networkClose] by simp [served, hpc, hq]]
    exact .of_receive hpc hq rfl rfl rfl
  | popComplete hpc hq =>
    rw [show served v.rcv = [.receiveComplete] by simp [served, hpc, hq]]
    exact .of_receive hpc hq rfl rfl rfl
  | otherText hpc | close hpc | reset hpc | toWaiting hpc =>
    rw [served_of_ne (by simp [hpc])]
    exact .of_return (by rw [hpc]; rfl) rfl rfl rfl
  | @sent st hpc =>
    rw [served_of_ne (by simp [hpc])]
    by_cases hst : st = .ready
    · exact .of_return (by rw [hpc, MsgPc.serving, if_pos hst]) rfl (if_pos hst)
        (by simp [posted])
    · exact .of_same rfl (by simp [hpc, hst, MsgPc.serving]) (by simp [posted])
  | terminate hpc =>
    rw [served_of_ne (by simp [hpc])]
    refine .of_same rfl (by rw [hpc]; rfl) ?_
    dsimp only
    split
    · simp [posted]
    · rfl
  | badText hpc | badSize hpc | writeError hpc =>
    rw [served_of_ne (by simp [hpc])]
    exact .of_same rfl rfl rfl
  | lookup hpc | read hpc | nullText hpc | fileinfo hpc | useCount hpc | keep hpc | unequal hpc
      | setState hpc =>
    rw [served_of_ne (by simp [hpc])]
    exact .of_same rfl (by rw [hpc]; rfl) rfl
  | replace hpc | fill hpc | equal hpc =>
    rw [served_of_ne (by simp [hpc])]
    exact .of_same rfl (by rw [hpc]; rfl) (by simp [posted])

end FileReceiver

namespace TransferAgent

open FileReceiver (queueOf couple posted served served_of_ne Matches)
open MessageQueue (sent trace calls)

variable {ι : Type} [DecidableEq ι] [Fintype ι] {δ : Type} {dbl : DoubleLib δ}

/-- The functions that a step of the server calls in receiver `i`. -/
def handlers (i : ι) (s : TransferAgent ι) (e : AgentEvent ι) : List Msg :=
  match e with
  | .msg j _ _ => if j = i then served (s.filercv i) else []
  | _ => []

/-- What the steps of the server do to the queue of receiver `i`. -/
theorem matches_of_step {s s' : TransferAgent ι} {e : AgentEvent ι} {i : ι}
    (h : s.step dbl e = some s') :
    Matches (s.filercv i) (s'.filercv i) (handlers i s e) := by
  by_cases he : e.receiver? = some i
  · obtain ⟨r, hr, hstep⟩ := step_rcv h he
    rw [hr]
    cases hstep with
    | recv hd =>
      obtain ⟨-, -, -, rfl⟩ := FileReceiver.receive_cases hd
      exact .of_same rfl rfl (by simp [posted])
    | fail hf =>
      obtain ⟨-, rfl⟩ := FileReceiver.receiveError_cases hf
      exact .of_same rfl rfl rfl
    | io hv => exact .of_io hv
    | msg hv =>
      rw [handlers, if_pos rfl]
      exact .of_msg hv
    | handOver hpc hp =>
      rw [handlers, if_pos rfl, served_of_ne (by simp [hpc])]
      exact .of_same rfl (by rw [hpc]; rfl) (by simp [posted])
    | @newFile _ _ w hpc hw =>
      rw [handlers, if_pos rfl, served_of_ne (by simp [hpc])]
      refine .of_same rfl ?_ ?_
      · rw [hpc]
        simp only [afterCall]
        split <;> rfl
      · simp only [posted, newFileLog]
        split <;> simp
  · rw [filercv_of_ne h he]
    have hnone : handlers i s e = [] := by
      cases e with
      | msg j =>
        have hne : j ≠ i := fun hj => he (congrArg some hj)
        exact if_neg hne
      | _ => rfl
    rw [hnone]
    exact .of_same rfl rfl rfl

/-- A run of `MessageQueue` has brought the queue of `i` where it is, with the messages
that `i` has posted and the calls `os`. -/
def Coupled (i : ι) (s : TransferAgent ι) (os : List Msg) : Prop :=
  ∃ ds, Lts.run MessageQueue.step .init (couple ++ ds) = some (queueOf (s.filercv i)) ∧
    sent (trace .init (couple ++ ds)) =
      (posted (s.filercv i).log).map (fun m => (1, m.unit)) ∧
    calls (trace .init (couple ++ ds)) = os.map fun m => (m, 0, 0)

theorem Coupled.step {i : ι} {s s' : TransferAgent ι} {e : AgentEvent ι} {os : List Msg}
    (h : Coupled i s os) (hstep : TransferAgent.step dbl s e = some s') :
    Coupled i s' (os ++ handlers i s e) := by
  obtain ⟨ds, hds, hsent, hcalls⟩ := h
  obtain ⟨ds', ms, hds', hlog, hsent', hcalls'⟩ := matches_of_step (i := i) hstep
  have htrace : trace .init (couple ++ (ds ++ ds')) =
      trace .init (couple ++ ds) ++ trace (queueOf (s.filercv i)) ds' := by
    rw [← List.append_assoc]
    exact Lts.outputs_append hds ds'
  refine ⟨ds ++ ds', ?_, ?_, ?_⟩
  · rw [← List.append_assoc, Lts.run_append hds, hds']
  · rw [htrace, MessageQueue.sent_append, hsent, hsent', hlog, List.map_append]
  · rw [htrace, MessageQueue.calls_append, hcalls, hcalls', List.map_append]

/-- **The queue of a receiver is a `MessageQueue`.**  What a run of the server does
to it is a run of `MessageQueue` from `register_messages` and `Start` on, which
sends the messages that the receiver posts and calls the functions that its
message thread enters. -/
theorem run_messageQueue {bufs : ι → PackBuf × PackBuf} {heap : Heap} {env : SaveEnv}
    {es : List (AgentEvent ι)} {s : TransferAgent ι} (i : ι)
    (hrun : Lts.run (TransferAgent.step dbl) (init bufs heap env) es = some s) :
    ∃ ds, Lts.run MessageQueue.step .init (couple ++ ds) = some (queueOf (s.filercv i)) ∧
      sent (trace .init (couple ++ ds)) =
        (posted (s.filercv i).log).map (fun m => (1, m.unit)) ∧
      calls (trace .init (couple ++ ds)) =
        (Lts.outputs (TransferAgent.step dbl) (handlers i) (init bufs heap env) es).map
          fun m => (m, 0, 0) := by
  have hinit : Coupled i (init bufs heap env) [] := ⟨[], rfl, rfl, rfl⟩
  exact Lts.run_outputs (fun _ _ _ _ h hstep => h.step hstep) hinit hrun

/-- A line is posted and its function is called. -/
def announced : List (AgentEvent Unit) :=
  lineSchedule (lit "fileinfo filename=a,filesize=2\n")

theorem run_messageQueue_line : ∃ s : TransferAgent Unit,
    Lts.run (TransferAgent.step unitLib) single announced = some s ∧
    posted (s.filercv ()).log = [.networkReceive] ∧
    ∃ ds, Lts.run MessageQueue.step .init (couple ++ ds) = some (queueOf (s.filercv ())) ∧
      sent (trace .init (couple ++ ds)) =
        (posted (s.filercv ()).log).map (fun m => (1, m.unit)) ∧
      calls (trace .init (couple ++ ds)) =
        (Lts.outputs (TransferAgent.step unitLib) (handlers ()) single announced).map
          fun m => (m, 0, 0) := by
  have heval : (Lts.run (TransferAgent.step unitLib) single announced).map
      (fun s => posted (s.filercv ()).log) = some [.networkReceive] := by decide +kernel
  obtain ⟨s, hrun, hposted⟩ := Option.map_eq_some_iff.mp heval
  exact ⟨s, hrun, hposted, run_messageQueue () hrun⟩

end TransferAgent

end FtServer
