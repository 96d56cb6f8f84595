/-
FtServer/PointerSafety.lean

No thread of a receiver dereferences a null pointer.  `tcpptr_` is reset by the
handler of the close message, `fileptr_` is null until the first file.

The reasons are in the shape of the queue.  The close message is the last one
that the I/O thread posts, so nothing is left to handle once the pointer is
reset (`Pointers.close_last`, `Pointers.released`); and a completion is only
posted, and `READY` only assigned, once there is a file (`Pointers.no_file`).
-/
import FtServer.TransferAgent

namespace FtServer

/-! ### Where the pointers are used -/

/-- The I/O thread is about to dereference `tcpptr_`. -/
def IoPc.usesTcpptr : IoPc → Bool
  | .read => true
  | _ => false

/-- The I/O thread is about to dereference `fileptr_`. -/
def IoPc.usesFileptr : IoPc → Bool
  | .arrive _ => true
  | _ => false

/-- The message thread is about to dereference `tcpptr_`. -/
def MsgPc.usesTcpptr : MsgPc → Bool
  | .lookup | .read _ | .close | .write _ => true
  | _ => false

/-- The message thread is about to dereference `fileptr_`; for a size to compare
it does so if the use count was 1. -/
def MsgPc.usesFileptr : MsgPc → Bool
  | .makeShared _ n => n == 1
  | .fill _ | .check | .handOver => true
  | _ => false

/-- The I/O thread is on its way to use the file, or to post its completion. -/
def IoPc.needsFile : IoPc → Bool
  | .read | .arrive _ => true
  | .post m => m = .receiveComplete
  | _ => false

/-- The handlers stand where there is a file. -/
def MsgPc.needsFile : MsgPc → Bool
  | .makeShared _ n => n == 1
  | .fill _ | .check | .handOver | .newFile | .setState _ | .write _ => true
  | _ => false

namespace FileReceiver

/-- No thread is about to dereference a null pointer. -/
structure PointerSafe (r : FileReceiver) : Prop where
  tcpptr : r.io.usesTcpptr = true ∨ r.msg.usesTcpptr = true → r.tcpptr = true
  fileptr : r.io.usesFileptr = true ∨ r.msg.usesFileptr = true → r.fileptr.isSome = true

/-- Safe pointers are what the I/O thread needs at these positions: it goes on. -/
theorem PointerSafe.ioStep {v : RcvView} (h : PointerSafe v.rcv)
    (huse : v.rcv.io.usesTcpptr = true ∨ v.rcv.io.usesFileptr = true) :
    (ioStep v).isSome = true := by
  rcases hpc : v.rcv.io
  case read => simp [FileReceiver.ioStep, hpc, h.tcpptr (.inl (by rw [hpc]; rfl))]
  case arrive n =>
    obtain ⟨a, ha⟩ := Option.isSome_iff_exists.mp (h.fileptr (.inl (by rw [hpc]; rfl)))
    simp only [FileReceiver.ioStep, hpc, ha]
    split <;> rfl
  all_goals simp [hpc, IoPc.usesTcpptr, IoPc.usesFileptr] at huse

/-- So does the message thread, where it does not call into the writer. -/
theorem PointerSafe.msgStep {δ : Type} (dbl : DoubleLib δ) {n : ℕ} {junk : ℕ → UInt8} {ok : Bool}
    {v : RcvView} (h : PointerSafe v.rcv) (hcall : v.rcv.msg ≠ .handOver)
    (huse : v.rcv.msg.usesTcpptr = true ∨ v.rcv.msg.usesFileptr = true) :
    (msgStep dbl n junk ok v).isSome = true := by
  rcases hpc : v.rcv.msg
  case lookup | read | close =>
    simp [FileReceiver.msgStep, hpc, h.tcpptr (.inr (by rw [hpc]; rfl))]
  case write =>
    simp only [FileReceiver.msgStep, hpc, h.tcpptr (.inr (by rw [hpc]; rfl)), ↓reduceIte]
    split <;> rfl
  case fill =>
    obtain ⟨a, ha⟩ := Option.isSome_iff_exists.mp (h.fileptr (.inr (by rw [hpc]; rfl)))
    simp [FileReceiver.msgStep, hpc, ha]
  case check =>
    obtain ⟨a, ha⟩ := Option.isSome_iff_exists.mp (h.fileptr (.inr (by rw [hpc]; rfl)))
    simp only [FileReceiver.msgStep, hpc, ha]
    split <;> rfl
  case makeShared p n =>
    simp only [FileReceiver.msgStep, hpc]
    split
    · split <;> rfl
    · rfl
  case handOver => exact absurd hpc hcall
  all_goals simp [hpc, MsgPc.usesTcpptr, MsgPc.usesFileptr] at huse

/-! ### The invariant -/

structure Pointers (r : FileReceiver) : Prop where
  /-- nothing is posted after the close message -/
  close_last : .networkClose ∉ r.mq.dropLast
  close_stopped : .networkClose ∈ r.mq → r.io = .stopped
  resetting : r.msg = .reset → r.io = .stopped ∧ r.mq = []
  released : r.tcpptr = false → r.io = .stopped ∧ r.mq = [] ∧ r.msg = .idle
  no_file : r.fileptr = none → r.state ≠ .ready ∧ r.io.needsFile = false ∧
    .receiveComplete ∉ r.mq ∧ r.msg.needsFile = false

theorem Pointers.init (bufs : PackBuf × PackBuf) : Pointers (.init bufs.1 bufs.2) where
  close_last := by simp [FileReceiver.init]
  close_stopped := by simp [FileReceiver.init]
  resetting := fun h => by cases h
  released := fun h => by cases h
  no_file := fun _ => ⟨by simp [FileReceiver.init], rfl, by simp [FileReceiver.init], rfl⟩

theorem Pointers.safe {r : FileReceiver} (h : Pointers r) : PointerSafe r where
  tcpptr := by
    intro huse
    by_contra hnull
    obtain ⟨hio, -, hmsg⟩ := h.released (by simpa using hnull)
    rw [hio, hmsg] at huse
    simp [IoPc.usesTcpptr, MsgPc.usesTcpptr] at huse
  fileptr := by
    intro huse
    by_contra hnull
    obtain ⟨-, hio, -, hmsg⟩ := h.no_file (by simpa using hnull)
    rcases huse with huse | huse
    · cases hpc : r.io <;> simp_all [IoPc.usesFileptr, IoPc.needsFile]
    · cases hpc : r.msg <;> simp_all [MsgPc.usesFileptr, MsgPc.needsFile]

/-! ### Steps -/

/-- A step of the I/O thread that posts nothing. -/
theorem Pointers.ioFrame {r r' : FileReceiver} (h : Pointers r) (hio : r.io ≠ .stopped)
    (hmq : r'.mq = r.mq) (hmsg : r'.msg = r.msg) (htcp : r'.tcpptr = r.tcpptr)
    (hfile : r'.fileptr = r.fileptr) (hstate : r'.state = r.state)
    (hneeds : r.fileptr = none → r'.io.needsFile = false) : Pointers r' where
  close_last := by rw [hmq]; exact h.close_last
  close_stopped := fun hm => absurd (h.close_stopped (hmq ▸ hm)) hio
  resetting := fun hm => absurd (h.resetting (hmsg ▸ hm)).1 hio
  released := fun ht => absurd (h.released (htcp ▸ ht)).1 hio
  no_file := fun hf => by
    obtain ⟨hs, -, hq, hm⟩ := h.no_file (hfile ▸ hf)
    exact ⟨by rwa [hstate], hneeds (hfile ▸ hf), by rwa [hmq], by rwa [hmsg]⟩

theorem Pointers.io {v v' : RcvView} (h : Pointers v.rcv) (hs : IoStep v v') :
    Pointers v'.rcv := by
  cases hs with
  | handleRead hpc | notReady hpc | isWaiting hpc | ignored hpc =>
    exact h.ioFrame (by simp [hpc]) rfl rfl rfl rfl rfl fun _ => rfl
  | rearm hpc =>
    refine h.ioFrame (by simp [hpc]) rfl rfl rfl rfl rfl fun _ => ?_
    dsimp only
    split <;> rfl
  | isReady hpc hs =>
    exact h.ioFrame (by simp [hpc]) rfl rfl rfl rfl rfl fun hf => absurd hs (h.no_file hf).1
  | read hpc =>
    refine h.ioFrame (by simp [hpc]) rfl rfl rfl rfl rfl fun hf => ?_
    have hio := (h.no_file hf).2.1
    simp [hpc, IoPc.needsFile] at hio
  | overflow hpc hp => exact ⟨h.close_last, h.close_stopped, h.resetting, h.released, h.no_file⟩
  | arrive hpc hp =>
    refine h.ioFrame (by simp [hpc]) rfl rfl rfl rfl rfl fun hf => ?_
    simp [hp] at hf
  | @post m hpc hq =>
    have hio : v.rcv.io ≠ .stopped := by simp [hpc]
    have hopen : .networkClose ∉ v.rcv.mq := fun hm => hio (h.close_stopped hm)
    refine ⟨?_, fun hm => ?_, fun hm => absurd (h.resetting hm).1 hio,
      fun ht => absurd (h.released ht).1 hio, fun hf => ?_⟩
    · -- the message goes to the end, behind a queue without a close message
      simpa using hopen
    · rcases List.mem_append.mp hm with hm | hm
      · exact absurd hm hopen
      · obtain rfl := List.mem_singleton.mp hm
        rfl
    · obtain ⟨hs, hneeds, hmq, hmsg⟩ := h.no_file hf
      have hne : m ≠ .receiveComplete := by
        rintro rfl
        simp [hpc, IoPc.needsFile] at hneeds
      refine ⟨hs, ?_, ?_, hmsg⟩
      · dsimp only
        split <;> rfl
      · simp [hmq, Ne.symm hne]

/-- A step of the message thread inside a handler, other than the reset of the
connection. -/
theorem Pointers.msgFrame {r r' : FileReceiver} (h : Pointers r) (hbusy : r.msg ≠ .idle)
    (hio : r'.io = r.io) (hmq : r'.mq = r.mq) (htcp : r'.tcpptr = r.tcpptr)
    (hreset : r'.msg ≠ .reset)
    (hfile : r'.fileptr = none → r.fileptr = none ∧ r'.msg.needsFile = false ∧
      (r'.state = .ready → r.state = .ready)) : Pointers r' where
  close_last := by rw [hmq]; exact h.close_last
  close_stopped := fun hm => by rw [hio]; exact h.close_stopped (hmq ▸ hm)
  resetting := fun hm => absurd hm hreset
  released := fun ht => absurd (h.released (htcp ▸ ht)).2.2 hbusy
  no_file := fun hf => by
    obtain ⟨hf', hneeds, hready⟩ := hfile hf
    obtain ⟨hs, hio', hq, -⟩ := h.no_file hf'
    exact ⟨fun hr => hs (hready hr), by rwa [hio], by rwa [hmq], hneeds⟩

/-- The message thread takes the first message to its handler. -/
theorem Pointers.pop {r : FileReceiver} {m : Msg} {q : List Msg} (h : Pointers r)
    (hq : r.mq = m :: q) : Pointers { r with mq := q, msg := handler m } := by
  have hopen : r.tcpptr ≠ false := fun ht => by
    have hmq := (h.released ht).2.1
    simp [hq] at hmq
  have hsub : ∀ x, x ∈ q.dropLast → x ∈ r.mq.dropLast := fun x hx => by
    rw [hq]
    cases q with
    | nil => cases hx
    | cons y q => exact List.mem_cons_of_mem _ hx
  refine ⟨fun hm => h.close_last (hsub _ hm), fun hm => h.close_stopped ?_, fun hm => ?_,
    fun ht => absurd ht hopen, fun hf => ?_⟩
  · rw [hq]
    exact List.mem_cons_of_mem _ hm
  · -- the close message is the last one, so nothing is behind it
    obtain rfl : m = .networkClose := by
      cases m with
      | networkClose => rfl
      | networkReceive | receiveComplete => cases hm
    refine ⟨h.close_stopped (by simp [hq]), ?_⟩
    cases q with
    | nil => rfl
    | cons y q =>
      refine absurd ?_ h.close_last
      rw [hq]
      exact List.mem_cons_self
  · obtain ⟨hs, hio, hmq, -⟩ := h.no_file hf
    rw [hq, List.mem_cons, not_or] at hmq
    refine ⟨hs, hio, hmq.2, ?_⟩
    cases m with
    | receiveComplete => exact absurd rfl hmq.1
    | networkReceive | networkClose => rfl

variable {δ : Type} {dbl : DoubleLib δ}

theorem Pointers.msg {n : ℕ} {junk : ℕ → UInt8} {ok : Bool} {v v' : RcvView}
    (h : Pointers v.rcv) (hn : v.rcv.fileptr = none → n = 0)
    (hs : MsgStep dbl n junk ok v v') : Pointers v'.rcv := by
  -- where there has to be a file there is one
  have hneeds : v.rcv.msg.needsFile = true → v.rcv.fileptr ≠ none := fun hm hf => by
    simp [(h.no_file hf).2.2.2] at hm
  cases hs with
  | popReceive _ hq | popClose _ hq | popComplete _ hq => exact h.pop hq
  | badText | badSize | writeError => exact h
  | lookup hpc | read hpc | terminate hpc | nullText hpc | fileinfo hpc | otherText hpc
  | close hpc =>
    exact h.msgFrame (by simp [hpc]) rfl rfl rfl (by simp) fun hf => ⟨hf, rfl, id⟩
  | useCount hpc =>
    refine h.msgFrame (by simp [hpc]) rfl rfl rfl (by simp) fun hf => ⟨hf, ?_, id⟩
    rw [hn hf]
    rfl
  | replace hpc => exact h.msgFrame (by simp [hpc]) rfl rfl rfl (by simp) fun hf => by cases hf
  | keep hpc hm =>
    -- without a file the use count was not 1, and another one replaces it
    refine h.msgFrame (by simp [hpc]) rfl rfl rfl (by simp) fun hf => absurd ?_ hm
    dsimp only at hf
    have hc := (h.no_file hf).2.2.2
    simp only [hpc, MsgPc.needsFile, beq_eq_false_iff_ne] at hc
    unfold mustReplace
    omega
  | fill hpc hp | equal hpc hp | unequal hpc hp =>
    exact h.msgFrame (by simp [hpc]) rfl rfl rfl (by simp) fun hf => by simp [hp] at hf
  | reset hpc =>
    obtain ⟨hio, hmq⟩ := h.resetting hpc
    refine ⟨h.close_last, h.close_stopped, (fun hm => by cases hm), fun _ => ⟨hio, hmq, rfl⟩,
      fun hf => ?_⟩
    obtain ⟨hs, hio', hq, -⟩ := h.no_file hf
    exact ⟨hs, hio', hq, rfl⟩
  | setState hpc =>
    exact h.msgFrame (by simp [hpc]) rfl rfl rfl (by simp) fun hf =>
      absurd hf (hneeds (by rw [hpc]; rfl))
  | @sent st hpc =>
    have hreset : (if st = .ready then MsgPc.idle else .toWaiting) ≠ .reset := by split <;> simp
    exact h.msgFrame (by simp [hpc]) rfl rfl rfl hreset fun hf =>
      absurd hf (hneeds (by rw [hpc]; rfl))
  | toWaiting hpc =>
    exact h.msgFrame (by simp [hpc]) rfl rfl rfl (by simp)
      fun hf => ⟨hf, rfl, fun hr => by cases hr⟩

end FileReceiver

namespace TransferAgent

variable {ι : Type} [DecidableEq ι] [Fintype ι] {δ : Type} {dbl : DoubleLib δ}

theorem pointers_step {s : TransferAgent ι} {i : ι} {e : AgentEvent ι} {r : FileReceiver}
    (h : (s.filercv i).Pointers) (hs : RcvStep dbl s i e r) : r.Pointers := by
  cases hs with
  | recv hr =>
    obtain ⟨hio, -, -, rfl⟩ := FileReceiver.receive_cases hr
    exact h.ioFrame (by simp [hio]) rfl rfl rfl rfl rfl fun _ => rfl
  | fail hr =>
    obtain ⟨hio, rfl⟩ := FileReceiver.receiveError_cases hr
    exact h.ioFrame (by simp [hio]) rfl rfl rfl rfl rfl fun _ => rfl
  | io hv => exact h.io hv
  | msg hv =>
    refine h.msg (fun hf => ?_) hv
    rw [fileptrCount, show (s.filercv i).fileptr = none from hf]
    rfl
  | handOver hpc hp =>
    exact h.msgFrame (by simp [hpc]) rfl rfl rfl (by simp) fun hf => by simp [hp] at hf
  | @newFile _ _ w hpc hw =>
    refine h.msgFrame (by simp [hpc]) rfl rfl rfl ?_ fun hf => ?_
    · dsimp only
      cases w.callers i <;> simp [afterCall]
    · have hm := (h.no_file hf).2.2.2
      simp [hpc, MsgPc.needsFile] at hm

/-- **No handler dereferences a null pointer**, in any state that the server
reaches. -/
theorem pointer_safe {bufs : ι → PackBuf × PackBuf} {heap : Heap} {env : SaveEnv}
    {es : List (AgentEvent ι)} {s : TransferAgent ι}
    (hrun : Lts.run (step dbl) (init bufs heap env) es = some s) (i : ι) :
    (s.filercv i).PointerSafe := by
  have h : (s.filercv i).Pointers :=
    rcv_invariant (fun _ _ _ => pointers_step) (FileReceiver.Pointers.init (bufs i)) hrun
  exact h.safe

/-- A line that is not understood: the server closes the connection, and the
failure of the read that is under way resets the pointer. -/
theorem pointer_safe_closed : ∃ s : TransferAgent Unit,
    Lts.run (step unitLib) single (.recv () (lit "?\n") :: ioSteps 5 ++ msgSteps 6 ++
      .fail () :: ioSteps 1 ++ msgSteps 2) = some s ∧
      (s.filercv ()).tcpptr = false ∧ (s.filercv ()).PointerSafe := by
  have heval : (Lts.run (step unitLib) single (.recv () (lit "?\n") :: ioSteps 5 ++ msgSteps 6 ++
      .fail () :: ioSteps 1 ++ msgSteps 2)).map (fun s => (s.filercv ()).tcpptr) = some false := by
    decide +kernel
  obtain ⟨s, hrun, hs⟩ := Option.map_eq_some_iff.mp heval
  exact ⟨s, hrun, hs, pointer_safe hrun ()⟩

end TransferAgent

end FtServer
