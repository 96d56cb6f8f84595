/-
FtServer/FileReceiver.lean

A receiver of files and the two threads that run it.  The I/O thread takes the
bytes of each completed read through `handle_read` and `network_receive`; the
message thread takes the messages that `network_receive` posts.  They share
`state_`, the pointer to the file, the buffer `bufrcv_` of the receiver, the
buffer of the connection, and the message queue, without a lock.

One step (`ioStep`, `msgStep`) is one access to what is shared.  A step sees the
receiver, the objects and the allocation pointer (`RcvView`); the two steps
of the message thread that call into the writer are part of the whole system.
Where the source throws out of the thread, or overflows the counter of a file,
the process ends (`halted`); `none` is a step the source cannot take, or one
that dereferences a null pointer.

`log` is history, oldest first: what arrived, what was posted, what became of
it and what was sent.  No step reads it.
-/
import FtServer.AsciiProtocol
import FtServer.FileInfo
import FtServer.TCPClient

namespace FtServer

/-! ### State -/

/-- `STATE`. -/
inductive RcvState
  | waiting
  | ready
  | complete
  | failure
  deriving DecidableEq, Repr

/-- `MSG_TC`. -/
inductive Msg
  | networkReceive
  | networkClose
  | receiveComplete
  deriving DecidableEq, Repr

/-- Where the I/O thread stands in `handle_read` and `network_receive`. -/
inductive IoPc
  /-- an asynchronous read is under way -/
  | idle
  /-- `n` bytes have landed in the buffer of the connection -/
  | landed (n : ℕ)
  /-- about to compare `state_` with `READY` -/
  | testReady
  /-- `state_` was `READY`: about to call `Read` -/
  | read
  /-- about to call `DataArrive` with `n` bytes -/
  | arrive (n : ℕ)
  /-- `state_` was not `READY`: about to compare it with `WAITING` -/
  | testWaiting
  | post (m : Msg)
  /-- about to start the next read -/
  | rearm
  /-- no read will be started any more -/
  | stopped
  deriving DecidableEq, Repr

/-- Where the message thread stands in the handlers. -/
inductive MsgPc
  /-- about to receive the next message -/
  | idle
  -- on_network_receive
  | lookup
  | read (pos : ℤ)
  | terminate (pos : ℤ)
  | resolve
  | useCount (fileinfo : AsciiProtoFileinfo)
  /-- `n` is the use count read before -/
  | makeShared (fileinfo : AsciiProtoFileinfo) (n : ℕ)
  | fill (fileinfo : AsciiProtoFileinfo)
  | close
  -- on_network_close
  | reset
  -- on_receive_complete
  | check
  | handOver
  /-- inside `NewFile` -/
  | newFile
  | toWaiting
  -- notify_status
  | setState (status : RcvState)
  | write (status : RcvState)
  deriving DecidableEq, Repr

/-- Entries of the history. -/
inductive Obs
  /-- a read of the connection has completed -/
  | arrived (d : Bytes)
  | posted (m : Msg)
  /-- `bufrcv_` was written outside its bounds -/
  | outOfBounds
  /-- the counter of a file announced with `size` bytes was set to zero -/
  | taken (size : ℤ)
  /-- `DataArrive` was called with `n` bytes, on these values of the two counters -/
  | stored (n : ℕ) (rcvsize filesize : ℤ)
  /-- the two counters of the file were found equal -/
  | checked (a : Addr) (f : FileInfo)
  /-- `NewFile` was called -/
  | handed (a : Addr) (f : FileInfo)
  /-- `NewFile` read `running_` -/
  | tested (a : Addr) (running : Bool)
  | appended (a : Addr)
  | sent (status : RcvState)
  deriving DecidableEq

/-- `FileReceiver`, with its connection, its message queue and its threads. -/
structure FileReceiver where
  state : RcvState
  fileptr : Option Addr
  /-- whether `tcpptr_` is set -/
  tcpptr : Bool
  bufrcv : PackBuf
  tcp : TCPClient
  mq : List Msg
  io : IoPc
  msg : MsgPc
  log : List Obs

namespace FileReceiver

/-- A receiver coupled to an open connection.  The contents of the two buffers
are arbitrary. -/
def init (bufrcv bufconn : PackBuf) : FileReceiver where
  state := .waiting
  fileptr := none
  tcpptr := true
  bufrcv := bufrcv
  tcp := { usebuf := false, bytercv := 0, bufrcv := bufconn, crcrcv := [], isOpen := true }
  mq := []
  io := .idle
  msg := .idle
  log := []

end FileReceiver

/-- What a step of a receiver sees. -/
structure RcvView where
  rcv : FileReceiver
  heap : Heap
  brk : Addr
  halted : Bool

namespace FileReceiver

/-! ### The I/O thread -/

/-- Capacity of the message queue. -/
def mqCapacity : ℕ := 1024

/-- A read of at least one byte completes. -/
def receive (r : FileReceiver) (d : Bytes) : Option FileReceiver :=
  if r.io = .idle ∧ r.tcp.isOpen ∧ d ≠ [] ∧ d.length ≤ tcpPackSize then
    some { r with tcp := r.tcp.land d, io := .landed d.length, log := r.log ++ [.arrived d] }
  else none

/-- The read ends with an error. -/
def receiveError (r : FileReceiver) : Option FileReceiver :=
  if r.io = .idle then some { r with io := .post .networkClose } else none

/-- One step of the I/O thread in `handle_read` and `network_receive`. -/
def ioStep (v : RcvView) : Option RcvView :=
  let r := v.rcv
  match r.io with
  | .idle | .stopped => none
  | .landed n => some { v with rcv := { r with tcp := r.tcp.handleRead n, io := .testReady } }
  | .testReady =>
    some { v with rcv := { r with io := if r.state = .ready then .read else .testWaiting } }
  | .read =>
    if r.tcpptr then
      let (d, tcp) := r.tcp.read tcpPackSize 0
      some { v with rcv := { r with
        tcp := tcp, bufrcv := r.bufrcv.write d, io := .arrive d.length } }
    else none
  | .arrive n =>
    match r.fileptr with
    | none => none
    | some a =>
      let f := v.heap a
      let log := r.log ++ [.stored n f.rcvsize f.filesize]
      -- the bytes are copied before anything looks at the size
      match f.dataArrive (r.bufrcv.bytes.take n) with
      | none => some { v with rcv := { r with log := log }, halted := true }
      | some (f', full) =>
        some { v with
          rcv := { r with io := if full then .post .receiveComplete else .rearm, log := log }
          heap := Function.update v.heap a f' }
  | .testWaiting =>
    -- in any other state the bytes are dropped without a message
    some { v with rcv := { r with
      io := if r.state = .waiting then .post .networkReceive else .rearm } }
  | .post m =>
    -- `send` blocks while the queue is full
    if r.mq.length < mqCapacity then
      some { v with rcv := { r with
        mq := r.mq ++ [m]
        io := if m = .networkClose then .stopped else .rearm
        log := r.log ++ [.posted m] } }
    else none
  | .rearm => some { v with rcv := { r with io := if r.tcp.isOpen then .idle else .stopped } }

/-! ### The message thread -/

variable {δ : Type} (dbl : DoubleLib δ)

/-- `fileptr_` must be replaced by a new object: `use_count` was `n`, and the
size of the object at hand counts only when it is not shared. -/
def mustReplace (n : ℕ) (size : Option ℤ) (fileinfo : AsciiProtoFileinfo) : Prop :=
  n = 0 ∨ 1 < n ∨ (n = 1 ∧ size ≠ some fileinfo.filesize.toInt)

instance mustReplace.decidable (n : ℕ) (size : Option ℤ) (fileinfo : AsciiProtoFileinfo) :
    Decidable (mustReplace n size fileinfo) := by
  unfold mustReplace
  infer_instance

/-- The assignments of `on_network_receive` to the file. -/
def describe (f : FileInfo) (fileinfo : AsciiProtoFileinfo) : FileInfo :=
  { f with
    gid := fileinfo.gid
    uid := fileinfo.uid
    cid := fileinfo.cid
    tmobs := fileinfo.tmobs
    subpath := fileinfo.subpath
    filename := fileinfo.filename
    rcvsize := 0 }

/-- One step of the message thread, outside its calls into the writer.
`useCount` is the current use count of `fileptr_`, `junk` the contents of newly
allocated memory, and `ok` says whether a write to the socket succeeds. -/
def msgStep (useCount : ℕ) (junk : ℕ → UInt8) (ok : Bool) (v : RcvView) : Option RcvView :=
  let r := v.rcv
  match r.msg with
  | .idle =>
    match r.mq with
    | [] => none
    | .networkReceive :: mq => some { v with rcv := { r with mq := mq, msg := .lookup } }
    | .networkClose :: mq => some { v with rcv := { r with mq := mq, msg := .reset } }
    | .receiveComplete :: mq => some { v with rcv := { r with mq := mq, msg := .check } }
  | .lookup =>
    if r.tcpptr then some { v with rcv := { r with msg := .read (r.tcp.lookup (lit "\n") 0) } }
    else none
  | .read pos =>
    if r.tcpptr then
      let (d, tcp) := r.tcp.read (pos + 1) 0
      some { v with rcv := { r with
        tcp := tcp, bufrcv := r.bufrcv.write d, msg := .terminate pos } }
    else none
  | .terminate pos =>
    -- `pos` is -1 if there was no newline
    some { v with rcv := { r with
      bufrcv := r.bufrcv.terminate pos
      msg := .resolve
      log := if pos < 0 then r.log ++ [.outOfBounds] else r.log } }
  | .resolve =>
    -- what `stoi` and `stod` throw leaves the thread
    match FtServer.resolve dbl (cstr r.bufrcv.bytes) with
    | .error _ => some { v with halted := true }
    | .ok none => some { v with rcv := { r with msg := .close } }
    | .ok (some base) =>
      if base.base.type = lit "fileinfo" then
        match base with
        | .fileinfo p => some { v with rcv := { r with msg := .useCount p } }
        | _ => none  -- excluded by `resolve_fileinfo_cast`
      else some { v with rcv := { r with msg := .idle } }
  | .useCount p => some { v with rcv := { r with msg := .makeShared p useCount } }
  | .makeShared p n =>
    if mustReplace n (r.fileptr.map fun a => (v.heap a).filesize) p then
      -- `new char[]` throws on a negative size
      match FileInfo.create p.filesize.toInt junk with
      | .error _ => some { v with halted := true }
      | .ok f => some { v with
          rcv := { r with
            fileptr := some v.brk, msg := .fill p, log := r.log ++ [.taken p.filesize.toInt] }
          heap := Function.update v.heap v.brk f
          brk := v.brk + 1 }
    else some { v with rcv := { r with msg := .fill p } }
  | .fill p =>
    match r.fileptr with
    | none => none
    | some a => some { v with
        rcv := { r with msg := .setState .ready, log := r.log ++ [.taken p.filesize.toInt] }
        heap := Function.update v.heap a (describe (v.heap a) p) }
  | .close =>
    if r.tcpptr then
      some { v with rcv := { r with tcp := { r.tcp with isOpen := false }, msg := .idle } }
    else none
  | .reset => some { v with rcv := { r with tcpptr := false, msg := .idle } }
  | .check =>
    match r.fileptr with
    | none => none
    | some a =>
      if (v.heap a).filesize = (v.heap a).rcvsize then
        some { v with rcv := { r with msg := .handOver, log := r.log ++ [.checked a (v.heap a)] } }
      else some { v with rcv := { r with msg := .setState .failure } }
  | .handOver | .newFile => none
  | .setState st => some { v with rcv := { r with state := st, msg := .write st } }
  | .write st =>
    if r.tcpptr then
      -- `write_some` throws on an error, and on a socket that is not open
      if ok ∧ r.tcp.isOpen then
        some { v with rcv := { r with
          msg := if st = .ready then .idle else .toWaiting
          log := r.log ++ [.sent st] } }
      else some { v with halted := true }
    else none
  | .toWaiting => some { v with rcv := { r with state := .waiting, msg := .idle } }

/-! ### What a step can do -/

/-- The steps of the I/O thread, one constructor for each. -/
inductive IoStep (v : RcvView) : RcvView → Prop
  | handleRead {n} (hpc : v.rcv.io = .landed n) :
      IoStep v { v with rcv := { v.rcv with tcp := v.rcv.tcp.handleRead n, io := .testReady } }
  | isReady (hpc : v.rcv.io = .testReady) (hs : v.rcv.state = .ready) :
      IoStep v { v with rcv := { v.rcv with io := .read } }
  | notReady (hpc : v.rcv.io = .testReady) (hs : v.rcv.state ≠ .ready) :
      IoStep v { v with rcv := { v.rcv with io := .testWaiting } }
  | read (hpc : v.rcv.io = .read) (ht : v.rcv.tcpptr = true) :
      IoStep v { v with rcv := { v.rcv with
        tcp := (v.rcv.tcp.read tcpPackSize 0).2
        bufrcv := v.rcv.bufrcv.write (v.rcv.tcp.read tcpPackSize 0).1
        io := .arrive (v.rcv.tcp.read tcpPackSize 0).1.length } }
  | overflow {n a} (hpc : v.rcv.io = .arrive n) (hp : v.rcv.fileptr = some a)
      (hd : (v.heap a).dataArrive (v.rcv.bufrcv.bytes.take n) = none) :
      IoStep v { v with
        rcv := { v.rcv with
          log := v.rcv.log ++ [.stored n (v.heap a).rcvsize (v.heap a).filesize] }
        halted := true }
  | arrive {n a f full} (hpc : v.rcv.io = .arrive n) (hp : v.rcv.fileptr = some a)
      (hd : (v.heap a).dataArrive (v.rcv.bufrcv.bytes.take n) = some (f, full)) :
      IoStep v { v with
        rcv := { v.rcv with
          io := if full then .post .receiveComplete else .rearm
          log := v.rcv.log ++ [.stored n (v.heap a).rcvsize (v.heap a).filesize] }
        heap := Function.update v.heap a f }
  | isWaiting (hpc : v.rcv.io = .testWaiting) (hs : v.rcv.state = .waiting) :
      IoStep v { v with rcv := { v.rcv with io := .post .networkReceive } }
  | ignored (hpc : v.rcv.io = .testWaiting) (hs : v.rcv.state ≠ .waiting) :
      IoStep v { v with rcv := { v.rcv with io := .rearm } }
  | post {m} (hpc : v.rcv.io = .post m) (hq : v.rcv.mq.length < mqCapacity) :
      IoStep v { v with rcv := { v.rcv with
        mq := v.rcv.mq ++ [m]
        io := if m = .networkClose then .stopped else .rearm
        log := v.rcv.log ++ [.posted m] } }
  | rearm (hpc : v.rcv.io = .rearm) :
      IoStep v { v with rcv := { v.rcv with io := if v.rcv.tcp.isOpen then .idle else .stopped } }

theorem ioStep_cases {v v' : RcvView} (h : ioStep v = some v') : IoStep v v' := by
  unfold ioStep at h
  dsimp only at h
  split at h
  · cases h
  · cases h
  · rename_i n hpc
    obtain rfl := Option.some.inj h
    exact .handleRead hpc
  · rename_i hpc
    obtain rfl := Option.some.inj h
    by_cases hs : v.rcv.state = .ready
    · simpa only [hs, ↓reduceIte] using IoStep.isReady hpc hs
    · simpa only [hs, ↓reduceIte] using IoStep.notReady hpc hs
  · rename_i hpc
    split at h
    · rename_i ht
      obtain rfl := Option.some.inj h
      exact .read hpc ht
    · cases h
  · rename_i n hpc
    split at h
    · cases h
    · rename_i a hp
      split at h
      · rename_i hd
        obtain rfl := Option.some.inj h
        exact .overflow hpc hp hd
      · rename_i f full hd
        obtain rfl := Option.some.inj h
        exact .arrive hpc hp hd
  · rename_i hpc
    obtain rfl := Option.some.inj h
    by_cases hs : v.rcv.state = .waiting
    · simpa only [hs, ↓reduceIte] using IoStep.isWaiting hpc hs
    · simpa only [hs, ↓reduceIte] using IoStep.ignored hpc hs
  · rename_i m hpc
    split at h
    · rename_i hq
      obtain rfl := Option.some.inj h
      exact .post hpc hq
    · cases h
  · rename_i hpc
    obtain rfl := Option.some.inj h
    exact .rearm hpc

/-- The steps of the message thread outside `NewFile`. -/
inductive MsgStep (n : ℕ) (junk : ℕ → UInt8) (ok : Bool) (v : RcvView) : RcvView → Prop
  | popReceive {q} (hpc : v.rcv.msg = .idle) (hq : v.rcv.mq = .networkReceive :: q) :
      MsgStep n junk ok v { v with rcv := { v.rcv with mq := q, msg := .lookup } }
  | popClose {q} (hpc : v.rcv.msg = .idle) (hq : v.rcv.mq = .networkClose :: q) :
      MsgStep n junk ok v { v with rcv := { v.rcv with mq := q, msg := .reset } }
  | popComplete {q} (hpc : v.rcv.msg = .idle) (hq : v.rcv.mq = .receiveComplete :: q) :
      MsgStep n junk ok v { v with rcv := { v.rcv with mq := q, msg := .check } }
  | lookup (hpc : v.rcv.msg = .lookup) (ht : v.rcv.tcpptr = true) :
      MsgStep n junk ok v { v with rcv := { v.rcv with
        msg := .read (v.rcv.tcp.lookup (lit "\n") 0) } }
  | read {pos} (hpc : v.rcv.msg = .read pos) (ht : v.rcv.tcpptr = true) :
      MsgStep n junk ok v { v with rcv := { v.rcv with
        tcp := (v.rcv.tcp.read (pos + 1) 0).2
        bufrcv := v.rcv.bufrcv.write (v.rcv.tcp.read (pos + 1) 0).1
        msg := .terminate pos } }
  | terminate {pos} (hpc : v.rcv.msg = .terminate pos) :
      MsgStep n junk ok v { v with rcv := { v.rcv with
        bufrcv := v.rcv.bufrcv.terminate pos
        msg := .resolve
        log := if pos < 0 then v.rcv.log ++ [.outOfBounds] else v.rcv.log } }
  | badText {e} (hpc : v.rcv.msg = .resolve)
      (hr : FtServer.resolve dbl (cstr v.rcv.bufrcv.bytes) = .error e) :
      MsgStep n junk ok v { v with halted := true }
  | nullText (hpc : v.rcv.msg = .resolve)
      (hr : FtServer.resolve dbl (cstr v.rcv.bufrcv.bytes) = .ok none) :
      MsgStep n junk ok v { v with rcv := { v.rcv with msg := .close } }
  | fileinfo {p} (hpc : v.rcv.msg = .resolve)
      (hr : FtServer.resolve dbl (cstr v.rcv.bufrcv.bytes) = .ok (some (.fileinfo p)))
      (ht : p.type = lit "fileinfo") :
      MsgStep n junk ok v { v with rcv := { v.rcv with msg := .useCount p } }
  | otherText {base} (hpc : v.rcv.msg = .resolve)
      (hr : FtServer.resolve dbl (cstr v.rcv.bufrcv.bytes) = .ok (some base))
      (ht : base.base.type ≠ lit "fileinfo") :
      MsgStep n junk ok v { v with rcv := { v.rcv with msg := .idle } }
  | useCount {p} (hpc : v.rcv.msg = .useCount p) :
      MsgStep n junk ok v { v with rcv := { v.rcv with msg := .makeShared p n } }
  | badSize {p c e} (hpc : v.rcv.msg = .makeShared p c)
      (hm : mustReplace c (v.rcv.fileptr.map fun a => (v.heap a).filesize) p)
      (hf : FileInfo.create p.filesize.toInt junk = .error e) :
      MsgStep n junk ok v { v with halted := true }
  | replace {p c f} (hpc : v.rcv.msg = .makeShared p c)
      (hm : mustReplace c (v.rcv.fileptr.map fun a => (v.heap a).filesize) p)
      (hf : FileInfo.create p.filesize.toInt junk = .ok f) :
      MsgStep n junk ok v { v with
        rcv := { v.rcv with
          fileptr := some v.brk
          msg := .fill p
          log := v.rcv.log ++ [.taken p.filesize.toInt] }
        heap := Function.update v.heap v.brk f
        brk := v.brk + 1 }
  | keep {p c} (hpc : v.rcv.msg = .makeShared p c)
      (hm : ¬ mustReplace c (v.rcv.fileptr.map fun a => (v.heap a).filesize) p) :
      MsgStep n junk ok v { v with rcv := { v.rcv with msg := .fill p } }
  | fill {p a} (hpc : v.rcv.msg = .fill p) (hp : v.rcv.fileptr = some a) :
      MsgStep n junk ok v { v with
        rcv := { v.rcv with
          msg := .setState .ready, log := v.rcv.log ++ [.taken p.filesize.toInt] }
        heap := Function.update v.heap a (describe (v.heap a) p) }
  | close (hpc : v.rcv.msg = .close) (ht : v.rcv.tcpptr = true) :
      MsgStep n junk ok v { v with rcv := { v.rcv with
        tcp := { v.rcv.tcp with isOpen := false }, msg := .idle } }
  | reset (hpc : v.rcv.msg = .reset) :
      MsgStep n junk ok v { v with rcv := { v.rcv with tcpptr := false, msg := .idle } }
  | equal {a} (hpc : v.rcv.msg = .check) (hp : v.rcv.fileptr = some a)
      (he : (v.heap a).filesize = (v.heap a).rcvsize) :
      MsgStep n junk ok v { v with rcv := { v.rcv with
        msg := .handOver, log := v.rcv.log ++ [.checked a (v.heap a)] } }
  | unequal {a} (hpc : v.rcv.msg = .check) (hp : v.rcv.fileptr = some a)
      (he : (v.heap a).filesize ≠ (v.heap a).rcvsize) :
      MsgStep n junk ok v { v with rcv := { v.rcv with msg := .setState .failure } }
  | setState {st} (hpc : v.rcv.msg = .setState st) :
      MsgStep n junk ok v { v with rcv := { v.rcv with state := st, msg := .write st } }
  | sent {st} (hpc : v.rcv.msg = .write st) (ht : v.rcv.tcpptr = true)
      (hok : ok = true ∧ v.rcv.tcp.isOpen = true) :
      MsgStep n junk ok v { v with rcv := { v.rcv with
        msg := if st = .ready then .idle else .toWaiting
        log := v.rcv.log ++ [.sent st] } }
  | writeError {st} (hpc : v.rcv.msg = .write st) (ht : v.rcv.tcpptr = true)
      (hok : ¬ (ok = true ∧ v.rcv.tcp.isOpen = true)) :
      MsgStep n junk ok v { v with halted := true }
  | toWaiting (hpc : v.rcv.msg = .toWaiting) :
      MsgStep n junk ok v { v with rcv := { v.rcv with state := .waiting, msg := .idle } }

theorem msgStep_cases {n : ℕ} {junk : ℕ → UInt8} {ok : Bool} {v v' : RcvView}
    (h : msgStep dbl n junk ok v = some v') : MsgStep dbl n junk ok v v' := by
  unfold msgStep at h
  dsimp only at h
  split at h
  · rename_i hpc
    split at h
    · cases h
    · rename_i q hq
      obtain rfl := Option.some.inj h
      exact .popReceive hpc hq
    · rename_i q hq
      obtain rfl := Option.some.inj h
      exact .popClose hpc hq
    · rename_i q hq
      obtain rfl := Option.some.inj h
      exact .popComplete hpc hq
  · rename_i hpc
    split at h
    · rename_i ht
      obtain rfl := Option.some.inj h
      exact .lookup hpc ht
    · cases h
  · rename_i pos hpc
    split at h
    · rename_i ht
      obtain rfl := Option.some.inj h
      exact .read hpc ht
    · cases h
  · rename_i pos hpc
    obtain rfl := Option.some.inj h
    exact .terminate hpc
  · rename_i hpc
    split at h
    · rename_i e hr
      obtain rfl := Option.some.inj h
      exact .badText hpc hr
    · rename_i hr
      obtain rfl := Option.some.inj h
      exact .nullText hpc hr
    · rename_i base hr
      split at h
      · rename_i ht
        split at h
        · rename_i p
          obtain rfl := Option.some.inj h
          exact .fileinfo hpc hr ht
        · cases h
      · rename_i ht
        obtain rfl := Option.some.inj h
        exact .otherText hpc hr ht
  · rename_i p hpc
    obtain rfl := Option.some.inj h
    exact .useCount hpc
  · rename_i p c hpc
    split at h
    · rename_i hm
      split at h
      · rename_i e hf
        obtain rfl := Option.some.inj h
        exact .badSize hpc hm hf
      · rename_i f hf
        obtain rfl := Option.some.inj h
        exact .replace hpc hm hf
    · rename_i hm
      obtain rfl := Option.some.inj h
      exact .keep hpc hm
  · rename_i p hpc
    split at h
    · cases h
    · rename_i a hp
      obtain rfl := Option.some.inj h
      exact .fill hpc hp
  · rename_i hpc
    split at h
    · rename_i ht
      obtain rfl := Option.some.inj h
      exact .close hpc ht
    · cases h
  · rename_i hpc
    obtain rfl := Option.some.inj h
    exact .reset hpc
  · rename_i hpc
    split at h
    · cases h
    · rename_i a hp
      split at h
      · rename_i he
        obtain rfl := Option.some.inj h
        exact .equal hpc hp he
      · rename_i he
        obtain rfl := Option.some.inj h
        exact .unequal hpc hp he
  · cases h
  · cases h
  · rename_i st hpc
    obtain rfl := Option.some.inj h
    exact .setState hpc
  · rename_i st hpc
    split at h
    · rename_i ht
      split at h
      · rename_i hok
        obtain rfl := Option.some.inj h
        exact .sent hpc ht hok
      · rename_i hok
        obtain rfl := Option.some.inj h
        exact .writeError hpc ht hok
    · cases h
  · rename_i hpc
    obtain rfl := Option.some.inj h
    exact .toWaiting hpc

/-- Where the handler of a message starts. -/
def handler : Msg → MsgPc
  | .networkReceive => .lookup
  | .networkClose => .reset
  | .receiveComplete => .check

variable {dbl}

/-- An idle message thread takes the first message to its handler. -/
theorem MsgStep.of_idle {n : ℕ} {junk : ℕ → UInt8} {ok : Bool} {v v' : RcvView}
    (h : MsgStep dbl n junk ok v v') (hm : v.rcv.msg = .idle) :
    ∃ m q, v.rcv.mq = m :: q ∧
      v' = { v with rcv := { v.rcv with mq := q, msg := handler m } } := by
  cases h with
  | popReceive _ hq | popClose _ hq | popComplete _ hq => exact ⟨_, _, hq, rfl⟩
  | _ => simp_all

/-- The handler of a completion ends with the assignment of `WAITING`. -/
theorem MsgStep.of_toWaiting {n : ℕ} {junk : ℕ → UInt8} {ok : Bool} {v v' : RcvView}
    (h : MsgStep dbl n junk ok v v') (hm : v.rcv.msg = .toWaiting) :
    v' = { v with rcv := { v.rcv with state := .waiting, msg := .idle } } := by
  cases h with
  | toWaiting => rfl
  | _ => simp_all

/-- The handler of a failure gives up the connection. -/
theorem MsgStep.of_reset {n : ℕ} {junk : ℕ → UInt8} {ok : Bool} {v v' : RcvView}
    (h : MsgStep dbl n junk ok v v') (hm : v.rcv.msg = .reset) :
    v' = { v with rcv := { v.rcv with tcpptr := false, msg := .idle } } := by
  cases h with
  | reset => rfl
  | _ => simp_all

/-- A completed read: what lands, and that it is not empty and fits. -/
theorem receive_cases {r r' : FileReceiver} {d : Bytes} (h : r.receive d = some r') :
    r.io = .idle ∧ d ≠ [] ∧ d.length ≤ tcpPackSize ∧
      r' = { r with
        tcp := r.tcp.land d
        io := .landed d.length
        log := r.log ++ [.arrived d] } := by
  unfold receive at h
  split at h
  · rename_i hg
    exact ⟨hg.1, hg.2.2.1, hg.2.2.2, (Option.some.inj h).symm⟩
  · cases h

theorem receiveError_cases {r r' : FileReceiver} (h : r.receiveError = some r') :
    r.io = .idle ∧ r' = { r with io := .post .networkClose } := by
  unfold receiveError at h
  split at h
  · rename_i hg
    exact ⟨hg, (Option.some.inj h).symm⟩
  · cases h

end FileReceiver

end FtServer
