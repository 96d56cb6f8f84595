/-
FtServer/Connection.lean

Where a connection stands while its client follows the protocol.  The threads
of a receiver pass the business of a transfer on to each other, so that at any
time only one of them has work to do for it: the I/O thread with a read that
has arrived (`Coming`, `Storing`), the queue with one message, or the message
thread in one of its handlers (`Resting`).  `At` lists these places, each with
what has arrived, been posted, handed over and sent by then (`Ledger`) and with
what the buffers and the file hold.

The one place where two threads have work is the gap between the `COMPLETE` that
the client sees and the assignment of `WAITING`: the next line may be under way
while the message thread has not left its handler.  The parameter `gap` says
whether this is allowed for.  A connection may fail while nobody is at work;
what it has received by then stays as it is.
-/
import FtServer.Client
import FtServer.Ownership

namespace FtServer

variable {δ : Type} {dbl : DoubleLib δ}

/-! ### The ledger -/

/-- What the history amounts to: the bytes that have arrived, the statuses sent,
the files handed over, and the numbers of the two messages posted.  Nothing has
been written out of bounds. -/
structure Ledger (log : List Obs) (bytes : Bytes) (sts : List RcvState) (fs : List FileInfo)
    (lines completions : ℕ) : Prop where
  bytes_eq : arrived log = bytes
  statuses_eq : statuses log = sts
  files_eq : files log = fs
  lines_eq : log.count (.posted .networkReceive) = lines
  completions_eq : log.count (.posted .receiveComplete) = completions
  clean : .outOfBounds ∉ log

/-- Entries that the ledger does not look at. -/
def Obs.neutral : Obs → Bool
  | .taken _ | .stored .. | .checked .. | .tested .. | .appended _ | .posted .networkClose => true
  | .arrived _ | .posted .networkReceive | .posted .receiveComplete | .outOfBounds
  | .handed .. | .sent _ => false

namespace Ledger

variable {log : List Obs} {bytes : Bytes} {sts : List RcvState} {fs : List FileInfo} {n m : ℕ}

theorem nil : Ledger [] [] [] [] 0 0 := by
  constructor <;> simp [arrived, reads, statuses, files]

theorem neutral (h : Ledger log bytes sts fs n m) {o : Obs} (ho : o.neutral = true) :
    Ledger (log ++ [o]) bytes sts fs n m := by
  obtain ⟨rfl, rfl, rfl, rfl, rfl, hc⟩ := h
  cases o with
  | posted msg =>
    cases msg with
    | networkClose => constructor <;> simp [arrived, reads, statuses, files, hc]
    | networkReceive | receiveComplete => cases ho
  | taken | stored | checked | tested | appended =>
    constructor <;> simp [arrived, reads, statuses, files, hc]
  | arrived | outOfBounds | handed | sent => cases ho

theorem arrive (h : Ledger log bytes sts fs n m) (d : Bytes) :
    Ledger (log ++ [.arrived d]) (bytes ++ d) sts fs n m := by
  obtain ⟨rfl, rfl, rfl, rfl, rfl, hc⟩ := h
  constructor <;> simp [arrived, reads, statuses, files, hc]

theorem postLine (h : Ledger log bytes sts fs n m) :
    Ledger (log ++ [.posted .networkReceive]) bytes sts fs (n + 1) m := by
  obtain ⟨rfl, rfl, rfl, rfl, rfl, hc⟩ := h
  constructor <;> simp [arrived, reads, statuses, files, hc]

theorem postComplete (h : Ledger log bytes sts fs n m) :
    Ledger (log ++ [.posted .receiveComplete]) bytes sts fs n (m + 1) := by
  obtain ⟨rfl, rfl, rfl, rfl, rfl, hc⟩ := h
  constructor <;> simp [arrived, reads, statuses, files, hc]

theorem hand (h : Ledger log bytes sts fs n m) (a : Addr) (f : FileInfo) :
    Ledger (log ++ [.handed a f]) bytes sts (fs ++ [f]) n m := by
  obtain ⟨rfl, rfl, rfl, rfl, rfl, hc⟩ := h
  constructor <;> simp [arrived, reads, statuses, files, hc]

theorem send (h : Ledger log bytes sts fs n m) (st : RcvState) :
    Ledger (log ++ [.sent st]) bytes (sts ++ [st]) fs n m := by
  obtain ⟨rfl, rfl, rfl, rfl, rfl, hc⟩ := h
  constructor <;> simp [arrived, reads, statuses, files, hc]

end Ledger

/-! ### What the buffers and the file hold -/

/-- The connection is open, unbuffered, and not given up. -/
structure Live (tcp : TCPClient) (tcpptr : Bool) : Prop where
  usebuf : tcp.usebuf = false
  isOpen : tcp.isOpen = true
  tcpptr_eq : tcpptr = true

/-- The read `d` has been taken note of in the buffer of the connection. -/
structure Holds (tcp : TCPClient) (d : Bytes) : Prop where
  bytercv : tcp.bytercv = d.length
  content : tcp.content = d
  fits : d.length ≤ tcpPackSize

/-- The file is described as the transfer says and holds its first `k` bytes. -/
structure Holding (t : Transfer dbl) (k : ℕ) (f : FileInfo) : Prop where
  gid : f.gid = t.info.gid
  uid : f.uid = t.info.uid
  cid : f.cid = t.info.cid
  tmobs : f.tmobs = t.info.tmobs
  subpath : f.subpath = t.info.subpath
  filename : f.filename = t.info.filename
  filesize : f.filesize = t.data.length
  rcvsize : f.rcvsize = k
  data : f.filedata.take k = t.data.take k

/-- A file that holds all the bytes is the file of the transfer. -/
theorem Holding.eq_file {t : Transfer dbl} {f : FileInfo} (h : Holding t t.data.length f) :
    f = t.file := by
  obtain ⟨h₁, h₂, h₃, h₄, h₅, h₆, hsize, hrcv, hdata⟩ := h
  have hlen : f.filedata.length = t.data.length := by
    have := f.filedata_length
    omega
  rw [← hlen, List.take_length, hlen, List.take_length] at hdata
  obtain ⟨gid, uid, cid, tmobs, subpath, filename, filesize, rcvsize, filedata, hfd⟩ := f
  dsimp only at h₁ h₂ h₃ h₄ h₅ h₆ hsize hrcv hdata
  subst h₁ h₂ h₃ h₄ h₅ h₆ hsize hrcv hdata
  rfl

/-- Describing an object of the announced size starts the transfer. -/
theorem Holding.describe (t : Transfer dbl) {f : FileInfo} (hsize : f.filesize = t.data.length) :
    Holding t 0 (FileReceiver.describe f t.info) := by
  constructor <;> first | rfl | exact hsize

/-- The next bytes of the transfer are stored behind the ones that are there. -/
theorem Holding.arrive {t : Transfer dbl} {k : ℕ} {f f' : FileInfo} {d : Bytes} {full : Bool}
    (h : Holding t k f) (hk : k + d.length ≤ t.data.length)
    (hd : d = (t.data.drop k).take d.length) (harr : f.dataArrive d = some (f', full)) :
    Holding t (k + d.length) f' ∧ full = decide (t.data.length ≤ k + d.length) := by
  obtain ⟨-, hdata, hrcv, hsize, hg, hu, hc, ht, hs, hn, hfull⟩ := FileInfo.dataArrive_spec harr
  have hlen : f.filedata.length = t.data.length := by
    have := f.filedata_length
    have := h.filesize
    omega
  have hrcv' : f'.rcvsize = ((k + d.length : ℕ) : ℤ) := by
    rw [hrcv, h.rcvsize]
    omega
  refine ⟨⟨hg.trans h.gid, hu.trans h.uid, hc.trans h.cid, ht.trans h.tmobs, hs.trans h.subpath,
    hn.trans h.filename, hsize.trans h.filesize, hrcv', ?_⟩, ?_⟩
  · -- the copy goes to where the bytes stored so far end
    have hext := overlay_take_extend h.data (by omega) hk (n := d.length)
    rw [hdata, h.rcvsize, Int.toNat_natCast]
    rwa [← hd] at hext
  · rw [hfull, hrcv', h.filesize]
    simp only [decide_eq_decide]
    omega

/-- The size of the data is within `int`. -/
theorem Transfer.data_le_intMax (t : Transfer dbl) : (t.data.length : ℤ) ≤ intMax := by
  have h : t.info.filesize.toInt < 2 ^ 31 := t.info.filesize.toInt_lt
  have hmax : intMax = 2 ^ 31 - 1 := by decide
  have := t.filesize_eq
  omega

/-! ### Places -/

/-- Nothing is under way in the I/O thread but a failure of the connection, and
the queue holds `ms`, before the message that reports the failure. -/
def Quiet (io : IoPc) (mq ms : List Msg) : Prop :=
  (mq = ms ∧ (io = .idle ∨ io = .rearm ∨ io = .post .networkClose)) ∨
    (mq = ms ++ [.networkClose] ∧ io = .stopped)

/-- Between two transfers the message thread is done, or has `WAITING` still to
assign. -/
def Between (msg : MsgPc) (state : RcvState) : Prop :=
  (msg = .idle ∧ state = .waiting) ∨ (msg = .toWaiting ∧ state = .complete)

/-- The read `d` of `n` bytes has landed at the start of the buffer. -/
structure Landed (tcp : TCPClient) (d : Bytes) (n : ℕ) : Prop where
  length : n = d.length
  fits : d.length ≤ tcpPackSize
  bytes : tcp.bufrcv.bytes.take n = d

/-- The I/O thread has a line under way. -/
def Coming (tcp : TCPClient) (msg : MsgPc) (d : Bytes) : IoPc → Prop
  | .landed n => Landed tcp d n
  | .testReady | .testWaiting => Holds tcp d
  | .post .networkReceive => Holds tcp d ∧ msg = .idle
  | _ => False

/-- The I/O thread has a chunk of the file under way. -/
def Storing (tcp : TCPClient) (bufrcv : PackBuf) (d : Bytes) : IoPc → Prop
  | .landed n => Landed tcp d n
  | .testReady | .read => Holds tcp d
  | .arrive n => n = d.length ∧ bufrcv.bytes.take n = d
  | _ => False

theorem Coming.busy {tcp : TCPClient} {m : MsgPc} {d : Bytes} {io : IoPc}
    (h : Coming tcp m d io) : io.busy = true := by
  cases io with
  | landed | testReady | testWaiting => rfl
  | post msg =>
    cases msg with
    | networkReceive => rfl
    | networkClose | receiveComplete => exact h.elim
  | idle | read | arrive | rearm | stopped => exact h.elim

theorem Storing.busy {tcp : TCPClient} {bufrcv : PackBuf} {d : Bytes} {io : IoPc}
    (h : Storing tcp bufrcv d io) : io.busy = true := by
  cases io with
  | landed | testReady | read | arrive => rfl
  | idle | testWaiting | post | rearm | stopped => exact h.elim

/-- The message thread is in `on_network_receive` with the line of `t`; `priv`
are the objects that only this receiver points to. -/
def Handling (tcp : TCPClient) (bufrcv : PackBuf) (state : RcvState) (priv : FileInfo → Prop)
    (t : Transfer dbl) : MsgPc → Prop
  | .lookup => Holds tcp t.header
  | .read pos => pos = t.line.length ∧ Holds tcp t.header
  | .terminate pos => pos = t.line.length ∧ bufrcv.bytes.take (t.line.length + 1) = t.header
  | .resolve => cstr bufrcv.bytes = cstr t.line
  | .useCount p | .makeShared p _ => p = t.info
  | .fill p => p = t.info ∧ ∃ f, priv f ∧ f.filesize = t.data.length
  | .setState st => st = .ready ∧ ∃ f, priv f ∧ Holding t 0 f
  | .write st => st = .ready ∧ state = .ready ∧ ∃ f, priv f ∧ Holding t 0 f
  | _ => False

/-- The message thread is past the call of `NewFile`, or inside it. -/
def Acknowledging (state : RcvState) (c : CallPc Addr) : MsgPc → Prop
  | .newFile => c ≠ .idle
  | .setState st => st = .complete
  | .write st => st = .complete ∧ state = .complete
  | _ => False

/-- The places where the I/O thread has nothing to do, by the contents of the
queue. -/
inductive Resting (ts : List (Transfer dbl)) (r : FileReceiver) (c : CallPc Addr)
    (priv : FileInfo → Prop) : List Msg → Prop
  /-- between two transfers -/
  | between {past todo} (hts : ts = past ++ todo)
      (hl : Ledger r.log (stream past) (done past) (past.map Transfer.file) past.length
        past.length)
      (hm : Between r.msg r.state) : Resting ts r c priv []
  /-- the line is in the queue -/
  | queued {past t todo} (hts : ts = past ++ t :: todo)
      (hl : Ledger r.log (stream past ++ t.header) (done past) (past.map Transfer.file)
        (past.length + 1) past.length)
      (hm : r.msg = .idle) (hd : Holds r.tcp t.header) : Resting ts r c priv [.networkReceive]
  /-- the line is being handled -/
  | handling {past t todo} (hts : ts = past ++ t :: todo)
      (hl : Ledger r.log (stream past ++ t.header) (done past) (past.map Transfer.file)
        (past.length + 1) past.length)
      (hm : Handling r.tcp r.bufrcv r.state priv t r.msg) : Resting ts r c priv []
  /-- `k` bytes of the file are in, more are to come -/
  | loading {past t todo k} (hts : ts = past ++ t :: todo) (hk : k < t.data.length)
      (hl : Ledger r.log (stream past ++ t.header ++ t.data.take k) (done past ++ [.ready])
        (past.map Transfer.file) (past.length + 1) past.length)
      (hm : r.msg = .idle) (hs : r.state = .ready) (hf : ∃ f, priv f ∧ Holding t k f) :
      Resting ts r c priv []
  /-- the completion is in the queue -/
  | completed {past t todo} (hts : ts = past ++ t :: todo)
      (hl : Ledger r.log (stream past ++ t.header ++ t.data) (done past ++ [.ready])
        (past.map Transfer.file) (past.length + 1) (past.length + 1))
      (hm : r.msg = .idle) (hf : ∃ f, priv f ∧ Holding t t.data.length f) :
      Resting ts r c priv [.receiveComplete]
  /-- the completion is being handled, up to the call of `NewFile` -/
  | checking {past t todo} (hts : ts = past ++ t :: todo)
      (hl : Ledger r.log (stream past ++ t.header ++ t.data) (done past ++ [.ready])
        (past.map Transfer.file) (past.length + 1) (past.length + 1))
      (hm : r.msg = .check ∨ r.msg = .handOver)
      (hf : ∃ f, priv f ∧ Holding t t.data.length f) : Resting ts r c priv []
  /-- the file has been handed over -/
  | handed {past t todo} (hts : ts = past ++ t :: todo)
      (hl : Ledger r.log (stream past ++ t.header ++ t.data) (done past ++ [.ready])
        ((past ++ [t]).map Transfer.file) (past.length + 1) (past.length + 1))
      (hm : Acknowledging r.state c r.msg) : Resting ts r c priv []

/-- Where the connection stands. -/
inductive At (gap : Prop) (ts : List (Transfer dbl)) (r : FileReceiver) (c : CallPc Addr)
    (priv : FileInfo → Prop) : Prop
  | quiet {ms} (hv : Live r.tcp r.tcpptr) (hq : Quiet r.io r.mq ms) (h : Resting ts r c priv ms)
  | coming {past t todo} (hts : ts = past ++ t :: todo) (hv : Live r.tcp r.tcpptr)
      (hq : r.mq = [])
      (hl : Ledger r.log (stream past ++ t.header) (done past) (past.map Transfer.file)
        past.length past.length)
      (hio : Coming r.tcp r.msg t.header r.io)
      (hm : (r.msg = .idle ∧ r.state = .waiting) ∨
        (gap ∧ r.msg = .toWaiting ∧ r.state = .complete))
  | storing {past t todo k d} (hts : ts = past ++ t :: todo) (hv : Live r.tcp r.tcpptr)
      (hq : r.mq = [])
      (hd : d ≠ []) (hk : k + d.length ≤ t.data.length)
      (hdata : d = (t.data.drop k).take d.length)
      (hl : Ledger r.log (stream past ++ t.header ++ t.data.take (k + d.length))
        (done past ++ [.ready]) (past.map Transfer.file) (past.length + 1) past.length)
      (hio : Storing r.tcp r.bufrcv d r.io) (hm : r.msg = .idle) (hs : r.state = .ready)
      (hf : ∃ f, priv f ∧ Holding t k f)
  | full {past t todo} (hts : ts = past ++ t :: todo) (hv : Live r.tcp r.tcpptr)
      (hq : r.mq = [])
      (hl : Ledger r.log (stream past ++ t.header ++ t.data) (done past ++ [.ready])
        (past.map Transfer.file) (past.length + 1) past.length)
      (hio : r.io = .post .receiveComplete) (hm : r.msg = .idle)
      (hf : ∃ f, priv f ∧ Holding t t.data.length f)
  /-- the connection has failed between two transfers -/
  | closedBetween {past todo} (hts : ts = past ++ todo) (hio : r.io = .stopped) (hq : r.mq = [])
      (hm : r.msg = .reset ∨ r.msg = .idle)
      (hl : Ledger r.log (stream past) (done past) (past.map Transfer.file) past.length
        past.length)
      (ho : r.tcp.isOpen = true)
  /-- the connection has failed during a transfer -/
  | closedLoading {past t todo k} (hts : ts = past ++ t :: todo) (hio : r.io = .stopped)
      (hq : r.mq = []) (hm : r.msg = .reset ∨ r.msg = .idle) (hk : k < t.data.length)
      (hl : Ledger r.log (stream past ++ t.header ++ t.data.take k) (done past ++ [.ready])
        (past.map Transfer.file) (past.length + 1) past.length)
      (ho : r.tcp.isOpen = true)

end FtServer
