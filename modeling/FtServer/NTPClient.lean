/-
FtServer/NTPClient.lean

The NTP client (`NTPClient.cpp`): the buffer that request and reply share, the
packet read from it, the clock offset, and the thread that measures it once a
minute.

A machine of the host is little-endian, so `ntohl (*(int*) &data[i])` is the
big-endian word at `i`, and a `long` that holds `htonl (x)` is stored as the four
bytes of `x` in network order and four zero bytes.  The doubles are exact rationals.

The thread is a guarded step function.  `sock` is the socket with the datagrams
that wait in it, if it is open; sends, arrivals and the end of a wait are separate
events, so replies may be late, lost, doubled or out of order.  `requests`, `periods`
and `clockSet` are histories: what went out on this socket, what the periods have
measured, and how the clock has been set.  A period is measured when `offset_` is
assigned, not when `recvfrom` returns and `valid_` is set.  `SetHost`, which nothing
calls, is left out.
-/
import FtServer.Buffer
import FtServer.Lts
import Mathlib.Algebra.Order.Field.Rat
import Mathlib.Data.Rat.Cast.Order

namespace FtServer

/-! ### Words in network order -/

/-- The bytes of `htonl (w)`. -/
def netBytes (w : UInt32) : Bytes :=
  [UInt8.ofNat (w.toNat / 2 ^ 24), UInt8.ofNat (w.toNat / 2 ^ 16),
    UInt8.ofNat (w.toNat / 2 ^ 8), UInt8.ofNat w.toNat]

/-- The bytes of a `long` that holds `htonl (w)`. -/
def longBytes (w : UInt32) : Bytes := netBytes w ++ [0, 0, 0, 0]

/-- The word that bytes in network order spell. -/
def wordOf (b : Bytes) : UInt32 := UInt32.ofNat (b.foldl (fun v x => v * 256 + x.toNat) 0)

/-- `ntohl (*(int*) &data[i])`. -/
def ntohl (data : Bytes) (i : ℕ) : UInt32 := wordOf ((data.drop i).take 4)

@[simp] theorem netBytes_length (w : UInt32) : (netBytes w).length = 4 := rfl

@[simp] theorem longBytes_length (w : UInt32) : (longBytes w).length = 8 := rfl

/-- What `htonl` has put out `ntohl` reads back. -/
@[simp] theorem wordOf_netBytes (w : UInt32) : wordOf (netBytes w) = w := by
  have hw := w.toNat_lt
  apply UInt32.toNat_inj.mp
  simp only [wordOf, netBytes, List.foldl_cons, List.foldl_nil, UInt8.toNat_ofNat',
    UInt32.toNat_ofNat']
  omega

/-! ### The packet -/

/-- `ntp_time`: seconds, and a fraction in units of `2^-32`. -/
structure NtpTime where
  coarse : UInt32
  fine : UInt32
deriving DecidableEq

/-- `ntp_packet`. -/
structure NtpPacket where
  leapVerMode : UInt8
  stratum : UInt8
  poll : Int8
  precision : Int8
  rootDelay : Int32
  rootDispersion : Int32
  referenceIdentifier : Bytes
  referenceTimestamp : NtpTime
  originateTimestamp : NtpTime
  receiveTimestamp : NtpTime
  transmitTimestamp : NtpTime
  /-- `unsigned char reference_identifier[4]` -/
  identifier_length : referenceIdentifier.length = 4
deriving DecidableEq

/-- The members of `ntp_packet`. -/
inductive NtpField
  | leapVerMode | stratum | poll | precision | rootDelay | rootDispersion
  | referenceIdentifier
  | referenceCoarse | referenceFine | originateCoarse | originateFine
  | receiveCoarse | receiveFine | transmitCoarse | transmitFine
deriving DecidableEq

/-- `sizeof` of the member. -/
def NtpField.size : NtpField → ℕ
  | .leapVerMode | .stratum | .poll | .precision => 1
  | _ => 4

/-- `NTP_PCK_LEN` -/
def ntpPckLen : ℕ := 48

/-- `JAN_1970` -/
def jan1970 : ℕ := 0x83AA7E80

/-- `UINTMAX` -/
def uintMax : ℕ := 4294967295

/-- A `struct timeval` that `gettimeofday` has filled. -/
structure Timeval where
  tvSec : ℤ
  tvUsec : ℕ
  tvUsec_lt : tvUsec < 1000000
deriving DecidableEq

/-- The time `n` seconds later. -/
def Timeval.after (tv : Timeval) (n : ℕ) : Timeval := { tv with tvSec := tv.tvSec + n }

/-- `pack_`, which holds the request and then the reply. -/
structure NtpBuffer where
  bytes : Bytes
  length_eq : bytes.length = ntpPckLen * 8
deriving DecidableEq

/-- A `memcpy` into the buffer. -/
def NtpBuffer.copy (pack : NtpBuffer) (off : ℕ) (d : Bytes) : NtpBuffer :=
  ⟨overlay pack.bytes off d, by rw [overlay_length, pack.length_eq]⟩

/-- The seconds of a request: `JAN_1970 + tv.tv_sec`, cut to 32 bits by `htonl`. -/
def Timeval.coarse (tv : Timeval) : UInt32 := UInt32.ofNat ((jan1970 + tv.tvSec) % 2 ^ 32).toNat

/-- Its fraction: `(unsigned int) (tv.tv_usec * UINTMAX * 1E-6)`. -/
def Timeval.fine (tv : Timeval) : UInt32 := UInt32.ofNat (tv.tvUsec * uintMax / 1000000)

/-- The first word of a request, from `LI`, `VN`, `MODE`, `STRATUM`, `POLL` and `PREC`. -/
def ntpHeader : UInt32 :=
  let li : UInt32 := 0
  let version : UInt32 := 4
  let mode : UInt32 := 3
  let stratum : UInt32 := 0
  let poll : UInt32 := 4
  let prec : UInt32 := -6
  (li <<< 30) ||| (version <<< 27) ||| (mode <<< 24) ||| (stratum <<< 16) ||| (poll <<< 8) |||
    (prec &&& 0xff)

/-- `1 << 16`, the root delay and the root dispersion of a request. -/
def oneSecond : UInt32 := 0x10000

/-- `construct_packet ()` at the time `tv`. -/
def constructPacket (pack : NtpBuffer) (tv : Timeval) : NtpBuffer :=
  let data := pack.copy 0 (List.replicate ntpPckLen 0)
  let data := data.copy 0 (longBytes ntpHeader)
  let data := data.copy 4 (longBytes oneSecond)
  let data := data.copy 8 (longBytes oneSecond)
  let data := data.copy 40 (longBytes tv.coarse)
  data.copy 44 (longBytes tv.fine)

/-- What `sendto` puts out. -/
def NtpBuffer.request (pack : NtpBuffer) : Bytes := pack.bytes.take ntpPckLen

/-- `recvfrom (.., data, NTP_PCK_LEN * 8, ..)` of the datagram `d`. -/
def NtpBuffer.recvfrom (pack : NtpBuffer) (d : Bytes) : NtpBuffer :=
  pack.copy 0 (d.take (ntpPckLen * 8))

/-- What `strcpy (reference_identifier, &data[12])` writes, terminator included. -/
def strcpyBytes (data : Bytes) : Bytes := cstr (data.drop 12) ++ [0]

/-- The timestamp at `i`. -/
def ntpTimeAt (data : Bytes) (i : ℕ) : NtpTime := ⟨ntohl data i, ntohl data (i + 4)⟩

/-- The assignments of `get_time` in their order: what `strcpy` writes behind the
identifier is overwritten by the timestamps that follow. -/
def decode (data : Bytes) (old : NtpPacket) : NtpPacket where
  leapVerMode := data.getD 0 0
  stratum := data.getD 1 0
  poll := (data.getD 2 0).toInt8
  precision := (data.getD 3 0).toInt8
  rootDelay := (ntohl data 4).toInt32
  rootDispersion := (ntohl data 8).toInt32
  referenceIdentifier := overlay old.referenceIdentifier 0 (strcpyBytes data)
  referenceTimestamp := ntpTimeAt data 16
  originateTimestamp := ntpTimeAt data 24
  receiveTimestamp := ntpTimeAt data 32
  transmitTimestamp := ntpTimeAt data 40
  identifier_length := by rw [overlay_length, old.identifier_length]

/-- The stores of these assignments: the member each is meant for, and how many
bytes it writes from there on. -/
def stores (data : Bytes) : List (NtpField × ℕ) :=
  [(.leapVerMode, 1), (.stratum, 1), (.poll, 1), (.precision, 1), (.rootDelay, 4),
    (.rootDispersion, 4), (.referenceIdentifier, (strcpyBytes data).length),
    (.referenceCoarse, 4), (.referenceFine, 4), (.originateCoarse, 4), (.originateFine, 4),
    (.receiveCoarse, 4), (.receiveFine, 4), (.transmitCoarse, 4), (.transmitFine, 4)]

/-! ### Windows of the buffer -/

section Windows

variable {pack : NtpBuffer} {tv : Timeval} {d : Bytes} {i n : ℕ}

/-- Seconds and fraction of a request stand side by side: the second copy goes
over the zero bytes of the first. -/
theorem constructPacket_transmit :
    ((constructPacket pack tv).bytes.drop 40).take 8 = netBytes tv.coarse ++ netBytes tv.fine := by
  set data := (((pack.copy 0 (List.replicate ntpPckLen 0)).copy 0 (longBytes ntpHeader)).copy 4
    (longBytes oneSecond)).copy 8 (longBytes oneSecond) with hdata
  have hbytes : (constructPacket pack tv).bytes =
      overlay (overlay data.bytes 40 (longBytes tv.coarse)) 44 (longBytes tv.fine) := rfl
  have hlen : data.bytes.length = 384 := data.length_eq
  have hcoarse : (((constructPacket pack tv).bytes.drop 40).take 4) = netBytes tv.coarse := by
    rw [hbytes, overlay_window (by simp), overlay_window_inside (by simp [hlen]) le_rfl (by simp)]
    rfl
  have hfine : (((constructPacket pack tv).bytes.drop 44).take 4) = netBytes tv.fine := by
    rw [hbytes, overlay_window_inside (by simp [hlen]) le_rfl (by simp)]
    rfl
  rw [← hcoarse, ← hfine, show 44 = 40 + 4 by rfl, ← List.drop_drop, ← List.take_add]

theorem request_transmit : (((constructPacket pack tv).request).drop 40).take 8 =
    netBytes tv.coarse ++ netBytes tv.fine := by
  rw [← @constructPacket_transmit pack, NtpBuffer.request, List.drop_take, List.take_take]
  rfl

/-- The first bytes of a whole packet are in the buffer. -/
theorem recvfrom_window (hd : ntpPckLen ≤ d.length) (hn : i + n ≤ ntpPckLen) :
    ((pack.recvfrom d).bytes.drop i).take n = (d.drop i).take n := by
  have hlen := pack.length_eq
  have htake : (d.take (ntpPckLen * 8)).length = min (ntpPckLen * 8) d.length :=
    List.length_take
  rw [NtpBuffer.recvfrom, NtpBuffer.copy, overlay_window_inside (by omega) (Nat.zero_le i)
    (by omega), Nat.sub_zero, List.drop_take, List.take_take, Nat.min_eq_left (by omega)]

theorem ntohl_recvfrom (hd : ntpPckLen ≤ d.length) (hi : i + 4 ≤ ntpPckLen) :
    ntohl (pack.recvfrom d).bytes i = ntohl d i := by
  rw [ntohl, ntohl, recvfrom_window hd hi]

theorem ntohl_congr {a b : Bytes} {i j : ℕ} (h : (a.drop i).take 4 = (b.drop j).take 4) :
    ntohl a i = ntohl b j := by
  rw [ntohl, ntohl, h]

/-- Timestamps are equal if their bytes are. -/
theorem ntpTimeAt_congr {a b : Bytes} {i j : ℕ} (h : (a.drop i).take 8 = (b.drop j).take 8) :
    ntpTimeAt a i = ntpTimeAt b j := by
  have hcoarse := congrArg (List.take 4) h
  have hfine := congrArg (List.drop 4) h
  rw [List.take_take, List.take_take] at hcoarse
  rw [List.drop_take, List.drop_take, List.drop_drop, List.drop_drop] at hfine
  rw [ntpTimeAt, ntpTimeAt, ntohl_congr hcoarse, ntohl_congr hfine]

/-- The timestamp that two words in network order make up. -/
theorem ntpTimeAt_netBytes {a : Bytes} {coarse fine : UInt32}
    (h : (a.drop i).take 8 = netBytes coarse ++ netBytes fine) :
    ntpTimeAt a i = ⟨coarse, fine⟩ := by
  have hcongr := @ntpTimeAt_congr a (netBytes coarse ++ netBytes fine) i 0 (by rw [h]; rfl)
  have hcoarse : ntohl (netBytes coarse ++ netBytes fine) 0 = coarse := wordOf_netBytes coarse
  have hfine : ntohl (netBytes coarse ++ netBytes fine) 4 = fine := wordOf_netBytes fine
  rw [hcongr, ntpTimeAt, hcoarse, hfine]

theorem ntpTimeAt_recvfrom (hd : ntpPckLen ≤ d.length) (hi : i + 8 ≤ ntpPckLen) :
    ntpTimeAt (pack.recvfrom d).bytes i = ntpTimeAt d i :=
  ntpTimeAt_congr (recvfrom_window hd hi)

end Windows

/-! ### The clock -/

/-- `coarse + (double) fine / UINTMAX` -/
def NtpTime.seconds (t : NtpTime) : ℚ := t.coarse.toNat + t.fine.toNat / uintMax

/-- `tv.tv_sec + tv.tv_usec * 1E-6` -/
def Timeval.seconds (tv : Timeval) : ℚ := tv.tvSec + tv.tvUsec / 1000000

/-- `offset_` of a packet that is looked at when the clock shows `tv`. -/
def measure (packet : NtpPacket) (tv : Timeval) : ℚ :=
  ((packet.receiveTimestamp.seconds - packet.originateTimestamp.seconds) +
    (packet.transmitTimestamp.seconds - (jan1970 + tv.seconds))) * (1 / 2)

/-- Conversion of a double to an integer type. -/
def truncate (q : ℚ) : ℤ := q.num.tdiv q.den

/-- What `settimeofday` is called with: seconds and microseconds.  The sum of the source
is one of doubles, whose last microsecond may differ. -/
def corrected (tv : Timeval) (offset : ℚ) : ℤ × ℤ :=
  let t := tv.seconds + offset
  (truncate t, truncate ((t - truncate t) * 1000000))

/-- An evaluation of a packet: when the clock showed `clock`, and after which request. -/
structure Measurement where
  packet : NtpPacket
  clock : Timeval
  /-- the request that had been sent last -/
  request : Option Bytes
deriving DecidableEq

/-- What it has assigned to `offset_`. -/
def Measurement.offset (m : Measurement) : ℚ := measure m.packet m.clock

/-- The periods that are over and the one that has just been measured, the last one
first; `none` is a period without a measurement. -/
abbrev Periods := List (Option Measurement)

/-- The measurement that was made last. -/
def Periods.last? (ps : Periods) : Option Measurement := ps.findSome? id

/-- How many periods have passed since then. -/
def Periods.unmeasured (ps : Periods) : ℕ := (ps.takeWhile Option.isNone).length

/-- A call of `settimeofday`: what the clock showed, `offset_`, and the periods so far. -/
structure ClockSetting where
  clock : Timeval
  offset : ℚ
  periods : Periods
deriving DecidableEq

/-- What it is called with. -/
def ClockSetting.time (c : ClockSetting) : ℤ × ℤ := corrected c.clock c.offset

/-! ### The thread -/

/-- Where `thread_body` stands: in the sleep, before the `sendto`, the `select` or the
`recvfrom` of `get_time`, and after it has returned 1 or 0. -/
inductive NtpPc
  | sleep | send | select | recv | parsed | failed
deriving DecidableEq

structure NTPClient where
  pc : NtpPc
  /-- `sock_`: the datagrams that wait in it, `none` if it is closed -/
  sock : Option (List Bytes)
  pack : NtpBuffer
  /-- the local `pack` of `thread_body` -/
  packet : NtpPacket
  offset : ℚ
  valid : Bool
  nfail : ℕ
  tSync : ℚ
  autoSync : Bool
  /-- what has been sent on the open socket, the last request first -/
  requests : List Bytes
  periods : Periods
  /-- the calls of `settimeofday` -/
  clockSet : List ClockSetting
deriving DecidableEq

/-- `NTPClient (hostIP, port, tSync)`, with the memory that `new` and the stack hold. -/
def NTPClient.init (tSync : ℤ) (pack : NtpBuffer) (packet : NtpPacket) : NTPClient where
  pc := .sleep
  sock := none
  pack := pack
  packet := packet
  offset := 0
  valid := false
  nfail := 0
  tSync := tSync / 1000
  autoSync := false
  requests := []
  periods := []
  clockSet := []

/-- Memory that holds nothing but zeros. -/
def zeroBuffer : NtpBuffer := ⟨List.replicate (ntpPckLen * 8) 0, List.length_replicate⟩

/-- A packet of zeros, but for the bytes of its identifier. -/
def packetWith (b : UInt8) : NtpPacket :=
  ⟨0, 0, 0, 0, 0, 0, List.replicate 4 b, ⟨0, 0⟩, ⟨0, 0⟩, ⟨0, 0⟩, ⟨0, 0⟩, List.length_replicate⟩

inductive NtpEvent
  /-- the sleep ends; whether `getaddrinfo` and `socket` succeed if they are called -/
  | wake (connected : Bool)
  /-- `construct_packet` and `sendto` -/
  | send (tv : Timeval) (ok : Bool)
  /-- a datagram reaches the socket -/
  | arrive (d : Bytes)
  | select (ready : Bool)
  | recv (ok : Bool)
  /-- the rest of the loop body; when the clock is read, and once more by `SynchClock` -/
  | finish (tv tv' : Timeval)
  /-- `SynchClock` called from outside -/
  | synchClock (tv : Timeval)
  | setSyncLimit (tSync : ℤ)
  | enableAutoSynch (enabled : Bool)

/-- The datagram answers the request: it is at least a packet, and its originate
timestamp is the transmit timestamp of the request. -/
def Answers (d request : Bytes) : Prop :=
  ntpPckLen ≤ d.length ∧ (d.drop 24).take 8 = (request.drop 40).take 8

instance (d request : Bytes) : Decidable (Answers d request) :=
  inferInstanceAs (Decidable (_ ∧ _))

namespace NTPClient

/-- The offset is beyond the limit. -/
def Drifts (s : NTPClient) : Prop := s.tSync ≤ s.offset ∨ s.offset ≤ -s.tSync

instance (s : NTPClient) : Decidable s.Drifts := inferInstanceAs (Decidable (_ ∨ _))

/-- `SynchClock ()`. -/
def synchClock (s : NTPClient) (tv : Timeval) : NTPClient :=
  if s.valid = true ∧ s.Drifts then
    { s with clockSet := s.clockSet ++ [⟨tv, s.offset, s.periods⟩], valid := false }
  else s

/-- `close (sock_); sock_ = -1;` and the return of 0. -/
def closeSock (s : NTPClient) : NTPClient :=
  { s with pc := .failed, sock := none, requests := [] }

/-- The assignment of `offset_`. -/
def measured (s : NTPClient) (tv : Timeval) : NTPClient :=
  { s with
    pc := .sleep
    offset := measure s.packet tv
    periods := some ⟨s.packet, tv, s.requests.head?⟩ :: s.periods }

/-- The loop body after `get_time` has returned 1. -/
def adjust (s : NTPClient) (tv tv' : Timeval) : NTPClient :=
  let s := s.measured tv
  if s.Drifts ∧ s.autoSync = true then s.synchClock tv' else s

/-- The loop body after it has returned 0. -/
def countFailure (s : NTPClient) : NTPClient :=
  { s with
    pc := .sleep
    nfail := s.nfail + 1
    valid := if 5 ≤ s.nfail + 1 ∧ s.valid = true then false else s.valid
    periods := none :: s.periods }

def step (s : NTPClient) : NtpEvent → Option NTPClient
  | .wake connected =>
    if s.pc = .sleep then
      match s.sock with
      | some _ => some { s with pc := .send }
      | none =>
        if connected then some { s with pc := .send, sock := some [] }
        -- `continue`: the period is over
        else some { s with periods := none :: s.periods }
    else none
  | .send tv ok =>
    if s.pc = .send then
      let pack := constructPacket s.pack tv
      if ok then
        some { s with pc := .select, pack := pack, requests := pack.request :: s.requests }
      else some { s with pack := pack }.closeSock
    else none
  | .arrive d =>
    match s.sock with
    | some queue =>
      -- servers answer what they have been sent
      if ∃ request ∈ s.requests, Answers d request then some { s with sock := some (queue ++ [d]) }
      else none
    | none => none
  | .select ready =>
    if s.pc = .select then
      if ready then
        match s.sock with
        | some (_ :: _) => some { s with pc := .recv }
        | _ => none
      else some { s with pc := .failed }
    else none
  | .recv ok =>
    if s.pc = .recv then
      if ok then
        match s.sock with
        | some (d :: queue) =>
          let pack := s.pack.recvfrom d
          some { s with
            pc := .parsed
            sock := some queue
            pack := pack
            packet := decode pack.bytes s.packet
            valid := true
            nfail := 0 }
        | _ => none
      else some s.closeSock
    else none
  | .finish tv tv' =>
    match s.pc with
    | .parsed => some (s.adjust tv tv')
    | .failed => some s.countFailure
    | _ => none
  | .synchClock tv => some (s.synchClock tv)
  | .setSyncLimit tSync => some { s with tSync := tSync / 1000 }
  | .enableAutoSynch enabled => some { s with autoSync := enabled }

section Offset

variable {s : NTPClient}

@[simp] theorem synchClock_offset (tv : Timeval) : (s.synchClock tv).offset = s.offset := by
  rw [synchClock]
  split <;> rfl

/-- A property that the assignment of `offset_` brings about and `SynchClock` keeps holds
when the loop body ends. -/
theorem adjust_induction {P : NTPClient → Prop} {tv tv' : Timeval} (h : P (s.measured tv))
    (hsynch : P ((s.measured tv).synchClock tv')) : P (s.adjust tv tv') := by
  rw [adjust]
  split
  · exact hsynch
  · exact h

@[simp] theorem adjust_offset (tv tv' : Timeval) :
    (s.adjust tv tv').offset = measure s.packet tv :=
  adjust_induction (P := fun s' => s'.offset = measure s.packet tv) rfl
    (synchClock_offset tv')

end Offset

/-! ### Periods -/

/-- The first of January 1970. -/
def epoch : Timeval := ⟨0, 0, by decide⟩

/-- A datagram that answers a request built at the time `tv`. -/
def replyTo (tv : Timeval) : Bytes :=
  List.replicate 24 0 ++ netBytes tv.coarse ++ netBytes tv.fine ++ List.replicate 16 0

/-- A period whose request is answered. -/
def answeredPeriod (tv : Timeval) : List NtpEvent :=
  [.wake true, .send tv true, .arrive (replyTo tv), .select true, .recv true, .finish tv tv]

/-- A period whose request is not answered in time. -/
def silentPeriod (tv : Timeval) : List NtpEvent :=
  [.wake true, .send tv true, .select false, .finish tv tv]

/-! ### What a step can do -/

/-- The branches of `step`. -/
inductive Moves (s : NTPClient) : NtpEvent → NTPClient → Prop
  | stay {connected : Bool} : s.pc = .sleep → s.sock.isSome →
      Moves s (.wake connected) { s with pc := .send }
  | connect : s.pc = .sleep → s.sock = none →
      Moves s (.wake true) { s with pc := .send, sock := some [] }
  | unconnected : s.pc = .sleep → s.sock = none →
      Moves s (.wake false) { s with periods := none :: s.periods }
  | sendto (tv : Timeval) : s.pc = .send →
      Moves s (.send tv true) { s with
        pc := .select
        pack := constructPacket s.pack tv
        requests := (constructPacket s.pack tv).request :: s.requests }
  | sendtoError (tv : Timeval) : s.pc = .send →
      Moves s (.send tv false) { s with pack := constructPacket s.pack tv }.closeSock
  | arrive {queue : List Bytes} {d request : Bytes} : s.sock = some queue →
      request ∈ s.requests → Answers d request →
      Moves s (.arrive d) { s with sock := some (queue ++ [d]) }
  | ready {d : Bytes} {queue : List Bytes} : s.pc = .select → s.sock = some (d :: queue) →
      Moves s (.select true) { s with pc := .recv }
  | timeout : s.pc = .select → Moves s (.select false) { s with pc := .failed }
  | recvfrom {d : Bytes} {queue : List Bytes} : s.pc = .recv → s.sock = some (d :: queue) →
      Moves s (.recv true) { s with
        pc := .parsed
        sock := some queue
        pack := s.pack.recvfrom d
        packet := decode (s.pack.recvfrom d).bytes s.packet
        valid := true
        nfail := 0 }
  | recvfromError : s.pc = .recv → Moves s (.recv false) s.closeSock
  | adjust (tv tv' : Timeval) : s.pc = .parsed → Moves s (.finish tv tv') (s.adjust tv tv')
  | countFailure (tv tv' : Timeval) : s.pc = .failed → Moves s (.finish tv tv') s.countFailure
  | synchClock (tv : Timeval) : Moves s (.synchClock tv) (s.synchClock tv)
  | setSyncLimit (tSync : ℤ) : Moves s (.setSyncLimit tSync) { s with tSync := tSync / 1000 }
  | enableAutoSynch (enabled : Bool) :
      Moves s (.enableAutoSynch enabled) { s with autoSync := enabled }

theorem moves_of_step {s s' : NTPClient} {e : NtpEvent} (h : s.step e = some s') :
    Moves s e s' := by
  cases e with
  | wake connected =>
    simp only [step] at h
    split at h
    · rename_i hpc
      split at h
      · rename_i queue hsock
        cases h
        exact .stay hpc (by rw [hsock]; rfl)
      · rename_i hsock
        cases connected <;> cases h
        · exact .unconnected hpc hsock
        · exact .connect hpc hsock
    · cases h
  | send tv ok =>
    simp only [step] at h
    split at h
    · rename_i hpc
      cases ok <;> cases h
      · exact .sendtoError tv hpc
      · exact .sendto tv hpc
    · cases h
  | arrive d =>
    simp only [step] at h
    split at h
    · rename_i queue hsock
      split at h
      · rename_i hex
        obtain ⟨request, hmem, hd⟩ := hex
        cases h
        exact .arrive hsock hmem hd
      · cases h
    · cases h
  | select ready =>
    simp only [step] at h
    split at h
    · rename_i hpc
      cases ready
      · cases h
        exact .timeout hpc
      · simp only [if_true] at h
        split at h
        · rename_i hsock
          cases h
          exact .ready hpc hsock
        · cases h
    · cases h
  | recv ok =>
    simp only [step] at h
    split at h
    · rename_i hpc
      cases ok
      · cases h
        exact .recvfromError hpc
      · simp only [if_true] at h
        split at h
        · rename_i hsock
          cases h
          exact .recvfrom hpc hsock
        · cases h
    · cases h
  | finish tv tv' =>
    simp only [step] at h
    split at h
    · rename_i hpc
      cases h
      exact .adjust tv tv' hpc
    · rename_i hpc
      cases h
      exact .countFailure tv tv' hpc
    · cases h
  | synchClock tv =>
    cases h
    exact .synchClock tv
  | setSyncLimit tSync =>
    cases h
    exact .setSyncLimit tSync
  | enableAutoSynch enabled =>
    cases h
    exact .enableAutoSynch enabled

end NTPClient

end FtServer
