/-
FtServer/ClockOffset.lean

How exact the clock offset is.  In an `Exchange` the client's clock shows `t₁` when
the request goes out and `t₄` when the answer is there, the server's clock shows `t₂`
and `t₃`, and the server's clock is ahead by `theta`:

    offset = ((t₂ - t₁) + (t₃ - t₄)) / 2

The formula gives back `theta` for equal delays.  What the client computes with are
the stamps of the packet, which are rounded and whose seconds are cut to 32 bits; the
cut takes `2 ^ 32` seconds off for each era that has gone by since 1900
(`NtpTime.IsNear`).  Only `t₄` is not cut.

`offset_near_iff` says when the offset is exact to two microseconds: the eras of the
three stamps have to cancel out, as they do until 2036, when all of them are 0.
-/
import FtServer.NTPClient
import Mathlib.Algebra.Order.Floor.Semiring
import Mathlib.Algebra.Order.Round
import Mathlib.Data.Rat.Floor
import Mathlib.Tactic.FieldSimp
import Mathlib.Tactic.Linarith
import Mathlib.Tactic.NormNum

namespace FtServer

variable {K : Type*} [Field K] [LinearOrder K] [IsStrictOrderedRing K] [FloorRing K]

/-! ### Stamps -/

/-- What `gettimeofday` puts out at the time `t`, in seconds since 1970. -/
def clockReading (t : K) : Timeval where
  tvSec := ⌊t⌋
  tvUsec := ⌊Int.fract t * 1000000⌋₊
  tvUsec_lt := by
    have hfract := Int.fract_lt_one t
    refine (Nat.floor_lt (by positivity)).mpr ?_
    push_cast
    linarith

/-- The stamp of a server at the time `t`: seconds since 1900 modulo `2 ^ 32`, and
the fraction in units of `2 ^ -32`. -/
def serverStamp (t : K) : NtpTime where
  coarse := UInt32.ofNat ((jan1970 + ⌊t⌋) % 2 ^ 32).toNat
  fine := UInt32.ofNat ⌊Int.fract t * 2 ^ 32⌋₊

/-- How often the 32-bit seconds have wrapped at the time `t`. -/
def era (t : K) : ℤ := (jan1970 + ⌊t⌋) / 2 ^ 32

/-- The two words of the stamp in network order. -/
def NtpTime.bytes (t : NtpTime) : Bytes := netBytes t.coarse ++ netBytes t.fine

/-- The stamp stands for the time `t`, with an error between `lo` and `hi`. -/
def NtpTime.IsNear (s : NtpTime) (t lo hi : K) : Prop :=
  ∃ e : K, (s.seconds : K) = jan1970 + t - 2 ^ 32 * era t + e ∧ lo ≤ e ∧ e ≤ hi

omit [IsStrictOrderedRing K] in
theorem NtpTime.seconds_cast (s : NtpTime) :
    (s.seconds : K) = s.coarse.toNat + s.fine.toNat / 4294967295 := by
  rw [NtpTime.seconds]
  push_cast [uintMax]
  rfl

omit [IsStrictOrderedRing K] in
/-- The cut takes whole eras off. -/
theorem coarse_toNat (t : K) :
    ((UInt32.ofNat ((jan1970 + ⌊t⌋) % 2 ^ 32).toNat).toNat : K) =
      jan1970 + ⌊t⌋ - 2 ^ 32 * era t := by
  have hint : ((UInt32.ofNat ((jan1970 + ⌊t⌋) % 2 ^ 32).toNat).toNat : ℤ) =
      jan1970 + ⌊t⌋ - 2 ^ 32 * era t := by
    rw [era, UInt32.toNat_ofNat']
    omega
  exact_mod_cast congrArg (Int.cast : ℤ → K) hint

/-- A reading of the clock is at most a microsecond behind. -/
theorem clockReading_near (t : K) :
    ∃ e : K, ((clockReading t).seconds : K) = t + e ∧ -(1 / 1000000) ≤ e ∧ e ≤ 0 := by
  have hle : (⌊Int.fract t * 1000000⌋₊ : K) ≤ Int.fract t * 1000000 :=
    Nat.floor_le (by positivity)
  have hlt := Nat.lt_floor_add_one (Int.fract t * 1000000)
  refine ⟨⌊Int.fract t * 1000000⌋₊ / 1000000 - Int.fract t, ?_, ?_, ?_⟩
  · rw [Timeval.seconds, clockReading]
    push_cast
    linarith [Int.floor_add_fract t]
  · linarith
  · linarith

theorem Timeval.fine_toNat (tv : Timeval) :
    tv.fine.toNat = tv.tvUsec * 4294967295 / 1000000 := by
  have hlt := tv.tvUsec_lt
  rw [Timeval.fine, UInt32.toNat_ofNat', uintMax]
  exact Nat.mod_eq_of_lt (by omega)

/-- The stamp of a request: microseconds, rounded again to the fraction. -/
theorem request_near (t : K) :
    (NtpTime.mk (clockReading t).coarse (clockReading t).fine).IsNear t
      (-(1 / 1000000) - 1 / 4294967295) 0 := by
  have hfine := (clockReading t).fine_toNat
  set usec := (clockReading t).tvUsec
  set q := usec * 4294967295 / 1000000
  have hqle : (q : K) * 1000000 ≤ usec * 4294967295 := by
    have hnat : q * 1000000 ≤ usec * 4294967295 := Nat.div_mul_le_self _ _
    exact_mod_cast hnat
  have hqlt : (usec : K) * 4294967295 < (q + 1) * 1000000 := by
    have hnat : usec * 4294967295 < (q + 1) * 1000000 := by omega
    exact_mod_cast hnat
  have hle : (usec : K) ≤ Int.fract t * 1000000 := Nat.floor_le (by positivity)
  have hlt : Int.fract t * 1000000 < (usec : K) + 1 := Nat.lt_floor_add_one _
  refine ⟨q / 4294967295 - Int.fract t, ?_, ?_, ?_⟩
  · rw [NtpTime.seconds_cast, hfine, Timeval.coarse]
    have hcoarse := coarse_toNat t
    rw [show (clockReading t).tvSec = ⌊t⌋ from rfl, hcoarse]
    linarith [Int.floor_add_fract t]
  · linarith
  · linarith

/-- The stamp of a server: its fraction is read in units of `1 / UINTMAX`. -/
theorem serverStamp_near (t : K) :
    (serverStamp t).IsNear t (-(1 / 4294967295)) (1 / 4294967295) := by
  have hfract := Int.fract_lt_one t
  have hnonneg := Int.fract_nonneg t
  have hfine : (serverStamp t).fine.toNat = ⌊Int.fract t * 2 ^ 32⌋₊ := by
    have hlt : ⌊Int.fract t * 2 ^ 32⌋₊ < 2 ^ 32 := by
      refine (Nat.floor_lt (by positivity)).mpr ?_
      push_cast
      linarith
    rw [serverStamp, UInt32.toNat_ofNat']
    exact Nat.mod_eq_of_lt hlt
  have hle : (⌊Int.fract t * 2 ^ 32⌋₊ : K) ≤ Int.fract t * 2 ^ 32 :=
    Nat.floor_le (by positivity)
  have hlt := Nat.lt_floor_add_one (Int.fract t * 2 ^ 32)
  have hpow : Int.fract t * 2 ^ 32 = Int.fract t * 4294967296 := by norm_num
  rw [hpow] at hfine hle hlt
  refine ⟨⌊Int.fract t * 4294967296⌋₊ / 4294967295 - Int.fract t, ?_, ?_, ?_⟩
  · rw [NtpTime.seconds_cast, hfine, serverStamp, coarse_toNat]
    linarith [Int.floor_add_fract t]
  · linarith
  · linarith

/-! ### The exchange -/

/-- One exchange with a server, from 1970 on. -/
structure Exchange (K : Type*) [Field K] [LinearOrder K] where
  /-- the time of the client when the request is built -/
  t₁ : K
  /-- how far the server's clock is ahead -/
  theta : K
  /-- of either way -/
  delay : K
  processing : K
  client_nonneg : 0 ≤ t₁
  server_nonneg : 0 ≤ t₁ + delay + theta
  delay_nonneg : 0 ≤ delay
  processing_nonneg : 0 ≤ processing

namespace Exchange

variable (x : Exchange K)

/-- The time of the server when the request is there. -/
def t₂ : K := x.t₁ + x.delay + x.theta

/-- The time of the server when the answer goes out. -/
def t₃ : K := x.t₂ + x.processing

/-- The time of the client when the answer is there. -/
def t₄ : K := x.t₃ - x.theta + x.delay

/-- The eras of the stamps cancel out. -/
def ErasCancel : Prop := era x.t₁ = era x.t₂ + era x.t₃

instance : Decidable x.ErasCancel := inferInstanceAs (Decidable (_ = _))

omit [IsStrictOrderedRing K] [FloorRing K] in
/-- The formula gives `theta` back. -/
theorem formula : (x.t₂ - x.t₁) + (x.t₃ - x.t₄) = 2 * x.theta := by
  rw [t₄, t₂]
  ring

/-- The datagram answers the request in this exchange. -/
structure Replies (d request : Bytes) : Prop where
  answers : Answers d request
  receive : (d.drop 32).take 8 = (serverStamp x.t₂).bytes
  transmit : (d.drop 40).take 8 = (serverStamp x.t₃).bytes

/-- An answer with nothing but the timestamps in it. -/
def reply (request : Bytes) : Bytes :=
  List.replicate 24 0 ++ (request.drop 40).take 8 ++ (serverStamp x.t₂).bytes ++
    (serverStamp x.t₃).bytes

end Exchange

theorem NtpBuffer.request_length (pack : NtpBuffer) : pack.request.length = 48 := by
  rw [NtpBuffer.request, List.length_take, pack.length_eq]
  rfl

omit [IsStrictOrderedRing K] in
theorem Exchange.replies_reply (x : Exchange K) (pack : NtpBuffer) :
    x.Replies (x.reply pack.request) pack.request := by
  set orig := (pack.request.drop 40).take 8 with horig
  have horig_len : orig.length = 8 := by
    rw [horig, List.length_take, List.length_drop, pack.request_length]
    rfl
  have hlen : ∀ t : NtpTime, t.bytes.length = 8 := fun _ => rfl
  have hreply : x.reply pack.request = List.replicate 24 0 ++
      (orig ++ ((serverStamp x.t₂).bytes ++ (serverStamp x.t₃).bytes)) := by
    simp only [Exchange.reply, List.append_assoc, horig]
  have h24 : (x.reply pack.request).drop 24 =
      orig ++ ((serverStamp x.t₂).bytes ++ (serverStamp x.t₃).bytes) := by
    rw [hreply]
    rfl
  have h32 : (x.reply pack.request).drop 32 =
      (serverStamp x.t₂).bytes ++ (serverStamp x.t₃).bytes := by
    rw [show 32 = 24 + 8 by rfl, ← List.drop_drop, h24, List.drop_left' horig_len]
  refine ⟨⟨?_, ?_⟩, ?_, ?_⟩
  · rw [hreply]
    simp [horig_len, hlen, ntpPckLen]
  · rw [h24, List.take_left' horig_len]
  · rw [h32, List.take_left' (hlen _)]
  · rw [show 40 = 32 + 8 by rfl, ← List.drop_drop, h32, List.drop_left' (hlen _),
      List.take_of_length_le (hlen _).le]

/-! ### The error of the offset -/

/-- What stands between the offset and `theta`: rounding, and half an era for every
one that does not cancel out. -/
theorem measure_error (x : Exchange K) {packet : NtpPacket}
    (h₁ : packet.originateTimestamp.IsNear x.t₁ (-(1 / 1000000) - 1 / 4294967295) 0)
    (h₂ : packet.receiveTimestamp.IsNear x.t₂ (-(1 / 4294967295)) (1 / 4294967295))
    (h₃ : packet.transmitTimestamp.IsNear x.t₃ (-(1 / 4294967295)) (1 / 4294967295)) :
    ∃ e : K, (measure packet (clockReading x.t₄) : K) - x.theta =
        2 ^ 31 * ((era x.t₁ - era x.t₂ - era x.t₃ : ℤ) : K) + e ∧
      |e| < 3 / 2000000 := by
  obtain ⟨e₁, hs₁, hlo₁, hhi₁⟩ := h₁
  obtain ⟨e₂, hs₂, hlo₂, hhi₂⟩ := h₂
  obtain ⟨e₃, hs₃, hlo₃, hhi₃⟩ := h₃
  obtain ⟨e₄, hs₄, hlo₄, hhi₄⟩ := clockReading_near x.t₄
  have hformula := x.formula
  refine ⟨((e₂ - e₁) + (e₃ - e₄)) / 2, ?_, ?_⟩
  · rw [measure]
    push_cast
    rw [hs₁, hs₂, hs₃, hs₄]
    linarith
  · rw [abs_lt]
    constructor
    · linarith
    · linarith

omit [FloorRing K] in
/-- A whole multiple of half an era is not small unless it is 0. -/
theorem abs_era_lt_iff {n : ℤ} {e : K} (he : |e| < 3 / 2000000) :
    |2 ^ 31 * (n : K) + e| < 2 / 1000000 ↔ n = 0 := by
  rw [abs_lt] at he
  constructor
  · intro h
    rw [abs_lt] at h
    have hlt : (n : K) < 1 := by linarith
    have hgt : (-1 : K) < n := by linarith
    have hlt' : n < 1 := by exact_mod_cast hlt
    have hgt' : -1 < n := by exact_mod_cast hgt
    omega
  · rintro rfl
    rw [abs_lt]
    push_cast
    constructor
    · linarith
    · linarith

/-! ### The period -/

/-- The times stamped on the packet that is read from the answer. -/
theorem decode_reply {x : Exchange K} {pack : NtpBuffer} {d : Bytes} (old : NtpPacket)
    (h : x.Replies d (constructPacket pack (clockReading x.t₁)).request) :
    let packet :=
      decode ((constructPacket pack (clockReading x.t₁)).recvfrom d).bytes old
    packet.originateTimestamp = ⟨(clockReading x.t₁).coarse, (clockReading x.t₁).fine⟩ ∧
      packet.receiveTimestamp = serverStamp x.t₂ ∧
      packet.transmitTimestamp = serverStamp x.t₃ := by
  have htime : ∀ {i : ℕ} {t : NtpTime}, i + 8 ≤ ntpPckLen → (d.drop i).take 8 = t.bytes →
      ntpTimeAt ((constructPacket pack (clockReading x.t₁)).recvfrom d).bytes i = t := by
    intro i t hi hd
    rw [ntpTimeAt_recvfrom h.answers.1 hi, ntpTimeAt_netBytes hd]
  refine ⟨htime (by decide) ?_, htime (by decide) h.receive, htime (by decide) h.transmit⟩
  rw [h.answers.2, request_transmit]
  rfl

/-- The packet is as near as its stamps. -/
theorem decode_reply_near_iff {x : Exchange K} {pack : NtpBuffer} {d : Bytes} {old : NtpPacket}
    (h : x.Replies d (constructPacket pack (clockReading x.t₁)).request) :
    |((measure (decode ((constructPacket pack (clockReading x.t₁)).recvfrom d).bytes old)
        (clockReading x.t₄) : ℚ) : K) - x.theta| < 2 / 1000000 ↔ x.ErasCancel := by
  obtain ⟨h₁, h₂, h₃⟩ := decode_reply old h
  obtain ⟨e, he, hsmall⟩ := measure_error x (h₁ ▸ request_near x.t₁)
    (h₂ ▸ serverStamp_near x.t₂) (h₃ ▸ serverStamp_near x.t₃)
  rw [he, abs_era_lt_iff hsmall, Exchange.ErasCancel]
  omega

/-- The events of a period in which the datagram `d` is the answer. -/
def Exchange.period (x : Exchange K) (d : Bytes) (tv : Timeval) : List NtpEvent :=
  [.send (clockReading x.t₁) true, .arrive d, .select true, .recv true,
    .finish (clockReading x.t₄) tv]

namespace NTPClient

variable {s : NTPClient}

/-- A period whose answer arrives runs to its end, and the offset is the one of the
packet. -/
theorem run_period {x : Exchange K} {d : Bytes} (tv : Timeval) (hpc : s.pc = .send)
    (hsock : s.sock = some [])
    (hd : Answers d (constructPacket s.pack (clockReading x.t₁)).request) :
    ∃ s', Lts.run step s (x.period d tv) = some s' ∧
      s'.offset = measure
        (decode ((constructPacket s.pack (clockReading x.t₁)).recvfrom d).bytes s.packet)
        (clockReading x.t₄) := by
  set pack := constructPacket s.pack (clockReading x.t₁) with hpack
  set s₁ := { s with
    pc := .select, pack := pack, requests := pack.request :: s.requests } with hs₁
  have hsend : s.step (.send (clockReading x.t₁) true) = some s₁ := by
    rw [step, if_pos hpc]
    rfl
  have harrive : s₁.step (.arrive d) = some { s₁ with sock := some [d] } := by
    have hex : ∃ request ∈ s₁.requests, Answers d request :=
      ⟨pack.request, List.mem_cons_self .., hd⟩
    simp only [step, show s₁.sock = some [] from hsock, if_pos hex, List.nil_append]
  rw [Exchange.period, Lts.run_cons hsend, Lts.run_cons harrive]
  exact ⟨_, rfl, adjust_offset ..⟩

end NTPClient

/-- **When the offset is exact.** -/
theorem offset_near_iff (x : Exchange K) {s : NTPClient} {d : Bytes} (tv : Timeval)
    (hpc : s.pc = .send) (hsock : s.sock = some [])
    (hd : x.Replies d (constructPacket s.pack (clockReading x.t₁)).request) :
    ∃ s', Lts.run NTPClient.step s (x.period d tv) = some s' ∧
      (|(s'.offset : K) - x.theta| < 2 / 1000000 ↔ x.ErasCancel) := by
  obtain ⟨s', hrun, hoffset⟩ := NTPClient.run_period tv hpc hsock hd.answers
  exact ⟨s', hrun, by rw [hoffset, decode_reply_near_iff hd]⟩

/-- A client in front of its first request. -/
def freshClient : NTPClient :=
  { NTPClient.init 5 zeroBuffer (packetWith 0) with
    pc := .send
    sock := some [] }

/-- An exchange in 2023 with a server that is a second and a half ahead. -/
def exchange2023 : Exchange ℚ where
  t₁ := 1700000000
  theta := 3 / 2
  delay := 1 / 100
  processing := 1 / 1000
  client_nonneg := by norm_num
  server_nonneg := by norm_num
  delay_nonneg := by norm_num
  processing_nonneg := by norm_num

/-- An exchange in 2036, at the first second of the next era, without any delay. -/
def exchange2036 : Exchange ℚ where
  t₁ := 2085978496
  theta := 0
  delay := 0
  processing := 0
  client_nonneg := by norm_num
  server_nonneg := by norm_num
  delay_nonneg := by norm_num
  processing_nonneg := by norm_num

theorem offset_near_2023 : ∃ s', Lts.run NTPClient.step freshClient
      (exchange2023.period (exchange2023.reply
        (constructPacket freshClient.pack (clockReading exchange2023.t₁)).request)
        (clockReading exchange2023.t₄)) = some s' ∧
    |s'.offset - 3 / 2| < 2 / 1000000 := by
  obtain ⟨s', hrun, hnear⟩ := offset_near_iff exchange2023
    (clockReading exchange2023.t₄) (show freshClient.pc = .send from rfl) rfl
    (exchange2023.replies_reply _)
  exact ⟨s', hrun, by simpa [exchange2023] using hnear.mpr (by decide +kernel)⟩

/-- In 2036 the offset is off by half an era. -/
theorem not_offset_near_2036 :
    ¬ ∀ (x : Exchange ℚ) (s : NTPClient) (d : Bytes) (tv : Timeval), s.pc = .send →
      s.sock = some [] →
      x.Replies d (constructPacket s.pack (clockReading x.t₁)).request →
      ∃ s', Lts.run NTPClient.step s (x.period d tv) = some s' ∧
        |s'.offset - x.theta| < 2 / 1000000 := by
  intro h
  have hreplies := exchange2036.replies_reply
    (constructPacket freshClient.pack (clockReading exchange2036.t₁))
  obtain ⟨s₁, hrun₁, hnear⟩ := h exchange2036 freshClient _
    (clockReading exchange2036.t₄) rfl rfl hreplies
  obtain ⟨s₂, hrun₂, hoffset⟩ := NTPClient.run_period (clockReading exchange2036.t₄)
    (show freshClient.pc = .send from rfl) rfl hreplies.answers
  obtain rfl : s₁ = s₂ := by simpa [hrun₁] using hrun₂
  have hcancel := (decode_reply_near_iff hreplies).mp (by simpa [hoffset] using hnear)
  exact absurd hcancel (by decide +kernel)

end FtServer
