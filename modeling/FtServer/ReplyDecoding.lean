/-
FtServer/ReplyDecoding.lean

What a packet is read from.  `get_time` does not look at the length of a datagram, so
the fields behind the end of a short one come from what the buffer held before, and
it copies the reference identifier with `strcpy`, up to the first NUL that follows.

`packetOf` is the packet that the datagram itself spells.  `reads_iff` says for which
datagrams `get_time` finds just that packet, whatever the buffer and the old packet
hold, with every store inside its member: the datagram has to be a whole packet, with
an identifier of three letters and a NUL.
-/
import FtServer.NTPClient

namespace FtServer

/-! ### The packet of a datagram -/

/-- The packet spelled by a datagram. -/
def packetOf (d : Bytes) (h : ntpPckLen ≤ d.length) : NtpPacket where
  leapVerMode := d.getD 0 0
  stratum := d.getD 1 0
  poll := (d.getD 2 0).toInt8
  precision := (d.getD 3 0).toInt8
  rootDelay := (ntohl d 4).toInt32
  rootDispersion := (ntohl d 8).toInt32
  referenceIdentifier := (d.drop 12).take 4
  referenceTimestamp := ntpTimeAt d 16
  originateTimestamp := ntpTimeAt d 24
  receiveTimestamp := ntpTimeAt d 32
  transmitTimestamp := ntpTimeAt d 40
  identifier_length := by
    rw [ntpPckLen] at h
    rw [List.length_take, List.length_drop]
    omega

/-- The packet in `s` is the one of the datagram `d`, which is in the buffer, and no
store has left its member. -/
structure Reads (d : Bytes) (s : NTPClient) : Prop where
  packet : ∃ h, s.packet = packetOf d h
  stores : ∀ w ∈ stores s.pack.bytes, w.2 ≤ w.1.size

/-- A whole packet whose identifier is three letters and a NUL. -/
structure PlainReply (d : Bytes) : Prop where
  length : ntpPckLen ≤ d.length
  identifier : ∃ a b c, (d.drop 12).take 4 = [a, b, c, 0] ∧ a ≠ 0 ∧ b ≠ 0 ∧ c ≠ 0

/-! ### The identifier -/

/-- Only the identifier can be written past its end. -/
theorem stores_inside_iff {data : Bytes} :
    (∀ w ∈ stores data, w.2 ≤ w.1.size) ↔ (cstr (data.drop 12)).length ≤ 3 := by
  have hlen : (strcpyBytes data).length = (cstr (data.drop 12)).length + 1 := List.length_append
  simp only [stores, List.forall_mem_cons, NtpField.size, hlen]
  simp only [le_refl, List.not_mem_nil, false_imp_iff, implies_true, and_true, true_and]
  exact Nat.add_le_add_iff_right

/-- Where the text ends that starts with four given bytes. -/
theorem cstr_length_iff {a b c e : UInt8} {rest : Bytes} :
    (cstr (a :: b :: c :: e :: rest)).length = 3 ↔ a ≠ 0 ∧ b ≠ 0 ∧ c ≠ 0 ∧ e = 0 := by
  by_cases ha : a = 0
  · simp [cstr, ha]
  by_cases hb : b = 0
  · simp [cstr, ha, hb]
  by_cases hc : c = 0
  · simp [cstr, ha, hb, hc]
  by_cases he : e = 0
  · simp [cstr, ha, hb, hc, he]
  · simp [cstr, ha, hb, hc, he]

/-- Text and terminator fill the identifier: nothing of the old one is left. -/
theorem identifier_filled {old data : Bytes} (hold : old.length = 4)
    (h : (cstr (data.drop 12)).length = 3) :
    overlay old 0 (strcpyBytes data) = strcpyBytes data := by
  have hlen : (strcpyBytes data).length = 4 := by
    rw [strcpyBytes, List.length_append, h]
    rfl
  have htake := @overlay_zero_take _ old (strcpyBytes data) (by omega)
  rwa [List.take_of_length_le (by rw [overlay_length]; omega)] at htake

/-- A text that is too short leaves the last byte of the old one. -/
theorem identifier_kept {old data : Bytes} (h : (cstr (data.drop 12)).length < 3) :
    (overlay old 0 (strcpyBytes data))[3]? = old[3]? := by
  apply overlay_getElem?_of_disjoint
  rw [strcpyBytes, List.length_append, List.length_singleton]
  omega

/-! ### The datagram in the buffer -/

section Received

variable {pack : NtpBuffer} {d : Bytes} {old : NtpPacket}

theorem recvfrom_getD {i : ℕ} (hd : ntpPckLen ≤ d.length) (hi : i < ntpPckLen) :
    (pack.recvfrom d).bytes.getD i 0 = d.getD i 0 := by
  have hwindow := @recvfrom_window pack d i 1 hd hi
  have hget := congrArg (fun l => l[0]?) hwindow
  simp only [List.getElem?_take_of_lt Nat.one_pos, List.getElem?_drop, Nat.add_zero] at hget
  rw [List.getD_eq_getElem?_getD, List.getD_eq_getElem?_getD, hget]

/-- Of a whole packet every field is read from the datagram, the identifier apart. -/
theorem decode_recvfrom (h : ntpPckLen ≤ d.length) :
    decode (pack.recvfrom d).bytes old =
      { packetOf d h with
        referenceIdentifier :=
          overlay old.referenceIdentifier 0 (strcpyBytes (pack.recvfrom d).bytes)
        identifier_length := by rw [overlay_length, old.identifier_length] } := by
  have htime : ∀ {i : ℕ}, i + 8 ≤ ntpPckLen →
      ntpTimeAt (pack.recvfrom d).bytes i = ntpTimeAt d i := ntpTimeAt_recvfrom h
  have hbyte : ∀ {i : ℕ}, i < ntpPckLen → (pack.recvfrom d).bytes.getD i 0 = d.getD i 0 :=
    recvfrom_getD h
  have hword : ∀ {i : ℕ}, i + 4 ≤ ntpPckLen → ntohl (pack.recvfrom d).bytes i = ntohl d i :=
    ntohl_recvfrom h
  simp (disch := decide) only [decode, packetOf, htime, hbyte, hword]

/-- The identifier as it stands in the datagram, and what follows it in the buffer. -/
theorem exists_identifier (h : ntpPckLen ≤ d.length) :
    ∃ a b c e rest, (d.drop 12).take 4 = [a, b, c, e] ∧
      (pack.recvfrom d).bytes.drop 12 = a :: b :: c :: e :: rest := by
  have hlen : 48 ≤ d.length := h
  have hwindow := @recvfrom_window pack d 12 4 h (by decide)
  have hdrop := List.take_append_drop 4 ((pack.recvfrom d).bytes.drop 12)
  have hfour : ((d.drop 12).take 4).length = 4 := by
    rw [List.length_take, List.length_drop]
    omega
  obtain ⟨a, b, c, e, habce⟩ : ∃ a b c e, (d.drop 12).take 4 = [a, b, c, e] := by
    match (d.drop 12).take 4, hfour with
    | [a, b, c, e], _ => exact ⟨a, b, c, e, rfl⟩
  rw [hwindow, habce] at hdrop
  exact ⟨a, b, c, e, _, habce, hdrop.symm⟩

end Received

/-! ### The step -/

/-- A datagram that is received is decoded into the old packet. -/
theorem step_recv {s : NTPClient} {d : Bytes} {queue : List Bytes} (hpc : s.pc = .recv)
    (hsock : s.sock = some (d :: queue)) :
    s.step (.recv true) = some { s with
      pc := .parsed
      sock := some queue
      pack := s.pack.recvfrom d
      packet := decode (s.pack.recvfrom d).bytes s.packet
      valid := true
      nfail := 0 } := by
  simp [NTPClient.step, hpc, hsock]

/-- Otherwise `get_time` has failed. -/
theorem step_recv_error {s : NTPClient} (hpc : s.pc = .recv) :
    s.step (.recv false) = some s.closeSock := by
  simp [NTPClient.step, hpc]

/-- `get_time` fails or returns what the datagram spells, from every state in which
`d` is the next datagram. -/
def ReadsAlways (d : Bytes) : Prop :=
  ∀ (s s' : NTPClient) (queue : List Bytes) (ok : Bool), s.pc = .recv →
    s.sock = some (d :: queue) → s.step (.recv ok) = some s' → s'.pc = .failed ∨ Reads d s'

/-- Two states after the same datagram hold the same packet. -/
theorem Reads.packet_eq {d : Bytes} {s s' : NTPClient} (h : Reads d s) (h' : Reads d s') :
    s.packet = s'.packet := by
  obtain ⟨_, hs⟩ := h.packet
  obtain ⟨_, hs'⟩ := h'.packet
  rw [hs, hs']

theorem PlainReply.readsAlways {d : Bytes} (h : PlainReply d) : ReadsAlways d := by
  intro s s' queue ok hpc hsock hstep
  cases ok
  · rw [step_recv_error hpc] at hstep
    cases hstep
    exact .inl rfl
  · right
    rw [step_recv hpc hsock] at hstep
    cases hstep
    obtain ⟨a, b, c, hid, hletters⟩ := h.identifier
    obtain ⟨a', b', c', e', rest, hid', hdrop⟩ := @exists_identifier s.pack d h.length
    rw [hid] at hid'
    cases hid'
    have hcstr : (cstr ((s.pack.recvfrom d).bytes.drop 12)).length = 3 := by
      rw [hdrop, cstr_length_iff]
      exact ⟨hletters.1, hletters.2.1, hletters.2.2, rfl⟩
    refine ⟨⟨h.length, ?_⟩, stores_inside_iff.mpr hcstr.le⟩
    rw [decode_recvfrom h.length]
    have hfilled := identifier_filled s.packet.identifier_length hcstr
    have htext : strcpyBytes (s.pack.recvfrom d).bytes = (d.drop 12).take 4 := by
      rw [strcpyBytes, hdrop, hid]
      simp [cstr, hletters.1, hletters.2.1, hletters.2.2]
    rw [htext] at hfilled
    simp [packetOf, hfilled, htext]

/-- A state in which `d` is the next datagram. -/
def beforeReply (pack : NtpBuffer) (packet : NtpPacket) (d : Bytes) : NTPClient :=
  { NTPClient.init 5 pack packet with
    pc := .recv
    sock := some [d] }

theorem ReadsAlways.plainReply {d : Bytes} (h : ReadsAlways d) (pack : NtpBuffer) :
    PlainReply d := by
  have hreads : ∀ packet, ∃ s', s'.packet = decode (pack.recvfrom d).bytes packet ∧
      s'.pack = pack.recvfrom d ∧ Reads d s' := by
    intro packet
    have hstep := @step_recv (beforeReply pack packet d) d [] rfl rfl
    rcases h _ _ [] true rfl rfl hstep with hfailed | hreads
    · cases hfailed
    · exact ⟨_, by rfl, by rfl, hreads⟩
  -- two old identifiers that have no byte in common
  obtain ⟨s₀, hpacket₀, hpack₀, hreads₀⟩ := hreads (packetWith 0)
  obtain ⟨s₁, hpacket₁, -, hreads₁⟩ := hreads (packetWith 1)
  have hinside := stores_inside_iff.mp hreads₀.stores
  rw [hpack₀] at hinside
  have hsame := hreads₀.packet_eq hreads₁
  rw [hpacket₀, hpacket₁] at hsame
  have hthree : (cstr ((pack.recvfrom d).bytes.drop 12)).length = 3 := by
    refine Nat.le_antisymm hinside (Nat.le_of_not_lt fun hshort => ?_)
    have hid := congrArg (fun p : NtpPacket => p.referenceIdentifier[3]?) hsame
    simp only [decode, identifier_kept hshort] at hid
    exact absurd hid (by decide)
  obtain ⟨hlen, -⟩ := hreads₀.packet
  obtain ⟨a, b, c, e, rest, hid, hdrop⟩ := @exists_identifier pack d hlen
  rw [hdrop, cstr_length_iff] at hthree
  obtain ⟨ha, hb, hc, rfl⟩ := hthree
  exact ⟨hlen, a, b, c, hid, ha, hb, hc⟩

/-- **Which replies are read as they stand.** -/
theorem reads_iff (d : Bytes) : ReadsAlways d ↔ PlainReply d :=
  ⟨fun h => h.plainReply zeroBuffer, PlainReply.readsAlways⟩

/-- An empty datagram is parsed too. -/
theorem not_readsAlways_empty : ¬ ∀ d : Bytes, d.length ≤ 384 → ReadsAlways d := by
  intro h
  have hlen := ((h [] (by decide)).plainReply zeroBuffer).length
  exact absurd hlen (by decide)

end FtServer
