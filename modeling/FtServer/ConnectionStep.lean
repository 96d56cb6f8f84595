/-
FtServer/ConnectionStep.lean

Every step of the server takes a connection with a client that follows the
protocol from one place of `Connection` to another.  The steps of the I/O thread
move it from a read that has arrived to a message in the queue or to a longer
file, those of the message thread from the queue through the handlers; the steps
of the others leave it where it is, since the file is not shared while bytes
come in.

`Stands.step` puts the cases together.  The places without a gap are kept as
long as every line arrives in `WAITING`; those with it, as long as the I/O
thread does not look at `state_` inside the gap.
-/
import FtServer.Connection

namespace FtServer

variable {δ : Type} {dbl : DoubleLib δ} {ts : List (Transfer dbl)} {t : Transfer dbl}
variable {r r' : FileReceiver} {c c' : CallPc Addr} {priv priv' : FileInfo → Prop}
variable {ms : List Msg} {gap : Prop}

/-! ### What a place does not depend on -/

theorem Handling.mono {tcp : TCPClient} {bufrcv : PackBuf} {state : RcvState} {m : MsgPc}
    (h : Handling tcp bufrcv state priv t m) (hpriv : ∀ f, priv f → priv' f) :
    Handling tcp bufrcv state priv' t m := by
  cases m with
  | fill p | setState st => exact ⟨h.1, h.2.imp fun f hf => ⟨hpriv f hf.1, hf.2⟩⟩
  | write st => exact ⟨h.1, h.2.1, h.2.2.imp fun f hf => ⟨hpriv f hf.1, hf.2⟩⟩
  | _ => exact h

/-- A place of rest looks at the message thread, the buffers and the ledger. -/
theorem Resting.frame (h : Resting ts r c priv ms) (hmsg : r'.msg = r.msg)
    (hstate : r'.state = r.state) (htcp : r'.tcp = r.tcp) (hbuf : r'.bufrcv = r.bufrcv)
    (hlog : ∀ {bytes sts fs n m}, Ledger r.log bytes sts fs n m →
      Ledger r'.log bytes sts fs n m)
    (hpriv : ∀ f, priv f → priv' f) : Resting ts r' c priv' ms := by
  have hfile : ∀ {t : Transfer dbl} {k}, (∃ f, priv f ∧ Holding t k f) →
      ∃ f, priv' f ∧ Holding t k f := fun h => h.imp fun f hf => ⟨hpriv f hf.1, hf.2⟩
  cases h with
  | between hts hl hm => exact .between hts (hlog hl) (by rwa [hmsg, hstate])
  | queued hts hl hm hd => exact .queued hts (hlog hl) (hmsg.trans hm) (by rwa [htcp])
  | handling hts hl hm =>
    refine .handling hts (hlog hl) ?_
    rw [htcp, hbuf, hstate, hmsg]
    exact hm.mono hpriv
  | loading hts hk hl hm hs hf =>
    exact .loading hts hk (hlog hl) (hmsg.trans hm) (hstate.trans hs) (hfile hf)
  | completed hts hl hm hf => exact .completed hts (hlog hl) (hmsg.trans hm) (hfile hf)
  | checking hts hl hm hf => exact .checking hts (hlog hl) (by rwa [hmsg]) (hfile hf)
  | handed hts hl hm => exact .handed hts (hlog hl) (by rwa [hmsg, hstate])

theorem At.mono (h : At gap ts r c priv) (hpriv : ∀ f, priv f → priv' f) :
    At gap ts r c priv' := by
  have hfile : ∀ {t : Transfer dbl} {k}, (∃ f, priv f ∧ Holding t k f) →
      ∃ f, priv' f ∧ Holding t k f := fun h => h.imp fun f hf => ⟨hpriv f hf.1, hf.2⟩
  cases h with
  | quiet hv hq h => exact .quiet hv hq (h.frame rfl rfl rfl rfl id hpriv)
  | coming hts hv hq hl hio hm => exact .coming hts hv hq hl hio hm
  | storing hts hv hq hd hk hdata hl hio hm hs hf =>
    exact .storing hts hv hq hd hk hdata hl hio hm hs (hfile hf)
  | full hts hv hq hl hio hm hf => exact .full hts hv hq hl hio hm (hfile hf)
  | closedBetween hts hio hq hm hl ho => exact .closedBetween hts hio hq hm hl ho
  | closedLoading hts hio hq hm hk hl ho => exact .closedLoading hts hio hq hm hk hl ho

/-! ### The I/O thread -/

/-- The file of a receiver, when the writer does not hold it. -/
def Private (frozen : Addr → Prop) (r : FileReceiver) (heap : Heap) (f : FileInfo) : Prop :=
  ∃ a, r.fileptr = some a ∧ ¬ frozen a ∧ heap a = f

variable {frozen : Addr → Prop} {v v' : RcvView}

theorem Landed.handleRead {tcp : TCPClient} {d : Bytes} {n : ℕ} (h : Landed tcp d n)
    (hu : tcp.usebuf = false) : Holds (tcp.handleRead n) d where
  bytercv := by simp [TCPClient.handleRead, hu, h.length]
  content := by rw [TCPClient.handleRead_content hu, h.bytes]
  fits := h.fits

theorem Live.handleRead {tcp : TCPClient} {tcpptr : Bool} (h : Live tcp tcpptr) (n : ℕ) :
    Live (tcp.handleRead n) tcpptr :=
  ⟨by rw [TCPClient.handleRead_usebuf, h.usebuf], by rw [TCPClient.handleRead_isOpen, h.isOpen],
    h.tcpptr_eq⟩

/-- At rest the I/O thread starts the next read, or reports a failure. -/
theorem Quiet.io (h : Quiet v.rcv.io v.rcv.mq ms) (hopen : v.rcv.tcp.isOpen = true)
    (hs : FileReceiver.IoStep v v') : v.rcv.mq = ms ∧
      (v' = { v with rcv := { v.rcv with io := .idle } } ∨
        v' = { v with rcv := { v.rcv with
          mq := v.rcv.mq ++ [.networkClose]
          io := .stopped
          log := v.rcv.log ++ [.posted .networkClose] } }) := by
  have hmq : v.rcv.io ≠ .stopped → v.rcv.mq = ms := fun hne => by
    rcases h with ⟨hmq, -⟩ | ⟨-, hio⟩
    · exact hmq
    · exact absurd hio hne
  have hpc : v.rcv.io = .idle ∨ v.rcv.io = .rearm ∨ v.rcv.io = .post .networkClose ∨
      v.rcv.io = .stopped := by
    rcases h with ⟨-, hio | hio | hio⟩ | ⟨-, hio⟩ <;> simp [hio]
  cases hs with
  | rearm hio =>
    rw [if_pos hopen]
    exact ⟨hmq (by simp [hio]), .inl rfl⟩
  | @post m hio =>
    obtain rfl : m = .networkClose := by simpa [hio] using hpc
    exact ⟨hmq (by simp [hio]), .inr rfl⟩
  | handleRead hio | isReady hio | notReady hio | read hio | overflow hio | arrive hio
  | isWaiting hio | ignored hio =>
    simp [hio] at hpc

theorem Coming.of_msg {tcp : TCPClient} {m m' : MsgPc} {d : Bytes} {io : IoPc}
    (h : Coming tcp m d io) (hm : m = .idle → m' = .idle) : Coming tcp m' d io := by
  cases io with
  | post msg =>
    cases msg with
    | networkReceive => exact ⟨h.1, hm h.2⟩
    | networkClose | receiveComplete => exact h.elim
  | _ => exact h

/-- A line goes from the connection into the queue. -/
theorem At.io_coming {past todo : List (Transfer dbl)} (hts : ts = past ++ t :: todo)
    (hv : Live v.rcv.tcp v.rcv.tcpptr) (hq : v.rcv.mq = [])
    (hl : Ledger v.rcv.log (stream past ++ t.header) (done past) (past.map Transfer.file)
      past.length past.length)
    (hio : Coming v.rcv.tcp v.rcv.msg t.header v.rcv.io)
    (hm : (v.rcv.msg = .idle ∧ v.rcv.state = .waiting) ∨
      (gap ∧ v.rcv.msg = .toWaiting ∧ v.rcv.state = .complete))
    (hgap : v.rcv.io = .testWaiting → v.rcv.msg ≠ .toWaiting)
    (hs : FileReceiver.IoStep v v') : At gap ts v'.rcv c priv := by
  cases hs with
  | handleRead hpc =>
    rw [hpc] at hio
    exact .coming hts (hv.handleRead _) hq hl (Landed.handleRead hio hv.usebuf) hm
  | isReady _ hst =>
    -- with a line on its way the state is `WAITING`, or `COMPLETE` in the gap
    rcases hm with ⟨-, hm⟩ | ⟨-, -, hm⟩ <;> simp [hst] at hm
  | notReady hpc =>
    rw [hpc] at hio
    exact .coming hts hv hq hl hio hm
  | isWaiting hpc hst =>
    rw [hpc] at hio
    have hidle : v.rcv.msg = .idle := by
      rcases hm with ⟨hm, -⟩ | ⟨-, -, hm⟩
      · exact hm
      · simp [hst] at hm
    exact .coming hts hv hq hl ⟨hio, hidle⟩ hm
  | ignored hpc hst =>
    rcases hm with ⟨-, hm⟩ | ⟨-, hm, -⟩
    · exact absurd hm hst
    · exact absurd hm (hgap hpc)
  | @post m hpc =>
    rw [hpc] at hio
    cases m with
    | networkReceive =>
      exact .quiet hv (.inl ⟨by rw [hq]; rfl, .inr (.inl rfl)⟩)
        (.queued hts hl.postLine hio.2 hio.1)
    | networkClose | receiveComplete => exact hio.elim
  | read hpc | overflow hpc | arrive hpc | rearm hpc =>
    rw [hpc] at hio
    exact hio.elim

/-- The counter of a file does not overflow within its size. -/
theorem Storing.noOverflow {tcp : TCPClient} {b : PackBuf} {d : Bytes} {n k : ℕ} {f : FileInfo}
    (h : Storing tcp b d (.arrive n)) (hf : Holding t k f) (hk : k + d.length ≤ t.data.length) :
    f.dataArrive (b.bytes.take n) ≠ none := by
  have hmax := t.data_le_intMax
  have hsome : (f.dataArrive (b.bytes.take n)).isSome = true := by
    rw [h.2]
    apply FileInfo.dataArrive_isSome
    rw [hf.rcvsize]
    omega
  intro hnone
  rw [hnone] at hsome
  cases hsome

/-- A chunk goes from the connection into the file. -/
theorem At.io_storing {past todo : List (Transfer dbl)} {k : ℕ} {d : Bytes}
    (hts : ts = past ++ t :: todo) (hv : Live v.rcv.tcp v.rcv.tcpptr) (hq : v.rcv.mq = [])
    (hd : d ≠ []) (hk : k + d.length ≤ t.data.length) (hdata : d = (t.data.drop k).take d.length)
    (hl : Ledger v.rcv.log (stream past ++ t.header ++ t.data.take (k + d.length))
      (done past ++ [.ready]) (past.map Transfer.file) (past.length + 1) past.length)
    (hio : Storing v.rcv.tcp v.rcv.bufrcv d v.rcv.io) (hm : v.rcv.msg = .idle)
    (hst : v.rcv.state = .ready)
    (hf : ∃ f, Private frozen v.rcv v.heap f ∧ Holding t k f)
    (hs : FileReceiver.IoStep v v') :
    At gap ts v'.rcv c (Private frozen v'.rcv v'.heap) := by
  cases hs with
  | handleRead hpc =>
    rw [hpc] at hio
    exact .storing hts (hv.handleRead _) hq hd hk hdata hl (Landed.handleRead hio hv.usebuf)
      hm hst hf
  | isReady hpc =>
    rw [hpc] at hio
    exact .storing hts hv hq hd hk hdata hl hio hm hst hf
  | notReady _ hne => exact absurd hst hne
  | read hpc =>
    rw [hpc] at hio
    have hread : (v.rcv.tcp.read tcpPackSize 0).1 = d := by
      rw [TCPClient.read_pack hv.usebuf (by rw [hio.bytercv]; exact hio.fits), hio.content]
    have hsnd := TCPClient.read_snd hv.usebuf tcpPackSize 0
    refine .storing hts (by rw [hsnd]; exact hv) hq hd hk hdata hl ?_ hm hst hf
    rw [hread]
    exact ⟨rfl, PackBuf.write_take _ hio.fits⟩
  | overflow hpc hp hov =>
    rw [hpc] at hio
    obtain ⟨f, ⟨a, ha, -, rfl⟩, hf⟩ := hf
    obtain rfl := Option.some.inj (ha.symm.trans hp)
    exact absurd hov (hio.noOverflow hf hk)
  | @arrive n b f' isFull hpc hp harr =>
    rw [hpc] at hio
    obtain ⟨f, ⟨a, ha, hfr, rfl⟩, hf⟩ := hf
    obtain rfl := Option.some.inj (ha.symm.trans hp)
    rw [hio.2] at harr
    obtain ⟨hf', rfl⟩ := hf.arrive hk hdata harr
    have hpriv : Private frozen v.rcv (Function.update v.heap a f') f' :=
      ⟨a, ha, hfr, Function.update_self ..⟩
    have hl' := hl.neutral (o := .stored n (v.heap a).rcvsize (v.heap a).filesize) rfl
    -- more is to come, or the last byte calls for the completion
    rcases Nat.lt_or_ge (k + d.length) t.data.length with hlt | hge
    · rw [decide_eq_false (Nat.not_le.mpr hlt)]
      exact .quiet hv (.inl ⟨hq, .inr (.inl rfl)⟩) (.loading hts hlt hl' hm hst ⟨f', hpriv, hf'⟩)
    · have hlen : k + d.length = t.data.length := Nat.le_antisymm hk hge
      rw [decide_eq_true hge]
      rw [hlen, List.take_length] at hl'
      rw [hlen] at hf'
      exact .full hts hv hq hl' rfl hm ⟨f', hpriv, hf'⟩
  | isWaiting hpc | ignored hpc | rearm hpc =>
    rw [hpc] at hio
    exact hio.elim
  | @post m hpc =>
    rw [hpc] at hio
    exact hio.elim

/-- A step of the I/O thread, which does not look at `state_` inside the gap. -/
theorem At.io (h : At gap ts v.rcv c (Private frozen v.rcv v.heap))
    (hgap : v.rcv.io = .testWaiting → v.rcv.msg ≠ .toWaiting)
    (hs : FileReceiver.IoStep v v') : At gap ts v'.rcv c (Private frozen v'.rcv v'.heap) := by
  cases h with
  | quiet hv hq h =>
    obtain ⟨hmq, rfl | rfl⟩ := hq.io hv.isOpen hs
    · exact .quiet hv (.inl ⟨hmq, .inl rfl⟩) (h.frame rfl rfl rfl rfl id fun _ => id)
    · exact .quiet hv (.inr ⟨by rw [hmq], rfl⟩)
        (h.frame rfl rfl rfl rfl (fun hl => hl.neutral rfl) fun _ => id)
  | coming hts hv hq hl hio hm => exact At.io_coming hts hv hq hl hio hm hgap hs
  | storing hts hv hq hd hk hdata hl hio hm hst hf =>
    exact At.io_storing hts hv hq hd hk hdata hl hio hm hst hf hs
  | full hts hv hq hl hio hm hf =>
    cases hs with
    | @post m hpc =>
      obtain rfl : m = .receiveComplete := by simpa [hio] using hpc.symm
      exact .quiet hv (.inl ⟨by rw [hq]; rfl, .inr (.inl rfl)⟩)
        (.completed hts hl.postComplete hm hf)
    | handleRead hpc | isReady hpc | notReady hpc | read hpc | overflow hpc | arrive hpc
    | isWaiting hpc | ignored hpc | rearm hpc =>
      simp [hio] at hpc
  | closedBetween _ hio | closedLoading _ hio =>
    cases hs with
    | handleRead hpc | isReady hpc | notReady hpc | read hpc | overflow hpc | arrive hpc
    | isWaiting hpc | ignored hpc | rearm hpc | post hpc =>
      simp [hio] at hpc

/-! ### The message thread -/

/-- The step leaves the connection, the queue and the I/O thread alone. -/
structure SameLink (r r' : FileReceiver) : Prop where
  tcp : r'.tcp = r.tcp
  tcpptr : r'.tcpptr = r.tcpptr
  io : r'.io = r.io
  mq : r'.mq = r.mq

/-- What a step in the handler of a line comes to: the handler goes on, or has
sent `READY` and is done. -/
def Handled (frozen : Addr → Prop) (t : Transfer dbl) (v v' : RcvView) : Prop :=
  (Handling v'.rcv.tcp v'.rcv.bufrcv v'.rcv.state (Private frozen v'.rcv v'.heap) t v'.rcv.msg ∧
    (v'.rcv.log = v.rcv.log ∨ ∃ size, v'.rcv.log = v.rcv.log ++ [.taken size])) ∨
  (v'.rcv.msg = .idle ∧ v'.rcv.state = .ready ∧ v'.rcv.log = v.rcv.log ++ [.sent .ready] ∧
    ∃ f, Private frozen v'.rcv v'.heap f ∧ Holding t 0 f)

/-- The text of the line resolves to what the transfer says. -/
theorem Transfer.resolve_eq (t : Transfer dbl) {text : Bytes} (h : cstr text = cstr t.line) :
    resolve dbl (cstr text) = .ok (some (.fileinfo t.info)) := by
  rw [h]
  exact t.parse

/-- An object of the announced size can be constructed. -/
theorem Transfer.create_ok (t : Transfer dbl) (junk : ℕ → UInt8) :
    ∃ f, FileInfo.create t.info.filesize.toInt junk = .ok f := by
  apply FileInfo.create_nonneg
  rw [t.filesize_eq]
  exact Int.natCast_nonneg _

variable {n : ℕ} {junk : ℕ → UInt8} {ok : Bool}

/-- The handler of a line takes it off the connection, parses it, provides an
object of its size that is not shared, and answers with `READY`. -/
theorem Handling.step
    (h : Handling v.rcv.tcp v.rcv.bufrcv v.rcv.state (Private frozen v.rcv v.heap) t v.rcv.msg)
    (hv : Live v.rcv.tcp v.rcv.tcpptr) (hbrk : ¬ frozen v.brk)
    (hguard : ∀ a p, v.rcv.fileptr = some a → v.rcv.msg = .makeShared p 1 → ¬ frozen a)
    (hs : FileReceiver.MsgStep dbl n junk ok v v') :
    SameLink v.rcv v'.rcv ∧ Handled frozen t v v' := by
  cases hs with
  | lookup hpc =>
    -- the line is all of the read, so its newline is the first one
    rw [hpc] at h
    have hpos : v.rcv.tcp.lookup (lit "\n") 0 = t.line.length :=
      @TCPClient.lookup_first _ hv.usebuf 10 t.line [] h.content t.no_newline
    exact ⟨⟨rfl, rfl, rfl, rfl⟩, .inl ⟨⟨hpos, h⟩, .inl rfl⟩⟩
  | @read pos hpc =>
    rw [hpc] at h
    obtain ⟨rfl, hd⟩ := h
    have hlen : t.line.length + 1 = t.header.length := t.header_length.symm
    have hread : (v.rcv.tcp.read ((t.line.length : ℤ) + 1) 0).1 = t.header := by
      have hfront := TCPClient.read_front (c := v.rcv.tcp) hv.usebuf (n := t.line.length + 1)
        (Nat.succ_pos _) (by rw [hd.bytercv, hlen])
      rw [hd.content, hlen, List.take_length] at hfront
      exact_mod_cast hlen ▸ hfront
    have hsnd := TCPClient.read_snd hv.usebuf ((t.line.length : ℤ) + 1) 0
    refine ⟨⟨hsnd, rfl, rfl, rfl⟩, .inl ⟨⟨rfl, ?_⟩, .inl rfl⟩⟩
    rw [hread, hlen]
    exact PackBuf.write_take _ hd.fits
  | @terminate pos hpc =>
    rw [hpc] at h
    obtain ⟨rfl, hbytes⟩ := h
    have hpos : ¬ (t.line.length : ℤ) < 0 := by omega
    rw [if_neg hpos]
    exact ⟨⟨rfl, rfl, rfl, rfl⟩, .inl ⟨PackBuf.cstr_terminate hbytes, .inl rfl⟩⟩
  | badText hpc hr =>
    rw [hpc] at h
    rw [t.resolve_eq h] at hr
    cases hr
  | nullText hpc hr =>
    rw [hpc] at h
    rw [t.resolve_eq h] at hr
    cases hr
  | fileinfo hpc hr =>
    rw [hpc] at h
    rw [t.resolve_eq h] at hr
    cases hr
    exact ⟨⟨rfl, rfl, rfl, rfl⟩, .inl ⟨rfl, .inl rfl⟩⟩
  | otherText hpc hr ht =>
    rw [hpc] at h
    rw [t.resolve_eq h] at hr
    cases hr
    exact absurd t.type_eq ht
  | useCount hpc =>
    rw [hpc] at h
    exact ⟨⟨rfl, rfl, rfl, rfl⟩, .inl ⟨h, .inl rfl⟩⟩
  | badSize hpc _ hf =>
    rw [hpc] at h
    obtain rfl := h
    obtain ⟨f, hf'⟩ := t.create_ok junk
    rw [hf'] at hf
    cases hf
  | @replace p m f hpc _ hf =>
    rw [hpc] at h
    obtain rfl := h
    refine ⟨⟨rfl, rfl, rfl, rfl⟩, .inl ⟨⟨rfl, f, ⟨v.brk, rfl, hbrk, ?_⟩, ?_⟩, .inr ⟨_, rfl⟩⟩⟩
    · exact Function.update_self ..
    · rw [(FileInfo.create_ok hf).1, t.filesize_eq]
  | @keep p m hpc hkeep =>
    -- the object is used again: its size is the announced one and nobody shares it
    have hpc' := hpc
    rw [hpc] at h
    obtain rfl := h
    unfold FileReceiver.mustReplace at hkeep
    obtain rfl : m = 1 := by omega
    rcases hp : v.rcv.fileptr with - | a
    · simp [hp] at hkeep
    · have hsize : (v.heap a).filesize = t.info.filesize.toInt := by
        by_contra hne
        exact hkeep (.inr (.inr ⟨rfl, by simpa [hp] using hne⟩))
      refine ⟨⟨rfl, rfl, rfl, rfl⟩,
        .inl ⟨⟨rfl, v.heap a, ⟨a, hp, hguard a _ hp hpc', rfl⟩, ?_⟩, .inl rfl⟩⟩
      rw [hsize, t.filesize_eq]
  | @fill p b hpc hp =>
    rw [hpc] at h
    obtain ⟨rfl, f, ⟨a, ha, hfr, rfl⟩, hsize⟩ := h
    obtain rfl := Option.some.inj (ha.symm.trans hp)
    exact ⟨⟨rfl, rfl, rfl, rfl⟩, .inl ⟨⟨rfl, _, ⟨a, ha, hfr, Function.update_self ..⟩,
      .describe t hsize⟩, .inr ⟨_, rfl⟩⟩⟩
  | @setState st hpc =>
    rw [hpc] at h
    obtain ⟨rfl, hf⟩ := h
    exact ⟨⟨rfl, rfl, rfl, rfl⟩, .inl ⟨⟨rfl, rfl, hf⟩, .inl rfl⟩⟩
  | @sent st hpc =>
    rw [hpc] at h
    obtain ⟨rfl, hst, hf⟩ := h
    exact ⟨⟨rfl, rfl, rfl, rfl⟩, .inr ⟨rfl, hst, rfl, hf⟩⟩
  | writeError => exact ⟨⟨rfl, rfl, rfl, rfl⟩, .inl ⟨h, .inl rfl⟩⟩
  | popReceive hpc | popClose hpc | popComplete hpc | close hpc | reset hpc | equal hpc
  | unequal hpc | toWaiting hpc =>
    rw [hpc] at h
    exact h.elim

/-- The message at the front of the queue is the one that the place names, or
the report of a failure. -/
theorem Quiet.pop {io : IoPc} {m : Msg} {q : List Msg} (h : Quiet io (m :: q) ms) :
    (ms = [] ∧ m = .networkClose ∧ q = [] ∧ io = .stopped) ∨
      ∃ ms', ms = m :: ms' ∧ Quiet io q ms' := by
  rcases h with ⟨rfl, hio⟩ | ⟨hq, hio⟩
  · exact .inr ⟨q, rfl, .inl ⟨rfl, hio⟩⟩
  · cases ms with
    | nil =>
      obtain ⟨rfl, rfl⟩ := List.cons.inj hq
      exact .inl ⟨rfl, rfl, rfl, hio⟩
    | cons x ms' =>
      obtain ⟨rfl, rfl⟩ := List.cons.inj hq
      exact .inr ⟨ms', rfl, .inr ⟨rfl, hio⟩⟩

/-- An idle message thread takes the message that the place names to its handler. -/
theorem Quiet.take {m : Msg} (h : Quiet v.rcv.io v.rcv.mq (m :: ms)) (hm : v.rcv.msg = .idle)
    (hs : FileReceiver.MsgStep dbl n junk ok v v') : ∃ q, Quiet v.rcv.io q ms ∧
      v' = { v with rcv := { v.rcv with mq := q, msg := FileReceiver.handler m } } := by
  obtain ⟨m', q, hmq, rfl⟩ := hs.of_idle hm
  rw [hmq] at h
  rcases h.pop with ⟨hms, -⟩ | ⟨ms', hms, hq⟩
  · cases hms
  · obtain ⟨rfl, rfl⟩ := List.cons.inj hms
    exact ⟨q, hq, rfl⟩

/-- Where the place names none, it is the report of a failure. -/
theorem Quiet.take_close (h : Quiet v.rcv.io v.rcv.mq []) (hm : v.rcv.msg = .idle)
    (hs : FileReceiver.MsgStep dbl n junk ok v v') :
    v.rcv.io = .stopped ∧ v' = { v with rcv :=
      { v.rcv with mq := [], msg := FileReceiver.handler .networkClose } } := by
  obtain ⟨m, q, hmq, rfl⟩ := hs.of_idle hm
  rw [hmq] at h
  rcases h.pop with ⟨-, rfl, rfl, hio⟩ | ⟨ms', hms, -⟩
  · exact ⟨hio, rfl⟩
  · cases hms

/-- A connection that is between two transfers, by way of one more. -/
theorem Ledger.concat {log : List Obs} {past : List (Transfer dbl)}
    (h : Ledger log (stream past ++ t.header ++ t.data) (done past ++ [.ready] ++ [.complete])
      ((past ++ [t]).map Transfer.file) (past.length + 1) (past.length + 1)) :
    Ledger log (stream (past ++ [t])) (done (past ++ [t])) ((past ++ [t]).map Transfer.file)
      (past ++ [t]).length (past ++ [t]).length := by
  rwa [stream_concat, done_concat, List.length_append]

/-- A step of the message thread from a place of rest. -/
theorem At.msg_quiet (hv : Live v.rcv.tcp v.rcv.tcpptr) (hq : Quiet v.rcv.io v.rcv.mq ms)
    (h : Resting ts v.rcv c (Private frozen v.rcv v.heap) ms) (hbrk : ¬ frozen v.brk)
    (hguard : ∀ a p, v.rcv.fileptr = some a → v.rcv.msg = .makeShared p 1 → ¬ frozen a)
    (hs : FileReceiver.MsgStep dbl n junk ok v v') :
    At gap ts v'.rcv c (Private frozen v'.rcv v'.heap) := by
  cases h with
  | between hts hl hm =>
    rcases hm with ⟨hm, -⟩ | ⟨hm, -⟩
    · obtain ⟨hio, rfl⟩ := hq.take_close hm hs
      exact .closedBetween hts hio rfl (.inl rfl) hl hv.isOpen
    · obtain rfl := hs.of_toWaiting hm
      exact .quiet hv hq (.between hts hl (.inl ⟨rfl, rfl⟩))
  | queued hts hl hm hd =>
    obtain ⟨q, hq', rfl⟩ := hq.take hm hs
    exact .quiet hv hq' (.handling hts hl hd)
  | handling hts hl hm =>
    obtain ⟨hlink, hnext⟩ := hm.step hv hbrk hguard hs
    have hv' : Live v'.rcv.tcp v'.rcv.tcpptr := by
      rw [hlink.tcp, hlink.tcpptr]
      exact hv
    have hq' : Quiet v'.rcv.io v'.rcv.mq [] := by
      rw [hlink.io, hlink.mq]
      exact hq
    -- the handler goes on, with or without a new entry, or `READY` has been sent
    rcases hnext with ⟨hm', hlog | ⟨size, hlog⟩⟩ | ⟨hm', hst, hlog, hf⟩
    · exact .quiet hv' hq' (.handling hts (by rwa [hlog]) hm')
    · exact .quiet hv' hq' (.handling hts (by rw [hlog]; exact hl.neutral rfl) hm')
    · refine .quiet hv' hq' (.loading hts (Transfer.data_pos _) ?_ hm' hst hf)
      rw [hlog, List.take_zero, List.append_nil]
      exact hl.send .ready
  | loading hts hk hl hm =>
    obtain ⟨hio, rfl⟩ := hq.take_close hm hs
    exact .closedLoading hts hio rfl (.inl rfl) hk hl hv.isOpen
  | completed hts hl hm hf =>
    obtain ⟨q, hq', rfl⟩ := hq.take hm hs
    exact .quiet hv hq' (.checking hts hl (.inl rfl) hf)
  | checking hts hl hm hf =>
    cases hs with
    | equal => exact .quiet hv hq (.checking hts (hl.neutral rfl) (.inr rfl) hf)
    | unequal _ hp hne =>
      -- all bytes are there, so the counters are equal
      obtain ⟨f, ⟨a, ha, -, rfl⟩, hfull⟩ := hf
      obtain rfl := Option.some.inj (ha.symm.trans hp)
      exact absurd (hfull.filesize.trans hfull.rcvsize.symm) hne
    | _ => simp_all
  | @handed past t todo hts hl hm =>
    cases hs with
    | @setState st hpc =>
      rw [hpc] at hm
      obtain rfl : st = .complete := hm
      exact .quiet hv hq (.handed hts hl ⟨rfl, rfl⟩)
    | @sent st hpc =>
      rw [hpc] at hm
      obtain ⟨rfl, hst⟩ := hm
      have hnext : ts = (past ++ [t]) ++ todo := by
        rw [hts, List.append_assoc]
        rfl
      exact .quiet hv hq (.between hnext (hl.send .complete).concat (.inr ⟨rfl, hst⟩))
    | writeError => exact .quiet hv hq (.handed hts hl hm)
    | popReceive hpc | popClose hpc | popComplete hpc | lookup hpc | read hpc | terminate hpc
    | badText hpc | nullText hpc | fileinfo hpc | otherText hpc | useCount hpc | badSize hpc
    | replace hpc | keep hpc | fill hpc | close hpc | reset hpc | equal hpc | unequal hpc
    | toWaiting hpc =>
      rw [hpc] at hm
      exact hm.elim

/-- A step of the message thread outside the writer. -/
theorem At.msg (h : At gap ts v.rcv c (Private frozen v.rcv v.heap)) (hbrk : ¬ frozen v.brk)
    (hguard : ∀ a p, v.rcv.fileptr = some a → v.rcv.msg = .makeShared p 1 → ¬ frozen a)
    (hs : FileReceiver.MsgStep dbl n junk ok v v') :
    At gap ts v'.rcv c (Private frozen v'.rcv v'.heap) := by
  -- an idle thread takes no step on an empty queue
  have hstuck : v.rcv.msg = .idle → v.rcv.mq = [] → False := fun hm hq => by
    obtain ⟨m, q, hmq, -⟩ := hs.of_idle hm
    simp [hq] at hmq
  cases h with
  | quiet hv hq h => exact At.msg_quiet hv hq h hbrk hguard hs
  | coming hts hv hq hl hio hm =>
    rcases hm with ⟨hm, -⟩ | ⟨hg, hm, -⟩
    · exact (hstuck hm hq).elim
    · obtain rfl := hs.of_toWaiting hm
      exact .coming hts hv hq hl (hio.of_msg (by simp [hm])) (.inl ⟨rfl, rfl⟩)
  | storing _ _ hq _ _ _ _ _ hm | full _ _ hq _ _ hm => exact (hstuck hm hq).elim
  | closedBetween hts hio hq hm hl ho =>
    rcases hm with hm | hm
    · obtain rfl := hs.of_reset hm
      exact .closedBetween hts hio hq (.inr rfl) hl ho
    · exact (hstuck hm hq).elim
  | closedLoading hts hio hq hm hk hl ho =>
    rcases hm with hm | hm
    · obtain rfl := hs.of_reset hm
      exact .closedLoading hts hio hq (.inr rfl) hk hl ho
    · exact (hstuck hm hq).elim

/-! ### Reads -/

/-- A line that begins to arrive and is not cut arrives whole. -/
theorem whole_line {past todo : List (Transfer dbl)} {d : Bytes}
    (hfollow : stream past ++ d <+: written (past ++ todo) (done past)) (hd : d ≠ [])
    (hwhole : ¬ (locate (past ++ todo) ((stream past).length + d.length)).InLine) :
    ∃ t todo', todo = t :: todo' ∧ d = t.header := by
  rw [written_rest, List.prefix_append_right_inj] at hfollow
  cases todo with
  | nil => exact absurd (List.prefix_nil.mp hfollow) hd
  | cons t todo =>
    refine ⟨t, todo, rfl, hfollow.eq_of_length_le (Nat.le_of_not_lt fun hlt => hwhole ?_)⟩
    have hsize : d.length < t.size := Nat.lt_of_lt_of_le hlt (Nat.le_add_right ..)
    rw [locate_inside past todo hsize]
    exact ⟨List.length_pos_of_ne_nil hd, hlt⟩

/-- A chunk continues the data. -/
theorem next_chunk {data d : Bytes} {k : ℕ} (h : data.take k ++ d <+: data)
    (hk : k < data.length) :
    k + d.length ≤ data.length ∧ d = (data.drop k).take d.length ∧
      data.take k ++ d = data.take (k + d.length) := by
  have hlen := h.length_le
  rw [List.length_append, List.length_take] at hlen
  have hdrop : d <+: data.drop k := by
    rw [← List.prefix_append_right_inj (data.take k), List.take_append_drop]
    exact h
  have hd := List.prefix_iff_eq_take.mp hdrop
  refine ⟨by omega, hd, ?_⟩
  rw [List.take_add, ← hd]

/-- While the I/O thread waits for data the connection is at a place of rest. -/
theorem At.of_io_idle (h : At gap ts r c priv) (hidle : r.io = .idle) :
    ∃ ms, Live r.tcp r.tcpptr ∧ r.mq = ms ∧ Resting ts r c priv ms := by
  cases h with
  | quiet hv hq h =>
    rcases hq with ⟨hmq, -⟩ | ⟨-, hio⟩
    · exact ⟨_, hv, hmq, h⟩
    · simp [hidle] at hio
  | coming _ _ _ _ hio =>
    rw [hidle] at hio
    exact hio.elim
  | storing _ _ _ _ _ _ _ hio =>
    rw [hidle] at hio
    exact hio.elim
  | full _ _ _ _ hio | closedBetween _ hio | closedLoading _ hio => simp [hidle] at hio

/-- A read arrives.  Without a gap, a line has to arrive in `WAITING`. -/
theorem At.recv {d : Bytes} (h : At gap ts r c priv)
    (hfollow : arrived r.log ++ d <+: written ts (statuses r.log))
    (hwhole : ¬ (locate ts ((arrived r.log).length + d.length)).InLine)
    (hwait : gap ∨ ((locate ts (arrived r.log).length).AtLine → r.state = .waiting))
    (hr : r.receive d = some r') : At gap ts r' c priv := by
  obtain ⟨hidle, hd, hfits, rfl⟩ := FileReceiver.receive_cases hr
  have hland : Landed (r.tcp.land d) d d.length := ⟨rfl, hfits, PackBuf.write_take _ hfits⟩
  -- where the client waits for a status nothing arrives
  have hover : ∀ {bytes : Bytes}, bytes ++ d <+: bytes → False := fun h => by
    have := h.length_le
    rw [List.length_append] at this
    exact hd (List.length_eq_zero_iff.mp (by omega))
  obtain ⟨ms, hv, hmq, h⟩ := h.of_io_idle hidle
  have hv' : Live (r.tcp.land d) r.tcpptr := ⟨hv.usebuf, hv.isOpen, hv.tcpptr_eq⟩
  cases h with
  | @between past todo hts hl hm =>
    rw [hl.bytes_eq, hl.statuses_eq, hts] at hfollow
    rw [hl.bytes_eq, hts] at hwhole
    obtain ⟨t, todo', rfl, rfl⟩ := whole_line hfollow hd hwhole
    refine .coming hts hv' hmq (hl.arrive _) hland ?_
    -- the line meets `WAITING`, or the message thread inside the gap
    rcases hm with hm | ⟨hm, hst⟩
    · exact .inl hm
    · rcases hwait with hg | hwait
      · exact .inr ⟨hg, hm, hst⟩
      · rw [hl.bytes_eq, hts, locate_rest] at hwait
        simp [hwait rfl] at hst
  | queued hts hl | handling hts hl =>
    rw [hl.bytes_eq, hl.statuses_eq, hts, written_rest] at hfollow
    exact (hover hfollow).elim
  | @loading past t todo k hts hk hl hm hst hf =>
    rw [hl.bytes_eq, hl.statuses_eq, hts, written_ready, List.append_assoc,
      List.prefix_append_right_inj] at hfollow
    obtain ⟨hlen, hdata, htake⟩ := next_chunk hfollow hk
    refine .storing hts hv' hmq hd hlen hdata ?_ hland hm hst hf
    have hl' := hl.arrive d
    rwa [List.append_assoc _ _ d, htake] at hl'
  | completed hts hl | checking hts hl | handed hts hl =>
    rw [hl.bytes_eq, hl.statuses_eq, hts, written_ready] at hfollow
    exact (hover hfollow).elim

/-- The connection fails. -/
theorem At.fail (h : At gap ts r c priv) (hr : r.receiveError = some r') :
    At gap ts r' c priv := by
  obtain ⟨hidle, rfl⟩ := FileReceiver.receiveError_cases hr
  obtain ⟨ms, hv, hmq, h⟩ := h.of_io_idle hidle
  exact .quiet hv (.inl ⟨hmq, .inr (.inr rfl)⟩) (h.frame rfl rfl rfl rfl id fun _ => id)

/-! ### The calls into the writer -/

theorem Ledger.newFile {ι : Type} {log : List Obs} {bytes : Bytes} {sts : List RcvState}
    {fs : List FileInfo} {n m : ℕ} (h : Ledger log bytes sts fs n m) (w : FileWritter ι Addr)
    (i : ι) : Ledger (log ++ TransferAgent.newFileLog w i) bytes sts fs n m := by
  unfold TransferAgent.newFileLog
  split
  · exact h.neutral rfl
  · exact h.neutral rfl
  · rwa [List.append_nil]
  · rwa [List.append_nil]

/-- In the handler of a message the connection is at a place of rest, unless the handler
resets the object or assigns `WAITING`. -/
theorem At.of_handler (h : At gap ts r c priv)
    (hm : r.msg ≠ .idle ∧ r.msg ≠ .toWaiting ∧ r.msg ≠ .reset) :
    ∃ ms, Live r.tcp r.tcpptr ∧ Quiet r.io r.mq ms ∧ Resting ts r c priv ms := by
  cases h with
  | quiet hv hq h => exact ⟨_, hv, hq, h⟩
  | coming _ _ _ _ _ hpc => simp_all
  | storing _ _ _ _ _ _ _ _ hpc | full _ _ _ _ _ hpc | closedBetween _ _ _ hpc
  | closedLoading _ _ _ hpc => simp_all

/-- The call of `NewFile` passes on the file of the transfer. -/
theorem At.handOver {heap : Heap} {a : Addr} (h : At gap ts r c (Private frozen r heap))
    (hpc : r.msg = .handOver) (hp : r.fileptr = some a) (hc : c' ≠ .idle) :
    At gap ts { r with msg := .newFile, log := r.log ++ [.handed a (heap a)] } c' priv' := by
  obtain ⟨ms, hv, hq, h⟩ := h.of_handler (by simp [hpc])
  cases h with
  | @checking past t todo hts hl hm hf =>
    obtain ⟨f, ⟨b, hb, -, rfl⟩, hfull⟩ := hf
    obtain rfl := Option.some.inj (hb.symm.trans hp)
    have hl' := hl.hand b (heap b)
    have hmap : past.map Transfer.file ++ [heap b] = (past ++ [t]).map Transfer.file := by
      rw [hfull.eq_file, List.map_append]
      rfl
    rw [hmap] at hl'
    exact .quiet hv hq (.handed hts hl' hc)
  | between _ _ hm => simp [Between, hpc] at hm
  | queued _ _ hm | loading _ _ _ hm | completed _ _ hm => simp [hpc] at hm
  | handling _ _ hm | handed _ _ hm =>
    rw [hpc] at hm
    exact hm.elim

/-- The call goes on, or returns. -/
theorem At.newFile {ι : Type} {w : FileWritter ι Addr} {i : ι} (h : At gap ts r c priv)
    (hpc : r.msg = .newFile) :
    At gap ts { r with
      msg := TransferAgent.afterCall c'
      log := r.log ++ TransferAgent.newFileLog w i } c' priv' := by
  obtain ⟨ms, hv, hq, h⟩ := h.of_handler (by simp [hpc])
  cases h with
  | handed hts hl hm =>
    refine .quiet hv hq (.handed hts (hl.newFile w i) ?_)
    cases c' with
    | idle => exact rfl
    | entered | admitted | pushed => simp [TransferAgent.afterCall, Acknowledging]
  | between _ _ hm => simp [Between, hpc] at hm
  | queued _ _ hm | loading _ _ _ hm | completed _ _ hm | checking _ _ hm => simp [hpc] at hm
  | handling _ _ hm =>
    rw [hpc] at hm
    exact hm.elim

/-! ### The connection in the server -/

namespace TransferAgent

variable {ι : Type}

/-- Connection `i` stands at one of its places. -/
structure Stands (gap : Prop) (ts : List (Transfer dbl)) (i : ι) (s : TransferAgent ι) :
    Prop where
  owned : Owned s
  place : At gap ts (s.filercv i) (s.fw.callers i) (Private s.Frozen (s.filercv i) s.heap)

theorem Stands.init (gap : Prop) (ts : List (Transfer dbl)) (i : ι)
    (bufs : ι → PackBuf × PackBuf) (heap : Heap) (env : SaveEnv) :
    Stands gap ts i (init bufs heap env) where
  owned := .init bufs heap env
  place := .quiet ⟨rfl, rfl, rfl⟩ (.inl ⟨rfl, .inl rfl⟩)
    (.between (List.nil_append ts).symm .nil (.inl ⟨rfl, rfl⟩))

/-- The I/O thread of `i` does not look at `state_` while the message thread
stands between the write of `COMPLETE` and the assignment of `WAITING`. -/
def NoGap (i : ι) (s : TransferAgent ι) : AgentEvent ι → Prop
  | .io j => j = i → (s.filercv i).io = .testWaiting → (s.filercv i).msg ≠ .toWaiting
  | _ => True

/-- The lines of `i` arrive in state `WAITING`. -/
def InWaiting (ts : List (Transfer dbl)) (i : ι) (s : TransferAgent ι) : AgentEvent ι → Prop
  | .recv j _ => j = i → (locate ts (arrived (s.filercv i).log).length).AtLine →
      (s.filercv i).state = .waiting
  | _ => True

variable [DecidableEq ι] [Fintype ι] {i : ι} {s s' : TransferAgent ι} {e : AgentEvent ι}

instance NoGap.decidable (i : ι) (s : TransferAgent ι) (e : AgentEvent ι) :
    Decidable (NoGap i s e) :=
  match e with
  | .io j => inferInstanceAs (Decidable
      (j = i → (s.filercv i).io = .testWaiting → (s.filercv i).msg ≠ .toWaiting))
  | .recv .. | .fail _ | .msg .. | .monitor _ | .spurious | .config _ => isTrue trivial

instance InWaiting.decidable (ts : List (Transfer dbl)) (i : ι) (s : TransferAgent ι)
    (e : AgentEvent ι) : Decidable (InWaiting ts i s e) :=
  match e with
  | .recv j _ => inferInstanceAs (Decidable (j = i →
      (locate ts (arrived (s.filercv i).log).length).AtLine → (s.filercv i).state = .waiting))
  | .fail _ | .io _ | .msg .. | .monitor _ | .spurious | .config _ => isTrue trivial

/-- **Every step keeps the connection at one of its places**, while the client
follows the protocol and no line is cut: those with a gap if the I/O thread does
not look into it, those without if lines arrive in `WAITING`. -/
theorem Stands.step (h : Stands gap ts i s) (hfollow : Follows ts i s e)
    (hwhole : WholeLines ts i s e) (hgap : NoGap i s e) (hwait : gap ∨ InWaiting ts i s e)
    (hs : s.step dbl e = some s') : Stands gap ts i s' := by
  refine ⟨h.owned.step hs, ?_⟩
  have hbrk : ¬ s.Frozen s.brk := fun hf => Nat.lt_irrefl _ (h.owned.frozen_lt _ hf)
  have hguard : ∀ a p, (s.filercv i).fileptr = some a →
      (s.filercv i).msg = .makeShared p 1 → ¬ s.Frozen a := fun a p ha hm => by
    have hg := h.owned.guard i a ha
    rw [hm] at hg
    exact hg rfl
  by_cases he : e.receiver? = some i
  · cases (step_cases hs).2 with
    | recv hr =>
      obtain rfl := Option.some.inj he
      have hp := h.place.recv (hfollow rfl) (hwhole rfl) (hwait.imp id fun hw => hw rfl) hr
      obtain ⟨-, -, -, rfl⟩ := FileReceiver.receive_cases hr
      dsimp only
      rw [Function.update_self]
      exact hp
    | fail hr =>
      obtain rfl := Option.some.inj he
      have hp := h.place.fail hr
      obtain ⟨-, rfl⟩ := FileReceiver.receiveError_cases hr
      dsimp only
      rw [Function.update_self]
      exact hp
    | io hv =>
      obtain rfl := Option.some.inj he
      have hp := At.io (v := s.view _) h.place (hgap rfl) hv
      rw [commit_self]
      exact hp
    | msg hv =>
      obtain rfl := Option.some.inj he
      have hp := At.msg (v := s.view _) h.place hbrk hguard hv
      rw [commit_self]
      exact hp
    | handOver hpc hp hc =>
      obtain rfl := Option.some.inj he
      dsimp only
      rw [Function.update_self, Function.update_self]
      exact h.place.handOver hpc hp (by simp)
    | newFile hpc hw =>
      obtain rfl := Option.some.inj he
      dsimp only
      rw [Function.update_self]
      exact h.place.newFile hpc
    | takeFirst | saveThrew | save | monitor | spurious | config => cases he
  · -- the step of another thread: the file is not shared, so nobody else writes to it
    have hu := h.owned.undisturbed hs he
    rw [hu.rcv, hu.caller]
    apply h.place.mono
    rintro f ⟨a, ha, hfr, rfl⟩
    refine ⟨a, ha, fun hf => hfr (hu.frozen a ha hf), ?_⟩
    rcases hu.heap a ha with hheap | ⟨hf, -⟩
    · exact hheap
    · exact absurd hf hfr

omit [DecidableEq ι] [Fintype ι] in
/-- Without a gap there is none to look into. -/
theorem Stands.noGap (h : Stands False ts i s) (e : AgentEvent ι) : NoGap i s e := by
  cases e with
  | io j =>
    rintro - hio hmsg
    cases h.place with
    | quiet _ hq =>
      rcases hq with ⟨-, hq | hq | hq⟩ | ⟨-, hq⟩ <;> simp [hio] at hq
    | coming _ _ _ _ _ hm => simp [hmsg] at hm
    | storing _ _ _ _ _ _ _ _ hm | full _ _ _ _ _ hm | closedBetween _ _ _ hm
    | closedLoading _ _ _ hm => simp [hmsg] at hm
  | _ => trivial

/-- A run in which every line arrives whole, in `WAITING`. -/
theorem stands_run {bufs : ι → PackBuf × PackBuf} {heap : Heap} {env : SaveEnv}
    {es : List (AgentEvent ι)}
    (hclient : Lts.RunAll (step dbl)
      (fun s e => Follows ts i s e ∧ WholeLines ts i s e ∧ InWaiting ts i s e)
      (TransferAgent.init bufs heap env) es)
    (hrun : Lts.run (step dbl) (TransferAgent.init bufs heap env) es = some s) :
    Stands False ts i s := by
  refine Lts.run_invariant_of (fun s e s' h hok hs => ?_) (.init False ts i bufs heap env)
    hclient hrun
  exact h.step hok.1 hok.2.1 (h.noGap e) (.inr hok.2.2) hs

end TransferAgent

end FtServer
