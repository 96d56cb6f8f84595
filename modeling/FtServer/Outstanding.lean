/-
FtServer/Outstanding.lean

After `READY` there is something to come.  A receiver in state `READY` waits for
bytes of a file, or a completion is on its way to the message thread; otherwise
it would wait for ever.  This rests on the size that the client announces, which
`on_network_receive` takes over without a look: a size of zero leaves nothing to
wait for, a negative one makes the construction of the file throw, and one that is
no `int` makes `Resolve` throw.

`Announced` is the condition on a step, `SupplyInv` the invariant that carries
the size from the line to the status, and `supplied_of_announced` the result for
whole runs.
-/
import FtServer.Ownership

namespace FtServer

/-! ### What the receiver waits for -/

/-- The handler of a completion has not assigned the next state yet. -/
def MsgPc.completing : MsgPc → Bool
  | .check | .handOver | .newFile => true
  | .setState st => st ≠ .ready
  | _ => false

/-- The description of the file, between the line and the assignments. -/
def MsgPc.fileinfo? : MsgPc → Option AsciiProtoFileinfo
  | .useCount p | .makeShared p _ | .fill p => some p
  | _ => none

/-- `on_network_receive` is at work and has not come to its answer. -/
def MsgPc.receiving : MsgPc → Bool
  | .lookup | .read _ | .terminate _ | .resolve | .useCount _ | .makeShared .. | .fill _
  | .close => true
  | _ => false

/-- The position carries no description, and `READY` does not come next. -/
def MsgPc.plain (m : MsgPc) : Prop :=
  m.fileinfo? = none ∧ m ≠ .setState .ready ∧ m ≠ .write .ready

namespace FileReceiver

/-- A completion is being posted, queued or being handled. -/
def Completing (r : FileReceiver) : Prop :=
  r.io = .post .receiveComplete ∨ .receiveComplete ∈ r.mq ∨ r.msg.completing = true

/-- Bytes of the file are still to come. -/
def Short (r : FileReceiver) (heap : Heap) : Prop :=
  ∃ a, r.fileptr = some a ∧ (heap a).rcvsize < (heap a).filesize

/-- `READY` is sent for a buffer that is not empty, and in state `READY` there is
something to come. -/
structure Supplied (r : FileReceiver) (heap : Heap) : Prop where
  sized : r.msg = .write .ready → ∃ a, r.fileptr = some a ∧ 0 < (heap a).filesize
  supplied : r.state = .ready → r.Completing ∨ r.Short heap

/-! ### The invariant -/

structure SupplyInv (r : FileReceiver) (heap : Heap) : Prop where
  asked : ∀ p, r.msg.fileinfo? = some p → 0 < p.filesize.toInt
  fitted : ∀ p, r.msg = .fill p →
    ∃ a, r.fileptr = some a ∧ (heap a).filesize = p.filesize.toInt
  sized : r.msg = .setState .ready ∨ r.msg = .write .ready →
    ∃ a, r.fileptr = some a ∧ 0 < (heap a).filesize
  supplied : r.state = .ready ∨ r.msg = .setState .ready → r.Completing ∨ r.Short heap

theorem SupplyInv.init (bufs : PackBuf × PackBuf) (heap : Heap) :
    SupplyInv (.init bufs.1 bufs.2) heap := by
  constructor <;> simp [FileReceiver.init, MsgPc.fileinfo?]

theorem SupplyInv.result {r : FileReceiver} {heap : Heap} (h : SupplyInv r heap) :
    Supplied r heap where
  sized := fun hm => h.sized (.inr hm)
  supplied := fun hs => h.supplied (.inl hs)

/-- At a position without a description only the supply counts. -/
theorem SupplyInv.of_plain {r : FileReceiver} {heap : Heap} (hp : r.msg.plain)
    (hsup : r.state = .ready → r.Completing ∨ r.Short heap) : SupplyInv r heap where
  asked := fun p hm => by simp [hp.1] at hm
  fitted := fun p hm => by
    have hnone := hp.1
    simp [hm, MsgPc.fileinfo?] at hnone
  sized := fun hm => by rcases hm with hm | hm <;> simp [MsgPc.plain, hm] at hp
  supplied := fun hs => hsup (hs.resolve_right hp.2.1)

/-- Between the line and the assignments. -/
theorem SupplyInv.of_line {r : FileReceiver} {heap : Heap} {p : AsciiProtoFileinfo}
    (hm : r.msg.fileinfo? = some p) (hpos : 0 < p.filesize.toInt)
    (hfit : r.msg = .fill p → ∃ a, r.fileptr = some a ∧ (heap a).filesize = p.filesize.toInt)
    (hsup : r.state = .ready → r.Completing ∨ r.Short heap) : SupplyInv r heap where
  asked := fun q hq => by
    obtain rfl := Option.some.inj (hm.symm.trans hq)
    exact hpos
  fitted := fun q hq => by
    obtain rfl : p = q := by simpa [hq, MsgPc.fileinfo?] using hm.symm
    exact hfit hq
  sized := fun hq => by rcases hq with hq | hq <;> simp [hq, MsgPc.fileinfo?] at hm
  supplied := fun hs => by
    rcases hs with hs | hq
    · exact hsup hs
    · simp [hq, MsgPc.fileinfo?] at hm

/-- On the way to `READY`. -/
theorem SupplyInv.of_ready {r : FileReceiver} {heap : Heap} {a : Addr}
    (hm : r.msg = .setState .ready ∨ r.msg = .write .ready) (hp : r.fileptr = some a)
    (hpos : 0 < (heap a).filesize) (hsup : r.Completing ∨ r.Short heap) : SupplyInv r heap where
  asked := fun q hq => by rcases hm with hm | hm <;> simp [hm, MsgPc.fileinfo?] at hq
  fitted := fun q hq => by rcases hm with hm | hm <;> simp [hm] at hq
  sized := fun _ => ⟨a, hp, hpos⟩
  supplied := fun _ => hsup

/-- A step that leaves the message thread where it is. -/
theorem SupplyInv.ioFrame {r r' : FileReceiver} {heap heap' : Heap} (h : SupplyInv r heap)
    (hmsg : r'.msg = r.msg) (hstate : r'.state = r.state) (hptr : r'.fileptr = r.fileptr)
    (hsize : ∀ a, r.fileptr = some a → (heap' a).filesize = (heap a).filesize)
    (hsup : r.Completing ∨ r.Short heap → r'.Completing ∨ r'.Short heap') :
    SupplyInv r' heap' where
  asked := by rw [hmsg]; exact h.asked
  fitted := fun p hm => by
    obtain ⟨a, ha, hf⟩ := h.fitted p (hmsg ▸ hm)
    exact ⟨a, hptr ▸ ha, by rw [hsize a ha, hf]⟩
  sized := fun hm => by
    obtain ⟨a, ha, hf⟩ := h.sized (hmsg ▸ hm)
    exact ⟨a, hptr ▸ ha, by rw [hsize a ha]; exact hf⟩
  supplied := fun hs => hsup (h.supplied (by rwa [hstate, hmsg] at hs))

/-- What is on its way outside the handler stays on its way. -/
theorem Completing.of_msg {r r' : FileReceiver} (h : r.Completing)
    (hm : r.msg.completing = false) (hio : r'.io = r.io)
    (hmq : .receiveComplete ∈ r.mq → .receiveComplete ∈ r'.mq) : r'.Completing := by
  rcases h with h | h | h
  · exact .inl (hio.trans h)
  · exact .inr (.inl (hmq h))
  · rw [hm] at h
    cases h

/-! ### Steps -/

theorem SupplyInv.io {v v' : RcvView} (h : SupplyInv v.rcv v.heap) (hs : IoStep v v') :
    SupplyInv v'.rcv v'.heap := by
  -- a step of the I/O thread that has no completion in hand before it
  have hplain : ∀ {r : FileReceiver}, v.rcv.io ≠ .post .receiveComplete → r.msg = v.rcv.msg →
      r.state = v.rcv.state → r.fileptr = v.rcv.fileptr → r.mq = v.rcv.mq →
      SupplyInv r v.heap := by
    intro r hio hmsg hstate hptr hmq
    refine h.ioFrame hmsg hstate hptr (fun _ _ => rfl) fun hsup => ?_
    rcases hsup with (hc | hc | hc) | ⟨a, ha, hlt⟩
    · exact absurd hc hio
    · exact .inl (.inr (.inl (hmq ▸ hc)))
    · exact .inl (.inr (.inr (hmsg ▸ hc)))
    · exact .inr ⟨a, hptr ▸ ha, hlt⟩
  cases hs with
  | handleRead hpc | isReady hpc | notReady hpc | read hpc | overflow hpc | isWaiting hpc
  | ignored hpc | rearm hpc => exact hplain (by simp [hpc]) rfl rfl rfl rfl
  | @arrive n a f full hpc hp hd =>
    obtain ⟨-, -, -, hsize, -, -, -, -, -, -, hfull⟩ := FileInfo.dataArrive_spec hd
    refine h.ioFrame rfl rfl rfl (fun b hb => ?_) fun _ => ?_
    · obtain rfl : a = b := Option.some.inj (hp.symm.trans hb)
      dsimp only
      rw [Function.update_self, hsize]
    · -- the chunk leaves the file short, or the completion is posted
      cases full with
      | true => exact .inl (.inl rfl)
      | false =>
        refine .inr ⟨a, hp, ?_⟩
        dsimp only
        rw [Function.update_self, hsize]
        exact Int.not_le.mp (of_decide_eq_false hfull.symm)
  | @post m hpc hq =>
    refine h.ioFrame rfl rfl rfl (fun _ _ => rfl) fun hsup => ?_
    rcases hsup with (hc | hc | hc) | hshort
    · obtain rfl : m = .receiveComplete := IoPc.post.inj (hpc.symm.trans hc)
      exact .inl (.inr (.inl (by simp)))
    · exact .inl (.inr (.inl (List.mem_append_left _ hc)))
    · exact .inl (.inr (.inr hc))
    · exact .inr hshort

variable {δ : Type} (dbl : DoubleLib δ)

/-- The line that `on_network_receive` hands to `Resolve` has the type `fileinfo`, in
letters of any case. -/
def FileinfoLine (r : FileReceiver) : Prop :=
  iequals ((cstr r.bufrcv.bytes).takeWhile (· ≠ 32)) (lit "fileinfo") = true

instance (r : FileReceiver) : Decidable r.FileinfoLine :=
  inferInstanceAs (Decidable (_ = true))

/-- A fileinfo line that is about to be answered can be read, and announces a size
greater than zero. -/
def AnnouncedStep (r : FileReceiver) : Prop :=
  match r.msg with
  | .resolve =>
    match FtServer.resolve dbl (cstr r.bufrcv.bytes) with
    | .ok (some (.fileinfo p)) => p.type = lit "fileinfo" → 0 < p.filesize.toInt
    | .ok _ => True
    -- `Resolve` throws
    | .error _ => ¬ r.FileinfoLine
  | _ => True

instance (r : FileReceiver) : Decidable (AnnouncedStep dbl r) := by
  unfold AnnouncedStep
  split
  · split <;> infer_instance
  · infer_instance

variable {dbl}

theorem SupplyInv.msg {n : ℕ} {junk : ℕ → UInt8} {ok : Bool} {v v' : RcvView}
    (h : SupplyInv v.rcv v.heap) (hok : AnnouncedStep dbl v.rcv)
    (hs : MsgStep dbl n junk ok v v') : SupplyInv v'.rcv v'.heap := by
  -- outside the handler of a completion a step takes nothing away
  have hkeep : ∀ {r : FileReceiver}, v.rcv.msg.completing = false → r.io = v.rcv.io →
      (.receiveComplete ∈ v.rcv.mq → .receiveComplete ∈ r.mq) → r.fileptr = v.rcv.fileptr →
      v.rcv.Completing ∨ v.rcv.Short v.heap → r.Completing ∨ r.Short v.heap := by
    intro r hc hio hmq hptr hsup
    rcases hsup with hsup | ⟨a, ha, hlt⟩
    · exact .inl (hsup.of_msg hc hio hmq)
    · exact .inr ⟨a, hptr ▸ ha, hlt⟩
  have hplain : ∀ {m}, v.rcv.msg = m → m.completing = false → v.rcv.msg.completing = false :=
    fun hpc hm => by rw [hpc, hm]
  cases hs with
  | badText | badSize | writeError => exact h
  | popReceive hpc hq | popClose hpc hq =>
    refine .of_plain ⟨rfl, by simp, by simp⟩ fun hstate =>
      hkeep (hplain hpc rfl) rfl (fun hm => ?_) rfl (h.supplied (.inl hstate))
    simpa [hq] using hm
  | popComplete hpc hq =>
    exact .of_plain ⟨rfl, by simp, by simp⟩ fun _ => .inl (.inr (.inr rfl))
  | lookup hpc | read hpc | terminate hpc | nullText hpc | otherText hpc | close hpc
  | reset hpc =>
    exact .of_plain ⟨rfl, by simp, by simp⟩ fun hstate =>
      hkeep (hplain hpc rfl) rfl id rfl (h.supplied (.inl hstate))
  | @fileinfo p hpc hr ht =>
    have hpos : 0 < p.filesize.toInt := by
      simp only [AnnouncedStep, hpc, hr] at hok
      exact hok ht
    exact .of_line rfl hpos (fun hf => by cases hf) fun hstate =>
      hkeep (hplain hpc rfl) rfl id rfl (h.supplied (.inl hstate))
  | @useCount p hpc =>
    exact .of_line rfl (h.asked p (by rw [hpc]; rfl)) (fun hf => by cases hf) fun hstate =>
      hkeep (hplain hpc rfl) rfl id rfl (h.supplied (.inl hstate))
  | @replace p c f hpc hm hf =>
    -- a new file, none of whose bytes has arrived
    obtain ⟨hsize, hrcv⟩ := FileInfo.create_ok hf
    have hpos : 0 < p.filesize.toInt := h.asked p (by rw [hpc]; rfl)
    have hself : Function.update v.heap v.brk f v.brk = f := Function.update_self ..
    refine .of_line rfl hpos (fun _ => ⟨v.brk, rfl, ?_⟩) fun _ => .inr ⟨v.brk, rfl, ?_⟩
    · dsimp only
      rw [hself, hsize]
    · dsimp only
      rw [hself, hsize, hrcv]
      exact hpos
  | @keep p c hpc hm =>
    -- the file at hand has the size that is announced
    have hsize : ∃ a, v.rcv.fileptr = some a ∧ (v.heap a).filesize = p.filesize.toInt := by
      unfold mustReplace at hm
      rcases hp : v.rcv.fileptr with - | a
      · simp only [hp, Option.map_none, ne_eq, reduceCtorEq, not_false_eq_true, and_true] at hm
        omega
      · simp only [hp, Option.map_some, ne_eq, Option.some.injEq] at hm
        refine ⟨a, rfl, ?_⟩
        by_contra hne
        omega
    exact .of_line rfl (h.asked p (by rw [hpc]; rfl)) (fun _ => hsize) fun hstate =>
      hkeep (hplain hpc rfl) rfl id rfl (h.supplied (.inl hstate))
  | @fill p a hpc hp =>
    -- all its bytes are to come
    have hpos : 0 < p.filesize.toInt := h.asked p (by rw [hpc]; rfl)
    obtain ⟨b, hb, hsize⟩ := h.fitted p hpc
    obtain rfl : a = b := Option.some.inj (hp.symm.trans hb)
    have hself : Function.update v.heap a (describe (v.heap a) p) a = describe (v.heap a) p :=
      Function.update_self ..
    have hfile : 0 < (describe (v.heap a) p).filesize := by
      show 0 < (v.heap a).filesize
      rwa [hsize]
    refine .of_ready (.inl rfl) hp ?_ (.inr ⟨a, hp, ?_⟩)
    · dsimp only
      rwa [hself]
    · dsimp only
      rwa [hself]
  | equal | unequal =>
    exact .of_plain ⟨rfl, by simp, by simp⟩ fun _ => .inl (.inr (.inr rfl))
  | @setState st hpc =>
    by_cases hst : st = .ready
    · subst hst
      obtain ⟨a, ha, hpos⟩ := h.sized (.inl hpc)
      exact .of_ready (.inr rfl) ha hpos
        (hkeep (hplain hpc rfl) rfl id rfl (h.supplied (.inr hpc)))
    · exact .of_plain ⟨rfl, by simp, by simpa using hst⟩ fun hstate => absurd hstate hst
  | @sent st hpc =>
    refine .of_plain ?_ fun hstate =>
      hkeep (hplain hpc rfl) rfl id rfl (h.supplied (.inl hstate))
    dsimp only
    split <;> simp [MsgPc.plain, MsgPc.fileinfo?]
  | toWaiting hpc => exact .of_plain ⟨rfl, by simp, by simp⟩ fun hstate => by cases hstate

/-- While `on_network_receive` is at work on a fileinfo line, nothing that it calls
throws. -/
theorem SupplyInv.halted {n : ℕ} {junk : ℕ → UInt8} {ok : Bool} {v v' : RcvView}
    (h : SupplyInv v.rcv v.heap) (hok : AnnouncedStep dbl v.rcv)
    (hreceiving : v.rcv.msg.receiving = true)
    (hline : v.rcv.msg = .resolve → v.rcv.FileinfoLine) (hs : MsgStep dbl n junk ok v v') :
    v'.halted = v.halted := by
  cases hs with
  | badText hpc hr =>
    simp only [AnnouncedStep, hpc, hr] at hok
    exact absurd (hline hpc) hok
  | @badSize p c e hpc hm hf =>
    have hpos : 0 < p.filesize.toInt := h.asked p (by rw [hpc]; rfl)
    obtain ⟨f, hcreate⟩ := @FileInfo.create_nonneg p.filesize.toInt junk hpos.le
    cases hcreate.symm.trans hf
  | writeError hpc => simp [hpc, MsgPc.receiving] at hreceiving
  | popReceive | popClose | popComplete | lookup | read | terminate | nullText | fileinfo
  | otherText | useCount | replace | keep | fill | close | reset | equal | unequal | setState
  | sent | toWaiting => rfl

end FileReceiver

namespace TransferAgent

variable {ι : Type} [DecidableEq ι] [Fintype ι] {δ : Type} (dbl : DoubleLib δ)

/-- A step in which `on_network_receive` of receiver `i` does not throw on a fileinfo
line. -/
def Unthrown (i : ι) (s : TransferAgent ι) : AgentEvent ι → Prop
  | .msg j junk ok => j = i → (s.filercv i).msg.receiving = true →
      ((s.filercv i).msg = .resolve → (s.filercv i).FileinfoLine) → ∀ s', s.step dbl (.msg j junk ok) = some s' → s'.halted = false
  | _ => True

/-- The condition on the steps of the server: every fileinfo line that receiver `i`
answers can be read, and announces a size greater than zero. -/
def Announced (i : ι) (s : TransferAgent ι) : AgentEvent ι → Prop
  | .msg j _ _ => j = i → (s.filercv i).AnnouncedStep dbl
  | _ => True

instance (i : ι) (s : TransferAgent ι) (e : AgentEvent ι) : Decidable (Announced dbl i s e) :=
  match e with
  | .msg j _ _ => inferInstanceAs (Decidable (j = i → (s.filercv i).AnnouncedStep dbl))
  | .recv _ _ | .fail _ | .io _ | .monitor _ | .spurious | .config _ => isTrue trivial

variable {dbl}

theorem afterCall_plain (c : CallPc Addr) : (afterCall c).plain := by
  cases c <;> exact ⟨rfl, by simp [afterCall], by simp [afterCall]⟩

theorem afterCall_completing (c : CallPc Addr) : (afterCall c).completing = true := by
  cases c <;> rfl

/-- A step of receiver `i` itself. -/
theorem supply_rcv {s s' : TransferAgent ι} {i : ι} {e : AgentEvent ι}
    (h : FileReceiver.SupplyInv (s.filercv i) s.heap) (hok : Announced dbl i s e)
    (hs : s.step dbl e = some s') (he : e.receiver? = some i) :
    FileReceiver.SupplyInv (s'.filercv i) s'.heap := by
  -- outside its handlers only the position of the I/O thread changes
  have hframe : ∀ {r : FileReceiver}, (s.filercv i).io = .idle → r.msg = (s.filercv i).msg →
      r.state = (s.filercv i).state → r.fileptr = (s.filercv i).fileptr →
      r.mq = (s.filercv i).mq → FileReceiver.SupplyInv r s.heap := by
    intro r hio hmsg hstate hptr hmq
    refine h.ioFrame hmsg hstate hptr (fun _ _ => rfl) fun hsup => ?_
    rcases hsup with (hc | hc | hc) | ⟨a, ha, hlt⟩
    · simp [hio] at hc
    · exact .inl (.inr (.inl (hmq ▸ hc)))
    · exact .inl (.inr (.inr (hmsg ▸ hc)))
    · exact .inr ⟨a, hptr ▸ ha, hlt⟩
  cases (step_cases hs).2 with
  | recv hr =>
    obtain rfl := Option.some.inj he
    obtain ⟨hio, -, -, rfl⟩ := FileReceiver.receive_cases hr
    dsimp only
    rw [Function.update_self]
    exact hframe hio rfl rfl rfl rfl
  | fail hr =>
    obtain rfl := Option.some.inj he
    obtain ⟨hio, rfl⟩ := FileReceiver.receiveError_cases hr
    dsimp only
    rw [Function.update_self]
    exact hframe hio rfl rfl rfl rfl
  | io hv =>
    obtain rfl := Option.some.inj he
    rw [commit_self, commit_heap]
    exact FileReceiver.SupplyInv.io (v := s.view _) h hv
  | msg hv =>
    obtain rfl := Option.some.inj he
    rw [commit_self, commit_heap]
    exact FileReceiver.SupplyInv.msg (v := s.view _) h (hok rfl) hv
  | handOver hpc hp hc =>
    obtain rfl := Option.some.inj he
    dsimp only
    rw [Function.update_self]
    exact .of_plain ⟨rfl, by simp, by simp⟩ fun _ => .inl (.inr (.inr rfl))
  | newFile hpc hw =>
    obtain rfl := Option.some.inj he
    dsimp only
    rw [Function.update_self]
    exact .of_plain (afterCall_plain _) fun _ => .inl (.inr (.inr (afterCall_completing _)))
  | takeFirst | saveThrew | save | monitor | spurious | config => cases he

omit [DecidableEq ι] [Fintype ι] in
/-- The steps of the others leave the sizes alone. -/
theorem supply_others {s s' : TransferAgent ι} {i : ι}
    (h : FileReceiver.SupplyInv (s.filercv i) s.heap) (hu : Undisturbed s s' i) :
    FileReceiver.SupplyInv (s'.filercv i) s'.heap := by
  have hsame : ∀ a, (s.filercv i).fileptr = some a →
      (s'.heap a).filesize = (s.heap a).filesize ∧ (s'.heap a).rcvsize = (s.heap a).rcvsize := by
    intro a ha
    rcases hu.heap a ha with heq | ⟨-, heq⟩ <;> rw [heq]
    · exact ⟨rfl, rfl⟩
    · exact ⟨rfl, rfl⟩
  rw [hu.rcv]
  refine h.ioFrame rfl rfl rfl (fun a ha => (hsame a ha).1) fun hsup => ?_
  rcases hsup with hc | ⟨a, ha, hlt⟩
  · exact .inl hc
  · refine .inr ⟨a, ha, ?_⟩
    rw [(hsame a ha).1, (hsame a ha).2]
    exact hlt

/-- The condition keeps the exceptions away. -/
theorem unthrown_of_announced {s : TransferAgent ι} {i : ι} {e : AgentEvent ι}
    (h : FileReceiver.SupplyInv (s.filercv i) s.heap) (hok : Announced dbl i s e) :
    Unthrown dbl i s e := by
  cases e with
  | msg j junk ok =>
    rintro rfl hreceiving hline s' hs
    obtain ⟨hhalted, hcases⟩ := step_cases hs
    cases hcases with
    | msg hv => exact (h.halted (hok rfl) hreceiving hline hv).trans hhalted
    | handOver hpc => simp [hpc, MsgPc.receiving] at hreceiving
    | newFile hpc => simp [hpc, MsgPc.receiving] at hreceiving
  | recv | fail | io | monitor | spurious | config => trivial

/-- **`READY` leaves something to come**: in a run in which every fileinfo line that
receiver `i` answers can be read and announces a size greater than zero, `READY` is sent
for a buffer that is not empty, whenever the state is `READY` a completion is on its way
or bytes are outstanding, and no exception leaves `on_network_receive` on such a line. -/
theorem supplied_of_announced {bufs : ι → PackBuf × PackBuf} {heap : Heap} {env : SaveEnv}
    {es : List (AgentEvent ι)} {s : TransferAgent ι} {i : ι}
    (hok : Lts.RunAll (step dbl) (Announced dbl i) (init bufs heap env) es)
    (hrun : Lts.run (step dbl) (init bufs heap env) es = some s) :
    (s.filercv i).Supplied s.heap ∧
      Lts.RunAll (step dbl) (Unthrown dbl i) (init bufs heap env) es := by
  have hstep : ∀ s e s', Owned s ∧ (s.filercv i).SupplyInv s.heap → Announced dbl i s e →
      s.step dbl e = some s' → Owned s' ∧ (s'.filercv i).SupplyInv s'.heap := by
    intro s e s' h hok hs
    refine ⟨h.1.step hs, ?_⟩
    by_cases he : e.receiver? = some i
    · exact supply_rcv h.2 hok hs he
    · exact supply_others h.2 (h.1.undisturbed hs he)
  have hinit : Owned (init bufs heap env) ∧
      ((init bufs heap env).filercv i).SupplyInv (init bufs heap env).heap :=
    ⟨.init bufs heap env, FileReceiver.SupplyInv.init (bufs i) heap⟩
  exact ⟨(Lts.run_invariant_of hstep hinit hok hrun).2.result,
    hok.imp_of hstep (fun _ _ h => unthrown_of_announced h.2) hinit⟩

/-- The line of a file of two bytes, and one of them. -/
def announcedSchedule : List (AgentEvent Unit) :=
  lineSchedule (lit "fileinfo filename=a,filesize=2\n") ++ .recv () [7] :: ioSteps 5

theorem supplied_of_announced_two : ∃ s : TransferAgent Unit,
    Lts.run (step unitLib) single announcedSchedule = some s ∧
      (s.filercv ()).state = .ready ∧ (s.filercv ()).Supplied s.heap ∧
      Lts.RunAll (step unitLib) (Unthrown unitLib ()) single announcedSchedule := by
  have hok : Lts.RunAll (step unitLib) (Announced unitLib ()) single announcedSchedule := by
    decide +kernel
  have heval : (Lts.run (step unitLib) single announcedSchedule).map
      (fun s => (s.filercv ()).state) = some .ready := by
    decide +kernel
  obtain ⟨s, hrun, hs⟩ := Option.map_eq_some_iff.mp heval
  exact ⟨s, hrun, hs, supplied_of_announced hok hrun⟩

/-- A file of zero bytes is answered with `READY`, and nothing more can come. -/
theorem not_supplied : ¬ ∀ (es : List (AgentEvent Unit)) (s : TransferAgent Unit),
    Lts.run (step unitLib) single es = some s → (s.filercv ()).Supplied s.heap ∧
      Lts.RunAll (step unitLib) (Unthrown unitLib ()) single es := by
  intro hall
  have heval : (Lts.run (step unitLib) single
      (lineSchedule (lit "fileinfo filename=a,filesize=0\n"))).map (fun s =>
        (decide ((s.filercv ()).state = .ready ∧ (s.filercv ()).io = .idle ∧
          (s.filercv ()).mq = [] ∧ (s.filercv ()).msg = .idle),
          (s.filercv ()).fileptr.map fun a => ((s.heap a).rcvsize, (s.heap a).filesize))) =
      some (true, some (0, 0)) := by
    decide +kernel
  obtain ⟨s, hrun, hs⟩ := Option.map_eq_some_iff.mp heval
  obtain ⟨hidle, hsizes⟩ := Prod.mk.inj hs
  obtain ⟨hstate, hio, hmq, hmsg⟩ := of_decide_eq_true hidle
  rcases (hall _ s hrun).1.supplied hstate with (hc | hc | hc) | ⟨a, ha, hlt⟩
  · simp [hio] at hc
  · simp [hmq] at hc
  · simp [hmsg, MsgPc.completing] at hc
  · rw [ha, Option.map_some, Option.some.injEq, Prod.mk.injEq] at hsizes
    omega

end TransferAgent

end FtServer
