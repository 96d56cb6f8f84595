/-
FtServer/Bounds.lean

The bounds of the file buffer.  `DataArrive` copies what it is given to
`filedata + rcvsize` and counts it; nothing looks at the size before the copy.
Whether the copy stays inside the buffer is up to the client, who announced the
size and sends the bytes.

`tally` reads off the history of a receiver what was announced last and how much
has been stored since.  `inBounds_iff` says that every call of `DataArrive` is
in bounds all along a run exactly when no chunk stored exceeds what is still
announced; the chunks that count are all those handled in state `READY`, also
after the last byte expected.
-/
import FtServer.Ownership

namespace FtServer

namespace TransferAgent

variable {ι : Type}

/-! ### The property and the condition -/

/-- Every call of `DataArrive` so far was within the buffer, and so are the
counters; none has overflowed. -/
structure InBounds (s : TransferAgent ι) : Prop where
  calls : ∀ i (n : ℕ) rcvsize filesize, .stored n rcvsize filesize ∈ (s.filercv i).log →
    0 ≤ rcvsize ∧ rcvsize + (n : ℤ) ≤ filesize ∧ rcvsize + (n : ℤ) ≤ intMax
  files : ∀ a, a < s.brk → 0 ≤ (s.heap a).rcvsize ∧ (s.heap a).rcvsize ≤ (s.heap a).filesize

/-- Size announced last, and bytes stored since the counter was set to zero. -/
def tallyStep (t : ℤ × ℤ) : Obs → ℤ × ℤ
  | .taken size => (size, 0)
  | .stored n _ _ => (t.1, t.2 + n)
  | _ => t

def tally (log : List Obs) : ℤ × ℤ := log.foldl tallyStep (0, 0)

/-- A chunk about to be stored fits into what is left. -/
def Fits (t : ℤ × ℤ) : IoPc → Prop
  | .arrive n => t.2 + n ≤ t.1
  | _ => True

/-- The step condition: a chunk handled in state `READY` fits into what has been
announced and not been sent yet. -/
def WithinStep (s : TransferAgent ι) : AgentEvent ι → Prop
  | .io i => Fits (tally (s.filercv i).log) (s.filercv i).io
  | _ => True

instance Fits.decidable (t : ℤ × ℤ) (pc : IoPc) : Decidable (Fits t pc) :=
  match pc with
  | .arrive n => inferInstanceAs (Decidable (t.2 + n ≤ t.1))
  | .idle | .landed _ | .testReady | .read | .testWaiting | .post _ | .rearm | .stopped =>
    isTrue trivial

instance WithinStep.decidable (s : TransferAgent ι) (e : AgentEvent ι) :
    Decidable (WithinStep s e) :=
  match e with
  | .io i => Fits.decidable (tally (s.filercv i).log) (s.filercv i).io
  | .recv .. | .fail _ | .msg .. | .monitor _ | .spurious | .config _ => isTrue trivial

/-! ### The invariant -/

/-- The two counters of a file are in order. -/
def Bounded (f : FileInfo) : Prop := 0 ≤ f.rcvsize ∧ f.rcvsize ≤ f.filesize ∧ f.filesize ≤ intMax

/-- The history of the receiver accounts for the counters of its file. -/
structure Accounted (r : FileReceiver) (heap : Heap) : Prop where
  balance : ∀ a, r.fileptr = some a → tally r.log = ((heap a).filesize, (heap a).rcvsize)
  /-- the object about to be described has the size of the description -/
  sized : ∀ a p, r.fileptr = some a → r.msg = .fill p → (heap a).filesize = p.filesize.toInt
  arrive : ∀ n, r.io = .arrive n → n ≤ tcpPackSize
  calls : ∀ (n : ℕ) rcvsize filesize, .stored n rcvsize filesize ∈ r.log →
    0 ≤ rcvsize ∧ rcvsize + (n : ℤ) ≤ filesize ∧ rcvsize + (n : ℤ) ≤ intMax

structure BoundsInv (s : TransferAgent ι) : Prop where
  owned : Owned s
  accounted : ∀ i, Accounted (s.filercv i) s.heap
  bounded : ∀ a, a < s.brk → Bounded (s.heap a)

theorem BoundsInv.init (bufs : ι → PackBuf × PackBuf) (heap : Heap) (env : SaveEnv) :
    BoundsInv (init bufs heap env) where
  owned := .init bufs heap env
  accounted := fun i => by
    constructor <;> simp [TransferAgent.init, FileReceiver.init]
  bounded := fun a ha => absurd ha (Nat.not_lt_zero a)

theorem BoundsInv.inBounds {s : TransferAgent ι} (h : BoundsInv s) : InBounds s where
  calls := fun i => (h.accounted i).calls
  files := fun a ha => ⟨(h.bounded a ha).1, (h.bounded a ha).2.1⟩

/-- Entries of the history that do not count. -/
def Silent (os : List Obs) : Prop :=
  (∀ size, .taken size ∉ os) ∧ ∀ n rcvsize filesize, .stored n rcvsize filesize ∉ os

theorem Silent.tally {os : List Obs} (h : Silent os) (log : List Obs) :
    tally (log ++ os) = tally log := by
  unfold TransferAgent.tally
  rw [List.foldl_append]
  generalize log.foldl tallyStep (0, 0) = t
  induction os generalizing t with
  | nil => rfl
  | cons o os ih =>
    have ho : tallyStep t o = t := by
      cases o with
      | taken size => exact absurd (List.mem_cons_self ..) (h.1 size)
      | stored n r z => exact absurd (List.mem_cons_self ..) (h.2 n r z)
      | _ => rfl
    rw [List.foldl_cons, ho]
    exact ih ⟨fun size hs => h.1 size (List.mem_cons_of_mem _ hs),
      fun n r z hs => h.2 n r z (List.mem_cons_of_mem _ hs)⟩ t

/-- A receiver keeps its account over a step that keeps its pointer and the
counters of its file, adds nothing that counts to its history, and does not come
to describe a file. -/
theorem Accounted.keep {r r' : FileReceiver} {heap heap' : Heap} (h : Accounted r heap)
    (os : List Obs) (hptr : r'.fileptr = r.fileptr) (hlog : r'.log = r.log ++ os)
    (hos : Silent os) (hfill : ∀ p, r'.msg = .fill p → r.msg = .fill p)
    (harrive : ∀ n, r'.io = .arrive n → n ≤ tcpPackSize)
    (hheap : ∀ a, r.fileptr = some a →
      (heap' a).filesize = (heap a).filesize ∧ (heap' a).rcvsize = (heap a).rcvsize) :
    Accounted r' heap' where
  balance := fun a ha => by
    rw [hptr] at ha
    rw [hlog, hos.tally, h.balance a ha, (hheap a ha).1, (hheap a ha).2]
  sized := fun a p ha hm => by
    rw [hptr] at ha
    rw [(hheap a ha).1]
    exact h.sized a p ha (hfill p hm)
  arrive := harrive
  calls := fun n rcvsize filesize hc => by
    rw [hlog] at hc
    rcases List.mem_append.mp hc with hc | hc
    · exact h.calls n rcvsize filesize hc
    · exact absurd hc (hos.2 n rcvsize filesize)

/-- The steps of the others leave the account of `i` as it is. -/
theorem Accounted.undisturbed {s s' : TransferAgent ι} {i : ι}
    (h : Accounted (s.filercv i) s.heap) (hu : Undisturbed s s' i) :
    Accounted (s'.filercv i) s'.heap := by
  rw [hu.rcv]
  refine h.keep [] rfl (List.append_nil _).symm (by simp [Silent]) (fun _ => id) h.arrive
    fun a ha => ?_
  rcases hu.heap a ha with he | ⟨-, he⟩ <;> rw [he] <;> exact ⟨rfl, rfl⟩

/-! ### Steps -/

/-- The I/O thread: a chunk that fits is accounted for, and overflows nothing. -/
theorem Accounted.io {v v' : RcvView} (h : Accounted v.rcv v.heap)
    (hb : ∀ a, v.rcv.fileptr = some a → Bounded (v.heap a))
    (hok : Fits (tally v.rcv.log) v.rcv.io) (hv : FileReceiver.IoStep v v') :
    Accounted v'.rcv v'.heap ∧ (∀ b, Bounded (v.heap b) → Bounded (v'.heap b)) ∧
      v'.halted = v.halted := by
  have hsame : ∀ a, v.rcv.fileptr = some a →
      (v.heap a).filesize = (v.heap a).filesize ∧ (v.heap a).rcvsize = (v.heap a).rcvsize :=
    fun _ _ => ⟨rfl, rfl⟩
  have hnil : v.rcv.log = v.rcv.log ++ [] := (List.append_nil _).symm
  have hsilent : Silent [] := by simp [Silent]
  -- what the step condition says where a chunk is stored
  have hfit : ∀ n a, v.rcv.io = .arrive n → v.rcv.fileptr = some a →
      (v.heap a).rcvsize + (n : ℤ) ≤ (v.heap a).filesize ∧
        ((v.rcv.bufrcv.bytes.take n).length : ℤ) = n := by
    intro n a hpc hp
    rw [hpc, h.balance a hp] at hok
    refine ⟨hok, ?_⟩
    have hn := h.arrive n hpc
    rw [List.length_take, v.rcv.bufrcv.length_eq, Nat.min_eq_left hn]
  cases hv with
  | handleRead | isReady | notReady | isWaiting | ignored =>
    exact ⟨h.keep [] rfl hnil hsilent (fun _ => id) (fun n hn => by cases hn) hsame,
      fun _ => id, rfl⟩
  | rearm =>
    refine ⟨h.keep [] rfl hnil hsilent (fun _ => id) (fun n hn => ?_) hsame, fun _ => id, rfl⟩
    dsimp only at hn
    split at hn <;> cases hn
  | post =>
    refine ⟨h.keep [.posted _] rfl rfl (by simp [Silent]) (fun _ => id) (fun n hn => ?_) hsame,
      fun _ => id, rfl⟩
    dsimp only at hn
    split at hn <;> cases hn
  | read =>
    refine ⟨h.keep [] rfl hnil hsilent (fun _ => id) (fun n hn => ?_) hsame, fun _ => id, rfl⟩
    obtain rfl := IoPc.arrive.inj hn
    exact TCPClient.read_pack_length _
  | @overflow n a hpc hp hd =>
    obtain ⟨hle, hlen⟩ := hfit n a hpc hp
    have hmax := (hb a hp).2.2
    unfold FileInfo.dataArrive at hd
    rw [hlen, if_pos (Int.le_trans hle hmax)] at hd
    cases hd
  | @arrive n a f full hpc hp hd =>
    obtain ⟨hle, hlen⟩ := hfit n a hpc hp
    obtain ⟨hr, hz, hmax⟩ := hb a hp
    obtain ⟨-, -, hrcv, hsize, -⟩ := FileInfo.dataArrive_spec hd
    rw [hlen] at hrcv
    have hf : Bounded f := by
      refine ⟨?_, ?_, ?_⟩
      · rw [hrcv]
        omega
      · rw [hrcv, hsize]
        exact hle
      · rw [hsize]
        exact hmax
    refine ⟨⟨?_, ?_, ?_, ?_⟩, ?_, rfl⟩
    · intro b hb'
      obtain rfl : a = b := Option.some.inj (hp.symm.trans hb')
      show TransferAgent.tally (v.rcv.log ++ [_]) = _
      rw [TransferAgent.tally, List.foldl_append, ← TransferAgent.tally, h.balance a hp]
      show _ = ((Function.update v.heap a f a).filesize, (Function.update v.heap a f a).rcvsize)
      rw [Function.update_self, hrcv, hsize]
      rfl
    · intro b p hb' hm
      obtain rfl : a = b := Option.some.inj (hp.symm.trans hb')
      show (Function.update v.heap a f a).filesize = _
      rw [Function.update_self, hsize]
      exact h.sized a p hp hm
    · intro k hk
      dsimp only at hk
      split at hk <;> cases hk
    · intro k r z hc
      rcases List.mem_append.mp hc with hc | hc
      · exact h.calls k r z hc
      · obtain ⟨rfl, rfl, rfl⟩ := Obs.stored.inj (List.mem_singleton.mp hc)
        exact ⟨hr, hle, Int.le_trans hle hmax⟩
    · intro b hb'
      by_cases hab : b = a
      · subst hab
        show Bounded (Function.update v.heap b f b)
        rwa [Function.update_self]
      · show Bounded (Function.update v.heap a f b)
        rwa [Function.update_of_ne hab]

theorem filesize_le_intMax (x : Int32) : x.toInt ≤ intMax := by
  have h : x.toInt < 2 ^ 31 := x.toInt_lt
  have hmax : intMax = 2 ^ 31 - 1 := by decide
  omega

/-- The message thread: a size taken over starts a new account. -/
theorem Accounted.msg {δ : Type} {dbl : DoubleLib δ} {n : ℕ} {junk : ℕ → UInt8} {ok : Bool}
    {v v' : RcvView} (h : Accounted v.rcv v.heap)
    (hb : ∀ a, v.rcv.fileptr = some a → Bounded (v.heap a))
    (hv : FileReceiver.MsgStep dbl n junk ok v v') :
    Accounted v'.rcv v'.heap ∧
      ∀ b, (b < v.brk → Bounded (v.heap b)) → b < v'.brk → Bounded (v'.heap b) := by
  have hsame : ∀ a, v.rcv.fileptr = some a →
      (v.heap a).filesize = (v.heap a).filesize ∧ (v.heap a).rcvsize = (v.heap a).rcvsize :=
    fun _ _ => ⟨rfl, rfl⟩
  have hnil : v.rcv.log = v.rcv.log ++ [] := (List.append_nil _).symm
  have hsilent : Silent [] := by simp [Silent]
  -- a new account in an extended history
  have hcalls : ∀ (size : ℤ) (k : ℕ) rcvsize filesize,
      Obs.stored k rcvsize filesize ∈ v.rcv.log ++ [.taken size] →
      0 ≤ rcvsize ∧ rcvsize + (k : ℤ) ≤ filesize ∧ rcvsize + (k : ℤ) ≤ intMax := by
    intro size k r z hc
    rcases List.mem_append.mp hc with hc | hc
    · exact h.calls k r z hc
    · cases List.mem_singleton.mp hc
  have htaken : ∀ size : ℤ, TransferAgent.tally (v.rcv.log ++ [.taken size]) = (size, 0) := by
    intro size
    rw [TransferAgent.tally, List.foldl_append]
    rfl
  cases hv with
  | popReceive | popClose | popComplete | lookup | read | nullText | fileinfo | otherText
  | useCount | close | reset | unequal | setState | toWaiting =>
    exact ⟨h.keep [] rfl hnil hsilent (fun p hp => by cases hp) h.arrive hsame, fun _ => id⟩
  | badText | badSize | writeError =>
    exact ⟨h.keep [] rfl hnil hsilent (fun _ => id) h.arrive hsame, fun _ => id⟩
  | @terminate pos =>
    refine ⟨?_, fun _ => id⟩
    by_cases hpos : pos < 0
    · exact h.keep [.outOfBounds] rfl (if_pos hpos) (by simp [Silent]) (fun p hp => by cases hp)
        h.arrive hsame
    · exact h.keep [] rfl ((if_neg hpos).trans hnil) hsilent (fun p hp => by cases hp)
        h.arrive hsame
  | sent =>
    refine ⟨h.keep [.sent _] rfl rfl (by simp [Silent]) (fun p hp => ?_) h.arrive hsame,
      fun _ => id⟩
    dsimp only at hp
    split at hp <;> cases hp
  | equal =>
    exact ⟨h.keep [.checked _ _] rfl rfl (by simp [Silent]) (fun p hp => by cases hp) h.arrive
      hsame, fun _ => id⟩
  | @keep p c hpc hm =>
    refine ⟨⟨h.balance, fun a q ha hq => ?_, h.arrive, h.calls⟩, fun _ => id⟩
    obtain rfl := MsgPc.fill.inj hq
    unfold FileReceiver.mustReplace at hm
    rw [show v.rcv.fileptr = some a from ha] at hm
    by_contra hne
    apply hm
    rcases Nat.lt_trichotomy c 1 with hc | hc | hc
    · exact .inl (by omega)
    · exact .inr (.inr ⟨hc, by simpa using hne⟩)
    · exact .inr (.inl hc)
  | @replace p c f hpc hm hf =>
    obtain ⟨hsize, hrcv⟩ := FileInfo.create_ok hf
    refine ⟨⟨fun a ha => ?_, fun a q ha hq => ?_, h.arrive, hcalls _⟩, fun b hold hlt => ?_⟩
    · obtain rfl : v.brk = a := Option.some.inj ha
      show TransferAgent.tally (v.rcv.log ++ _) = ((Function.update v.heap v.brk f v.brk).filesize,
        (Function.update v.heap v.brk f v.brk).rcvsize)
      rw [htaken, Function.update_self, hsize, hrcv]
    · obtain rfl : v.brk = a := Option.some.inj ha
      obtain rfl := MsgPc.fill.inj hq
      show (Function.update v.heap v.brk f v.brk).filesize = _
      rw [Function.update_self, hsize]
    · show Bounded (Function.update v.heap v.brk f b)
      by_cases hbrk : b = v.brk
      · rw [hbrk, Function.update_self]
        refine ⟨Int.le_of_eq hrcv.symm, ?_, ?_⟩
        · rw [hrcv]
          exact f.filesize_nonneg
        · rw [hsize]
          exact filesize_le_intMax _
      · rw [Function.update_of_ne hbrk]
        exact hold (Nat.lt_of_le_of_ne (Nat.le_of_lt_succ hlt) hbrk)
  | @fill p a hpc hp =>
    have hsize := h.sized a p hp hpc
    refine ⟨⟨fun b hb' => ?_, fun b q _ hq => absurd hq (by simp), h.arrive, hcalls _⟩,
      fun b hold hlt => ?_⟩
    · obtain rfl : a = b := Option.some.inj (hp.symm.trans hb')
      show TransferAgent.tally (v.rcv.log ++ _) =
        ((Function.update v.heap a (FileReceiver.describe (v.heap a) p) a).filesize,
          (Function.update v.heap a (FileReceiver.describe (v.heap a) p) a).rcvsize)
      rw [htaken, Function.update_self, ← hsize]
      rfl
    · show Bounded (Function.update v.heap a (FileReceiver.describe (v.heap a) p) b)
      by_cases hab : b = a
      · rw [hab, Function.update_self]
        exact ⟨Int.le_refl 0, (v.heap a).filesize_nonneg, (hb a hp).2.2⟩
      · rw [Function.update_of_ne hab]
        exact hold hlt

variable [DecidableEq ι] [Fintype ι] {δ : Type} {dbl : DoubleLib δ}

theorem BoundsInv.step {s s' : TransferAgent ι} {e : AgentEvent ι} (h : BoundsInv s)
    (hok : WithinStep s e) (hs : s.step dbl e = some s') : BoundsInv s' := by
  have hb : ∀ i a, (s.filercv i).fileptr = some a → Bounded (s.heap a) :=
    fun i a ha => h.bounded a (h.owned.lt i a ha)
  -- it is enough to look at the receiver that moves, and at the objects
  have hlocal : ∀ {i r heap}, e.receiver? = some i →
      s'.filercv = Function.update s.filercv i r → s'.heap = heap → Accounted r heap →
      (∀ b, (b < s.brk → Bounded (s.heap b)) → b < s'.brk → Bounded (heap b)) → BoundsInv s' := by
    intro i r heap he hrcv hheap hacc hbound
    refine ⟨h.owned.step hs, fun j => ?_, fun b hlt => ?_⟩
    · by_cases hj : j = i
      · subst hj
        rw [hrcv, hheap, Function.update_self]
        exact hacc
      · refine (h.accounted j).undisturbed (h.owned.undisturbed hs ?_)
        rw [he]
        exact fun hij => hj (Option.some.inj hij).symm
    · rw [hheap]
      exact hbound b (h.bounded b) hlt
  have hwriter : e.receiver? = none → s'.brk = s.brk →
      (∀ b, Bounded (s.heap b) → Bounded (s'.heap b)) → BoundsInv s' := by
    intro he hbrk hbound
    refine ⟨h.owned.step hs, fun j => ?_, fun b hlt => hbound b (h.bounded b (hbrk ▸ hlt))⟩
    exact (h.accounted j).undisturbed (h.owned.undisturbed hs (by rw [he]; simp))
  have hkeep : ∀ {i r} (os : List Obs), r.fileptr = (s.filercv i).fileptr →
      r.log = (s.filercv i).log ++ os → Silent os →
      (∀ p, r.msg = .fill p → (s.filercv i).msg = .fill p) →
      (∀ n, r.io = .arrive n → n ≤ tcpPackSize) → Accounted r s.heap :=
    fun {i r} os hptr hlog hos hfill harrive => (h.accounted i).keep os hptr hlog hos hfill harrive
      fun _ _ => ⟨rfl, rfl⟩
  cases (step_cases hs).2 with
  | @recv i d r hr =>
    obtain ⟨-, -, -, rfl⟩ := FileReceiver.receive_cases hr
    exact hlocal rfl rfl rfl (hkeep [.arrived d] rfl rfl (by simp [Silent]) (fun _ => id)
      fun n hn => by cases hn) fun _ => id
  | @fail i r hr =>
    obtain ⟨-, rfl⟩ := FileReceiver.receiveError_cases hr
    exact hlocal rfl rfl rfl (hkeep [] rfl (List.append_nil _).symm (by simp [Silent])
      (fun _ => id) fun n hn => by cases hn) fun _ => id
  | @io i v hv =>
    obtain ⟨hacc, hbound, -⟩ := (h.accounted i).io (v := s.view i) (hb i) hok hv
    have hbrk : v.brk = s.brk := by cases hv <;> rfl
    exact hlocal rfl rfl rfl hacc fun b hold hlt => hbound b (hold (hbrk ▸ hlt))
  | @msg i _ _ v hv =>
    obtain ⟨hacc, hbound⟩ := (h.accounted i).msg (v := s.view i) (hb i) hv
    exact hlocal rfl rfl rfl hacc hbound
  | @handOver i _ _ a hpc hp hc =>
    exact hlocal rfl rfl rfl (hkeep [.handed _ _] rfl rfl (by simp [Silent])
      (fun p hp' => by cases hp') (h.accounted i).arrive) fun _ => id
  | @newFile i _ _ w hpc hw =>
    refine hlocal rfl rfl rfl (hkeep (newFileLog s.fw i) rfl rfl ?_ (fun p hp => ?_)
      (h.accounted i).arrive) fun _ => id
    · unfold newFileLog
      split <;> simp [Silent]
    · rcases hc : w.callers i <;> simp [hc, afterCall] at hp
  | @takeFirst _ a q hm hq =>
    refine hwriter rfl rfl fun b hold => ?_
    show Bounded (Function.update s.heap a (saveBegin s.env (s.heap a)) b)
    by_cases hab : b = a
    · subst hab
      rwa [Function.update_self]
    · rwa [Function.update_of_ne hab]
  | saveThrew | save | monitor | config | spurious => exact hwriter rfl rfl fun _ => id

/-- A chunk that does not fit is stored all the same. -/
theorem BoundsInv.broken {s s' : TransferAgent ι} {e : AgentEvent ι} (h : BoundsInv s)
    (hok : ¬ WithinStep s e) (hs : s.step dbl e = some s') : ¬ InBounds s' := by
  intro hin
  cases (step_cases hs).2 with
  | recv | fail | msg | handOver | newFile | takeFirst | saveThrew | save | monitor | config
  | spurious => exact hok trivial
  | @io i v hv =>
    apply hok
    -- the call goes into the history with the counters it found
    have hcall : ∀ (n : ℕ) a, (s.filercv i).io = .arrive n → (s.filercv i).fileptr = some a →
        .stored n (s.heap a).rcvsize (s.heap a).filesize ∈ v.rcv.log →
        Fits (tally (s.filercv i).log) (s.filercv i).io := by
      intro n a hpc hp hmem
      have hc := (hin.calls i n _ _ (by
        show Obs.stored n (s.heap a).rcvsize (s.heap a).filesize ∈
          (Function.update s.filercv i v.rcv i).log
        rwa [Function.update_self])).2.1
      rw [hpc, (h.accounted i).balance a hp]
      exact hc
    show Fits (tally (s.filercv i).log) (s.filercv i).io
    cases hv with
    | overflow hpc hp | arrive hpc hp => exact hcall _ _ hpc hp (by simp)
    | handleRead hpc | isReady hpc | notReady hpc | read hpc | isWaiting hpc | ignored hpc
    | post hpc | rearm hpc =>
      rw [show (s.filercv i).io = _ from hpc]
      trivial

/-! ### The condition is exact -/

/-- **Reception stays within the file buffer exactly in the runs in which no
chunk handled in state `READY` exceeds what is left of the announced size.** -/
theorem inBounds_iff {bufs : ι → PackBuf × PackBuf} {heap : Heap} {env : SaveEnv}
    {es : List (AgentEvent ι)} {s : TransferAgent ι}
    (hrun : Lts.run (step dbl) (TransferAgent.init bufs heap env) es = some s) :
    Lts.Always (step dbl) InBounds (TransferAgent.init bufs heap env) es ↔
      Lts.RunAll (step dbl) WithinStep (TransferAgent.init bufs heap env) es :=
  Lts.always_iff_runAll (fun _ _ _ => BoundsInv.step) (fun _ => BoundsInv.inBounds)
    (fun _ _ _ => BoundsInv.broken) (.init bufs heap env) hrun

/-- Two files of two bytes, one after the other, in chunks of one and two bytes. -/
def withinSchedule : List (AgentEvent Unit) :=
  lineSchedule (lit "fileinfo filename=a,filesize=2\n") ++
    .recv () [7] :: ioSteps 5 ++ dataSchedule [8] ++ msgSteps 7 ++
    lineSchedule (lit "fileinfo filename=b,filesize=2\n") ++ dataSchedule [9, 10]

theorem inBounds_two : Lts.Always (step unitLib) InBounds single withinSchedule := by
  have hsome : (Lts.run (step unitLib) single withinSchedule).isSome = true := by decide +kernel
  obtain ⟨s, hrun⟩ := Option.isSome_iff_exists.mp hsome
  exact (inBounds_iff hrun).mpr (by decide +kernel)

/-- A client announces one byte and sends two: the copy passes the end of the
buffer. -/
theorem not_inBounds : ¬ ∀ (es : List (AgentEvent Unit)) (s : TransferAgent Unit),
    Lts.run (step unitLib) single es = some s → InBounds s := by
  intro hall
  have heval : (Lts.run (step unitLib) single
      (lineSchedule (lit "fileinfo filename=a,filesize=1\n") ++ .recv () [7, 8] :: ioSteps 4)).map
        (fun s => decide (.stored 2 0 1 ∈ (s.filercv ()).log)) = some true := by decide +kernel
  obtain ⟨s, hrun, hs⟩ := Option.map_eq_some_iff.mp heval
  have hcall := (hall _ s hrun).calls () 2 0 1 (of_decide_eq_true hs)
  exact absurd hcall.2.1 (by decide)

end TransferAgent

end FtServer
