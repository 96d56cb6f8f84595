/-
FtServer/Ownership.lean

Who may write to a file.  A receiver and the writer share one object, so a file
in the queue is safe only because of the test of `use_count` before an object is
used again, and because bytes that arrive late fall past the end of the file.

`Owned` is the invariant that links the pointers to the program positions: no
two receivers point to the same object; a file in the queue, or on its way into
it, has all its bytes; and a receiver that is about to overwrite the description
of its object, or has just counted one reference to it, shares it with nobody.
`queued_frozen` is the result: no step of a receiver changes a file that the
writer holds.
-/
import FtServer.TransferAgent

namespace FtServer

namespace TransferAgent

variable {ι : Type}

/-! ### The invariant -/

/-- The writer holds the file: it is in the queue, or `save_first` points to it. -/
def Frozen (s : TransferAgent ι) (a : Addr) : Prop := a ∈ s.fw.quenf ∨ s.fw.ptr = some a

/-- All the bytes of the file have arrived. -/
def Full (s : TransferAgent ι) (a : Addr) : Prop := (s.heap a).filesize ≤ (s.heap a).rcvsize

/-- What the message thread relies on at a position, for the object `a` that
`fileptr_` points to. -/
def Guard (s : TransferAgent ι) (a : Addr) : MsgPc → Prop
  | .handOver | .newFile => s.Full a
  | .makeShared _ n => n = 1 → ¬ s.Frozen a
  | .fill _ => ¬ s.Frozen a
  | _ => True

structure Owned (s : TransferAgent ι) : Prop where
  lt : ∀ i a, (s.filercv i).fileptr = some a → a < s.brk
  unique : ∀ i j a, (s.filercv i).fileptr = some a → (s.filercv j).fileptr = some a → i = j
  /-- a call of `NewFile` is about the caller's own file -/
  caller : ∀ i a, (s.fw.callers i).file? = some a →
    (s.filercv i).fileptr = some a ∧ (s.filercv i).msg = .newFile
  guard : ∀ i a, (s.filercv i).fileptr = some a → s.Guard a (s.filercv i).msg
  frozen_lt : ∀ a, s.Frozen a → a < s.brk
  full : ∀ a, s.Frozen a → s.Full a

theorem Owned.init (bufs : ι → PackBuf × PackBuf) (heap : Heap) (env : SaveEnv) :
    Owned (init bufs heap env) := by
  constructor <;>
    simp [TransferAgent.init, FileReceiver.init, FileWritter.init, CallPc.file?, Frozen]

/-- A guard survives changes that freeze nothing and leave full files full. -/
theorem Guard.mono {s s' : TransferAgent ι} {a : Addr} {m : MsgPc} (h : s.Guard a m)
    (hfull : s.Full a → s'.Full a) (hfrozen : s'.Frozen a → s.Frozen a) : s'.Guard a m := by
  cases m <;> try exact trivial
  case handOver => exact hfull h
  case newFile => exact hfull h
  case makeShared p n => exact fun hn hf => h hn (hfrozen hf)
  case fill p => exact fun hf => h (hfrozen hf)

/-! ### Steps of the receivers -/

/-- Bytes that arrive leave every full file full. -/
theorem full_update {s s' : TransferAgent ι} {a : Addr} {f : FileInfo}
    (hheap : s'.heap = Function.update s.heap a f) (hsize : f.filesize = (s.heap a).filesize)
    (hrcv : (s.heap a).rcvsize ≤ f.rcvsize) {b : Addr} (hb : s.Full b) : s'.Full b := by
  unfold Full at hb ⊢
  rw [hheap]
  by_cases hab : b = a
  · subst hab
    rw [Function.update_self, hsize]
    exact Int.le_trans hb hrcv
  · rwa [Function.update_of_ne hab]

/-- An object that is not written stays full. -/
theorem full_update_of_ne {s s' : TransferAgent ι} {a b : Addr} {f : FileInfo}
    (hheap : s'.heap = Function.update s.heap a f) (hab : b ≠ a) (hb : s.Full b) :
    s'.Full b := by
  unfold Full at hb ⊢
  rwa [hheap, Function.update_of_ne hab]

variable [DecidableEq ι]

/-- A step of receiver `i` outside the writer.  It keeps its pointer or points to
a fresh object, it re-establishes its own guard, and the objects of the others
and of the writer stay full. -/
theorem Owned.receiverStep {s s' : TransferAgent ι} {i : ι} {r : FileReceiver} (h : Owned s)
    (hrcv : s'.filercv = Function.update s.filercv i r) (hfw : s'.fw = s.fw)
    (hbrk : s.brk ≤ s'.brk)
    (hptr : r.fileptr = (s.filercv i).fileptr ∨ (r.fileptr = some s.brk ∧ s.brk < s'.brk))
    (hcall : (s.filercv i).msg = .newFile →
      r.msg = .newFile ∧ r.fileptr = (s.filercv i).fileptr)
    (hguard : ∀ a, r.fileptr = some a → s'.Guard a r.msg)
    (hfull : ∀ a, (s.Frozen a ∨ ∃ j, j ≠ i ∧ (s.filercv j).fileptr = some a) →
      s.Full a → s'.Full a) : Owned s' := by
  have hself : s'.filercv i = r := by rw [hrcv, Function.update_self]
  have hother : ∀ j, j ≠ i → s'.filercv j = s.filercv j := fun j hj => by
    rw [hrcv, Function.update_of_ne hj]
  have hfrozen : ∀ a, s'.Frozen a ↔ s.Frozen a := fun a => by rw [Frozen, hfw, Frozen]
  -- the pointer of `i` is its own: it was before, or it is fresh
  have hown : ∀ j a, j ≠ i → r.fileptr = some a → (s.filercv j).fileptr ≠ some a := by
    intro j a hj ha hja
    rcases hptr with hsame | ⟨hnew, -⟩
    · exact hj (h.unique j i a hja (hsame ▸ ha))
    · obtain rfl : s.brk = a := Option.some.inj (hnew.symm.trans ha)
      exact Nat.lt_irrefl _ (h.lt j _ hja)
  constructor
  · intro j a hja
    by_cases hj : j = i
    · subst hj
      rw [hself] at hja
      rcases hptr with hsame | ⟨hnew, hlt⟩
      · exact Nat.lt_of_lt_of_le (h.lt j a (hsame ▸ hja)) hbrk
      · obtain rfl : s.brk = a := Option.some.inj (hnew.symm.trans hja)
        exact hlt
    · rw [hother j hj] at hja
      exact Nat.lt_of_lt_of_le (h.lt j a hja) hbrk
  · intro j k a hja hka
    by_cases hj : j = i
    · by_cases hk : k = i
      · rw [hj, hk]
      · rw [hj, hself] at hja
        rw [hother k hk] at hka
        exact absurd hka (hown k a hk hja)
    · rw [hother j hj] at hja
      by_cases hk : k = i
      · rw [hk, hself] at hka
        exact absurd hja (hown j a hj hka)
      · rw [hother k hk] at hka
        exact h.unique j k a hja hka
  · intro j a hja
    rw [hfw] at hja
    obtain ⟨hp, hm⟩ := h.caller j a hja
    by_cases hj : j = i
    · subst hj
      obtain ⟨hm', hp'⟩ := hcall hm
      exact ⟨by rw [hself, hp', hp], by rw [hself, hm']⟩
    · rw [hother j hj]
      exact ⟨hp, hm⟩
  · intro j a hja
    by_cases hj : j = i
    · subst hj
      rw [hself] at hja ⊢
      exact hguard a hja
    · rw [hother j hj] at hja ⊢
      exact (h.guard j a hja).mono (hfull a (.inr ⟨j, hj, hja⟩)) (hfrozen a).mp
  · exact fun a ha => Nat.lt_of_lt_of_le (h.frozen_lt a ((hfrozen a).mp ha)) hbrk
  · intro a ha
    rw [hfrozen] at ha
    exact hfull a (.inl ha) (h.full a ha)

theorem Owned.io {s : TransferAgent ι} {i : ι} {v : RcvView} (h : Owned s)
    (hv : FileReceiver.IoStep (s.view i) v) : Owned (s.commit i v) := by
  have hguard := h.guard i
  cases hv with
  | @arrive n a f full hpc hp hd =>
    obtain ⟨-, -, hrcv, hsize, -⟩ := FileInfo.dataArrive_spec hd
    have hle : (s.heap a).rcvsize ≤ f.rcvsize := by
      rw [hrcv]
      exact Int.le_add_of_nonneg_right (by omega)
    exact h.receiverStep rfl rfl (Nat.le_refl _) (.inl rfl) (fun hm => ⟨hm, rfl⟩)
      (fun b hb => (hguard b hb).mono (full_update rfl hsize hle) id)
      (fun b _ => full_update rfl hsize hle)
  | handleRead | isReady | notReady | read | overflow | isWaiting | ignored | post | rearm =>
    exact h.receiverStep rfl rfl (Nat.le_refl _) (.inl rfl) (fun hm => ⟨hm, rfl⟩)
      (fun b hb => (hguard b hb).mono id id) (fun _ _ => id)

omit [DecidableEq ι] in
/-- A use count of one leaves no reference to the writer. -/
theorem not_frozen_of_useCount [Fintype ι] {s : TransferAgent ι} {i : ι} {a : Addr}
    (hp : (s.filercv i).fileptr = some a) (hn : s.useCount a = 1) : ¬ s.Frozen a := by
  have hown : 0 < (Finset.univ.filter fun i => (s.filercv i).fileptr = some a).card :=
    Finset.card_pos.mpr ⟨i, by simp [hp]⟩
  unfold useCount at hn
  rintro (hq | hptr)
  · have hcount := List.count_pos_iff.mpr hq
    omega
  · rw [if_pos hptr] at hn
    omega

variable [Fintype ι] {δ : Type} {dbl : DoubleLib δ}

theorem Owned.msg {s : TransferAgent ι} {i : ι} {junk : ℕ → UInt8} {ok : Bool} {v : RcvView}
    (h : Owned s) (hv : FileReceiver.MsgStep dbl (s.fileptrCount i) junk ok (s.view i) v) :
    Owned (s.commit i v) := by
  have hguard := h.guard i
  -- a step that keeps pointer and objects has to see to its own guard only
  have hplain : ∀ (r : FileReceiver) (b : Bool), r.fileptr = (s.filercv i).fileptr →
      (s.filercv i).msg ≠ .newFile →
      (∀ a, (s.filercv i).fileptr = some a → s.Guard a r.msg) →
      Owned (s.commit i ⟨r, s.heap, s.brk, b⟩) := by
    intro r b hp hm hg
    refine h.receiverStep rfl rfl (Nat.le_refl _) (.inl hp) (fun hm' => absurd hm' hm) ?_
      (fun _ _ => id)
    exact fun a ha => (hg a (hp ▸ ha)).mono id id
  cases hv with
  | popReceive hpc | popClose hpc | popComplete hpc | lookup hpc | read hpc | terminate hpc
  | nullText hpc | fileinfo hpc | otherText hpc | close hpc | reset hpc | unequal hpc
  | setState hpc | toWaiting hpc =>
    exact hplain _ _ rfl (by rw [show (s.filercv i).msg = _ from hpc]; simp) fun _ _ => trivial
  | @sent st hpc =>
    refine hplain _ _ rfl (by rw [show (s.filercv i).msg = _ from hpc]; simp) fun _ _ => ?_
    by_cases hst : st = .ready <;> simp [hst, Guard]
  | badText hpc | badSize hpc | writeError hpc =>
    exact hplain _ _ rfl (by rw [show (s.filercv i).msg = _ from hpc]; simp) hguard
  | @useCount p hpc =>
    -- a count of one is that of the receiver itself
    refine hplain _ _ rfl (by rw [show (s.filercv i).msg = _ from hpc]; simp) fun a ha hn => ?_
    rw [fileptrCount, ha] at hn
    exact not_frozen_of_useCount ha hn
  | @keep p c hpc hm =>
    refine hplain _ _ rfl (by rw [show (s.filercv i).msg = _ from hpc]; simp) fun a ha => ?_
    have hg : s.Guard a (.makeShared p c) := hpc ▸ hguard a ha
    apply hg
    unfold FileReceiver.mustReplace at hm
    omega
  | @equal a hpc hp he =>
    refine hplain _ _ rfl (by rw [show (s.filercv i).msg = _ from hpc]; simp) fun b hb => ?_
    obtain rfl : a = b := Option.some.inj (hp.symm.trans hb)
    exact Int.le_of_eq he
  | @replace p c f hpc hm hf =>
    -- nobody refers to the fresh object yet
    have hfresh : ∀ b, (s.Frozen b ∨ ∃ j, j ≠ i ∧ (s.filercv j).fileptr = some b) →
        b ≠ s.brk := by
      rintro b (hb | ⟨j, -, hb⟩)
      · exact Nat.ne_of_lt (h.frozen_lt b hb)
      · exact Nat.ne_of_lt (h.lt j b hb)
    refine h.receiverStep rfl rfl (Nat.le_succ _) (.inr ⟨rfl, Nat.lt_succ_self _⟩)
      (fun hm' => ?_) ?_ (fun b hb => full_update_of_ne rfl (hfresh b hb))
    · rw [show (s.filercv i).msg = _ from hpc] at hm'
      cases hm'
    · intro b hb hfr
      obtain rfl : s.brk = b := Option.some.inj hb
      exact hfresh _ (.inl hfr) rfl
  | @fill p a hpc hp =>
    -- the counter is set back to zero, of an object that nobody else refers to
    have hg : s.Guard a (.fill p) := hpc ▸ hguard a hp
    refine h.receiverStep rfl rfl (Nat.le_refl _) (.inl rfl) (fun hm' => ?_)
      (fun _ _ => trivial) ?_
    · rw [show (s.filercv i).msg = _ from hpc] at hm'
      cases hm'
    · intro b hb
      apply full_update_of_ne rfl
      rintro rfl
      rcases hb with hb | ⟨j, hj, hb⟩
      · exact hg hb
      · exact hj (h.unique j i b hb hp)

/-! ### Steps that involve the writer -/

omit [DecidableEq ι] [Fintype ι] in
/-- A step that leaves the receivers and the calls alone and freezes nothing. -/
theorem Owned.writerStep {s s' : TransferAgent ι} (h : Owned s)
    (hrcv : s'.filercv = s.filercv) (hcallers : s'.fw.callers = s.fw.callers)
    (hbrk : s'.brk = s.brk) (hfrozen : ∀ a, s'.Frozen a → s.Frozen a)
    (hfull : ∀ a, s.Full a → s'.Full a) : Owned s' where
  lt := by rw [hrcv, hbrk]; exact h.lt
  unique := by rw [hrcv]; exact h.unique
  caller := by rw [hrcv, hcallers]; exact h.caller
  guard := by
    rw [hrcv]
    exact fun i a ha => (h.guard i a ha).mono (hfull a) (hfrozen a)
  frozen_lt := by rw [hbrk]; exact fun a ha => h.frozen_lt a (hfrozen a ha)
  full := fun a ha => hfull a (h.full a (hfrozen a ha))

omit [Fintype ι] in
/-- A step that calls into the writer: receiver `i` keeps its pointer, its call is
about its own file, and only that file may become frozen, when it is full. -/
theorem Owned.callStep {s s' : TransferAgent ι} {i : ι} {r : FileReceiver} {c : CallPc Addr}
    (h : Owned s) (hrcv : s'.filercv = Function.update s.filercv i r)
    (hptr : r.fileptr = (s.filercv i).fileptr) (hheap : s'.heap = s.heap)
    (hbrk : s'.brk = s.brk) (hcallers : s'.fw.callers = Function.update s.fw.callers i c)
    (hc : ∀ a, c.file? = some a → (s.filercv i).fileptr = some a ∧ r.msg = .newFile)
    (hguard : ∀ a, (s.filercv i).fileptr = some a → s'.Guard a r.msg)
    (hfrozen : ∀ a, s'.Frozen a → s.Frozen a ∨ ((s.filercv i).fileptr = some a ∧ s.Full a)) :
    Owned s' := by
  have hself : s'.filercv i = r := by rw [hrcv, Function.update_self]
  have hother : ∀ j, j ≠ i → s'.filercv j = s.filercv j := fun j hj => by
    rw [hrcv, Function.update_of_ne hj]
  have hall : ∀ j, (s'.filercv j).fileptr = (s.filercv j).fileptr := fun j => by
    by_cases hj : j = i
    · rw [hj, hself, hptr]
    · rw [hother j hj]
  have hfull : ∀ a, s.Full a → s'.Full a := fun a ha => by
    unfold Full at ha ⊢
    rwa [hheap]
  constructor
  · intro j a ha
    rw [hbrk]
    exact h.lt j a (hall j ▸ ha)
  · intro j k a hj hk
    exact h.unique j k a (hall j ▸ hj) (hall k ▸ hk)
  · intro j a ha
    rw [hcallers] at ha
    by_cases hj : j = i
    · subst hj
      rw [Function.update_self] at ha
      obtain ⟨hp, hm⟩ := hc a ha
      exact ⟨by rw [hall, hp], by rw [hself, hm]⟩
    · rw [Function.update_of_ne hj] at ha
      rw [hother j hj]
      exact h.caller j a ha
  · intro j a ha
    rw [hall] at ha
    by_cases hj : j = i
    · subst hj
      rw [hself]
      exact hguard a ha
    · rw [hother j hj]
      refine (h.guard j a ha).mono (hfull a) fun hf => ?_
      rcases hfrozen a hf with hf' | ⟨hi, -⟩
      · exact hf'
      · exact absurd (h.unique j i a ha hi) hj
  · intro a ha
    rw [hbrk]
    rcases hfrozen a ha with hf | ⟨hi, -⟩
    · exact h.frozen_lt a hf
    · exact h.lt i a hi
  · intro a ha
    rcases hfrozen a ha with hf | ⟨-, hi⟩
    · exact hfull a (h.full a hf)
    · exact hfull a hi

omit [Fintype ι] in
theorem Owned.newFile {s : TransferAgent ι} {i : ι} {w : FileWritter ι Addr} {log : List Obs}
    (h : Owned s) (hpc : (s.filercv i).msg = .newFile) (hw : s.fw.newFile i = some w) :
    Owned { s with
      fw := w
      filercv := Function.update s.filercv i
        { s.filercv i with
          msg := afterCall (w.callers i)
          log := log } } := by
  have hfull : ∀ a, (s.filercv i).fileptr = some a → s.Full a := fun a ha => by
    have hg := h.guard i a ha
    rwa [hpc] at hg
  have hown : ∀ a, (s.fw.callers i).file? = some a → (s.filercv i).fileptr = some a :=
    fun a ha => (h.caller i a ha).1
  cases FileWritter.newFile_cases hw with
  | reject | wake | lost =>
    refine h.callStep rfl rfl rfl rfl rfl (fun a ha => by cases ha) (fun a _ => ?_)
      (fun a ha => .inl ha)
    dsimp only
    rw [Function.update_self]
    trivial
  | @accept f hf =>
    refine h.callStep rfl rfl rfl rfl rfl (fun a ha => ⟨hown a (by rw [hf]; exact ha), ?_⟩)
      (fun a ha => ?_) (fun a ha => .inl ha)
    · dsimp only
      rw [Function.update_self]
      rfl
    · dsimp only
      rw [Function.update_self]
      exact hfull a ha
  | @push f hf =>
    have hp := hown f (by rw [hf]; rfl)
    refine h.callStep rfl rfl rfl rfl rfl (fun a ha => ⟨hown a (by rw [hf]; exact ha), ?_⟩)
      (fun a ha => ?_) ?_
    · dsimp only
      rw [Function.update_self]
      rfl
    · dsimp only
      rw [Function.update_self]
      exact hfull a ha
    · -- the file that enters the queue is the caller's own, and full
      rintro a (ha | ha)
      · rcases List.mem_append.mp ha with hq | hq
        · exact .inl (.inl hq)
        · obtain rfl := List.mem_singleton.mp hq
          exact .inr ⟨hp, hfull a hp⟩
      · exact .inl (.inr ha)

omit [DecidableEq ι] [Fintype ι] in
/-- Outside the entry of `save_first` the monitor takes no file. -/
theorem monStep_frozen {w w' : FileWritter ι Addr} {rslt : Bool} (hw : w.MonStep rslt w')
    (hm : w.mon ≠ .save) :
    w'.callers = w.callers ∧
      ∀ a, (a ∈ w'.quenf ∨ w'.ptr = some a) → (a ∈ w.quenf ∨ w.ptr = some a) := by
  cases hw with
  | enter hpc => exact absurd hpc hm
  | start | finish | toWait | count | clear | block => exact ⟨rfl, fun _ => id⟩
  | fail | ret =>
    refine ⟨rfl, ?_⟩
    rintro a (ha | ha)
    · exact .inl ha
    · cases ha
  | pop =>
    refine ⟨rfl, ?_⟩
    rintro a (ha | ha)
    · exact .inl (List.mem_of_mem_tail ha)
    · exact .inr ha

theorem Owned.step {s s' : TransferAgent ι} {e : AgentEvent ι} (h : Owned s)
    (hs : s.step dbl e = some s') : Owned s' := by
  cases (step_cases hs).2 with
  | @recv i d r hr =>
    obtain ⟨-, -, -, rfl⟩ := FileReceiver.receive_cases hr
    exact h.receiverStep rfl rfl (Nat.le_refl _) (.inl rfl) (fun hm => ⟨hm, rfl⟩)
      (fun b hb => (h.guard i b hb).mono id id) (fun _ _ => id)
  | @fail i r hr =>
    obtain ⟨-, rfl⟩ := FileReceiver.receiveError_cases hr
    exact h.receiverStep rfl rfl (Nat.le_refl _) (.inl rfl) (fun hm => ⟨hm, rfl⟩)
      (fun b hb => (h.guard i b hb).mono id id) (fun _ _ => id)
  | io hv => exact h.io hv
  | msg hv => exact h.msg hv
  | @handOver i _ _ a hpc hp hc =>
    refine h.callStep rfl rfl rfl rfl rfl (fun b hb => ?_) (fun b hb => ?_)
      (fun b hb => .inl hb)
    · obtain rfl : a = b := Option.some.inj hb
      exact ⟨hp, rfl⟩
    · have hg := h.guard i b hb
      rw [hpc] at hg
      exact hg
  | newFile hpc hw => exact h.newFile hpc hw
  | @takeFirst _ a q hm hq =>
    refine h.writerStep rfl rfl rfl ?_ fun b => ?_
    · rintro b (hb | hb)
      · exact .inl hb
      · obtain rfl : a = b := Option.some.inj hb
        exact .inl (by simp [hq])
    · exact @full_update _ s _ a (saveBegin s.env (s.heap a)) rfl rfl (Int.le_refl _) b
  | saveThrew | config | spurious => exact h.writerStep rfl rfl rfl (fun _ => id) fun _ => id
  | save hm _ _ hw =>
    obtain ⟨hcallers, hfrozen⟩ := monStep_frozen (FileWritter.threadMonitor_cases hw) (by simp [hm])
    exact h.writerStep rfl hcallers rfl hfrozen fun _ => id
  | monitor hm _ hw =>
    obtain ⟨hcallers, hfrozen⟩ := monStep_frozen (FileWritter.threadMonitor_cases hw) hm
    exact h.writerStep rfl hcallers rfl hfrozen fun _ => id

/-- `Owned` holds in every state that the server reaches. -/
theorem owned_run {bufs : ι → PackBuf × PackBuf} {heap : Heap} {env : SaveEnv}
    {es : List (AgentEvent ι)} {s : TransferAgent ι}
    (hrun : Lts.run (step dbl) (init bufs heap env) es = some s) : Owned s :=
  Lts.run_invariant (fun _ _ _ => Owned.step) (.init bufs heap env) hrun

/-! ### The steps of the others -/

/-- What the steps of the others leave of receiver `i`: all but the subpath of a
file that it shares with the writer. -/
structure Undisturbed (s s' : TransferAgent ι) (i : ι) : Prop where
  rcv : s'.filercv i = s.filercv i
  caller : s'.fw.callers i = s.fw.callers i
  brk : s.brk ≤ s'.brk
  frozen : ∀ a, (s.filercv i).fileptr = some a → s'.Frozen a → s.Frozen a
  heap : ∀ a, (s.filercv i).fileptr = some a →
    s'.heap a = s.heap a ∨ (s.Frozen a ∧ s'.heap a = saveBegin s.env (s.heap a))

omit [DecidableEq ι] [Fintype ι] in
theorem Undisturbed.of_writer {s s' : TransferAgent ι} {i : ι} (hrcv : s'.filercv = s.filercv)
    (hcallers : s'.fw.callers = s.fw.callers) (hbrk : s'.brk = s.brk)
    (hheap : s'.heap = s.heap) (hfrozen : ∀ a, s'.Frozen a → s.Frozen a) :
    Undisturbed s s' i where
  rcv := by rw [hrcv]
  caller := by rw [hcallers]
  brk := Nat.le_of_eq hbrk.symm
  frozen := fun a _ => hfrozen a
  heap := fun a _ => .inl (by rw [hheap])

omit [Fintype ι] in
theorem Undisturbed.of_receiver {s s' : TransferAgent ι} {i j : ι} {r : FileReceiver}
    (hij : j ≠ i) (hrcv : s'.filercv = Function.update s.filercv j r)
    (hcaller : s'.fw.callers i = s.fw.callers i) (hbrk : s.brk ≤ s'.brk)
    (hheap : ∀ a, (s.filercv i).fileptr = some a → s'.heap a = s.heap a)
    (hfrozen : ∀ a, (s.filercv i).fileptr = some a → s'.Frozen a → s.Frozen a) :
    Undisturbed s s' i where
  rcv := by rw [hrcv, Function.update_of_ne (Ne.symm hij)]
  caller := hcaller
  brk := hbrk
  frozen := hfrozen
  heap := fun a ha => .inl (hheap a ha)

theorem Owned.undisturbed {s s' : TransferAgent ι} {e : AgentEvent ι} {i : ι} (h : Owned s)
    (hs : s.step dbl e = some s') (he : e.receiver? ≠ some i) : Undisturbed s s' i := by
  have hne : ∀ {j}, some j ≠ some i → j ≠ i := fun hj hji => hj (congrArg some hji)
  have hupd : ∀ {a b : Addr} {f : FileInfo}, b ≠ a → Function.update s.heap b f a = s.heap a :=
    fun hb => Function.update_of_ne (Ne.symm hb) ..
  cases (step_cases hs).2 with
  | recv | fail =>
    exact .of_receiver (hne he) rfl rfl (Nat.le_refl _) (fun _ _ => rfl) fun _ _ => id
  | @io j v hv =>
    cases hv with
    | @arrive n b f full hpc hp hd =>
      refine .of_receiver (hne he) rfl rfl (Nat.le_refl _) (fun a ha => hupd ?_) fun _ _ => id
      rintro rfl
      exact hne he (h.unique j i b hp ha)
    | handleRead | isReady | notReady | read | overflow | isWaiting | ignored | post | rearm =>
      exact .of_receiver (hne he) rfl rfl (Nat.le_refl _) (fun _ _ => rfl) fun _ _ => id
  | @msg j _ _ v hv =>
    cases hv with
    | replace =>
      exact .of_receiver (hne he) rfl rfl (Nat.le_succ _)
        (fun a ha => hupd (Nat.ne_of_lt (h.lt i a ha)).symm) fun _ _ => id
    | @fill p b hpc hp =>
      refine .of_receiver (hne he) rfl rfl (Nat.le_refl _) (fun a ha => hupd ?_) fun _ _ => id
      rintro rfl
      exact hne he (h.unique j i b hp ha)
    | _ => exact .of_receiver (hne he) rfl rfl (Nat.le_refl _) (fun _ _ => rfl) fun _ _ => id
  | @handOver j =>
    exact .of_receiver (hne he) rfl (Function.update_of_ne (Ne.symm (hne he)) ..) (Nat.le_refl _)
      (fun _ _ => rfl) fun _ _ => id
  | @newFile j _ _ w hpc hw =>
    have hcaller : w.callers i = s.fw.callers i := by
      cases FileWritter.newFile_cases hw <;> exact Function.update_of_ne (Ne.symm (hne he)) ..
    refine .of_receiver (hne he) rfl hcaller (Nat.le_refl _) (fun _ _ => rfl) fun a ha hf => ?_
    cases FileWritter.newFile_cases hw with
    | @push f hf' =>
      -- the file appended is the caller's own
      rcases hf with hq | hptr
      · rcases List.mem_append.mp hq with hq | hq
        · exact .inl hq
        · obtain rfl := List.mem_singleton.mp hq
          exact absurd (h.unique j i a (h.caller j a (by rw [hf']; rfl)).1 ha) (hne he)
      · exact .inr hptr
    | reject | accept | wake | lost => exact hf
  | @takeFirst _ b q hm hq =>
    have hb : s.Frozen b := .inl (by simp [hq])
    refine ⟨rfl, rfl, Nat.le_refl _, fun a _ hf => ?_, fun a ha => ?_⟩
    · rcases hf with hf | hf
      · exact .inl hf
      · obtain rfl : b = a := Option.some.inj hf
        exact hb
    · by_cases hba : b = a
      · subst hba
        exact .inr ⟨hb, Function.update_self ..⟩
      · exact .inl (hupd hba)
  | saveThrew | config | spurious => exact .of_writer rfl rfl rfl rfl fun _ => id
  | save hm _ _ hw =>
    obtain ⟨hcallers, hfrozen⟩ := monStep_frozen (FileWritter.threadMonitor_cases hw) (by simp [hm])
    exact .of_writer rfl hcallers rfl rfl hfrozen
  | monitor hm _ hw =>
    obtain ⟨hcallers, hfrozen⟩ := monStep_frozen (FileWritter.threadMonitor_cases hw) hm
    exact .of_writer rfl hcallers rfl rfl hfrozen

/-! ### Queued files are frozen -/

/-- **No step of a receiver changes a file that the writer holds**: from the
moment it is appended to the queue until `save_first` has popped it and released
its pointer, its description, its size and its bytes stay as they are. -/
theorem queued_frozen {bufs : ι → PackBuf × PackBuf} {heap : Heap} {env : SaveEnv}
    {es : List (AgentEvent ι)} {s s' : TransferAgent ι} {e : AgentEvent ι} {a : Addr}
    (hrun : Lts.run (step dbl) (init bufs heap env) es = some s)
    (hs : s.step dbl e = some s') (he : e.isReceiver = true) (ha : s.Frozen a) :
    FileInfo.SameFile (s.heap a) (s'.heap a) := by
  have h := owned_run hrun
  have hsame : ∀ {b f}, b ≠ a →
      FileInfo.SameFile (s.heap a) (Function.update s.heap b f a) := fun hb => by
    rw [Function.update_of_ne (Ne.symm hb)]
    exact .refl _
  cases (step_cases hs).2 with
  | recv | fail | handOver | newFile => exact .refl _
  | takeFirst | saveThrew | save | monitor | spurious | config => cases he
  | io hv =>
    cases hv with
    | @arrive n b f full hpc hp hd =>
      -- late bytes fall past the end of a full file
      by_cases hb : b = a
      · subst hb
        show FileInfo.SameFile (s.heap b) (Function.update s.heap b f b)
        rw [Function.update_self]
        exact FileInfo.dataArrive_sameFile hd (h.full b ha)
      · exact hsame hb
    | handleRead | isReady | notReady | read | overflow | isWaiting | ignored | post | rearm =>
      exact .refl _
  | @msg i _ _ _ hv =>
    cases hv with
    | replace => exact hsame (Nat.ne_of_lt (h.frozen_lt a ha)).symm
    | @fill p b hpc hp =>
      have hg : ¬ s.Frozen b := by
        have hg := h.guard i b hp
        rwa [show (s.filercv i).msg = _ from hpc] at hg
      exact hsame fun hb => hg (hb ▸ ha)
    | _ => exact .refl _

/-- A file of two bytes is in the queue, its receiver is still in state `READY`, and a
third byte is about to be passed to `DataArrive`. -/
def lateByte : List (AgentEvent Unit) :=
  monitorSteps 1 ++ lineSchedule (lit "fileinfo filename=a,filesize=2\n") ++
    dataSchedule [7, 8] ++ msgSteps 5 ++ .recv () [9] :: ioSteps 3

theorem queued_frozen_pushed : ∃ s s' : TransferAgent Unit,
    Lts.run (step unitLib) single lateByte = some s ∧
      s.step unitLib (.io ()) = some s' ∧ s.Frozen 0 ∧ (s.filercv ()).io = .arrive 1 ∧
        (s'.heap 0).rcvsize = 3 ∧ FileInfo.SameFile (s.heap 0) (s'.heap 0) := by
  have heval : (Lts.run (step unitLib) single lateByte).map (fun s => (s.fw.quenf,
      (s.filercv ()).io, (s.step unitLib (.io ())).map fun s' => (s'.heap 0).rcvsize)) =
        some ([0], .arrive 1, some 3) := by
    decide +kernel
  obtain ⟨s, hrun, hs⟩ := Option.map_eq_some_iff.mp heval
  simp only [Prod.mk.injEq] at hs
  obtain ⟨hq, hio, hnext⟩ := hs
  obtain ⟨s', hs', hrcv⟩ := Option.map_eq_some_iff.mp hnext
  have ha : s.Frozen 0 := .inl (by rw [hq]; exact List.mem_singleton_self 0)
  exact ⟨s, s', hrun, hs', ha, hio, hrcv, queued_frozen hrun hs' rfl ha⟩

end TransferAgent

end FtServer
