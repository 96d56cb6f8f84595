/-
FtServer/FileTexts.lean

The texts that the server keeps.  The ids, the subpath and the filename of a file come
out of the parser, so they fit into a line again (`resolve_fieldText`), and so does what
`save_first` makes of the subpath, if the storage root does.

`FileTexts` is the invariant: every object that has been allocated has such texts, and so
has every description between its line and its object.  `sendable_of_saveOf` is what
`save_first` needs of it: what it announces can be read back.
-/
import FtServer.Outstanding
import FtServer.Relay
import FtServer.WriterQueue

namespace FtServer

open FileReceiver (describe)

/-! ### Texts -/

/-- The texts of a file fit into a line. -/
structure FileInfo.Texts (f : FileInfo) : Prop where
  ids : FieldText f.gid ∧ FieldText f.uid ∧ FieldText f.cid
  subpath : FieldText f.subpath
  filename : FieldText f.filename

/-- The texts of a description do. -/
structure AsciiProtoFileinfo.Texts (p : AsciiProtoFileinfo) : Prop where
  ids : FieldText p.gid ∧ FieldText p.uid ∧ FieldText p.cid
  subpath : FieldText p.subpath
  filename : FieldText p.filename

theorem AsciiProtoFileinfo.Texts.describe {p : AsciiProtoFileinfo} (h : p.Texts)
    (f : FileInfo) : (describe f p).Texts :=
  ⟨h.ids, h.subpath, h.filename⟩

theorem FileInfo.texts_create {size : ℤ} {junk : ℕ → UInt8} {f : FileInfo}
    (h : FileInfo.create size junk = .ok f) : f.Texts := by
  have hempty : FieldText [] := by decide
  unfold FileInfo.create at h
  split at h
  · obtain rfl := Except.ok.inj h
    exact ⟨⟨hempty, hempty, hempty⟩, hempty, hempty⟩
  · cases h

theorem FileInfo.Texts.dataArrive {f f' : FileInfo} {data : Bytes} {full : Bool} (h : f.Texts)
    (hd : f.dataArrive data = some (f', full)) : f'.Texts := by
  obtain ⟨-, -, -, -, hgid, huid, hcid, -, hsubpath, hfilename, -⟩ := FileInfo.dataArrive_spec hd
  refine ⟨?_, hsubpath ▸ h.subpath, hfilename ▸ h.filename⟩
  rw [hgid, huid, hcid]
  exact h.ids

/-- The directory of a file takes the place of its subpath. -/
theorem FileInfo.Texts.saveBegin {f : FileInfo} (h : f.Texts) {env : SaveEnv}
    (hroot : FieldText env.pathRoot) : (saveBegin env f).Texts :=
  ⟨h.ids, fieldText_path hroot h.subpath, h.filename⟩

/-- What is announced of a file. -/
theorem FileInfo.Texts.sendable {f : FileInfo} (h : f.Texts) : (notification f).Sendable where
  type := rfl
  ids := h.ids
  tmobs := (by decide : FieldText [])
  subpath := h.subpath
  filename := h.filename

/-- The objects allocated, and the description that the message thread has at hand. -/
structure RcvView.Texts (v : RcvView) : Prop where
  files : ∀ a < v.brk, (v.heap a).Texts
  info : ∀ p, v.rcv.msg.fileinfo? = some p → p.Texts

theorem texts_update {heap : Heap} {brk a : Addr} {f : FileInfo}
    (h : ∀ b < brk, (heap b).Texts) (hf : a < brk → f.Texts) :
    ∀ b < brk, (Function.update heap a f b).Texts := by
  intro b hb
  by_cases hab : b = a
  · subst hab
    rw [Function.update_self]
    exact hf hb
  · rw [Function.update_of_ne hab]
    exact h b hb

/-! ### Steps -/

variable {δ : Type} {dbl : DoubleLib δ} {v v' : RcvView}

theorem RcvView.Texts.io (h : v.Texts) (hs : FileReceiver.IoStep v v') : v'.Texts := by
  cases hs with
  | arrive hpc hp hd => exact ⟨texts_update h.files fun ha => (h.files _ ha).dataArrive hd, h.info⟩
  | handleRead | isReady | notReady | read | overflow | isWaiting | ignored | post | rearm =>
    exact ⟨h.files, h.info⟩

theorem RcvView.Texts.msg (h : v.Texts)
    (hline : v.rcv.msg = .resolve → 10 ∉ cstr v.rcv.bufrcv.bytes) {n : ℕ} {junk : ℕ → UInt8}
    {ok : Bool} (hs : FileReceiver.MsgStep dbl n junk ok v v') : v'.Texts := by
  cases hs with
  | @fileinfo p hpc hr ht =>
    -- the description comes out of the parser
    have hbytes : ∀ b ∈ cstr v.rcv.bufrcv.bytes, b ≠ 10 ∧ b ≠ 0 := fun b hb =>
      ⟨ne_of_mem_of_not_mem hb (hline hpc), by simpa using List.mem_takeWhile_imp hb⟩
    obtain ⟨hids, htexts⟩ := resolve_fieldText hbytes hr
    have hp : p.Texts :=
      { ids := hids
        subpath := htexts "subpath" p.subpath (by simp [Apbase.written])
        filename := htexts "filename" p.filename (by simp [Apbase.written]) }
    refine ⟨h.files, fun q hq => ?_⟩
    obtain rfl := Option.some.inj hq
    exact hp
  | @useCount p hpc | @keep p c hpc =>
    refine ⟨h.files, fun q hq => ?_⟩
    obtain rfl := Option.some.inj hq
    exact h.info p (by rw [hpc]; rfl)
  | @replace p c f hpc hm hf =>
    refine ⟨fun a ha => ?_, fun q hq => ?_⟩
    · dsimp only at ha ⊢
      rcases Nat.lt_succ_iff_lt_or_eq.mp ha with ha | rfl
      · rw [Function.update_of_ne (Nat.ne_of_lt ha)]
        exact h.files a ha
      · rw [Function.update_self]
        exact FileInfo.texts_create hf
    · obtain rfl := Option.some.inj hq
      exact h.info p (by rw [hpc]; rfl)
  | @fill p a hpc hp =>
    have htexts : p.Texts := h.info p (by rw [hpc]; rfl)
    exact ⟨texts_update h.files fun _ => htexts.describe _, fun q hq => by cases hq⟩
  | badText hpc | badSize hpc | writeError hpc => exact ⟨h.files, h.info⟩
  | @sent st => exact ⟨h.files, fun q hq => by cases st <;> cases hq⟩
  | popReceive | popClose | popComplete | lookup | read | terminate | nullText | otherText
  | close | reset | equal | unequal | setState | toWaiting =>
    exact ⟨h.files, fun q hq => by cases hq⟩

namespace TransferAgent

variable {ι : Type}

/-- The condition on a step: the text that is parsed has no newline in it, and the
storage root fits into a line. -/
structure PlainTexts (s : TransferAgent ι) (e : AgentEvent ι) : Prop where
  line : ∀ i ∈ e.receiver?, (s.filercv i).msg = .resolve →
    10 ∉ cstr (s.filercv i).bufrcv.bytes
  root : FieldText s.env.pathRoot

instance (s : TransferAgent ι) (e : AgentEvent ι) : Decidable (PlainTexts s e) :=
  decidable_of_iff ((∀ i ∈ e.receiver?, (s.filercv i).msg = .resolve →
      10 ∉ cstr (s.filercv i).bufrcv.bytes) ∧ FieldText s.env.pathRoot)
    ⟨fun h => ⟨h.1, h.2⟩, fun h => ⟨h.line, h.root⟩⟩

/-- What the server keeps fits into lines. -/
structure FileTexts (s : TransferAgent ι) : Prop where
  owned : Owned s
  files : ∀ a < s.brk, (s.heap a).Texts
  infos : ∀ i p, (s.filercv i).msg.fileinfo? = some p → p.Texts

variable [DecidableEq ι] {s s' : TransferAgent ι}

/-- The description that receiver `i` has after a step of its own; the others keep
theirs. -/
theorem FileTexts.infos_update (h : FileTexts s) {i : ι} {r : FileReceiver}
    (hr : ∀ p, r.msg.fileinfo? = some p → p.Texts) :
    ∀ j p, (Function.update s.filercv i r j).msg.fileinfo? = some p → p.Texts := by
  intro j p hp
  by_cases hj : j = i
  · subst hj
    rw [Function.update_self] at hp
    exact hr p hp
  · rw [Function.update_of_ne hj] at hp
    exact h.infos j p hp

variable [Fintype ι]

theorem FileTexts.step {e : AgentEvent ι} (h : FileTexts s) (hok : PlainTexts s e)
    (hs : s.step dbl e = some s') : FileTexts s' := by
  have howned := h.owned.step hs
  have hview : ∀ i, (s.view i).Texts := fun i => ⟨h.files, h.infos i⟩
  cases (step_cases hs).2 with
  | @recv i d r hr =>
    obtain ⟨-, -, -, rfl⟩ := FileReceiver.receive_cases hr
    exact ⟨howned, h.files, h.infos_update (h.infos i)⟩
  | @fail i r hr =>
    obtain ⟨-, rfl⟩ := FileReceiver.receiveError_cases hr
    exact ⟨howned, h.files, h.infos_update (h.infos i)⟩
  | @io i v hv =>
    have hnext := (hview i).io hv
    exact ⟨howned, hnext.files, h.infos_update hnext.info⟩
  | @msg i junk ok v hv =>
    have hnext := (hview i).msg (hok.line i rfl) hv
    exact ⟨howned, hnext.files, h.infos_update hnext.info⟩
  | handOver => exact ⟨howned, h.files, h.infos_update nofun⟩
  | @newFile i junk ok w =>
    refine ⟨howned, h.files, h.infos_update fun p hp => ?_⟩
    rw [(afterCall_plain _).1] at hp
    cases hp
  | @takeFirst ans a q hm hq =>
    exact ⟨howned, texts_update h.files fun ha => (h.files a ha).saveBegin hok.root, h.infos⟩
  | saveThrew | save | monitor | spurious | config => exact ⟨howned, h.files, h.infos⟩

omit [DecidableEq ι] [Fintype ι] in
theorem FileTexts.init (bufs : ι → PackBuf × PackBuf) (heap : Heap) (env : SaveEnv) :
    FileTexts (init bufs heap env) where
  owned := .init bufs heap env
  files := nofun
  infos := by simp [TransferAgent.init, FileReceiver.init, MsgPc.fileinfo?]

omit [DecidableEq ι] [Fintype ι] in
/-- **What is announced can be read back.** -/
theorem FileTexts.sendable (h : FileTexts s) {e : AgentEvent ι} {v : Save}
    (hv : v ∈ s.saveOf e) : (notification v.info).Sendable := by
  cases e with
  | monitor ans =>
    simp only [saveOf] at hv
    split at hv
    · rename_i a hm hp
      split at hv
      · rw [List.mem_singleton.mp hv]
        exact (h.files a (h.owned.frozen_lt a (.inr hp))).sendable
      · cases hv
    · cases hv
  | recv | fail | io | msg | spurious | config => cases hv

end TransferAgent

end FtServer
