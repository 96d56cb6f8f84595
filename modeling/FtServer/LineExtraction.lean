/-
FtServer/LineExtraction.lean

The line in the handler of `MSG_NETWORK_RECEIVE`.  The handler looks for a
newline in the buffer of the connection, reads up to it into `bufrcv_`, and
overwrites it there with the terminator of the text that it parses.  What the
search returns is used as it is, also when it has found nothing.

`lineInside_iff` says for which contents of the connection the handler stays
inside the line: those that have a newline.  `unbuffered` shows that the
connections of a server are as the theorem assumes.
-/
import FtServer.PointerSafety
import Mathlib.Data.List.TakeWhile

namespace FtServer

namespace FileReceiver

section

variable {δ : Type} (dbl : DoubleLib δ)

/-! ### The handler -/

/-- The message thread takes a step.  What it sees of the rest of the server is
arbitrary. -/
def HandlerStep (r r' : FileReceiver) : Prop :=
  ∃ (n : ℕ) (junk : ℕ → UInt8) (ok : Bool) (v v' : RcvView),
    v.rcv = r ∧ v'.rcv = r' ∧ msgStep dbl n junk ok v = some v'

/-- The handler writes its terminator inside `bufrcv_`, parses text from in front
of the first newline of the connection only, and parses nothing if there is no
newline. -/
structure LineInside (r : FileReceiver) : Prop where
  index : ∀ r₁ r₂ pos, HandlerStep dbl r r₁ → HandlerStep dbl r₁ r₂ → r₂.msg = .terminate pos →
    0 ≤ pos ∧ pos < tcpPackSize
  text : ∀ r₁ r₂ r₃, HandlerStep dbl r r₁ → HandlerStep dbl r₁ r₂ → HandlerStep dbl r₂ r₃ →
    r₃.msg = .resolve → cstr r₃.bufrcv.bytes <+: r.tcp.content.takeWhile (· ≠ 10)
  parsed : ∀ r₁ r₂ r₃, HandlerStep dbl r r₁ → HandlerStep dbl r₁ r₂ → HandlerStep dbl r₂ r₃ →
    r₃.msg = .resolve → 10 ∈ r.tcp.content

variable {dbl} {r : FileReceiver}

/-! ### What the handler does -/

/-- Where a step does not look at the rest of the server, it is a function of the
receiver. -/
theorem handlerStep_iff {r₁ : FileReceiver} (v₀ : RcvView)
    (h : ∀ n junk ok (v : RcvView), v.rcv = r →
      msgStep dbl n junk ok v = some { v with rcv := r₁ }) {r' : FileReceiver} :
    HandlerStep dbl r r' ↔ r' = r₁ := by
  constructor
  · rintro ⟨n, junk, ok, v, v', hv, rfl, hs⟩
    rw [h n junk ok v hv, Option.some.injEq] at hs
    rw [← hs]
  · rintro rfl
    exact ⟨0, fun _ => 0, true, { v₀ with rcv := r }, _, rfl, rfl, h _ _ _ _ rfl⟩

theorem handlerStep_lookup (v₀ : RcvView) (hpc : r.msg = .lookup) (ht : r.tcpptr = true)
    {r' : FileReceiver} :
    HandlerStep dbl r r' ↔ r' = { r with msg := .read (r.tcp.lookup (lit "\n") 0) } := by
  refine handlerStep_iff v₀ fun n junk ok v hv => ?_
  subst hv
  rw [msgStep, hpc]
  dsimp only
  rw [if_pos ht]

theorem handlerStep_read (v₀ : RcvView) {pos : ℤ} (hpc : r.msg = .read pos) (ht : r.tcpptr = true)
    (hu : r.tcp.usebuf = false) {r' : FileReceiver} :
    HandlerStep dbl r r' ↔
      r' = { r with
        bufrcv := r.bufrcv.write (r.tcp.read (pos + 1) 0).1
        msg := .terminate pos } := by
  refine handlerStep_iff v₀ fun n junk ok v hv => ?_
  subst hv
  rw [msgStep, hpc]
  dsimp only
  rw [if_pos ht, TCPClient.read_snd hu]

theorem handlerStep_terminate (v₀ : RcvView) {pos : ℤ} (hpc : r.msg = .terminate pos)
    {r' : FileReceiver} :
    HandlerStep dbl r r' ↔ r' = { r with
      bufrcv := r.bufrcv.terminate pos
      msg := .resolve
      log := if pos < 0 then r.log ++ [.outOfBounds] else r.log } := by
  refine handlerStep_iff v₀ fun n junk ok v hv => ?_
  subst hv
  rw [msgStep, hpc]

/-- Where the search ends. -/
def newlinePos (r : FileReceiver) : ℤ := r.tcp.lookup (lit "\n") 0

/-- The receiver when the handler is about to write its terminator. -/
def afterRead (r : FileReceiver) : FileReceiver :=
  { r with
    bufrcv := r.bufrcv.write (r.tcp.read (r.newlinePos + 1) 0).1
    msg := .terminate r.newlinePos }

theorem handlerSteps_read (v₀ : RcvView) (hpc : r.msg = .lookup) (ht : r.tcpptr = true)
    (hu : r.tcp.usebuf = false) {r₂ : FileReceiver} :
    (∃ r₁, HandlerStep dbl r r₁ ∧ HandlerStep dbl r₁ r₂) ↔ r₂ = r.afterRead := by
  simp only [handlerStep_lookup v₀ hpc ht, exists_eq_left]
  exact @handlerStep_read _ dbl { r with msg := .read r.newlinePos } v₀ _ rfl ht hu r₂

/-- The handler comes to the parser, with this text. -/
theorem handlerSteps_terminate (v₀ : RcvView) {r₃ : FileReceiver} :
    HandlerStep dbl r.afterRead r₃ →
      r₃.bufrcv = (r.bufrcv.write (r.tcp.read (r.newlinePos + 1) 0).1).terminate r.newlinePos := by
  intro h
  rw [(handlerStep_terminate v₀ rfl).mp h]
  rfl

/-! ### With and without a newline -/

/-- A content with a newline starts with the text of a line and the newline. -/
theorem exists_line {s : Bytes} (h : 10 ∈ s) : ∃ rest, s = s.takeWhile (· ≠ 10) ++ 10 :: rest := by
  have hsplit := List.takeWhile_append_dropWhile (p := (· ≠ 10)) (l := s)
  have hhead := List.head?_dropWhile_not (· ≠ 10) s
  cases hd : s.dropWhile (· ≠ 10) with
  | nil =>
    rw [List.dropWhile_eq_nil_iff] at hd
    exact absurd (hd 10 h) (by decide)
  | cons b rest =>
    rw [hd] at hsplit hhead
    obtain rfl : b = 10 := by simpa using hhead
    exact ⟨rest, hsplit.symm⟩

theorem newlinePos_of_mem (hu : r.tcp.usebuf = false) (h : 10 ∈ r.tcp.content) :
    r.newlinePos = (r.tcp.content.takeWhile (· ≠ 10)).length := by
  obtain ⟨rest, hrest⟩ := exists_line h
  exact @TCPClient.lookup_first _ hu 10 _ rest hrest fun hmem =>
    absurd (List.mem_takeWhile_imp hmem) (by decide)

/-- The text in front of the first newline, up to its first NUL, is what the
handler parses. -/
theorem afterRead_text (hu : r.tcp.usebuf = false) (hn : r.tcp.bytercv ≤ tcpPackSize)
    (h : 10 ∈ r.tcp.content) :
    cstr ((r.bufrcv.write (r.tcp.read (r.newlinePos + 1) 0).1).terminate r.newlinePos).bytes =
      cstr (r.tcp.content.takeWhile (· ≠ 10)) := by
  obtain ⟨rest, hrest⟩ := exists_line h
  have hle := TCPClient.content_length_le hu
  rw [newlinePos_of_mem hu h]
  generalize r.tcp.content.takeWhile (· ≠ 10) = line at *
  have hlen : line.length + 1 ≤ r.tcp.bytercv := by
    rw [hrest, List.length_append, List.length_cons] at hle
    omega
  have hread : (r.tcp.read ((line.length : ℤ) + 1) 0).1 = line ++ [10] := by
    have hfront := TCPClient.read_front hu (Nat.succ_pos line.length) hlen
    rw [hrest, ← List.singleton_append, ← List.append_assoc,
      List.take_left' (by rw [List.length_append, List.length_singleton])] at hfront
    exact_mod_cast hfront
  apply PackBuf.cstr_terminate (f := 10)
  rw [hread]
  have hwrite := r.bufrcv.write_take (d := line ++ [10]) (by simp; omega)
  simpa using hwrite

/-- Without a newline the terminator goes in front of the buffer. -/
theorem LineInside.mem {v : RcvView} (h : LineInside dbl v.rcv) (hpc : v.rcv.msg = .lookup)
    (ht : v.rcv.tcpptr = true) (hu : v.rcv.tcp.usebuf = false)
    (hn : v.rcv.tcp.bytercv ≤ tcpPackSize) : 10 ∈ v.rcv.tcp.content := by
  by_contra hno
  have hread : ∃ r₁, HandlerStep dbl v.rcv r₁ ∧ HandlerStep dbl r₁ v.rcv.afterRead :=
    (handlerSteps_read v hpc ht hu).mpr rfl
  obtain ⟨r₁, h₁, h₂⟩ := hread
  have hpos : v.rcv.newlinePos = -1 := TCPClient.lookup_absent hu hn hno
  have hindex := (h.index r₁ _ _ h₁ h₂ rfl).1
  omega

theorem lineInside_of_mem {v : RcvView} (h : 10 ∈ v.rcv.tcp.content) (hpc : v.rcv.msg = .lookup)
    (ht : v.rcv.tcpptr = true) (hu : v.rcv.tcp.usebuf = false)
    (hn : v.rcv.tcp.bytercv ≤ tcpPackSize) : LineInside dbl v.rcv where
  index := by
    intro r₁ r₂ pos h₁ h₂ hterm
    obtain rfl := (handlerSteps_read v hpc ht hu).mp ⟨r₁, h₁, h₂⟩
    obtain rfl := MsgPc.terminate.inj hterm
    obtain ⟨rest, hrest⟩ := exists_line h
    have hle := TCPClient.content_length_le hu
    have hlen := congrArg List.length hrest
    rw [List.length_append, List.length_cons] at hlen
    rw [newlinePos_of_mem hu h]
    omega
  text := by
    intro r₁ r₂ r₃ h₁ h₂ h₃ _
    obtain rfl := (handlerSteps_read v hpc ht hu).mp ⟨r₁, h₁, h₂⟩
    rw [handlerSteps_terminate v h₃, afterRead_text hu hn h]
    exact List.takeWhile_prefix _
  parsed := fun _ _ _ _ _ _ _ => h

end

/-- **The handler stays inside the line exactly if there is a newline**, for every
content of the connection and of `bufrcv_`. -/
theorem lineInside_iff {δ : Type} {dbl : DoubleLib δ} {v : RcvView} (hpc : v.rcv.msg = .lookup)
    (ht : v.rcv.tcpptr = true) (hu : v.rcv.tcp.usebuf = false)
    (hn : v.rcv.tcp.bytercv ≤ tcpPackSize) :
    LineInside dbl v.rcv ↔ 10 ∈ v.rcv.tcp.content :=
  ⟨fun h => h.mem hpc ht hu hn, fun h => lineInside_of_mem h hpc ht hu hn⟩

/-! ### In the server -/

/-- The connection is unbuffered, and no more than a pack has landed in it. -/
structure Unbuffered (r : FileReceiver) : Prop where
  usebuf : r.tcp.usebuf = false
  bytercv : r.tcp.bytercv ≤ tcpPackSize
  landed : ∀ n, r.io = .landed n → n ≤ tcpPackSize

theorem Unbuffered.init (bufs : PackBuf × PackBuf) : Unbuffered (.init bufs.1 bufs.2) where
  usebuf := rfl
  bytercv := Nat.zero_le _
  landed := nofun

/-- A step that leaves the connection as it is. -/
theorem Unbuffered.frame {r r' : FileReceiver} (h : Unbuffered r)
    (hu : r'.tcp.usebuf = r.tcp.usebuf) (hn : r'.tcp.bytercv = r.tcp.bytercv)
    (hio : ∀ n, r'.io = .landed n → n ≤ tcpPackSize) : Unbuffered r' where
  usebuf := hu ▸ h.usebuf
  bytercv := hn ▸ h.bytercv
  landed := hio

theorem Unbuffered.io {v v' : RcvView} (h : Unbuffered v.rcv) (hs : IoStep v v') :
    Unbuffered v'.rcv := by
  cases hs with
  | @handleRead n hpc =>
    refine ⟨?_, ?_, fun _ hn => by cases hn⟩
    · exact (TCPClient.handleRead_usebuf n).trans h.usebuf
    · show (v.rcv.tcp.handleRead n).bytercv ≤ tcpPackSize
      rw [TCPClient.handleRead, if_neg (by simp [h.usebuf])]
      exact h.landed n hpc
  | read =>
    rw [TCPClient.read_snd h.usebuf]
    exact h.frame rfl rfl fun _ hn => by cases hn
  | isReady | notReady | isWaiting | ignored => exact h.frame rfl rfl fun _ hn => by cases hn
  | overflow => exact h.frame rfl rfl h.landed
  | arrive | post | rearm =>
    refine h.frame rfl rfl fun n hn => ?_
    dsimp only at hn
    split at hn <;> cases hn

theorem Unbuffered.msg {δ : Type} {dbl : DoubleLib δ} {n : ℕ} {junk : ℕ → UInt8} {ok : Bool}
    {v v' : RcvView} (h : Unbuffered v.rcv) (hs : MsgStep dbl n junk ok v v') :
    Unbuffered v'.rcv := by
  cases hs with
  | read =>
    rw [TCPClient.read_snd h.usebuf]
    exact h.frame rfl rfl h.landed
  | _ => exact h.frame rfl rfl h.landed

end FileReceiver

namespace TransferAgent

variable {ι : Type} [DecidableEq ι] [Fintype ι] {δ : Type} {dbl : DoubleLib δ}

theorem unbuffered_step {s : TransferAgent ι} {i : ι} {e : AgentEvent ι} {r : FileReceiver}
    (h : (s.filercv i).Unbuffered) (hs : RcvStep dbl s i e r) : r.Unbuffered := by
  cases hs with
  | recv hr =>
    obtain ⟨-, -, hd, rfl⟩ := FileReceiver.receive_cases hr
    exact h.frame rfl rfl fun n hn => IoPc.landed.inj hn ▸ hd
  | fail hr =>
    obtain ⟨-, rfl⟩ := FileReceiver.receiveError_cases hr
    exact h.frame rfl rfl nofun
  | io hv => exact h.io hv
  | msg hv => exact h.msg hv
  | handOver | newFile => exact h.frame rfl rfl h.landed

/-- The connections of a server are unbuffered. -/
theorem unbuffered {bufs : ι → PackBuf × PackBuf} {heap : Heap} {env : SaveEnv}
    {es : List (AgentEvent ι)} {s : TransferAgent ι}
    (hrun : Lts.run (step dbl) (init bufs heap env) es = some s) (i : ι) :
    (s.filercv i).Unbuffered :=
  rcv_invariant (fun _ _ _ => unbuffered_step) (FileReceiver.Unbuffered.init (bufs i)) hrun

/-- In every state that the server reaches, the handler of a line stays inside it
exactly if there is a newline. -/
theorem reachable_lineInside_iff {bufs : ι → PackBuf × PackBuf} {heap : Heap} {env : SaveEnv}
    {es : List (AgentEvent ι)} {s : TransferAgent ι}
    (hrun : Lts.run (step dbl) (init bufs heap env) es = some s) {i : ι}
    (hpc : (s.filercv i).msg = .lookup) :
    (s.filercv i).LineInside dbl ↔ 10 ∈ (s.filercv i).tcp.content := by
  have hun := unbuffered hrun i
  have hptr : (s.filercv i).Pointers :=
    rcv_invariant (fun _ _ _ => pointers_step) (FileReceiver.Pointers.init (bufs i)) hrun
  have ht : (s.filercv i).tcpptr = true := hptr.safe.tcpptr (.inr (by rw [hpc]; rfl))
  constructor
  · intro h
    exact FileReceiver.LineInside.mem (v := s.view i) h hpc ht hun.usebuf hun.bytercv
  · intro h
    exact FileReceiver.lineInside_of_mem (v := s.view i) h hpc ht hun.usebuf hun.bytercv

/-- The first read of a connection has been posted and is about to be handled. -/
def readSchedule (d : Bytes) : List (AgentEvent Unit) := .recv () d :: ioSteps 5 ++ msgSteps 1

/-- Two lines in one read: the second is not parsed. -/
theorem lineInside_two : ∃ s : TransferAgent Unit,
    Lts.run (step unitLib) single (readSchedule (lit "a\nb\n")) = some s ∧
      (s.filercv ()).LineInside unitLib := by
  have heval : (Lts.run (step unitLib) single (readSchedule (lit "a\nb\n"))).map (fun s =>
      ((s.filercv ()).msg, (s.filercv ()).tcpptr, (s.filercv ()).tcp.content)) =
        some (.lookup, true, lit "a\nb\n") := by decide +kernel
  obtain ⟨s, hrun, hs⟩ := Option.map_eq_some_iff.mp heval
  obtain ⟨hpc, hs⟩ := Prod.mk.inj hs
  obtain ⟨ht, hcontent⟩ := Prod.mk.inj hs
  have hun := unbuffered hrun ()
  have hiff := @FileReceiver.lineInside_iff _ unitLib (s.view ()) hpc ht hun.usebuf hun.bytercv
  refine ⟨s, hrun, hiff.mpr ?_⟩
  show 10 ∈ (s.filercv ()).tcp.content
  rw [hcontent]
  decide

/-- A read without a newline. -/
theorem not_lineInside_cut : ∃ s : TransferAgent Unit,
    Lts.run (step unitLib) single (readSchedule (lit "fileinfo f")) = some s ∧
      (s.filercv ()).msg = .lookup ∧ ¬ (s.filercv ()).LineInside unitLib := by
  have heval : (Lts.run (step unitLib) single (readSchedule (lit "fileinfo f"))).map (fun s =>
      ((s.filercv ()).msg, (s.filercv ()).tcp.content)) = some (.lookup, lit "fileinfo f") := by
    decide +kernel
  obtain ⟨s, hrun, hs⟩ := Option.map_eq_some_iff.mp heval
  obtain ⟨hpc, hcontent⟩ := Prod.mk.inj hs
  refine ⟨s, hrun, hpc, fun h => ?_⟩
  have hmem := (reachable_lineInside_iff hrun hpc).mp h
  rw [hcontent] at hmem
  exact absurd hmem (by decide)

end TransferAgent

end FtServer
