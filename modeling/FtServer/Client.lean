/-
FtServer/Client.lean

A client that follows the transfer protocol, as the server sees it: through the
bytes that arrive and the statuses that are sent.  A `Transfer` is a fileinfo
line, what it parses to, and the bytes of the file.  The client writes a line,
waits for `READY`, writes the bytes, waits for `COMPLETE` and goes on;
`written` is all it has written after it has seen the given statuses.  What has
arrived is at any time a prefix of that, cut anywhere.

`locate` finds a position in the stream: the transfers before it, and the
offset in the one that comes next.  What is owed to a client whose stream has
arrived up to a position is read off from it.
-/
import FtServer.TransferAgent

namespace FtServer

variable {δ : Type} {dbl : DoubleLib δ}

/-! ### Transfers -/

/-- One transfer.  The line does not contain a newline and announces the size of
the data, which is not empty. -/
structure Transfer (dbl : DoubleLib δ) where
  line : Bytes
  info : AsciiProtoFileinfo
  data : Bytes
  no_newline : (10 : UInt8) ∉ line
  parse : resolve dbl (cstr line) = .ok (some (.fileinfo info))
  type_eq : info.type = lit "fileinfo"
  filesize_eq : info.filesize.toInt = data.length
  data_ne : data ≠ []

namespace Transfer

/-- The line with its newline. -/
def header (t : Transfer dbl) : Bytes := t.line ++ [10]

/-- Number of bytes of the transfer. -/
def size (t : Transfer dbl) : ℕ := t.header.length + t.data.length

/-- The file that the writer is to get. -/
def file (t : Transfer dbl) : FileInfo where
  gid := t.info.gid
  uid := t.info.uid
  cid := t.info.cid
  tmobs := t.info.tmobs
  subpath := t.info.subpath
  filename := t.info.filename
  filesize := t.data.length
  rcvsize := t.data.length
  filedata := t.data
  filedata_length := rfl

theorem header_length (t : Transfer dbl) : t.header.length = t.line.length + 1 := by
  simp [header]

theorem data_pos (t : Transfer dbl) : 0 < t.data.length := List.length_pos_of_ne_nil t.data_ne

end Transfer

/-- All the bytes of the transfers. -/
def stream (ts : List (Transfer dbl)) : Bytes := ts.flatMap fun t => t.header ++ t.data

/-- The statuses of the transfers. -/
def done (ts : List (Transfer dbl)) : List RcvState := ts.flatMap fun _ => [.ready, .complete]

theorem stream_append (ts us : List (Transfer dbl)) : stream (ts ++ us) = stream ts ++ stream us :=
  List.flatMap_append

theorem stream_concat (ts : List (Transfer dbl)) (t : Transfer dbl) :
    stream (ts ++ [t]) = stream ts ++ t.header ++ t.data := by
  rw [stream_append]
  simp [stream]

theorem done_concat (ts : List (Transfer dbl)) (t : Transfer dbl) :
    done (ts ++ [t]) = done ts ++ [.ready] ++ [.complete] := by
  simp [done]

/-! ### The client -/

/-- What is left of the statuses after the first `st`. -/
def after (st : RcvState) : List RcvState → Option (List RcvState)
  | [] => none
  | x :: xs => if x = st then some xs else after st xs

/-- All that the client has written once it has seen the statuses. -/
def written : List (Transfer dbl) → List RcvState → Bytes
  | [], _ => []
  | t :: ts, sts =>
    t.header ++
      match after .ready sts with
      | none => []
      | some sts =>
        t.data ++
          match after .complete sts with
          | none => []
          | some sts => written ts sts

theorem written_done (past ts : List (Transfer dbl)) (sts : List RcvState) :
    written (past ++ ts) (done past ++ sts) = stream past ++ written ts sts := by
  induction past with
  | nil => rfl
  | cons t past ih =>
    simp only [done, stream, List.flatMap_cons, List.cons_append, List.nil_append, written,
      after, ↓reduceIte] at ih ⊢
    rw [ih]
    simp

/-- Before `READY` the client has written the line of the next transfer, and
nothing if there is none. -/
theorem written_rest (past todo : List (Transfer dbl)) :
    written (past ++ todo) (done past) =
      stream past ++ (todo.head?.map Transfer.header).getD [] := by
  have h := written_done past todo []
  rw [List.append_nil] at h
  rw [h]
  cases todo with
  | nil => rfl
  | cons t todo => simp [written, after]

/-- After `READY` it has written the data too. -/
theorem written_ready (past todo : List (Transfer dbl)) (t : Transfer dbl) :
    written (past ++ t :: todo) (done past ++ [.ready]) = stream past ++ t.header ++ t.data := by
  rw [written_done]
  simp [written, after]

/-! ### The history of a receiver -/

/-- The reads of the connection. -/
def reads (log : List Obs) : List Bytes :=
  log.filterMap fun o => match o with
    | .arrived d => some d
    | _ => none

/-- The bytes that have arrived. -/
def arrived (log : List Obs) : Bytes := (reads log).flatten

/-- The statuses sent. -/
def statuses (log : List Obs) : List RcvState :=
  log.filterMap fun o => match o with
    | .sent st => some st
    | _ => none

/-- The files handed to the writer, as they were when `NewFile` was called. -/
def files (log : List Obs) : List FileInfo :=
  log.filterMap fun o => match o with
    | .handed _ f => some f
    | _ => none

/-- The I/O thread is not done with the last read. -/
def IoPc.busy : IoPc → Bool
  | .landed _ | .testReady | .read | .arrive _ | .testWaiting => true
  | .post m => m ≠ .networkClose
  | .idle | .rearm | .stopped => false

/-- The threads of the receiver have handled all that has arrived. -/
def FileReceiver.Settled (r : FileReceiver) : Prop :=
  r.io.busy = false ∧ r.mq = [] ∧ r.msg = .idle

instance (r : FileReceiver) : Decidable r.Settled := by
  unfold FileReceiver.Settled
  infer_instance

/-! ### Positions in the stream -/

/-- The transfers that end before a position, those that do not, and the offset
in the first of these. -/
structure Position (dbl : DoubleLib δ) where
  passed : List (Transfer dbl)
  rest : List (Transfer dbl)
  offset : ℕ

/-- Find a position in the stream of the transfers. -/
def locate : List (Transfer dbl) → ℕ → Position dbl
  | [], n => ⟨[], [], n⟩
  | t :: ts, n =>
    if n < t.size then ⟨[], t :: ts, n⟩
    else
      let p := locate ts (n - t.size)
      ⟨t :: p.passed, p.rest, p.offset⟩

namespace Position

/-- The position is at the start of a transfer. -/
def AtLine (p : Position dbl) : Prop := p.offset = 0

/-- The position is inside a line. -/
def InLine (p : Position dbl) : Prop :=
  match p.rest with
  | [] => False
  | t :: _ => 0 < p.offset ∧ p.offset < t.header.length

/-- The line of the transfer at the position has arrived. -/
def LineIn (p : Position dbl) : Prop :=
  match p.rest with
  | [] => False
  | t :: _ => t.header.length ≤ p.offset

instance (p : Position dbl) : Decidable p.AtLine := by unfold AtLine; infer_instance

instance (p : Position dbl) : Decidable p.InLine := by
  unfold InLine
  split <;> infer_instance

instance (p : Position dbl) : Decidable p.LineIn := by
  unfold LineIn
  split <;> infer_instance

/-- Number of lines that have arrived. -/
def lines (p : Position dbl) : ℕ := p.passed.length + if p.LineIn then 1 else 0

/-- The files whose last byte has arrived. -/
def owedFiles (p : Position dbl) : List FileInfo := p.passed.map Transfer.file

/-- The statuses that the bytes up to the position call for. -/
def owedStatuses (p : Position dbl) : List RcvState :=
  done p.passed ++ if p.LineIn then [.ready] else []

end Position

theorem size_pos (t : Transfer dbl) : 0 < t.size := by
  have := t.data_pos
  unfold Transfer.size
  omega

theorem locate_stream (past ts : List (Transfer dbl)) (n : ℕ) :
    locate (past ++ ts) ((stream past).length + n) =
      ⟨past ++ (locate ts n).passed, (locate ts n).rest, (locate ts n).offset⟩ := by
  induction past with
  | nil => simp [stream]
  | cons t past ih =>
    have hlen : (stream (t :: past)).length = t.size + (stream past).length := by
      simp [stream, Transfer.size, Nat.add_assoc]
    have hlt : ¬ t.size + (stream past).length + n < t.size := by omega
    have hsub : t.size + (stream past).length + n - t.size = (stream past).length + n := by omega
    rw [hlen, List.cons_append, locate, if_neg hlt, hsub, ih]
    rfl

/-- At the end of the past transfers. -/
theorem locate_rest (past ts : List (Transfer dbl)) :
    locate (past ++ ts) (stream past).length = ⟨past, ts, 0⟩ := by
  have h := locate_stream past ts 0
  rw [Nat.add_zero] at h
  rw [h]
  cases ts with
  | nil => simp [locate]
  | cons t ts => simp [locate, size_pos]

/-- Inside the transfer after the past ones. -/
theorem locate_inside (past ts : List (Transfer dbl)) {t : Transfer dbl} {n : ℕ}
    (hn : n < t.size) :
    locate (past ++ t :: ts) ((stream past).length + n) = ⟨past, t :: ts, n⟩ := by
  rw [locate_stream]
  simp [locate, hn]

/-- Inside the data of the transfer after the past ones. -/
theorem locate_loading (past ts : List (Transfer dbl)) {t : Transfer dbl} {k : ℕ}
    (hk : k < t.data.length) :
    locate (past ++ t :: ts) (stream past ++ t.header ++ t.data.take k).length =
      ⟨past, t :: ts, t.header.length + k⟩ := by
  have hlen : (stream past ++ t.header ++ t.data.take k).length =
      (stream past).length + (t.header.length + k) := by
    simp only [List.length_append, List.length_take]
    omega
  rw [hlen]
  exact locate_inside past ts (Nat.add_lt_add_left hk _)

/-- At the end of the transfer after the past ones. -/
theorem locate_full (past ts : List (Transfer dbl)) (t : Transfer dbl) :
    locate (past ++ t :: ts) (stream past ++ t.header ++ t.data).length =
      ⟨past ++ [t], ts, 0⟩ := by
  rw [← stream_concat, List.append_cons]
  exact locate_rest (past ++ [t]) ts

/-- At the start of the data of the transfer after the past ones. -/
theorem locate_line (past ts : List (Transfer dbl)) (t : Transfer dbl) :
    locate (past ++ t :: ts) (stream past ++ t.header).length =
      ⟨past, t :: ts, t.header.length⟩ := by
  have h := locate_loading past ts t.data_pos
  rwa [List.take_zero, List.append_nil] at h

namespace Position

variable {past todo : List (Transfer dbl)} {t : Transfer dbl} {n : ℕ}

theorem not_lineIn_start : ¬ (⟨past, todo, 0⟩ : Position dbl).LineIn := by
  cases todo with
  | nil => exact id
  | cons t todo =>
    intro h
    have hle : t.header.length ≤ 0 := h
    rw [Transfer.header_length] at hle
    omega

theorem lineIn_of_le (h : t.header.length ≤ n) : (⟨past, t :: todo, n⟩ : Position dbl).LineIn :=
  h

end Position

/-! ### Rules of the environment -/

namespace TransferAgent

variable {ι : Type} [DecidableEq ι]

/-- What arrives on connection `i` is what the client has written. -/
def Follows (ts : List (Transfer dbl)) (i : ι) (s : TransferAgent ι) : AgentEvent ι → Prop
  | .recv j d => j = i → arrived (s.filercv i).log ++ d <+:
      written ts (statuses (s.filercv i).log)
  | _ => True

/-- No read ends inside a line: every line arrives whole, in one read. -/
def WholeLines (ts : List (Transfer dbl)) (i : ι) (s : TransferAgent ι) : AgentEvent ι → Prop
  | .recv j d => j = i →
      ¬ (locate ts ((arrived (s.filercv i).log).length + d.length)).InLine
  | _ => True

instance Follows.decidable (ts : List (Transfer dbl)) (i : ι) (s : TransferAgent ι)
    (e : AgentEvent ι) : Decidable (Follows ts i s e) :=
  match e with
  | .recv j d => inferInstanceAs (Decidable
      (j = i → arrived (s.filercv i).log ++ d <+: written ts (statuses (s.filercv i).log)))
  | .fail _ | .io _ | .msg .. | .monitor _ | .spurious | .config _ => isTrue trivial

instance WholeLines.decidable (ts : List (Transfer dbl)) (i : ι) (s : TransferAgent ι)
    (e : AgentEvent ι) : Decidable (WholeLines ts i s e) :=
  match e with
  | .recv j d => inferInstanceAs (Decidable
      (j = i → ¬ (locate ts ((arrived (s.filercv i).log).length + d.length)).InLine))
  | .fail _ | .io _ | .msg .. | .monitor _ | .spurious | .config _ => isTrue trivial

/-! ### Two transfers -/

/-- The file `a` of two bytes. -/
def transferA : Transfer unitLib where
  line := lit "fileinfo filename=a,filesize=2"
  info := { type := lit "fileinfo", filename := lit "a", filesize := 2 }
  data := [7, 8]
  no_newline := by decide
  parse := by rfl
  type_eq := rfl
  filesize_eq := rfl
  data_ne := by decide

/-- The file `b` of three bytes, with a unit. -/
def transferB : Transfer unitLib where
  line := lit "fileinfo filename=b,uid=7,filesize=3"
  info := { type := lit "fileinfo", uid := lit "7", filename := lit "b", filesize := 3 }
  data := [1, 2, 3]
  no_newline := by decide
  parse := by rfl
  type_eq := rfl
  filesize_eq := rfl
  data_ne := by decide

end TransferAgent

end FtServer
