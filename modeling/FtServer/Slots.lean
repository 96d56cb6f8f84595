/-
FtServer/Slots.lean

The store of an encoder object.  `output_compacted` prints each line into one of
ten slots of 1024 bytes, in turn, and returns a pointer to it.  The print is not
bounded, so a long line runs over the end of its slot, and from the last slot
over the end of the store.

Between two writes to a slot there are nine to other slots (`slot_kept`).  So the
strings stay as they are returned exactly when every line fits into its slot
(`intact_iff`).
-/
import FtServer.Calls

namespace FtServer

/-- The encoder object: the index of the next slot and the store. -/
structure AsciiProtocol where
  ibuf : ℕ
  buff : Bytes
  ibuf_lt : ibuf < 10
  length_eq : buff.length = 1024 * 10

/-- What a call returns: the pointer, as an offset in the store, and the length. -/
structure Output where
  ptr : ℕ
  n : ℕ

namespace AsciiProtocol

variable {δ : Type} (fmt : DoubleFmt δ)

/-- `output_compacted`, for the text with its newline: the line and a terminator
are printed into the slot. -/
def store (p : AsciiProtocol) (line : Bytes) : AsciiProtocol where
  ibuf := if p.ibuf + 1 = 10 then 0 else p.ibuf + 1
  buff := overlay p.buff (p.ibuf * 1024) (line ++ [0])
  ibuf_lt := by
    have hlt := p.ibuf_lt
    split <;> omega
  length_eq := by rw [overlay_length, p.length_eq]

/-- A call, made at the time of the first component. -/
def call (p : AsciiProtocol) (c : Bytes × CompactCall δ) : AsciiProtocol × Option Output :=
  match c.2.line fmt c.1 with
  | none => (p, none)
  | some line => (p.store line, some ⟨p.ibuf * 1024, line.length⟩)

/-- The object after a sequence of calls. -/
def afterCalls (p : AsciiProtocol) (calls : List (Bytes × CompactCall δ)) : AsciiProtocol :=
  calls.foldl (fun p c => (p.call fmt c).1) p

/-- The string at a pointer. -/
def stringAt (p : AsciiProtocol) (ptr : ℕ) : Bytes := cstr (p.buff.drop ptr)

/-- **Encoded lines stay intact**: a call writes inside the slot chosen for it,
which lies inside the store, and the string it returns is the same until ten
more calls have been made. -/
structure Intact (p : AsciiProtocol) (calls : List (Bytes × CompactCall δ)) : Prop where
  inside : ∀ {pre c post o}, calls = pre ++ c :: post →
    ((p.afterCalls fmt pre).call fmt c).2 = some o →
    ∀ i, o.ptr ≤ i → i ≤ o.ptr + o.n →
      (p.afterCalls fmt pre).ibuf * 1024 ≤ i ∧ i < ((p.afterCalls fmt pre).ibuf + 1) * 1024 ∧
        i < 1024 * 10
  kept : ∀ {pre c more post o}, calls = pre ++ c :: (more ++ post) →
    ((p.afterCalls fmt pre).call fmt c).2 = some o → more.length ≤ 9 →
    (p.afterCalls fmt (pre ++ c :: more)).stringAt o.ptr =
      (p.afterCalls fmt (pre ++ [c])).stringAt o.ptr

/-! ### Slots -/

/-- The bytes of a slot. -/
def slot (p : AsciiProtocol) (i : ℕ) : Bytes := (p.buff.drop (i * 1024)).take 1024

variable {fmt}

theorem afterCalls_append (p : AsciiProtocol) (cs ds : List (Bytes × CompactCall δ)) :
    p.afterCalls fmt (cs ++ ds) = (p.afterCalls fmt cs).afterCalls fmt ds :=
  List.foldl_append

/-- The slots are used in turn. -/
theorem store_ibuf (p : AsciiProtocol) (line : Bytes) :
    (p.store line).ibuf = (p.ibuf + 1) % 10 := by
  have hlt := p.ibuf_lt
  unfold store
  dsimp only
  split <;> omega

/-- A line that fits is written to its own slot only. -/
theorem store_slot {p : AsciiProtocol} {line : Bytes} {i : ℕ} (hfit : line.length + 1 ≤ 1024)
    (hne : i ≠ p.ibuf) : (p.store line).slot i = p.slot i := by
  apply overlay_window
  rw [List.length_append, List.length_singleton]
  rcases Nat.lt_or_gt_of_ne hne with h | h <;> omega

/-- The slot of a line that fits starts with the line and its terminator. -/
theorem store_slot_self {p : AsciiProtocol} {line : Bytes} (hfit : line.length + 1 ≤ 1024) :
    ∃ rest, (p.store line).slot p.ibuf = line ++ 0 :: rest := by
  have hlt := p.ibuf_lt
  have hlen := p.length_eq
  have hline : (line ++ [0]).length = line.length + 1 := by simp
  have hdrop := @overlay_drop _ p.buff (p.ibuf * 1024) (line ++ [0]) (by omega)
  refine ⟨(p.buff.drop (p.ibuf * 1024 + (line ++ [0]).length)).take (1024 - (line.length + 1)), ?_⟩
  rw [slot, store, hdrop, List.take_append, List.take_of_length_le (by omega), hline]
  simp

/-- The string at a slot depends on the slot alone when it has a terminator. -/
theorem stringAt_of_slot {p : AsciiProtocol} {i : ℕ} {line rest : Bytes}
    (h : p.slot i = line ++ 0 :: rest) : p.stringAt (i * 1024) = cstr line := by
  have hsplit :
      p.buff.drop (i * 1024) = line ++ 0 :: (rest ++ (p.buff.drop (i * 1024)).drop 1024) := by
    rw [← List.cons_append, ← List.append_assoc, ← h, slot, List.take_append_drop]
  rw [stringAt, hsplit, cstr_terminated]

/-- A call writes at most one line, to the next slot. -/
theorem call_cases (fmt : DoubleFmt δ) (p : AsciiProtocol) (c : Bytes × CompactCall δ) :
    (p.call fmt c = (p, none) ∧ c.2.refused fmt = true) ∨
      ∃ line, line = c.2.text fmt c.1 ++ [10] ∧ c.2.refused fmt = false ∧
        p.call fmt c = (p.store line, some ⟨p.ibuf * 1024, line.length⟩) := by
  rw [call, CompactCall.line_eq]
  cases c.2.refused fmt
  · exact .inr ⟨_, rfl, rfl, rfl⟩
  · exact .inl ⟨rfl, rfl⟩

/-- The text of the call leaves room for the newline and the terminator. -/
def Fits (fmt : DoubleFmt δ) (c : Bytes × CompactCall δ) : Prop :=
  c.2.refused fmt = false → (c.2.text fmt c.1).length ≤ 1022

/-- **A slot is kept through nine more calls**: when `m` of the ten slots have
been written after slot `i`, as many calls as are left do not reach it. -/
theorem slot_kept {i : ℕ} {calls : List (Bytes × CompactCall δ)} {p : AsciiProtocol} {m : ℕ}
    (hfits : ∀ c ∈ calls, Fits fmt c) (_ : i < 10) (hp : p.ibuf = (i + 1 + m) % 10)
    (hm : m + calls.length ≤ 9) : (p.afterCalls fmt calls).slot i = p.slot i := by
  induction calls generalizing p m with
  | nil => rfl
  | cons c calls ih =>
    have hrest := fun c hc => hfits c (List.mem_cons_of_mem _ hc)
    rw [List.length_cons] at hm
    rw [afterCalls, List.foldl_cons, ← afterCalls]
    rcases p.call_cases fmt c with ⟨hcall, -⟩ | ⟨line, rfl, href, hcall⟩
    · rw [hcall]
      exact ih hrest hp (by omega)
    · have hlen := hfits c List.mem_cons_self href
      have hne : i ≠ p.ibuf := by omega
      have hnext : (p.store (c.2.text fmt c.1 ++ [10])).ibuf = (i + 1 + (m + 1)) % 10 := by
        rw [store_ibuf]
        omega
      rw [hcall, ih hrest hnext (by omega), store_slot _ hne]
      rw [List.length_append, List.length_singleton]
      omega

/-- The terminator of a call lies in its slot. -/
theorem Intact.fits {p : AsciiProtocol} {calls : List (Bytes × CompactCall δ)}
    (h : p.Intact fmt calls) : ∀ c ∈ calls, Fits fmt c := by
  intro c hc href
  obtain ⟨pre, post, hsplit⟩ := List.append_of_mem hc
  rcases (p.afterCalls fmt pre).call_cases fmt c with ⟨-, hnull⟩ | ⟨line, hline, -, hcall⟩
  · rw [hnull] at href
    cases href
  · have hlast := (h.inside hsplit (by rw [hcall])
      ((p.afterCalls fmt pre).ibuf * 1024 + line.length) (by simp) (by simp)).2.1
    rw [hline, List.length_append, List.length_singleton] at hlast
    omega

/-- **When the encoded lines stay intact**: every text has at most 1022 bytes. -/
theorem intact_iff {p : AsciiProtocol} {calls : List (Bytes × CompactCall δ)} :
    p.Intact fmt calls ↔ ∀ c ∈ calls, Fits fmt c := by
  refine ⟨Intact.fits, ?_⟩
  intro hfits
  constructor
  · intro pre c post o hsplit ho i hle hge
    rcases (p.afterCalls fmt pre).call_cases fmt c with ⟨hcall, -⟩ | ⟨line, hline, href, hcall⟩
    · rw [hcall] at ho
      cases ho
    · have hlen := hfits c (by simp [hsplit]) href
      have hlt := (p.afterCalls fmt pre).ibuf_lt
      rw [hcall] at ho
      obtain rfl := Option.some.inj ho
      rw [hline, List.length_append, List.length_singleton] at hge
      dsimp only at hle hge
      omega
  · intro pre c more post o hsplit ho hmore
    rcases (p.afterCalls fmt pre).call_cases fmt c with ⟨hcall, -⟩ | ⟨line, hline, href, hcall⟩
    · rw [hcall] at ho
      cases ho
    · have hlen := hfits c (by simp [hsplit]) href
      have hlt := (p.afterCalls fmt pre).ibuf_lt
      have hline' : line.length + 1 ≤ 1024 := by
        rw [hline, List.length_append, List.length_singleton]
        omega
      rw [hcall] at ho
      obtain rfl := Option.some.inj ho
      have hafter : ∀ more, p.afterCalls fmt (pre ++ c :: more) =
          ((p.afterCalls fmt pre).store line).afterCalls fmt more := by
        intro more
        rw [afterCalls_append, afterCalls, List.foldl_cons, ← afterCalls, hcall]
      obtain ⟨rest, hslot⟩ := store_slot_self (p := p.afterCalls fmt pre) hline'
      have hkept : (p.afterCalls fmt (pre ++ c :: more)).slot (p.afterCalls fmt pre).ibuf =
          line ++ 0 :: rest := by
        rw [hafter, ← hslot]
        refine slot_kept (m := 0) (fun d hd => hfits d (by simp [hsplit, hd])) hlt ?_ (by omega)
        exact store_ibuf _ _
      have hfirst := hafter []
      rw [stringAt_of_slot hkept, hfirst, afterCalls, List.foldl_nil, stringAt_of_slot hslot]

/-- The notification of a file with a long path. -/
def longPath : Bytes × CompactCall Int32 :=
  (lit "2019-09-23T12:00:00", .proto (some (.fileinfo
    { type := lit "fileinfo"
      subpath := List.replicate 1100 97
      filename := lit "G021.fit"
      filesize := 1 })))

/-- A new object; its store holds any bytes. -/
def zeroStore : AsciiProtocol where
  ibuf := 0
  buff := List.replicate (1024 * 10) 0
  ibuf_lt := by decide
  length_eq := List.length_replicate

theorem not_intact_longPath :
    ¬ ∀ (fmt : DoubleFmt Int32) (p : AsciiProtocol) (calls : List (Bytes × CompactCall Int32)),
      p.Intact fmt calls := by
  intro h
  have hlen : ¬ (longPath.2.text intFmt longPath.1).length ≤ 1022 := by decide +kernel
  exact hlen ((h intFmt zeroStore [longPath]).fits longPath (by simp) rfl)

end AsciiProtocol

end FtServer
