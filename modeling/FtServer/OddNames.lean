/-
FtServer/OddNames.lean

Names that are no dates.  `free_storage` passes over an entry whose name does not
start with `G` or has no `_`.  What stands behind the last `_` of the others goes
to `stoi` and, in three parts, to the constructor of a date.  Both throw on what
they cannot use, and neither the scan nor `thread_autofree` catches anything; both
take more than six digits that are a date, so that a name which has none may be
removed by what is read from it.

`OddName` says which names have no date, by the rule of `YYMMDD`, `Unreadable` which of
them make the code throw.  `scanSurvives_iff` says on which storage roots the scan gets
to every entry, leaves the odd ones where they are, and the storage path is refreshed.
-/
import FtServer.Retention

namespace FtServer

/-! ### Odd names -/

/-- The text is not the six digits of a date; a number out of the range of `int` is not
either. -/
def OddText (text : Bytes) : Prop := ¬ ∃ d, YYMMDD text d

/-- The name starts with `G`, has a `_`, and ends in such a text. -/
def OddName (name : Bytes) : Prop :=
  ∃ text, name.head? = some 71 ∧ afterLast 95 name = some text ∧ OddText text

/-- `stoi` throws on the text, or the constructor of the date on its three parts. -/
def Unreadable (text : Bytes) : Prop :=
  (∃ e, stoi text = .error e) ∨
    ∃ ymd e, stoi text = .ok ymd ∧
      dateType (ymd.toInt.tdiv 10000 + 2000)
        ((ymd.toInt - ymd.toInt.tdiv 10000 * 10000 - ymd.toInt.tmod 100).tdiv 100)
        (ymd.toInt.tmod 100) = .error e

theorem tmdir_error_iff {text : Bytes} : (∃ e, tmdir text = .error e) ↔ Unreadable text := by
  unfold tmdir Unreadable
  rcases hs : stoi text with e | ymd
  · simp [bind, Except.bind]
  · simp [bind, Except.bind]

/-- What cannot be read is odd; what is odd may be read for all that. -/
theorem Unreadable.odd {text : Bytes} (h : Unreadable text) : OddText text := by
  rintro ⟨d, hdate⟩
  obtain ⟨e, he⟩ := tmdir_error_iff.mpr h
  cases (tmdir_of_yymmdd hdate).symm.trans he

-- seven digits are the first day of 2130
example : tmdir (lit "1300101") = .ok (gregDate 2130 1 1 (by decide)) := rfl

theorem readsAs_error_iff {x : DirEntry} : (∃ e, x.ReadsAs (.error e)) ↔
    ∃ text, x.name.head? = some 71 ∧ afterLast 95 x.name = some text ∧ Unreadable text := by
  constructor
  · rintro ⟨e, hhead, text, htext, hdate⟩
    exact ⟨text, hhead, htext, tmdir_error_iff.mp ⟨e, hdate⟩⟩
  · rintro ⟨text, hhead, htext, hodd⟩
    obtain ⟨e, hdate⟩ := tmdir_error_iff.mpr hodd
    exact ⟨e, hhead, text, htext, hdate⟩

/-! ### The property -/

/-- The entries that the loop gets to, in order. -/
def examined (t : DateInt) (now : GregDate) : List DirEntry → List Bytes
  | [] => []
  | x :: rest =>
    x.name :: match cleanEntry t now x with
      | .error _ => []
      | .ok _ => examined t now rest

/-- **The cleaning survives odd names**: every entry is examined, those with odd
names stay, nothing is thrown, and the storage path is refreshed. -/
structure ScanSurvives (t : DateInt) (now : GregDate) (root : StorageRoot) (c : Cleaning) :
    Prop where
  examined : examined t now root.entries = root.entries.map DirEntry.name
  skipped : ∀ x ∈ root.entries, OddName x.name → x.name ∉ c.removed
  thrown : c.thrown = none
  storageUpdated : c.storageUpdated = true

/-- The text behind the last `_` does not make the code throw, what is read from an odd
name is not older than the limit, and the file system answers: the time of the entry can
be read, and it can be removed if it is old. -/
structure GoesOn (t : DateInt) (now : GregDate) (x : DirEntry) : Prop where
  readable : ∀ text, x.name.head? = some 71 → afterLast 95 x.name = some text →
    ¬ Unreadable text
  loose : OddName x.name → ∀ d, x.ReadsAs (.ok d) → older t now d = false
  lastWriteTime : ∀ e, x.lastWriteTime ≠ .error e
  removeAll : ∀ d e, x.ReadsAs (.ok d) → older t now d = true → x.removeAll ≠ .error e

variable {t : DateInt} {now : GregDate}

theorem GoesOn.not_stops {x : DirEntry} (h : GoesOn t now x) : ¬ Stops t now x := by
  rintro (⟨e, he⟩ | hread | ⟨d, e, hread, hold, he⟩)
  · exact h.lastWriteTime e he
  · obtain ⟨text, hhead, htext, hodd⟩ := readsAs_error_iff.mp hread
    exact h.readable text hhead htext hodd
  · exact h.removeAll d e hread hold he

theorem goesOn_of_not_stops {x : DirEntry} (h : ¬ Stops t now x)
    (hloose : OddName x.name → ∀ d, x.ReadsAs (.ok d) → older t now d = false) :
    GoesOn t now x where
  readable := fun text hhead htext hodd =>
    h (.inr (.inl (readsAs_error_iff.mpr ⟨text, hhead, htext, hodd⟩)))
  loose := hloose
  lastWriteTime := fun e he => h (.inl ⟨e, he⟩)
  removeAll := fun d e hread hold he => h (.inr (.inr ⟨d, e, hread, hold, he⟩))

/-- An entry that does not stop the scan is removed if what is read from its name is
older than the limit. -/
theorem cleanEntry_true_of_not_stops {x : DirEntry} {d : GregDate} (h : ¬ Stops t now x)
    (hread : x.ReadsAs (.ok d)) (hold : older t now d = true) :
    cleanEntry t now x = .ok true := by
  refine cleanEntry_true_iff.mpr ⟨⟨?_, ?_⟩, d, hread, hold⟩
  · rcases hw : x.lastWriteTime with e | v
    · exact absurd (.inl ⟨e, hw⟩) h
    · exact ⟨v, rfl⟩
  · rcases hr : x.removeAll with e | n
    · exact absurd (.inr (.inr ⟨d, e, hread, hold, hr⟩)) h
    · exact ⟨n, rfl⟩

/-! ### The scan -/

/-- The loop ends without an exception exactly if no entry stops it. -/
theorem cleanLoop_thrown_iff {xs : List DirEntry} :
    (cleanLoop t now xs).2 = none ↔ ∀ x ∈ xs, ¬ Stops t now x := by
  induction xs with
  | nil => simp [cleanLoop]
  | cons x xs ih =>
    have hstop := @cleanEntry_error_iff t now x
    rw [cleanLoop, List.forall_mem_cons, ← ih, ← hstop]
    rcases hx : cleanEntry t now x with e | removed
    · simp
    · simp

/-- Then it gets to all of them. -/
theorem examined_eq {xs : List DirEntry} (h : ∀ x ∈ xs, ¬ Stops t now x) :
    examined t now xs = xs.map DirEntry.name := by
  induction xs with
  | nil => rfl
  | cons x xs ih =>
    obtain ⟨hx, hxs⟩ := List.forall_mem_cons.mp h
    rw [examined, List.map_cons, ← ih hxs]
    rw [← cleanEntry_error_iff] at hx
    rcases he : cleanEntry t now x with e | removed
    · exact absurd ⟨e, he⟩ hx
    · rfl

/-- **When the cleaning survives.** -/
theorem scanSurvives_iff {available : UInt64} {minDiskStorage : Int32} {root : StorageRoot}
    (hlow : ((available.toNat / 2 ^ 30 : ℕ) : ℤ) < minDiskStorage.toInt) :
    ScanSurvives t now root (freeStorage t available minDiskStorage now root) ↔
      ∀ x ∈ root.entries, GoesOn t now x := by
  have hremoved : (∀ x ∈ root.entries, ¬ Stops t now x) → ∀ x ∈ root.entries,
      (x.name ∈ (cleanLoop t now root.entries).1 ↔ cleanEntry t now x = .ok true) := by
    intro hgoes x hx
    obtain ⟨pre, post, hsplit⟩ := List.append_of_mem hx
    have hpre : ∀ y ∈ pre, ¬ Stops t now y := fun y hy => hgoes y (by simp [hsplit, hy])
    rw [hsplit, mem_cleanLoop_iff (hsplit ▸ root.nodup), and_iff_left hpre]
  rw [freeStorage_low hlow]
  constructor
  · intro h x hx
    have hgoes := cleanLoop_thrown_iff.mp h.thrown
    refine goesOn_of_not_stops (hgoes x hx) fun hodd d hread => ?_
    by_contra hold
    have htrue := cleanEntry_true_of_not_stops (hgoes x hx) hread ((Bool.not_eq_false _).mp hold)
    exact h.skipped x hx hodd ((hremoved hgoes x hx).mpr htrue)
  · intro h
    have hgoes : ∀ x ∈ root.entries, ¬ Stops t now x := fun x hx => (h x hx).not_stops
    have hnone := cleanLoop_thrown_iff.mpr hgoes
    refine ⟨examined_eq hgoes, fun x hx hodd hmem => ?_, hnone, by rw [hnone]; rfl⟩
    obtain ⟨-, d, hread, hold⟩ := cleanEntry_true_iff.mp ((hremoved hgoes x hx).mp hmem)
    exact absurd ((h x hx).loose hodd d hread) (by rw [hold]; decide)

/-- An entry that can be read and removed. -/
def plainEntry (name : String) (h : lit name ≠ []) : DirEntry := ⟨lit name, h, .ok 0, .ok 1⟩

/-- Names without a date: one has no `_`, one does not start with `G`, and one has a date
and something behind it. -/
def datelessRoot : StorageRoot where
  entries := [plainEntry "G021" (by decide), plainEntry "log_x" (by decide),
    plainEntry "G_240106x" (by decide)]
  nodup := by decide

theorem scanSurvives_dateless :
    ScanSurvives .long jan2024 datelessRoot (freeStorage .long 0 500 jan2024 datelessRoot) := by
  refine (scanSurvives_iff (by decide)).mpr ?_
  -- the first two names are not read at all
  have hunread : ∀ (name : String) (h : lit name ≠ []),
      (∀ r, ¬ (plainEntry name h).ReadsAs r) → GoesOn .long jan2024 (plainEntry name h) :=
    fun name h hread => goesOn_of_not_stops
      (by
        rintro (⟨e, he⟩ | ⟨e, he⟩ | ⟨d, e, -, -, he⟩)
        · cases he
        · exact hread _ he
        · cases he)
      fun _ d hd => absurd hd (hread _)
  intro x hx
  simp only [datelessRoot, List.mem_cons, List.not_mem_nil, or_false] at hx
  rcases hx with rfl | rfl | rfl
  · apply hunread
    rintro r ⟨-, text, htext, -⟩
    exact absurd htext (by decide +revert)
  · apply hunread
    rintro r ⟨hhead, -⟩
    exact absurd hhead (by decide)
  · have hread : (plainEntry "G_240106x" (by decide)).ReadsAs
        (.ok (gregDate 2024 1 6 (by decide))) :=
      ⟨by decide, lit "240106x", by decide, rfl⟩
    refine goesOn_of_not_stops ?_ fun _ d hd => ?_
    · rintro (⟨e, he⟩ | ⟨e, he⟩ | ⟨d, e, -, -, he⟩)
      · cases he
      · cases hread.unique he
      · cases he
    · obtain rfl := Except.ok.inj (hread.unique hd)
      decide

/-- A directory `G_x` ends the scan. -/
theorem not_scanSurvives_text :
    ¬ ∀ (t : DateInt) (available : UInt64) (minDiskStorage : Int32) (now : GregDate)
      (root : StorageRoot), ((available.toNat / 2 ^ 30 : ℕ) : ℤ) < minDiskStorage.toInt →
      ScanSurvives t now root (freeStorage t available minDiskStorage now root) := by
  intro h
  have hsurvives := h .long 0 500 jan2024
    ⟨[plainEntry "G_x" (by decide)], by decide⟩ (by decide)
  have hthrown := hsurvives.thrown
  exact absurd hthrown (by decide +kernel)

end FtServer
