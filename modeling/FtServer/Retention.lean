/-
FtServer/Retention.lean

Cleaning of the storage.  When the disk runs low `free_storage` goes through the
entries of the storage root and removes the old ones: the name of an entry
starts with `G` and ends in `_YYMMDD`, and the entry is old when its date lies
more than four days before today.

`Expired` is that rule on the calendar.  The code computes the date from the
number after the last `_` by division, and compares a difference of day numbers
with `4 * 86400`, which is four days counted in seconds.
`freeStorage_followsRule_iff` says on which storage roots the scan removes what
the rule names.
-/
import Mathlib.Data.List.DropRight
import FtServer.Calendar
import FtServer.Numerals

namespace FtServer

/-! ### The storage root -/

/-- An entry of the storage root, with what the file system answers about it. -/
structure DirEntry where
  name : Bytes
  name_ne : name ≠ []
  lastWriteTime : Except StdException ℤ
  removeAll : Except StdException ℕ

/-- The entries in the order in which the iterator lists them. -/
structure StorageRoot where
  entries : List DirEntry
  nodup : (entries.map DirEntry.name).Nodup

/-! ### Dates of the library -/

/-- The dates of the library: the years 1400 to 9999. -/
structure GregDate extends Date where
  year_ge : 1400 ≤ year
  year_le : year ≤ 9999

/-- `modjulian_day`, as a number. -/
def GregDate.modjulianDay (d : GregDate) : ℤ := d.dayNumber - 2400001

/-- `date_type(year, month, day)`: the arguments are converted to
`unsigned short`, and a date that does not exist is refused. -/
def dateType (year month day : ℤ) : Except StdException GregDate :=
  let y := (year % 65536).toNat
  let m := (month % 65536).toNat
  let d := (day % 65536).toNat
  if h : (1400 ≤ y ∧ y ≤ 9999) ∧ (1 ≤ m ∧ m ≤ 12) ∧ 1 ≤ d ∧ d ≤ daysInMonth y m then
    .ok ⟨⟨y, m, d, h.2.1.1, h.2.1.2, h.2.2.1, h.2.2.2⟩, h.1.1, h.1.2⟩
  else .error .outOfRange

/-- The type that `modjulian_day` returns: `long` by its documentation, an
unsigned integer of 32 bits by its declaration.  The comparison is made in it. -/
inductive DateInt
  | long
  | uint32
  deriving DecidableEq

/-- `diff > limit` in that type. -/
def DateInt.exceeds : DateInt → ℤ → ℤ → Bool
  | .long, diff, limit => limit < diff
  | .uint32, diff, limit => limit % 2 ^ 32 < diff % 2 ^ 32

@[simp] theorem DateInt.exceeds_long {diff limit : ℤ} :
    DateInt.long.exceeds diff limit = true ↔ limit < diff := decide_eq_true_iff

@[simp] theorem DateInt.exceeds_uint32 {diff limit : ℤ} :
    DateInt.uint32.exceeds diff limit = true ↔ limit % 2 ^ 32 < diff % 2 ^ 32 :=
  decide_eq_true_iff

/-! ### `free_storage` -/

/-- `filename.substr(filename.rfind('_') + 1)`, if there is a `_`. -/
def afterLast (sep : UInt8) (s : Bytes) : Option Bytes :=
  if sep ∈ s then some (s.rtakeWhile (· ≠ sep)) else none

/-- `days4`. -/
def days4 : ℤ := 4 * 86400

/-- `tmdir`: the date in the text after the last `_`.  No operation on the
number leaves the range of `int`. -/
def tmdir (text : Bytes) : Except StdException GregDate := do
  let ymd ← stoi text
  let ymd := ymd.toInt
  let day := ymd.tmod 100
  let year := ymd.tdiv 10000
  let month := (ymd - year * 10000 - day).tdiv 100
  dateType (year + 2000) month day

/-- The comparison of the day numbers. -/
def older (t : DateInt) (now d : GregDate) : Bool :=
  t.exceeds (now.modjulianDay - d.modjulianDay) days4

/-- The body of the loop: whether the entry is removed. -/
def cleanEntry (t : DateInt) (now : GregDate) (x : DirEntry) : Except StdException Bool := do
  let _ ← x.lastWriteTime
  if x.name.head? ≠ some 71 then pure false
  else
    match afterLast 95 x.name with
    | none => pure false
    | some text => do
      let d ← tmdir text
      if older t now d then do
        let _ ← x.removeAll
        pure true
      else pure false

/-- The loop: the names removed, and the exception that ended it. -/
def cleanLoop (t : DateInt) (now : GregDate) : List DirEntry → List Bytes × Option StdException
  | [] => ([], none)
  | x :: rest =>
    match cleanEntry t now x with
    | .error e => ([], some e)
    | .ok removed =>
      let (names, thrown) := cleanLoop t now rest
      (if removed then x.name :: names else names, thrown)

/-- What a run of `free_storage` did. -/
structure Cleaning where
  removed : List Bytes
  thrown : Option StdException
  storageUpdated : Bool

/-- `TransferAgent::free_storage`; `available` is the free space in bytes. -/
def freeStorage (t : DateInt) (available : UInt64) (minDiskStorage : Int32) (now : GregDate)
    (root : StorageRoot) : Cleaning :=
  -- the `int` is converted to the unsigned type of the free space
  if ((available.toNat / 2 ^ 30 : ℕ) : ℤ) < minDiskStorage.toInt % 2 ^ 64 then
    let (removed, thrown) := cleanLoop t now root.entries
    ⟨removed, thrown, thrown.isNone⟩
  else ⟨[], none, false⟩

/-! ### The rule -/

/-- The text is six digits `YYMMDD`, which name the date `d` of the years 2000
to 2099. -/
structure YYMMDD (text : Bytes) (d : Date) : Prop where
  length : text.length = 6
  digits : ∀ b ∈ text, isDigit b = true
  year : d.year = 2000 + digitsValue (text.take 2)
  month : d.month = digitsValue ((text.drop 2).take 2)
  day : d.day = digitsValue (text.drop 4)

/-- The name starts with `G`, and after its last `_` it has the date `d`. -/
def DatedName (name : Bytes) (d : Date) : Prop :=
  ∃ front text, name = front ++ 95 :: text ∧ 95 ∉ text ∧ name.head? = some 71 ∧ YYMMDD text d

/-- **The rule**: the date in the name lies more than 4 days before today. -/
def Expired (today : Date) (name : Bytes) : Prop :=
  ∃ d, DatedName name d ∧ d.MoreThanDaysBefore 4 today

/-- The rule holds of a run: exactly the entries it names are removed. -/
def FollowsRule (today : Date) (root : StorageRoot) (c : Cleaning) : Prop :=
  ∀ x ∈ root.entries, x.name ∈ c.removed ↔ Expired today x.name

/-! ### The date of a name of the rule -/

theorem afterLast_split {sep : UInt8} {front text : Bytes} (h : sep ∉ text) :
    afterLast sep (front ++ sep :: text) = some text := by
  have hmem : sep ∈ front ++ sep :: text := by simp
  have hpos : ∀ b ∈ text.reverse, decide (b ≠ sep) = true := by
    intro b hb
    simpa using ne_of_mem_of_not_mem (List.mem_reverse.mp hb) h
  rw [afterLast, if_pos hmem, List.rtakeWhile, List.reverse_append, List.reverse_cons,
    List.append_assoc, List.takeWhile_append_of_pos hpos]
  simp

/-- The digits in pairs. -/
theorem YYMMDD.value {text : Bytes} {d : Date} (h : YYMMDD text d) :
    digitsValue text + 2000 * 10000 = d.year * 10000 + d.month * 100 + d.day := by
  have hsplit : text = text.take 2 ++ ((text.drop 2).take 2 ++ text.drop 4) := by
    rw [show text.drop 4 = (text.drop 2).drop 2 by rw [List.drop_drop], List.take_append_drop,
      List.take_append_drop]
  have hmonths : ((text.drop 2).take 2).length = 2 := by simp [h.length]
  have hdays : (text.drop 4).length = 2 := by simp [h.length]
  have hvalue := congrArg digitsValue hsplit
  rw [digitsValue_append, digitsValue_append, List.length_append, hmonths, hdays, ← h.month,
    ← h.day] at hvalue
  have hyear := h.year
  omega

theorem YYMMDD.year_lt {text : Bytes} {d : Date} (h : YYMMDD text d) : d.year < 2100 := by
  have hlt := digitsValue_lt fun b hb => h.digits b (List.mem_of_mem_take (i := 2) hb)
  have hlen : (text.take 2).length = 2 := by simp [h.length]
  rw [hlen] at hlt
  have hyear := h.year
  omega

/-- The date as the library has it. -/
def YYMMDD.gregDate {text : Bytes} {d : Date} (h : YYMMDD text d) : GregDate where
  toDate := d
  year_ge := by
    have hyear := h.year
    omega
  year_le := by
    have hyear := h.year_lt
    omega

theorem daysInMonth_le (year month : ℕ) : daysInMonth year month ≤ 31 := by
  rw [daysInMonth]
  split_ifs <;> omega

/-- A date of the library is what its numbers give. -/
theorem dateType_self (d : GregDate) : dateType d.year d.month d.day = .ok d := by
  have hy : ((d.year : ℤ) % 65536).toNat = d.year := by
    have := d.year_le
    omega
  have hm : ((d.month : ℤ) % 65536).toNat = d.month := by
    have := d.month_le
    omega
  have hd : ((d.day : ℤ) % 65536).toNat = d.day := by
    have := d.day_le.trans (daysInMonth_le d.year d.month)
    omega
  simp only [dateType, hy, hm, hd]
  rw [dif_pos ⟨⟨d.year_ge, d.year_le⟩, ⟨d.month_pos, d.month_le⟩, d.day_pos, d.day_le⟩]

/-- **The division of the number gives the date that the digits name.** -/
theorem tmdir_of_yymmdd {text : Bytes} {d : Date} (h : YYMMDD text d) :
    tmdir text = .ok h.gregDate := by
  have hne : text ≠ [] := by
    rintro rfl
    simpa using h.length
  have hvalue := h.value
  have hyear := h.year_lt
  have hmonth := d.month_le
  have hmonth' := d.month_pos
  have hday := d.day_le.trans (daysInMonth_le d.year d.month)
  have hday' := d.day_pos
  have hyear' := h.year
  have hmax : (digitsValue text : ℤ) ≤ Int32.maxValue.toInt := by
    have : Int32.maxValue.toInt = 2147483647 := by decide
    omega
  have hint : (Int32.ofInt (digitsValue text)).toInt = digitsValue text := by
    refine Int32.toInt_ofInt_of_le ?_ ?_ <;> omega
  have hdaydiv : (digitsValue text : ℤ).tmod 100 = d.day := by
    rw [Int.tmod_eq_emod_of_nonneg (by omega)]
    omega
  have hyeardiv : (digitsValue text : ℤ).tdiv 10000 = d.year - 2000 := by
    rw [Int.tdiv_eq_ediv_of_nonneg (by omega)]
    omega
  have hmonthdiv :
      ((digitsValue text : ℤ) - (d.year - 2000) * 10000 - d.day).tdiv 100 = d.month := by
    rw [Int.tdiv_eq_ediv_of_nonneg (by omega)]
    omega
  have hstoi := stoi_digits hne h.digits hmax
  simp only [tmdir, hstoi, bind, Except.bind, hint, hdaydiv, hyeardiv, hmonthdiv,
    Int.sub_add_cancel]
  exact dateType_self h.gregDate

/-! ### One entry -/

/-- What the code gets for the date in the name, an exception included. -/
def DirEntry.ReadsAs (x : DirEntry) (r : Except StdException GregDate) : Prop :=
  x.name.head? = some 71 ∧ ∃ text, afterLast 95 x.name = some text ∧ tmdir text = r

/-- The file system answers both questions about the entry. -/
structure DirEntry.Answers (x : DirEntry) : Prop where
  lastWriteTime : ∃ v, x.lastWriteTime = .ok v
  removeAll : ∃ n, x.removeAll = .ok n

/-- The scan ends at the entry: its time cannot be read, the text after the last
`_` is no date, or it cannot be removed. -/
def Stops (t : DateInt) (now : GregDate) (x : DirEntry) : Prop :=
  (∃ e, x.lastWriteTime = .error e) ∨ (∃ e, x.ReadsAs (.error e)) ∨
    ∃ d e, x.ReadsAs (.ok d) ∧ older t now d = true ∧ x.removeAll = .error e

theorem DatedName.readsAs {x : DirEntry} {d : Date} (h : DatedName x.name d) :
    ∃ g : GregDate, g.toDate = d ∧ x.ReadsAs (.ok g) := by
  obtain ⟨front, text, hname, htext, hhead, hdate⟩ := h
  exact ⟨hdate.gregDate, rfl, hhead, text, hname ▸ afterLast_split htext, tmdir_of_yymmdd hdate⟩

theorem DirEntry.ReadsAs.unique {x : DirEntry} {r r' : Except StdException GregDate}
    (h : x.ReadsAs r) (h' : x.ReadsAs r') : r = r' := by
  obtain ⟨-, text, htext, hr⟩ := h
  obtain ⟨-, text', htext', hr'⟩ := h'
  rw [htext, Option.some.injEq] at htext'
  rw [← hr, ← hr', htext']

variable {t : DateInt} {now : GregDate}

/-- The body of the loop throws exactly at the entries that stop the scan. -/
theorem cleanEntry_error_iff {x : DirEntry} :
    (∃ e, cleanEntry t now x = .error e) ↔ Stops t now x := by
  unfold cleanEntry Stops DirEntry.ReadsAs
  rcases hw : x.lastWriteTime with e | v
  · simp [bind, Except.bind]
  · by_cases hg : x.name.head? = some 71
    · rcases ha : afterLast 95 x.name with - | text
      · simp [bind, Except.bind, hg, pure, Except.pure]
      · rcases hd : tmdir text with e | d
        · simp [bind, Except.bind, hg, hd]
        · by_cases ho : older t now d = true
          · rcases hr : x.removeAll with e | n
            · simp [bind, Except.bind, hg, hd, ho]
            · simp [bind, Except.bind, hg, hd, ho, pure, Except.pure]
          · simp [bind, Except.bind, hg, hd, ho, pure, Except.pure]
    · simp [bind, Except.bind, hg, pure, Except.pure]

/-- The entries that the body of the loop removes. -/
theorem cleanEntry_true_iff {x : DirEntry} :
    cleanEntry t now x = .ok true ↔
      x.Answers ∧ ∃ d, x.ReadsAs (.ok d) ∧ older t now d = true := by
  unfold cleanEntry
  constructor
  · intro h
    rcases hw : x.lastWriteTime with e | v
    · simp [hw, bind, Except.bind] at h
    · by_cases hg : x.name.head? = some 71
      · rcases ha : afterLast 95 x.name with - | text
        · simp [hw, hg, ha, bind, Except.bind, pure, Except.pure] at h
        · rcases hd : tmdir text with e | d
          · simp [hw, hg, ha, hd, bind, Except.bind] at h
          · by_cases ho : older t now d = true
            · rcases hr : x.removeAll with e | n
              · simp [hw, hg, ha, hd, ho, hr, bind, Except.bind] at h
              · exact ⟨⟨⟨v, hw⟩, n, hr⟩, d, ⟨hg, text, ha, hd⟩, ho⟩
            · simp [hw, hg, ha, hd, ho, bind, Except.bind, pure, Except.pure] at h
      · simp [hw, hg, bind, Except.bind, pure, Except.pure] at h
  · rintro ⟨⟨⟨v, hw⟩, n, hr⟩, d, ⟨hg, text, ha, hd⟩, ho⟩
    simp [hw, hg, ha, hd, ho, hr, bind, Except.bind, pure, Except.pure]

/-! ### The scan -/

theorem cleanLoop_subset {xs : List DirEntry} {n : Bytes} (h : n ∈ (cleanLoop t now xs).1) :
    n ∈ xs.map DirEntry.name := by
  induction xs with
  | nil => simp [cleanLoop] at h
  | cons x xs ih =>
    rw [cleanLoop] at h
    rcases hx : cleanEntry t now x with e | removed
    · simp [hx] at h
    · cases removed with
      | false =>
        simp only [hx, Bool.false_eq_true, ↓reduceIte] at h
        exact List.mem_cons_of_mem _ (ih h)
      | true =>
        simp only [hx, ↓reduceIte, List.mem_cons] at h
        rcases h with rfl | h
        · simp
        · exact List.mem_cons_of_mem _ (ih h)

/-- An entry is removed when the body of the loop removes it and no entry before
it stops the scan. -/
theorem mem_cleanLoop_iff {pre : List DirEntry} {x : DirEntry} {post : List DirEntry}
    (hnodup : ((pre ++ x :: post).map DirEntry.name).Nodup) :
    x.name ∈ (cleanLoop t now (pre ++ x :: post)).1 ↔
      cleanEntry t now x = .ok true ∧ ∀ y ∈ pre, ¬ Stops t now y := by
  induction pre with
  | nil =>
    have hnot : x.name ∉ (cleanLoop t now post).1 := by
      intro h
      rw [List.nil_append, List.map_cons, List.nodup_cons] at hnodup
      exact hnodup.1 (cleanLoop_subset h)
    rw [List.nil_append, cleanLoop]
    rcases hx : cleanEntry t now x with e | removed
    · simp
    · cases removed <;> simp [hnot]
  | cons y pre ih =>
    rw [List.cons_append, List.map_cons, List.nodup_cons] at hnodup
    have hne : x.name ≠ y.name := by
      intro h
      exact hnodup.1 (h ▸ List.mem_map_of_mem (by simp))
    have hrest := ih hnodup.2
    have hstop := @cleanEntry_error_iff t now y
    rw [List.cons_append, cleanLoop]
    rcases hy : cleanEntry t now y with e | removed
    · have hstops : Stops t now y := hstop.mp ⟨e, hy⟩
      simp [hstops]
    · have hgoes : ¬ Stops t now y := by
        rw [← hstop, hy]
        simp
      cases removed <;> simp [hgoes, hne, hrest]

/-- With little space the loop runs, and the path is refreshed if it ends. -/
theorem freeStorage_low {available : UInt64} {minDiskStorage : Int32} {root : StorageRoot}
    (hlow : ((available.toNat / 2 ^ 30 : ℕ) : ℤ) < minDiskStorage.toInt) :
    freeStorage t available minDiskStorage now root =
      ⟨(cleanLoop t now root.entries).1, (cleanLoop t now root.entries).2,
        (cleanLoop t now root.entries).2.isNone⟩ := by
  have hmax := minDiskStorage.toInt_lt
  have hmod : minDiskStorage.toInt % 2 ^ 64 = minDiskStorage.toInt :=
    Int.emod_eq_of_lt (by omega) (by omega)
  rw [freeStorage, hmod, if_pos hlow]

theorem freeStorage_removed {available : UInt64} {minDiskStorage : Int32} {root : StorageRoot}
    (hlow : ((available.toNat / 2 ^ 30 : ℕ) : ℤ) < minDiskStorage.toInt) :
    (freeStorage t available minDiskStorage now root).removed =
      (cleanLoop t now root.entries).1 := by
  rw [freeStorage_low hlow]

/-! ### The comparison -/

/-- A date before today is older by the code when it lies more than 345600 days
before. -/
theorem older_iff {d : GregDate} (h : d.dayNumber ≤ now.dayNumber) :
    older t now d = true ↔ d.MoreThanDaysBefore 345600 now.toDate := by
  have hnow := Date.dayNumber_bounds now.year_ge now.year_le
  have hd := Date.dayNumber_bounds d.year_ge d.year_le
  have hfirst : Date.monthStart 1400 1 = 2232399 := by decide
  have hlast : Date.monthStart (9999 + 1) 1 = 5373484 := by decide
  rw [Date.moreThanDaysBefore_iff]
  cases t with
  | long =>
    rw [older, DateInt.exceeds_long, days4, GregDate.modjulianDay, GregDate.modjulianDay]
    omega
  | uint32 =>
    rw [older, DateInt.exceeds_uint32, days4, GregDate.modjulianDay, GregDate.modjulianDay]
    omega

/-! ### When the scan follows the rule -/

/-- Every entry that the rule names lies more than 345600 days back, the file
system answers about it, and no entry listed before it stops the scan; and what
the scan reaches besides is not older than that by the code's comparison. -/
structure ScanFits (t : DateInt) (now : GregDate) (root : StorageRoot) : Prop where
  expired : ∀ {pre x post d}, root.entries = pre ++ x :: post → DatedName x.name d →
    d.MoreThanDaysBefore 4 now.toDate →
    d.MoreThanDaysBefore 345600 now.toDate ∧ x.Answers ∧ ∀ y ∈ pre, ¬ Stops t now y
  others : ∀ {pre x post d}, root.entries = pre ++ x :: post → ¬ Expired now.toDate x.name →
    (∀ y ∈ pre, ¬ Stops t now y) → x.Answers → x.ReadsAs (.ok d) → older t now d = false

/-- An entry that the rule names is removed when its date lies more than 345600
days back. -/
theorem cleanEntry_expired_iff {x : DirEntry} {d : Date} (h : DatedName x.name d)
    (hd : d.MoreThanDaysBefore 4 now.toDate) :
    cleanEntry t now x = .ok true ↔ x.Answers ∧ d.MoreThanDaysBefore 345600 now.toDate := by
  obtain ⟨g, rfl, hread⟩ := h.readsAs
  have hle : g.dayNumber ≤ now.dayNumber := by
    have hlt := Date.moreThanDaysBefore_iff.mp hd
    omega
  rw [cleanEntry_true_iff, ← older_iff (t := t) hle]
  constructor
  · rintro ⟨hans, g', hread', hold⟩
    have heq := hread.unique hread'
    rw [Except.ok.injEq] at heq
    exact ⟨hans, heq ▸ hold⟩
  · rintro ⟨hans, hold⟩
    exact ⟨hans, g, hread, hold⟩

/-- **When the scan follows the rule**: with little free space exactly the
entries that the rule names are removed if and only if the scan fits. -/
theorem freeStorage_followsRule_iff {available : UInt64} {minDiskStorage : Int32}
    {root : StorageRoot}
    (hlow : ((available.toNat / 2 ^ 30 : ℕ) : ℤ) < minDiskStorage.toInt) :
    FollowsRule now.toDate root (freeStorage t available minDiskStorage now root) ↔
      ScanFits t now root := by
  have hmem : ∀ {pre x post}, root.entries = pre ++ x :: post →
      (x.name ∈ (freeStorage t available minDiskStorage now root).removed ↔
        cleanEntry t now x = .ok true ∧ ∀ y ∈ pre, ¬ Stops t now y) := by
    intro pre x post hsplit
    rw [freeStorage_removed hlow, hsplit]
    exact mem_cleanLoop_iff (hsplit ▸ root.nodup)
  constructor
  · intro hrule
    constructor
    · intro pre x post d hsplit hname hd
      have hremoved := (hrule x (by simp [hsplit])).mpr ⟨d, hname, hd⟩
      obtain ⟨htrue, hpre⟩ := (hmem hsplit).mp hremoved
      obtain ⟨hans, hold⟩ := (cleanEntry_expired_iff hname hd).mp htrue
      exact ⟨hold, hans, hpre⟩
    · intro pre x post d hsplit hnot hpre hans hread
      by_contra hold
      have htrue := cleanEntry_true_iff.mpr ⟨hans, d, hread, (Bool.not_eq_false _).mp hold⟩
      exact hnot ((hrule x (by simp [hsplit])).mp ((hmem hsplit).mpr ⟨htrue, hpre⟩))
  · rintro ⟨hexpired, hothers⟩ x hx
    obtain ⟨pre, post, hsplit⟩ := List.append_of_mem hx
    rw [hmem hsplit]
    by_cases hrule : Expired now.toDate x.name
    · obtain ⟨d, hname, hd⟩ := hrule
      obtain ⟨hold, hans, hpre⟩ := hexpired hsplit hname hd
      exact iff_of_true ⟨(cleanEntry_expired_iff hname hd).mpr ⟨hans, hold⟩, hpre⟩ ⟨d, hname, hd⟩
    · refine iff_of_false ?_ hrule
      rintro ⟨htrue, hpre⟩
      obtain ⟨hans, d, hread, hold⟩ := cleanEntry_true_iff.mp htrue
      rw [hothers hsplit hrule hpre hans hread] at hold
      exact absurd hold (by decide)

/-- A date of the library from its three numbers. -/
def gregDate (year month day : ℕ) (h : (1400 ≤ year ∧ year ≤ 9999) ∧ (1 ≤ month ∧ month ≤ 12) ∧
    1 ≤ day ∧ day ≤ daysInMonth year month) : GregDate where
  toDate := ⟨year, month, day, h.2.1.1, h.2.1.2, h.2.2.1, h.2.2.2⟩
  year_ge := h.1.1
  year_le := h.1.2

def jan2000 : GregDate := gregDate 2000 1 1 (by decide)

def jan2024 : GregDate := gregDate 2024 1 10 (by decide)

def jan3000 : GregDate := gregDate 3000 1 1 (by decide)

/-- A directory of one night. -/
def oneNight (night : String) (h : lit ("G021_" ++ night) ≠ []) : StorageRoot where
  entries := [⟨lit ("G021_" ++ night), h, .ok 0, .ok 1⟩]
  nodup := by simp

/-- A thousand years later a directory of the year 2000 is removed, as the rule
says. -/
theorem freeStorage_followsRule_jan3000 :
    FollowsRule jan3000.toDate (oneNight "000101" (by decide))
      (freeStorage .long 0 500 jan3000 (oneNight "000101" (by decide))) := by
  have hdate : YYMMDD (lit "000101") jan2000.toDate :=
    ⟨by decide, List.all_eq_true.mp (by decide), by decide, by decide, by decide⟩
  have hdays : jan2000.MoreThanDaysBefore 345600 jan3000.toDate := by
    rw [Date.moreThanDaysBefore_iff]
    decide
  have hname : DatedName (lit "G021_000101") jan2000.toDate :=
    ⟨lit "G021", lit "000101", by decide, by decide, by decide, hdate⟩
  refine (freeStorage_followsRule_iff (by decide)).mpr ⟨?_, ?_⟩
  · intro pre x post d hsplit hname' _
    cases pre with
    | cons y pre => simp [oneNight] at hsplit
    | nil =>
      obtain ⟨rfl, -⟩ := List.cons.inj hsplit
      obtain ⟨g, rfl, hread⟩ := hname'.readsAs
      have hread' : DirEntry.ReadsAs ⟨lit "G021_000101", by decide, .ok 0, .ok 1⟩ (.ok jan2000) :=
        ⟨by decide, lit "000101", by decide, tmdir_of_yymmdd hdate⟩
      obtain rfl := Except.ok.inj (hread.unique hread')
      exact ⟨hdays, ⟨⟨0, rfl⟩, 1, rfl⟩, by simp⟩
  · intro pre x post d hsplit hnot
    cases pre with
    | cons y pre => simp [oneNight] at hsplit
    | nil =>
      obtain ⟨rfl, -⟩ := List.cons.inj hsplit
      refine absurd ⟨jan2000.toDate, hname, ?_⟩ hnot
      rw [Date.moreThanDaysBefore_iff]
      decide

/-- Nine days after the night its directory stays. -/
theorem freeStorage_keeps_expired :
    ¬ ∃ t : DateInt, ∀ (available : UInt64) (minDiskStorage : Int32) (now : GregDate)
      (root : StorageRoot), ((available.toNat / 2 ^ 30 : ℕ) : ℤ) < minDiskStorage.toInt →
      FollowsRule now.toDate root (freeStorage t available minDiskStorage now root) := by
  rintro ⟨t, h⟩
  have hrule := h 0 500 jan2024 (oneNight "240101" (by decide)) (by decide)
    ⟨lit "G021_240101", by decide, .ok 0, .ok 1⟩ (by simp [oneNight])
  have hexpired : Expired jan2024.toDate (lit "G021_240101") := by
    refine ⟨⟨2024, 1, 1, by decide, by decide, by decide, by decide⟩, ?_, ?_⟩
    · refine ⟨lit "G021", lit "240101", by decide, by decide, by decide, ?_⟩
      exact ⟨by decide, List.all_eq_true.mp (by decide), by decide, by decide, by decide⟩
    · rw [Date.moreThanDaysBefore_iff]
      decide
  have hkept : (freeStorage t 0 500 jan2024 (oneNight "240101" (by decide))).removed = [] := by
    cases t <;> decide +kernel
  rw [hkept] at hrule
  exact List.not_mem_nil (hrule.mpr hexpired)

end FtServer
