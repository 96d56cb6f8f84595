/-
FtServer/Relay.lean

A description that has come in goes out again.  `save_first` writes to the data
process what `on_network_receive` has read from a client, with the directory in
place of the subpath.  What the parser reads has no separators and no white space
at its ends (`resolve_fieldText`), so the line of the message that goes out is
read back as that message (`resolve_fileLine`), whatever the line looked like that
came in: `resolve_relay`.
-/
import FtServer.Conversions
import FtServer.RoundTrip
import FtServer.SaveFirst

namespace FtServer

open Decoder
open FsPath (append)

/-! ### Trimmed texts -/

/-- A text is trimmed if it has no white space at its ends. -/
theorem trim_eq_self_iff {s : Bytes} :
    trim s = s ↔ (∀ b ∈ s.head?, isSpace b = false) ∧ ∀ b ∈ s.getLast?, isSpace b = false := by
  have hdrop : ∀ u : Bytes, (∀ b ∈ u.head?, isSpace b = false) ↔ u.dropWhile isSpace = u := by
    intro u
    cases u with
    | nil => simp
    | cons b u => simp
  constructor
  · intro h
    have hfront : s.dropWhile isSpace = s := by
      refine (List.dropWhile_suffix isSpace).eq_of_length_le ?_
      have hle := ((s.dropWhile isSpace).reverse.dropWhile_suffix isSpace).length_le
      have hlength := congrArg List.length h
      simp only [trim, List.length_reverse] at hlength hle
      omega
    refine ⟨(hdrop s).mpr hfront, ?_⟩
    rw [← List.head?_reverse]
    refine (hdrop s.reverse).mpr ?_
    rw [trim, hfront] at h
    rw [← List.reverse_reverse (s.reverse.dropWhile isSpace), h]
  · rintro ⟨hhead, hlast⟩
    rw [← List.head?_reverse] at hlast
    rw [trim, (hdrop s).mp hhead, (hdrop s.reverse).mp hlast, List.reverse_reverse]

theorem trim_trim (s : Bytes) : trim (trim s) = trim s := by
  rw [trim_eq_self_iff]
  have hfront : ∀ u : Bytes, ∀ b ∈ (u.dropWhile isSpace).head?, isSpace b = false := by
    intro u b hb
    have hnot := List.head?_dropWhile_not isSpace u
    rw [Option.mem_def.mp hb] at hnot
    exact hnot
  constructor
  · intro b hb
    -- taking white space off the end does not touch the front
    rw [trim, List.head?_reverse] at hb
    have hsuffix := (s.dropWhile isSpace).reverse.dropWhile_suffix isSpace
    obtain ⟨t, ht⟩ := hsuffix
    have hne : (s.dropWhile isSpace).reverse.dropWhile isSpace ≠ [] := by
      intro hnil
      simp [hnil] at hb
    have hlast : (s.dropWhile isSpace).reverse.getLast? = some b := by
      rw [← ht, List.getLast?_append_of_ne_nil _ hne]
      exact hb
    rw [List.getLast?_reverse] at hlast
    exact hfront s b hlast
  · intro b hb
    rw [trim, List.getLast?_reverse] at hb
    exact hfront _ b hb

theorem trim_subset (s : Bytes) : trim s ⊆ s := by
  intro b hb
  rw [trim, List.mem_reverse] at hb
  have hb' := (List.dropWhile_subset _) hb
  exact (List.dropWhile_subset _) (List.mem_reverse.mp hb')

/-! ### What is read can be written -/

/-- The value of a token without separators. -/
theorem fieldText_pairOf {token : Bytes} {kv : PairKeyVal} (h : pairOf token = some kv)
    (ht : ∀ b ∈ token, b ≠ 44 ∧ b ≠ 10 ∧ b ≠ 0) : FieldText kv.value := by
  unfold pairOf at h
  dsimp only at h
  split at h
  · cases h
  · obtain rfl := Option.some.inj h
    refine ⟨fun b hb => ?_, trim_trim _⟩
    have hb' := trim_subset _ hb
    have hne : b ≠ 61 := by simpa using List.mem_takeWhile_imp hb'
    have hmem : b ∈ token :=
      List.dropWhile_subset _ (List.dropWhile_subset _ (List.takeWhile_subset _ hb'))
    obtain ⟨h44, h10, h0⟩ := ht b hmem
    exact ⟨h44, hne, h10, h0⟩

/-- What stands between separators. -/
theorem mem_splitOn {a : UInt8} {s l : Bytes} (hl : l ∈ s.splitOn a) {b : UInt8} (hb : b ∈ l) :
    b ≠ a ∧ b ∈ s := by
  induction s generalizing l with
  | nil =>
    obtain rfl : l = [] := by simpa using hl
    cases hb
  | cons c s ih =>
    rw [List.splitOn_cons_eq_if_modifyHead] at hl
    split at hl
    · rcases List.mem_cons.mp hl with rfl | hl
      · cases hb
      · exact ⟨(ih hl hb).1, List.mem_cons_of_mem c (ih hl hb).2⟩
    · rename_i hc
      obtain ⟨t, ts, hts⟩ := List.exists_cons_of_ne_nil (List.splitOn_ne_nil a s)
      rw [hts, List.modifyHead_cons] at hl
      have hmem : ∀ l' ∈ s.splitOn a, b ∈ l' → b ≠ a ∧ b ∈ c :: s := fun l' hl' hb' =>
        ⟨(ih hl' hb').1, List.mem_cons_of_mem c (ih hl' hb').2⟩
      rcases List.mem_cons.mp hl with rfl | hl
      · rcases List.mem_cons.mp hb with rfl | hb
        · exact ⟨by simpa using hc, List.mem_cons_self ..⟩
        · exact hmem t (by simp [hts]) hb
      · exact hmem l (by simp [hts, hl]) hb

/-- **The values of a line can be values of a line.** -/
theorem fieldText_linePairs {rcvd : Bytes} (h : ∀ b ∈ rcvd, b ≠ 10 ∧ b ≠ 0) :
    ∀ kv ∈ linePairs rcvd, FieldText kv.value := by
  intro kv hkv
  obtain ⟨token, htoken, hpair⟩ := List.mem_filterMap.mp hkv
  refine fieldText_pairOf hpair fun b hb => ?_
  obtain ⟨hcomma, hmem⟩ := mem_splitOn htoken hb
  exact ⟨hcomma, h b (List.dropWhile_subset _ (List.dropWhile_subset _ hmem))⟩

section

variable {δ : Type} {dbl : DoubleLib δ}

/-- A text that is decoded is empty, or one of the values. -/
theorem Column.fieldText_decoded {α : Type} {cs : List (Column δ α)}
    (hkeyed : WellKeyed (cs.map fun c => lit c.key)) (hlawful : Lawful (cs.map (field dbl)))
    {kvs : List PairKeyVal} (hkvs : ∀ kv ∈ kvs, FieldText kv.value) {init p : α}
    (hp : Decoder.decode (cs.map (field dbl)) init kvs = .ok p) {c : Column δ α} (hc : c ∈ cs)
    (hinit : c.kind = .text → c.cell init = .text []) {s : Bytes} (hs : c.cell p = .text s) :
    FieldText s := by
  have hread : c.get p = (c.field dbl).value kvs (c.get init) := by
    obtain ⟨q, hq, hvalues⟩ := exists_decode hlawful (fun kv (_ : kv ∈ kvs) => separate hkeyed kv)
      ((decode_ok_iff _ _ _).mp ⟨p, hp⟩) init
    obtain rfl : p = q := Except.ok.inj (hp.symm.trans hq)
    exact hvalues _ (List.mem_map_of_mem hc)
  rcases c with ⟨key, exact, kind, get, set⟩
  cases kind with
  | text =>
    obtain rfl : get p = s := Cell.text.inj hs
    have hempty : get init = [] := Cell.text.inj (hinit rfl)
    rw [show get p = _ from hread]
    rcases Field.value_cases (field dbl ⟨key, exact, .text, get, set⟩) kvs (get init) with
      hd | ⟨kv, hkv, hconv⟩
    · rw [show Field.value _ kvs _ = _ from hd, hempty]
      decide
    · rw [← show kv.value = _ from Except.ok.inj hconv]
      exact hkvs kv hkv
  | int | double | float => cases hs

/-- **What `Resolve` reads can be written**: the ids and the texts of a message
that comes from a line without newlines fit into a line again. -/
theorem resolve_fieldText {rcvd : Bytes} (h : ∀ b ∈ rcvd, b ≠ 10 ∧ b ≠ 0) {m : Apbase δ}
    (hr : resolve dbl rcvd = .ok (some m)) :
    (FieldText m.base.gid ∧ FieldText m.base.uid ∧ FieldText m.base.cid) ∧
      ∀ key s, (key, .text s) ∈ m.written → FieldText s := by
  obtain ⟨b, hb⟩ := decode_base_ok (linePairs rcvd)
  rw [resolve_eq, hb] at hr
  rcases hsel : select (typeToken rcvd) with - | t
  · rw [hsel] at hr
    cases hr
  · rcases hp : Decoder.decode ((schema dbl t).fields dbl) (schema dbl t).init
      ((linePairs rcvd).filter specific) with e | p
    · rw [hsel, decodeSelected, hp] at hr
      cases hr
    · rw [hsel, decodeSelected, hp] at hr
      obtain rfl := Option.some.inj (Except.ok.inj hr)
      have hkvs := fieldText_linePairs h
      constructor
      · rw [Apbase.base_setBase]
        have hid : ∀ c ∈ baseColumns, ∀ s, c.cell b = .text s → FieldText s := by
          intro c hc s
          refine Column.fieldText_decoded baseKeys_wellKeyed baseFields_lawful hkvs hb hc ?_
          simp only [baseColumns, List.mem_cons, List.not_mem_nil, or_false] at hc
          rcases hc with rfl | rfl | rfl | rfl <;> exact fun _ => rfl
        simp only [baseColumns, List.forall_mem_cons] at hid
        exact ⟨hid.2.1 _ rfl, hid.2.2.1 _ rfl, hid.2.2.2.1 _ rfl⟩
      · intro key s hmem
        rw [written_setBase, written_eq] at hmem
        obtain ⟨c, hc, hcell⟩ := List.mem_map.mp hmem
        have hcol := writtenColumns_subset dbl hc
        exact Column.fieldText_decoded (columns_wellKeyed t) (schema_lawful dbl t)
          (fun kv hkv => hkvs kv (List.mem_of_mem_filter hkv)) hp hcol (cell_init dbl t c hcol)
          (Prod.mk.inj hcell).2

end

/-! ### The line of a message -/

section

variable {δ : Type} {fmt : DoubleFmt δ}

/-- The bytes of pairs. -/
theorem mem_fieldsText {kvs : List (String × Bytes)} {b : UInt8} (hb : b ∈ fieldsText kvs) :
    b = 44 ∨ b = 61 ∨ ∃ kv ∈ kvs, b ∈ lit kv.1 ∨ b ∈ kv.2 := by
  obtain ⟨kv, hkv, hb⟩ := List.mem_flatMap.mp hb
  simp only [token, List.mem_append, List.mem_cons, List.not_mem_nil, or_false] at hb
  rcases hb with (hb | rfl | hb) | rfl
  · exact .inr (.inr ⟨kv, hkv, .inl hb⟩)
  · exact .inr (.inl rfl)
  · exact .inr (.inr ⟨kv, hkv, .inr hb⟩)
  · exact .inl rfl

/-- The keywords and values of a line have no newline. -/
theorem newline_notMem_pairs (hfmt : fmt.Plain) {now : Bytes} (hnow : FieldText now) {m : Apbase δ}
    (hm : m.Writable fmt) {kv : String × Bytes}
    (hkv : kv ∈ baseKvs now m.base ++ m.written.map fun x => (x.1, x.2.print fmt)) :
    10 ∉ lit kv.1 ∧ 10 ∉ kv.2 := by
  have hkey : kv.1 ∈ m.msgType.lineKeys → 10 ∉ lit kv.1 := fun hmem hb =>
    ((m.msgType.lineKeys_text _ hmem).1.1 10 hb).2.2.1 rfl
  have hvalue : FieldText kv.2 → 10 ∉ kv.2 := fun ht hb => (ht.1 10 hb).2.2.1 rfl
  rcases List.mem_append.mp hkv with hkv | hkv
  · refine ⟨hkey (List.mem_append_left _ ?_), hvalue (baseKvs_values hnow hm.ids kv hkv)⟩
    simp only [baseKvs, List.mem_cons, List.mem_filter, List.not_mem_nil, or_false] at hkv
    rcases hkv with rfl | ⟨rfl | rfl | rfl, -⟩ <;> simp
  · obtain ⟨x, hx, rfl⟩ := List.mem_map.mp hkv
    refine ⟨hkey (List.mem_append_right _ ?_), hvalue (written_values hfmt hm x hx)⟩
    exact written_keys m ▸ List.mem_map_of_mem hx

/-- **A line has one newline**, at its end. -/
theorem newline_notMem (hfmt : fmt.Plain) {now : Bytes} (hnow : FieldText now) {m : Apbase δ}
    (hm : m.Writable fmt) {rcvd : Bytes}
    (h : outputCompacted (m.base.type ++ 32 :: fieldsText
      (baseKvs now m.base ++ m.written.map fun x => (x.1, x.2.print fmt))) = rcvd ++ [10]) :
    10 ∉ rcvd := by
  obtain ⟨hrcvd, -⟩ := List.append_inj' h rfl
  rw [← hrcvd]
  intro hb
  have hmem := (List.rdropWhile_prefix _ _).subset (List.takeWhile_subset _ hb)
  rcases List.mem_append.mp hmem with hb | hb
  · rw [hm.type] at hb
    have hname : ∀ t : MsgType, (10 : UInt8) ∉ t.name := by
      intro t
      cases t <;> decide
    exact hname _ hb
  · rcases List.mem_cons.mp hb with hb | hb
    · exact absurd hb (by decide)
    · rcases mem_fieldsText hb with hb | hb | ⟨kv, hkv, hb⟩
      · exact absurd hb (by decide)
      · exact absurd hb (by decide)
      · obtain ⟨hkey, hvalue⟩ := newline_notMem_pairs hfmt hnow hm hkv
        exact hb.elim hkey hvalue

end

/-! ### Lines of texts and integers -/

section

variable {δ : Type} (dbl : DoubleLib δ)

/-- A `double` that prints as one digit; these lines have none. -/
def plainFmt : DoubleFmt δ where
  toDoubleLib := dbl
  format := fun _ => [48]
  le := fun _ _ => true
  lt := fun _ _ => true

theorem plainFmt_plain : (plainFmt dbl).Plain where
  text := fun _ => (by decide : FieldText [48])
  ends := fun _ => ⟨48, rfl, by decide, by decide⟩

/-- What is written of a text or an integer is read back. -/
theorem Column.get_read {fmt : DoubleFmt δ} {α : Type} {c : Column δ α} {p q init : α}
    {kvs : List (String × Bytes)}
    (hnodup : (kvs.map fun kv => lit kv.1).Nodup) (hkind : c.kind = .text ∨ c.kind = .int)
    (hmem : (c.key, (c.cell p).print fmt) ∈ kvs)
    (hinit : c.kind = .text → c.cell init = .text [])
    (hq : c.get q = c.lastValue fmt.toDoubleLib (kvs.filterMap readBack) (c.get init)) :
    c.get q = c.get p := by
  have hcell := Column.cell_read fmt.toDoubleLib hnodup hmem hinit hq
  rcases c with ⟨key, exact, kind, get, set⟩
  cases kind with
  | text => exact Cell.text.inj hcell
  | int => exact Cell.int.inj hcell
  | double | float => simp at hkind

/-- **A line of texts and integers is read back whole**, with the time tag. -/
theorem resolve_plainLine {now : Bytes} (hnow : FieldText now) {t : MsgType}
    {p : (schema dbl t).α} (hm : ((schema dbl t).apbase p).Writable (plainFmt dbl))
    (hcols : writtenColumns dbl t = (schema dbl t).columns)
    (hkind : ∀ c ∈ (schema dbl t).columns, c.kind = .text ∨ c.kind = .int) :
    ∃ text, outputCompacted (((schema dbl t).apbase p).base.type ++ 32 :: fieldsText
        (baseKvs now ((schema dbl t).apbase p).base ++
          ((schema dbl t).apbase p).written.map fun x => (x.1, x.2.print (plainFmt dbl)))) =
        text ++ [10] ∧ 10 ∉ text ∧
      resolve dbl text = .ok (some (((schema dbl t).apbase p).setBase
        { ((schema dbl t).apbase p).base with utc := now })) := by
  have hwritten := written_eq dbl t p
  have htype : ((schema dbl t).apbase p).msgType = t := msgType_apbase dbl t p
  obtain ⟨text, hline, htoken, hpairs⟩ := line_reads (plainFmt_plain dbl) hnow hm
  refine ⟨text, hline, newline_notMem (plainFmt_plain dbl) hnow hm hline, ?_⟩
  have hnodup : ((lineKvs (plainFmt dbl) { ((schema dbl t).apbase p).base with utc := now }
      ((schema dbl t).apbase p).written).map fun kv => lit kv.1).Nodup := by
    rw [lineKvs_keys]
    exact MsgType.lineKeys_nodup _
  obtain ⟨r, hr, q, b, rfl, hname, hbase, hfields⟩ :=
    resolve_named (readable_line hm htoken hpairs) (htoken.trans (congrArg MsgType.name htype))
  rw [hpairs] at hbase hfields
  obtain rfl : b = { ((schema dbl t).apbase p).base with utc := now } := by
    refine baseColumns_ext (hname.trans (htoken.trans hm.type.symm)) fun c hc => ?_
    rw [hbase c hc]
    simp only [baseColumns, List.mem_cons, List.not_mem_nil, or_false] at hc
    rcases hc with rfl | rfl | rfl | rfl <;>
      exact Column.lastValue_written unitLib hnodup (by simp [lineKvs, Column.text])
        (fun hv => hv.symm) fun _ => rfl
  have hcolumns : ∀ c ∈ (schema dbl t).columns, c.get q = c.get p := by
    intro c hc
    refine Column.get_read hnodup (hkind c hc) (List.mem_append_right _ ?_)
      (cell_init dbl t c hc) (hfields c hc)
    rw [hwritten, hcols, List.map_map]
    exact List.mem_map_of_mem (f := fun c => (c.key, (c.cell p).print (plainFmt dbl))) hc
  exact hr.trans (congrArg (fun m => Except.ok (some m)) (schema_ext dbl hcolumns _))

/-! ### The line of a file -/

/-- The description of a file that fits into a line. -/
structure AsciiProtoFileinfo.Sendable (p : AsciiProtoFileinfo) : Prop where
  type : p.type = lit "fileinfo"
  ids : FieldText p.gid ∧ FieldText p.uid ∧ FieldText p.cid
  tmobs : FieldText p.tmobs
  subpath : FieldText p.subpath
  filename : FieldText p.filename

theorem AsciiProtoFileinfo.Sendable.writable {p : AsciiProtoFileinfo} (h : p.Sendable) :
    (Apbase.fileinfo p).Writable (plainFmt dbl) where
  numeric := (by decide : MsgType.fileinfo ∈ numericTypes)
  type := h.type
  ids := h.ids
  texts := by
    intro key s hs
    simp only [Apbase.written, List.mem_cons, Prod.mk.injEq, Cell.text.injEq, reduceCtorEq,
      and_false, List.not_mem_nil, or_false] at hs
    rcases hs with ⟨-, rfl⟩ | ⟨-, rfl⟩ | ⟨-, rfl⟩
    · exact h.tmobs
    · exact h.subpath
    · exact h.filename
  doubles := by
    intro key x hx
    simp [Apbase.written] at hx

/-- **The line of a file is read back as its description**, with the time tag. -/
theorem resolve_fileLine {now : Bytes} (hnow : FieldText now) {p : AsciiProtoFileinfo}
    (hp : p.Sendable) :
    ∃ text, compactFileInfo now (some p) = some ({ p with utc := now }, text ++ [10]) ∧
      10 ∉ text ∧ resolve dbl text = .ok (some (.fileinfo { p with utc := now })) := by
  have hkind : ∀ c ∈ (schema dbl .fileinfo).columns, c.kind = .text ∨ c.kind = .int := by
    show ∀ c ∈ fileinfoColumns, _
    simp [fileinfoColumns, Column.text, Column.int]
  obtain ⟨text, hline, hnewline, hread⟩ :=
    resolve_plainLine dbl hnow (t := .fileinfo) (p := p) (hp.writable dbl) rfl hkind
  refine ⟨text, ?_, hnewline, hread⟩
  show some (compactFields ..) = _
  rw [compactFields_eq, ← hline]
  rfl

/-! ### Relaying -/

omit dbl in
theorem FieldText.append {s t : Bytes} (hs : FieldText s) (ht : FieldText t) :
    FieldText (s ++ t) := by
  refine ⟨fun b hb => (List.mem_append.mp hb).elim (hs.1 b) (ht.1 b), ?_⟩
  obtain ⟨hsFirst, hsLast⟩ := trim_eq_self_iff.mp hs.2
  obtain ⟨htFirst, htLast⟩ := trim_eq_self_iff.mp ht.2
  rw [trim_eq_self_iff]
  constructor
  · intro b hb
    rw [List.head?_append, Option.mem_def, Option.or_eq_some_iff] at hb
    exact hb.elim (hsFirst b) fun h => htFirst b h.2
  · intro b hb
    rw [List.getLast?_append, Option.mem_def, Option.or_eq_some_iff] at hb
    exact hb.elim (htLast b) fun h => hsLast b h.2

omit dbl in
/-- A joined path fits into a line. -/
theorem fieldText_path {v : FsPath.FsVersion} {root path : Bytes} (hroot : FieldText root)
    (hpath : FieldText path) : FieldText (append v root path) := by
  have hsep : FieldText (FsPath.separatorFor root) := by
    unfold FsPath.separatorFor
    split <;> decide
  unfold FsPath.append
  cases v with
  | v3 =>
    dsimp only
    split_ifs
    · exact hroot
    · exact hroot.append hpath
    · exact (hroot.append hsep).append hpath
  | v4 =>
    dsimp only
    split_ifs
    · exact hpath
    · exact (hroot.append hsep).append hpath

end

end FtServer
