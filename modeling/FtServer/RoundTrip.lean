/-
FtServer/RoundTrip.lean

What an encoder writes, the parser reads back.  `Apbase.written` lists, for the
messages whose line ends with a number, the fields that their encoder writes, in
order.  `compact_eq` connects the list to the encoders, `written_eq` to the
tables of the parser, and `resolve_compact` is the round trip: the message that
is read from a line has the type, the common items and the texts and integers of
the message that was written.

What a stream prints for a `double` is a parameter; `DoubleFmt.Plain` is what
the round trip relies on.
-/
import Mathlib.Data.List.Nodup
import FtServer.Lines

namespace FtServer

open Decoder

/-! ### Fields that are written -/

/-- The value of a field. -/
inductive Cell (δ : Type)
  | text (s : Bytes)
  | int (n : Int32)
  | double (x : δ)
  deriving DecidableEq, Repr

namespace Cell

variable {δ : Type}

def print (fmt : DoubleFmt δ) : Cell δ → Bytes
  | text s => s
  | int n => printInt n
  | double x => fmt.format x

/-- Everything but the value of a `double`. -/
def erase : Cell δ → Cell Unit
  | text s => .text s
  | int n => .int n
  | double _ => .double ()

end Cell

/-- The types whose encoder takes a message and writes a number last. -/
def numericTypes : List MsgType :=
  [.obsite, .homeSync, .slewto, .mount, .fwhm, .focus, .takeImage, .object, .camera, .fileinfo,
    .filestat]

section

variable {δ : Type} (dbl : DoubleLib δ) (fmt : DoubleFmt δ)

/-- The fields that the encoders of these types write, in order. -/
def Apbase.written : Apbase δ → List (String × Cell δ)
  | .obsite p => [("sitename", .text p.sitename), ("longitude", .double p.lon),
      ("latitude", .double p.lat), ("altitude", .double p.alt), ("timezone", .int p.timezone)]
  | .homeSync p => [("ra", .double p.ra), ("dec", .double p.dec)]
  | .slewto p => [("coorsys", .int p.coorsys), ("coor1", .double p.coor1),
      ("coor2", .double p.coor2)]
  | .mount p => [("state", .int p.state), ("errcode", .int p.errcode), ("ra", .double p.ra),
      ("dec", .double p.dec), ("azi", .double p.azi), ("alt", .double p.alt)]
  | .fwhm p => [("value", .double p.value)]
  | .focus p => [("value", .int p.value)]
  | .takeImage p => [("objname", .text p.objname), ("imgtype", .text p.imgtype),
      ("expdur", .double p.expdur), ("frmcnt", .int p.frmcnt)]
  | .object p => [("plan_type", .int p.plan_type), ("plan_sn", .text p.plan_sn),
      ("objname", .text p.objname), ("btime", .text p.btime), ("etime", .text p.etime),
      ("imgtype", .text p.imgtype), ("sabbr", .text p.sabbr), ("iimgtyp", .int p.iimgtyp),
      ("expdur", .double p.expdur), ("frmcnt", .int p.frmcnt)]
  | .camera p => [("state", .int p.state), ("errcode", .int p.errcode),
      ("coolget", .double p.coolget)]
  | .fileinfo p => [("tmobs", .text p.tmobs), ("subpath", .text p.subpath),
      ("filename", .text p.filename), ("filesize", .int p.filesize)]
  | .filestat p => [("status", .int p.status)]
  | _ => []

/-- Their keywords. -/
def MsgType.written : MsgType → List String
  | .obsite => ["sitename", "longitude", "latitude", "altitude", "timezone"]
  | .homeSync => ["ra", "dec"]
  | .slewto => ["coorsys", "coor1", "coor2"]
  | .mount => ["state", "errcode", "ra", "dec", "azi", "alt"]
  | .fwhm => ["value"]
  | .focus => ["value"]
  | .takeImage => ["objname", "imgtype", "expdur", "frmcnt"]
  | .object => ["plan_type", "plan_sn", "objname", "btime", "etime", "imgtype", "sabbr", "iimgtyp",
      "expdur", "frmcnt"]
  | .camera => ["state", "errcode", "coolget"]
  | .fileinfo => ["tmobs", "subpath", "filename", "filesize"]
  | .filestat => ["status"]
  | _ => []

/-- What a stream prints for a `double` is a text that can be a value, and it
ends in a letter or a digit. -/
structure DoubleFmt.Plain : Prop where
  text : ∀ x, FieldText (fmt.format x)
  ends : ∀ x, EndsPlain (fmt.format x)

/-- A message that can be written: the type is the one the constructor puts, the
texts fit into a line, and what is printed for a `double` converts. -/
structure Apbase.Writable (m : Apbase δ) : Prop where
  numeric : m.msgType ∈ numericTypes
  type : m.base.type = m.msgType.name
  ids : FieldText m.base.gid ∧ FieldText m.base.uid ∧ FieldText m.base.cid
  texts : ∀ key s, (key, .text s) ∈ m.written → FieldText s
  doubles : ∀ key x, (key, .double x) ∈ m.written → ∃ y, fmt.stod (fmt.format x) = .ok y

/-! ### Encoders and tables -/

/-- **What the encoders write.** -/
theorem compact_eq {now : Bytes} {m m' : Apbase δ} {line : Bytes}
    (hnum : m.msgType ∈ numericTypes) (h : m.compact fmt now = some (m', line)) :
    m' = m.setBase { m.base with utc := now } ∧
      line = outputCompacted (m.base.type ++ 32 ::
        fieldsText (baseKvs now m.base ++ m.written.map fun x => (x.1, x.2.print fmt))) := by
  have hfields : ∀ {β : Type} {base : AsciiProtoBase} {setBase : AsciiProtoBase → β}
      {f : β → Apbase δ} {kvs : List (String × Bytes)},
      some (Prod.map f id (compactFields now base setBase kvs)) = some (m', line) →
        m' = f (setBase { base with utc := now }) ∧
          line = outputCompacted (base.type ++ 32 :: fieldsText (baseKvs now base ++ kvs)) := by
    intro β base setBase f kvs hs
    rw [compactFields_eq] at hs
    obtain ⟨rfl, rfl⟩ := Prod.mk.inj (Option.some.inj hs)
    exact ⟨rfl, rfl⟩
  cases m with
  | obsite | slewto | mount | fwhm | takeImage | camera | fileinfo | filestat => exact hfields h
  | homeSync | focus | object =>
    -- `NULL` is no line
    simp only [Apbase.compact, compactHomeSync, compactFocus, compactObject, Option.bind_eq_bind,
      Option.bind_some] at h
    split at h
    all_goals first | exact hfields h | cases h
  | _ => simp [Apbase.msgType, numericTypes] at hnum

variable {α : Type}

/-- The value of a column. -/
def Column.cell (c : Column δ α) (p : α) : Cell δ :=
  match c.kind, c.get p with
  | .text, s => .text s
  | .int, n => .int n
  | .double, x => .double x
  | .float, x => .double x

/-- The columns that are written, in order. -/
def writtenColumns (t : MsgType) : List (Column δ (schema dbl t).α) :=
  t.written.filterMap fun k => (schema dbl t).columns.find? (·.key == k)

/-- The fields that are written are columns of the table. -/
theorem written_eq (t : MsgType) (p : (schema dbl t).α) :
    ((schema dbl t).apbase p).written = (writtenColumns dbl t).map fun c => (c.key, c.cell p) := by
  cases t <;> rfl

theorem written_setBase (b : AsciiProtoBase) (m : Apbase δ) :
    (m.setBase b).written = m.written := by
  cases m <;> rfl

/-- The constructors leave the texts empty. -/
theorem cell_init (t : MsgType) :
    ∀ c ∈ (schema dbl t).columns, c.kind = .text → c.cell (schema dbl t).init = .text [] := by
  rw [← List.forall_iff_forall_mem]
  cases t <;> simp [schema, Column.text, Column.int, Column.double, Column.float, Column.exactly,
      obsiteColumns, homesyncColumns, slewtoColumns, trackColumns, mountColumns, fwhmColumns,
      focusColumns, slitColumns, rainColumns, takeimgColumns, objectColumns, exposeColumns,
      cameraColumns, fileinfoColumns, filestatColumns, Column.cell]

/-- The fields of any message. -/
theorem exists_columns (m : Apbase δ) :
    ∃ p, m = (schema dbl m.msgType).apbase p ∧
      m.written = (writtenColumns dbl m.msgType).map fun c => (c.key, c.cell p) := by
  have hp : ∃ p, m = (schema dbl m.msgType).apbase p := by
    cases m <;> exact ⟨_, rfl⟩
  obtain ⟨p, hp⟩ := hp
  exact ⟨p, hp, (congrArg Apbase.written hp).trans (written_eq dbl m.msgType p)⟩

theorem writtenColumns_subset {t : MsgType} {c : Column δ (schema dbl t).α}
    (h : c ∈ writtenColumns dbl t) : c ∈ (schema dbl t).columns := by
  obtain ⟨k, -, hk⟩ := List.mem_filterMap.mp h
  exact List.mem_of_find?_eq_some hk

theorem written_keys (m : Apbase δ) : m.written.map (·.1) = m.msgType.written := by
  cases m <;> rfl

/-- The last field is a number. -/
theorem written_last {m : Apbase δ} (hnum : m.msgType ∈ numericTypes) :
    ∃ x, m.written.getLast? = some x ∧ ∀ s, x.2 ≠ .text s := by
  cases m <;> first
    | exact ⟨_, rfl, nofun⟩
    | simp [Apbase.msgType, numericTypes] at hnum

/-- The keywords of a line. -/
def MsgType.lineKeys (t : MsgType) : List String := ["utc", "gid", "uid", "cid"] ++ t.written

theorem MsgType.lineKeys_text (t : MsgType) : ∀ k ∈ t.lineKeys, KeyText k := by
  cases t <;> decide +kernel

theorem MsgType.lineKeys_nodup (t : MsgType) : (t.lineKeys.map lit).Nodup := by
  cases t <;> decide

/-! ### Reading back -/

variable {fmt}

/-- A pair that is read is one of a keyword that is written, with its value. -/
theorem exists_of_mem_readBack {kvs : List (String × Bytes)} {pair : PairKeyVal}
    (h : pair ∈ kvs.filterMap readBack) :
    ∃ kv ∈ kvs, kv.2 ≠ [] ∧ pair = ⟨lit kv.1, kv.2⟩ := by
  obtain ⟨kv, hkv, hback⟩ := List.mem_filterMap.mp h
  unfold readBack at hback
  split at hback
  · cases hback
  · rename_i hv
    exact ⟨kv, hkv, hv, (Option.some.inj hback).symm⟩

/-- Empty values make no difference. -/
theorem filterMap_readBack_filter (kvs : List (String × Bytes)) :
    (kvs.filter (·.2 ≠ [])).filterMap readBack = kvs.filterMap readBack := by
  induction kvs with
  | nil => rfl
  | cons kv kvs ih =>
    by_cases hv : kv.2 = []
    · rw [List.filter_cons_of_neg (by simp [hv]), ih, List.filterMap_cons, readBack, if_pos hv]
    · rw [List.filter_cons_of_pos (by simp [hv]), List.filterMap_cons, ih, List.filterMap_cons]

/-- The pair of a keyword that is written once. -/
theorem filter_readBack {kvs : List (String × Bytes)}
    (hnodup : (kvs.map fun kv => lit kv.1).Nodup) {key : String} {v : Bytes}
    (hmem : (key, v) ∈ kvs) :
    (kvs.filterMap readBack).filter (·.keyword = lit key) = (readBack (key, v)).toList := by
  induction kvs with
  | nil => cases hmem
  | cons kv kvs ih =>
    obtain ⟨hkey, hnodup⟩ := List.nodup_cons.mp hnodup
    have hother : ∀ x ∈ kvs, lit x.1 ≠ lit kv.1 := fun x hx h => hkey (List.mem_map.mpr ⟨x, hx, h⟩)
    rcases List.mem_cons.mp hmem with rfl | hmem
    · -- no other pair has the keyword
      have hrest : (kvs.filterMap readBack).filter (·.keyword = lit key) = [] := by
        rw [List.filter_eq_nil_iff]
        intro pair hpair
        obtain ⟨x, hx, -, rfl⟩ := exists_of_mem_readBack hpair
        simpa using hother x hx
      rw [List.filterMap_cons]
      by_cases hv : v = []
      · simpa [readBack, hv] using hrest
      · simpa [readBack, hv] using hrest
    · have hne : lit kv.1 ≠ lit key := (hother (key, v) hmem).symm
      rw [List.filterMap_cons, ← ih hnodup hmem]
      by_cases hv : kv.2 = []
      · simp [readBack, hv]
      · simp [readBack, hv, hne]

/-- The value that is read for a column that is written. -/
theorem Column.lastValue_written {c : Column δ α} {kvs : List (String × Bytes)}
    (hnodup : (kvs.map fun kv => lit kv.1).Nodup) {v : Bytes} (hmem : (c.key, v) ∈ kvs)
    {d y : c.kind.type δ} (hempty : v = [] → d = y)
    (hconv : v ≠ [] → c.kind.conv dbl v = .ok y) :
    c.lastValue dbl (kvs.filterMap readBack) d = y := by
  rw [lastValue, filter_readBack hnodup hmem, readBack]
  by_cases hv : v = []
  · simpa [hv] using hempty hv
  · simp [hv, hconv hv]

/-- What is read for a column is what was written, up to a `double`. -/
theorem Column.cell_read {c : Column δ α} {p q init : α} {kvs : List (String × Bytes)}
    (hnodup : (kvs.map fun kv => lit kv.1).Nodup)
    (hmem : (c.key, (c.cell p).print fmt) ∈ kvs)
    (hinit : c.kind = .text → c.cell init = .text [])
    (hq : c.get q = c.lastValue dbl (kvs.filterMap readBack) (c.get init)) :
    (c.cell q).erase = (c.cell p).erase := by
  rcases c with ⟨key, exact, kind, get, set⟩
  cases kind with
  | text =>
    have hget : get q = get p := hq.trans <|
      Column.lastValue_written (c := ⟨key, exact, .text, get, set⟩) dbl hnodup hmem
        (fun hv => (Cell.text.inj (hinit rfl)).trans hv.symm) fun _ => rfl
    exact congrArg Cell.text hget
  | int =>
    have hget : get q = get p := hq.trans <|
      Column.lastValue_written (c := ⟨key, exact, .int, get, set⟩) dbl hnodup hmem
        (fun hv => absurd hv (printInt_ne_nil _)) fun _ => stoi_printInt _
    exact congrArg Cell.int hget
  | double => rfl
  | float => rfl

/-! ### The round trip -/

/-- The pairs of a line, with the ids that are not set. -/
def lineKvs (fmt : DoubleFmt δ) (base : AsciiProtoBase) (fields : List (String × Cell δ)) :
    List (String × Bytes) :=
  [("utc", base.utc), ("gid", base.gid), ("uid", base.uid), ("cid", base.cid)] ++
    fields.map fun x => (x.1, x.2.print fmt)

theorem filterMap_lineKvs (now : Bytes) (base : AsciiProtoBase) (fields : List (String × Cell δ)) :
    (baseKvs now base ++ fields.map fun x => (x.1, x.2.print fmt)).filterMap readBack =
      (lineKvs fmt { base with utc := now } fields).filterMap readBack := by
  rw [lineKvs, List.filterMap_append, List.filterMap_append, baseKvs, List.filterMap_cons,
    filterMap_readBack_filter, ← List.filterMap_cons]

theorem baseKvs_values {base : AsciiProtoBase} {now : Bytes} (hnow : FieldText now)
    (hids : FieldText base.gid ∧ FieldText base.uid ∧ FieldText base.cid) :
    ∀ kv ∈ baseKvs now base, FieldText kv.2 := by
  intro kv hkv
  simp only [baseKvs, List.mem_cons, List.mem_filter, List.not_mem_nil, or_false] at hkv
  rcases hkv with rfl | ⟨rfl | rfl | rfl, -⟩
  · exact hnow
  · exact hids.1
  · exact hids.2.1
  · exact hids.2.2

theorem written_values (hfmt : fmt.Plain) {m : Apbase δ} (hm : m.Writable fmt) :
    ∀ x ∈ m.written, FieldText (x.2.print fmt) := by
  rintro ⟨key, cell⟩ hx
  cases cell with
  | text s => exact hm.texts key s hx
  | int n => exact fieldText_printInt n
  | double x => exact hfmt.text x

theorem MsgType.name_bytes (t : MsgType) : ∀ b ∈ t.name, b ≠ 32 ∧ b ≠ 0 := by
  have hall : ∀ t : MsgType, (t.name.all fun b => b ≠ 32 ∧ b ≠ 0) = true := by
    intro t
    cases t <;> decide
  simpa using hall t

/-- The text of a line is read as its pairs. -/
theorem line_reads (hfmt : fmt.Plain) {now : Bytes} (hnow : FieldText now) {m : Apbase δ}
    (hm : m.Writable fmt) :
    ∃ rcvd, outputCompacted (m.base.type ++ 32 :: fieldsText
        (baseKvs now m.base ++ m.written.map fun x => (x.1, x.2.print fmt))) = rcvd ++ [10] ∧
      typeToken rcvd = m.msgType.name ∧
      linePairs rcvd =
        (lineKvs fmt { m.base with utc := now } m.written).filterMap readBack := by
  obtain ⟨x, hx, hnumber⟩ := written_last hm.numeric
  obtain ⟨fs, hfs⟩ := List.getLast?_eq_some_iff.mp hx
  have hkeys : ∀ kv ∈ baseKvs now m.base ++ m.written.map fun x => (x.1, x.2.print fmt),
      KeyText kv.1 := by
    intro kv hkv
    refine m.msgType.lineKeys_text kv.1 ?_
    rw [MsgType.lineKeys, ← written_keys m]
    rcases List.mem_append.mp hkv with hkv | hkv
    · refine List.mem_append_left _ ?_
      simp only [baseKvs, List.mem_cons, List.mem_filter, List.not_mem_nil, or_false] at hkv
      rcases hkv with rfl | ⟨rfl | rfl | rfl, -⟩ <;> simp
    · obtain ⟨x, hx, rfl⟩ := List.mem_map.mp hkv
      exact List.mem_append_right _ (List.mem_map_of_mem hx)
  have hvalues : ∀ kv ∈ baseKvs now m.base ++ m.written.map fun x => (x.1, x.2.print fmt),
      FieldText kv.2 := by
    intro kv hkv
    rcases List.mem_append.mp hkv with hkv | hkv
    · exact baseKvs_values hnow hm.ids kv hkv
    · obtain ⟨x, hx, rfl⟩ := List.mem_map.mp hkv
      exact written_values hfmt hm x hx
  have hlast : EndsPlain (x.2.print fmt) := by
    rcases x with ⟨key, cell⟩
    cases cell with
    | text s => exact absurd rfl (hnumber s)
    | int n => exact endsPlain_printInt n
    | double x => exact hfmt.ends x
  have hname := m.msgType.name_bytes
  -- the last pair apart
  rw [hfs, List.map_append, List.map_singleton, ← List.append_assoc] at hkeys hvalues
  refine ⟨m.msgType.name ++ 32 :: (fieldsText (baseKvs now m.base ++
    fs.map fun x => (x.1, x.2.print fmt)) ++ token (x.1, x.2.print fmt)), ?_, ?_⟩
  · rw [hm.type, hfs, List.map_append, List.map_singleton, ← List.append_assoc]
    exact outputCompacted_fields (fun b hb => (hname b hb).2) (fun kv hkv => (hkeys kv hkv).1)
      hvalues hlast
  · obtain ⟨htoken, hpairs⟩ := linePairs_line (fun b hb => (hname b hb).1) hkeys hvalues
    refine ⟨htoken, hpairs.trans ?_⟩
    rw [← filterMap_lineKvs, hfs, List.map_append, List.map_singleton, List.append_assoc]

theorem lineKvs_keys (base : AsciiProtoBase) (m : Apbase δ) :
    (lineKvs fmt base m.written).map (fun kv => lit kv.1) = m.msgType.lineKeys.map lit := by
  rw [MsgType.lineKeys, ← written_keys m, lineKvs]
  simp

/-- What is written for a column converts. -/
theorem Column.cell_conv {c : Column δ α} {p : α}
    (h : ∀ x, c.cell p = .double x → ∃ y, fmt.stod (fmt.format x) = .ok y) :
    ∃ y, c.kind.conv fmt.toDoubleLib ((c.cell p).print fmt) = .ok y := by
  rcases c with ⟨key, exact, kind, get, set⟩
  cases kind with
  | text => exact ⟨_, rfl⟩
  | int => exact ⟨_, stoi_printInt _⟩
  | double => exact h _ rfl
  | float =>
    obtain ⟨y, hy⟩ := h _ rfl
    exact ⟨fmt.toFloat y, by
      show (fmt.stod (fmt.format (get p))).map fmt.toFloat = _
      rw [hy]
      rfl⟩

/-- The numbers of a line convert. -/
theorem converts_line {now : Bytes} {m : Apbase δ} (hm : m.Writable fmt) :
    Converts fmt.toDoubleLib m.msgType.name
      ((lineKvs fmt { m.base with utc := now } m.written).filterMap readBack) := by
  intro t ht c hc pair hpair hkey
  obtain rfl : t = m.msgType := MsgType.name_injective ht.symm
  obtain ⟨p, -, hwritten⟩ := exists_columns fmt.toDoubleLib m
  obtain ⟨⟨key, v⟩, hkv, -, rfl⟩ := exists_of_mem_readBack hpair
  have hmemKeys : lit c.key ∈ m.msgType.keys :=
    schema_keys fmt.toDoubleLib m.msgType ▸ List.mem_map_of_mem hc
  rcases List.mem_append.mp hkv with hkv | hkv
  · -- a common item has another keyword
    refine absurd ?_ (m.msgType.keys_disjoint _ hmemKeys)
    rw [← hkey]
    simp only [List.mem_cons, Prod.mk.injEq, List.not_mem_nil, or_false] at hkv
    rcases hkv with ⟨rfl, -⟩ | ⟨rfl, -⟩ | ⟨rfl, -⟩ | ⟨rfl, -⟩ <;> (dsimp only; decide)
  · obtain ⟨⟨key', cell⟩, hx, hxv⟩ := List.mem_map.mp hkv
    obtain ⟨rfl, rfl⟩ := Prod.mk.inj hxv
    have hx' := hx
    rw [hwritten] at hx'
    obtain ⟨c', hc', hcell⟩ := List.mem_map.mp hx'
    obtain ⟨rfl, rfl⟩ := Prod.mk.inj hcell
    have hnodup := m.msgType.keys_wellKeyed.nodup
    rw [← schema_keys fmt.toDoubleLib] at hnodup
    obtain rfl : c' = c := List.inj_on_of_nodup_map hnodup
      (writtenColumns_subset fmt.toDoubleLib hc') hc hkey
    have hdouble : ∀ x, c'.cell p = .double x → ∃ y, fmt.stod (fmt.format x) = .ok y := by
      intro x hcell
      rw [hcell] at hx
      exact hm.doubles c'.key x hx
    exact Column.cell_conv hdouble

/-- What has the token and the pairs of a line can be read. -/
theorem readable_line {now rcvd : Bytes} {m : Apbase δ} (hm : m.Writable fmt)
    (htoken : typeToken rcvd = m.msgType.name)
    (hpairs : linePairs rcvd =
      (lineKvs fmt { m.base with utc := now } m.written).filterMap readBack) :
    Readable fmt.toDoubleLib rcvd where
  type := htoken ▸ m.msgType.name_lower
  keywords := fun pair hpair => by
    rw [hpairs] at hpair
    obtain ⟨kv, hkv, -, rfl⟩ := exists_of_mem_readBack hpair
    have hkey : lit kv.1 ∈ m.msgType.lineKeys.map lit :=
      lineKvs_keys _ m ▸ List.mem_map_of_mem (f := fun kv => lit kv.1) hkv
    obtain ⟨key, hmem, hlit⟩ := List.mem_map.mp hkey
    exact hlit ▸ (m.msgType.lineKeys_text key hmem).2.2.1
  converts := by
    rw [htoken, hpairs]
    exact converts_line hm

/-- The same type, the same common items, and the same texts and integers among
the fields that are written. -/
structure Apbase.Agrees (m m' : Apbase δ) : Prop where
  msgType : m.msgType = m'.msgType
  base : m.base = m'.base
  written : (m.written.map fun x => (x.1, x.2.erase)) = m'.written.map fun x => (x.1, x.2.erase)

/-- **Round trip**: the encoder of a message that can be written sets its time and
nothing else, and its line, without the newline, is read as a message that agrees with
the one encoded. -/
theorem resolve_compact (hfmt : fmt.Plain) {now : Bytes} (hnow : FieldText now)
    {m m' : Apbase δ} {line : Bytes} (hm : m.Writable fmt)
    (h : m.compact fmt now = some (m', line)) :
    m' = m.setBase { m.base with utc := now } ∧
      ∃ rcvd r, line = rcvd ++ [10] ∧ resolve fmt.toDoubleLib rcvd = .ok (some r) ∧
        r.Agrees (m.setBase { m.base with utc := now }) := by
  obtain ⟨rfl, rfl⟩ := compact_eq fmt hm.numeric h
  obtain ⟨rcvd, hline, htoken, hpairs⟩ := line_reads hfmt hnow hm
  obtain ⟨r, hr, p', b', rfl, htype, hbase, hfields⟩ :=
    resolve_named (readable_line hm htoken hpairs) htoken
  have hnodup : ((lineKvs fmt { m.base with utc := now } m.written).map
      fun kv => lit kv.1).Nodup := by
    rw [lineKvs_keys]
    exact m.msgType.lineKeys_nodup
  rw [hpairs] at hbase hfields
  refine ⟨rfl, rcvd, _, hline, hr, ?_, ?_, ?_⟩
  · rw [msgType_setBase, msgType_apbase, msgType_setBase]
  · rw [Apbase.base_setBase, Apbase.base_setBase]
    refine baseColumns_ext (htype.trans (htoken.trans hm.type.symm)) fun c hc => ?_
    rw [hbase c hc]
    simp only [baseColumns, List.mem_cons, List.not_mem_nil, or_false] at hc
    rcases hc with rfl | rfl | rfl | rfl <;>
      exact Column.lastValue_written unitLib hnodup (by simp [lineKvs, Column.text])
        (fun hv => hv.symm) fun _ => rfl
  · obtain ⟨p, -, hwritten⟩ := exists_columns fmt.toDoubleLib m
    rw [written_setBase, written_setBase, written_eq, hwritten, List.map_map, List.map_map]
    refine List.map_congr_left fun c hc => congrArg (Prod.mk c.key) ?_
    have hcol := writtenColumns_subset fmt.toDoubleLib hc
    have hkv :
        (c.key, (c.cell p).print fmt) ∈ lineKvs fmt { m.base with utc := now } m.written := by
      refine List.mem_append_right _ (List.mem_map.mpr ⟨(c.key, c.cell p), ?_, rfl⟩)
      rw [hwritten]
      exact List.mem_map_of_mem hc
    exact Column.cell_read fmt.toDoubleLib hnodup hkv (cell_init fmt.toDoubleLib m.msgType c hcol)
      (hfields c hcol)

end

/-- A `double` that has integer values only; they print and convert like integers. -/
def intFmt : DoubleFmt Int32 where
  stod := stoi
  literal := Int32.ofInt
  toFloat := id
  format := printInt
  le := fun x y => decide (x ≤ y)
  lt := fun x y => decide (x < y)

/-- The site of an observatory. -/
def site : Apbase Int32 :=
  .obsite
    { type := lit "obsite"
      gid := lit "001"
      sitename := lit "Xinglong"
      lon := 117
      lat := 40
      alt := 900
      timezone := -8 }

theorem resolve_compact_site : ∃ m' line rcvd r,
    site.compact intFmt (lit "2019-09-23T12:00:00") = some (m', line) ∧ line = rcvd ++ [10] ∧
      resolve intFmt.toDoubleLib rcvd = .ok (some r) ∧
      r.Agrees (site.setBase { site.base with utc := lit "2019-09-23T12:00:00" }) := by
  have hfmt : intFmt.Plain := ⟨fieldText_printInt, endsPlain_printInt⟩
  have hsite : site.Writable intFmt :=
    { numeric := by decide
      type := rfl
      ids := by decide +kernel
      texts := fun key s h => by
        simp only [site, Apbase.written, List.mem_cons, Prod.mk.injEq, Cell.text.injEq,
          reduceCtorEq, and_false, List.not_mem_nil, or_false] at h
        rw [h.2]
        decide +kernel
      doubles := fun _ x _ => ⟨x, stoi_printInt x⟩ }
  obtain ⟨⟨m', line⟩, h⟩ : ∃ x, site.compact intFmt (lit "2019-09-23T12:00:00") = some x :=
    ⟨_, rfl⟩
  obtain ⟨-, rcvd, r, hline, hr, hagree⟩ := resolve_compact hfmt (by decide +kernel) hsite h
  exact ⟨m', line, rcvd, r, h, hline, hr, hagree⟩

end FtServer
