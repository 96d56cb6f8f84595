/-
FtServer/Reading.lean

The reference reading of a line.  The type token names a type; every field of
its record, common or not, has the converted value of the last pair for it, or
the value the constructor puts there.  `ReadsAs` states this of a message,
without the tree of comparisons, the loops and the split of the common items.

For lines in lower case whose numbers convert, `resolve_reading` shows that
`Resolve` returns the message that reads as the line, and a null pointer exactly
if the token names no type; the order of the tokens does not matter, except
among those of one keyword, and neither do tokens that are no items of the
message.
-/
import FtServer.Tokens

namespace FtServer

open Decoder

/-! ### Lower case -/

/-- No upper case letter. -/
def LowerCase (s : Bytes) : Prop := ∀ b ∈ s, ¬ (65 ≤ b ∧ b ≤ 90)

instance (s : Bytes) : Decidable (LowerCase s) :=
  List.decidableBAll (fun b => ¬ (65 ≤ b ∧ b ≤ 90)) s

theorem toUpper_inj {b c : UInt8} (hb : ¬ (65 ≤ b ∧ b ≤ 90)) (hc : ¬ (65 ≤ c ∧ c ≤ 90))
    (h : toUpper b = toUpper c) : b = c := by
  unfold toUpper at h
  grind

/-- In lower case the comparison without regard to case is equality. -/
theorem iequals_iff_eq {s t : Bytes} (hs : LowerCase s) (ht : LowerCase t) :
    iequals s t = true ↔ s = t := by
  rw [iequals, beq_iff_eq]
  constructor
  · intro h
    induction s generalizing t with
    | nil => simpa using h
    | cons b s ih =>
      cases t with
      | nil => simp at h
      | cons c t =>
        obtain ⟨hb, hs⟩ := List.forall_mem_cons.mp hs
        obtain ⟨hc, ht⟩ := List.forall_mem_cons.mp ht
        obtain ⟨hbc, hst⟩ := List.cons.inj h
        rw [toUpper_inj hb hc hbc, ih hs ht hst]
  · rintro rfl
    rfl

/-- What one text equals without regard to case is equal in that way. -/
theorem iequals_of_iequals {s k l : Bytes} (hk : iequals s k = true) (hl : iequals s l = true) :
    iequals k l = true := by
  rw [iequals, beq_iff_eq] at hk hl ⊢
  exact hk.symm.trans hl

/-! ### Names of types -/

theorem select_name (t : MsgType) : select t.name = some t := by
  cases t <;> decide

/-- Types have different names. -/
theorem MsgType.name_injective {t u : MsgType} (h : t.name = u.name) : t = u := by
  have hsel := select_name t
  rw [h, select_name] at hsel
  exact (Option.some.inj hsel).symm

theorem MsgType.name_lower (t : MsgType) : LowerCase t.name := by
  cases t <;> decide +kernel

/-- The tree finds types by their names. -/
theorem select_iequals {type : Bytes} {t : MsgType} (h : select type = some t) :
    iequals type t.name = true := by
  have hall : ∀ t : MsgType, select type = some t → iequals type t.name = true := by
    simp only [select]
    repeat'
      refine iteInduction
        (motive := fun o => ∀ t : MsgType, o = some t → iequals type t.name = true)
        (fun _ => ?_) fun _ => ?_
    all_goals first | (rintro _ ⟨⟩; assumption) | nofun
  exact hall t h

/-- In lower case the tree finds exactly the name. -/
theorem select_eq_some_iff {type : Bytes} (hl : LowerCase type) {t : MsgType} :
    select type = some t ↔ type = t.name := by
  constructor
  · intro h
    exact (iequals_iff_eq hl t.name_lower).mp (select_iequals h)
  · rintro rfl
    exact select_name t

/-! ### Keywords -/

/-- The keywords of a type, which do not depend on the type `double`. -/
def MsgType.keys (t : MsgType) : List Bytes :=
  (schema unitLib t).columns.map fun c => lit c.key

def baseKeys : List Bytes := baseColumns.map fun c => lit c.key

/-- The keywords of a table are in lower case and differ. -/
structure WellKeyed (keys : List Bytes) : Prop where
  lower : ∀ k ∈ keys, LowerCase k
  nodup : keys.Nodup

theorem baseKeys_wellKeyed : WellKeyed baseKeys := by
  constructor <;> decide +kernel

theorem MsgType.keys_wellKeyed (t : MsgType) : WellKeyed t.keys := by
  constructor <;> cases t <;> decide +kernel

/-- No type has a field with the keyword of a common item. -/
theorem MsgType.keys_disjoint (t : MsgType) : ∀ k ∈ t.keys, k ∉ baseKeys := by
  cases t <;> decide

namespace Column

variable {δ α : Type}

/-- In lower case a column accepts exactly its keyword. -/
theorem accepts_iff {c : Column δ α} {kv : PairKeyVal} (hc : LowerCase (lit c.key))
    (hkv : LowerCase kv.keyword) : c.accepts kv = true ↔ kv.keyword = lit c.key := by
  rw [accepts]
  split
  · rw [iequalsTail, Bool.and_eq_true, iequals_iff_eq hkv hc]
    constructor
    · exact And.right
    · intro h
      exact ⟨by rw [h, beq_self_eq_true], h⟩
  · exact iequals_iff_eq hkv hc

/-- The converted value of the last pair with the keyword of the column, or `d`
if there is none. -/
def lastValue (dbl : DoubleLib δ) (c : Column δ α) (kvs : List PairKeyVal) (d : c.kind.type δ) :
    c.kind.type δ :=
  match (kvs.filter (·.keyword = lit c.key)).getLast? with
  | none => d
  | some kv =>
    match c.kind.conv dbl kv.value with
    | .ok y => y
    | .error _ => d

/-- Whatever the first letter, the keyword is accepted without regard to case
only. -/
theorem iequals_of_accepts {c : Column δ α} {kv : PairKeyVal} (h : c.accepts kv = true) :
    iequals kv.keyword (lit c.key) = true := by
  rw [accepts] at h
  split at h
  · exact (Bool.and_eq_true_iff.mp h).2
  · exact h

/-- A pair has one column at most. -/
theorem separate {cs : List (Column δ α)} (h : WellKeyed (cs.map fun c => lit c.key))
    (kv : PairKeyVal) : Separate (cs.map (field dbl)) kv := by
  have hne : cs.Pairwise fun c d => lit c.key ≠ lit d.key := List.pairwise_map.mp h.nodup
  refine List.pairwise_map.mpr (hne.imp_of_mem fun {c d} hc hd hcd hacc => ?_)
  rw [← Bool.not_eq_true]
  intro hdacc
  have hkeys := iequals_of_iequals (iequals_of_accepts hacc) (iequals_of_accepts hdacc)
  exact hcd ((iequals_iff_eq (h.lower _ (List.mem_map_of_mem hc))
    (h.lower _ (List.mem_map_of_mem hd))).mp hkeys)

/-- A pair is refused by no table in which its value converts. -/
theorem not_refuses {cs : List (Column δ α)} {kv : PairKeyVal}
    (hconv : ∀ c ∈ cs, c.accepts kv = true → ∃ y, c.kind.conv dbl kv.value = .ok y) :
    refuses (cs.map (field dbl)) kv = false := by
  induction cs with
  | nil => rfl
  | cons c cs ih =>
    rw [List.map_cons, refuses]
    split
    · rename_i hacc
      obtain ⟨y, hy⟩ := hconv c List.mem_cons_self hacc
      simp [field, hy]
    · exact ih fun d hd => hconv d (List.mem_cons_of_mem _ hd)

/-- The value of a field is the last value of its column. -/
theorem value_eq_lastValue {c : Column δ α} (hc : LowerCase (lit c.key)) {kvs : List PairKeyVal}
    (hkvs : ∀ kv ∈ kvs, LowerCase kv.keyword) (d : c.kind.type δ) :
    (c.field dbl).value kvs d = c.lastValue dbl kvs d := by
  have hfilter : kvs.filter c.accepts = kvs.filter (·.keyword = lit c.key) :=
    List.filter_congr fun kv hkv => by
      rw [Bool.eq_iff_iff, accepts_iff hc (hkvs kv hkv), decide_eq_true_iff]
  unfold Field.value Field.last lastValue
  rw [show kvs.filter (c.field dbl).accepts = _ from hfilter]
  generalize (kvs.filter (·.keyword = lit c.key)).getLast? = kv?
  cases kv? with
  | none => rfl
  | some kv =>
    cases hconv : c.kind.conv dbl kv.value <;> simp [field, hconv]

end Column

/-! ### The reference reading -/

section

variable {δ : Type} (dbl : DoubleLib δ)

/-- The class of the object. -/
def Apbase.msgType : Apbase δ → MsgType
  | .reg _ => .reg
  | .start _ => .start
  | .stop _ => .stop
  | .obsite _ => .obsite
  | .homeSync _ => .homeSync
  | .slewto _ => .slewto
  | .track _ => .track
  | .park _ => .park
  | .abortSlew _ => .abortSlew
  | .mount _ => .mount
  | .rain _ => .rain
  | .focus _ => .focus
  | .slit _ => .slit
  | .fwhm _ => .fwhm
  | .takeImage _ => .takeImage
  | .abortImage _ => .abortImage
  | .object _ => .object
  | .expose _ => .expose
  | .camera _ => .camera
  | .fileinfo _ => .fileinfo
  | .filestat _ => .filestat

/-- The message is the reading of a line with this type token and these pairs,
as type `t`: it is an object of the class of `t`, its type is the token, and each
field has the last value for it. -/
def ReadsAs (t : MsgType) (type : Bytes) (kvs : List PairKeyVal) (m : Apbase δ) : Prop :=
  ∃ p b, m = ((schema dbl t).apbase p).setBase b ∧ b.type = type ∧
    (∀ c ∈ baseColumns, c.get b = c.lastValue unitLib kvs (c.get { type := [] })) ∧
    ∀ c ∈ (schema dbl t).columns, c.get p = c.lastValue dbl kvs (c.get (schema dbl t).init)

/-- Every number of the type that the token names converts. -/
def Converts (type : Bytes) (kvs : List PairKeyVal) : Prop :=
  ∀ t : MsgType, type = t.name → ∀ c ∈ (schema dbl t).columns, ∀ kv ∈ kvs,
    kv.keyword = lit c.key → ∃ y, c.kind.conv dbl kv.value = .ok y

/-- Type token and keywords are in lower case, and the numbers convert. -/
structure Readable (rcvd : Bytes) : Prop where
  type : LowerCase (typeToken rcvd)
  keywords : ∀ kv ∈ linePairs rcvd, LowerCase kv.keyword
  converts : Converts dbl (typeToken rcvd) (linePairs rcvd)

/-! ### The tables are complete and their fields do not interfere -/

theorem baseFields_lawful : Lawful baseFields := by
  repeat' first
    | exact .nil
    | refine .cons ?_ (fun _ _ _ => rfl) (fun _ => rfl) (fun _ _ => rfl) ?_
    | exact fun _ h => (List.not_mem_nil h).elim
    | refine List.forall_mem_cons.mpr ⟨⟨fun _ _ _ => rfl, fun _ _ => rfl⟩, ?_⟩

theorem schema_lawful (t : MsgType) : Lawful ((schema dbl t).fields dbl) := by
  cases t <;>
    repeat' first
      | exact .nil
      | refine .cons ?_ (fun _ _ _ => rfl) (fun _ => rfl) (fun _ _ => rfl) ?_
      | exact fun _ h => (List.not_mem_nil h).elim
      | refine List.forall_mem_cons.mpr ⟨⟨fun _ _ _ => rfl, fun _ _ => rfl⟩, ?_⟩

/-- The table of a type has all its fields: objects that agree on them differ in
the base class only. -/
theorem schema_ext {t : MsgType} {p q : (schema dbl t).α}
    (h : ∀ c ∈ (schema dbl t).columns, c.get p = c.get q) (b : AsciiProtoBase) :
    ((schema dbl t).apbase p).setBase b = ((schema dbl t).apbase q).setBase b := by
  have hall := List.forall_iff_forall_mem.mpr h
  cases t <;> cases p <;> cases q <;>
    simp only [schema, Column.text, Column.int, Column.double, Column.float, Column.exactly,
      obsiteColumns, homesyncColumns, slewtoColumns, trackColumns, mountColumns, fwhmColumns,
      focusColumns, slitColumns, rainColumns, takeimgColumns, objectColumns, exposeColumns,
      cameraColumns, fileinfoColumns, filestatColumns, List.forall_cons, List.Forall] at hall <;>
    simp only [schema, Apbase.setBase, hall]

theorem baseColumns_ext {b b' : AsciiProtoBase} (ht : b.type = b'.type)
    (h : ∀ c ∈ baseColumns, c.get b = c.get b') : b = b' := by
  simp [baseColumns, Column.text] at h
  cases b
  cases b'
  simp_all

theorem msgType_setBase (b : AsciiProtoBase) (m : Apbase δ) :
    (m.setBase b).msgType = m.msgType := by
  cases m <;> rfl

theorem msgType_apbase (t : MsgType) (p : (schema dbl t).α) :
    ((schema dbl t).apbase p).msgType = t := by
  cases t <;> rfl

theorem schema_keys (t : MsgType) : (schema dbl t).columns.map (fun c => lit c.key) = t.keys := by
  cases t <;> rfl

/-! ### The parser reads -/

variable {dbl}

/-- The fields can be read off the message. -/
theorem get_eq_of_setBase_eq {t : MsgType} {p q : (schema dbl t).α} {b : AsciiProtoBase}
    (h : ((schema dbl t).apbase p).setBase b = ((schema dbl t).apbase q).setBase b) :
    ∀ c ∈ (schema dbl t).columns, c.get p = c.get q := by
  have hget : (schema dbl t).columns.Forall fun c => c.get p = c.get q := by
    cases t <;> cases p <;> cases q <;> simp only [schema, Apbase.setBase] at h <;> cases h <;>
      simp [schema, Column.text, Column.int, Column.double, Column.float, Column.exactly,
        obsiteColumns, homesyncColumns, slewtoColumns, trackColumns, mountColumns, fwhmColumns,
        focusColumns, slitColumns, rainColumns, takeimgColumns, objectColumns, exposeColumns,
        cameraColumns, fileinfoColumns, filestatColumns]
  exact List.forall_iff_forall_mem.mp hget

/-- A message with given token and pairs is unique. -/
theorem ReadsAs.unique {t : MsgType} {type : Bytes} {kvs : List PairKeyVal} {m m' : Apbase δ}
    (h : ReadsAs dbl t type kvs m) (h' : ReadsAs dbl t type kvs m') : m = m' := by
  obtain ⟨p, b, rfl, htype, hbase, hfields⟩ := h
  obtain ⟨p', b', rfl, htype', hbase', hfields'⟩ := h'
  obtain rfl : b = b' := baseColumns_ext (htype.trans htype'.symm)
    fun c hc => (hbase c hc).trans (hbase' c hc).symm
  exact schema_ext dbl (fun c hc => (hfields c hc).trans (hfields' c hc).symm) b

theorem ReadsAs.msgType_eq {t : MsgType} {type : Bytes} {kvs : List PairKeyVal} {m : Apbase δ}
    (h : ReadsAs dbl t type kvs m) : m.msgType = t := by
  obtain ⟨p, b, rfl, -⟩ := h
  rw [msgType_setBase, msgType_apbase]

/-- The common items are decoded into their last values. -/
theorem decode_base_reads {kvs : List PairKeyVal} (hkvs : ∀ kv ∈ kvs, LowerCase kv.keyword) :
    ∃ b, Decoder.decode baseFields { type := [] } kvs = .ok b ∧
      ∀ c ∈ baseColumns, c.get b = c.lastValue unitLib kvs (c.get { type := [] }) := by
  obtain ⟨b, hb, hvalues⟩ := exists_decode baseFields_lawful
    (fun kv (_ : kv ∈ kvs) => Column.separate baseKeys_wellKeyed kv)
    (fun kv _ => refuses_baseFields kv) { type := [] }
  refine ⟨b, hb, fun c hc => ?_⟩
  rw [← Column.value_eq_lastValue (baseKeys_wellKeyed.lower _ (List.mem_map_of_mem hc)) hkvs]
  exact hvalues _ (List.mem_map_of_mem hc)

theorem columns_wellKeyed (t : MsgType) :
    WellKeyed ((schema dbl t).columns.map fun c => lit c.key) := by
  rw [schema_keys]
  exact t.keys_wellKeyed

/-- An item of a type is no common one. -/
theorem specific_of_accepts {t : MsgType} {c : Column δ (schema dbl t).α}
    (hc : c ∈ (schema dbl t).columns) {kv : PairKeyVal} (h : c.accepts kv = true) :
    specific kv = true := by
  rw [specific, List.all_eq_true]
  intro f hf
  obtain ⟨d, hd, rfl⟩ := List.mem_map.mp hf
  rw [Bool.not_eq_true', ← Bool.not_eq_true]
  intro hacc
  -- the keyword would be one of a common item
  have hkey : lit c.key ∈ t.keys := schema_keys dbl t ▸ List.mem_map_of_mem hc
  have hbase : lit d.key ∈ baseKeys := List.mem_map_of_mem hd
  have hkeys := iequals_of_iequals (Column.iequals_of_accepts h) (Column.iequals_of_accepts hacc)
  rw [iequals_iff_eq (t.keys_wellKeyed.lower _ hkey) (baseKeys_wellKeyed.lower _ hbase)] at hkeys
  exact t.keys_disjoint _ hkey (hkeys ▸ hbase)

/-- The items of a type are decoded into the values of its columns, and the common
ones among the pairs make no difference. -/
theorem decode_columns {t : MsgType} {kvs : List PairKeyVal}
    (hconv : ∀ c ∈ (schema dbl t).columns, ∀ kv ∈ kvs,
      c.accepts kv = true → ∃ y, c.kind.conv dbl kv.value = .ok y) :
    ∃ p, Decoder.decode ((schema dbl t).fields dbl) (schema dbl t).init (kvs.filter specific) =
        .ok p ∧
      ∀ c ∈ (schema dbl t).columns,
        c.get p = (c.field dbl).value kvs (c.get (schema dbl t).init) := by
  have hrefuses : ∀ kv ∈ kvs.filter specific, refuses ((schema dbl t).fields dbl) kv = false := by
    intro kv hkv
    apply Column.not_refuses
    intro c hc hacc
    exact hconv c hc kv (List.mem_of_mem_filter hkv) hacc
  obtain ⟨p, hp, hvalues⟩ := exists_decode (schema_lawful dbl t)
    (fun kv _ => Column.separate (columns_wellKeyed t) kv) hrefuses (schema dbl t).init
  refine ⟨p, hp, fun c hc => ?_⟩
  have hfilter := Field.value_filter (f := c.field dbl) (p := specific)
    (fun kv (_ : kv ∈ kvs) hacc => specific_of_accepts hc hacc) (c.get (schema dbl t).init)
  exact (hvalues _ (List.mem_map_of_mem hc)).trans hfilter

/-- With keywords in lower case these are the last values. -/
theorem decode_fields_reads {t : MsgType} {kvs : List PairKeyVal}
    (hkvs : ∀ kv ∈ kvs, LowerCase kv.keyword)
    (hconv : ∀ c ∈ (schema dbl t).columns, ∀ kv ∈ kvs,
      kv.keyword = lit c.key → ∃ y, c.kind.conv dbl kv.value = .ok y) :
    ∃ p, Decoder.decode ((schema dbl t).fields dbl) (schema dbl t).init (kvs.filter specific) =
        .ok p ∧
      ∀ c ∈ (schema dbl t).columns,
        c.get p = c.lastValue dbl kvs (c.get (schema dbl t).init) := by
  have hlower : ∀ c ∈ (schema dbl t).columns, LowerCase (lit c.key) := by
    intro c hc
    exact (columns_wellKeyed t).lower _ (List.mem_map_of_mem hc)
  obtain ⟨p, hp, hvalues⟩ := decode_columns fun c hc kv hkv hacc =>
    hconv c hc kv hkv ((Column.accepts_iff (hlower c hc) (hkvs kv hkv)).mp hacc)
  refine ⟨p, hp, fun c hc => ?_⟩
  rw [← Column.value_eq_lastValue (hlower c hc) hkvs]
  exact hvalues c hc

/-- A readable line whose token names a type. -/
theorem resolve_named {rcvd : Bytes} (h : Readable dbl rcvd) {t : MsgType}
    (ht : typeToken rcvd = t.name) :
    ∃ m, resolve dbl rcvd = .ok (some m) ∧
      ReadsAs dbl t (typeToken rcvd) (linePairs rcvd) m := by
  obtain ⟨b, hb, hbase⟩ := decode_base_reads h.keywords
  obtain ⟨p, hp, hfields⟩ := decode_fields_reads h.keywords (h.converts t ht)
  refine ⟨((schema dbl t).apbase p).setBase { b with type := typeToken rcvd }, ?_,
    p, { b with type := typeToken rcvd }, rfl, rfl, ?_, hfields⟩
  · rw [resolve_eq, hb, (select_eq_some_iff h.type).mpr ht, decodeSelected, hp]
    rfl
  · intro c hc
    rw [← hbase c hc]
    simp only [baseColumns, List.mem_cons, List.not_mem_nil, or_false] at hc
    rcases hc with rfl | rfl | rfl | rfl <;> rfl

/-- A readable line whose token names no type. -/
theorem resolve_unnamed {rcvd : Bytes} (h : Readable dbl rcvd)
    (ht : ∀ t : MsgType, typeToken rcvd ≠ t.name) : resolve dbl rcvd = .ok none := by
  have hsel : select (typeToken rcvd) = none := by
    rw [Option.eq_none_iff_forall_ne_some]
    intro t hs
    exact ht t ((select_eq_some_iff h.type).mp hs)
  obtain ⟨b, hb, -⟩ := decode_base_reads h.keywords
  rw [resolve_eq, hb, hsel]
  rfl

end

/-! ### Other orders of the tokens -/

/-- A keyword of a common item, or of the type that the token names. -/
def Known (type key : Bytes) : Prop :=
  key ∈ baseKeys ∨ ∃ t : MsgType, type = t.name ∧ key ∈ t.keys

/-- The tokens change their order, except among those of one keyword, and tokens
that are empty, malformed or of unknown keyword are put in anywhere. -/
inductive Rearranged (type : Bytes) : List Bytes → List Bytes → Prop
  | nil : Rearranged type [] []
  | cons (token : Bytes) {ts us : List Bytes} (h : Rearranged type ts us) :
      Rearranged type (token :: ts) (token :: us)
  | swap {token token' : Bytes} (ts : List Bytes)
      (h : ∀ kv kv', pairOf token = some kv → pairOf token' = some kv' →
        kv.keyword ≠ kv'.keyword) :
      Rearranged type (token :: token' :: ts) (token' :: token :: ts)
  | insert {token : Bytes} (ts : List Bytes)
      (h : ∀ kv, pairOf token = some kv → ¬ Known type kv.keyword) :
      Rearranged type ts (token :: ts)
  | trans {ts us vs : List Bytes} (h : Rearranged type ts us) (h' : Rearranged type us vs) :
      Rearranged type ts vs

/-- The pairs of a known keyword are the same, in the same order. -/
theorem Rearranged.filter_eq {type : Bytes} {ts us : List Bytes} (h : Rearranged type ts us)
    {key : Bytes} (hkey : Known type key) :
    (ts.filterMap pairOf).filter (·.keyword = key) =
      (us.filterMap pairOf).filter (·.keyword = key) := by
  induction h with
  | nil => rfl
  | cons token _ ih =>
    rw [List.filterMap_cons, List.filterMap_cons]
    cases pairOf token with
    | none => exact ih
    | some kv => rw [List.filter_cons, List.filter_cons, ih]
  | @swap token token' ts h =>
    rcases hkv : pairOf token with - | kv
    · simp [List.filterMap_cons, hkv]
    · rcases hkv' : pairOf token' with - | kv'
      · simp [hkv, hkv']
      · -- not both have the keyword
        have hne := h kv kv' hkv hkv'
        by_cases hk : kv.keyword = key
        · have hk' : kv'.keyword ≠ key := fun hk' => hne (hk.trans hk'.symm)
          simp [hkv, hkv', hk, hk']
        · simp [List.filter_cons, hkv, hkv', hk]
  | @insert token ts h =>
    rcases hkv : pairOf token with - | kv
    · simp [hkv]
    · have hk : kv.keyword ≠ key := fun hk => h kv hkv (hk ▸ hkey)
      simp [hkv, hk]
  | trans _ _ ih ih' => exact ih.trans ih'

variable {δ : Type} {dbl : DoubleLib δ}

/-- The values depend on the pairs of the keyword only. -/
theorem Column.lastValue_congr {α : Type} {c : Column δ α} {kvs kvs' : List PairKeyVal}
    (h : kvs.filter (·.keyword = lit c.key) = kvs'.filter (·.keyword = lit c.key))
    (d : c.kind.type δ) :
    c.lastValue dbl kvs d = c.lastValue dbl kvs' d := by
  rw [lastValue, lastValue, h]

/-- A rearranged line reads as the same message. -/
theorem ReadsAs.rearranged {t : MsgType} {ts us : List Bytes} {m : Apbase δ}
    (hre : Rearranged t.name ts us) (h : ReadsAs dbl t t.name (ts.filterMap pairOf) m) :
    ReadsAs dbl t t.name (us.filterMap pairOf) m := by
  obtain ⟨p, b, hm, htype, hbase, hfields⟩ := h
  refine ⟨p, b, hm, htype, fun c hc => ?_, fun c hc => ?_⟩
  · have hknown : Known t.name (lit c.key) := .inl (List.mem_map_of_mem hc)
    rw [hbase c hc, Column.lastValue_congr (hre.filter_eq hknown)]
  · have hknown : Known t.name (lit c.key) :=
      .inr ⟨t, rfl, schema_keys dbl t ▸ List.mem_map_of_mem hc⟩
    rw [hfields c hc, Column.lastValue_congr (hre.filter_eq hknown)]

/-- The numbers of a rearranged line convert. -/
theorem Readable.rearranged {rcvd rcvd' : Bytes} (h : Readable dbl rcvd)
    (htype : typeToken rcvd' = typeToken rcvd)
    (hkeys : ∀ kv ∈ linePairs rcvd', LowerCase kv.keyword)
    (hre : Rearranged (typeToken rcvd) (tokens rcvd) (tokens rcvd')) : Readable dbl rcvd' where
  type := htype ▸ h.type
  keywords := hkeys
  converts := fun t ht c hc kv hkv hk => by
    rw [htype] at ht
    have hknown : Known (typeToken rcvd) (lit c.key) :=
      .inr ⟨t, ht, schema_keys dbl t ▸ List.mem_map_of_mem hc⟩
    have hmem : kv ∈ (linePairs rcvd').filter (·.keyword = lit c.key) := by
      simp [hkv, hk]
    rw [linePairs, ← hre.filter_eq hknown] at hmem
    exact h.converts t ht c hc kv (List.mem_of_mem_filter hmem) hk

/-- **`Resolve` equals its reference reading**: on a readable line it returns a
null pointer exactly when the type token is no name of a type, and otherwise the
message that reads as the line; rearranging the tokens does not change it. -/
theorem resolve_reading {rcvd : Bytes} (h : Readable dbl rcvd) :
    ∃ r, resolve dbl rcvd = .ok r ∧
      (r = none ↔ ∀ t : MsgType, typeToken rcvd ≠ t.name) ∧
      (∀ m, r = some m → ∃ t : MsgType, typeToken rcvd = t.name ∧ m.msgType = t ∧
        ReadsAs dbl t (typeToken rcvd) (linePairs rcvd) m) ∧
      ∀ rcvd', typeToken rcvd' = typeToken rcvd →
        (∀ kv ∈ linePairs rcvd', LowerCase kv.keyword) →
        Rearranged (typeToken rcvd) (tokens rcvd) (tokens rcvd') →
          resolve dbl rcvd' = .ok r := by
  by_cases hname : ∃ t : MsgType, typeToken rcvd = t.name
  · obtain ⟨t, ht⟩ := hname
    obtain ⟨m, hm, hreads⟩ := resolve_named h ht
    refine ⟨some m, hm, ⟨nofun, fun hnone => absurd ht (hnone t)⟩, ?_, ?_⟩
    · rintro _ ⟨⟩
      exact ⟨t, ht, hreads.msgType_eq, hreads⟩
    · intro rcvd' htype hkeys hre
      obtain ⟨m', hm', hreads'⟩ := resolve_named (h.rearranged htype hkeys hre) (htype.trans ht)
      rw [ht] at hre hreads
      rw [htype, ht] at hreads'
      rw [hm', hreads'.unique (hreads.rearranged hre)]
  · have hnone : ∀ t : MsgType, typeToken rcvd ≠ t.name := fun t ht => hname ⟨t, ht⟩
    refine ⟨none, resolve_unnamed h hnone, ⟨fun _ => hnone, fun _ => rfl⟩, nofun, ?_⟩
    intro rcvd' htype hkeys hre
    exact resolve_unnamed (h.rearranged htype hkeys hre) fun t => htype ▸ hnone t

/-- Two orders of one line. -/
theorem resolve_reading_fileinfo :
    ∃ r, resolve unitLib (lit "fileinfo filename=a,filesize=2") = .ok r ∧ r ≠ none ∧
      resolve unitLib (lit "fileinfo filesize=2,filename=a") = .ok r := by
  have htoken : typeToken (lit "fileinfo filename=a,filesize=2") = MsgType.fileinfo.name := by
    decide +kernel
  have hread : Readable unitLib (lit "fileinfo filename=a,filesize=2") :=
    { type := by decide +kernel
      keywords := by decide +kernel
      converts := fun t ht => by
        obtain rfl : t = .fileinfo := MsgType.name_injective (ht.symm.trans htoken)
        rw [← List.forall_iff_forall_mem]
        exact ⟨fun kv _ _ => ⟨_, rfl⟩, fun kv _ _ => ⟨_, rfl⟩, fun kv _ _ => ⟨_, rfl⟩,
          fun kv hkv hk => by
            obtain rfl : kv = ⟨lit "filesize", lit "2"⟩ := by
              revert kv
              decide +kernel
            exact ⟨(2 : Int32), rfl⟩⟩ }
  obtain ⟨r, hr, hnone, -, hre⟩ := resolve_reading hread
  refine ⟨r, hr, fun h => hnone.mp h _ htoken, hre _ (by decide +kernel) (by decide +kernel) ?_⟩
  have htokens : tokens (lit "fileinfo filename=a,filesize=2") =
      [lit "filename=a", lit "filesize=2"] := by decide +kernel
  have htokens' : tokens (lit "fileinfo filesize=2,filename=a") =
      [lit "filesize=2", lit "filename=a"] := by decide +kernel
  rw [htokens, htokens']
  refine .swap [] fun kv kv' h h' => ?_
  have hkv : pairOf (lit "filename=a") = some ⟨lit "filename", lit "a"⟩ := by decide +kernel
  have hkv' : pairOf (lit "filesize=2") = some ⟨lit "filesize", lit "2"⟩ := by decide +kernel
  obtain rfl := Option.some.inj (hkv.symm.trans h)
  obtain rfl := Option.some.inj (hkv'.symm.trans h')
  decide +kernel

end FtServer
