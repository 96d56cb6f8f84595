/-
FtServer/Schema.lean

The messages as tables.  For every type the table lists the fields of the
message: which keywords are assigned to it, how the value is converted, and what
the constructor puts there.  `select` finds the type of a type token.

The parser of the source is a tree of comparisons and one loop for each type.
`resolveType_eq` connects the two: the tree selects the type of the table, and
the loop of the type is the decoder of its table.
-/
import FtServer.AsciiProtocol
import FtServer.Decoder

namespace FtServer

open Decoder

/-! ### Types -/

/-- The 21 types of messages. -/
inductive MsgType
  | abortSlew
  | abortImage
  | fileinfo
  | filestat
  | fwhm
  | focus
  | object
  | obsite
  | rain
  | reg
  | slewto
  | start
  | stop
  | slit
  | takeImage
  | track
  | camera
  | expose
  | mount
  | park
  | homeSync
  deriving DecidableEq, Repr

namespace MsgType

/-- `APTYPE_*`. -/
def name : MsgType → Bytes
  | abortSlew => lit "abort_slew"
  | abortImage => lit "abort_image"
  | fileinfo => lit "fileinfo"
  | filestat => lit "filestat"
  | fwhm => lit "fwhm"
  | focus => lit "focus"
  | object => lit "object"
  | obsite => lit "obsite"
  | rain => lit "rain"
  | reg => lit "register"
  | slewto => lit "slewto"
  | start => lit "start"
  | stop => lit "stop"
  | slit => lit "slit"
  | takeImage => lit "take_image"
  | track => lit "track"
  | camera => lit "camera"
  | expose => lit "expose"
  | mount => lit "mount"
  | park => lit "park"
  | homeSync => lit "home_sync"

end MsgType

/-- The type that the tree of comparisons in `Resolve` finds for a type token. -/
def select (type : Bytes) : Option MsgType :=
  let is (t : MsgType) : Bool := iequals type t.name
  let ch := type.headD 0
  if ch == 97 then  -- 'a'
    if is .abortSlew then some .abortSlew
    else if is .abortImage then some .abortImage
    else none
  else if ch == 102 then  -- 'f'
    if is .fileinfo then some .fileinfo
    else if is .filestat then some .filestat
    else if is .fwhm then some .fwhm
    else if is .focus then some .focus
    else none
  else if ch == 111 then  -- 'o'
    if is .object then some .object
    else if is .obsite then some .obsite
    else none
  else if ch == 114 then  -- 'r'
    if is .rain then some .rain
    else if is .reg then some .reg
    else none
  else if ch == 115 then  -- 's'
    if is .slewto then some .slewto
    else if is .start then some .start
    else if is .stop then some .stop
    else if is .slit then some .slit
    else none
  else if ch == 116 then  -- 't'
    if is .takeImage then some .takeImage
    else if is .track then some .track
    else none
  else if is .camera then some .camera
  else if is .expose then some .expose
  else if is .mount then some .mount
  else if is .park then some .park
  else if is .homeSync then some .homeSync
  else none

/-- Strings that are equal without regard to case start with the same letter. -/
theorem iequals_head {s n : Bytes} (h : iequals s n = true) :
    toUpper (s.headD 0) = toUpper (n.headD 0) := by
  simp only [iequals, beq_iff_eq] at h
  cases s with
  | nil =>
    cases n with
    | nil => rfl
    | cons c n => simp at h
  | cons b s =>
    cases n with
    | nil => simp at h
    | cons c n => exact (List.cons.inj h).1

/-- A string does not match a literal that starts with another letter. -/
theorem iequals_of_head_ne {s : Bytes} {b : UInt8} (hb : s.headD 0 = b) {k : String}
    (hk : toUpper b ≠ toUpper ((lit k).headD 0)) : iequals s (lit k) = false := by
  by_contra h
  have hhead := iequals_head (by simpa using h : iequals s (lit k) = true)
  rw [hb] at hhead
  exact hk hhead

/-! ### Columns -/

/-- A field of a message. -/
abbrev ItemField (α : Type) := Field PairKeyVal StdException α

/-- Equality without regard to case, except that the first letter is as it is. -/
def iequalsTail (s n : Bytes) : Bool := s.headD 0 == n.headD 0 && iequals s n

/-- The kinds of fields.  A `float` is a `double` that is narrowed. -/
inductive Kind
  | text
  | int
  | double
  | float
  deriving DecidableEq, Repr

namespace Kind

variable {δ : Type}

/-- The type of the member. -/
abbrev type (δ : Type) : Kind → Type
  | text => Bytes
  | int => Int32
  | double | float => δ

/-- The conversion of a value. -/
def conv (dbl : DoubleLib δ) : (k : Kind) → Bytes → Except StdException (k.type δ)
  | text => .ok
  | int => stoi
  | double => dbl.stod
  | float => fun v => (dbl.stod v).map dbl.toFloat

end Kind

/-- A line of a table: the keyword, whether its first letter is compared as it
is, the kind of the field, and its place in the record. -/
structure Column (δ α : Type) where
  key : String
  exact : Bool := false
  kind : Kind
  get : α → kind.type δ
  set : kind.type δ → α → α

namespace Column

variable {δ α : Type}

def text (key : String) (get : α → Bytes) (set : Bytes → α → α) : Column δ α where
  key := key
  kind := .text
  get := get
  set := set

def int (key : String) (get : α → Int32) (set : Int32 → α → α) : Column δ α where
  key := key
  kind := .int
  get := get
  set := set

def double (key : String) (get : α → δ) (set : δ → α → α) : Column δ α where
  key := key
  kind := .double
  get := get
  set := set

def float (key : String) (get : α → δ) (set : δ → α → α) : Column δ α where
  key := key
  kind := .float
  get := get
  set := set

/-- The first letter of the keyword is compared as it is. -/
def exactly (c : Column δ α) : Column δ α := { c with exact := true }

/-- The comparisons of the parser. -/
def accepts (c : Column δ α) (kv : PairKeyVal) : Bool :=
  match c.exact with
  | true => iequalsTail kv.keyword (lit c.key)
  | false => iequals kv.keyword (lit c.key)

/-- The field as the parser fills it. -/
def field (dbl : DoubleLib δ) (c : Column δ α) : ItemField α where
  accepts := c.accepts
  β := c.kind.type δ
  conv := fun kv => c.kind.conv dbl kv.value
  get := c.get
  set := c.set

end Column

/-! ### Tables -/

section Tables

variable {δ : Type}

/-- The four common items, all texts. -/
def baseColumns : List (Column Unit AsciiProtoBase) :=
  [.text "utc" (·.utc) fun x p => { p with utc := x },
    .text "gid" (·.gid) fun x p => { p with gid := x },
    .text "uid" (·.uid) fun x p => { p with uid := x },
    .text "cid" (·.cid) fun x p => { p with cid := x }]

def obsiteColumns : List (Column δ (AsciiProtoObsite δ)) :=
  [.text "sitename" (·.sitename) fun x p => { p with sitename := x },
    .double "longitude" (·.lon) fun x p => { p with lon := x },
    .double "latitude" (·.lat) fun x p => { p with lat := x },
    .double "altitude" (·.alt) fun x p => { p with alt := x },
    .int "timezone" (·.timezone) fun x p => { p with timezone := x }]

def homesyncColumns : List (Column δ (AsciiProtoHomeSync δ)) :=
  [.double "ra" (·.ra) fun x p => { p with ra := x },
    .double "dec" (·.dec) fun x p => { p with dec := x }]

def slewtoColumns : List (Column δ (AsciiProtoSlewto δ)) :=
  [.int "coorsys" (·.coorsys) fun x p => { p with coorsys := x },
    .double "coor1" (·.coor1) fun x p => { p with coor1 := x },
    .double "coor2" (·.coor2) fun x p => { p with coor2 := x }]

def trackColumns : List (Column δ AsciiProtoTrack) :=
  [.text "objid" (·.objid) fun x p => { p with objid := x },
    .text "line1" (·.line1) fun x p => { p with line1 := x },
    .text "line2" (·.line2) fun x p => { p with line2 := x }]

def mountColumns : List (Column δ (AsciiProtoMount δ)) :=
  [.int "state" (·.state) fun x p => { p with state := x },
    .int "errcode" (·.errcode) fun x p => { p with errcode := x },
    .double "ra" (·.ra) fun x p => { p with ra := x },
    .double "dec" (·.dec) fun x p => { p with dec := x },
    .double "azi" (·.azi) fun x p => { p with azi := x },
    .double "alt" (·.alt) fun x p => { p with alt := x }]

def fwhmColumns : List (Column δ (AsciiProtoFwhm δ)) :=
  [.double "value" (·.value) fun x p => { p with value := x }]

def focusColumns : List (Column δ AsciiProtoFocus) :=
  [.int "state" (·.state) fun x p => { p with state := x },
    .int "value" (·.value) fun x p => { p with value := x }]

def slitColumns : List (Column δ AsciiProtoSlit) :=
  [.int "state" (·.state) fun x p => { p with state := x },
    .int "command" (·.command) fun x p => { p with command := x }]

def rainColumns : List (Column δ AsciiProtoRain) :=
  [.int "value" (·.value) fun x p => { p with value := x }]

def takeimgColumns : List (Column δ (AsciiProtoTakeImage δ)) :=
  [.text "objname" (·.objname) fun x p => { p with objname := x },
    .text "imgtype" (·.imgtype) fun x p => { p with imgtype := x },
    .double "expdur" (·.expdur) fun x p => { p with expdur := x },
    .int "frmcnt" (·.frmcnt) fun x p => { p with frmcnt := x }]

/-- In the order of the comparisons; some keywords count only with their first
letter as it is. -/
def objectColumns : List (Column δ (AsciiProtoObject δ)) :=
  [.text "btime" (·.btime) fun x p => { p with btime := x },
    (Column.double "expdur" (·.expdur) fun x p => { p with expdur := x }).exactly,
    (Column.text "etime" (·.etime) fun x p => { p with etime := x }).exactly,
    .int "frmcnt" (·.frmcnt) fun x p => { p with frmcnt := x },
    (Column.text "imgtype" (·.imgtype) fun x p => { p with imgtype := x }).exactly,
    (Column.int "iimgtyp" (·.iimgtyp) fun x p => { p with iimgtyp := x }).exactly,
    .text "objname" (·.objname) fun x p => { p with objname := x },
    (Column.text "plan_sn" (·.plan_sn) fun x p => { p with plan_sn := x }).exactly,
    (Column.int "plan_type" (·.plan_type) fun x p => { p with plan_type := x }).exactly,
    .text "sabbr" (·.sabbr) fun x p => { p with sabbr := x }]

def exposeColumns : List (Column δ AsciiProtoExpose) :=
  [.int "command" (·.command) fun x p => { p with command := x }]

def cameraColumns : List (Column δ (AsciiProtoCamera δ)) :=
  [.int "state" (·.state) fun x p => { p with state := x },
    .int "errcode" (·.errcode) fun x p => { p with errcode := x },
    .float "coolget" (·.coolget) fun x p => { p with coolget := x }]

def fileinfoColumns : List (Column δ AsciiProtoFileinfo) :=
  [.text "tmobs" (·.tmobs) fun x p => { p with tmobs := x },
    .text "subpath" (·.subpath) fun x p => { p with subpath := x },
    .text "filename" (·.filename) fun x p => { p with filename := x },
    .int "filesize" (·.filesize) fun x p => { p with filesize := x }]

def filestatColumns : List (Column δ AsciiProtoFilestat) :=
  [.int "status" (·.status) fun x p => { p with status := x }]

/-- What a type consists of: its struct, the table of its fields, the constructed
object, and the pointer to the base class. -/
structure Schema (δ : Type) where
  α : Type
  columns : List (Column δ α)
  init : α
  apbase : α → Apbase δ

variable (dbl : DoubleLib δ)

/-- The table as the parser reads it. -/
def Schema.fields (s : Schema δ) : List (ItemField s.α) := s.columns.map (Column.field dbl)

def schema : MsgType → Schema δ
  | .abortSlew => ⟨_, [], { type := lit "abort_slew" }, .abortSlew⟩
  | .abortImage => ⟨_, [], { type := lit "abort_image" }, .abortImage⟩
  | .fileinfo => ⟨_, fileinfoColumns, { type := lit "fileinfo" }, .fileinfo⟩
  | .filestat => ⟨_, filestatColumns, { type := lit "filestat" }, .filestat⟩
  | .fwhm => ⟨_, fwhmColumns, { type := lit "fwhm", value := dbl.literal 0 }, .fwhm⟩
  | .focus => ⟨_, focusColumns, { type := lit "focus" }, .focus⟩
  | .object => ⟨_, objectColumns, { type := lit "object", expdur := dbl.literal 0 }, .object⟩
  | .obsite => ⟨_, obsiteColumns,
      { type := lit "obsite", lon := dbl.literal 0, lat := dbl.literal 0, alt := dbl.literal 0 },
      .obsite⟩
  | .rain => ⟨_, rainColumns, { type := lit "rain" }, .rain⟩
  | .reg => ⟨_, [], { type := lit "register" }, .reg⟩
  | .slewto => ⟨_, slewtoColumns,
      { type := lit "slewto", coor1 := dbl.literal 180, coor2 := dbl.literal 40 }, .slewto⟩
  | .start => ⟨_, [], { type := lit "start" }, .start⟩
  | .stop => ⟨_, [], { type := lit "stop" }, .stop⟩
  | .slit => ⟨_, slitColumns, { type := lit "slit" }, .slit⟩
  | .takeImage => ⟨_, takeimgColumns,
      { type := lit "take_image", expdur := dbl.literal 0 }, .takeImage⟩
  | .track => ⟨_, trackColumns, { type := lit "track" }, .track⟩
  | .camera => ⟨_, cameraColumns,
      { type := lit "camera", coolget := dbl.toFloat (dbl.literal 0) }, .camera⟩
  | .expose => ⟨_, exposeColumns, { type := lit "expose" }, .expose⟩
  | .mount => ⟨_, mountColumns,
      { type := lit "mount", ra := dbl.literal (10 ^ 30), dec := dbl.literal (10 ^ 30),
        azi := dbl.literal (10 ^ 30), alt := dbl.literal (10 ^ 30) }, .mount⟩
  | .park => ⟨_, [], { type := lit "park" }, .park⟩
  | .homeSync => ⟨_, homesyncColumns,
      { type := lit "home_sync", ra := dbl.literal (10 ^ 30), dec := dbl.literal (10 ^ 30) },
      .homeSync⟩

/-- Decode the pairs of a message of the selected type. -/
def decodeSelected (kvs : List PairKeyVal) :
    Option MsgType → Except StdException (Option (Apbase δ))
  | none => .ok none
  | some t => do
    let p ← Decoder.decode ((schema dbl t).fields dbl) (schema dbl t).init kvs
    pure (some ((schema dbl t).apbase p))

/-! ### The parser and the tables -/

/-- The loop of `track`, which cannot fail. -/
theorem decode_track (kvs : List PairKeyVal) :
    Decoder.decode (trackColumns.map (Column.field dbl)) { type := lit "track" } kvs =
      .ok (resolveTrack kvs) := by
  unfold resolveTrack
  generalize ({ type := lit "track" } : AsciiProtoTrack) = p
  induction kvs generalizing p with
  | nil => rfl
  | cons kv kvs ih =>
    have hstep : Decoder.step (trackColumns.map (Column.field dbl)) p kv =
        .ok (if iequals kv.keyword (lit "objid") then { p with objid := kv.value }
          else if iequals kv.keyword (lit "line1") then { p with line1 := kv.value }
          else if iequals kv.keyword (lit "line2") then { p with line2 := kv.value }
          else p) := by
      show (if iequals kv.keyword (lit "objid") then _
        else if iequals kv.keyword (lit "line1") then _
        else if iequals kv.keyword (lit "line2") then _ else _) = _
      split_ifs <;> rfl
    rw [decode_cons, hstep]
    exact ih _

/-- The loop of `camera`; the narrowing follows the conversion. -/
theorem decode_camera (kvs : List PairKeyVal) :
    Decoder.decode (cameraColumns.map (Column.field dbl))
      { type := lit "camera", coolget := dbl.toFloat (dbl.literal 0) } kvs =
        resolveCamera dbl kvs := by
  unfold resolveCamera Decoder.decode
  congr 1
  funext p kv
  show (if iequals kv.keyword (lit "state") then _
    else if iequals kv.keyword (lit "errcode") then _
    else if iequals kv.keyword (lit "coolget") then _ else _) = _
  split_ifs
  · rfl
  · rfl
  · cases h : dbl.stod kv.value <;>
      simp [Field.assign, Column.field, Column.float, Kind.conv, h] <;> rfl
  · rfl

/-- The loop of `object`: its tree of comparisons is a chain, in which the first
letter is part of the comparison. -/
theorem decode_object (kvs : List PairKeyVal) :
    Decoder.decode (objectColumns.map (Column.field dbl))
      { type := lit "object", expdur := dbl.literal 0 } kvs = resolveObject dbl kvs := by
  unfold resolveObject Decoder.decode
  congr 1
  funext p kv
  have hexact : ∀ (k : String) (c : UInt8), (lit k).headD 0 = c →
      iequalsTail kv.keyword (lit k) =
        (kv.keyword.headD 0 == c && iequals kv.keyword (lit k)) := by
    rintro k c rfl
    rfl
  show (if iequals kv.keyword (lit "btime") then _
    else if iequalsTail kv.keyword (lit "expdur") then _
    else if iequalsTail kv.keyword (lit "etime") then _
    else if iequals kv.keyword (lit "frmcnt") then _
    else if iequalsTail kv.keyword (lit "imgtype") then _
    else if iequalsTail kv.keyword (lit "iimgtyp") then _
    else if iequals kv.keyword (lit "objname") then _
    else if iequalsTail kv.keyword (lit "plan_sn") then _
    else if iequalsTail kv.keyword (lit "plan_type") then _
    else if iequals kv.keyword (lit "sabbr") then _ else _) = _
  rw [hexact "expdur" 101 (by decide), hexact "etime" 101 (by decide),
    hexact "imgtype" 105 (by decide), hexact "iimgtyp" 105 (by decide),
    hexact "plan_sn" 112 (by decide), hexact "plan_type" 112 (by decide)]
  have hne : ∀ {a b : UInt8}, a ≠ b → (a == b) = false := fun h => beq_false_of_ne h
  by_cases he : kv.keyword.headD 0 = 101
  · have h₁ : iequals kv.keyword (lit "frmcnt") = false := iequals_of_head_ne he (by decide)
    have h₂ : iequals kv.keyword (lit "objname") = false := iequals_of_head_ne he (by decide)
    have h₃ : iequals kv.keyword (lit "sabbr") = false := iequals_of_head_ne he (by decide)
    simp only [he, h₁, h₂, h₃, beq_self_eq_true, Bool.true_and, ↓reduceIte, Bool.false_eq_true,
      hne (by decide : (101 : UInt8) ≠ 105), hne (by decide : (101 : UInt8) ≠ 112),
      Bool.false_and]
    rfl
  · by_cases hi : kv.keyword.headD 0 = 105
    · have h₁ : iequals kv.keyword (lit "objname") = false := iequals_of_head_ne hi (by decide)
      have h₂ : iequals kv.keyword (lit "sabbr") = false := iequals_of_head_ne hi (by decide)
      simp only [hi, h₁, h₂, beq_self_eq_true, Bool.true_and, ↓reduceIte, Bool.false_eq_true,
        hne (by decide : (105 : UInt8) ≠ 101), hne (by decide : (105 : UInt8) ≠ 112),
        Bool.false_and]
      rfl
    · by_cases hp : kv.keyword.headD 0 = 112
      · have h₁ : iequals kv.keyword (lit "sabbr") = false := iequals_of_head_ne hp (by decide)
        simp only [hp, h₁, beq_self_eq_true, Bool.true_and, ↓reduceIte, Bool.false_eq_true,
          hne (by decide : (112 : UInt8) ≠ 101), hne (by decide : (112 : UInt8) ≠ 105),
          Bool.false_and]
        rfl
      · simp only [hne he, hne hi, hne hp, Bool.false_and, ↓reduceIte, Bool.false_eq_true]
        rfl

/-- The types without fields of their own. -/
theorem decodeSelected_plain {t : MsgType} (h : ((schema dbl t).fields dbl) = [])
    (kvs : List PairKeyVal) :
    decodeSelected dbl kvs (some t) =
      .ok (some ((schema dbl t).apbase (schema dbl t).init)) := by
  simp only [decodeSelected, h, decode_no_fields]
  rfl

/-- A function moves out of a tree of comparisons, one comparison at a time. -/
theorem ite_congr_map {α β : Type} {c : Prop} [Decidable c] {f : α → β} {x y : β} {a b : α}
    (ha : c → x = f a) (hb : ¬ c → y = f b) :
    (if c then x else y) = f (if c then a else b) := by
  by_cases hc : c
  · rw [if_pos hc, if_pos hc, ha hc]
  · rw [if_neg hc, if_neg hc, hb hc]

/-- **The parser decodes by the tables**: the type token selects a type, and the
pairs are decoded by the table of this type. -/
theorem resolveType_eq (type : Bytes) (kvs : List PairKeyVal) :
    resolveType dbl type kvs = decodeSelected dbl kvs (select type) := by
  have htrack : decodeSelected dbl kvs (some .track) =
      pure (some (.track (resolveTrack kvs))) := by
    show (Decoder.decode (trackColumns.map (Column.field dbl)) { type := lit "track" } kvs).bind _ =
      _
    rw [decode_track]
    rfl
  have hcamera : decodeSelected dbl kvs (some .camera) =
      (do pure (some (.camera (← resolveCamera dbl kvs)))) := by
    rw [← decode_camera]
    rfl
  have hobject : decodeSelected dbl kvs (some .object) =
      (do pure (some (.object (← resolveObject dbl kvs)))) := by
    rw [← decode_object]
    rfl
  unfold select resolveType
  simp only [MsgType.name]
  repeat' refine ite_congr_map (fun _ => ?_) fun _ => ?_
  all_goals
    first
    | rfl
    | exact htrack.symm
    | exact hcamera.symm
    | exact hobject.symm
    | rw [decodeSelected_plain] <;> rfl

end Tables

end FtServer
