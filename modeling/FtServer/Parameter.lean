/-
FtServer/Parameter.lean

The configuration (`parameter.h`).  `LoadFile` reads an XML file into a tree and goes
through the children of its root; a child with the name of a section assigns the fields
of that section, from its attributes or with defaults.  A field whose section does not
occur is not assigned, and neither is any if the file cannot be read: then `InitFile`
writes a file with default values.

What reads and writes XML is a parameter (`XmlLib`).  The ten fields are a table of
`Setting`s, which say where in the tree a value stands, how it is converted, and what
its default is.

`definedAfter_iff` says which files leave every field with a value of the file or a
default, whatever the fields held before.
-/
import FtServer.PropertyTree
import FtServer.Text

namespace FtServer

/-! ### Conversions of the library -/

/-- The digits, with their sign, that `operator>>` takes off the front for an integer,
and the rest. -/
def streamInteger (s : Bytes) : Option ℤ × Bytes :=
  let s := s.dropWhile isSpace
  let negative := s.head? == some 45
  let s := if s.head? == some 45 || s.head? == some 43 then s.tail else s
  let ds := s.takeWhile isDigit
  let v : ℤ := if negative then -(digitsValue ds) else digitsValue ds
  (if ds.isEmpty then none else some v, s.dropWhile isDigit)

/-- Nothing but white space is left. -/
def atEnd (s : Bytes) : Bool := (s.dropWhile isSpace).isEmpty

/-- The text as an `int`. -/
def toInt (s : Bytes) : Option ℤ :=
  match streamInteger s with
  | (some v, rest) =>
    if Int32.minValue.toInt ≤ v ∧ v ≤ Int32.maxValue.toInt ∧ atEnd rest = true then some v
    else none
  | (none, _) => none

/-- The text as a `bool`: as a number first, and from where that has stopped as a
word. -/
def toBool (s : Bytes) : Option Bool :=
  let (v, rest) := streamInteger s
  if v = some 0 then if atEnd rest then some false else none
  else if v = some 1 then if atEnd rest then some true else none
  else
    let word := rest.dropWhile isSpace
    if word.take 4 = lit "true" then if atEnd (word.drop 4) then some true else none
    else if word.take 5 = lit "false" then if atEnd (word.drop 5) then some false else none
    else none

/-- The text as an `int` that is assigned to a `uint16_t`. -/
def toPort (s : Bytes) : Option UInt16 := (toInt s).map fun v => UInt16.ofNat (v % 65536).toNat

/-! ### `param_config` -/

/-- A tree of the library. -/
abbrev Xml := Ptree Bytes Bytes

/-- `read_xml` and `write_xml`: `none` where they throw; a file that is not there, or
cannot be read, is `none`. -/
structure XmlLib where
  read : Option Bytes → Option Xml
  write : Xml → Option Bytes

structure ParamConfig where
  portFS : UInt16
  portDP : UInt16
  bNTP : Bool
  ipNTP : Bytes
  diffNTP : ℤ
  bDB : Bool
  urlDB : Bytes
  bFreeStorage : Bool
  minDiskStorage : ℤ
  pathStorage : Bytes
deriving Inhabited

/-- A field of the configuration. -/
structure Setting where
  Value : Type
  /-- the name of its section -/
  part : Bytes
  path : List Bytes
  convert : Bytes → Option Value
  default : Value
  get : ParamConfig → Value

namespace Setting

/-- What `child.second.get (path, default)` finds. -/
def find (x : Setting) (child : Xml) : Option x.Value :=
  (child.walk x.path).bind fun t => x.convert t.data

def read (x : Setting) (child : Xml) : x.Value := (x.find child).getD x.default

def portFS : Setting :=
  ⟨UInt16, lit "Server", [lit "<xmlattr>", lit "PortFS"], toPort, 4020, ParamConfig.portFS⟩

def portDP : Setting :=
  ⟨UInt16, lit "Server", [lit "<xmlattr>", lit "PortDP"], toPort, 4021, ParamConfig.portDP⟩

def bNTP : Setting :=
  ⟨Bool, lit "NTP", [lit "<xmlattr>", lit "Enable"], toBool, true, ParamConfig.bNTP⟩

def ipNTP : Setting :=
  ⟨Bytes, lit "NTP", [lit "<xmlattr>", lit "IP"], some, lit "192.168.10.111", ParamConfig.ipNTP⟩

def diffNTP : Setting :=
  ⟨ℤ, lit "NTP", [lit "<xmlattr>", lit "Difference"], toInt, 500, ParamConfig.diffNTP⟩

def bDB : Setting :=
  ⟨Bool, lit "Database", [lit "<xmlattr>", lit "Enable"], toBool, false, ParamConfig.bDB⟩

def urlDB : Setting :=
  ⟨Bytes, lit "Database", [lit "<xmlattr>", lit "URL"], some,
    lit "http://192.168.10.20:8080/gwebend/", ParamConfig.urlDB⟩

def bFreeStorage : Setting :=
  ⟨Bool, lit "LocalStorage", [lit "AutoFree", lit "<xmlattr>", lit "Enable"], toBool, true,
    ParamConfig.bFreeStorage⟩

def minDiskStorage : Setting :=
  ⟨ℤ, lit "LocalStorage", [lit "AutoFree", lit "<xmlattr>", lit "MinimumCapacity"], toInt, 500,
    ParamConfig.minDiskStorage⟩

def pathStorage : Setting :=
  ⟨Bytes, lit "LocalStorage", [lit "PathRoot", lit "<xmlattr>", lit "Name"], some, lit "/data",
    ParamConfig.pathStorage⟩

end Setting

/-- The fields of the configuration. -/
def settings : List Setting :=
  [.portFS, .portDP, .bNTP, .ipNTP, .diffNTP, .bDB, .urlDB, .bFreeStorage, .minDiskStorage,
    .pathStorage]

/-- The body of the loop of `LoadFile`. -/
def loadChild (p : ParamConfig) (child : Bytes × Xml) : ParamConfig :=
  if iequals child.1 (lit "Server") then
    { p with
      portFS := Setting.portFS.read child.2
      portDP := Setting.portDP.read child.2 }
  else if iequals child.1 (lit "NTP") then
    { p with
      bNTP := Setting.bNTP.read child.2
      ipNTP := Setting.ipNTP.read child.2
      diffNTP := Setting.diffNTP.read child.2 }
  else if iequals child.1 (lit "Database") then
    { p with
      bDB := Setting.bDB.read child.2
      urlDB := Setting.urlDB.read child.2 }
  else if iequals child.1 (lit "LocalStorage") then
    { p with
      bFreeStorage := Setting.bFreeStorage.read child.2
      minDiskStorage := Setting.minDiskStorage.read child.2
      pathStorage := Setting.pathStorage.read child.2 }
  else p

/-- `pathStorage.clear ()`. -/
def clearPath (p : ParamConfig) : ParamConfig := { p with pathStorage := [] }

/-- `LoadFile` of a file that is read as the tree `t`. -/
def loadTree (t : Xml) (p : ParamConfig) : ParamConfig := t.children.foldl loadChild (clearPath p)

/-- The tree of `InitFile`. -/
def initTree (date : Bytes) : Xml :=
  [([lit "version"], lit "0.2"),
    ([lit "date"], date),
    ([lit "Server", lit "<xmlattr>", lit "PortFS"], lit "4020"),
    ([lit "Server", lit "<xmlattr>", lit "PortDP"], lit "4021"),
    ([lit "NTP", lit "<xmlattr>", lit "Enable"], lit "true"),
    ([lit "NTP", lit "<xmlattr>", lit "IP"], lit "192.168.10.111"),
    ([lit "NTP", lit "<xmlattr>", lit "Difference"], lit "1000"),
    ([lit "Database", lit "<xmlattr>", lit "Enable"], lit "false"),
    ([lit "Database", lit "<xmlattr>", lit "URL"], lit "http://192.168.10.20:8080/gwebend/"),
    ([lit "LocalStorage"], []),
    ([lit "LocalStorage", lit "AutoFree", lit "<xmlattr>", lit "Enable"], lit "true"),
    ([lit "LocalStorage", lit "AutoFree", lit "<xmlattr>", lit "MinimumCapacity"], lit "500"),
    ([lit "LocalStorage", lit "PathRoot", lit "<xmlattr>", lit "Name"], lit "/data")].foldl
    (fun t leaf => t.add [] leaf.1 leaf.2) (.node [] [])

/-- `LoadFile`, at the time `date`: the configuration and the file afterwards, or `none`
if an exception leaves it. -/
def loadFile (lib : XmlLib) (date : Bytes) (file : Option Bytes) (p : ParamConfig) :
    Option (ParamConfig × Option Bytes) :=
  match lib.read file with
  | some t => some (loadTree t p, file)
  | none =>
    -- `InitFile` assigns no field
    match lib.write (initTree date) with
    | some written => some (clearPath p, some written)
    | none => none

/-! ### The property and the condition -/

namespace Setting

variable (x : Setting) (t : Xml)

/-- The sections of the field. -/
def parts : List Xml := (t.children.filter fun c => iequals c.1 x.part).map Prod.snd

/-- The values that the file gives for the field, in all places where one may stand. -/
def given : List x.Value :=
  ((x.parts t).flatMap fun part => part.every x.path).filterMap fun u => x.convert u.data

/-- A value of the file, or the default if there is none. -/
def Defined (v : x.Value) : Prop := v ∈ x.given t ∨ x.given t = [] ∧ v = x.default

/-- There is a section, and the last one has a value, unless none has one or one of
the values is the default. -/
def Supplied : Prop :=
  ∃ part, (x.parts t).getLast? = some part ∧
    ((x.find part).isSome ∨ x.given t = [] ∨ x.default ∈ x.given t)

end Setting

/-- **Loading leaves nothing undefined**, whatever the fields have held before: each
field has a value of the file or the default, and after a file that cannot be read each
has what would be loaded from the file that has been written. -/
def DefinedAfter (lib : XmlLib) (date : Bytes) (file : Option Bytes) : Prop :=
  ∀ old p file', loadFile lib date file old = some (p, file') →
    match lib.read file with
    | some t => ∀ x ∈ settings, x.Defined t (x.get p)
    | none => ∀ old', ∃ p' file'', loadFile lib date file' old' = some (p', file'') ∧
        ∀ x ∈ settings, x.get p = x.get p'

/-- Every field is supplied by a file that can be read; one that cannot be read cannot
be written either. -/
def Suppliable (lib : XmlLib) (date : Bytes) (file : Option Bytes) : Prop :=
  match lib.read file with
  | some t => ∀ x ∈ settings, x.Supplied t
  | none => lib.write (initTree date) = none

/-! ### The fields one by one -/

/-- A name is not that of two sections. -/
theorem iequals_other {a b c : Bytes} (h : iequals a b = true) (hbc : iequals b c = false) :
    ¬iequals a c = true := by
  simp only [iequals, beq_iff_eq, beq_eq_false_iff_ne] at h hbc ⊢
  rw [h]
  exact hbc

section

variable (p : ParamConfig) {child : Bytes × Xml}

theorem loadChild_server (h : iequals child.1 (lit "Server") = true) :
    loadChild p child =
      { p with portFS := Setting.portFS.read child.2, portDP := Setting.portDP.read child.2 } :=
  if_pos h

theorem loadChild_ntp (h : iequals child.1 (lit "NTP") = true) :
    loadChild p child =
      { p with
        bNTP := Setting.bNTP.read child.2
        ipNTP := Setting.ipNTP.read child.2
        diffNTP := Setting.diffNTP.read child.2 } := by
  rw [loadChild, if_neg (iequals_other h (by decide)), if_pos h]

theorem loadChild_database (h : iequals child.1 (lit "Database") = true) :
    loadChild p child =
      { p with bDB := Setting.bDB.read child.2, urlDB := Setting.urlDB.read child.2 } := by
  rw [loadChild, if_neg (iequals_other h (by decide)), if_neg (iequals_other h (by decide)),
    if_pos h]

theorem loadChild_storage (h : iequals child.1 (lit "LocalStorage") = true) :
    loadChild p child =
      { p with
        bFreeStorage := Setting.bFreeStorage.read child.2
        minDiskStorage := Setting.minDiskStorage.read child.2
        pathStorage := Setting.pathStorage.read child.2 } := by
  rw [loadChild, if_neg (iequals_other h (by decide)), if_neg (iequals_other h (by decide)),
    if_neg (iequals_other h (by decide)), if_pos h]

end

/-- A section assigns its fields. -/
theorem get_loadChild_of_part {x : Setting} (hx : x ∈ settings) (p : ParamConfig)
    {child : Bytes × Xml} (h : iequals child.1 x.part = true) :
    x.get (loadChild p child) = x.read child.2 := by
  simp only [settings, List.mem_cons, List.not_mem_nil, or_false] at hx
  rcases hx with rfl | rfl | rfl | rfl | rfl | rfl | rfl | rfl | rfl | rfl
  iterate 2 exact congrArg _ (loadChild_server p h)
  iterate 3 exact congrArg _ (loadChild_ntp p h)
  iterate 2 exact congrArg _ (loadChild_database p h)
  iterate 3 exact congrArg _ (loadChild_storage p h)

/-- A child that is not a section of the field leaves it. -/
theorem get_loadChild_of_not_part {x : Setting} (hx : x ∈ settings) (p : ParamConfig)
    {child : Bytes × Xml} (h : ¬iequals child.1 x.part = true) :
    x.get (loadChild p child) = x.get p := by
  simp only [settings, List.mem_cons, List.not_mem_nil, or_false] at hx
  unfold loadChild
  split_ifs with h₁ h₂ h₃ h₄
  all_goals rcases hx with rfl | rfl | rfl | rfl | rfl | rfl | rfl | rfl | rfl | rfl
  all_goals first | rfl | contradiction

/-- A child assigns the field exactly if it is a section of it. -/
theorem get_loadChild {x : Setting} (hx : x ∈ settings) (p : ParamConfig) (child : Bytes × Xml) :
    x.get (loadChild p child) =
      if iequals child.1 x.part then x.read child.2 else x.get p := by
  split_ifs with h
  · exact get_loadChild_of_part hx p h
  · exact get_loadChild_of_not_part hx p h

/-- Before the loop every field can hold something that is not its default. -/
theorem exists_undefined {x : Setting} (hx : x ∈ settings) :
    ∃ old, x.get (clearPath old) ≠ x.default := by
  refine ⟨⟨0, 0, false, [], 0, true, [], false, 0, []⟩, ?_⟩
  simp only [settings, List.mem_cons, List.not_mem_nil, or_false] at hx
  rcases hx with rfl | rfl | rfl | rfl | rfl | rfl | rfl | rfl | rfl | rfl
  · show (0 : UInt16) ≠ 4020; decide
  · show (0 : UInt16) ≠ 4021; decide
  · show false ≠ true; decide
  · show ([] : Bytes) ≠ lit "192.168.10.111"; decide
  · show (0 : ℤ) ≠ 500; decide
  · show true ≠ false; decide
  · show ([] : Bytes) ≠ lit "http://192.168.10.20:8080/gwebend/"; decide
  · show false ≠ true; decide
  · show (0 : ℤ) ≠ 500; decide
  · show ([] : Bytes) ≠ lit "/data"; decide

/-! ### What loading leaves -/

/-- The last section of a field counts; without one the field stays. -/
theorem get_loadTree {x : Setting} (hx : x ∈ settings) (t : Xml) (p : ParamConfig) :
    x.get (loadTree t p) = ((x.parts t).getLast?.map x.read).getD (x.get (clearPath p)) := by
  have h := foldl_assign (fun p child => get_loadChild hx p child) (clearPath p) t.children
  rw [loadTree, h, Setting.parts, List.getLast?_map, Option.map_map]
  rfl

/-- What is found in a section is a value of the file. -/
theorem Setting.mem_given_of_find {x : Setting} {t part : Xml} {v : x.Value}
    (hpart : part ∈ x.parts t) (hv : x.find part = some v) : v ∈ x.given t := by
  obtain ⟨u, hwalk, hu⟩ := Option.bind_eq_some_iff.mp hv
  refine List.mem_filterMap.mpr ⟨u, ?_, hu⟩
  exact List.mem_flatMap.mpr ⟨part, hpart, Ptree.mem_every_of_walk hwalk⟩

/-- Without a section there is no value. -/
theorem Setting.given_eq_nil {x : Setting} {t : Xml} (h : x.parts t = []) : x.given t = [] := by
  rw [given, h]
  rfl

/-- A field has a value of the file or the default, whatever it has held, exactly if it is
supplied. -/
theorem forall_defined_iff {x : Setting} (hx : x ∈ settings) (t : Xml) :
    (∀ old, x.Defined t (x.get (loadTree t old))) ↔ x.Supplied t := by
  simp only [get_loadTree hx]
  cases hlast : (x.parts t).getLast? with
  | none =>
    have hgiven := Setting.given_eq_nil (List.getLast?_eq_none_iff.mp hlast)
    obtain ⟨old, hold⟩ := exists_undefined hx
    refine iff_of_false (fun h => ?_) fun ⟨part, hpart, _⟩ => ?_
    · rcases h old with hmem | ⟨-, heq⟩
      · exact absurd (hgiven ▸ hmem) List.not_mem_nil
      · exact hold heq
    · rw [hlast] at hpart
      cases hpart
  | some part =>
    have hmem := List.mem_of_getLast? hlast
    have hread : ∀ old, ((some part).map x.read).getD (x.get (clearPath old)) = x.read part :=
      fun _ => rfl
    simp only [hread, Setting.Supplied, hlast, Option.some.injEq, exists_eq_left', forall_const]
    cases hfind : x.find part with
    | none =>
      have hdefault : x.read part = x.default := by rw [Setting.read, hfind]; rfl
      simp [Setting.Defined, hdefault, or_comm]
    | some v =>
      have hv : x.read part = v := by rw [Setting.read, hfind]; rfl
      refine iff_of_true (Or.inl ?_) (Or.inl rfl)
      rw [hv]
      exact Setting.mem_given_of_find hmem hfind

/-- After a file that cannot be read the fields are those of the file that has been written
only if none could be written. -/
theorem definedAfter_malformed {lib : XmlLib} {date : Bytes} {file : Option Bytes}
    (hread : lib.read file = none) :
    DefinedAfter lib date file ↔ lib.write (initTree date) = none := by
  have hload (old) : loadFile lib date file old =
      (lib.write (initTree date)).map fun written => (clearPath old, some written) := by
    unfold loadFile
    rw [hread]
    cases lib.write (initTree date) <;> rfl
  simp only [DefinedAfter, hload, hread]
  cases lib.write (initTree date) with
  | none => simp
  | some written =>
    refine iff_of_false (fun h => ?_) nofun
    let old (n : UInt16) : ParamConfig := ⟨n, 0, false, [], 0, true, [], false, 0, []⟩
    obtain ⟨p₀, file₀, hload₀, h₀⟩ := h (old 0) _ _ rfl (old 0)
    obtain ⟨p₁, file₁, hload₁, h₁⟩ := h (old 1) _ _ rfl (old 0)
    obtain ⟨rfl, -⟩ := Prod.mk.inj (Option.some.inj (hload₀.symm.trans hload₁))
    have hfirst : Setting.portFS ∈ settings := List.mem_cons_self ..
    have h01 : (0 : UInt16) = 1 := (h₀ _ hfirst).trans (h₁ _ hfirst).symm
    exact absurd h01 (by decide)

/-- The fields are defined after loading exactly if the file supplies each of them. -/
theorem definedAfter_iff (lib : XmlLib) (date : Bytes) (file : Option Bytes) :
    DefinedAfter lib date file ↔ Suppliable lib date file := by
  cases hread : lib.read file with
  | none => rw [definedAfter_malformed hread, Suppliable, hread]
  | some t =>
    have hload (old) : loadFile lib date file old = some (loadTree t old, file) := by
      unfold loadFile
      rw [hread]
    simp only [DefinedAfter, Suppliable, hload, hread, Option.some.injEq, Prod.mk.injEq]
    constructor
    · intro h x hx
      exact (forall_defined_iff hx t).mp fun old => h old _ _ ⟨rfl, rfl⟩ x hx
    · rintro h old _ _ ⟨rfl, rfl⟩ x hx
      exact (forall_defined_iff hx t).mpr (h x hx) old

/-- What is loaded from the tree of `InitFile`. -/
theorem loadTree_initTree (date : Bytes) (p : ParamConfig) :
    loadTree (initTree date) p =
      ⟨4020, 4021, true, lit "192.168.10.111", 1000, false,
        lit "http://192.168.10.20:8080/gwebend/", true, 500, lit "/data"⟩ := rfl

/-- These are the defaults of `LoadFile`, but for the difference of the clocks. -/
theorem get_loadTree_initTree {x : Setting} (hx : x ∈ settings)
    (hdiff : x.path ≠ Setting.diffNTP.path) (date : Bytes) (p : ParamConfig) :
    x.get (loadTree (initTree date) p) = x.default := by
  rw [loadTree_initTree]
  simp only [settings, List.mem_cons, List.not_mem_nil, or_false] at hx
  rcases hx with rfl | rfl | rfl | rfl | rfl | rfl | rfl | rfl | rfl | rfl
  iterate 4 rfl
  · exact absurd rfl hdiff
  iterate 5 rfl

/-! ### An empty file -/

/-- The library with an empty text, which is a tree without children. -/
def emptyXml : XmlLib where
  read file := if file = some [] then some (.node [] []) else none
  write _ := none

/-- After an empty file the fields are what they have been. -/
theorem not_definedAfter_empty :
    ¬∀ (lib : XmlLib) (date : Bytes) (file : Option Bytes), DefinedAfter lib date file := by
  intro h
  let old : ParamConfig := { (default : ParamConfig) with portFS := 1 }
  have hport : Setting.portFS.Defined (.node [] []) (1 : UInt16) :=
    h emptyXml (lit "20240110T120000") (some []) old _ _ rfl Setting.portFS (List.mem_cons_self ..)
  rcases hport with hgiven | ⟨-, hdefault⟩
  · cases hgiven
  · exact absurd (show (1 : UInt16) = 4020 from hdefault) (by decide)

end FtServer
