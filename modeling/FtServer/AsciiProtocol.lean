/-
FtServer/AsciiProtocol.lean

The ASCII protocol: the messages and the parser `resolve`.  A line is

    type [keyword=value,]+<newline>

and `resolve` is given the text before the newline.  It reads the type token,
splits the rest into `keyword=value` tokens, takes the four common items out of
them and hands the others to the resolver of the message type.  The result is
the shared pointer of the source as an `Option`: `none` is the null pointer.
Conversions may throw; an exception is the `error` of the result.

The C++ messages form a class hierarchy that `from_apbase` casts down
statically.  Here the hierarchy is the inductive type `Apbase`, and
`resolve_fileinfo_cast` states that the one cast the receiver makes, on the
strength of the type text, is a cast to the object's own class.
-/
import Mathlib.Algebra.Group.Int.Defs
import FtServer.Text

namespace FtServer

/-! ### Messages -/

/-- `ascii_proto_base`. -/
structure AsciiProtoBase where
  type : Bytes
  utc : Bytes := []
  gid : Bytes := []
  uid : Bytes := []
  cid : Bytes := []
  deriving DecidableEq, Repr

structure AsciiProtoObsite (δ : Type) extends AsciiProtoBase where
  sitename : Bytes := []
  lon : δ
  lat : δ
  alt : δ
  timezone : Int32 := 8

structure AsciiProtoHomeSync (δ : Type) extends AsciiProtoBase where
  ra : δ
  dec : δ

structure AsciiProtoSlewto (δ : Type) extends AsciiProtoBase where
  coorsys : Int32 := 1
  coor1 : δ
  coor2 : δ

structure AsciiProtoTrack extends AsciiProtoBase where
  objid : Bytes := []
  line1 : Bytes := []
  line2 : Bytes := []

/-- The default state 0 is `TELESCOPE_ERROR`. -/
structure AsciiProtoMount (δ : Type) extends AsciiProtoBase where
  state : Int32 := 0
  errcode : Int32 := Int32.minValue
  ra : δ
  dec : δ
  azi : δ
  alt : δ

structure AsciiProtoTakeImage (δ : Type) extends AsciiProtoBase where
  objname : Bytes := []
  imgtype : Bytes := []
  expdur : δ
  frmcnt : Int32 := 0

/-- The default image type 0 is `IMGTYPE_ERROR`. -/
structure AsciiProtoObject (δ : Type) extends AsciiProtoBase where
  plan_type : Int32 := 0
  plan_sn : Bytes := []
  objname : Bytes := []
  btime : Bytes := []
  etime : Bytes := []
  imgtype : Bytes := []
  sabbr : Bytes := []
  iimgtyp : Int32 := 0
  expdur : δ
  frmcnt : Int32 := -1

structure AsciiProtoExpose extends AsciiProtoBase where
  command : Int32 := 0

/-- The default state 0 is `TELESCOPE_ERROR`. -/
structure AsciiProtoCamera (δ : Type) extends AsciiProtoBase where
  state : Int32 := 0
  errcode : Int32 := Int32.minValue
  coolget : δ

structure AsciiProtoFwhm (δ : Type) extends AsciiProtoBase where
  value : δ

structure AsciiProtoFocus extends AsciiProtoBase where
  state : Int32 := Int32.minValue
  value : Int32 := Int32.minValue

structure AsciiProtoSlit extends AsciiProtoBase where
  state : Int32 := Int32.minValue
  command : Int32 := Int32.minValue

structure AsciiProtoRain extends AsciiProtoBase where
  value : Int32 := 0

/-- `ascii_proto_fileinfo`: client to server, describes the file to come. -/
structure AsciiProtoFileinfo extends AsciiProtoBase where
  tmobs : Bytes := []
  subpath : Bytes := []
  filename : Bytes := []
  filesize : Int32 := Int32.minValue
  deriving DecidableEq, Repr

/-- `ascii_proto_filestat`: server to client, 1 for ready, 2 for received and
3 for a reception error. -/
structure AsciiProtoFilestat extends AsciiProtoBase where
  status : Int32 := Int32.minValue
  deriving DecidableEq, Repr

/-- The object behind an `apbase` pointer, by class. -/
inductive Apbase (δ : Type)
  | reg (p : AsciiProtoBase)
  | start (p : AsciiProtoBase)
  | stop (p : AsciiProtoBase)
  | obsite (p : AsciiProtoObsite δ)
  | homeSync (p : AsciiProtoHomeSync δ)
  | slewto (p : AsciiProtoSlewto δ)
  | track (p : AsciiProtoTrack)
  | park (p : AsciiProtoBase)
  | abortSlew (p : AsciiProtoBase)
  | mount (p : AsciiProtoMount δ)
  | rain (p : AsciiProtoRain)
  | focus (p : AsciiProtoFocus)
  | slit (p : AsciiProtoSlit)
  | fwhm (p : AsciiProtoFwhm δ)
  | takeImage (p : AsciiProtoTakeImage δ)
  | abortImage (p : AsciiProtoBase)
  | object (p : AsciiProtoObject δ)
  | expose (p : AsciiProtoExpose)
  | camera (p : AsciiProtoCamera δ)
  | fileinfo (p : AsciiProtoFileinfo)
  | filestat (p : AsciiProtoFilestat)

namespace Apbase

variable {δ : Type}

/-- The base class part. -/
def base : Apbase δ → AsciiProtoBase
  | reg p | start p | stop p | park p | abortSlew p | abortImage p => p
  | obsite p => p.toAsciiProtoBase
  | homeSync p => p.toAsciiProtoBase
  | slewto p => p.toAsciiProtoBase
  | track p => p.toAsciiProtoBase
  | mount p => p.toAsciiProtoBase
  | rain p => p.toAsciiProtoBase
  | focus p => p.toAsciiProtoBase
  | slit p => p.toAsciiProtoBase
  | fwhm p => p.toAsciiProtoBase
  | takeImage p => p.toAsciiProtoBase
  | object p => p.toAsciiProtoBase
  | expose p => p.toAsciiProtoBase
  | camera p => p.toAsciiProtoBase
  | fileinfo p => p.toAsciiProtoBase
  | filestat p => p.toAsciiProtoBase

/-- Assign the base class part. -/
def setBase (b : AsciiProtoBase) : Apbase δ → Apbase δ
  | reg _ => reg b
  | start _ => start b
  | stop _ => stop b
  | park _ => park b
  | abortSlew _ => abortSlew b
  | abortImage _ => abortImage b
  | obsite p => obsite { p with toAsciiProtoBase := b }
  | homeSync p => homeSync { p with toAsciiProtoBase := b }
  | slewto p => slewto { p with toAsciiProtoBase := b }
  | track p => track { p with toAsciiProtoBase := b }
  | mount p => mount { p with toAsciiProtoBase := b }
  | rain p => rain { p with toAsciiProtoBase := b }
  | focus p => focus { p with toAsciiProtoBase := b }
  | slit p => slit { p with toAsciiProtoBase := b }
  | fwhm p => fwhm { p with toAsciiProtoBase := b }
  | takeImage p => takeImage { p with toAsciiProtoBase := b }
  | object p => object { p with toAsciiProtoBase := b }
  | expose p => expose { p with toAsciiProtoBase := b }
  | camera p => camera { p with toAsciiProtoBase := b }
  | fileinfo p => fileinfo { p with toAsciiProtoBase := b }
  | filestat p => filestat { p with toAsciiProtoBase := b }

@[simp] theorem base_setBase (b : AsciiProtoBase) (m : Apbase δ) : (m.setBase b).base = b := by
  cases m <;> rfl

@[simp] theorem setBase_setBase (b b' : AsciiProtoBase) (m : Apbase δ) :
    (m.setBase b').setBase b = m.setBase b := by
  cases m <;> rfl

end Apbase

/-! ### Keyword and value -/

/-- `pair_key_val`. -/
structure PairKeyVal where
  keyword : Bytes
  value : Bytes
  deriving DecidableEq, Repr

/-- `resolve_kv`: the text before the first `=` and the text up to the next
one, both trimmed; `none` when either is empty. -/
def resolveKv (kv : Bytes) : Option PairKeyVal :=
  let tokens := splitCompress 61 kv
  let keyword := trim (tokens.headD [])
  let value := trim (tokens.tail.headD [])
  if keyword.isEmpty || value.isEmpty then none else some ⟨keyword, value⟩

/-- One round of `resolve_kv_array`: a common item is stored in the base, any
other is kept for the resolver of the type. -/
def resolveKvStep (acc : List PairKeyVal × AsciiProtoBase) (token : Bytes) :
    List PairKeyVal × AsciiProtoBase :=
  match resolveKv token with
  | none => acc
  | some kv =>
    if iequals kv.keyword (lit "utc") then (acc.1, { acc.2 with utc := kv.value })
    else if iequals kv.keyword (lit "gid") then (acc.1, { acc.2 with gid := kv.value })
    else if iequals kv.keyword (lit "uid") then (acc.1, { acc.2 with uid := kv.value })
    else if iequals kv.keyword (lit "cid") then (acc.1, { acc.2 with cid := kv.value })
    else (acc.1 ++ [kv], acc.2)

/-- `resolve_kv_array`. -/
def resolveKvArray (tokens : List Bytes) : List PairKeyVal × AsciiProtoBase :=
  tokens.foldl resolveKvStep ([], { type := [] })

/-! ### Resolvers of the message types -/

section Resolvers

variable {δ : Type} (dbl : DoubleLib δ)

def resolveObsite (kvs : List PairKeyVal) : Except StdException (AsciiProtoObsite δ) :=
  kvs.foldlM (fun proto kv => do
    if iequals kv.keyword (lit "sitename") then pure { proto with sitename := kv.value }
    else if iequals kv.keyword (lit "longitude") then
      pure { proto with lon := ← dbl.stod kv.value }
    else if iequals kv.keyword (lit "latitude") then
      pure { proto with lat := ← dbl.stod kv.value }
    else if iequals kv.keyword (lit "altitude") then
      pure { proto with alt := ← dbl.stod kv.value }
    else if iequals kv.keyword (lit "timezone") then
      pure { proto with timezone := ← stoi kv.value }
    else pure proto)
    { type := lit "obsite", lon := dbl.literal 0, lat := dbl.literal 0, alt := dbl.literal 0 }

def resolveHomesync (kvs : List PairKeyVal) : Except StdException (AsciiProtoHomeSync δ) :=
  kvs.foldlM (fun proto kv => do
    if iequals kv.keyword (lit "ra") then pure { proto with ra := ← dbl.stod kv.value }
    else if iequals kv.keyword (lit "dec") then pure { proto with dec := ← dbl.stod kv.value }
    else pure proto)
    { type := lit "home_sync", ra := dbl.literal (10 ^ 30), dec := dbl.literal (10 ^ 30) }

def resolveSlewto (kvs : List PairKeyVal) : Except StdException (AsciiProtoSlewto δ) :=
  kvs.foldlM (fun proto kv => do
    if iequals kv.keyword (lit "coorsys") then pure { proto with coorsys := ← stoi kv.value }
    else if iequals kv.keyword (lit "coor1") then
      pure { proto with coor1 := ← dbl.stod kv.value }
    else if iequals kv.keyword (lit "coor2") then
      pure { proto with coor2 := ← dbl.stod kv.value }
    else pure proto)
    { type := lit "slewto", coor1 := dbl.literal 180, coor2 := dbl.literal 40 }

def resolveTrack (kvs : List PairKeyVal) : AsciiProtoTrack :=
  kvs.foldl (fun proto kv =>
    if iequals kv.keyword (lit "objid") then { proto with objid := kv.value }
    else if iequals kv.keyword (lit "line1") then { proto with line1 := kv.value }
    else if iequals kv.keyword (lit "line2") then { proto with line2 := kv.value }
    else proto)
    { type := lit "track" }

def resolveMount (kvs : List PairKeyVal) : Except StdException (AsciiProtoMount δ) :=
  kvs.foldlM (fun proto kv => do
    if iequals kv.keyword (lit "state") then pure { proto with state := ← stoi kv.value }
    else if iequals kv.keyword (lit "errcode") then
      pure { proto with errcode := ← stoi kv.value }
    else if iequals kv.keyword (lit "ra") then pure { proto with ra := ← dbl.stod kv.value }
    else if iequals kv.keyword (lit "dec") then pure { proto with dec := ← dbl.stod kv.value }
    else if iequals kv.keyword (lit "azi") then pure { proto with azi := ← dbl.stod kv.value }
    else if iequals kv.keyword (lit "alt") then pure { proto with alt := ← dbl.stod kv.value }
    else pure proto)
    { type := lit "mount", ra := dbl.literal (10 ^ 30), dec := dbl.literal (10 ^ 30),
      azi := dbl.literal (10 ^ 30), alt := dbl.literal (10 ^ 30) }

def resolveFwhm (kvs : List PairKeyVal) : Except StdException (AsciiProtoFwhm δ) :=
  kvs.foldlM (fun proto kv => do
    if iequals kv.keyword (lit "value") then pure { proto with value := ← dbl.stod kv.value }
    else pure proto)
    { type := lit "fwhm", value := dbl.literal 0 }

def resolveFocus (kvs : List PairKeyVal) : Except StdException AsciiProtoFocus :=
  kvs.foldlM (fun proto kv => do
    if iequals kv.keyword (lit "state") then pure { proto with state := ← stoi kv.value }
    else if iequals kv.keyword (lit "value") then pure { proto with value := ← stoi kv.value }
    else pure proto)
    { type := lit "focus" }

def resolveSlit (kvs : List PairKeyVal) : Except StdException AsciiProtoSlit :=
  kvs.foldlM (fun proto kv => do
    if iequals kv.keyword (lit "state") then pure { proto with state := ← stoi kv.value }
    else if iequals kv.keyword (lit "command") then
      pure { proto with command := ← stoi kv.value }
    else pure proto)
    { type := lit "slit" }

def resolveRain (kvs : List PairKeyVal) : Except StdException AsciiProtoRain :=
  kvs.foldlM (fun proto kv => do
    if iequals kv.keyword (lit "value") then pure { proto with value := ← stoi kv.value }
    else pure proto)
    { type := lit "rain" }

def resolveTakeimg (kvs : List PairKeyVal) : Except StdException (AsciiProtoTakeImage δ) :=
  kvs.foldlM (fun proto kv => do
    if iequals kv.keyword (lit "objname") then pure { proto with objname := kv.value }
    else if iequals kv.keyword (lit "imgtype") then pure { proto with imgtype := kv.value }
    else if iequals kv.keyword (lit "expdur") then
      pure { proto with expdur := ← dbl.stod kv.value }
    else if iequals kv.keyword (lit "frmcnt") then pure { proto with frmcnt := ← stoi kv.value }
    else pure proto)
    { type := lit "take_image", expdur := dbl.literal 0 }

/-- The source compares the first byte of the keyword, exactly, before it
compares some of the keywords without regard to case. -/
def resolveObject (kvs : List PairKeyVal) : Except StdException (AsciiProtoObject δ) :=
  kvs.foldlM (fun proto kv => do
    let ch := kv.keyword.headD 0
    if iequals kv.keyword (lit "btime") then pure { proto with btime := kv.value }
    else if ch == 101 then  -- 'e'
      if iequals kv.keyword (lit "expdur") then
        pure { proto with expdur := ← dbl.stod kv.value }
      else if iequals kv.keyword (lit "etime") then pure { proto with etime := kv.value }
      else pure proto
    else if iequals kv.keyword (lit "frmcnt") then pure { proto with frmcnt := ← stoi kv.value }
    else if ch == 105 then  -- 'i'
      if iequals kv.keyword (lit "imgtype") then pure { proto with imgtype := kv.value }
      else if iequals kv.keyword (lit "iimgtyp") then
        pure { proto with iimgtyp := ← stoi kv.value }
      else pure proto
    else if iequals kv.keyword (lit "objname") then pure { proto with objname := kv.value }
    else if ch == 112 then  -- 'p'
      if iequals kv.keyword (lit "plan_sn") then pure { proto with plan_sn := kv.value }
      else if iequals kv.keyword (lit "plan_type") then
        pure { proto with plan_type := ← stoi kv.value }
      else pure proto
    else if iequals kv.keyword (lit "sabbr") then pure { proto with sabbr := kv.value }
    else pure proto)
    { type := lit "object", expdur := dbl.literal 0 }

def resolveExpose (kvs : List PairKeyVal) : Except StdException AsciiProtoExpose :=
  kvs.foldlM (fun proto kv => do
    if iequals kv.keyword (lit "command") then pure { proto with command := ← stoi kv.value }
    else pure proto)
    { type := lit "expose" }

def resolveCamera (kvs : List PairKeyVal) : Except StdException (AsciiProtoCamera δ) :=
  kvs.foldlM (fun proto kv => do
    if iequals kv.keyword (lit "state") then pure { proto with state := ← stoi kv.value }
    else if iequals kv.keyword (lit "errcode") then
      pure { proto with errcode := ← stoi kv.value }
    else if iequals kv.keyword (lit "coolget") then
      pure { proto with coolget := dbl.toFloat (← dbl.stod kv.value) }
    else pure proto)
    { type := lit "camera", coolget := dbl.toFloat (dbl.literal 0) }

def resolveFileinfo (kvs : List PairKeyVal) : Except StdException AsciiProtoFileinfo :=
  kvs.foldlM (fun proto kv => do
    if iequals kv.keyword (lit "tmobs") then pure { proto with tmobs := kv.value }
    else if iequals kv.keyword (lit "subpath") then pure { proto with subpath := kv.value }
    else if iequals kv.keyword (lit "filename") then pure { proto with filename := kv.value }
    else if iequals kv.keyword (lit "filesize") then
      pure { proto with filesize := ← stoi kv.value }
    else pure proto)
    { type := lit "fileinfo" }

def resolveFilestat (kvs : List PairKeyVal) : Except StdException AsciiProtoFilestat :=
  kvs.foldlM (fun proto kv => do
    if iequals kv.keyword (lit "status") then pure { proto with status := ← stoi kv.value }
    else pure proto)
    { type := lit "filestat" }

/-! ### The parser -/

/-- The dispatch of `Resolve` on the type token.  For the first letters
`a f o r s t` the byte itself is compared, so an upper case first letter of
these types is refused; the other types are compared without regard to case. -/
def resolveType (type : Bytes) (kvs : List PairKeyVal) :
    Except StdException (Option (Apbase δ)) := do
  let ch := type.headD 0
  if ch == 97 then  -- 'a'
    if iequals type (lit "abort_slew") then
      pure (some (.abortSlew { type := lit "abort_slew" }))
    else if iequals type (lit "abort_image") then
      pure (some (.abortImage { type := lit "abort_image" }))
    else pure none
  else if ch == 102 then  -- 'f'
    if iequals type (lit "fileinfo") then pure (some (.fileinfo (← resolveFileinfo kvs)))
    else if iequals type (lit "filestat") then pure (some (.filestat (← resolveFilestat kvs)))
    else if iequals type (lit "fwhm") then pure (some (.fwhm (← resolveFwhm dbl kvs)))
    else if iequals type (lit "focus") then pure (some (.focus (← resolveFocus kvs)))
    else pure none
  else if ch == 111 then  -- 'o'
    if iequals type (lit "object") then pure (some (.object (← resolveObject dbl kvs)))
    else if iequals type (lit "obsite") then pure (some (.obsite (← resolveObsite dbl kvs)))
    else pure none
  else if ch == 114 then  -- 'r'
    if iequals type (lit "rain") then pure (some (.rain (← resolveRain kvs)))
    else if iequals type (lit "register") then pure (some (.reg { type := lit "register" }))
    else pure none
  else if ch == 115 then  -- 's'
    if iequals type (lit "slewto") then pure (some (.slewto (← resolveSlewto dbl kvs)))
    else if iequals type (lit "start") then pure (some (.start { type := lit "start" }))
    else if iequals type (lit "stop") then pure (some (.stop { type := lit "stop" }))
    else if iequals type (lit "slit") then pure (some (.slit (← resolveSlit kvs)))
    else pure none
  else if ch == 116 then  -- 't'
    if iequals type (lit "take_image") then
      pure (some (.takeImage (← resolveTakeimg dbl kvs)))
    else if iequals type (lit "track") then pure (some (.track (resolveTrack kvs)))
    else pure none
  else if iequals type (lit "camera") then pure (some (.camera (← resolveCamera dbl kvs)))
  else if iequals type (lit "expose") then pure (some (.expose (← resolveExpose kvs)))
  else if iequals type (lit "mount") then pure (some (.mount (← resolveMount dbl kvs)))
  else if iequals type (lit "park") then pure (some (.park { type := lit "park" }))
  else if iequals type (lit "home_sync") then
    pure (some (.homeSync (← resolveHomesync dbl kvs)))
  else pure none

/-- `AsciiProtocol::Resolve` on the C string `rcvd`. -/
def resolve (rcvd : Bytes) : Except StdException (Option (Apbase δ)) := do
  let type := rcvd.takeWhile (· ≠ 32)
  let rest := (rcvd.dropWhile (· ≠ 32)).dropWhile (· == 32)
  let tokens := if rest.isEmpty then [] else splitCompress 44 rest
  let (kvs, basis) := resolveKvArray tokens
  let proto ← resolveType dbl type kvs
  pure (proto.map fun m => m.setBase { basis with type := type })

end Resolvers

/-! ### The cast of the receiver -/

variable {δ : Type} {dbl : DoubleLib δ}

/-- The resolver that the type token `fileinfo` selects builds a `fileinfo`. -/
theorem resolveType_fileinfo {kvs : List PairKeyVal} {m : Apbase δ}
    (h : resolveType dbl (lit "fileinfo") kvs = .ok (some m)) : ∃ p, m = .fileinfo p := by
  have hch : ((lit "fileinfo").headD 0 == 97) = false := by decide
  have hf : ((lit "fileinfo").headD 0 == 102) = true := by decide
  have hi : iequals (lit "fileinfo") (lit "fileinfo") = true := by decide
  simp only [resolveType, hch, hf, hi, Bool.false_eq_true, ↓reduceIte] at h
  rcases hr : resolveFileinfo kvs with e | p
  · simp [hr, bind, Except.bind] at h
  · simp only [hr, bind, Except.bind, pure, Except.pure, Except.ok.injEq,
      Option.some.injEq] at h
    exact ⟨p, h.symm⟩

/-- **The static cast of the receiver is valid**: a message whose type text is
`fileinfo` is a `fileinfo` object. -/
theorem resolve_fileinfo_cast {rcvd : Bytes} {m : Apbase δ}
    (h : resolve dbl rcvd = .ok (some m)) (ht : m.base.type = lit "fileinfo") :
    ∃ p, m = .fileinfo p := by
  simp only [resolve] at h
  generalize rcvd.takeWhile (· ≠ 32) = type at h
  generalize resolveKvArray _ = kb at h
  rcases hr : resolveType dbl type kb.1 with e | proto
  · simp [hr, bind, Except.bind] at h
  · simp only [hr, bind, Except.bind, pure, Except.pure, Except.ok.injEq] at h
    rcases proto with - | m₀
    · simp at h
    · simp only [Option.map_some, Option.some.injEq] at h
      obtain rfl : type = lit "fileinfo" := by simpa [← h] using ht
      obtain ⟨p, rfl⟩ := resolveType_fileinfo hr
      exact ⟨_, h.symm⟩

end FtServer
