/-
FtServer/Compact.lean

The encoders `Compact*` that take a message.  Each puts the type, the time tag
and the ids that are set in front (`compact_base`), joins its own fields as
`keyword=value,` and hands the text to `output_compacted`, which takes
punctuation and white space off its end and adds the newline.

The pointer that may be null is an `Option`, and so is the result: `none` is
`NULL`.  With the line an encoder returns the message, whose time tag it sets.
`Apbase.compact` is the encoder of the class of the message.
-/
import Mathlib.Data.List.DropRight
import FtServer.AsciiProtocol
import FtServer.Numerals

namespace FtServer

/-! ### Printing -/

/-- What the encoders use of `double` besides: what a stream prints, and the
comparisons. -/
structure DoubleFmt (δ : Type) extends DoubleLib δ where
  format : δ → Bytes
  le : δ → δ → Bool
  lt : δ → δ → Bool

/-- `ispunct`. -/
def isPunct (b : UInt8) : Bool :=
  (33 ≤ b && b ≤ 47) || (58 ≤ b && b ≤ 64) || (91 ≤ b && b ≤ 96) || (123 ≤ b && b ≤ 126)

/-- `join_kv`, with the value as it is printed. -/
def joinKv (output : Bytes) (keyword : String) (value : Bytes) : Bytes :=
  output ++ lit keyword ++ 61 :: value ++ [44]

/-- `output_compacted`. -/
def outputCompacted (output : Bytes) : Bytes :=
  cstr (output.rdropWhile fun b => isPunct b || isSpace b) ++ [10]

/-- `compact_base`, at the time `now`. -/
def compactBase (now : Bytes) (base : AsciiProtoBase) : AsciiProtoBase × Bytes :=
  let base := { base with utc := now }
  let output := base.type ++ [32]
  let output := joinKv output "utc" base.utc
  let output := if base.gid.isEmpty then output else joinKv output "gid" base.gid
  let output := if base.uid.isEmpty then output else joinKv output "uid" base.uid
  let output := if base.cid.isEmpty then output else joinKv output "cid" base.cid
  (base, output)

/-- The common part of the encoders: the base, and the fields in order.
`setBase` puts the base with the time tag into the message. -/
def compactFields {α : Type} (now : Bytes) (base : AsciiProtoBase) (setBase : AsciiProtoBase → α)
    (kvs : List (String × Bytes)) : α × Bytes :=
  let (base, output) := compactBase now base
  let output := kvs.foldl (fun output kv => joinKv output kv.1 kv.2) output
  (setBase base, outputCompacted output)

/-! ### Encoders -/

section Encoders

variable {δ : Type} (fmt : DoubleFmt δ) (now : Bytes)

/-- `valid_ra`. -/
def validRa (ra : δ) : Bool := fmt.le (fmt.literal 0) ra && fmt.lt ra (fmt.literal 360)

/-- `valid_dec`. -/
def validDec (dec : δ) : Bool := fmt.le (fmt.literal (-90)) dec && fmt.le dec (fmt.literal 90)

def compactRegister (proto : Option AsciiProtoBase) : Option (AsciiProtoBase × Bytes) := do
  let proto ← proto
  pure (compactFields now proto id [])

def compactStart (proto : Option AsciiProtoBase) : Option (AsciiProtoBase × Bytes) := do
  let proto ← proto
  pure (compactFields now proto id [])

def compactStop (proto : Option AsciiProtoBase) : Option (AsciiProtoBase × Bytes) := do
  let proto ← proto
  pure (compactFields now proto id [])

def compactObsSite (proto : Option (AsciiProtoObsite δ)) :
    Option (AsciiProtoObsite δ × Bytes) := do
  let proto ← proto
  pure (compactFields now proto.toAsciiProtoBase (fun b => { proto with toAsciiProtoBase := b })
    [("sitename", proto.sitename), ("longitude", fmt.format proto.lon),
      ("latitude", fmt.format proto.lat), ("altitude", fmt.format proto.alt),
      ("timezone", printInt proto.timezone)])

def compactHomeSync (proto : Option (AsciiProtoHomeSync δ)) :
    Option (AsciiProtoHomeSync δ × Bytes) := do
  let proto ← proto
  if validRa fmt proto.ra && validDec fmt proto.dec then
    pure (compactFields now proto.toAsciiProtoBase (fun b => { proto with toAsciiProtoBase := b })
      [("ra", fmt.format proto.ra), ("dec", fmt.format proto.dec)])
  else none

def compactSlewto (proto : Option (AsciiProtoSlewto δ)) :
    Option (AsciiProtoSlewto δ × Bytes) := do
  let proto ← proto
  pure (compactFields now proto.toAsciiProtoBase (fun b => { proto with toAsciiProtoBase := b })
    [("coorsys", printInt proto.coorsys), ("coor1", fmt.format proto.coor1),
      ("coor2", fmt.format proto.coor2)])

def compactTrack (proto : Option AsciiProtoTrack) : Option (AsciiProtoTrack × Bytes) := do
  let proto ← proto
  pure (compactFields now proto.toAsciiProtoBase (fun b => { proto with toAsciiProtoBase := b })
    [("objid", proto.objid), ("line1", proto.line1), ("line2", proto.line2)])

def compactPark (proto : Option AsciiProtoBase) : Option (AsciiProtoBase × Bytes) := do
  let proto ← proto
  pure (compactFields now proto id [])

def compactAbortSlew (proto : Option AsciiProtoBase) : Option (AsciiProtoBase × Bytes) := do
  let proto ← proto
  pure (compactFields now proto id [])

def compactMount (proto : Option (AsciiProtoMount δ)) : Option (AsciiProtoMount δ × Bytes) := do
  let proto ← proto
  pure (compactFields now proto.toAsciiProtoBase (fun b => { proto with toAsciiProtoBase := b })
    [("state", printInt proto.state), ("errcode", printInt proto.errcode),
      ("ra", fmt.format proto.ra), ("dec", fmt.format proto.dec),
      ("azi", fmt.format proto.azi), ("alt", fmt.format proto.alt)])

def compactFWHM (proto : Option (AsciiProtoFwhm δ)) : Option (AsciiProtoFwhm δ × Bytes) := do
  let proto ← proto
  pure (compactFields now proto.toAsciiProtoBase (fun b => { proto with toAsciiProtoBase := b })
    [("value", fmt.format proto.value)])

def compactFocus (proto : Option AsciiProtoFocus) : Option (AsciiProtoFocus × Bytes) := do
  let proto ← proto
  if proto.value = Int32.minValue then none
  else
    pure (compactFields now proto.toAsciiProtoBase (fun b => { proto with toAsciiProtoBase := b })
      [("value", printInt proto.value)])

def compactSlit (proto : Option AsciiProtoSlit) : Option (AsciiProtoSlit × Bytes) := do
  let proto ← proto
  let state := if proto.state = Int32.minValue then [] else [("state", printInt proto.state)]
  let command :=
    if proto.command = Int32.minValue then [] else [("command", printInt proto.command)]
  pure (compactFields now proto.toAsciiProtoBase (fun b => { proto with toAsciiProtoBase := b })
    (state ++ command))

def compactTakeImage (proto : Option (AsciiProtoTakeImage δ)) :
    Option (AsciiProtoTakeImage δ × Bytes) := do
  let proto ← proto
  pure (compactFields now proto.toAsciiProtoBase (fun b => { proto with toAsciiProtoBase := b })
    [("objname", proto.objname), ("imgtype", proto.imgtype),
      ("expdur", fmt.format proto.expdur), ("frmcnt", printInt proto.frmcnt)])

def compactAbortImage (proto : Option AsciiProtoBase) : Option (AsciiProtoBase × Bytes) := do
  let proto ← proto
  pure (compactFields now proto id [])

def compactObject (proto : Option (AsciiProtoObject δ)) :
    Option (AsciiProtoObject δ × Bytes) := do
  let proto ← proto
  if proto.plan_sn.isEmpty then none
  else
    pure (compactFields now proto.toAsciiProtoBase (fun b => { proto with toAsciiProtoBase := b })
      [("plan_type", printInt proto.plan_type), ("plan_sn", proto.plan_sn),
        ("objname", proto.objname), ("btime", proto.btime), ("etime", proto.etime),
        ("imgtype", proto.imgtype), ("sabbr", proto.sabbr),
        ("iimgtyp", printInt proto.iimgtyp), ("expdur", fmt.format proto.expdur),
        ("frmcnt", printInt proto.frmcnt)])

def compactCamera (proto : Option (AsciiProtoCamera δ)) :
    Option (AsciiProtoCamera δ × Bytes) := do
  let proto ← proto
  pure (compactFields now proto.toAsciiProtoBase (fun b => { proto with toAsciiProtoBase := b })
    [("state", printInt proto.state), ("errcode", printInt proto.errcode),
      ("coolget", fmt.format proto.coolget)])

def compactFileInfo (proto : Option AsciiProtoFileinfo) :
    Option (AsciiProtoFileinfo × Bytes) := do
  let proto ← proto
  pure (compactFields now proto.toAsciiProtoBase (fun b => { proto with toAsciiProtoBase := b })
    [("tmobs", proto.tmobs), ("subpath", proto.subpath), ("filename", proto.filename),
      ("filesize", printInt proto.filesize)])

def compactFileStat (proto : Option AsciiProtoFilestat) :
    Option (AsciiProtoFilestat × Bytes) := do
  let proto ← proto
  pure (compactFields now proto.toAsciiProtoBase (fun b => { proto with toAsciiProtoBase := b })
    [("status", printInt proto.status)])

/-- The encoder of the class; no encoder takes a message of rain or exposure. -/
def Apbase.compact : Apbase δ → Option (Apbase δ × Bytes)
  | .reg p => (compactRegister now (some p)).map (Prod.map .reg id)
  | .start p => (compactStart now (some p)).map (Prod.map .start id)
  | .stop p => (compactStop now (some p)).map (Prod.map .stop id)
  | .obsite p => (compactObsSite fmt now (some p)).map (Prod.map .obsite id)
  | .homeSync p => (compactHomeSync fmt now (some p)).map (Prod.map .homeSync id)
  | .slewto p => (compactSlewto fmt now (some p)).map (Prod.map .slewto id)
  | .track p => (compactTrack now (some p)).map (Prod.map .track id)
  | .park p => (compactPark now (some p)).map (Prod.map .park id)
  | .abortSlew p => (compactAbortSlew now (some p)).map (Prod.map .abortSlew id)
  | .mount p => (compactMount fmt now (some p)).map (Prod.map .mount id)
  | .focus p => (compactFocus now (some p)).map (Prod.map .focus id)
  | .slit p => (compactSlit now (some p)).map (Prod.map .slit id)
  | .fwhm p => (compactFWHM fmt now (some p)).map (Prod.map .fwhm id)
  | .takeImage p => (compactTakeImage fmt now (some p)).map (Prod.map .takeImage id)
  | .abortImage p => (compactAbortImage now (some p)).map (Prod.map .abortImage id)
  | .object p => (compactObject fmt now (some p)).map (Prod.map .object id)
  | .camera p => (compactCamera fmt now (some p)).map (Prod.map .camera id)
  | .fileinfo p => (compactFileInfo now (some p)).map (Prod.map .fileinfo id)
  | .filestat p => (compactFileStat now (some p)).map (Prod.map .filestat id)
  | .rain _ | .expose _ => none

end Encoders

example : (compactFileStat (lit "now") (some { type := lit "filestat", status := 1 })).map
    Prod.snd = some (lit "filestat utc=now,status=1\n") := by decide

end FtServer
