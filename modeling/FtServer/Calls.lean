/-
FtServer/Calls.lean

The calls of the encoders.  Most commands have two encoders: one takes a
message, the other (`Args`) the plain arguments, for which it builds the header
itself.  `CompactCall` is a call of any of them, `CompactCall.line` the line that
it returns.

The type and the pairs of a call say what it sends, and `CompactCall.refused`
which calls return `NULL`.  `line_eq` is the spec of all encoders at once: a call
that is not refused returns its text, closed by a newline.
-/
import FtServer.RoundTrip

namespace FtServer

open Decoder

/-! ### Overloads with plain arguments -/

/-- `output_compacted` of a C string. -/
def outputText (s : Bytes) : Bytes := cstr s ++ [10]

/-- The common part of these overloads: the header, and the arguments in order. -/
def argsFields (type : Bytes) (kvs : List (String × Bytes)) : Bytes :=
  outputCompacted (kvs.foldl (fun output kv => joinKv output kv.1 kv.2) (type ++ [32]))

namespace Args

variable {δ : Type} (fmt : DoubleFmt δ)

def compactHomeSync (ra dec : δ) : Bytes :=
  argsFields (lit "home_sync") [("ra", fmt.format ra), ("dec", fmt.format dec)]

def compactSlewto (coorsys : Int32) (coor1 coor2 : δ) : Bytes :=
  argsFields (lit "slewto") [("coorsys", printInt coorsys), ("coor1", fmt.format coor1),
    ("coor2", fmt.format coor2)]

def compactTrack (objid line1 line2 : Bytes) : Bytes :=
  argsFields (lit "track") [("objid", objid), ("line1", line1), ("line2", line2)]

def compactPark : Bytes := outputText (lit "park")

def compactAbortSlew : Bytes := outputText (lit "abort_slew")

def compactFocus (position : Int32) : Bytes :=
  argsFields (lit "focus") [("value", printInt position)]

def compactSlit (state command : Int32) : Bytes :=
  let state := if state = Int32.minValue then [] else [("state", printInt state)]
  let command := if command = Int32.minValue then [] else [("command", printInt command)]
  argsFields (lit "slit") (state ++ command)

def compactRain (value : Bytes) : Bytes := argsFields (lit "rain") [("value", value)]

def compactExpose (cmd : Int32) : Bytes :=
  argsFields (lit "expose") [("command", printInt cmd)]

end Args

/-! ### Calls -/

/-- A call of an encoder.  A pointer may be null. -/
inductive CompactCall (δ : Type)
  | proto (p : Option (Apbase δ))
  | homeSync (ra dec : δ)
  | slewto (coorsys : Int32) (coor1 coor2 : δ)
  | track (objid line1 line2 : Bytes)
  | park
  | abortSlew
  | focus (position : Int32)
  | slit (state command : Int32)
  | rain (value : Bytes)
  | expose (cmd : Int32)

namespace CompactCall

variable {δ : Type} (fmt : DoubleFmt δ) (now : Bytes)

/-- The line that the call returns; `none` is `NULL`. -/
def line : CompactCall δ → Option Bytes
  | proto p => (p.bind (Apbase.compact fmt now)).map Prod.snd
  | homeSync ra dec => some (Args.compactHomeSync fmt ra dec)
  | slewto coorsys coor1 coor2 => some (Args.compactSlewto fmt coorsys coor1 coor2)
  | track objid line1 line2 => some (Args.compactTrack objid line1 line2)
  | park => some Args.compactPark
  | abortSlew => some Args.compactAbortSlew
  | focus position => some (Args.compactFocus position)
  | slit state command => some (Args.compactSlit state command)
  | rain value => some (Args.compactRain value)
  | expose cmd => some (Args.compactExpose cmd)

end CompactCall

/-! ### What a call sends -/

section

variable {δ : Type} (fmt : DoubleFmt δ) (now : Bytes)

/-- The pairs of a slit: a value that is not set is left out. -/
def slitPairs (state command : Int32) : List (String × Bytes) :=
  (if state = Int32.minValue then [] else [("state", printInt state)]) ++
    if command = Int32.minValue then [] else [("command", printInt command)]

/-- The pairs that the class of a message adds, as they are printed. -/
def Apbase.fields : Apbase δ → List (String × Bytes)
  | .track p => [("objid", p.objid), ("line1", p.line1), ("line2", p.line2)]
  | .slit p => slitPairs p.state p.command
  | m => m.written.map fun x => (x.1, x.2.print fmt)

/-- The messages that are not sent: a coordinate or a position out of range, no
plan; and no encoder takes a message of rain or exposure. -/
def Apbase.refused : Apbase δ → Bool
  | .homeSync p => !(validRa fmt p.ra && validDec fmt p.dec)
  | .focus p => p.value == Int32.minValue
  | .object p => p.plan_sn.isEmpty
  | .rain _ | .expose _ => true
  | _ => false

/-- **The encoders of the classes.** -/
theorem Apbase.compact_snd (m : Apbase δ) :
    (m.compact fmt now).map Prod.snd =
      if m.refused fmt then none
      else some (outputCompacted (m.base.type ++ 32 ::
        fieldsText (baseKvs now m.base ++ m.fields fmt))) := by
  have hfields : ∀ {β : Type} {base : AsciiProtoBase} {setBase : AsciiProtoBase → β}
      {f : β → Apbase δ} {kvs : List (String × Bytes)},
      Option.map Prod.snd (some (Prod.map f id (compactFields now base setBase kvs))) =
        some (outputCompacted (base.type ++ 32 :: fieldsText (baseKvs now base ++ kvs))) := by
    intro β base setBase f kvs
    rw [compactFields_eq]
    rfl
  cases m with
  | rain | expose => rfl
  | homeSync p =>
    rw [Apbase.compact, compactHomeSync, Apbase.refused, Option.bind_eq_bind, Option.bind_some]
    cases validRa fmt p.ra && validDec fmt p.dec
    · rfl
    · exact hfields
  | focus p =>
    rw [Apbase.compact, compactFocus, Apbase.refused, Option.bind_eq_bind, Option.bind_some]
    by_cases h : p.value = Int32.minValue
    · rw [if_pos h, if_pos (beq_iff_eq.mpr h)]
      rfl
    · rw [if_neg h, if_neg (by simpa using h)]
      exact hfields
  | object p =>
    rw [Apbase.compact, compactObject, Apbase.refused, Option.bind_eq_bind, Option.bind_some]
    cases p.plan_sn.isEmpty
    · exact hfields
    · rfl
  | _ => exact hfields

namespace CompactCall

/-- The calls that return `NULL`. -/
def refused : CompactCall δ → Bool
  | proto none => true
  | proto (some m) => m.refused fmt
  | _ => false

/-- The type that the line starts with. -/
def type : CompactCall δ → Bytes
  | proto none => []
  | proto (some m) => m.base.type
  | homeSync .. => lit "home_sync"
  | slewto .. => lit "slewto"
  | track .. => lit "track"
  | park => lit "park"
  | abortSlew => lit "abort_slew"
  | focus .. => lit "focus"
  | slit .. => lit "slit"
  | rain .. => lit "rain"
  | expose .. => lit "expose"

/-- The pairs that the call writes. -/
def pairs : CompactCall δ → List (String × Bytes)
  | proto none => []
  | proto (some m) => baseKvs now m.base ++ m.fields fmt
  | homeSync ra dec => [("ra", fmt.format ra), ("dec", fmt.format dec)]
  | slewto coorsys coor1 coor2 => [("coorsys", printInt coorsys), ("coor1", fmt.format coor1),
      ("coor2", fmt.format coor2)]
  | track objid line1 line2 => [("objid", objid), ("line1", line1), ("line2", line2)]
  | park | abortSlew => []
  | focus position => [("value", printInt position)]
  | slit state command => slitPairs state command
  | rain value => [("value", value)]
  | expose cmd => [("command", printInt cmd)]

/-- The text of the line: the type and the pairs, without punctuation and white
space at the end, up to a NUL. -/
def text (c : CompactCall δ) : Bytes :=
  cstr ((c.type ++ 32 :: fieldsText (c.pairs fmt now)).rdropWhile fun b => isPunct b || isSpace b)

theorem argsFields_eq (type : Bytes) (kvs : List (String × Bytes)) :
    argsFields type kvs = outputCompacted (type ++ 32 :: fieldsText kvs) := by
  rw [argsFields, foldl_joinKv]
  simp

/-- **The line of a call.** -/
theorem line_eq (c : CompactCall δ) :
    c.line fmt now = if c.refused fmt then none else some (c.text fmt now ++ [10]) := by
  cases c with
  | proto p =>
    cases p with
    | none => rfl
    | some m => exact m.compact_snd fmt now
  | park | abortSlew => rfl
  | homeSync | slewto | track | focus | slit | rain | expose =>
    exact congrArg some (argsFields_eq _ _)

end CompactCall

end

end FtServer
