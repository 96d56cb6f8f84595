/-
FtServer/Text.lean

The string operations of the standard library and of Boost that the protocol
parser calls, in the "C" locale: `isspace`, `algorithm::trim`,
`algorithm::iequals`, `algorithm::split` with `token_compress_on`, and
`std::stoi`.  `stod` and the type `double` itself stay parameters
(`DoubleLib`): no decision of the parser depends on a converted value.
-/
import Mathlib.Data.Int.Notation
import FtServer.Buffer

namespace FtServer

/-- The exceptions that library calls of the modelled code throw. -/
inductive StdException
  | invalidArgument
  | outOfRange
  /-- or an exception derived from it, such as `bad_array_new_length` -/
  | badAlloc
  | systemError
  | filesystemError
  | badTimeText
  deriving DecidableEq, Repr

/-! ### Characters -/

/-- `isspace`: blank, tab, newline, vertical tab, form feed, carriage return. -/
def isSpace (b : UInt8) : Bool := b == 32 || (9 ≤ b && b ≤ 13)

def isDigit (b : UInt8) : Bool := 48 ≤ b && b ≤ 57

/-- `toupper`. -/
def toUpper (b : UInt8) : UInt8 := if 97 ≤ b && b ≤ 122 then b - 32 else b

/-! ### Strings -/

/-- `algorithm::trim`: drop white space at both ends. -/
def trim (s : Bytes) : Bytes :=
  ((s.dropWhile isSpace).reverse.dropWhile isSpace).reverse

/-- `algorithm::iequals`: equality that ignores the case of letters. -/
def iequals (s t : Bytes) : Bool := s.map toUpper == t.map toUpper

/-- The loop of `splitCompress`: `cur` is the current token, reversed, and
`inSep` says that the previous byte was a separator. -/
def splitLoop (sep : UInt8) : Bytes → Bool → Bytes → List Bytes
  | cur, _, [] => [cur.reverse]
  | cur, inSep, b :: bs =>
    if b = sep then
      if inSep then splitLoop sep cur true bs else cur.reverse :: splitLoop sep [] true bs
    else splitLoop sep (b :: cur) false bs

/-- `algorithm::split(_, s, is_any_of(sep), token_compress_on)`: the tokens
between runs of the separator.  A run at either end leaves an empty token
there, and the empty string is one empty token. -/
def splitCompress (sep : UInt8) (s : Bytes) : List Bytes := splitLoop sep [] false s

/-! ### Numbers -/

/-- The value of a string of digits. -/
def digitsValue (ds : Bytes) : ℕ := ds.foldl (fun v d => 10 * v + (d.toNat - 48)) 0

/-- `std::stoi`: skip white space, read a sign and digits, ignore the rest. -/
def stoi (s : Bytes) : Except StdException Int32 :=
  let s := s.dropWhile isSpace
  -- one sign at most
  let negative := s.head? == some 45
  let s := if s.head? == some 45 || s.head? == some 43 then s.tail else s
  let ds := s.takeWhile isDigit
  if ds.isEmpty then .error .invalidArgument
  else
    let v : ℤ := if negative then -(digitsValue ds) else digitsValue ds
    if Int32.minValue.toInt ≤ v ∧ v ≤ Int32.maxValue.toInt then .ok (Int32.ofInt v)
    else .error .outOfRange

/-- What the code uses of `double`: the conversion `stod`, the literals of the
source, which are all integers, and the narrowing to `float`. -/
structure DoubleLib (δ : Type) where
  stod : Bytes → Except StdException δ
  literal : ℤ → δ
  toFloat : δ → δ

/-- A `double` with one value. -/
def unitLib : DoubleLib Unit where
  stod := fun _ => .ok ()
  literal := fun _ => ()
  toFloat := fun _ => ()

example : splitCompress 44 (lit "a=1,,b=2,") = [lit "a=1", lit "b=2", []] := by decide

example : stoi (lit " -12 ") = .ok (-12) := by rfl

end FtServer
