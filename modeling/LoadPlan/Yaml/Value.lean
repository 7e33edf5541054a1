import LoadPlan.Number.Shortest
import LoadPlan.Text.Quoted
import LoadPlan.Text.Utf8
import LoadPlan.Yaml.Moment

/-! Values of nodes. -/
namespace LoadPlan.Yaml

/-- Collections are known by their kind only. -/
inductive Value
  | null
  | boolean (b : Bool)
  | integer (n : Int)
  | float (x : Number.Double)
  | text (s : Scalar)
  | bytes (bs : Text.Utf8.Bytes)
  | moment (m : Moment)
  | list
  | mapping
  | set
  deriving DecidableEq, Repr, Inhabited

namespace Value

/-- The name of the kind of a value. -/
def kindName : Value → String
  | .null => "NoneType"
  | .boolean _ => "bool"
  | .integer _ => "int"
  | .float _ => "float"
  | .text _ => "str"
  | .bytes _ => "bytes"
  | .moment m => if m.clock.isSome then "datetime" else "date"
  | .list => "list"
  | .mapping => "dict"
  | .set => "set"

def isCollection : Value → Bool
  | .list => true
  | .mapping => true
  | .set => true
  | _ => false

/-- A byte between quotes of a given kind. -/
def quotedByte (quote : Char) (b : UInt8) : List Char :=
  if b.toNat < 0x80 then Text.Quoted.encodeChar quote (Char.ofNat b.toNat)
  else '\\' :: 'x' :: Text.Quoted.hex 2 b.toNat

def bytesText (bs : Text.Utf8.Bytes) : String :=
  let quote := Text.Quoted.quoteOf (bs.map fun b => Char.ofNat b.toNat)
  String.ofList ('b' :: quote :: bs.flatMap (quotedByte quote) ++ [quote])

/-- The text of a value; an integer with too many digits has none. -/
def text? : Value → Option String
  | .null => some "None"
  | .boolean b => some (if b then "True" else "False")
  | .integer n => Number.Integer.text? n
  | .float x => some x.text
  | .text s => some s.text
  | .bytes bs => some (bytesText bs)
  | .moment m => some m.text
  | .list => some "[]"
  | .mapping => some "\x7b\x7d"
  | .set => some "set()"

end Value

end LoadPlan.Yaml
