import LoadPlan.Number.Shortest
import LoadPlan.Text.Character
import LoadPlan.Text.Quoted

/-! Indented JSON in ASCII. -/
namespace LoadPlan

inductive Json
  | text (s : String)
  /-- A text with halves of surrogate pairs, by its code points. -/
  | points (ps : List Text.Point)
  /-- A number, as it is written. -/
  | number (written : String)
  | boolean (b : Bool)
  | array (items : List Json)
  | object (fields : List (String × Json))
  deriving Repr, Inhabited

namespace Json

/-- A unit of sixteen bits in an escape. -/
def unit (n : Nat) : List Char :=
  '\\' :: 'u' :: Text.Quoted.hex 4 n

/-- A character in a string. All but the visible ones of ASCII are escaped, and those beyond sixteen bits
take two units. -/
def encodeChar (c : Char) : List Char :=
  if c = '"' || c = '\\' then ['\\', c]
  else if c = '\n' then ['\\', 'n']
  else if c = '\r' then ['\\', 'r']
  else if c = '\t' then ['\\', 't']
  else if c = '\x08' then ['\\', 'b']
  else if c = '\x0c' then ['\\', 'f']
  else
    let n := c.toNat
    if 0x20 ≤ n && n ≤ 0x7E then [c]
    else if n < 0x10000 then unit n
    else unit (0xD800 + (n - 0x10000) / 0x400) ++ unit (0xDC00 + (n - 0x10000) % 0x400)

def encode (s : String) : String :=
  String.ofList ('"' :: s.toList.flatMap encodeChar ++ ['"'])

def encodePoint : Text.Point → List Char
  | .character c => encodeChar c
  | .half n => unit n

def encodePoints (ps : List Text.Point) : String :=
  String.ofList ('"' :: ps.flatMap encodePoint ++ ['"'])

def indent (depth : Nat) : String :=
  "\n" ++ String.join (List.replicate depth "  ")

/-- Parts on lines of their own between brackets; brackets without parts stay together. -/
def bracketed (depth : Nat) (before after : String) (parts : List String) : String :=
  if parts.isEmpty then before ++ after
  else before ++ indent (depth + 1) ++ ("," ++ indent (depth + 1)).intercalate parts
    ++ indent depth ++ after

mutual

/-- The written form at a depth of indentation. -/
def render (depth : Nat) : Json → String
  | .text s => encode s
  | .points ps => encodePoints ps
  | .number written => written
  | .boolean b => if b then "true" else "false"
  | .array items => bracketed depth "[" "]" (renderItems (depth + 1) items)
  | .object fields => bracketed depth "\x7b" "\x7d" (renderFields (depth + 1) fields)

def renderItems (depth : Nat) : List Json → List String
  | [] => []
  | j :: js => render depth j :: renderItems depth js

def renderFields (depth : Nat) : List (String × Json) → List String
  | [] => []
  | (name, j) :: fields => (encode name ++ ": " ++ render depth j) :: renderFields depth fields

end

/-- A number of double precision. What is not finite is written in words. -/
def ofDouble : Number.Double → Json
  | .nan => .number "NaN"
  | .infinite negative => .number (if negative then "-Infinity" else "Infinity")
  | x => .number x.text

end Json

end LoadPlan
