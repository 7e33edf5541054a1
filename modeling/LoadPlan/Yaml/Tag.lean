import LoadPlan.Text.Line
import LoadPlan.Yaml.Moment

/-! The meanings of tags, and what plain scalars are taken for. -/
namespace LoadPlan.Yaml

inductive Tag
  | text
  | boolean
  | integer
  | float
  | null
  | moment
  | bytes
  | sequence
  | orderedMapping
  | pairs
  | mapping
  | set
  /-- The key whose value is merged into a mapping. -/
  | merge
  /-- The key of the value that stands for a whole mapping. -/
  | standing
  | unknown
  deriving DecidableEq, Repr

namespace Tag

/-- The start of the names of the tags that have a meaning. -/
def family : String := "tag:yaml.org,2002:"

def ofWord : String → Tag
  | "str" => .text
  | "bool" => .boolean
  | "int" => .integer
  | "float" => .float
  | "null" => .null
  | "timestamp" => .moment
  | "binary" => .bytes
  | "seq" => .sequence
  | "omap" => .orderedMapping
  | "pairs" => .pairs
  | "map" => .mapping
  | "set" => .set
  | "merge" => .merge
  | "value" => .standing
  | _ => .unknown

def ofName (name : String) : Tag :=
  let start := family.toList
  if start.isPrefixOf name.toList then ofWord (String.ofList (name.toList.drop start.length))
  else .unknown

/-- The words for true and false. -/
def booleans : List String :=
  ["yes", "Yes", "YES", "no", "No", "NO", "true", "True", "TRUE", "false", "False", "FALSE",
   "on", "On", "ON", "off", "Off", "OFF"]

/-- Drop a sign. -/
def unsigned : List Char → List Char
  | '+' :: rest => rest
  | '-' :: rest => rest
  | rest => rest

/-- Digits and underscores, the first of them a digit. -/
def isNumeral : List Char → Bool
  | [] => false
  | c :: rest => isDigit c && rest.all fun c => isDigit c || c == '_'

/-- One or two digits of a number below sixty. -/
def isSixtieth : List Char → Bool
  | [c] => isDigit c
  | [c, d] => '0' ≤ c && c ≤ '5' && isDigit d
  | _ => false

/-- A numeral followed by at least one sixtieth. -/
def isSexagesimal (cs : List Char) : Bool :=
  match Text.parts ':' cs with
  | first :: part :: parts => isNumeral first && (part :: parts).all isSixtieth
  | _ => false

def isHex (c : Char) : Bool :=
  Text.isHexDigit c || c == '_'

def isOctal (c : Char) : Bool :=
  ('0' ≤ c && c ≤ '7') || c == '_'

def isBinary (c : Char) : Bool :=
  c == '0' || c == '1' || c == '_'

def isInteger (cs : List Char) : Bool :=
  match unsigned cs with
  | ['0'] => true
  | '0' :: 'b' :: c :: rest => (c :: rest).all isBinary
  | '0' :: 'x' :: c :: rest => (c :: rest).all isHex
  | '0' :: rest => rest.all isOctal
  | rest => isNumeral rest || isSexagesimal rest

/-- Nothing, or a power of ten with a sign. -/
def isExponent : List Char → Bool
  | [] => true
  | e :: sign :: d :: rest =>
    (e == 'e' || e == 'E') && (sign == '+' || sign == '-') && (d :: rest).all isDigit
  | _ => false

/-- Digits and underscores, then a power of ten if it may come. -/
def isFraction (mayScale : Bool) (cs : List Char) : Bool :=
  match cs.dropWhile fun c => isDigit c || c == '_' with
  | [] => true
  | rest => mayScale && isExponent rest

/-- Numbers with a point. One without digits before its point has no sign. -/
def isFloat (cs : List Char) : Bool :=
  match cs with
  | '.' :: d :: rest => (isDigit d && isFraction true rest) || isSpecial (d :: rest) || isNan (d :: rest)
  | _ =>
    let whole := (unsigned cs).takeWhile (· != '.')
    match (unsigned cs).dropWhile (· != '.') with
    | '.' :: fraction =>
      (isNumeral whole && isFraction true fraction) ||
        (isSexagesimal whole && isFraction false fraction) ||
        (whole.isEmpty && isSpecial fraction)
    | _ => false
where
  isSpecial (cs : List Char) : Bool :=
    ["inf", "Inf", "INF"].contains (String.ofList cs)
  isNan (cs : List Char) : Bool :=
    ["nan", "NaN", "NAN"].contains (String.ofList cs)

/-- What a plain scalar on one line is taken for. -/
def ofLine (s : String) : Tag :=
  let cs := s.toList
  if booleans.contains s then .boolean
  else if isFloat cs then .float
  else if isInteger cs then .integer
  else if s = "<<" then .merge
  else if ["", "~", "null", "Null", "NULL"].contains s then .null
  else if Moment.looksLike cs then .moment
  else if s = "=" then .standing
  else if ["!", "&", "*"].contains s then .unknown
  else .text

/-- The text without a line feed at its end, if something comes before it. -/
def withoutFinalBreak (cs : List Char) : List Char :=
  match cs.getLast? with
  | some '\n' => if cs.length = 1 then cs else cs.dropLast
  | _ => cs

/-- What a scalar without a tag of its own is taken for. -/
def ofScalar (s : String) : Tag :=
  ofLine (String.ofList (withoutFinalBreak s.toList))

end Tag

end LoadPlan.Yaml
