import LoadPlan.Text.Character

/-! Classes of characters in a YAML text, and the texts of its scalars. The null character, which no text holds,
stands for the end. -/
namespace LoadPlan.Yaml

open LoadPlan.Text (Point)

/-- The characters a text may hold. -/
def isAllowed (c : Char) : Bool :=
  let n := c.toNat
  n == 0x09 || n == 0x0A || n == 0x0D || (0x20 ≤ n && n ≤ 0x7E) || n == 0x85 ||
    (0xA0 ≤ n && n ≤ 0xFFFD) || 0x10000 ≤ n

def isEnd (c : Char) : Bool :=
  c == '\x00'

/-- Line ends have been made line feeds before, all but those that are not ASCII. -/
def isBreak (c : Char) : Bool :=
  c == '\n' || c == '\u0085' || c == '\u2028' || c == '\u2029'

def isBlank (c : Char) : Bool :=
  c == ' ' || c == '\t'

def endsLine (c : Char) : Bool :=
  isEnd c || isBreak c

/-- What has to follow an indicator. -/
def isGap (c : Char) : Bool :=
  isBlank c || endsLine c

/-- A line end as it is kept: all but the two separators become line feeds. -/
def keptBreak (c : Char) : Char :=
  if c == '\u0085' then '\n' else c

def isDigit (c : Char) : Bool :=
  '0' ≤ c && c ≤ '9'

/-- Characters of names. -/
def isWord (c : Char) : Bool :=
  isDigit c || ('A' ≤ c && c ≤ 'Z') || ('a' ≤ c && c ≤ 'z') || c == '-' || c == '_'

/-- Characters of tags. -/
def isTagCharacter (c : Char) : Bool :=
  isWord c || ";/?:@&=+$,.!~*\x27()[]%".toList.contains c

/-- The first character, or the end. -/
def head (cs : List Char) : Char :=
  cs.headD '\x00'

/-- Three hyphens or three points, which begin or end a document when they stand at the start of
a line. -/
def isMarker (cs : List Char) : Bool :=
  match cs with
  | a :: b :: c :: rest => a == b && b == c && (a == '-' || a == '.') && isGap (head rest)
  | _ => false

/-- The text of a scalar. -/
structure Scalar where
  text : String
  /-- The code points of the text, if halves of surrogate pairs are among them. -/
  halves : Option (List Point)
  deriving DecidableEq, Repr

namespace Scalar

instance : Coe String Scalar := ⟨fun s => ⟨s, none⟩⟩

def ofChars (cs : List Char) : Scalar := String.ofList cs

def ofPoints (ps : List Point) : Scalar :=
  ⟨String.ofList (ps.map Point.standIn), if ps.any Point.isHalf then some ps else none⟩

end Scalar

end LoadPlan.Yaml
