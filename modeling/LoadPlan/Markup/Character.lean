/-! Characters and names of XML documents, and the reasons for which one cannot be read. -/
namespace LoadPlan.Markup

inductive Malformed
  /-- The bytes are not text in the encoding of the document. -/
  | encoding
  /-- A character no document may hold. -/
  | character
  /-- Markup that does not end. -/
  | unclosed
  /-- A tag, comment, instruction or declaration that breaks its grammar. -/
  | markup
  /-- A reference to nothing, or to itself. -/
  | reference
  /-- Tags that do not match, or content outside the one root element. -/
  | nesting
  /-- A short name that stands for no namespace, or one bound against the rules. -/
  | namespaces
  /-- Elements nested too deeply. -/
  | depth
  deriving DecidableEq, Repr

/-- The characters a document may hold. -/
def isAllowed (n : Nat) : Bool :=
  n == 0x9 || n == 0xA || n == 0xD || (0x20 ≤ n && n ≤ 0xD7FF) || (0xE000 ≤ n && n ≤ 0xFFFD) ||
    (0x10000 ≤ n && n ≤ 0x10FFFF)

def isSpace (c : Char) : Bool :=
  c == ' ' || c == '\t' || c == '\n' || c == '\r'

/-- The characters a name without a colon may start with. -/
def isNameStart (c : Char) : Bool :=
  let n := c.toNat
  c.isAlpha || c == '_' || (0xC0 ≤ n && n ≤ 0xD6) || (0xD8 ≤ n && n ≤ 0xF6) ||
    (0xF8 ≤ n && n ≤ 0x2FF) || (0x370 ≤ n && n ≤ 0x37D) || (0x37F ≤ n && n ≤ 0x1FFF) ||
    (0x200C ≤ n && n ≤ 0x200D) || (0x2070 ≤ n && n ≤ 0x218F) || (0x2C00 ≤ n && n ≤ 0x2FEF) ||
    (0x3001 ≤ n && n ≤ 0xD7FF) || (0xF900 ≤ n && n ≤ 0xFDCF) || (0xFDF0 ≤ n && n ≤ 0xFFFD) ||
    (0x10000 ≤ n && n ≤ 0xEFFFF)

def isNameChar (c : Char) : Bool :=
  let n := c.toNat
  isNameStart c || c == '-' || c == '.' || c.isDigit || n == 0xB7 || (0x300 ≤ n && n ≤ 0x36F) ||
    (0x203F ≤ n && n ≤ 0x2040)

/-- A name without a colon. -/
def isName : List Char → Bool
  | [] => false
  | c :: cs => isNameStart c && cs.all isNameChar

/-- The characters of a name or of two names joined by a colon. -/
def isNamePart (c : Char) : Bool :=
  isNameChar c || c == ':'

/-- A name as written: a local name, perhaps after the short name of a namespace. -/
structure QualifiedName where
  space : Option String
  base : String
  deriving DecidableEq, Repr

def QualifiedName.ofChars? (cs : List Char) : Option QualifiedName :=
  let head := cs.takeWhile (· != ':')
  match cs.dropWhile (· != ':') with
  | [] => if isName head then some ⟨none, String.ofList head⟩ else none
  | _ :: tail =>
    if isName head && isName tail then some ⟨some (String.ofList head), String.ofList tail⟩
    else none

end LoadPlan.Markup
