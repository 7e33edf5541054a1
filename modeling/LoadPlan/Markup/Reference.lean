import LoadPlan.Markup.Character
import LoadPlan.Markup.Lexeme
import LoadPlan.Text.Line

/-! References to characters and entities in text. -/
namespace LoadPlan.Markup

/-- A character as written, a character given by its number, or the name of an entity. -/
inductive Piece
  | plain (c : Char)
  | coded (c : Char)
  | entity (name : String)
  deriving DecidableEq, Repr

namespace Reference

def digitValue? (base : Nat) (c : Char) : Option Nat :=
  (Text.hexDigit? c).filter (· < base)

/-- The number written by one or more digits. -/
def number? (base : Nat) (cs : List Char) : Option Nat :=
  if cs.isEmpty then none
  else (cs.mapM (digitValue? base)).map (Text.ofDigits base)

/-- The character a numeric reference stands for. -/
def coded? (cs : List Char) : Option Char :=
  let n := match cs with
    | 'x' :: digits => number? 16 digits
    | digits => number? 10 digits
  n.bind fun n => if isAllowed n then some (Char.ofNat n) else none

/-- What stands between the ampersand and the semicolon of a reference. -/
def ofBody (body : List Char) : Except Malformed Piece :=
  match body with
  | '#' :: digits =>
    match coded? digits with
    | some c => .ok (.coded c)
    | none => .error .reference
  | name => if isName name then .ok (.entity (String.ofList name)) else .error .reference

/-- The characters and references of a text. -/
def pieces (cs : List Char) : Except Malformed (List Piece) :=
  match cs with
  | [] => .ok []
  | c :: rest =>
    if c = '&' then
      match h : cutAfter [';'] rest with
      | none => .error .reference
      | some (body, after) =>
        have : after.length ≤ rest.length := length_of_cutAfter h
        match ofBody body, pieces after with
        | .ok p, .ok ps => .ok (p :: ps)
        | .error e, _ => .error e
        | _, .error e => .error e
    else (pieces rest).map (.plain c :: ·)
termination_by cs.length

/-- The entities every document has. -/
def predefined? (name : String) : Option Char :=
  match name with
  | "amp" => some '&'
  | "lt" => some '<'
  | "gt" => some '>'
  | "quot" => some '"'
  | "apos" => some '\x27'
  | _ => none

end Reference

/-- What is declared of an attribute of an element. -/
structure AttributeRule where
  element : QualifiedName
  name : QualifiedName
  /-- The value is made of words, so that only single blanks between them count. -/
  worded : Bool
  /-- The value of an attribute that is left out. -/
  default : Option (List Char)
  deriving Repr

/-- The general entities of a document: their replacement texts, the names of those kept elsewhere,
and whether others may be declared out of sight. With them the rules for attributes, at most one for each. -/
structure Entities where
  texts : List (String × List Char)
  outside : List String
  incomplete : Bool
  rules : List AttributeRule
  deriving Repr

/-- What the name of an entity leads to. -/
inductive Meaning
  | character (c : Char)
  | replacement (text : List Char)
  | unread
  | undeclared

namespace Entities

def none : Entities := ⟨[], [], false, []⟩

def meaning (es : Entities) (name : String) : Meaning :=
  match Reference.predefined? name with
  | some c => .character c
  | Option.none =>
    match es.texts.lookup name with
    | some text => .replacement text
    | Option.none =>
      if es.outside.contains name then .unread
      else .undeclared

/-- Blanks of an attribute value become spaces unless they are given by number; an opening bracket
may not occur in it. -/
def valuePiece (es : Entities) (replace : List Char → Except Malformed (List Char)) :
    Piece → Except Malformed (List Char)
  | .plain c => if c = '<' then .error .markup else .ok [if isSpace c then ' ' else c]
  | .coded c => .ok [c]
  | .entity name =>
    match es.meaning name with
    | .character c => .ok [c]
    | .replacement text => replace text
    | .unread => .error .reference
    | .undeclared => if es.incomplete then .ok [] else .error .reference

/-- The value of an attribute. References nested more deeply than there are entities go round in a
circle. -/
def value (es : Entities) : Nat → List Char → Except Malformed (List Char)
  | 0, cs => do
    let ps ← Reference.pieces cs
    let parts ← ps.mapM (es.valuePiece fun _ => .error .reference)
    return parts.flatten
  | depth + 1, cs => do
    let ps ← Reference.pieces cs
    let parts ← ps.mapM (es.valuePiece (es.value depth))
    return parts.flatten

/-- The rule for an attribute of an element. -/
def rule? (es : Entities) (element name : QualifiedName) : Option AttributeRule :=
  es.rules.find? fun r => r.element == element && r.name == name

/-- The value of an attribute under a rule. -/
def valueUnder (es : Entities) (rule : Option AttributeRule) (written : List Char) :
    Except Malformed (List Char) := do
  let value ← es.value es.texts.length (Text.unifyLineEnds written)
  return if rule.any (·.worded) then words value else value
where
  /-- The words between spaces, with one space between each two. -/
  words (cs : List Char) : List Char :=
    [' '].intercalate ((Text.parts ' ' cs).filter (!·.isEmpty))

/-- The values that the rules give to attributes of an element that are left out. -/
def defaults (es : Entities) (element : QualifiedName) (present : List QualifiedName) :
    List (QualifiedName × List Char) :=
  es.rules.filterMap fun r =>
    if r.element == element && !present.contains r.name then r.default.map (r.name, ·) else Option.none

end Entities

end LoadPlan.Markup
