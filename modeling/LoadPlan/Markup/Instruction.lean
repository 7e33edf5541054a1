import LoadPlan.Markup.Tag

/-! Processing instructions, comments and the declaration at the head of a document. -/
namespace LoadPlan.Markup

namespace Instruction

/-- The target of an instruction, and what follows. -/
def target (body : List Char) : List Char × List Char :=
  (body.takeWhile fun c => !isSpace c, body.dropWhile fun c => !isSpace c)

/-- An instruction has a name for its target, and no name spelled like that of the declaration. -/
def isValid (body : List Char) : Bool :=
  let name := (target body).1
  isName name && name.map Char.toLower != "xml".toList

end Instruction

/-- Two hyphens may not stand in a comment, nor one at its end. -/
def isComment : List Char → Bool
  | [] => true
  | ['-'] => false
  | '-' :: '-' :: _ => false
  | _ :: rest => isComment rest

/-- What a document declares of itself. -/
structure Declaration where
  version : String
  encoding : Option String
  standalone : Bool
  deriving DecidableEq, Repr

namespace Declaration

def absent : Declaration := ⟨"1.0", none, false⟩

def isValueChar (c : Char) : Bool :=
  c.isAlphanum || c == '.' || c == '_' || c == '-'

/-- The version is one of the first line of versions. -/
def isFirst (d : Declaration) : Bool :=
  match d.version.toList with
  | '1' :: '.' :: digits => digits.all Char.isDigit
  | _ => false

def isEncodingName : List Char → Bool
  | [] => false
  | c :: cs => c.isAlpha && cs.all isValueChar

def plain (name : String) : QualifiedName := ⟨none, name⟩

def withStandalone? (d : Declaration) (value : List Char) : Option Declaration :=
  if value = "yes".toList then some { d with standalone := true }
  else if value = "no".toList then some { d with standalone := false }
  else none

/-- The version, then the encoding and the independence from other files, both optional. -/
def ofAttributes? (as : List (QualifiedName × List Char)) : Option Declaration :=
  match as with
  | (first, version) :: rest =>
    if first != plain "version" || !version.all isValueChar then none
    else
      let d : Declaration := { absent with version := String.ofList version }
      match rest with
      | [] => some d
      | [(name, value)] =>
        if name = plain "encoding" && isEncodingName value then
          some { d with encoding := some (String.ofList value) }
        else if name = plain "standalone" then d.withStandalone? value
        else none
      | [(name, value), (name', value')] =>
        if name = plain "encoding" && isEncodingName value && name' = plain "standalone" then
          { d with encoding := some (String.ofList value) }.withStandalone? value'
        else none
      | _ => none
  | [] => none

/-- Whether the text of an instruction is a declaration. -/
def isHead (body : List Char) : Bool :=
  (Instruction.target body).1 = "xml".toList

def ofBody (body : List Char) : Except Malformed Declaration :=
  match Tag.attributes? (Instruction.target body).2 with
  | some (as, false) =>
    match ofAttributes? as with
    | some d => .ok d
    | none => .error .markup
  | _ => .error .markup

end Declaration

end LoadPlan.Markup
