import LoadPlan.Markup.Instruction
import LoadPlan.Markup.Lexeme
import LoadPlan.Markup.Namespace
import LoadPlan.Markup.Reference
import LoadPlan.Text.Line

/-! The tree of a document, built from its pieces. -/
namespace LoadPlan.Markup

/-- Elements, texts, and references left as they are. An element knows the line on which its start tag
ends. -/
inductive Node
  | element (name : Name) (attributes : List (Name × String)) (line : Nat) (children : List Node)
  | text (content : List Char)
  | reference (name : String)
  deriving Repr, Inhabited

/-- How readers of documents differ. -/
structure Dialect where
  /-- Elements open at one time, if there is a limit. -/
  depthLimit : Option Nat
  /-- References to entities in content are replaced by what they stand for. -/
  replacesEntities : Bool
  /-- The names of namespaces must be resource references. -/
  checksUris : Bool
  /-- The version that is declared may be any. -/
  anyVersion : Bool
  /-- The encoding that is declared is heeded also after a byte order mark. -/
  heedsEncoding : Bool
  /-- Attributes that are left out have the value that is declared for them. -/
  givesDefaults : Bool
  /-- After a reference to a parameter no more is declared. -/
  stopsAtParameters : Bool
  deriving Repr

/-- An element whose end tag has not come; its children so far come last first. -/
structure Frame where
  tag : QualifiedName
  name : Name
  attributes : List (Name × String)
  line : Nat
  scope : Scope
  children : List Node
  deriving Repr

/-- The open elements, the innermost first, and the finished nodes outside them, the last first. -/
structure Builder where
  frames : List Frame
  finished : List Node
  outer : Scope
  line : Nat
  deriving Repr

namespace Builder

def start (scope : Scope) : Builder := ⟨[], [], scope, 1⟩

def scope (b : Builder) : Scope :=
  match b.frames with
  | [] => b.outer
  | f :: _ => f.scope

def add (b : Builder) (n : Node) : Builder :=
  match b.frames with
  | [] => { b with finished := n :: b.finished }
  | f :: fs => { b with frames := { f with children := n :: f.children } :: fs }

/-- Count the lines of a piece. -/
def advance (b : Builder) (body : List Char) : Builder :=
  { b with line := b.line + body.count '\n' }

def hasDuplicates {α : Type} [BEq α] : List α → Bool
  | [] => false
  | a :: as => as.contains a || hasDuplicates as

/-- Open an element. Attributes that bind namespaces are no attributes of it. -/
def openTag (d : Dialect) (es : Entities) (b : Builder) (body : List Char) :
    Except Malformed Builder := do
  let tag ← Tag.ofBody body
  if hasDuplicates (tag.attributes.map Prod.fst) then throw .markup
  let written ← tag.attributes.mapM fun a => do
    let value ← es.valueUnder (es.rule? tag.name a.1) a.2
    return (a.1, String.ofList value)
  let defaults := if d.givesDefaults then es.defaults tag.name (tag.attributes.map Prod.fst) else []
  let values := written ++ defaults.map fun a => (a.1, String.ofList a.2)
  let bindings := values.filterMap fun a => (Scope.bound? a.1).map (·, a.2)
  let scope ← b.scope.extend d.checksUris bindings
  let name ← scope.elementName tag.name
  let attributes ← (values.filter fun a => (Scope.bound? a.1).isNone).mapM fun a => do
    let name ← scope.attributeName a.1
    return (name, a.2)
  if hasDuplicates (attributes.map Prod.fst) then throw .namespaces
  if d.depthLimit.any (· ≤ b.frames.length) then throw .depth
  if tag.empty then return b.add (.element name attributes b.line [])
  else return { b with frames := ⟨tag.name, name, attributes, b.line, scope, []⟩ :: b.frames }

/-- Close the innermost element. -/
def closeTag (b : Builder) (body : List Char) : Except Malformed Builder := do
  let tag ← Tag.ofClosing body
  match b.frames with
  | [] => throw .nesting
  | f :: fs =>
    if f.tag != tag then throw .nesting
    return { b with frames := fs }.add (.element f.name f.attributes f.line f.children.reverse)

/-- The nodes a reference in content stands for. What an entity stands for must be well formed even
where the reference stays. -/
def referenced (d : Dialect) (es : Entities)
    (inside : Scope → List Char → Except Malformed (List Node)) (scope : Scope) (name : String) :
    Except Malformed (List Node) :=
  match es.meaning name with
  | .character c => .ok [.text [c]]
  | .replacement text =>
    (inside scope text).map fun nodes => if d.replacesEntities then nodes else [.reference name]
  | .unread => if d.replacesEntities then .error .reference else .ok [.reference name]
  | .undeclared =>
    if es.incomplete && !d.replacesEntities then .ok [.reference name] else .error .reference

/-- The end of a character data section may not stand in text. -/
def hasSectionEnd (cs : List Char) : Bool :=
  (cutAfter "]]>".toList cs).isSome

def addText (d : Dialect) (es : Entities)
    (inside : Scope → List Char → Except Malformed (List Node)) (b : Builder) (body : List Char) :
    Except Malformed Builder := do
  if hasSectionEnd body then throw .markup
  let ps ← Reference.pieces (Text.unifyLineEnds body)
  ps.foldlM (fun b p => match p with
    | .plain c | .coded c => return b.add (.text [c])
    | .entity name => do
      let nodes ← referenced d es inside b.scope name
      return nodes.foldl add b) b

/-- Take in a piece of content. -/
def step (d : Dialect) (es : Entities)
    (inside : Scope → List Char → Except Malformed (List Node)) (b : Builder) (l : Lexeme) :
    Except Malformed Builder :=
  let b := b.advance l.body
  match l with
  | .text body => b.addText d es inside body
  | .opening body => b.openTag d es body
  | .closing body => b.closeTag body
  | .comment body => if isComment body then .ok b else .error .markup
  | .instruction body => if Instruction.isValid body then .ok b else .error .markup
  | .literal body => .ok (b.add (.text (Text.unifyLineEnds body)))
  | .doctype _ => .error .nesting

/-- The nodes, once all elements are closed. -/
def finish (b : Builder) : Except Malformed (List Node) :=
  if b.frames.isEmpty then .ok b.finished.reverse else .error .nesting

end Builder

/-- The content of an entity. References nested more deeply than there are entities go round in a
circle. -/
def fragment (d : Dialect) (es : Entities) : Nat → Scope → List Char → Except Malformed (List Node)
  | 0, _, _ => .error .reference
  | depth + 1, scope, text =>
    match Lexeme.split? text with
    | none => .error .unclosed
    | some ls => do
      let b ← ls.foldlM (Builder.step d es (fragment d es depth)) (Builder.start scope)
      b.finish

end LoadPlan.Markup
