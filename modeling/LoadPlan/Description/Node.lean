import LoadPlan.Diagnostic
import LoadPlan.Fields
import LoadPlan.Markup.Tree
import LoadPlan.Storage.Disk
import LoadPlan.Text.Line

/-! Descriptions as trees of named elements. -/
namespace LoadPlan.Description

/-- An element: its local name, the elements in it, its attributes, and all text in it without the
blanks around. -/
structure Node where
  name : String
  children : List Node
  attributes : Fields
  content : String
  line : Nat
  source : String
  deriving Repr, Inhabited

namespace Node

def hasChildren (n : Node) : Bool :=
  !n.children.isEmpty

def place (n : Node) : Place :=
  ⟨n.source, n.line⟩

/-- Names and contents of elements; the last of a name counts. -/
def fieldsOf (ns : List Node) : Fields :=
  Fields.ofPairs (ns.map fun n => (n.name, n.content))

def fields (n : Node) : Fields :=
  fieldsOf n.children

/-- A name in brackets, or none, stands for a text that is no file. -/
def isFileSource (source : String) : Bool :=
  match source.toList with
  | [] => false
  | c :: _ => c != '<'

/-- The directory of the document an element is in. -/
def directory (disk : Storage.Disk) (n : Node) : Option Storage.Path :=
  if isFileSource n.source then some (disk.resolve (.ofString n.source)).parent else none

mutual

/-- The text of a node and all below; a reference that was left stands for itself. -/
def textOf : Markup.Node → List Char
  | .element _ _ _ children => textsOf children
  | .text cs => cs
  | .reference name => '&' :: (name.toList ++ [';'])

def textsOf : List Markup.Node → List Char
  | [] => []
  | n :: ns => textOf n ++ textsOf ns

end

mutual

/-- The element a node is, if it is one. Namespaces are passed over, so that of two attributes with
one local name the later counts. -/
def ofMarkup (source : String) : Markup.Node → Option Node
  | .element name attributes line children =>
    some {
      name := name.base
      children := ofMarkups source children
      attributes := Fields.ofPairs (attributes.map fun a => (a.1.base, a.2))
      content := String.ofList (Text.stripWhere Text.isBlank (textsOf children))
      line, source }
  | _ => none

def ofMarkups (source : String) : List Markup.Node → List Node
  | [] => []
  | n :: ns => (ofMarkup source n).toList ++ ofMarkups source ns

end

end Node

end LoadPlan.Description
