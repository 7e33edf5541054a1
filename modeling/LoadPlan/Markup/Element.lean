import LoadPlan.Markup.Escape

/-! Element trees and their written form. -/
namespace LoadPlan.Markup

/-- An element with attributes, the text before its first child, and children. -/
structure Element where
  tag : String
  attributes : List (String × String)
  text : String
  children : List Element
  deriving Repr, Inhabited

namespace Element

/-- The value of an attribute. -/
def attribute? (e : Element) (name : String) : Option String :=
  e.attributes.lookup name

mutual

/-- An element and all below it, in document order. -/
def subtree : Element → List Element
  | ⟨tag, attributes, text, children⟩ => ⟨tag, attributes, text, children⟩ :: subtrees children

def subtrees : List Element → List Element
  | [] => []
  | e :: es => subtree e ++ subtrees es

end

/-- All elements below an element, in document order. -/
def descendants (e : Element) : List Element :=
  subtrees e.children

/-- The elements below an element that have a tag. -/
def descendantsTagged (e : Element) (tag : String) : List Element :=
  e.descendants.filter (·.tag == tag)

/-- An element and those below it, as far as they have a tag. -/
def subtreeTagged (e : Element) (tag : String) : List Element :=
  e.subtree.filter (·.tag == tag)

/-- The first child with a tag and a value of its name attribute. -/
def property? (e : Element) (tag name : String) : Option Element :=
  e.children.find? fun c => c.tag == tag && c.attribute? "name" == some name

/-- The inside of a start tag. -/
def opening (tag : String) (attributes : List (String × String)) : String :=
  tag ++ String.join (attributes.map fun a => " " ++ a.1 ++ "=\"" ++ Escape.encode true a.2 ++ "\"")

def indent (depth : Nat) : String :=
  String.join (List.replicate depth "  ")

mutual

/-- The lines of an element. One with children has no text of its own, one with neither is closed
at once. -/
def lines (depth : Nat) : Element → List String
  | ⟨tag, attributes, text, []⟩ =>
    if text.isEmpty then [indent depth ++ "<" ++ opening tag attributes ++ "/>"]
    else
      [indent depth ++ "<" ++ opening tag attributes ++ ">" ++ Escape.encode false text
        ++ "</" ++ tag ++ ">"]
  | ⟨tag, attributes, _, child :: children⟩ =>
    (indent depth ++ "<" ++ opening tag attributes ++ ">")
      :: (lines (depth + 1) child ++ linesOf (depth + 1) children)
      ++ [indent depth ++ "</" ++ tag ++ ">"]

def linesOf (depth : Nat) : List Element → List String
  | [] => []
  | e :: es => lines depth e ++ linesOf depth es

end

def declaration : String := "<?xml version=\"1.0\" encoding=\"UTF-8\"?>"

/-- The written form of a document with a root element. -/
def document (root : Element) : String :=
  "\n".intercalate (declaration :: lines 0 root) ++ "\n"

end Element

end LoadPlan.Markup
