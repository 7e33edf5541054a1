import LoadPlan.Markup.Tag
import LoadPlan.Text.Character

/-! Namespaces and the names in them. -/
namespace LoadPlan.Markup

/-- A name in a namespace; the namespace of plain names is empty. -/
structure Name where
  space : String
  base : String
  deriving DecidableEq, Repr

/-- The namespaces that short names stand for, the nearest first. The empty one is that of elements
without a short name. -/
abbrev Scope := List (String × String)

namespace Scope

def xmlSpace : String := "http://www.w3.org/XML/1998/namespace"

def xmlnsSpace : String := "http://www.w3.org/2000/xmlns/"

def initial : Scope := [("xml", xmlSpace)]

/-- The short name an attribute binds. -/
def bound? (q : QualifiedName) : Option String :=
  match q with
  | ⟨none, "xmlns"⟩ => some ""
  | ⟨some "xmlns", short⟩ => some short
  | _ => none

/-- Only the default namespace may be emptied, and the two reserved ones keep their names. -/
def mayBind (short uri : String) : Bool :=
  if short = "xmlns" then false
  else if short = "xml" then uri = xmlSpace
  else uri != xmlSpace && uri != xmlnsSpace && (uri != "" || short = "")

def isUriChar (c : Char) : Bool :=
  c.isAlphanum || "-._~:/?#[]@!$&'()*+,;=%".toList.contains c

/-- A percent sign stands before two hexadecimal digits. -/
def percentsValid : List Char → Bool
  | [] => true
  | '%' :: a :: b :: rest => Text.isHexDigit a && Text.isHexDigit b && percentsValid rest
  | '%' :: _ => false
  | _ :: rest => percentsValid rest

/-- What stands before a colon in the first segment is a scheme. -/
def schemeValid (cs : List Char) : Bool :=
  let segment := cs.takeWhile fun c => c != '/' && c != '?' && c != '#'
  if segment.contains ':' then
    match segment.takeWhile (· != ':') with
    | [] => false
    | c :: rest => c.isAlpha && rest.all fun c => c.isAlphanum || c == '+' || c == '-' || c == '.'
  else true

/-- Whether a text is a reference to a resource. -/
def isUri (uri : String) : Bool :=
  let cs := uri.toList
  cs.all isUriChar && percentsValid cs && schemeValid cs && cs.count '#' ≤ 1

/-- The scope inside an element, given the bindings among its attributes. -/
def extend (strict : Bool) (scope : Scope) (bindings : List (String × String)) :
    Except Malformed Scope :=
  if bindings.all fun b => mayBind b.1 b.2 && (!strict || isUri b.2) then .ok (bindings ++ scope)
  else .error .namespaces

def find? (scope : Scope) (short : String) : Option String :=
  List.lookup short scope

/-- The name of an element. -/
def elementName (scope : Scope) (q : QualifiedName) : Except Malformed Name :=
  match q.space with
  | none => .ok ⟨(scope.find? "").getD "", q.base⟩
  | some short =>
    match scope.find? short with
    | some uri => .ok ⟨uri, q.base⟩
    | none => .error .namespaces

/-- The name of an attribute; without a short name it is in no namespace. -/
def attributeName (scope : Scope) (q : QualifiedName) : Except Malformed Name :=
  match q.space with
  | none => .ok ⟨"", q.base⟩
  | some _ => scope.elementName q

end Scope

end LoadPlan.Markup
