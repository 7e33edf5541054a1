import LoadPlan.Diagnostic
import LoadPlan.Jmx.Audit
import LoadPlan.Markup.Document
import LoadPlan.Storage.Disk

/-! Plans in files. -/
namespace LoadPlan.Jmx

open LoadPlan.Markup (Element)

namespace PlanFile

/-- References to entities are resolved, and elements may be nested to any depth. -/
def dialect : Markup.Dialect where
  depthLimit := none
  replacesEntities := true
  checksUris := false
  anyVersion := true
  heedsEncoding := true
  givesDefaults := true
  stopsAtParameters := true

/-- A name in a namespace never equals one without. -/
def nameText (n : Markup.Name) : String :=
  if n.space.isEmpty then n.base else "\x7b" ++ n.space ++ "\x7d" ++ n.base

/-- The text before the first element. -/
def leadingText : List Markup.Node → List Char
  | [] => []
  | .element .. :: _ => []
  | .text cs :: ns => cs ++ leadingText ns
  | .reference _ :: ns => leadingText ns

mutual

def elementOf : Markup.Node → Option Element
  | .element name attributes _ children =>
    some ⟨nameText name, attributes.map fun a => (nameText a.1, a.2),
      String.ofList (leadingText children), elementsOf children⟩
  | _ => none

def elementsOf : List Markup.Node → List Element
  | [] => []
  | n :: ns => (elementOf n).toList ++ elementsOf ns

end

/-- The root element of a plan, unless it is not well formed. -/
def ofBytes? (bytes : Text.Utf8.Bytes) : Option Element :=
  match Markup.Document.ofBytes dialect bytes with
  | .ok root => elementOf root
  | .error _ => none

inductive ReadError
  | missing (path : String)
  | unreadable (failure : Storage.Failure)
  /-- The document names an encoding that is not known. -/
  | unknownEncoding (name : String)
  | malformed
  deriving DecidableEq, Repr

/-- The plan in a file. -/
def read (disk : Storage.Disk) (path : String) : Except ReadError Element :=
  let p := Storage.Path.ofString path
  match disk.exists? p with
  | .error failure => .error (.unreadable failure)
  | .ok false => .error (.missing path)
  | .ok true =>
    match disk.read p with
    | .error failure => .error (.unreadable failure)
    | .ok bytes =>
      match ofBytes? bytes with
      | some root => .ok root
      | none =>
        match Markup.Encoding.unknown? bytes with
        | some name => .error (.unknownEncoding name)
        | none => .error .malformed

def ReadError.message : ReadError → String
  | .missing path => s!"JMX file not found: {path}"
  | .unreadable failure => failure.message
  | .unknownEncoding name => s!"unknown encoding: {name}"
  | .malformed => s!"Invalid XML in JMX file: {malformedDetail}"

/-- The audit of the plan in a file. -/
def audit (disk : Storage.Disk) (path : String) : Except ReadError Audit :=
  (read disk path).map Audit.ofElement

/-- Write a file, with the directories above it that are missing. The disk is answered also on failure. -/
def save (disk : Storage.Disk) (p : Storage.Path) (content : Text.Utf8.Bytes) :
    Storage.Disk × Except Storage.Failure Unit :=
  match disk.makeDirectories p.parent with
  | (disk, .error failure) => (disk, .error failure)
  | (disk, .ok ()) =>
    match disk.write p content with
    | .ok disk => (disk, .ok ())
    | .error failure => (disk, .error failure)

/-- Write a plan. -/
def write (disk : Storage.Disk) (p : Storage.Path) (root : Element) :
    Storage.Disk × Except Storage.Failure Unit :=
  save disk p (Text.Utf8.encode root.document)

end PlanFile

end LoadPlan.Jmx
