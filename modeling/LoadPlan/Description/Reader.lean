import LoadPlan.Description.Node
import LoadPlan.Markup.Document

/-! Reading descriptions from files and texts. -/
namespace LoadPlan.Description

/-- References to entities stay in text, and no more than 256 elements are open at one time. -/
def dialect : Markup.Dialect where
  depthLimit := some 256
  replacesEntities := false
  checksUris := true
  anyVersion := false
  heedsEncoding := false
  givesDefaults := false
  stopsAtParameters := false

inductive ReadError
  | missing (path : String)
  | malformed (source : String)
  /-- The disk does not tell whether there is such a file. -/
  | refused (failure : Storage.Failure)
  deriving DecidableEq, Repr

def ReadError.message : ReadError → String
  | .missing path => missingDescriptionMessage path
  | .malformed source => malformedMessage source
  | .refused failure => failure.message

def ofBytes (source : String) (bytes : Text.Utf8.Bytes) : Except ReadError Node :=
  match Markup.Document.ofBytes dialect bytes with
  | .error _ => .error (.malformed source)
  | .ok tree =>
    match Node.ofMarkup source tree with
    | some root => .ok root
    | none => .error (.malformed source)

/-- The root of a description given as text. -/
def ofText (source text : String) : Except ReadError Node :=
  ofBytes source (Text.Utf8.encode text)

/-- The root of a description in a file. -/
def ofFile (disk : Storage.Disk) (path : String) : Except ReadError Node := do
  let p := Storage.Path.ofString path
  if !(← (disk.isFile p).mapError .refused) then throw (.missing path)
  match disk.read p with
  | .ok bytes => ofBytes p.text bytes
  | .error _ => throw (.malformed p.text)

theorem ofFile_eq (disk : Storage.Disk) (path : String) : ofFile disk path =
    match disk.isFile (.ofString path), disk.read (.ofString path) with
    | .error failure, _ => .error (.refused failure)
    | .ok false, _ => .error (.missing path)
    | .ok true, .ok bytes => ofBytes (Storage.Path.ofString path).text bytes
    | .ok true, .error _ => .error (.malformed (Storage.Path.ofString path).text) := by
  simp only [ofFile]
  rcases disk.isFile (.ofString path) with _ | _ | _
  · rfl
  · rfl
  · cases disk.read (.ofString path) <;> rfl

end LoadPlan.Description
