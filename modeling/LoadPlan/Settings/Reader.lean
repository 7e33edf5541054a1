import LoadPlan.Diagnostic
import LoadPlan.Settings.Key
import LoadPlan.Storage.Disk
import LoadPlan.Text.Line
import LoadPlan.Yaml.Content

/-! Settings read from a file. -/
namespace LoadPlan.Settings

open LoadPlan.Yaml (Value Content)

inductive ReadError
  | missing (path : String)
  | unreadable (failure : Storage.Failure)
  /-- The file is no text in UTF-8. -/
  | notText
  | malformed (path : String)
  | unconvertible (cause : Yaml.Unconvertible)
  | notMapping (path : String)
  | unknownKey (key : Value) (path : String)
  | isBoolean (key : Key) (path : String)
  | wrongKind (key : Key) (value : Value) (path : String)
  | percentTooLarge
  | versionTooLong
  | depthTooSmall (path : String)
  deriving DecidableEq, Repr

namespace ReadError

def keyNames : String :=
  "[" ++ ", ".intercalate (Key.all.map fun k => Text.Quoted.encode k.name) ++ "]"

/-- The wording of an error, as far as there is one. -/
def message? : ReadError → Option String
  | .missing path => some s!"Settings file not found: {path}"
  | .malformed path => some s!"Invalid YAML syntax in {path}: {malformedDetail}"
  | .notMapping path => some s!"Invalid settings format in {path}: expected dictionary"
  | .unknownKey key path =>
    key.text?.map fun k => s!"Unknown setting '{k}' in {path}. Valid settings: {keyNames}"
  | .isBoolean key path => some s!"Setting '{key.name}' in {path} must not be a boolean"
  | .wrongKind key value path =>
    some s!"Setting '{key.name}' in {path} has wrong type: {value.kindName}"
  | .depthTooSmall path => some s!"Setting 'max_include_depth' in {path} must be >= 1"
  | .unreadable _ | .notText | .unconvertible _ | .percentTooLarge | .versionTooLong => none

end ReadError

/-- Set a value. A key already there keeps its place. -/
def assign : List (Value × Value) → Value × Value → List (Value × Value)
  | [], e => [e]
  | (k, v) :: rest, e => if k = e.1 then (k, e.2) :: rest else (k, v) :: assign rest e

/-- The known key of an entry, unless something is wrong with it. -/
def checkEntry (path : String) (e : Value × Value) : Except ReadError (Key × Value) :=
  match Key.ofValue? e.1 with
  | none => .error (.unknownKey e.1 path)
  | some key =>
    if key.takes e.2 then .ok (key, e.2)
    else match e.2 with
      | .boolean _ => .error (.isBoolean key path)
      | value => .error (.wrongKind key value path)

/-- Settings with one value put in. -/
def put (s : Settings) (e : Key × Value) : Except ReadError Settings :=
  match e with
  | (.rampTime, .integer n) => .ok { s with rampTime := n }
  | (.onSampleError, .text t) => .ok { s with onSampleError := t.text, halved.onSampleError := t.halves }
  | (.maxIncludeDepth, .integer n) => .ok { s with maxIncludeDepth := n }
  | (.delimiter, .text t) => .ok { s with delimiter := t.text, halved.delimiter := t.halves }
  | (.recycle, .boolean b) => .ok { s with recycle := b }
  | (.defaultPercent, .float x) => .ok { s with defaultPercent := x }
  | (.defaultPercent, .integer n) =>
    match Number.Double.ofInt? n with
    | some x => .ok { s with defaultPercent := x }
    | none => .error .percentTooLarge
  | (.version, .text t) => .ok { s with version := t.text, halved.version := t.halves }
  | (.version, .float x) => .ok { s with version := x.text }
  | (.version, .integer n) =>
    match Number.Integer.text? n with
    | some t => .ok { s with version := t }
    | none => .error .versionTooLong
  | _ => .ok s

/-- The order in which values are put in: the percent and the version come before the others, as they
may be refused. -/
def inOrder (entries : List (Key × Value)) : List (Key × Value) :=
  entries.filter (·.1 = .defaultPercent) ++ entries.filter (·.1 = .version) ++
    entries.filter fun e => e.1 != .defaultPercent && e.1 != .version

/-- The standard settings with the entries of a mapping in their place. Each entry is checked before any
is used. -/
def ofEntries (path : String) (entries : List (Value × Value)) : Except ReadError Settings := do
  let checked ← (entries.foldl assign []).mapM (checkEntry path)
  let s ← (inOrder checked).foldlM put standard
  if s.maxIncludeDepth < 1 then throw (.depthTooSmall path)
  return s

/-- The settings a text holds. One without content stands for the standard settings. -/
def ofText (path : String) (cs : List Char) : Except ReadError Settings :=
  match Content.ofText (Text.unifyLineEnds cs) with
  | .error (.malformed _) => .error (.malformed path)
  | .error (.unconvertible u) => .error (.unconvertible u)
  | .ok (.value .null) => .ok standard
  | .ok (.value _) => .error (.notMapping path)
  | .ok (.mapping entries) => ofEntries path entries

/-- The settings in a file. -/
def ofFile (disk : Storage.Disk) (path : String) : Except ReadError Settings :=
  let p := Storage.Path.ofString path
  match disk.exists? p with
  | .error failure => .error (.unreadable failure)
  | .ok false => .error (.missing path)
  | .ok true =>
    match disk.read p with
    | .error failure => .error (.unreadable failure)
    | .ok bytes =>
      match Text.Utf8.decode? bytes with
      | none => .error .notText
      | some cs => ofText path cs

theorem ofFile_of_read {disk : Storage.Disk} {path : String} {bytes : Text.Utf8.Bytes} {cs : List Char}
    (hread : disk.read (.ofString path) = .ok bytes) (hdecode : Text.Utf8.decode? bytes = some cs) :
    ofFile disk path = ofText path cs := by
  have hthere : disk.exists? (.ofString path) = .ok true :=
    Storage.Disk.exists?_of_isFile (Storage.Disk.isFile_of_read hread)
  unfold ofFile
  simp only [hthere, hread, hdecode]

end LoadPlan.Settings
