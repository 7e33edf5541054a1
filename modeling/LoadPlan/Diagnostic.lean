import LoadPlan.Number.Shortest
import LoadPlan.Storage.Failure

/-! Problems of a description that do not stop a build. -/
namespace LoadPlan

inductive ProblemKind
  /-- Something was left out and its default is used. -/
  | defaulted
  /-- A record lacks what it cannot do without and is dropped. -/
  | unusable
  /-- A file cannot be used. -/
  | unavailable
  /-- An included document cannot be read. -/
  | malformed
  deriving DecidableEq, Repr

namespace ProblemKind

def all : List ProblemKind := [.defaulted, .unusable, .unavailable, .malformed]

def name : ProblemKind → String
  | .defaulted => "default"
  | .unusable => "unusable"
  | .unavailable => "unavailable"
  | .malformed => "parse"

def ofName? (s : String) : Option ProblemKind :=
  all.find? (·.name == s)

theorem ofName?_name (k : ProblemKind) : ofName? k.name = some k := by
  cases k <;> decide

end ProblemKind

/-- The wording of what is wrong inside a document is left open. -/
def malformedDetail : String := "*"

def malformedMessage (path : String) : String :=
  s!"Failed to parse XML file '{path}': {malformedDetail}"

def missingDescriptionMessage (path : String) : String :=
  s!"Test description not found: {path}"

inductive Problem
  | timerLacks (fields : List String)
  | noMethod
  | noRequestName (name : String)
  | noResultFile
  | noResultType
  | noCount
  | badCount (text : String)
  | noControllerName (name : String)
  | noPercent (used : Number.Double)
  | badPercent (text : String) (used : Number.Double)
  | infinitePercent (text : String) (used : Number.Double)
  | noFilename
  | noIncludeName
  | includeMissing (name : String)
  | includeCircular (name : String)
  | includeTooDeep (name : String) (limit : Int)
  | includeVanished (path : String)
  | includeMalformed (path : String)
  /-- The disk does not tell what an include leads to. Unlike the others, this ends the reading of a description. -/
  | includeRefused (failure : Storage.Failure)
  | noPlanName
  | noAssertLog
  | dataUnreadable (filename : String) (failure : Storage.Failure)
  deriving DecidableEq, Repr

namespace Problem

def kind : Problem → ProblemKind
  | .timerLacks _ => .unusable
  | .noIncludeName | .includeMissing _ | .includeCircular _ | .includeTooDeep .. | .includeVanished _
  | .includeRefused _ | .dataUnreadable .. => .unavailable
  | .includeMalformed _ => .malformed
  | _ => .defaulted

def message : Problem → String
  | .timerLacks fields =>
    "Found a nil value for a timer element for key(s): " ++ ", ".intercalate fields
  | .noMethod => "HTTP test has no <method>, using GET"
  | .noRequestName name => s!"HTTP test has no <name>, using '{name}'"
  | .noResultFile => "Missing 'result_file' key, using report-result.log"
  | .noResultType => "Missing results 'type' key, using ViewResultsFullVisualizer"
  | .noCount => "Loop has no <count>, using 0"
  | .badCount text => s!"Loop count '{text}' is not a number, using 0"
  | .noControllerName name => s!"Failed to find name for controller, using '{name}'"
  | .noPercent used => s!"Failed to find percent for controller, using {used.text}"
  | .badPercent text used => s!"Controller percent '{text}' is not a number, using {used.text}"
  | .infinitePercent text used =>
    s!"Controller percent '{text}' is not a finite number, using {used.text}"
  | .noFilename => "CSV data set has no <filename>"
  | .noIncludeName => "Script element has an empty <file>"
  | .includeMissing name => s!"Script file doesn't exist: \"{name}\""
  | .includeCircular name => s!"Script file \"{name}\" is already being included"
  | .includeTooDeep name limit =>
    s!"Script file \"{name}\" exceeds the maximum include depth of {Number.Integer.text limit}"
  | .includeVanished path => missingDescriptionMessage path
  | .includeMalformed path => malformedMessage path
  | .includeRefused failure => failure.message
  | .noPlanName => "Failed to find <testinfo>:<name> element, using 'Test Plan'"
  | .noAssertLog =>
    "Failed to find <testinfo>:<assertlog> element, setting default assert log file: assert.log"
  | .dataUnreadable filename failure =>
    s!"Can't read CSV file '{filename}' for repeat: {failure.message}"

/-- The failure of the disk that ends the reading of a description. -/
def refusal? : Problem → Option Storage.Failure
  | .includeRefused failure => some failure
  | _ => none

end Problem

/-- A line of a document; line zero stands for the document as a whole. -/
structure Place where
  source : String
  line : Nat
  deriving DecidableEq, Repr, Inhabited

namespace Place

def label (p : Place) : String :=
  let name := if p.source.isEmpty then "<input>" else p.source
  if p.line = 0 then name else s!"{name}:{p.line}"

def report (p : Place) (message : String) : String :=
  s!"{p.label}: {message}"

end Place

structure Diagnostic where
  problem : Problem
  place : Place
  deriving DecidableEq, Repr

def Diagnostic.render (d : Diagnostic) : String :=
  d.place.report d.problem.message

end LoadPlan
