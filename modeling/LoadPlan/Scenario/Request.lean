import LoadPlan.Fields
import LoadPlan.Text.Character

/-! HTTP requests and the parts that go with them. -/
namespace LoadPlan.Scenario

/-- A pause of normally distributed length. -/
structure Timer where
  name : String
  delay : String
  range : String
  deriving DecidableEq, Repr, Inhabited

/-- A condition on the body of a response. -/
structure Assertion where
  negate : Bool
  type : String
  name : String
  literals : List String
  deriving DecidableEq, Repr, Inhabited

namespace Assertion

def standard : Assertion := ⟨false, "", "!Unnamed Assert!", []⟩

/-- Whether a word occurs in a text. -/
def occurs (word : List Char) : List Char → Bool
  | [] => word.isEmpty
  | c :: cs => word.isPrefixOf (c :: cs) || occurs word cs

/-- The code of a test: containing is 2 and matching 1, and 4 more negates. A type that says neither
counts as containing and cannot be negated. -/
def testType (a : Assertion) : Nat :=
  let type := (Text.lower a.type).toList
  if occurs "contains".toList type then if a.negate then 6 else 2
  else if occurs "matches".toList type then if a.negate then 5 else 1
  else 2

end Assertion

/-- A value taken from a response by a regular expression. -/
structure Extractor where
  name : String
  reference : String
  expression : String
  matchNumber : String
  fallback : String
  type : String
  template : String
  deriving DecidableEq, Repr, Inhabited

namespace Extractor

def standard : Extractor := ⟨"", "UNDEFINED_REF_NAME", "", "0", "REGEX_ERROR", "body", "$1$"⟩

/-- The standard extractor with the given fields in their place. -/
def ofFields (fs : Fields) : Extractor where
  name := fs.getD "name" standard.name
  reference := fs.getD "refname" standard.reference
  expression := fs.getD "expression" standard.expression
  matchNumber := fs.getD "matchnum" standard.matchNumber
  fallback := fs.getD "defaultvalue" standard.fallback
  type := fs.getD "type" standard.type
  template := fs.getD "template" standard.template

/-- The part of the response that is searched. -/
def useHeaders (e : Extractor) : String :=
  match e.type with
  | "headers" => "true"
  | "url" => "URL"
  | _ => "false"

end Extractor

/-- A file sent with a request. -/
structure Upload where
  filename : String
  mimeType : String
  parameter : String
  deriving DecidableEq, Repr, Inhabited

/-- The parameters of a request, in order. -/
structure Parameters where
  attributes : Fields
  pairs : List (String × String)
  deriving DecidableEq, Repr, Inhabited

/-- Where the results of a request are written. -/
structure Results where
  file : String
  name : String
  type : String
  deriving DecidableEq, Repr, Inhabited

def Results.standard : Results := ⟨"report-result.log", "", "ViewResultsFullVisualizer"⟩

structure Request where
  name : String
  domain : String
  path : String
  method : String
  port : String
  protocol : String
  upload : Option Upload
  assertions : List Assertion
  extractors : List Extractor
  timers : List Timer
  parameters : Option Parameters
  results : Option Results
  /-- Assertions, extractors, results or an upload were described; then all parts go below the sampler. -/
  hasParts : Bool
  extra : Fields
  line : Nat
  deriving DecidableEq, Repr, Inhabited

namespace Request

def standard : Request where
  name := ""
  domain := ""
  path := ""
  method := "GET"
  port := ""
  protocol := ""
  upload := none
  assertions := []
  extractors := []
  timers := []
  parameters := none
  results := none
  hasParts := false
  extra := []
  line := 0

def pairs (r : Request) : List (String × String) :=
  match r.parameters with
  | some p => p.pairs
  | none => []

end Request

/-- Requests run a number of times, or without end. -/
structure Loop where
  name : String
  count : Int
  forever : Bool
  tests : List Request
  line : Nat
  deriving DecidableEq, Repr, Inhabited

def Loop.standard : Loop := ⟨"", 0, true, [], 0⟩

end LoadPlan.Scenario
