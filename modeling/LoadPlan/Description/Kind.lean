import LoadPlan.Description.Node

/-! The kinds of elements that mean something in a description. -/
namespace LoadPlan.Description

inductive Kind
  | timer
  | loop
  | controller
  | http
  | csv
  | script
  | testinfo
  | repeated
  | asserts
  | regex
  | results
  | upload
  | data
  | other
  deriving DecidableEq, Repr

namespace Kind

/-- Names are told apart by case. -/
def ofName : String → Kind
  | "timer" => .timer
  | "loop" => .loop
  | "controller" => .controller
  | "http" => .http
  | "csv" => .csv
  | "script" => .script
  | "testinfo" => .testinfo
  | "repeat" => .repeated
  | "asserts" => .asserts
  | "regex" => .regex
  | "results" => .results
  | "upload" => .upload
  | "data" => .data
  | _ => .other

def name : Kind → String
  | .timer => "timer"
  | .loop => "loop"
  | .controller => "controller"
  | .http => "http"
  | .csv => "csv"
  | .script => "script"
  | .testinfo => "testinfo"
  | .repeated => "repeat"
  | .asserts => "asserts"
  | .regex => "regex"
  | .results => "results"
  | .upload => "upload"
  | .data => "data"
  | .other => "other"

theorem ofName_name (k : Kind) : ofName k.name = k := by
  cases k <;> rfl

end Kind

def Node.kind (n : Node) : Kind :=
  .ofName n.name

end LoadPlan.Description
