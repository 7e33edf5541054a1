import LoadPlan.Settings
import LoadPlan.Yaml.Value

/-! The keys of settings in a file, and what values they take. -/
namespace LoadPlan.Settings

open LoadPlan.Yaml (Value)

inductive Key
  | delimiter
  | recycle
  | defaultPercent
  | version
  | maxIncludeDepth
  | onSampleError
  | rampTime
  deriving DecidableEq, Repr

namespace Key

/-- All keys in the order of their names. -/
def all : List Key :=
  [.delimiter, .recycle, .defaultPercent, .version, .maxIncludeDepth, .onSampleError, .rampTime]

def name : Key → String
  | .delimiter => "csv_delimiter"
  | .recycle => "csv_recycle"
  | .defaultPercent => "default_percent"
  | .version => "jmeter_version"
  | .maxIncludeDepth => "max_include_depth"
  | .onSampleError => "on_sample_error"
  | .rampTime => "ramp_time"

/-- The key of a name. A text with halves of surrogate pairs is no name. -/
def ofValue? : Value → Option Key
  | .text s => if s.halves.isSome then none else all.find? (·.name == s.text)
  | _ => none

/-- Whether a value is of a kind a key takes. -/
def takes : Key → Value → Bool
  | .recycle, .boolean _ => true
  | .rampTime, .integer _ => true
  | .maxIncludeDepth, .integer _ => true
  | .defaultPercent, .integer _ => true
  | .defaultPercent, .float _ => true
  | .onSampleError, .text _ => true
  | .delimiter, .text _ => true
  | .version, .text _ => true
  | .version, .integer _ => true
  | .version, .float _ => true
  | _, _ => false

theorem ofValue?_name (k : Key) : ofValue? (.text k.name) = some k := by
  cases k <;> decide

end Key

end LoadPlan.Settings
