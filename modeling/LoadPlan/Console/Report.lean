import LoadPlan.Build
import LoadPlan.Json

/-! The report of a build. -/
namespace LoadPlan.Console

namespace Report

def number (n : Nat) : Json :=
  .number (Nat.repr n)

def counts (c : Jmx.Counts) : Json :=
  .object (c.toList.map fun p => (p.1, number p.2))

def diagnostic (d : Diagnostic) : Json :=
  .object [("kind", .text d.problem.kind.name), ("message", .text d.problem.message),
    ("source", .text d.place.source), ("line", number d.place.line)]

/-- A text of the settings. -/
def settingText (s : String) (halves : Option (List Text.Point)) : Json :=
  match halves with
  | some ps => .points ps
  | none => .text s

/-- Settings, unless an integer has too many digits to be written. -/
def settings? (s : Settings) : Option Json := do
  let rampTime ← Number.Integer.text? s.rampTime
  let depth ← Number.Integer.text? s.maxIncludeDepth
  return .object [
    ("ramp_time", .number rampTime),
    ("on_sample_error", settingText s.onSampleError s.halved.onSampleError),
    ("default_percent", .ofDouble s.defaultPercent), ("max_include_depth", .number depth),
    ("csv_delimiter", settingText s.delimiter s.halved.delimiter), ("csv_recycle", .boolean s.recycle),
    ("jmeter_version", settingText s.version s.halved.version)]

/-- What a build made, and the settings it was made with. -/
def ofProduct? (p : Build.Product) (s : Settings) : Option Json := do
  let used ← settings? s
  return .object [
    ("success", .boolean true), ("jmx_path", .text p.path), ("counts", counts p.counts),
    ("diagnostics", .array (p.diagnostics.map diagnostic)), ("summary", .text p.counts.summary),
    ("settings", used)]

end Report

end LoadPlan.Console
