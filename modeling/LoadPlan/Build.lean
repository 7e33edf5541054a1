import LoadPlan.Jmx.Plan
import LoadPlan.Jmx.PlanFile

/-! From a description to a plan, and from one file to the other. -/
namespace LoadPlan

namespace Build

open LoadPlan.Description (Node)

/-- A plan with what is known of how it was made. -/
structure Draft where
  root : Markup.Element
  counts : Jmx.Counts
  groups : Nat
  diagnostics : List Diagnostic
  /-- Whether halves of surrogate pairs stand in the plan, so that it has no encoding. -/
  halved : Bool

/-- Whether the plan for a scenario holds a halved text of the settings. Their action after an error and their version
stand in every plan, and their delimiter in one with a data set that names none. -/
def isHalved (settings : Settings) (s : Scenario) : Bool :=
  settings.halved.onSampleError.isSome || settings.halved.version.isSome ||
    (settings.halved.delimiter.isSome && s.allDataSets.any (·.delimiter == settings.delimiter))

/-- The plan for a scenario, after the problems met so far. -/
def assemble (disk : Storage.Disk) (settings : Settings) (source : String) (s : Scenario)
    (diagnostics : List Diagnostic) : Except Jmx.Fault Draft :=
  match ((⟨disk, settings, source⟩ : Jmx.Workshop).plan s).run ⟨0, .zero, diagnostics⟩ with
  | (.ok root, p) => .ok ⟨root, p.counts, p.nextGroup, p.diagnostics, isHalved settings s⟩
  | (.error fault, _) => .error fault

/-- The plan for a description. -/
def draft (disk : Storage.Disk) (settings : Settings) (source : String) (root : Node) :
    Except Jmx.Fault Draft :=
  match (Scenario.collect disk settings root).run .empty with
  | (.error failure, _) => .error (.refused failure)
  | (.ok scenario, log) => assemble disk settings source scenario log.diagnostics

theorem draft_eq (disk : Storage.Disk) (settings : Settings) (source : String) (root : Node) :
    draft disk settings source root =
      match ((Scenario.ofDescription disk settings root).run .empty).2.refusal? with
      | none => assemble disk settings source ((Scenario.ofDescription disk settings root).run .empty).1
          ((Scenario.ofDescription disk settings root).run .empty).2.diagnostics
      | some failure => .error (.refused failure) := by
  rw [draft, Scenario.run_collect]
  cases ((Scenario.ofDescription disk settings root).run .empty).2.refusal? <;> rfl

/-- Why there is no plan file. -/
inductive Error
  | missing (path : String)
  | malformed (source : String)
  | unwritable (path : String) (failure : Storage.Failure)
  | fault (f : Jmx.Fault)
  /-- The plan has no encoding. -/
  | halved
  deriving DecidableEq, Repr

/-- The wording of an error; a fault has none, nor has a plan without an encoding. -/
def Error.message? : Error → Option String
  | .missing path => some s!"Input file not found: {path}"
  | .malformed source => some (malformedMessage source)
  | .unwritable path failure => some s!"Failed to write JMX file '{path}': {failure.message}"
  | .fault _ => none
  | .halved => none

/-- A plan file that was written. -/
structure Product where
  path : String
  counts : Jmx.Counts
  diagnostics : List Diagnostic
  deriving DecidableEq, Repr

/-- What gets into the file for a plan: nothing if there is no encoding, as the file is opened before that is known. -/
def Draft.content (d : Draft) : Text.Utf8.Bytes :=
  if d.halved then [] else Text.Utf8.encode d.root.document

/-- Make the file for a plan. The disk is answered also on failure. -/
def Draft.deliver (d : Draft) (disk : Storage.Disk) (output : String) : Storage.Disk × Except Error Product :=
  let path := Storage.Path.ofString output
  match Jmx.PlanFile.save disk path d.content with
  | (disk, .error failure) => (disk, .error (.unwritable output failure))
  | (disk, .ok ()) =>
    if d.halved then (disk, .error .halved)
    else (disk, .ok ⟨(disk.absolute path).text, d.counts, d.diagnostics⟩)

/-- Make a plan file from a description file. The disk is answered also on failure. -/
def run (disk : Storage.Disk) (settings : Settings) (input output : String) :
    Storage.Disk × Except Error Product :=
  match Description.ofFile disk input with
  | .error (.missing _) => (disk, .error (.missing input))
  | .error (.malformed source) => (disk, .error (.malformed source))
  | .error (.refused failure) => (disk, .error (.fault (.refused failure)))
  | .ok root =>
    match draft disk settings input root with
    | .error f => (disk, .error (.fault f))
    | .ok d => d.deliver disk output

end Build

end LoadPlan
