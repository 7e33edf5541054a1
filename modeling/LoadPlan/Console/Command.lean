import LoadPlan.Console.Arguments
import LoadPlan.Console.Report
import LoadPlan.Console.Screen
import LoadPlan.Settings.Reader

/-! The commands, as functions from a disk to a disk and the lines that are shown. -/
namespace LoadPlan.Console

/-- What ends a command without a word. -/
inductive Crash
  /-- A text cannot be shown. -/
  | unshown (message : String)
  | fault (f : Jmx.Fault)
  /-- The plan has no encoding. -/
  | halved
  | settings (e : Settings.ReadError)
  /-- A plan names an encoding that is not known. -/
  | unknownEncoding (name : String)
  | storage (f : Storage.Failure)
  /-- An integer of the settings has too many digits to be written. -/
  | tooManyDigits
  deriving DecidableEq, Repr

/-- What is said of a crash. -/
def Crash.message : Crash → String
  | .unshown message => message
  | .fault .infiniteShare => "an infinite share has no integer part"
  | .fault .undefinedShare => "a share is not a number"
  | .fault .misplacedRepetition => "a repetition stands where a step is expected"
  | .fault .tooManyDigits | .tooManyDigits => "an integer has too many digits"
  | .fault (.refused f) => f.message
  | .halved => "the plan holds half of a surrogate pair"
  | .settings e => e.message?.getD "a value of the settings cannot be read"
  | .unknownEncoding name => (Jmx.PlanFile.ReadError.unknownEncoding name).message
  | .storage f => f.message

/-- How a command ends early: with an exit code, or by a crash. -/
inductive Stop
  | exit (code : Nat)
  | crash (c : Crash)
  deriving DecidableEq, Repr

/-- The disk and the lines shown so far. -/
structure Session where
  disk : Storage.Disk
  shown : List String

abbrev Running := ExceptT Stop (StateM Session)

namespace Running

def crash {α : Type} (c : Crash) : Running α :=
  throw (.crash c)

/-- Show lines, unless the library raised an error over them. -/
def display (ls : Except String (List String)) : Running Unit :=
  match ls with
  | .ok ls => modify fun s => { s with shown := s.shown ++ ls }
  | .error message => crash (.unshown message)

def disk : Running Storage.Disk :=
  return (← get).disk

def setDisk (d : Storage.Disk) : Running Unit :=
  modify fun s => { s with disk := d }

variable (library : Renderer)

def print (s : String) : Running Unit :=
  display (Screen.lines library s)

/-- Show an error and exit. -/
def fail {α : Type} (message : String) : Running α := do
  print library s!"\n[bold red]Error:[/bold red] {message}"
  throw (.exit 1)

/-- A missing file is an error to be shown, any other failure a crash. -/
def failStorage {α : Type} (f : Storage.Failure) : Running α :=
  if f.cause = .notFound then fail library f.message else crash (.storage f)

end Running

namespace Command

open Running

variable (library : Renderer)

/-- The settings for a build: the standard ones unless a file is named. -/
def settingsFrom (config : Option String) : Running Settings := do
  match config with
  | none => return .standard
  | some path =>
    match Settings.ofFile (← disk) path with
    | .ok s => return s
    | .error (.unreadable f) => failStorage library f
    | .error e =>
      match e.message? with
      | some message => fail library message
      | none => crash (.settings e)

/-- The numbers of a plan. -/
def summaryText (p : Build.Product) : String :=
  let c := p.counts
  "\n".intercalate [
    "[bold green]✓ JMX file generated successfully![/bold green]\n",
    s!"[cyan]File:[/cyan] {p.path}",
    s!"[cyan]Samplers:[/cyan] {c.samplers}",
    s!"[cyan]Timers:[/cyan] {c.timers}",
    s!"[cyan]Assertions:[/cyan] {c.assertions}",
    s!"[cyan]Extractors:[/cyan] {c.extractors}",
    s!"[cyan]Loops / Controllers:[/cyan] {c.loops} / {c.controllers}",
    s!"[cyan]CSV Data Sets:[/cyan] {c.dataSets}",
    s!"[cyan]Thread Groups:[/cyan] {c.threadGroups}\n",
    "[dim]Next step: Open in JMeter GUI or run headless[/dim]"]

def kindStyle : ProblemKind → String
  | .defaulted => "yellow"
  | _ => "red"

def diagnosticRow (d : Diagnostic) : List String :=
  let style := kindStyle d.problem.kind
  [s!"[{style}]{d.problem.kind.name}[/{style}]", d.place.label, d.problem.message]

def showProduct (p : Build.Product) : Running Unit := do
  display (Screen.panel library "Generation Complete" (summaryText p))
  if !p.diagnostics.isEmpty then
    display (Screen.table library "Diagnostics" ["Kind", "Location", "Message"]
      (p.diagnostics.map diagnosticRow))

/-- Write the report of a build, with the directories above it that are missing. -/
def writeReport (path : String) (p : Build.Product) (s : Settings) : Running Unit := do
  let place := Storage.Path.ofString path
  let (made, result) := (← disk).makeDirectories place.parent
  setDisk made
  match result with
  | .error f => failStorage library f
  | .ok () =>
    match Report.ofProduct? p s with
    | none => crash .tooManyDigits
    | some report =>
      match made.write place (Text.Utf8.encode (report.render 0)) with
      | .error f => failStorage library f
      | .ok written =>
        setDisk written
        print library s!"\n[dim]Report exported to:[/dim] {path}"

def generate (r : GenerateRequest) : Running Unit := do
  match (← disk).isFile (.ofString r.input) with
  | .error f => crash (.storage f)
  | .ok false => fail library s!"Failed to find needed --inputfile: \"{r.input}\""
  | .ok true => pure ()
  let settings ← settingsFrom library r.config
  print library s!"[bold]Generating JMX file:[/bold] {r.output}"
  print library s!"[dim]  Input: {r.input}[/dim]\n"
  let (after, result) := Build.run (← disk) settings r.input r.output
  setDisk after
  match result with
  | .error (.fault f) => crash (.fault f)
  | .error .halved => crash .halved
  | .error e => fail library (e.message?.getD "")
  | .ok p =>
    showProduct library p
    match r.report with
    | none => return ()
    | some path => if path != "" then writeReport library path p settings

/-- Texts under numbers. -/
def printNumbered (ls : List String) : Running Unit := do
  for (l, i) in ls.zipIdx 1 do
    print library s!"  {i}. {l}"

def showAudit (a : Jmx.Audit) : Running Unit := do
  if a.valid then print library "[bold green]✓ JMX file is valid![/bold green]"
  else
    print library s!"[bold red]✗ JMX file has {a.issues.length} issue(s)[/bold red]"
    print library "\n[bold red]Issues Found:[/bold red]"
    printNumbered library (a.issues.map (·.message))
  if !a.advice.isEmpty then
    print library "\n[bold yellow]Recommendations:[/bold yellow]"
    printNumbered library (a.advice.map (·.message))
  if !a.valid then throw (.exit 1)

def validate (path : String) : Running Unit := do
  print library s!"\n[bold]Validating JMX file:[/bold] {path}\n"
  match Jmx.PlanFile.audit (← disk) path with
  | .ok a => showAudit library a
  | .error (.unreadable f) =>
    if f.cause = .notFound then fail library s!"File not found: {path}" else crash (.storage f)
  | .error (.missing _) => fail library s!"File not found: {path}"
  | .error (.unknownEncoding name) => crash (.unknownEncoding name)
  | .error .malformed => fail library Jmx.PlanFile.ReadError.malformed.message

/-- Whether a path as it was given leads anywhere. An empty one does not, and one with a slash or a dot
at its end only to a directory. -/
def isThere (d : Storage.Disk) (path : String) : Bool :=
  let p := Storage.Path.ofString path
  let found : Except Storage.Failure Bool :=
    match path.toList.reverse with
    | [] => .ok false
    | '/' :: _ => d.isDirectory p
    | '.' :: '/' :: _ => d.isDirectory p
    | _ => d.exists? p
  found.toOption.getD false

def versionText : String := "jmx-builder, version 1.0.0"

/-- What a request does. -/
def perform : Request → Running Unit
  | .version => modify fun s => { s with shown := s.shown ++ [versionText] }
  | .help => return ()
  | .generate r => generate library r
  | .validate path => do
    if isThere (← disk) path then validate library path else throw (.exit 2)

/-- How the command line ends. -/
structure Outcome where
  disk : Storage.Disk
  code : Nat
  crash : Option Crash
  lines : List String

/-- Run the command line with a library. -/
def run (d : Storage.Disk) (args : List String) : Outcome :=
  match Arguments.request? args with
  | none => ⟨d, 2, none, []⟩
  | some r =>
    match (perform library r).run ⟨d, []⟩ with
    | (.ok (), s) => ⟨s.disk, 0, none, s.shown⟩
    | (.error (.exit code), s) => ⟨s.disk, code, none, s.shown⟩
    | (.error (.crash c), s) => ⟨s.disk, 1, some c, s.shown⟩

end Command

end LoadPlan.Console
