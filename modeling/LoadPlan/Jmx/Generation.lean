import LoadPlan.Diagnostic
import LoadPlan.Jmx.Component
import LoadPlan.Jmx.Counts
import LoadPlan.Scenario.DataFile

/-! The fragments of a plan, made from what is to be run. -/
namespace LoadPlan.Jmx

open LoadPlan.Scenario

/-- What no plan can be made from. -/
inductive Fault
  /-- The share of a controller is infinite and has no integer part. -/
  | infiniteShare
  /-- The share of a controller is no number. -/
  | undefinedShare
  /-- A repetition stands where only a step may. -/
  | misplacedRepetition
  /-- An integer has too many digits to be written. -/
  | tooManyDigits
  /-- The disk does not tell what a path leads to. -/
  | refused (failure : Storage.Failure)
  deriving DecidableEq, Repr

/-- The number of the next thread group, the elements made and the problems met. -/
structure Progress where
  nextGroup : Nat
  counts : Counts
  diagnostics : List Diagnostic
  deriving Repr

abbrev Generating := ExceptT Fault (StateM Progress)

/-- What fragments are made with: the disk, the settings and the document that problems are reported for. -/
structure Workshop where
  disk : Storage.Disk
  settings : Settings
  source : String

def tally (f : Counts → Counts) : Generating Unit :=
  modify fun p => { p with counts := f p.counts }

namespace Workshop

def timerFragment (t : Timer) : Generating Fragment := do
  tally fun c => { c with timers := c.timers + 1 }
  return pair (timer t)

def extractorFragment (e : Extractor) : Generating Fragment := do
  tally fun c => { c with extractors := c.extractors + 1 }
  return pair (extractor e)

/-- An assertion without literals has nothing to check. -/
def assertionFragment? (a : Assertion) : Generating (Option Fragment) := do
  if a.literals.isEmpty then return none
  tally fun c => { c with assertions := c.assertions + 1 }
  return some (pair (assertion a))

def collectorElement (gui name filename : String) : Generating Markup.Element := do
  tally fun c => { c with collectors := c.collectors + 1 }
  return collector gui name filename

def resultsFragment (r : Results) : Generating Fragment := do
  return pair (← collectorElement r.type s!"{r.name}: Results" r.file)

/-- The collector of the failed assertions of a whole plan. -/
def assertionResultsFragment (gui filename : String) : Generating Fragment := do
  return pair (← collectorElement gui "Assertion Results" filename)

def samplerElement (r : Request) : Generating Markup.Element := do
  tally fun c => { c with samplers := c.samplers + 1 }
  return sampler r

/-- Make a fragment for one record after the other, and put each in its turn to what is there. -/
def putAll {α : Type} (put : Fragment → Fragment → Fragment) (make : α → Generating Fragment)
    (f : Fragment) : List α → Generating Fragment
  | [] => return f
  | x :: xs => do
    let more ← make x
    putAll put make (put f more) xs

/-- Put fragments of assertions at the end, as far as there are any. -/
def extendAssertions (f : Fragment) : List Assertion → Generating Fragment
  | [] => return f
  | a :: rest => do
    let more ← assertionFragment? a
    extendAssertions (f.extend more) rest

/-- A sampler with its extractors, timers, assertions and collector in its tree, or, if only timers
were described, with the timers after it. -/
def requestFragment (r : Request) : Generating Fragment := do
  let element ← samplerElement r
  let timers ← putAll (· ++ ·) timerFragment [] r.timers
  if !r.hasParts then return pair element ++ timers
  let extractors ← putAll (· ++ ·) extractorFragment [] r.extractors
  let parts ← extendAssertions (extractors ++ timers) r.assertions
  match r.results with
  | none => return (pair element).fill parts
  | some results => return (pair element).fill (parts ++ (← resultsFragment results))

/-- A loop without requests comes to nothing. -/
def loopFragment? (l : Loop) : Generating (Option Fragment) := do
  if l.tests.isEmpty then return none
  match Number.Integer.text? l.count with
  | none => throw .tooManyDigits
  | some count =>
    let f ← putAll Fragment.fill requestFragment (pair (loop l.name count l.forever)) l.tests
    tally fun c => { c with loops := c.loops + 1 }
    return some f

/-- The integer part of a share. -/
def wholeShare (share : Number.Double) : Except Fault Int :=
  match share with
  | .nan => .error .undefinedShare
  | .infinite _ => .error .infiniteShare
  | .finite .. => .ok (share.integerPart?.getD 0)

mutual

def stepFragment? : Entry → Generating (Option Fragment)
  | .timer t => return some (← timerFragment t)
  | .request r => return some (← requestFragment r)
  | .loop l => loopFragment? l
  | .controller c => return some (← controllerFragment c)
  | .repeated _ => throw .misplacedRepetition

/-- A controller is two components, one in the tree of the other. -/
def controllerFragment : Controller → Generating Fragment
  | ⟨name, share, stack, _, _, _⟩ => do
    let part ← wholeShare share
    let inner ← fillSteps (pair (throughputController name share part)) stack
    tally fun c => { c with controllers := c.controllers + 1 }
    return (pair (genericController name)).fill inner

/-- Put steps into the tree after the first element, as far as they come to something. -/
def fillSteps (f : Fragment) : List Entry → Generating Fragment
  | [] => return f
  | e :: es => do
    match ← stepFragment? e with
    | none => fillSteps f es
    | some more => fillSteps (f.fill more) es

end

/-- Take the next number for a thread group. -/
def takeNumber : Generating Nat := do
  let p ← get
  set { p with nextGroup := p.nextGroup + 1 }
  return p.nextGroup

/-- A thread group, not yet with anything to run. -/
def threadGroupElement (w : Workshop) (name threads rampTime : String) :
    Generating Markup.Element := do
  tally fun c => { c with threadGroups := c.threadGroups + 1 }
  return threadGroup w.settings.onSampleError name threads rampTime

def groupName (number : Nat) (name : String) : String :=
  s!"Thread Group [{number}]: {name}"

/-- A thread group of its own for a fragment, with one thread. -/
def groupFragment (w : Workshop) (name : String) (inside : Fragment) : Generating Fragment := do
  let number ← takeNumber
  match Number.Integer.text? w.settings.rampTime with
  | none => throw .tooManyDigits
  | some rampTime =>
    let element ← w.threadGroupElement (groupName number name) "1" rampTime
    return ((pair element).fill (pair cookieManager)).fill inside

/-- Put a step of a data set at the end, in a thread group of its own, unless it comes to nothing. -/
def extendStep (w : Workshop) (name : String) (f : Fragment) (e : Entry) : Generating Fragment := do
  match ← stepFragment? e with
  | none => return f
  | some inside => return f ++ (← w.groupFragment name inside)

def extendSteps (w : Workshop) (name : String) (f : Fragment) : List Entry → Generating Fragment
  | [] => return f
  | e :: es => do
    let f ← w.extendStep name f e
    w.extendSteps name f es

/-- All steps once for each round. -/
def extendRounds (w : Workshop) (name : String) (items : List Entry) (f : Fragment) :
    Nat → Generating Fragment
  | 0 => return f
  | n + 1 => do
    let f ← w.extendSteps name f items
    w.extendRounds name items f n

/-- The steps of a repetition for each line of the data, or a problem if that cannot be read. -/
def repetitionFragment (w : Workshop) (d : DataSet) (items : List Entry) : Generating Fragment := do
  match d.file w.disk with
  | .error failure => throw (.refused failure)
  | .ok path =>
    match DataFile.rounds w.disk path with
    | .ok n => w.extendRounds d.name items [] n
    | .error failure =>
      modify fun p => { p with
        diagnostics := p.diagnostics ++ [⟨.dataUnreadable d.filename failure, ⟨w.source, d.line⟩⟩] }
      return []

def extendDataSteps (w : Workshop) (d : DataSet) (f : Fragment) : List Entry → Generating Fragment
  | [] => return f
  | .repeated items :: es => do
    let more ← w.repetitionFragment d items
    w.extendDataSteps d (f ++ more) es
  | e :: es => do
    let f ← w.extendStep d.name f e
    w.extendDataSteps d f es

/-- A data set and the thread groups that run with it. -/
def dataSetFragment (w : Workshop) (d : DataSet) : Generating Fragment := do
  tally fun c => { c with dataSets := c.dataSets + 1 }
  w.extendDataSteps d (pair (dataSet d)) d.stack

end Workshop

end LoadPlan.Jmx
