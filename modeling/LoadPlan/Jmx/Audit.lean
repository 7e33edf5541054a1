import LoadPlan.Jmx.Block
import LoadPlan.Number.Integer

/-! What is wrong with a plan, and what is advised. -/
namespace LoadPlan.Jmx

open LoadPlan.Markup (Element)

inductive Issue
  | wrongRoot
  | noTestPlan
  | noThreadGroup
  | noMainTree
  /-- A tree stands where an element is expected. -/
  | strayTree
  | unpaired (tag name : String)
  | noThreads (group : String)
  | tooFewThreads (group : String) (threads : Int)
  | badThreads (group text : String)
  | noRampTime (group : String)
  /-- A thread group that neither stops by schedule nor has a number of loops. -/
  | noEnd (group : String)
  | noDuration (group : String)
  | noSampler
  | noPath (sampler : String)
  | noMethod (sampler : String)
  | noDomain (sampler : String)
  deriving DecidableEq, Repr

def Issue.message : Issue → String
  | .wrongRoot => "Root element must be 'jmeterTestPlan'"
  | .noTestPlan => "Missing TestPlan element"
  | .noThreadGroup => "Missing ThreadGroup element"
  | .noMainTree => "Missing main hashTree element after jmeterTestPlan"
  | .strayTree => "Found a hashTree that does not follow an element"
  | .unpaired tag name => s!"{tag} '{name}' is not followed by its hashTree"
  | .noThreads group => s!"ThreadGroup '{group}' missing 'num_threads' configuration"
  | .tooFewThreads group threads =>
    s!"ThreadGroup '{group}' 'num_threads' must be > 0 (found: {Number.Integer.text threads})"
  | .badThreads group text =>
    s!"ThreadGroup '{group}' 'num_threads' must be a valid number (found: '{text}')"
  | .noRampTime group => s!"ThreadGroup '{group}' missing 'ramp_time' configuration"
  | .noEnd group => s!"ThreadGroup '{group}' must have either scheduler enabled or loop count configured"
  | .noDuration group =>
    s!"ThreadGroup '{group}' has scheduler enabled but missing 'duration' configuration"
  | .noSampler => "No HTTP samplers found in test plan"
  | .noPath sampler => s!"Sampler '{sampler}' missing path configuration"
  | .noMethod sampler => s!"Sampler '{sampler}' missing HTTP method"
  | .noDomain sampler => s!"Sampler '{sampler}' has no domain and no HTTP Request Defaults found"

inductive Advice
  | addTimers
  | addAssertions
  | addDurationAssertions
  | endlessLoop (name : String)
  | fewThreads (threads : Int)
  deriving DecidableEq, Repr

def Advice.message : Advice → String
  | .addTimers => "Consider adding timers to simulate realistic user think time"
  | .addAssertions => "No assertions found. Consider adding assertions to validate responses"
  | .addDurationAssertions => "Consider adding Duration Assertions for performance validation"
  | .endlessLoop name =>
    s!"Loop '{name}' runs forever; make sure the test is stopped by duration or by hand"
  | .fewThreads threads =>
    s!"Thread count is low ({Number.Integer.text threads}). " ++
      "Consider increasing for realistic load testing"

structure Audit where
  issues : List Issue
  advice : List Advice
  deriving DecidableEq, Repr

/-- A plan is valid if nothing is wrong with it; advice does not count. -/
def Audit.valid (a : Audit) : Bool :=
  a.issues.isEmpty

namespace Audit

def testName (e : Element) : String :=
  (e.attribute? "testname").getD ""

/-- Without the right root nothing else is looked for. -/
def structureIssues (root : Element) : List Issue :=
  if root.tag != "jmeterTestPlan" then [.wrongRoot]
  else
    (if (root.descendantsTagged "TestPlan").isEmpty then [.noTestPlan] else []) ++
    (if (root.descendantsTagged "ThreadGroup").isEmpty then [.noThreadGroup] else []) ++
    (if root.children.any (·.tag == treeTag) then [] else [.noMainTree])

/-- The first place where the children of a tree are not elements and trees by turns. -/
def pairingIssue? : List Element → Option Issue
  | [] => none
  | e :: rest =>
    if e.tag = treeTag then some .strayTree
    else match rest with
      | [] => some (.unpaired e.tag (testName e))
      | t :: rest =>
        if t.tag = treeTag then pairingIssue? rest else some (.unpaired e.tag (testName e))

def pairingIssues (root : Element) : List Issue :=
  (root.subtreeTagged treeTag).filterMap fun t => pairingIssue? t.children

/-- A number of threads is positive, or left to a variable. -/
def threadsIssue? (name : String) (group : Element) : Option Issue :=
  match group.property? "stringProp" "ThreadGroup.num_threads" with
  | none => some (.noThreads name)
  | some e =>
    if "$\x7b".toList.isPrefixOf e.text.toList then none
    else match Number.Integer.read? (if e.text.isEmpty then "0" else e.text) with
      | some n => if 0 < n then none else some (.tooFewThreads name n)
      | none => some (.badThreads name e.text)

def isScheduled (group : Element) : Bool :=
  (group.property? "boolProp" "ThreadGroup.scheduler").any (·.text == "true")

/-- Whether a child property is there and holds some text. -/
def isFilled (e : Element) (name : String) : Bool :=
  (e.property? "stringProp" name).any fun p => !p.text.isEmpty

def hasLoops (group : Element) : Bool :=
  (group.descendantsTagged "stringProp").any (·.attribute? "name" == some "LoopController.loops")

def groupIssues (group : Element) : List Issue :=
  let name := (group.attribute? "testname").getD "Thread Group"
  (threadsIssue? name group).toList ++
  (if (group.property? "stringProp" "ThreadGroup.ramp_time").isNone then [.noRampTime name] else []) ++
  (if isScheduled group || hasLoops group then [] else [.noEnd name]) ++
  (if isScheduled group && !isFilled group "ThreadGroup.duration" then [.noDuration name] else [])

/-- Defaults for requests make up for a missing domain. -/
def hasRequestDefaults (root : Element) : Bool :=
  (root.descendantsTagged "ConfigTestElement").any
    (·.attribute? "testclass" == some "ConfigTestElement")

/-- Samplers without a name go by their number. -/
def samplerIssues (root : Element) (sampler : Element) (number : Nat) : List Issue :=
  let name := if (testName sampler).isEmpty then s!"Sampler #{number}" else testName sampler
  (if isFilled sampler "HTTPSampler.path" then [] else [.noPath name]) ++
  (if isFilled sampler "HTTPSampler.method" then [] else [.noMethod name]) ++
  (if isFilled sampler "HTTPSampler.domain" || hasRequestDefaults root then [] else [.noDomain name])

def samplersIssues (root : Element) : List Issue :=
  match root.descendantsTagged "HTTPSamplerProxy" with
  | [] => [.noSampler]
  | samplers => (samplers.zipIdx 1).flatMap fun s => samplerIssues root s.1 s.2

def issuesOf (root : Element) : List Issue :=
  structureIssues root ++ pairingIssues root ++
    (root.subtreeTagged "ThreadGroup").flatMap groupIssues ++ samplersIssues root

def timerTags : List String := ["GaussianRandomTimer", "ConstantTimer", "UniformRandomTimer"]

def lacksTimers (root : Element) : Bool :=
  timerTags.all fun tag => (root.subtreeTagged tag).isEmpty

def endlessLoop? (loop : Element) : Option Advice :=
  if (loop.property? "boolProp" "LoopController.continue_forever").any (·.text == "true") then
    some (.endlessLoop (testName loop))
  else none

/-- Fewer threads than this are not realistic. -/
def lowThreads : Int := 10

/-- The advice on the number of threads looks at the first thread group only. -/
def threadsAdvice? (root : Element) : Option Advice :=
  match root.descendantsTagged "ThreadGroup" with
  | [] => none
  | group :: _ =>
    match group.property? "stringProp" "ThreadGroup.num_threads" with
    | none => none
    | some e =>
      match Number.Integer.read? e.text with
      | some n => if n < lowThreads then some (.fewThreads n) else none
      | none => none

def adviceOn (root : Element) : List Advice :=
  let samplers := root.descendantsTagged "HTTPSamplerProxy"
  let assertions := root.descendantsTagged "ResponseAssertion"
  let durations := root.descendantsTagged "DurationAssertion"
  (if lacksTimers root then [.addTimers] else []) ++
  (if !samplers.isEmpty && assertions.isEmpty then [.addAssertions] else []) ++
  (if !assertions.isEmpty && durations.isEmpty then [.addDurationAssertions] else []) ++
  (root.subtreeTagged "LoopController").filterMap endlessLoop? ++
  (threadsAdvice? root).toList

/-- The audit of a plan. -/
def ofElement (root : Element) : Audit :=
  ⟨issuesOf root, adviceOn root⟩

end Audit

end LoadPlan.Jmx
