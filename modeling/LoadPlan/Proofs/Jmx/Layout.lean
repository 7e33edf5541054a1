import Mathlib.Data.List.Basic
import LoadPlan.Jmx.Plan
import LoadPlan.Proofs.Jmx.Outcome

/-! The blocks of a plan as functions of the records alone, and the faults they meet. Making fragments ends
with the first fault, or else gives the elements of these blocks and has counted their components. -/
namespace LoadPlan.Scenario

/-- How often the steps of a repetition run with a data set. -/
def DataSet.rounds (disk : Storage.Disk) (d : DataSet) : Except Storage.Failure Nat :=
  (d.file disk).bind (DataFile.rounds disk)

theorem DataSet.rounds_of_read {disk : Storage.Disk} {d : DataSet} {path : Storage.Path}
    {r : Except Storage.Failure Text.Utf8.Bytes} (hfile : d.file disk = .ok path) (h : disk.read path = r) :
    d.rounds disk = r.map DataFile.lineCount := by
  rw [rounds, hfile, ← h]
  rfl

/-- The steps that a step of a data set stands for: a repetition for its steps once for each line. -/
def DataSet.expanded (disk : Storage.Disk) (d : DataSet) : Entry → List Entry
  | .repeated items =>
    match d.rounds disk with
    | .ok n => (List.replicate n items).flatten
    | .error _ => []
  | e => [e]

/-- The steps that run with a data set, in order. -/
def DataSet.running (disk : Storage.Disk) (d : DataSet) : List Entry :=
  d.stack.flatMap (d.expanded disk)

/-- Why a step of a data set comes to nothing. -/
def DataSet.problem? (disk : Storage.Disk) (d : DataSet) : Entry → Option Problem
  | .repeated _ =>
    match d.rounds disk with
    | .ok _ => none
    | .error failure => some (.dataUnreadable d.filename failure)
  | _ => none

/-- Why the disk does not tell which file a step of a data set is repeated for. -/
def DataSet.refusal? (disk : Storage.Disk) (d : DataSet) : Entry → Option Storage.Failure
  | .repeated _ =>
    match d.file disk with
    | .ok _ => none
    | .error failure => some failure
  | _ => none

theorem DataSet.refusal?_of_file {disk : Storage.Disk} {d : DataSet} {path : Storage.Path}
    (h : d.file disk = .ok path) (e : Entry) : d.refusal? disk e = none := by
  cases e with
  | repeated items => simp only [refusal?, h]
  | _ => rfl

end LoadPlan.Scenario

namespace LoadPlan.Jmx

open LoadPlan.Markup (Element)
open LoadPlan.Scenario
open Block (componentsOf components elementsOf Proper proper_nil proper_cons proper_append proper_flatMap)

/-- Everything that a fragment can be made for by itself. -/
inductive Order
  | timer (t : Timer)
  | extractor (e : Extractor)
  | assertion (a : Assertion)
  | results (r : Results)
  | assertionResults (gui filename : String)
  | request (r : Request)
  | loop (l : Loop)
  | controller (c : Controller)
  | step (e : Entry)
  | cookieManager
  /-- A thread group around elements that are there already, whatever they are. -/
  | group (name : String) (inside : Fragment)
  | dataSet (d : DataSet)
  | repetition (d : DataSet) (items : List Entry)

/-- Make the fragment of an order. An assertion or a loop may come to nothing. -/
def Workshop.fragment (w : Workshop) : Order → Generating Fragment
  | .timer t => timerFragment t
  | .extractor e => extractorFragment e
  | .assertion a => return (← assertionFragment? a).getD []
  | .results r => resultsFragment r
  | .assertionResults gui filename => assertionResultsFragment gui filename
  | .request r => requestFragment r
  | .loop l => return (← loopFragment? l).getD []
  | .controller c => controllerFragment c
  | .step e => return (← stepFragment? e).getD []
  | .cookieManager => return pair cookieManager
  | .group name inside => w.groupFragment name inside
  | .dataSet d => w.dataSetFragment d
  | .repetition d items => w.repetitionFragment d items

/-- The elements that an order is given to put in a tree. -/
def Order.passed : Order → Fragment
  | .group _ inside => inside
  | _ => []

namespace Layout

def ofTimer (t : Timer) : Block := ⟨timer t, []⟩

def ofExtractor (e : Extractor) : Block := ⟨extractor e, []⟩

def ofAssertion? (a : Assertion) : Option Block :=
  if a.literals.isEmpty then none else some ⟨assertion a, []⟩

def ofCollector (gui name filename : String) : Block := ⟨collector gui name filename, []⟩

def ofResults (r : Results) : Block := ofCollector r.type s!"{r.name}: Results" r.file

/-- What stands in the tree of a sampler. -/
def parts (r : Request) : List Block :=
  r.extractors.map ofExtractor ++ r.timers.map ofTimer ++ r.assertions.filterMap ofAssertion? ++
    r.results.toList.map ofResults

def ofRequest (r : Request) : List Block :=
  if r.hasParts then [⟨sampler r, parts r⟩] else ⟨sampler r, []⟩ :: r.timers.map ofTimer

def ofLoop (l : Loop) : List Block :=
  if l.tests.isEmpty then []
  else [⟨loop l.name (Number.Integer.text l.count) l.forever, l.tests.flatMap ofRequest⟩]

mutual

def ofStep : Entry → List Block
  | .timer t => [ofTimer t]
  | .request r => ofRequest r
  | .loop l => ofLoop l
  | .controller c => [ofController c]
  | .repeated _ => []

def ofController : Controller → Block
  | ⟨name, share, stack, _, _, _⟩ =>
    ⟨genericController name,
      [⟨throughputController name share (share.integerPart?.getD 0), ofSteps stack⟩]⟩

def ofSteps : List Entry → List Block
  | [] => []
  | e :: es => ofStep e ++ ofSteps es

end

/-- A number that is too long to be written. -/
def writingFaults (n : Int) : List Fault :=
  if (Number.Integer.text? n).isSome then [] else [.tooManyDigits]

/-- A loop that comes to something has its count written. -/
def loopFaults (l : Loop) : List Fault :=
  if l.tests.isEmpty then [] else writingFaults l.count

/-- The fault of a share that has no integer part. -/
def shareFaults (share : Number.Double) : List Fault :=
  match Workshop.wholeShare share with
  | .ok _ => []
  | .error f => [f]

mutual

/-- The faults of a step in the order in which they are met. -/
def stepFaults : Entry → List Fault
  | .loop l => loopFaults l
  | .controller c => controllerFaults c
  | .repeated _ => [.misplacedRepetition]
  | _ => []

def controllerFaults : Controller → List Fault
  | ⟨_, share, stack, _, _, _⟩ => shareFaults share ++ stepsFaults stack

def stepsFaults : List Entry → List Fault
  | [] => []
  | e :: es => stepFaults e ++ stepsFaults es

end

variable (w : Workshop)

/-- The thread group of a data set for the blocks of one of its steps. -/
def ofGroup (name : String) (number : Nat) (inside : List Block) : Block :=
  ⟨threadGroup w.settings.onSampleError (Workshop.groupName number name) "1"
    (Number.Integer.text w.settings.rampTime), ⟨cookieManager, []⟩ :: inside⟩

/-- Thread groups with consecutive numbers. -/
def groups (name : String) (number : Nat) (insides : List (List Block)) : List Block :=
  (insides.zipIdx number).map fun i => ofGroup w name i.2 i.1

/-- What the thread groups of steps hold. Steps that come to nothing have none. -/
def insides (es : List Entry) : List (List Block) :=
  (es.map ofStep).filter fun bs => !bs.isEmpty

/-- A step in a thread group of its own needs the ramp time written. -/
def groupedFaults (es : List Entry) : List Fault :=
  es.flatMap fun e =>
    stepFaults e ++ if (ofStep e).isEmpty then [] else writingFaults w.settings.rampTime

/-- The faults of a step of a data set. A repetition needs its file, before any of its steps is made. -/
def dataStepFaults (d : DataSet) (e : Entry) : List Fault :=
  (d.refusal? w.disk e).toList.map .refused ++ groupedFaults w (d.expanded w.disk e)

def dataSetFaults (d : DataSet) : List Fault :=
  d.stack.flatMap (dataStepFaults w d)

def ofDataSet (number : Nat) (d : DataSet) : List Block :=
  ⟨dataSet d, []⟩ :: groups w d.name number (insides (d.running w.disk))

/-- Data sets with their thread groups, which are numbered through. -/
def ofDataSets (number : Nat) : List DataSet → List Block
  | [] => []
  | d :: ds =>
    ofDataSet w number d ++ ofDataSets (number + (insides (d.running w.disk)).length) ds

/-- The problems of steps of a data set are reported for the document that the plan is made from. -/
def diagnosticsOf (d : DataSet) (es : List Entry) : List Diagnostic :=
  (es.filterMap (d.problem? w.disk)).map fun problem => ⟨problem, ⟨w.source, d.line⟩⟩

/-- The time over which the threads of the main group start. -/
def rampTime (s : Scenario) : String :=
  Fields.getD s.info "rampup" (Number.Integer.text w.settings.rampTime)

/-- What stands in the tree of a test plan. -/
def content (s : Scenario) (number : Nat) : List Block :=
  ofCollector s.info.assertType.value "Assertion Results" s.info.assertLog.value ::
    ⟨threadGroup w.settings.onSampleError (Workshop.groupName number s.info.planName.value)
        s.info.threads.value (rampTime w s),
      ⟨cookieManager, []⟩ :: ofSteps s.stack⟩ ::
    ofDataSets w (number + 1) s.allDataSets

def root (s : Scenario) (number : Nat) : Element :=
  ⟨"jmeterTestPlan",
    [("version", "1.2"), ("properties", w.settings.version), ("jmeter", w.settings.version)], "",
    [Block.tree [⟨testPlan s.info.planName.value, content w s number⟩]]⟩

/-- The ramp time of the settings is written unless the description names its own. -/
def rampFaults (s : Scenario) : List Fault :=
  if (Fields.get? s.info "rampup").isSome then [] else writingFaults w.settings.rampTime

def planFaults (s : Scenario) : List Fault :=
  rampFaults w s ++ (stepsFaults s.stack ++ s.allDataSets.flatMap (dataSetFaults w))

/-- Problems with the plan as a whole, and then those with the files of data sets. -/
def planDiagnostics (s : Scenario) : List Diagnostic :=
  ([s.info.planName, s.info.assertLog].filterMap Resolved.problem).map (⟨·, ⟨w.source, 0⟩⟩) ++
    s.allDataSets.flatMap fun d => diagnosticsOf w d d.stack

/-- The blocks that are made for an order, with the number that the next thread group takes. -/
def ofOrder (number : Nat) : Order → List Block
  | .timer t => [ofTimer t]
  | .extractor e => [ofExtractor e]
  | .assertion a => (ofAssertion? a).toList
  | .results r => [ofResults r]
  | .assertionResults gui filename => [ofCollector gui "Assertion Results" filename]
  | .request r => ofRequest r
  | .loop l => ofLoop l
  | .controller c => [ofController c]
  | .step e => ofStep e
  | .cookieManager => [⟨cookieManager, []⟩]
  | .group name _ => [ofGroup w name number []]
  | .dataSet d => ofDataSet w number d
  | .repetition d items => groups w d.name number (insides (d.expanded w.disk (.repeated items)))

/-- The elements of these blocks. What an order is given is put into the tree of the first. -/
def fragmentOf (number : Nat) (o : Order) : Fragment :=
  Fragment.fill (elementsOf (ofOrder w number o)) o.passed

def orderFaults : Order → List Fault
  | .loop l => loopFaults l
  | .controller c => controllerFaults c
  | .step e => stepFaults e
  | .group _ _ => writingFaults w.settings.rampTime
  | .dataSet d => dataSetFaults w d
  | .repetition d items => dataStepFaults w d (.repeated items)
  | _ => []

def orderDiagnostics : Order → List Diagnostic
  | .dataSet d => diagnosticsOf w d d.stack
  | .repetition d items => diagnosticsOf w d [.repeated items]
  | _ => []

/-! Blocks of steps consist of the components of steps, and of properties below those. -/

theorem proper_timers (ts : List Timer) : Proper partTags (ts.map ofTimer) := by
  induction ts with
  | nil => exact proper_nil
  | cons t ts ih => exact proper_cons.mpr ⟨isComponent_timer t, proper_nil, ih⟩

theorem proper_extractors (es : List Extractor) : Proper partTags (es.map ofExtractor) := by
  induction es with
  | nil => exact proper_nil
  | cons e es ih => exact proper_cons.mpr ⟨isComponent_extractor e, proper_nil, ih⟩

theorem proper_assertion (a : Assertion) : Proper partTags (ofAssertion? a).toList := by
  unfold ofAssertion?
  split
  · exact proper_nil
  · exact proper_cons.mpr ⟨isComponent_assertion a, proper_nil, proper_nil⟩

theorem proper_assertions (as : List Assertion) :
    Proper partTags (as.filterMap ofAssertion?) := by
  rw [List.filterMap_eq_flatMap_toList]
  exact proper_flatMap fun a _ => proper_assertion a

theorem proper_collector (gui name filename : String) :
    Proper partTags [ofCollector gui name filename] :=
  proper_cons.mpr ⟨isComponent_collector gui name filename, proper_nil, proper_nil⟩

theorem proper_results (r : Option Results) : Proper partTags (r.toList.map ofResults) := by
  cases r with
  | none => exact proper_nil
  | some r => exact proper_collector _ _ _

theorem proper_parts (r : Request) : Proper partTags (parts r) := by
  unfold parts
  simp only [proper_append]
  exact ⟨⟨⟨proper_extractors _, proper_timers _⟩, proper_assertions _⟩, proper_results _⟩

theorem proper_request (r : Request) : Proper stepTags (ofRequest r) := by
  unfold ofRequest
  split
  · exact proper_cons.mpr ⟨isComponent_sampler r, (proper_parts r).of_part, proper_nil⟩
  · exact proper_cons.mpr ⟨isComponent_sampler r, proper_nil, (proper_timers _).of_part⟩

theorem proper_loop (l : Loop) : Proper stepTags (ofLoop l) := by
  unfold ofLoop
  split
  · exact proper_nil
  · have ht : Proper stepTags (l.tests.flatMap ofRequest) := proper_flatMap fun r _ => proper_request r
    exact proper_cons.mpr ⟨isComponent_loop _ _ _, ht, proper_nil⟩

theorem ofRequest_ne_nil (r : Request) : ofRequest r ≠ [] := by
  unfold ofRequest
  split
  · exact List.cons_ne_nil _ _
  · exact List.cons_ne_nil _ _

mutual

theorem proper_step : ∀ e : Entry, Proper stepTags (ofStep e)
  | .timer t => (proper_timers [t]).of_part
  | .request r => proper_request r
  | .loop l => proper_loop l
  | .controller c => proper_controller c
  | .repeated _ => proper_nil

theorem proper_controller : ∀ c : Controller, Proper stepTags [ofController c]
  | ⟨name, share, stack, _, _, _⟩ => by
    have hs := proper_steps stack
    have ht := proper_cons.mpr
      ⟨isComponent_throughputController name share (share.integerPart?.getD 0), hs, proper_nil⟩
    exact proper_cons.mpr ⟨isComponent_genericController name, ht, proper_nil⟩

theorem proper_steps : ∀ es : List Entry, Proper stepTags (ofSteps es)
  | [] => proper_nil
  | e :: es => proper_append.mpr ⟨proper_step e, proper_steps es⟩

end

theorem stepsFaults_eq_flatMap (es : List Entry) : stepsFaults es = es.flatMap stepFaults := by
  induction es with
  | nil => rfl
  | cons e es ih => rw [stepsFaults, ih, List.flatMap_cons]

/-! Thread groups. -/

theorem insides_append (a b : List Entry) : insides (a ++ b) = insides a ++ insides b := by
  simp only [insides, List.map_append, List.filter_append]

theorem groupedFaults_append (a b : List Entry) :
    groupedFaults w (a ++ b) = groupedFaults w a ++ groupedFaults w b :=
  List.flatMap_append

/-- Once the ramp time is written, only the steps themselves have faults. -/
theorem groupedFaults_of_written {w : Workshop} (h : writingFaults w.settings.rampTime = [])
    (es : List Entry) : groupedFaults w es = stepsFaults es := by
  unfold groupedFaults
  rw [stepsFaults_eq_flatMap, h]
  simp only [ite_self, List.append_nil]

/-- A data set has the faults of the steps that run with it, once the disk tells where its file is. -/
theorem dataSetFaults_eq_nil_iff (d : DataSet) : dataSetFaults w d = [] ↔
    (∀ e ∈ d.stack, d.refusal? w.disk e = none) ∧ groupedFaults w (d.running w.disk) = [] := by
  have hrunning : groupedFaults w (d.running w.disk) =
      d.stack.flatMap fun e => groupedFaults w (d.expanded w.disk e) := List.flatMap_assoc
  rw [hrunning, dataSetFaults, List.flatMap_eq_nil_iff, List.flatMap_eq_nil_iff, ← forall₂_and]
  refine forall₂_congr fun e _ => ?_
  rw [dataStepFaults, List.append_eq_nil_iff, List.map_eq_nil_iff, Option.toList_eq_nil_iff]

theorem dataSetFaults_eq_nil {w : Workshop} {d : DataSet} {path : Storage.Path}
    (hw : writingFaults w.settings.rampTime = []) (hp : d.file w.disk = .ok path)
    (h : stepsFaults (d.running w.disk) = []) : dataSetFaults w d = [] := by
  rw [dataSetFaults_eq_nil_iff, groupedFaults_of_written hw]
  exact ⟨fun e _ => DataSet.refusal?_of_file hp e, h⟩

theorem groups_append (name : String) (number : Nat) (a b : List (List Block)) :
    groups w name number (a ++ b) =
      groups w name number a ++ groups w name (number + a.length) b := by
  simp only [groups, List.zipIdx_append, List.map_append]

theorem groups_cons (name : String) (number : Nat) (bs : List Block) (bss : List (List Block)) :
    groups w name number (bs :: bss) = ofGroup w name number bs :: groups w name (number + 1) bss := by
  rw [groups, List.zipIdx_cons, List.map_cons, groups]

theorem proper_group {name : String} {number : Nat} {inside : List Block}
    (h : Proper componentTags inside) : Proper componentTags [ofGroup w name number inside] :=
  proper_cons.mpr ⟨isComponent_threadGroup _ _ _ _,
    proper_cons.mpr ⟨isComponent_cookieManager, proper_nil, h⟩, proper_nil⟩

theorem proper_groups {name : String} {number : Nat} {bss : List (List Block)}
    (h : ∀ bs ∈ bss, Proper stepTags bs) : Proper componentTags (groups w name number bss) := by
  induction bss generalizing number with
  | nil => exact proper_nil
  | cons bs bss ih =>
    obtain ⟨hb, hs⟩ := List.forall_mem_cons.mp h
    rw [groups_cons, ← List.singleton_append, proper_append]
    exact ⟨proper_group w hb.of_step, ih hs⟩

theorem proper_insides {es : List Entry} : ∀ bs ∈ insides es, Proper stepTags bs := by
  intro bs hb
  obtain ⟨e, -, rfl⟩ := List.mem_map.mp (List.mem_filter.mp hb).1
  exact proper_step e

/-- No step makes a thread group. -/
theorem countP_threadGroup_of_step {bs : List Block} (h : Proper stepTags bs) :
    (componentsOf bs).countP (·.tag == "ThreadGroup") = 0 := by
  have ht : Block.tagged "ThreadGroup" bs = [] :=
    Block.tagged_of_proper h (by simp [stepTags, partTags])
  rw [List.countP_eq_length_filter]
  exact congrArg List.length ht

theorem countP_threadGroup_groups {name : String} {number : Nat} {bss : List (List Block)}
    (h : ∀ bs ∈ bss, Proper stepTags bs) :
    (componentsOf (groups w name number bss)).countP (·.tag == "ThreadGroup") = bss.length := by
  induction bss generalizing number with
  | nil => rfl
  | cons bs bss ih =>
    obtain ⟨hb, hs⟩ := List.forall_mem_cons.mp h
    have hbs := countP_threadGroup_of_step hb
    rw [groups_cons, componentsOf, ofGroup]
    simp [components, componentsOf, List.countP_append, hbs, ih hs]

theorem proper_dataSet (number : Nat) (d : DataSet) :
    Proper componentTags (ofDataSet w number d) :=
  proper_cons.mpr ⟨isComponent_dataSet d, proper_nil, proper_groups w proper_insides⟩

theorem proper_dataSets (number : Nat) (ds : List DataSet) :
    Proper componentTags (ofDataSets w number ds) := by
  induction ds generalizing number with
  | nil => exact proper_nil
  | cons d ds ih => exact proper_append.mpr ⟨proper_dataSet w number d, ih _⟩

theorem proper_content (s : Scenario) (number : Nat) : Proper componentTags (content w s number) := by
  have hc := proper_collector s.info.assertType.value "Assertion Results" s.info.assertLog.value
  have hs := (proper_steps s.stack).of_step
  have hm := proper_cons.mpr ⟨isComponent_cookieManager, proper_nil, hs⟩
  exact proper_append.mpr ⟨hc.of_part.of_step,
    proper_cons.mpr ⟨isComponent_threadGroup _ _ _ _, hm, proper_dataSets w _ _⟩⟩

theorem proper_order (number : Nat) (o : Order) : Proper componentTags (ofOrder w number o) := by
  cases o with
  | group name inside => exact proper_group w proper_nil
  | dataSet d => exact proper_dataSet w number d
  | repetition d items => exact proper_groups w proper_insides
  | cookieManager => exact proper_cons.mpr ⟨isComponent_cookieManager, proper_nil, proper_nil⟩
  | timer t => exact (proper_timers [t]).of_part.of_step
  | extractor e => exact (proper_extractors [e]).of_part.of_step
  | assertion a => exact (proper_assertion a).of_part.of_step
  | results r => exact (proper_collector _ _ _).of_part.of_step
  | assertionResults gui filename => exact (proper_collector _ _ _).of_part.of_step
  | request r => exact (proper_request r).of_step
  | loop l => exact (proper_loop l).of_step
  | controller c => exact (proper_controller c).of_step
  | step e => exact (proper_step e).of_step

/-- All blocks of a plan. -/
theorem proper_plan (s : Scenario) (number : Nat) :
    Proper componentTags [⟨testPlan s.info.planName.value, content w s number⟩] :=
  proper_cons.mpr ⟨isComponent_testPlan _, proper_content w s number, proper_nil⟩

end Layout

end LoadPlan.Jmx
