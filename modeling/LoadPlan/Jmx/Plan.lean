import LoadPlan.Jmx.Generation
import LoadPlan.Scenario.Collection
import LoadPlan.Scenario.Hoisting

/-! Whole plans. -/

/-- The data sets of a plan: those described at the top, and then those that came with controllers. -/
def LoadPlan.Scenario.allDataSets (s : Scenario) : List Scenario.DataSet :=
  s.dataSets ++ Scenario.hoisted s.stack s.dataSets

namespace LoadPlan.Jmx

open LoadPlan.Markup (Element)
open LoadPlan.Scenario (Resolved)

namespace Workshop

/-- Take a value; a default that was not asked for is reported for the document. -/
def settle (w : Workshop) (r : Resolved) : Generating String := do
  match r.problem with
  | some problem =>
    modify fun p => { p with diagnostics := p.diagnostics ++ [⟨problem, ⟨w.source, 0⟩⟩] }
  | none => pure ()
  return r.value

/-- The root of a plan: the test plan, whose tree holds the collector of failed assertions, the main
thread group and the data sets with theirs. -/
def plan (w : Workshop) (s : Scenario) : Generating Element := do
  let name ← w.settle s.info.planName
  let threads ← w.settle s.info.threads
  let assertLog ← w.settle s.info.assertLog
  let assertType ← w.settle s.info.assertType
  match s.info.rampTime? w.settings.rampTime with
  | none => throw .tooManyDigits
  | some ramp =>
    let rampTime ← w.settle ramp
    let failed ← assertionResultsFragment assertType assertLog
    let number ← takeNumber
    let group ← w.threadGroupElement (groupName number name) threads rampTime
    let main ← fillSteps [group, tree (pair cookieManager)] s.stack
    let content ← putAll (· ++ ·) w.dataSetFragment (failed ++ main) s.allDataSets
    return ⟨"jmeterTestPlan",
      [("version", "1.2"), ("properties", w.settings.version), ("jmeter", w.settings.version)], "",
      [tree ([testPlan name] ++ [tree content])]⟩

end Workshop

end LoadPlan.Jmx
