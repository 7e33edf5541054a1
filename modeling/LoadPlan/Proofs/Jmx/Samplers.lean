import LoadPlan.Proofs.Jmx.Validity

/-! The samplers of a plan send the requests of its scenario: each as often as it is to run, in the order in
which they run, and nothing else. -/
namespace LoadPlan.Jmx

open LoadPlan.Markup (Element)
open LoadPlan.Scenario

/-- What is sent, and the name under which it goes. -/
structure Sending where
  name : String
  domain : String
  path : String
  method : String
  port : String
  protocol : String
  parameters : List (String × String)
  deriving DecidableEq, Repr

namespace Sending

def ofRequest (r : Request) : Sending :=
  ⟨r.name, r.domain, r.path, r.method, r.port, r.protocol, r.pairs⟩

def stringProp? (e : Element) (name : String) : Option String :=
  (e.property? "stringProp" name).map (·.text)

/-- A parameter as it is read from its element. -/
def parameter? (e : Element) : Option (String × String) := do
  return (← stringProp? e "Argument.name", ← stringProp? e "Argument.value")

def parameters? (e : Element) : Option (List (String × String)) := do
  let arguments ← e.property? "elementProp" "HTTPsampler.Arguments"
  let pairs ← arguments.property? "collectionProp" "Arguments.arguments"
  pairs.children.mapM parameter?

/-- What a sampler says it sends. -/
def ofSampler? (e : Element) : Option Sending := do
  return {
    name := ← e.attribute? "testname"
    domain := ← stringProp? e "HTTPSampler.domain"
    path := ← stringProp? e "HTTPSampler.path"
    method := ← stringProp? e "HTTPSampler.method"
    port := ← stringProp? e "HTTPSampler.port"
    protocol := ← stringProp? e "HTTPSampler.protocol"
    parameters := ← parameters? e }

theorem mapM_argument (pairs : List (String × String)) :
    (pairs.map fun p => argument p.1 p.2).mapM parameter? = some pairs := by
  induction pairs with
  | nil => rfl
  | cons p ps ih =>
    have hp : parameter? (argument p.1 p.2) = some p := rfl
    rw [List.map_cons, List.mapM_cons, hp, ih]
    rfl

theorem parameters?_sampler (r : Request) : parameters? (sampler r) = some r.pairs := by
  have ha : (sampler r).property? "elementProp" "HTTPsampler.Arguments" = some (arguments r.pairs) := rfl
  have hc : (arguments r.pairs).property? "collectionProp" "Arguments.arguments" =
      some (collectionProp "Arguments.arguments" (r.pairs.map fun p => argument p.1 p.2)) := rfl
  unfold parameters?
  rw [ha, Option.bind_eq_bind, Option.bind_some, hc]
  exact mapM_argument r.pairs

/-- A sampler says what its request says. -/
theorem ofSampler?_sampler (r : Request) : ofSampler? (sampler r) = some (ofRequest r) := by
  unfold ofSampler?
  rw [parameters?_sampler]
  -- An upload stands before the other properties.
  unfold stringProp? Element.property? sampler component
  cases r.upload with
  | none => rfl
  | some u => rfl

end Sending

/-- The samplers of a plan, in document order, send what the steps of the scenario ask for in the order of
the steps, and then what its data sets ask for, the data sets that are moved to the top after the others. -/
theorem sendings_of_plan {disk : Storage.Disk} {settings : Settings} {source : String} {s : Scenario}
    {diagnostics : List Diagnostic} {d : Build.Draft}
    (h : Build.assemble disk settings source s diagnostics = .ok d) :
    (d.root.subtreeTagged "HTTPSamplerProxy").map Sending.ofSampler? =
      (requestsOf s.stack ++ (s.dataSets ++ hoisted s.stack s.dataSets).flatMap fun x =>
        x.requests (x.times disk)).map fun r => some (Sending.ofRequest r) := by
  obtain ⟨-, rfl⟩ := assemble_eq_ok_iff.mp h
  have hsub : (Layout.root ⟨disk, settings, source⟩ s 0).subtreeTagged "HTTPSamplerProxy" =
      (s.requests disk).map sampler := by
    rw [Element.subtreeTagged, Element.subtree_eq]
    exact samplers_root ⟨disk, settings, source⟩ s 0
  have hrequests : s.requests disk = requestsOf s.stack ++
      (s.dataSets ++ hoisted s.stack s.dataSets).flatMap fun x => x.requests (x.times disk) := by
    simp only [Scenario.requests, Scenario.allDataSets, requestsOf_running]
  rw [hsub, ← hrequests, List.map_map]
  exact List.map_congr_left fun r _ => Sending.ofSampler?_sampler r

/-! A plan in which steps are skipped. -/

def namedRequest (name : String) : Request :=
  { Request.standard with name }

/-- The file of a repetition is not there, and a loop has nothing to run. -/
def lostDataSet : DataSet :=
  { DataSet.standard with
    name := "Lost", filename := "lost.csv"
    stack := [.repeated [.request (namedRequest "never")], .loop ⟨"Empty", 2, false, [], 7⟩,
      .request (namedRequest "first")] }

/-- What is done by each of the users in a file. -/
def eachUser : List Entry :=
  [.request (namedRequest "login"),
    .controller ⟨"All", .finite false 100 0, [.request (namedRequest "buy")], [], [], 9⟩]

def doubledDataSet : DataSet :=
  { DataSet.standard with
    name := "Users", filename := "users.csv"
    stack := [.repeated eachUser, .request (namedRequest "last")] }

/-- One data set is described at the top, the other came with a controller. -/
def skippingScenario : Scenario where
  stack :=
    [.controller ⟨"Half", .finite false 50 0,
      [.request (namedRequest "home"),
        .loop ⟨"Twice", 2, false, [namedRequest "search", namedRequest "view"], 5⟩],
      [doubledDataSet], [], 2⟩,
     .loop ⟨"Empty", 2, false, [], 3⟩]
  dataSets := [lostDataSet]
  info := []

theorem read_lost : usersDisk.read ⟨"", ["lost.csv"]⟩ = .error ⟨.notFound, "lost.csv"⟩ := by
  rw [Storage.Disk.read, Storage.Disk.find_of_free (by decide) (by decide) rfl]
  rfl

theorem rounds_lostDataSet : lostDataSet.rounds usersDisk = .error ⟨.notFound, "lost.csv"⟩ :=
  DataSet.rounds_of_read rfl read_lost

theorem rounds_doubledDataSet : doubledDataSet.rounds usersDisk = .ok 2 := by
  rw [DataSet.rounds_of_read rfl read_users, ← lineCount_users]
  rfl

theorem running_lostDataSet : lostDataSet.running usersDisk =
    [.loop ⟨"Empty", 2, false, [], 7⟩, .request (namedRequest "first")] := by
  have hs : lostDataSet.stack = [.repeated [.request (namedRequest "never")],
      .loop ⟨"Empty", 2, false, [], 7⟩, .request (namedRequest "first")] := rfl
  rw [DataSet.running, hs]
  simp [DataSet.expanded, rounds_lostDataSet]

theorem running_doubledDataSet : doubledDataSet.running usersDisk =
    eachUser ++ eachUser ++ [.request (namedRequest "last")] := by
  have hs : doubledDataSet.stack = [.repeated eachUser, .request (namedRequest "last")] := rfl
  rw [DataSet.running, hs]
  simp [DataSet.expanded, rounds_doubledDataSet]

theorem allDataSets_skippingScenario :
    skippingScenario.allDataSets = [lostDataSet, doubledDataSet] := rfl

theorem writingFaults_usersWorkshop : Layout.writingFaults usersWorkshop.settings.rampTime = [] := by
  decide

theorem dataSetFaults_lostDataSet : Layout.dataSetFaults usersWorkshop lostDataSet = [] := by
  refine Layout.dataSetFaults_eq_nil writingFaults_usersWorkshop rfl ?_
  exact (congrArg Layout.stepsFaults running_lostDataSet).trans rfl

theorem dataSetFaults_doubledDataSet : Layout.dataSetFaults usersWorkshop doubledDataSet = [] := by
  refine Layout.dataSetFaults_eq_nil writingFaults_usersWorkshop rfl ?_
  exact (congrArg Layout.stepsFaults running_doubledDataSet).trans rfl

theorem exists_plan_skippingScenario :
    ∃ d, Build.assemble usersDisk .standard "main.xml" skippingScenario [] = .ok d := by
  have hs : Layout.stepsFaults skippingScenario.stack = [] := rfl
  have hf : Layout.planFaults usersWorkshop skippingScenario = [] := by
    rw [Layout.planFaults, Layout.rampFaults, writingFaults_usersWorkshop, ite_self, hs,
      allDataSets_skippingScenario, List.flatMap_cons, List.flatMap_singleton, dataSetFaults_lostDataSet,
      dataSetFaults_doubledDataSet]
    rfl
  exact ⟨_, assemble_eq_ok_iff.mpr ⟨hf, rfl⟩⟩

/-- The main steps come first. Of the data set without a file only one step sends anything. -/
theorem sendings_of_plan_skipping :
    ∃ d, Build.assemble usersDisk .standard "main.xml" skippingScenario [] = .ok d ∧
      (d.root.subtreeTagged "HTTPSamplerProxy").map Sending.ofSampler? =
        ["home", "search", "view", "first", "login", "buy", "login", "buy", "last"].map fun name =>
          some ⟨name, "", "", "GET", "", "", []⟩ := by
  obtain ⟨d, hd⟩ := exists_plan_skippingScenario
  have hl : lostDataSet.times usersDisk = 0 := by rw [DataSet.times, rounds_lostDataSet]
  have hu : doubledDataSet.times usersDisk = 2 := by rw [DataSet.times, rounds_doubledDataSet]
  have hsets : skippingScenario.dataSets ++ hoisted skippingScenario.stack skippingScenario.dataSets =
      [lostDataSet, doubledDataSet] := rfl
  refine ⟨d, hd, (sendings_of_plan hd).trans ?_⟩
  rw [hsets, List.flatMap_cons, List.flatMap_singleton, hl, hu]
  rfl

end LoadPlan.Jmx
