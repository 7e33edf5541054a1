import LoadPlan.Proofs.Jmx.Making

/-! Elements, records and reports without their lines. The plan of a scenario does not depend on lines, and
its reports depend on nothing but lines that the scenario does not hold without them. -/
namespace LoadPlan

/-- A report without the line it is about. -/
def Diagnostic.unlined (d : Diagnostic) : Diagnostic :=
  ⟨d.problem, ⟨d.place.source, 0⟩⟩

namespace Description.Node

mutual

/-- An element without its line and those of the elements in it. -/
def unlined : Node → Node
  | ⟨name, children, attributes, content, _, source⟩ =>
    ⟨name, unlinedAll children, attributes, content, 0, source⟩

def unlinedAll : List Node → List Node
  | [] => []
  | n :: ns => n.unlined :: unlinedAll ns

end

theorem unlinedAll_eq_map (ns : List Node) : unlinedAll ns = ns.map unlined := by
  induction ns with
  | nil => rfl
  | cons n ns ih => rw [unlinedAll, ih, List.map_cons]

variable (n : Node)

@[simp] theorem name_unlined : n.unlined.name = n.name := by
  cases n
  rfl

@[simp] theorem attributes_unlined : n.unlined.attributes = n.attributes := by
  cases n
  rfl

@[simp] theorem content_unlined : n.unlined.content = n.content := by
  cases n
  rfl

@[simp] theorem source_unlined : n.unlined.source = n.source := by
  cases n
  rfl

@[simp] theorem line_unlined : n.unlined.line = 0 := by
  cases n
  rfl

@[simp] theorem children_unlined : n.unlined.children = n.children.map unlined := by
  cases n
  exact unlinedAll_eq_map _

@[simp] theorem kind_unlined : n.unlined.kind = n.kind := by
  rw [kind, name_unlined, kind]

@[simp] theorem hasChildren_unlined : n.unlined.hasChildren = n.hasChildren := by
  rw [hasChildren, children_unlined, List.isEmpty_map, hasChildren]

@[simp] theorem directory_unlined (disk : Storage.Disk) : n.unlined.directory disk = n.directory disk := by
  rw [directory, source_unlined, directory]

theorem filter_unlined {p : Node → Bool} (hp : ∀ c : Node, p c.unlined = p c) (ns : List Node) :
    (ns.map unlined).filter p = (ns.filter p).map unlined := by
  rw [List.filter_map]
  exact congrArg _ (List.filter_congr fun c _ => hp c)

theorem filter_kind_unlined (p : Kind → Bool) (ns : List Node) :
    (ns.map unlined).filter (fun c => p c.kind) = (ns.filter fun c => p c.kind).map unlined :=
  filter_unlined (fun c => by rw [kind_unlined]) ns

@[simp] theorem fieldsOf_unlined (ns : List Node) : fieldsOf (ns.map unlined) = fieldsOf ns := by
  simp only [fieldsOf, List.map_map, Function.comp_def, name_unlined, content_unlined]

@[simp] theorem fields_unlined : n.unlined.fields = n.fields := by
  rw [fields, children_unlined, fieldsOf_unlined, fields]

end Description.Node

namespace Scenario

def Request.unlined (r : Request) : Request :=
  { r with line := 0 }

def Loop.unlined (l : Loop) : Loop :=
  { l with tests := l.tests.map Request.unlined, line := 0 }

mutual

/-- A step without the lines of the records in it. -/
def Entry.unlined : Entry → Entry
  | .timer t => .timer t
  | .request r => .request r.unlined
  | .loop l => .loop l.unlined
  | .controller c => .controller c.unlined
  | .repeated items => .repeated (unlinedSteps items)

def Controller.unlined : Controller → Controller
  | ⟨name, percent, stack, dataSets, extra, _⟩ =>
    ⟨name, percent, unlinedSteps stack, unlinedSets dataSets, extra, 0⟩

def unlinedSteps : List Entry → List Entry
  | [] => []
  | e :: es => e.unlined :: unlinedSteps es

def DataSet.unlined : DataSet → DataSet
  | ⟨name, filename, columns, delimiter, recycle, stack, directory, extra, _⟩ =>
    ⟨name, filename, columns, delimiter, recycle, unlinedSteps stack, directory, extra, 0⟩

def unlinedSets : List DataSet → List DataSet
  | [] => []
  | d :: ds => d.unlined :: unlinedSets ds

end

/-- What is collected, without lines. -/
def unlined (s : Scenario) : Scenario :=
  ⟨unlinedSteps s.stack, unlinedSets s.dataSets, s.info⟩

theorem unlinedSteps_eq_map (es : List Entry) : unlinedSteps es = es.map Entry.unlined := by
  induction es with
  | nil => rfl
  | cons e es ih => rw [unlinedSteps, ih, List.map_cons]

theorem unlinedSets_eq_map (ds : List DataSet) : unlinedSets ds = ds.map DataSet.unlined := by
  induction ds with
  | nil => rfl
  | cons d ds ih => rw [unlinedSets, ih, List.map_cons]

theorem unlinedSteps_append (a b : List Entry) :
    unlinedSteps (a ++ b) = unlinedSteps a ++ unlinedSteps b := by
  simp only [unlinedSteps_eq_map, List.map_append]

theorem unlinedSets_append (a b : List DataSet) :
    unlinedSets (a ++ b) = unlinedSets a ++ unlinedSets b := by
  simp only [unlinedSets_eq_map, List.map_append]

/-! Data sets are moved to the top of a plan, and steps repeated, whatever the lines are. -/

mutual

theorem Entry.hoisted_unlined : ∀ e : Entry, e.unlined.hoisted = unlinedSets e.hoisted
  | .timer _ => rfl
  | .request _ => rfl
  | .loop _ => rfl
  | .controller c => c.hoisted_unlined
  | .repeated _ => rfl

theorem Controller.hoisted_unlined : ∀ c : Controller, c.unlined.hoisted = unlinedSets c.hoisted
  | ⟨_, _, stack, dataSets, _, _⟩ => by
    rw [Controller.unlined, Controller.hoisted, Controller.hoisted, unlinedSets_append,
      hoistedWith_unlined dataSets, hoistedFrom_unlined stack]

theorem hoistedWith_unlined : ∀ ds : List DataSet, hoistedWith (unlinedSets ds) = unlinedSets (hoistedWith ds)
  | [] => rfl
  | d :: ds => by
    rw [unlinedSets, hoistedWith, hoistedWith, unlinedSets, unlinedSets_append, d.hoisted_unlined,
      hoistedWith_unlined ds]

theorem hoistedFrom_unlined : ∀ es : List Entry, hoistedFrom (unlinedSteps es) = unlinedSets (hoistedFrom es)
  | [] => rfl
  | e :: es => by
    rw [unlinedSteps, hoistedFrom, hoistedFrom, unlinedSets_append, e.hoisted_unlined,
      hoistedFrom_unlined es]

theorem DataSet.hoisted_unlined : ∀ d : DataSet, d.unlined.hoisted = unlinedSets d.hoisted
  | ⟨_, _, _, _, _, stack, _, _, _⟩ => by
    rw [DataSet.unlined, DataSet.hoisted, DataSet.hoisted, hoistedWithin_unlined stack]

theorem hoistedWithin_unlined : ∀ es : List Entry,
    hoistedWithin (unlinedSteps es) = unlinedSets (hoistedWithin es)
  | [] => rfl
  | .repeated items :: es => by
    rw [unlinedSteps, Entry.unlined, hoistedWithin, hoistedWithin, unlinedSets_append,
      hoistedFrom_unlined items, hoistedWithin_unlined es]
  | .controller c :: es => by
    have hc : (Entry.controller c.unlined).hoisted = unlinedSets (Entry.controller c).hoisted :=
      c.hoisted_unlined
    rw [unlinedSteps, Entry.unlined, hoistedWithin, hoistedWithin, unlinedSets_append, hc,
      hoistedWithin_unlined es]
    all_goals simp
  | .timer _ :: es => hoistedWithin_unlined es
  | .request _ :: es => hoistedWithin_unlined es
  | .loop _ :: es => hoistedWithin_unlined es

end

theorem allDataSets_unlined (s : Scenario) : s.unlined.allDataSets = s.allDataSets.map DataSet.unlined := by
  have hflat : ∀ ds : List DataSet, (ds.map DataSet.unlined).flatMap DataSet.hoisted =
      (ds.flatMap DataSet.hoisted).map DataSet.unlined := by
    intro ds
    rw [List.flatMap_map, List.map_flatMap]
    refine List.flatMap_congr fun d _ => ?_
    rw [d.hoisted_unlined, unlinedSets_eq_map]
  unfold allDataSets Scenario.hoisted unlined
  rw [hoistedFrom_unlined, unlinedSets_eq_map, unlinedSets_eq_map, hflat, List.map_append, List.map_append]

variable (disk : Storage.Disk)

theorem rounds_unlined (d : DataSet) : d.unlined.rounds disk = d.rounds disk := by
  cases d
  rfl

theorem refusal?_unlined (d : DataSet) (e : Entry) : d.unlined.refusal? disk e.unlined = d.refusal? disk e := by
  cases d
  cases e <;> rfl

theorem stack_unlined (d : DataSet) : d.unlined.stack = d.stack.map Entry.unlined := by
  cases d
  exact unlinedSteps_eq_map _

theorem expanded_unlined (d : DataSet) (e : Entry) :
    d.unlined.expanded disk e.unlined = (d.expanded disk e).map Entry.unlined := by
  cases e with
  | repeated items =>
    simp only [Entry.unlined, DataSet.expanded, rounds_unlined]
    cases d.rounds disk with
    | error failure => rfl
    | ok n => rw [List.map_flatten, List.map_replicate, unlinedSteps_eq_map]
  | _ => rfl

theorem running_unlined (d : DataSet) : d.unlined.running disk = (d.running disk).map Entry.unlined := by
  unfold DataSet.running
  rw [stack_unlined, List.flatMap_map, List.map_flatMap]
  exact List.flatMap_congr fun e _ => expanded_unlined disk d e

end Scenario

namespace Jmx.Layout

open LoadPlan.Scenario

/-! Blocks, and the faults that are met instead. -/

theorem ofRequest_unlined (r : Request) : ofRequest r.unlined = ofRequest r := rfl

theorem ofLoop_unlined (l : Loop) : ofLoop l.unlined = ofLoop l := by
  unfold ofLoop
  have htests : (l.tests.map Request.unlined).flatMap ofRequest = l.tests.flatMap ofRequest := by
    rw [List.flatMap_map]
    rfl
  simp only [Loop.unlined, List.isEmpty_map, htests]

theorem loopFaults_unlined (l : Loop) : loopFaults l.unlined = loopFaults l := by
  simp only [loopFaults, Loop.unlined, List.isEmpty_map]

mutual

theorem ofStep_unlined : ∀ e : Entry, ofStep e.unlined = ofStep e
  | .timer _ => rfl
  | .request r => ofRequest_unlined r
  | .loop l => ofLoop_unlined l
  | .controller c => congrArg (fun b => [b]) (ofController_unlined c)
  | .repeated _ => rfl

theorem ofController_unlined : ∀ c : Controller, ofController c.unlined = ofController c
  | ⟨_, _, stack, _, _, _⟩ => by
    rw [Controller.unlined, ofController, ofController, ofSteps_unlined stack]

theorem ofSteps_unlined : ∀ es : List Entry, ofSteps (unlinedSteps es) = ofSteps es
  | [] => rfl
  | e :: es => by
    rw [unlinedSteps, ofSteps, ofSteps, ofStep_unlined e, ofSteps_unlined es]

end

mutual

theorem stepFaults_unlined : ∀ e : Entry, stepFaults e.unlined = stepFaults e
  | .timer _ => rfl
  | .request _ => rfl
  | .loop l => loopFaults_unlined l
  | .controller c => controllerFaults_unlined c
  | .repeated _ => rfl

theorem controllerFaults_unlined : ∀ c : Controller, controllerFaults c.unlined = controllerFaults c
  | ⟨_, _, stack, _, _, _⟩ => by
    rw [Controller.unlined, controllerFaults, controllerFaults, stepsFaults_unlined stack]

theorem stepsFaults_unlined : ∀ es : List Entry, stepsFaults (unlinedSteps es) = stepsFaults es
  | [] => rfl
  | e :: es => by
    rw [unlinedSteps, stepsFaults, stepsFaults, stepFaults_unlined e, stepsFaults_unlined es]

end

variable (w : Workshop)

theorem insides_unlined (es : List Entry) : insides (es.map Entry.unlined) = insides es := by
  unfold insides
  rw [List.map_map]
  exact congrArg _ (List.map_congr_left fun e _ => ofStep_unlined e)

theorem groupedFaults_unlined (es : List Entry) :
    groupedFaults w (es.map Entry.unlined) = groupedFaults w es := by
  unfold groupedFaults
  rw [List.flatMap_map]
  refine List.flatMap_congr fun e _ => ?_
  rw [stepFaults_unlined, ofStep_unlined]

theorem ofDataSet_unlined (number : Nat) (d : DataSet) :
    ofDataSet w number d.unlined = ofDataSet w number d := by
  unfold ofDataSet
  rw [running_unlined, insides_unlined]
  cases d
  rfl

theorem ofDataSets_unlined (number : Nat) (ds : List DataSet) :
    ofDataSets w number (ds.map DataSet.unlined) = ofDataSets w number ds := by
  induction ds generalizing number with
  | nil => rfl
  | cons d ds ih =>
    rw [List.map_cons, ofDataSets, ofDataSets, ofDataSet_unlined, running_unlined, insides_unlined, ih]

theorem content_unlined (s : Scenario) (number : Nat) : content w s.unlined number = content w s number := by
  unfold content
  rw [allDataSets_unlined, ofDataSets_unlined]
  simp only [Scenario.unlined, ofSteps_unlined]
  rfl

theorem root_unlined (s : Scenario) (number : Nat) : root w s.unlined number = root w s number := by
  unfold root
  rw [content_unlined]
  rfl

theorem dataSetFaults_unlined (d : DataSet) : dataSetFaults w d.unlined = dataSetFaults w d := by
  unfold dataSetFaults
  rw [stack_unlined, List.flatMap_map]
  refine List.flatMap_congr fun e _ => ?_
  rw [dataStepFaults, refusal?_unlined, expanded_unlined, groupedFaults_unlined, dataStepFaults]

theorem planFaults_unlined (s : Scenario) : planFaults w s.unlined = planFaults w s := by
  have hsets : (s.allDataSets.map DataSet.unlined).flatMap (dataSetFaults w) =
      s.allDataSets.flatMap (dataSetFaults w) := by
    rw [List.flatMap_map]
    exact List.flatMap_congr fun d _ => dataSetFaults_unlined w d
  unfold planFaults
  rw [allDataSets_unlined, hsets]
  simp only [Scenario.unlined, stepsFaults_unlined]
  rfl

theorem diagnosticsOf_unlined (d : DataSet) :
    diagnosticsOf w d.unlined d.unlined.stack = (diagnosticsOf w d d.stack).map Diagnostic.unlined := by
  have hproblem : ∀ e : Entry, d.unlined.problem? w.disk e.unlined = d.problem? w.disk e := by
    intro e
    cases e with
    | repeated items =>
      simp only [Entry.unlined, DataSet.problem?, rounds_unlined]
      cases d
      rfl
    | _ => rfl
  have hline : d.unlined.line = 0 := by
    cases d
    rfl
  unfold diagnosticsOf
  rw [stack_unlined, List.filterMap_map, List.map_map, hline]
  have hsame : (d.unlined.problem? w.disk ∘ Entry.unlined) = d.problem? w.disk := funext hproblem
  rw [hsame]
  rfl

theorem planDiagnostics_unlined (s : Scenario) :
    planDiagnostics w s.unlined = (planDiagnostics w s).map Diagnostic.unlined := by
  have hsets : (s.allDataSets.map DataSet.unlined).flatMap (fun d => diagnosticsOf w d d.stack) =
      (s.allDataSets.flatMap fun d => diagnosticsOf w d d.stack).map Diagnostic.unlined := by
    rw [List.flatMap_map, List.map_flatMap]
    exact List.flatMap_congr fun d _ => diagnosticsOf_unlined w d
  unfold planDiagnostics
  rw [allDataSets_unlined, hsets, List.map_append, List.map_map]
  rfl

end Jmx.Layout

namespace Build

theorem isHalved_unlined (settings : Settings) (s : Scenario) :
    isHalved settings s.unlined = isHalved settings s := by
  unfold isHalved
  rw [Scenario.allDataSets_unlined, List.any_map]
  have hsame : ((fun d : Scenario.DataSet => d.delimiter == settings.delimiter) ∘ Scenario.DataSet.unlined) =
      fun d => d.delimiter == settings.delimiter := by
    funext d
    cases d
    rfl
  rw [hsame]

/-- The same fault, whichever of several refused lookups comes first. -/
def SameFault : Jmx.Fault → Jmx.Fault → Prop
  | .refused _, .refused _ => True
  | f, f' => f' = f

theorem SameFault.refl (f : Jmx.Fault) : SameFault f f := by
  cases f <;> simp [SameFault]

/-- The same plan, with the same reports in some order and up to their lines; or the same fault. -/
def SameDraft : Except Jmx.Fault Draft → Except Jmx.Fault Draft → Prop
  | .ok d, .ok d' =>
    d'.root = d.root ∧ d'.counts = d.counts ∧ d'.groups = d.groups ∧ d'.content = d.content ∧
      (d'.diagnostics.map Diagnostic.unlined).Perm (d.diagnostics.map Diagnostic.unlined)
  | .error f, .error f' => SameFault f f'
  | _, _ => False

/-- Scenarios that are the same without lines come to the same plan. -/
theorem sameDraft_of_unlined {disk : Storage.Disk} {settings : Settings} {source : String}
    {s s' : Scenario} {ds ds' : List Diagnostic} (hs : s'.unlined = s.unlined)
    (hds : (ds'.map Diagnostic.unlined).Perm (ds.map Diagnostic.unlined)) :
    SameDraft (assemble disk settings source s ds) (assemble disk settings source s' ds') := by
  let w : Jmx.Workshop := ⟨disk, settings, source⟩
  have hfaults : Jmx.Layout.planFaults w s' = Jmx.Layout.planFaults w s := by
    rw [← Jmx.Layout.planFaults_unlined, hs, Jmx.Layout.planFaults_unlined]
  have hroot : Jmx.Layout.root w s' 0 = Jmx.Layout.root w s 0 := by
    rw [← Jmx.Layout.root_unlined, hs, Jmx.Layout.root_unlined]
  have hcontent : Jmx.Layout.content w s' 0 = Jmx.Layout.content w s 0 := by
    rw [← Jmx.Layout.content_unlined, hs, Jmx.Layout.content_unlined]
  have hhalved : isHalved settings s' = isHalved settings s := by
    rw [← isHalved_unlined, hs, isHalved_unlined]
  have hreports : (Jmx.Layout.planDiagnostics w s').map Diagnostic.unlined =
      (Jmx.Layout.planDiagnostics w s).map Diagnostic.unlined := by
    rw [← Jmx.Layout.planDiagnostics_unlined, hs, Jmx.Layout.planDiagnostics_unlined]
  cases hd : assemble disk settings source s ds with
  | ok d =>
    obtain ⟨hnone, rfl⟩ := Jmx.assemble_eq_ok_iff.mp hd
    have hd' : assemble disk settings source s' ds' = .ok _ :=
      Jmx.assemble_eq_ok_iff.mpr ⟨hfaults.trans hnone, rfl⟩
    rw [hd']
    refine ⟨hroot, ?_, ?_, ?_, ?_⟩
    · exact congrArg (fun bs => Jmx.Counts.zero.plus (Jmx.Block.componentsOf bs)) hcontent
    · exact congrArg (fun bs => (Jmx.Block.componentsOf bs).countP (·.tag == "ThreadGroup")) hcontent
    · unfold Draft.content
      simp only [hhalved]
      rw [hroot]
    · simp only [List.map_append]
      rw [hreports]
      exact hds.append_right _
  | error f =>
    have hd' := Jmx.assemble_eq_error_iff.mp hd
    rw [← hfaults] at hd'
    rw [Jmx.assemble_eq_error_iff.mpr hd']
    exact SameFault.refl f

/-- Where the reports are the same up to their lines, a lookup was refused in both cases or in none. -/
theorem refused_of_unlined {log log' : Scenario.Log}
    (h : (log'.diagnostics.map Diagnostic.unlined).Perm (log.diagnostics.map Diagnostic.unlined)) :
    log'.refusal? = none ↔ log.refusal? = none := by
  have hnone : ∀ log : Scenario.Log, log.refusal? = none ↔
      ∀ g ∈ log.diagnostics.map Diagnostic.unlined, g.problem.refusal? = none := by
    intro log
    rw [Scenario.Log.refusal?, List.findSome?_eq_none_iff, List.forall_mem_map]
    rfl
  rw [hnone, hnone]
  exact forall_congr' fun g => imp_congr_left h.mem_iff

/-- Readings that are the same without lines come to the same plan. -/
theorem sameDraft_of_reports {disk : Storage.Disk} {settings : Settings} {source : String}
    {root root' : Description.Node}
    (hs : ((Scenario.ofDescription disk settings root').run .empty).1.unlined =
      ((Scenario.ofDescription disk settings root).run .empty).1.unlined)
    (hds : (((Scenario.ofDescription disk settings root').run .empty).2.diagnostics.map Diagnostic.unlined).Perm
      (((Scenario.ofDescription disk settings root).run .empty).2.diagnostics.map Diagnostic.unlined)) :
    SameDraft (draft disk settings source root) (draft disk settings source root') := by
  have hrefused := refused_of_unlined hds
  rw [draft_eq, draft_eq]
  cases h : ((Scenario.ofDescription disk settings root).run .empty).2.refusal? with
  | none =>
    rw [hrefused.mpr h]
    exact sameDraft_of_unlined hs hds
  | some failure =>
    obtain ⟨failure', h'⟩ := Option.ne_none_iff_exists'.mp (mt hrefused.mp (by simp [h]))
    rw [h']
    trivial

end Build

end LoadPlan
