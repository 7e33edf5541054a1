import LoadPlan.Proofs.Jmx.Making
import LoadPlan.Proofs.Scenario.Documents
import LoadPlan.Settings.Reader

/-! When a build ends without a plan file and without a message of its own: the disk refuses a lookup, or the
settings hold a number or a text that no plan can be made with. -/
namespace LoadPlan.Scenario

mutual

/-- The controllers that run in a step, an outer one before those in it. -/
def Entry.controllers : Entry → List Controller
  | .timer _ => []
  | .request _ => []
  | .loop _ => []
  | .controller c => c.controllers
  | .repeated _ => []

def Controller.controllers : Controller → List Controller
  | ⟨name, percent, stack, dataSets, extra, line⟩ =>
    ⟨name, percent, stack, dataSets, extra, line⟩ :: controllersOf stack

def controllersOf : List Entry → List Controller
  | [] => []
  | e :: es => e.controllers ++ controllersOf es

end

end LoadPlan.Scenario

namespace LoadPlan

open LoadPlan.Scenario

/-- The controllers that run in a plan. -/
def Scenario.controllers (disk : Storage.Disk) (s : Scenario) : List Controller :=
  controllersOf s.stack ++ s.allDataSets.flatMap fun d => controllersOf (d.running disk)

/-- What is collected from a description. -/
def Scenario.collected (disk : Storage.Disk) (settings : Settings) (main : Description.Node) : Scenario :=
  ((Scenario.ofDescription disk settings main).run .empty).1

namespace Jmx

variable {P : Number.Double → Prop} {O : DataSet → Prop}

theorem shareFaults_eq_nil_iff {share : Number.Double} :
    Layout.shareFaults share = [] ↔ share.isFinite = true := by
  cases share with
  | nan => simp [Layout.shareFaults, Workshop.wholeShare, Number.Double.isFinite]
  | infinite s => simp [Layout.shareFaults, Workshop.wholeShare, Number.Double.isFinite]
  | finite s m e => simp [Layout.shareFaults, Workshop.wholeShare, Number.Double.isFinite]

theorem writingFaults_eq_nil_iff {n : Int} :
    Layout.writingFaults n = [] ↔ Number.Integer.text? n ≠ none := by
  rw [Layout.writingFaults, ← Option.isSome_iff_ne_none]
  split
  · next h => simp [h]
  · next h => simp [h]

/-- A loop whose rounds can be written meets no fault. -/
theorem loopFaults_eq_nil {l : Loop} (h : l.Writable) : Layout.loopFaults l = [] := by
  unfold Layout.loopFaults
  split
  · rfl
  · exact writingFaults_eq_nil_iff.mpr h

mutual

/-- Steps in their place fail for nothing but a share of a controller among them. -/
theorem stepFaults_eq_nil_iff : ∀ e : Entry, e.Regular P Loop.Writable O →
    (Layout.stepFaults e = [] ↔ ∀ c ∈ e.controllers, c.percent.isFinite = true)
  | .timer _, _ => by simp [Layout.stepFaults, Entry.controllers]
  | .request _, _ => by simp [Layout.stepFaults, Entry.controllers]
  | .loop l, h => by simp [Layout.stepFaults, Entry.controllers, loopFaults_eq_nil h]
  | .controller c, h => controllerFaults_eq_nil_iff c h
  | .repeated _, h => h.elim

theorem controllerFaults_eq_nil_iff : ∀ c : Controller, c.Regular P Loop.Writable O →
    (Layout.controllerFaults c = [] ↔ ∀ d ∈ c.controllers, d.percent.isFinite = true)
  | ⟨_, share, stack, _, _, _⟩, ⟨_, hs, _⟩ => by
    rw [Layout.controllerFaults, Controller.controllers, List.append_eq_nil_iff, List.forall_mem_cons,
      shareFaults_eq_nil_iff, stepsFaults_eq_nil_iff stack hs]

theorem stepsFaults_eq_nil_iff : ∀ es : List Entry, RegularSteps P Loop.Writable O es →
    (Layout.stepsFaults es = [] ↔ ∀ c ∈ controllersOf es, c.percent.isFinite = true)
  | [], _ => by simp [Layout.stepsFaults, controllersOf]
  | e :: es, ⟨he, hs⟩ => by
    rw [Layout.stepsFaults, controllersOf, List.append_eq_nil_iff, List.forall_mem_append,
      stepFaults_eq_nil_iff e he, stepsFaults_eq_nil_iff es hs]

end

mutual

theorem share_of_step : ∀ e : Entry, e.Regular P Loop.Writable O → ∀ c ∈ e.controllers, P c.percent
  | .timer _, _, c, hc => by cases hc
  | .request _, _, c, hc => by cases hc
  | .loop _, _, c, hc => by cases hc
  | .controller k, h, c, hc => share_of_controller k h c hc
  | .repeated _, h, _, _ => h.elim

theorem share_of_controller : ∀ k : Controller, k.Regular P Loop.Writable O → ∀ c ∈ k.controllers, P c.percent
  | ⟨_, _, stack, _, _, _⟩, ⟨hp, hs, _⟩, c, hc => by
    rw [Controller.controllers, List.mem_cons] at hc
    rcases hc with rfl | hc
    · exact hp
    · exact share_of_steps stack hs c hc

theorem share_of_steps : ∀ es : List Entry, RegularSteps P Loop.Writable O es →
    ∀ c ∈ controllersOf es, P c.percent
  | [], _, c, hc => by cases hc
  | e :: es, ⟨he, hs⟩, c, hc => by
    rw [controllersOf, List.mem_append] at hc
    rcases hc with hc | hc
    · exact share_of_step e he c hc
    · exact share_of_steps es hs c hc

end

theorem share_of_scenario {s : Scenario} (h : s.Regular P Loop.Writable O) (disk : Storage.Disk) {c : Controller}
    (hc : c ∈ s.controllers disk) : P c.percent := by
  rw [Scenario.controllers, List.mem_append, List.mem_flatMap] at hc
  rcases hc with hc | ⟨d, hd, hc⟩
  · exact share_of_steps _ h.stack c hc
  · have hr := regularSets_iff.mp h.allDataSets d hd
    exact share_of_steps _ (regular_running disk hr) c hc

/-- If the shares of controllers are those that the settings admit, only the default can be no number. -/
theorem shares_finite_iff {settings : Settings} {s : Scenario} (h : s.Regular (Admissible settings) Loop.Writable O)
    (disk : Storage.Disk) :
    (∀ c ∈ s.controllers disk, c.percent.isFinite = true) ↔
      ¬(settings.defaultPercent.isFinite = false ∧
        ∃ c ∈ s.controllers disk, c.percent = settings.defaultPercent) := by
  constructor
  · rintro hall ⟨hd, c, hc, heq⟩
    rw [← heq, hall c hc] at hd
    cases hd
  · intro hnot c hc
    rcases share_of_scenario h disk hc with hp | hp
    · exact hp
    · rw [hp]
      by_contra hd
      exact hnot ⟨Bool.not_eq_true _ ▸ hd, c, hc, hp⟩

variable (w : Workshop)

theorem groupedFaults_eq_nil_iff {es : List Entry} :
    Layout.groupedFaults w es = [] ↔ Layout.stepsFaults es = [] ∧
      (Number.Integer.text? w.settings.rampTime = none → ∀ e ∈ es, Layout.ofStep e = []) := by
  rw [Layout.groupedFaults, Layout.stepsFaults_eq_flatMap, List.flatMap_eq_nil_iff,
    List.flatMap_eq_nil_iff]
  simp only [List.append_eq_nil_iff, ite_eq_left_iff, writingFaults_eq_nil_iff, List.isEmpty_iff]
  constructor
  · intro h
    exact ⟨fun e he => (h e he).1, fun hn e he => Decidable.byContradiction fun hs => (h e he).2 hs hn⟩
  · rintro ⟨hf, hw⟩ e he
    exact ⟨hf e he, fun hs hn => hs (hw hn e he)⟩

/-- The ramp time of the settings is written for the main thread group, or for one of a data set. -/
def WritesRampTime (s : Scenario) : Prop :=
  Fields.get? s.info "rampup" = none ∨
    ∃ d ∈ s.allDataSets, ∃ e ∈ d.running w.disk, Layout.ofStep e ≠ []

theorem rampFaults_eq_nil_iff {s : Scenario} :
    Layout.rampFaults w s = [] ↔
      (Number.Integer.text? w.settings.rampTime = none → Fields.get? s.info "rampup" ≠ none) := by
  unfold Layout.rampFaults
  rw [← Option.isSome_iff_ne_none]
  cases Fields.get? s.info "rampup" with
  | none => simp [writingFaults_eq_nil_iff]
  | some value => simp

/-- The disk does not tell where the file of some data set is, for which steps are to be repeated. -/
def RefusesData (disk : Storage.Disk) (ds : List DataSet) : Prop :=
  ∃ d ∈ ds, ∃ e ∈ d.stack, ∃ failure, d.refusal? disk e = some failure

theorem not_refusesData_iff {disk : Storage.Disk} {ds : List DataSet} :
    ¬RefusesData disk ds ↔ ∀ d ∈ ds, ∀ e ∈ d.stack, d.refusal? disk e = none := by
  simp only [RefusesData, not_exists, not_and, ← Option.eq_none_iff_forall_ne_some]

theorem dataSetsFaults_eq_nil_iff {ds : List DataSet} (h : RegularSets P Loop.Writable O ds) :
    ds.flatMap (Layout.dataSetFaults w) = [] ↔ ¬RefusesData w.disk ds ∧
      (Number.Integer.text? w.settings.rampTime = none →
        ∀ d ∈ ds, ∀ e ∈ d.running w.disk, Layout.ofStep e = []) ∧
      ∀ d ∈ ds, ∀ c ∈ controllersOf (d.running w.disk), c.percent.isFinite = true := by
  have hd : ∀ d ∈ ds, (Layout.dataSetFaults w d = [] ↔ (∀ e ∈ d.stack, d.refusal? w.disk e = none) ∧
      (∀ c ∈ controllersOf (d.running w.disk), c.percent.isFinite = true) ∧
        (Number.Integer.text? w.settings.rampTime = none →
          ∀ e ∈ d.running w.disk, Layout.ofStep e = [])) := by
    intro d hd
    have hr := regular_running w.disk (regularSets_iff.mp h d hd)
    rw [Layout.dataSetFaults_eq_nil_iff, groupedFaults_eq_nil_iff, stepsFaults_eq_nil_iff _ hr]
  rw [List.flatMap_eq_nil_iff, not_refusesData_iff]
  constructor
  · intro hall
    exact ⟨fun d hm => ((hd d hm).mp (hall d hm)).1, fun hn d hm => ((hd d hm).mp (hall d hm)).2.2 hn,
      fun d hm => ((hd d hm).mp (hall d hm)).2.1⟩
  · rintro ⟨hf, hw, hc⟩ d hm
    exact (hd d hm).mpr ⟨hf d hm, hc d hm, fun hn => hw hn d hm⟩

theorem planFaults_eq_nil_iff {s : Scenario} (h : s.Regular P Loop.Writable O) :
    Layout.planFaults w s = [] ↔
      (Number.Integer.text? w.settings.rampTime = none → ¬WritesRampTime w s) ∧
        (∀ c ∈ s.controllers w.disk, c.percent.isFinite = true) ∧ ¬RefusesData w.disk s.allDataSets := by
  have hwrites : ¬WritesRampTime w s ↔ Fields.get? s.info "rampup" ≠ none ∧
      ∀ d ∈ s.allDataSets, ∀ e ∈ d.running w.disk, Layout.ofStep e = [] := by
    simp [WritesRampTime]
  rw [Layout.planFaults, List.append_eq_nil_iff, List.append_eq_nil_iff, rampFaults_eq_nil_iff,
    stepsFaults_eq_nil_iff _ h.stack, dataSetsFaults_eq_nil_iff w h.allDataSets, hwrites,
    Scenario.controllers, List.forall_mem_append, List.forall_mem_flatMap]
  constructor
  · rintro ⟨hramp, hstack, hdata, hgroups, hsets⟩
    exact ⟨fun hn => ⟨hramp hn, hgroups hn⟩, ⟨hstack, hsets⟩, hdata⟩
  · rintro ⟨hn, ⟨hstack, hsets⟩, hdata⟩
    exact ⟨fun ht => (hn ht).1, hstack, hdata, fun ht => (hn ht).2, hsets⟩

end Jmx

namespace Build

open Jmx

variable {disk : Storage.Disk} {settings : Settings} {main : Description.Node}

theorem regular_collected (settings : Settings) {path : String}
    (h : Description.ofFile disk path = .ok main) :
    (collected disk settings main).Regular (Admissible settings) Loop.Writable (Described disk settings main) :=
  (ofDescription_reads h .empty).1

theorem deliver_eq_ok_iff {d : Draft} {output : String} {after : Storage.Disk} {product : Product} :
    d.deliver disk output = (after, .ok product) ↔
      d.halved = false ∧ PlanFile.write disk (.ofString output) d.root = (after, .ok ()) ∧
        product = ⟨(after.absolute (.ofString output)).text, d.counts, d.diagnostics⟩ := by
  unfold Draft.deliver Draft.content PlanFile.write
  cases hh : d.halved with
  | true =>
    simp only [if_true]
    split
    · simp
    · simp
  | false =>
    simp only [Bool.false_eq_true, if_false]
    split
    · next hw => simp [hw]
    · next made hw =>
      simp only [hw, true_and, Prod.mk.injEq, Except.ok.injEq, and_true]
      constructor
      · rintro ⟨rfl, rfl⟩
        exact ⟨rfl, rfl⟩
      · rintro ⟨rfl, rfl⟩
        exact ⟨rfl, rfl⟩

theorem run_eq_ok_iff {input output : String} {after : Storage.Disk} {product : Product} :
    run disk settings input output = (after, .ok product) ↔
      ∃ main d, Description.ofFile disk input = .ok main ∧ draft disk settings input main = .ok d ∧
        d.halved = false ∧ PlanFile.write disk (.ofString output) d.root = (after, .ok ()) ∧
        product = ⟨(after.absolute (.ofString output)).text, d.counts, d.diagnostics⟩ := by
  unfold run
  cases hf : Description.ofFile disk input with
  | error e => cases e <;> simp
  | ok main =>
    cases hd : draft disk settings input main with
    | error f => simp [hd]
    | ok d => simp [hd, deliver_eq_ok_iff]

theorem exists_draft_of_run {input output : String} {product : Product}
    (h : (run disk settings input output).2 = .ok product) :
    ∃ main d, Description.ofFile disk input = .ok main ∧ draft disk settings input main = .ok d ∧
      PlanFile.write disk (.ofString output) d.root = ((run disk settings input output).1, .ok ()) ∧
      product.diagnostics = d.diagnostics := by
  -- With the outcome a variable, it can be taken apart without reducing the build.
  generalize hrun : run disk settings input output = outcome at h
  obtain ⟨after, result⟩ := outcome
  cases h
  obtain ⟨main, d, hf, hd, -, hw, rfl⟩ := run_eq_ok_iff.mp hrun
  exact ⟨main, d, hf, hd, hw, rfl⟩

/-- Why the disk refused an include of a description, if it did. -/
def refusal? (disk : Storage.Disk) (settings : Settings) (main : Description.Node) : Option Storage.Failure :=
  ((Scenario.ofDescription disk settings main).run .empty).2.refusal?

theorem draft_eq_ok_iff {input : String} {d : Draft} :
    draft disk settings input main = .ok d ↔ refusal? disk settings main = none ∧
      assemble disk settings input (collected disk settings main)
        ((Scenario.ofDescription disk settings main).run .empty).2.diagnostics = .ok d := by
  rw [draft_eq, refusal?]
  cases ((Scenario.ofDescription disk settings main).run .empty).2.refusal? with
  | none => simp [collected]
  | some failure => simp

theorem draft_eq_error_iff {input : String} :
    (∃ f, draft disk settings input main = .error f) ↔ (∃ failure, refusal? disk settings main = some failure) ∨
      Layout.planFaults ⟨disk, settings, input⟩ (collected disk settings main) ≠ [] := by
  rw [draft_eq, refusal?]
  cases hrefusal : ((Scenario.ofDescription disk settings main).run .empty).2.refusal? with
  | some failure => simp
  | none =>
    change (∃ f, assemble disk settings input (collected disk settings main) _ = .error f) ↔ _
    simp only [assemble_eq_error_iff]
    cases Layout.planFaults ⟨disk, settings, input⟩ (collected disk settings main) with
    | nil => simp
    | cons f fs => simp

theorem draft_halved {source : String} {d : Draft} (h : draft disk settings source main = .ok d) :
    d.halved = isHalved settings (collected disk settings main) := by
  obtain ⟨-, rfl⟩ := assemble_eq_ok_iff.mp (draft_eq_ok_iff.mp h).2
  rfl

/-- What stands against a plan for a description: a refused include, a ramp time that is too long and written, a
default percent that is no finite number and taken by a controller that runs, or a refused data file. -/
def Hindered (disk : Storage.Disk) (settings : Settings) (input : String) (main : Description.Node) : Prop :=
  (∃ failure, refusal? disk settings main = some failure) ∨
    (Number.Integer.text? settings.rampTime = none ∧
      WritesRampTime ⟨disk, settings, input⟩ (collected disk settings main)) ∨
    (settings.defaultPercent.isFinite = false ∧
      ∃ c ∈ (collected disk settings main).controllers disk, c.percent = settings.defaultPercent) ∨
    RefusesData disk (collected disk settings main).allDataSets

theorem draft_eq_error_iff_hindered {path input : String} (h : Description.ofFile disk path = .ok main) :
    (∃ f, draft disk settings input main = .error f) ↔ Hindered disk settings input main := by
  have hr := regular_collected settings h
  rw [draft_eq_error_iff, Ne, planFaults_eq_nil_iff _ hr, shares_finite_iff hr, Hindered]
  rw [not_and_or, not_and_or, Classical.not_imp, not_not, not_not, not_not]

theorem deliver_message?_eq_none_iff {d : Draft} {output : String} :
    (∃ e, (d.deliver disk output).2 = .error e ∧ e.message? = none) ↔
      d.halved = true ∧ ∃ after, PlanFile.save disk (.ofString output) [] = (after, .ok ()) := by
  unfold Draft.deliver Draft.content
  cases hh : d.halved with
  | true =>
    simp only [if_true]
    rcases PlanFile.save disk (.ofString output) [] with ⟨after, failure | ⟨⟩⟩ <;> simp [Error.message?]
  | false =>
    simp only [Bool.false_eq_true, if_false]
    rcases PlanFile.save disk (.ofString output) (Text.Utf8.encode d.root.document) with ⟨after, failure | ⟨⟩⟩ <;>
      simp [Error.message?]

/-- A build ends in an error without a message just if the disk refuses to look up the description, or there is one
and something stands against its plan, or the plan has no encoding and its file can be opened. -/
theorem run_escape_iff (disk : Storage.Disk) (settings : Settings) (input output : String) :
    (∃ e, (run disk settings input output).2 = .error e ∧ e.message? = none) ↔
      (∃ failure, Description.ofFile disk input = .error (.refused failure)) ∨
      ∃ main, Description.ofFile disk input = .ok main ∧
        (Hindered disk settings input main ∨
          isHalved settings (collected disk settings main) = true ∧
            ∃ after, PlanFile.save disk (.ofString output) [] = (after, .ok ())) := by
  unfold run
  cases hmain : Description.ofFile disk input with
  | error e => cases e <;> simp [Error.message?]
  | ok main =>
    simp only [reduceCtorEq, exists_false, false_or, Except.ok.injEq, exists_eq_left']
    rw [← draft_eq_error_iff_hindered hmain]
    cases hd : draft disk settings input main with
    | error f => simp [Error.message?]
    | ok d => simp [deliver_message?_eq_none_iff, draft_halved hd]

theorem isHalved_of_whole (s : Scenario) (h : settings.halved = {}) : isHalved settings s = false := by
  simp [isHalved, h]

/-- Where nothing is looked up in vain, there is a plan, with a ramp time that can be written and a finite default
percent. -/
theorem exists_draft {path : String} (h : Description.ofFile disk path = .ok main) (input : String)
    (hincludes : refusal? disk settings main = none)
    (hdata : ¬RefusesData disk (collected disk settings main).allDataSets)
    (hramp : Number.Integer.text? settings.rampTime ≠ none)
    (hshare : settings.defaultPercent.isFinite = true) :
    ∃ d, draft disk settings input main = .ok d := by
  have hfree : ¬Hindered disk settings input main := by
    rintro (⟨failure, hf⟩ | ⟨hn, -⟩ | ⟨hn, -⟩ | hn)
    · exact absurd (hincludes.symm.trans hf) nofun
    · exact hramp hn
    · exact absurd (hshare.symm.trans hn) nofun
    · exact hdata hn
  rw [← draft_eq_error_iff_hindered h] at hfree
  cases hd : draft disk settings input main with
  | error f => exact absurd ⟨f, hd⟩ hfree
  | ok d => exact ⟨d, rfl⟩

/-- A controller without a percent of its own takes the one of the settings, infinite as it is. -/
example : draft ⟨[], []⟩ { Settings.standard with defaultPercent := .infinite false } "main.xml"
    ⟨"suite", [⟨"controller", [⟨"http", [], [], "", 3, "main.xml"⟩], [], "", 2, "main.xml"⟩], [], "",
      1, "main.xml"⟩ = .error .infiniteShare := by
  rfl

end Build

end LoadPlan
