import LoadPlan.Proofs.Build.Faults
import LoadPlan.Proofs.Inclusion.Lookup
import LoadPlan.Proofs.Jmx.Grouping

/-! The thread groups that a data set comes to: one for each step that comes to something, those of a
repetition again for each line of the file. -/
namespace LoadPlan.Scenario

mutual

/-- A step that can be made: the controllers in it have finite shares, and no repetition is among them. -/
def Entry.Made : Entry → Prop
  | .timer _ | .request _ | .loop _ => True
  | .controller c => c.Made
  | .repeated _ => False

def Controller.Made : Controller → Prop
  | ⟨_, share, stack, _, _, _⟩ => share.isFinite = true ∧ MadeSteps stack

def MadeSteps : List Entry → Prop
  | [] => True
  | e :: es => e.Made ∧ MadeSteps es

end

mutual

/-- A loop in a step has requests and a number of rounds that is too long to be written. -/
def Entry.isOverlong : Entry → Bool
  | .loop l => !l.tests.isEmpty && (Number.Integer.text? l.count).isNone
  | .controller c => c.isOverlong
  | _ => false

def Controller.isOverlong : Controller → Bool
  | ⟨_, _, stack, _, _, _⟩ => anyOverlong stack

def anyOverlong : List Entry → Bool
  | [] => false
  | e :: es => e.isOverlong || anyOverlong es

end

def Entry.isRepeated : Entry → Bool
  | .repeated _ => true
  | _ => false

/-- What a repetition repeats. -/
def Entry.items : Entry → List Entry
  | .repeated items => items
  | _ => []

/-- The steps that have thread groups on account of a step of a data set, which runs a number of rounds if it
is a repetition. Those that come to nothing are passed over. -/
def Entry.grouped (rounds : Nat) : Entry → List Entry
  | .repeated items => (List.replicate rounds (items.filter fun e => !e.isIdle)).flatten
  | e => if e.isIdle then [] else [e]

theorem grouped_of_not_repeated {e : Entry} (he : e.isRepeated = false) (rounds : Nat) :
    e.grouped rounds = if e.isIdle then [] else [e] := by
  cases e with
  | repeated items => cases he
  | _ => rfl

theorem filter_rounds (p : Entry → Bool) (n : Nat) (items : List Entry) :
    (List.replicate n items).flatten.filter p = (List.replicate n (items.filter p)).flatten := by
  rw [List.filter_flatten, List.map_replicate]

/-- What runs with a data set and comes to something. -/
theorem filter_running (disk : Storage.Disk) (d : DataSet) :
    (d.running disk).filter (fun e => !e.isIdle) = d.stack.flatMap (Entry.grouped (d.times disk)) := by
  rw [DataSet.running, List.filter_flatMap]
  congr 1
  funext e
  cases e with
  | repeated items =>
    unfold DataSet.expanded DataSet.times
    cases d.rounds disk with
    | ok n => exact filter_rounds _ n items
    | error failure => rfl
  | loop l =>
    rw [grouped_of_not_repeated rfl, DataSet.expanded, List.filter_singleton]
    · cases (Entry.loop l).isIdle <;> rfl
    · simp
  | _ => rfl

theorem length_grouped (rounds : Nat) (e : Entry) :
    (e.grouped rounds).length =
      (if e.isIdle then 0 else 1) + rounds * e.items.countP fun i => !i.isIdle := by
  cases e with
  | repeated items =>
    simp [Entry.grouped, Entry.items, Entry.isIdle, List.countP_eq_length_filter]
  | loop l =>
    rw [grouped_of_not_repeated rfl]
    cases (Entry.loop l).isIdle <;> rfl
  | _ => rfl

theorem length_flatMap_grouped (rounds : Nat) (es : List Entry) :
    (es.flatMap (Entry.grouped rounds)).length = es.countP (fun e => !e.isIdle) +
      (es.map fun e => rounds * e.items.countP fun i => !i.isIdle).sum := by
  induction es with
  | nil => rfl
  | cons e es ih =>
    rw [List.flatMap_cons, List.length_append, length_grouped, ih, List.countP_cons, List.map_cons,
      List.sum_cons]
    cases e.isIdle with
    | true =>
      simp only [if_true, Bool.not_true, Bool.false_eq_true, if_false]
      omega
    | false =>
      simp only [Bool.false_eq_true, if_false, Bool.not_false, if_true]
      omega

/-- Files that cannot be read leave a data set as if it had no repetitions. -/
theorem running_without {disk : Storage.Disk} {d : DataSet} {before items after : List Entry}
    {failure : Storage.Failure} (hs : d.stack = before ++ .repeated items :: after)
    (hf : d.rounds disk = .error failure) :
    DataSet.running disk { d with stack := before ++ after } = d.running disk := by
  have hsame : DataSet.expanded disk { d with stack := before ++ after } = d.expanded disk := by
    funext e
    cases e <;> rfl
  have hnone : d.expanded disk (.repeated items) = [] := by
    unfold DataSet.expanded
    rw [hf]
  rw [DataSet.running, DataSet.running, hsame, hs, List.flatMap_append, List.flatMap_append, List.flatMap_cons,
    hnone, List.nil_append]

end LoadPlan.Scenario

namespace LoadPlan.Jmx

open LoadPlan.Markup (Element)
open LoadPlan.Scenario
open Block (componentsOf elementsOf elementsOf_append)

mutual

theorem mem_stepFaults_iff {f : Fault} : ∀ e : Entry, e.Made →
    (f ∈ Layout.stepFaults e ↔ e.isOverlong = true ∧ f = .tooManyDigits)
  | .timer _, _ => by simp [Layout.stepFaults, Entry.isOverlong]
  | .request _, _ => by simp [Layout.stepFaults, Entry.isOverlong]
  | .loop l, _ => by
    rw [Layout.stepFaults, Layout.loopFaults, Layout.writingFaults, Entry.isOverlong]
    cases l.tests.isEmpty <;> cases Number.Integer.text? l.count <;> simp
  | .controller c, h => mem_controllerFaults_iff c h
  | .repeated _, h => h.elim

theorem mem_controllerFaults_iff {f : Fault} : ∀ c : Controller, c.Made →
    (f ∈ Layout.controllerFaults c ↔ c.isOverlong = true ∧ f = .tooManyDigits)
  | ⟨_, _, stack, _, _, _⟩, ⟨hp, hs⟩ => by
    rw [Layout.controllerFaults, shareFaults_eq_nil_iff.mpr hp, List.nil_append]
    exact mem_stepsFaults_iff stack hs

theorem mem_stepsFaults_iff {f : Fault} : ∀ es : List Entry, MadeSteps es →
    (f ∈ Layout.stepsFaults es ↔ anyOverlong es = true ∧ f = .tooManyDigits)
  | [], _ => by simp [Layout.stepsFaults, anyOverlong]
  | e :: es, ⟨he, hs⟩ => by
    rw [Layout.stepsFaults, List.mem_append, mem_stepFaults_iff e he, mem_stepsFaults_iff es hs, anyOverlong,
      Bool.or_eq_true, or_and_right]

end

/-- What keeps a data set from being made: the disk does not tell where the file of a repetition is, or a number is
too long to be written, be it that of the rounds of a loop or the ramp time of a thread group. -/
inductive Hindrance (w : Workshop) (d : DataSet) : Fault → Prop
  | refused {items : List Entry} {failure : Storage.Failure} :
      .repeated items ∈ d.stack → d.file w.disk = .error failure → Hindrance w d (.refused failure)
  | rounds {e : Entry} : e ∈ d.running w.disk → e.isOverlong = true → Hindrance w d .tooManyDigits
  | rampTime {e : Entry} : e ∈ d.running w.disk → e.isIdle = false →
      Number.Integer.text? w.settings.rampTime = none → Hindrance w d .tooManyDigits

/-- A thread group for a step of a data set, under the name of the data set. After its cookies it holds the
fragment of the step. -/
def GroupOf (w : Workshop) (name : String) (e : Entry) (number : Nat) (group : Fragment) : Prop :=
  ∃ rampTime inside, Number.Integer.text? w.settings.rampTime = some rampTime ∧
    group = [threadGroup w.settings.onSampleError (Workshop.groupName number name) "1" rampTime,
      tree (pair cookieManager ++ inside)] ∧
    ∀ q, ∃ r, (Workshop.stepFragment? e).run q = (.ok (some inside), r)

/-- What a data set comes to: its component, and thread groups with consecutive numbers. -/
structure Unfolds (w : Workshop) (d : DataSet) (p : Progress) (groups : List Fragment) (q : Progress) : Prop where
  run : (w.dataSetFragment d).run p = (.ok (pair (dataSet d) ++ groups.flatten), q)
  each : List.Forall₂ (fun x group => GroupOf w d.name x.1 x.2 group)
    ((d.stack.flatMap (Entry.grouped (d.times w.disk))).zipIdx p.nextGroup) groups
  length : groups.length = d.stack.countP (fun e => !e.isIdle) +
    (d.stack.map fun e => d.times w.disk * e.items.countP fun i => !i.isIdle).sum
  nextGroup : q.nextGroup = p.nextGroup + groups.length
  readable : ∀ path bytes, d.file w.disk = .ok path → w.disk.read path = .ok bytes →
    d.times w.disk = DataFile.lineCount bytes ∧ q.diagnostics = p.diagnostics
  /-- There is a problem for each repetition then. -/
  unreadable : ∀ path failure, d.file w.disk = .ok path → w.disk.read path = .error failure →
    d.times w.disk = 0 ∧ ∃ problem : Problem, problem.kind = .unavailable ∧ q.diagnostics = p.diagnostics ++
      List.replicate (d.stack.countP Entry.isRepeated) ⟨problem, ⟨w.source, d.line⟩⟩
  /-- But for that, it is as if the repetition were not there. -/
  without : ∀ path failure before items after, d.file w.disk = .ok path → w.disk.read path = .error failure →
    d.stack = before ++ .repeated items :: after → ∃ ds x, q.diagnostics = ds ++ [x] ∧
      (w.dataSetFragment { d with stack := before ++ after }).run p =
        (.ok (pair (dataSet d) ++ groups.flatten), { q with diagnostics := ds })

variable {w : Workshop} {d : DataSet}

/-- The thread group of a step, as elements. -/
def stepGroup (w : Workshop) (name : String) (x : Entry × Nat) : Fragment :=
  elementsOf [Layout.ofGroup w name x.2 (Layout.ofStep x.1)]

theorem elementsOf_groups (name : String) (number : Nat) (es : List Entry) :
    elementsOf (Layout.groups w name number (Layout.insides es)) =
      (((es.filter fun e => !e.isIdle).zipIdx number).map (stepGroup w name)).flatten := by
  have hinsides : Layout.insides es = (es.filter fun e => !e.isIdle).map Layout.ofStep := by
    rw [Layout.insides, List.filter_map]
    congr 1
    refine List.filter_congr fun e _ => ?_
    rw [Function.comp_apply, isEmpty_ofStep]
  rw [hinsides]
  induction es.filter (fun e => !e.isIdle) generalizing number with
  | nil => rfl
  | cons e es ih =>
    rw [List.map_cons, Layout.groups_cons, ← List.singleton_append, elementsOf_append, ih, List.zipIdx_cons]
    rfl

theorem groupOf_stepGroup {e : Entry} {rampTime : String}
    (hramp : Number.Integer.text? w.settings.rampTime = some rampTime) (hfaults : Layout.stepFaults e = [])
    (hidle : e.isIdle = false) (name : String) (number : Nat) :
    GroupOf w name e number (stepGroup w name (e, number)) := by
  refine ⟨rampTime, elementsOf (Layout.ofStep e), hramp, ?_, fun q => ?_⟩
  · rw [Number.Integer.eq_text_of_text? hramp]
    rfl
  · have hmakes := Workshop.stepFragment?_makes e q
    rw [MakesSome, hfaults, isEmpty_ofStep, hidle] at hmakes
    exact ⟨_, hmakes⟩

/-- The steps of a data set are made, and so are those that it repeats. -/
def MadeWithin (es : List Entry) : Prop :=
  ∀ e ∈ es, e.Made ∨ e.isRepeated = true ∧ ∀ i ∈ e.items, i.Made

theorem made_running {disk : Storage.Disk} (h : MadeWithin d.stack) : ∀ e ∈ d.running disk, e.Made := by
  intro e he
  obtain ⟨x, hx, he⟩ := List.mem_flatMap.mp he
  cases x with
  | repeated items =>
    have hitems : ∀ i ∈ items, i.Made := ((h _ hx).resolve_left fun hm => hm.elim).2
    unfold DataSet.expanded at he
    cases hr : d.rounds disk with
    | ok n =>
      simp only [hr] at he
      obtain ⟨l, hl, he⟩ := List.mem_flatten.mp he
      rw [List.eq_of_mem_replicate hl] at he
      exact hitems e he
    | error failure =>
      simp only [hr] at he
      cases he
  | _ =>
    rw [List.mem_singleton.mp he]
    exact (h _ hx).resolve_right fun hm => absurd hm.1 (by simp [Entry.isRepeated])

theorem mem_groupedFaults_iff {es : List Entry} {f : Fault} (h : ∀ e ∈ es, e.Made) :
    f ∈ Layout.groupedFaults w es ↔ ∃ e ∈ es, (e.isOverlong = true ∨ e.isIdle = false ∧
      Number.Integer.text? w.settings.rampTime = none) ∧ f = .tooManyDigits := by
  rw [Layout.groupedFaults, List.mem_flatMap]
  refine exists_congr fun e => and_congr_right fun he => ?_
  rw [List.mem_append, mem_stepFaults_iff e (h e he), isEmpty_ofStep, Layout.writingFaults]
  cases e.isIdle <;> cases Number.Integer.text? w.settings.rampTime <;> simp

theorem mem_dataSetFaults_iff {f : Fault} (h : MadeWithin d.stack) :
    f ∈ Layout.dataSetFaults w d ↔ Hindrance w d f := by
  have hgrouped : (∃ e ∈ d.stack, f ∈ Layout.groupedFaults w (d.expanded w.disk e)) ↔
      f ∈ Layout.groupedFaults w (d.running w.disk) := by
    rw [DataSet.running, Layout.groupedFaults, List.flatMap_assoc, List.mem_flatMap]
    rfl
  simp only [Layout.dataSetFaults, List.mem_flatMap, Layout.dataStepFaults, List.mem_append, and_or_left,
    exists_or]
  rw [hgrouped, mem_groupedFaults_iff (made_running h)]
  constructor
  · rintro (⟨e, he, hf⟩ | ⟨e, he, hlong | ⟨hidle, hramp⟩, rfl⟩)
    · obtain ⟨failure, hrefusal, rfl⟩ := List.mem_map.mp hf
      obtain ⟨items, rfl⟩ : ∃ items, e = .repeated items := by
        cases e with
        | repeated items => exact ⟨items, rfl⟩
        | _ => cases hrefusal
      cases hfile : d.file w.disk with
      | ok path => simp [DataSet.refusal?, hfile] at hrefusal
      | error failure' =>
        obtain rfl : failure = failure' := by simpa [DataSet.refusal?, hfile, eq_comm] using hrefusal
        exact .refused he hfile
    · exact .rounds he hlong
    · exact .rampTime he hidle hramp
  · rintro (⟨hrep, hfile⟩ | ⟨he, hlong⟩ | ⟨he, hidle, hramp⟩)
    · refine .inl ⟨_, hrep, List.mem_map.mpr ⟨_, ?_, rfl⟩⟩
      simp [DataSet.refusal?, hfile]
    · exact .inr ⟨_, he, .inl hlong, rfl⟩
    · exact .inr ⟨_, he, .inr ⟨hidle, hramp⟩, rfl⟩

theorem diagnosticsOf_of_ok {es : List Entry} {n : Nat} (hr : d.rounds w.disk = .ok n) :
    Layout.diagnosticsOf w d es = [] := by
  have hnone : ∀ e, d.problem? w.disk e = none := by
    intro e
    unfold DataSet.problem?
    rw [hr]
    split <;> rfl
  rw [Layout.diagnosticsOf, List.map_eq_nil_iff, List.filterMap_eq_nil_iff]
  exact fun e _ => hnone e

theorem diagnosticsOf_of_error {es : List Entry} {failure : Storage.Failure}
    (hr : d.rounds w.disk = .error failure) :
    Layout.diagnosticsOf w d es = List.replicate (es.countP Entry.isRepeated)
      ⟨.dataUnreadable d.filename failure, ⟨w.source, d.line⟩⟩ := by
  have hproblem : d.problem? w.disk =
      fun e => if e.isRepeated then some (.dataUnreadable d.filename failure) else none := by
    funext e
    cases e with
    | repeated items => simp [DataSet.problem?, Entry.isRepeated, hr]
    | _ => rfl
  rw [Layout.diagnosticsOf, hproblem]
  induction es with
  | nil => rfl
  | cons e es ih =>
    rw [List.filterMap_cons, List.countP_cons]
    cases e.isRepeated with
    | true => simpa [List.replicate_succ] using ih
    | false => simpa using ih

/-- The elements of a data set are those of its component and of the groups of its steps. -/
theorem elementsOf_dataSet (number : Nat) :
    elementsOf (Layout.ofDataSet w number d) = pair (dataSet d) ++
      (((d.stack.flatMap (Entry.grouped (d.times w.disk))).zipIdx number).map (stepGroup w d.name)).flatten := by
  rw [Layout.ofDataSet, ← List.singleton_append, elementsOf_append, elementsOf_groups, filter_running]
  rfl

/-- A repetition without lines makes no difference to the elements, but for its problem. -/
theorem run_without {p q : Progress} {elements : Fragment} {before items after : List Entry}
    {failure : Storage.Failure} (hs : d.stack = before ++ .repeated items :: after)
    (hf : d.rounds w.disk = .error failure) (hfree : Layout.dataSetFaults w d = [])
    (hrun : (w.dataSetFragment d).run p = (.ok elements, q)) :
    ∃ ds x, q.diagnostics = ds ++ [x] ∧
      (w.dataSetFragment { d with stack := before ++ after }).run p =
        (.ok elements, { q with diagnostics := ds }) := by
  obtain ⟨-, rfl, rfl⟩ := (Workshop.dataSetFragment_makes w d p).ok_iff.mp hrun
  have hone := Workshop.dataSetFragment_makes w { d with stack := before ++ after } p
  have hf' : DataSet.rounds w.disk { d with stack := before ++ after } = .error failure := hf
  have hsame : Layout.ofDataSet w p.nextGroup { d with stack := before ++ after } =
      Layout.ofDataSet w p.nextGroup d := by
    rw [Layout.ofDataSet, running_without hs hf]
    rfl
  have hfree' : Layout.dataSetFaults w { d with stack := before ++ after } = [] := by
    rw [Layout.dataSetFaults, hs, List.flatMap_append, List.flatMap_cons, List.append_eq_nil_iff,
      List.append_eq_nil_iff] at hfree
    rw [Layout.dataSetFaults, List.flatMap_append, List.append_eq_nil_iff]
    exact ⟨hfree.1, hfree.2.2⟩
  rw [Makes, hfree', hsame, diagnosticsOf_of_error hf'] at hone
  have hcount : d.stack.countP Entry.isRepeated = (before ++ after).countP Entry.isRepeated + 1 := by
    rw [hs, List.countP_append, List.countP_append, List.countP_cons]
    simp [Entry.isRepeated, Nat.add_assoc]
  refine ⟨_, ⟨.dataUnreadable d.filename failure, ⟨w.source, d.line⟩⟩, ?_, hone.ok_iff.mpr ⟨rfl, rfl, rfl⟩⟩
  rw [Progress.after, diagnosticsOf_of_error hf, hcount, List.replicate_succ', ← List.append_assoc]

theorem unfolds_of_free (p : Progress) (hmade : MadeWithin d.stack) (hfree : ∀ f, ¬Hindrance w d f) :
    ∃ groups q, Unfolds w d p groups q := by
  have hnone : Layout.dataSetFaults w d = [] :=
    List.eq_nil_iff_forall_not_mem.mpr fun f hf => hfree f ((mem_dataSetFaults_iff hmade).mp hf)
  have hmakes := Workshop.dataSetFragment_makes w d p
  rw [Makes, hnone, elementsOf_dataSet] at hmakes
  have hrun := hmakes.ok_iff.mpr ⟨rfl, rfl, rfl⟩
  refine ⟨_, _, hrun, ?_, ?_, ?_, ?_, ?_, ?_⟩
  · rw [List.forall₂_map_right_iff, List.forall₂_same]
    rintro ⟨e, number⟩ hx
    have hmem := List.fst_mem_of_mem_zipIdx hx
    rw [← filter_running, List.mem_filter, Bool.not_eq_true'] at hmem
    obtain ⟨he, hidle⟩ := hmem
    obtain ⟨rampTime, hramp⟩ : ∃ rampTime, Number.Integer.text? w.settings.rampTime = some rampTime :=
      Option.ne_none_iff_exists'.mp fun h => hfree _ (.rampTime he hidle h)
    have hstep : Layout.stepFaults e = [] := List.eq_nil_iff_forall_not_mem.mpr fun f hf =>
      hfree _ (.rounds he ((mem_stepFaults_iff e (made_running hmade e he)).mp hf).1)
    exact groupOf_stepGroup hramp hstep hidle d.name number
  · rw [List.length_map, List.length_zipIdx, length_flatMap_grouped]
  · rw [Workshop.nextGroup_after_dataSet, length_insides, List.countP_eq_length_filter, filter_running,
      List.length_map, List.length_zipIdx]
  · intro path bytes hfile hread
    have hr : d.rounds w.disk = .ok (DataFile.lineCount bytes) := DataSet.rounds_of_read hfile hread
    refine ⟨by rw [DataSet.times, hr], ?_⟩
    rw [Progress.after, diagnosticsOf_of_ok hr, List.append_nil]
  · intro path failure hfile hread
    have hr : d.rounds w.disk = .error failure := DataSet.rounds_of_read hfile hread
    refine ⟨by rw [DataSet.times, hr], .dataUnreadable d.filename failure, rfl, ?_⟩
    rw [Progress.after, diagnosticsOf_of_error hr]
  · intro path failure before items after hfile hread hs
    exact run_without hs (DataSet.rounds_of_read hfile hread) hnone hrun

/-- A data set comes to its component and a thread group for each of its steps that comes to something, in
their order; in place of a repetition there are groups for its steps, once for each line of the file, and
none if that cannot be read. Only a hindrance can be in the way, and then the first one is the fault. -/
theorem unfolds_of_made (w : Workshop) (d : DataSet) (p : Progress) (h : MadeWithin d.stack) :
    ((∀ f, ¬Hindrance w d f) → ∃ groups q, Unfolds w d p groups q) ∧
      ∀ f, Hindrance w d f → ∃ first, ((w.dataSetFragment d).run p).1 = .error first ∧ Hindrance w d first := by
  refine ⟨unfolds_of_free p h, fun f hf => ?_⟩
  obtain ⟨first, rest, hfaults⟩ := List.exists_cons_of_ne_nil
    (List.ne_nil_of_mem ((mem_dataSetFaults_iff h).mpr hf))
  have hfirst : first ∈ Layout.dataSetFaults w d := hfaults ▸ List.mem_cons_self
  refine ⟨first, (Workshop.dataSetFragment_makes w d p).error_iff.mpr ?_, (mem_dataSetFaults_iff h).mp hfirst⟩
  rw [hfaults, List.head?_cons]

theorem not_hindrance_of_free (hmade : MadeWithin d.stack) (hfree : Layout.dataSetFaults w d = []) :
    ∀ f, ¬Hindrance w d f := by
  intro f hf
  have hmem := (mem_dataSetFaults_iff hmade).mpr hf
  rw [hfree] at hmem
  cases hmem

/-- A data set with something to be repeated for a file that no name can be looked up for. -/
def unnamableDataSet : DataSet :=
  { DataSet.standard with
    filename := Storage.Disk.longName, directory := some ⟨"/", []⟩, stack := [.repeated eachUser] }

theorem file_unnamableDataSet : ∃ failure, unnamableDataSet.file usersDisk = .error failure := by
  have hjoin : (Storage.Path.mk "/" []).join ⟨"", [Storage.Disk.longName]⟩ = ⟨"/", [Storage.Disk.longName]⟩ := rfl
  have hlook := Storage.Disk.look_longName usersDisk "/"
  refine ⟨⟨.nameTooLong, (Storage.Path.mk "/" [Storage.Disk.longName]).text⟩, ?_⟩
  rw [DataSet.file]
  simp only [unnamableDataSet, Storage.Disk.ofString_longName]
  rw [if_neg (by decide), hjoin, Storage.Disk.exists?, hlook]
  rfl

/-- Two users log in and buy something, and then there is one more step. Without a file, only that is left
which is not repeated. With a name that is too long for a file, nothing is made. -/
theorem unfolds_of_made_users :
    (∃ groups q, Unfolds usersWorkshop doubledDataSet ⟨3, .zero, []⟩ groups q ∧ groups.length = 5 ∧
      q.nextGroup = 8) ∧
    (∃ groups q, Unfolds usersWorkshop lostDataSet ⟨3, .zero, []⟩ groups q ∧ groups.length = 1 ∧
      q.diagnostics.length = 1) ∧
    ∃ fault, ((usersWorkshop.dataSetFragment unnamableDataSet).run ⟨3, .zero, []⟩).1 = .error fault := by
  have hmade : ∀ i ∈ eachUser, i.Made := by
    simp [eachUser, Entry.Made, Controller.Made, MadeSteps, Number.Double.isFinite]
  have hdoubled : MadeWithin doubledDataSet.stack := by
    simpa [MadeWithin, doubledDataSet, Entry.Made, Entry.items, Entry.isRepeated] using hmade
  have hlost : MadeWithin lostDataSet.stack := by
    simp [MadeWithin, lostDataSet, Entry.Made, Entry.items, Entry.isRepeated]
  have hunnamable : MadeWithin unnamableDataSet.stack := by
    simpa [MadeWithin, unnamableDataSet, Entry.Made, Entry.items, Entry.isRepeated] using hmade
  refine ⟨?_, ?_, ?_⟩
  · have hread : doubledDataSet.times usersWorkshop.disk = 2 := by
      rw [DataSet.times, show doubledDataSet.rounds usersWorkshop.disk = .ok 2 from rounds_doubledDataSet]
    obtain ⟨groups, q, h⟩ := (unfolds_of_made usersWorkshop doubledDataSet ⟨3, .zero, []⟩ hdoubled).1
      (not_hindrance_of_free hdoubled dataSetFaults_doubledDataSet)
    have hlength : groups.length = 5 := by
      rw [h.length, hread]
      rfl
    exact ⟨groups, q, h, hlength, by rw [h.nextGroup, hlength]⟩
  · have hfile : lostDataSet.file usersDisk = .ok ⟨"", ["lost.csv"]⟩ := rfl
    obtain ⟨groups, q, h⟩ := (unfolds_of_made usersWorkshop lostDataSet ⟨3, .zero, []⟩ hlost).1
      (not_hindrance_of_free hlost dataSetFaults_lostDataSet)
    obtain ⟨hzero, problem, -, hq⟩ := h.unreadable _ _ hfile read_lost
    refine ⟨groups, q, h, ?_, ?_⟩
    · rw [h.length, hzero]
      rfl
    · rw [hq, List.nil_append, List.length_replicate]
      rfl
  · obtain ⟨failure, hfile⟩ := file_unnamableDataSet
    obtain ⟨first, hfails, -⟩ := (unfolds_of_made usersWorkshop unnamableDataSet ⟨3, .zero, []⟩ hunnamable).2 _
      (.refused (List.mem_singleton_self _) hfile)
    exact ⟨first, hfails⟩

end LoadPlan.Jmx
