import LoadPlan.Proofs.Jmx.Making
import LoadPlan.Proofs.Scenario.Documents

/-! Steps that stand where their kind has its place, in records that agree with themselves. Whatever
documents say, what is collected from them is of this form, so that no step of it is refused when blocks
are made. -/
namespace LoadPlan.Scenario

open LoadPlan.Description (Node Kind)

/-- Where steps stand: one after another in a plan or a controller, in a data set, or in a repetition. -/
inductive Site
  | sequence
  | dataSet
  | repetition
  deriving DecidableEq, Repr

/-- Parts are noted exactly if there are some; timers and parameters do not count as parts. -/
def Request.Coherent (r : Request) : Prop :=
  r.hasParts = true ↔ r.assertions ≠ [] ∨ r.extractors ≠ [] ∨ r.results ≠ none ∨ r.upload ≠ none

/-- A loop without end has the count -1. -/
structure Loop.Coherent (l : Loop) : Prop where
  count : l.forever = true → l.count = -1
  tests : ∀ r ∈ l.tests, r.Coherent

mutual

/-- A step that has its place at a site, with all that is in it. -/
def Entry.Placed (site : Site) : Entry → Prop
  | .timer _ => site = .sequence
  | .request r => r.Coherent
  | .loop l => l.Coherent
  | .controller c => c.Placed
  | .repeated items => site = .dataSet ∧ PlacedSteps .repetition items

def Controller.Placed : Controller → Prop
  | ⟨_, _, stack, dataSets, _, _⟩ => PlacedSteps .sequence stack ∧ PlacedSets dataSets

def PlacedSteps (site : Site) : List Entry → Prop
  | [] => True
  | e :: es => e.Placed site ∧ PlacedSteps site es

def DataSet.Placed : DataSet → Prop
  | ⟨_, _, _, _, _, stack, _, _, _⟩ => PlacedSteps .dataSet stack

def PlacedSets : List DataSet → Prop
  | [] => True
  | d :: ds => d.Placed ∧ PlacedSets ds

end

variable {site : Site}

theorem placedSteps_iff {es : List Entry} : PlacedSteps site es ↔ ∀ e ∈ es, e.Placed site := by
  induction es with
  | nil => simp [PlacedSteps]
  | cons e es ih => rw [PlacedSteps, ih, List.forall_mem_cons]

theorem placedSets_iff {ds : List DataSet} : PlacedSets ds ↔ ∀ d ∈ ds, d.Placed := by
  induction ds with
  | nil => simp [PlacedSets]
  | cons d ds ih => rw [PlacedSets, ih, List.forall_mem_cons]

theorem placedSteps_append {a b : List Entry} :
    PlacedSteps site (a ++ b) ↔ PlacedSteps site a ∧ PlacedSteps site b := by
  simp only [placedSteps_iff, List.forall_mem_append]

theorem placedSets_append {a b : List DataSet} :
    PlacedSets (a ++ b) ↔ PlacedSets a ∧ PlacedSets b := by
  simp only [placedSets_iff, List.forall_mem_append]

/-- All steps and data sets of a scenario have their place. -/
structure Placed (s : Scenario) : Prop where
  stack : PlacedSteps .sequence s.stack
  dataSets : PlacedSets s.dataSets

theorem placed_empty : Placed empty :=
  ⟨trivial, trivial⟩

theorem Placed.append {s t : Scenario} (hs : Placed s) (ht : Placed t) : Placed (s.append t) :=
  ⟨placedSteps_append.mpr ⟨hs.stack, ht.stack⟩, placedSets_append.mpr ⟨hs.dataSets, ht.dataSets⟩⟩

/-- Steps and data sets that a script brings in have their place in a plan or a controller. -/
def PlacedPart (r : List Entry × List DataSet) : Prop :=
  PlacedSteps .sequence r.1 ∧ PlacedSets r.2

theorem PlacedPart.join {r s : List Entry × List DataSet} (hr : PlacedPart r) (hs : PlacedPart s) :
    PlacedPart (r.1 ++ s.1, r.2 ++ s.2) :=
  ⟨placedSteps_append.mpr ⟨hr.1, hs.1⟩, placedSets_append.mpr ⟨hr.2, hs.2⟩⟩

/-! Reading elements. -/

variable {n : Node}

theorem timer_placed (n : Node) : Reads (Timer.read? n) (fun _ => True) Unseen := by
  unfold Timer.read?
  cases Timer.ofNode n with
  | ok t => exact .pure trivial
  | error p => exact (Reads.report trivial).bind fun _ _ => .pure trivial

/-- Parts are described if one of the four kinds is there, and each kind has a place in the record. -/
theorem describesParts_iff :
    Request.describesParts n = true ↔
      (filled .asserts n.children).map Assertion.ofNode ≠ [] ∨
        (filled .regex n.children).map Extractor.ofNode ≠ [] ∨
        (filled .results n.children).getLast? ≠ none ∨
        (filled .upload n.children).getLast?.map Upload.ofNode ≠ none := by
  simp [Request.describesParts]

theorem request_coherent (n : Node) : Reads (Request.ofNode n) Request.Coherent Unseen := by
  have htimer : ∀ c ∈ filled .timer n.children, Reads (Timer.read? c) (fun o => ∀ t ∈ o, True) Unseen :=
    fun c _ => (timer_placed c).mono fun _ _ _ _ => trivial
  -- Results are completed if they are described, and are not made up otherwise.
  have hcoherent : ∀ o : Option Results, (o ≠ none ↔ (filled .results n.children).getLast? ≠ none) →
      (Request.describesParts n = true ↔
        (filled .asserts n.children).map Assertion.ofNode ≠ [] ∨
          (filled .regex n.children).map Extractor.ofNode ≠ [] ∨ o ≠ none ∨
          (filled .upload n.children).getLast?.map Upload.ofNode ≠ none) := by
    intro o ho
    rw [ho]
    exact describesParts_iff
  unfold Request.ofNode
  refine (Reads.filterMapM htimer).bind fun timers _ => ?_
  refine (Reads.orDefault fun _ => trivial).bind fun method _ => ?_
  refine (Reads.orDefault fun _ => trivial).bind fun name _ => ?_
  cases hr : (filled .results n.children).getLast? with
  | none =>
    refine Reads.bind (Q := (· = none)) (.pure rfl) fun o ho => .pure (hcoherent o ?_)
    simp [ho, hr]
  | some r =>
    have hsome : Reads (some <$> (Results.ofNode r).complete name n) (· ≠ none) Unseen := by
      unfold Results.complete
      refine Reads.map (Q := fun _ => True) ?_ (by simp)
      refine (Reads.orDefault fun _ => trivial).bind fun file _ => ?_
      exact (Reads.orDefault fun _ => trivial).bind fun type _ => .pure trivial
    refine hsome.bind fun o ho => .pure (hcoherent o ?_)
    simp [ho, hr]

theorem loop_coherent (n : Node) : Reads (Loop.ofNode n) Loop.Coherent Unseen := by
  unfold Loop.ofNode
  refine (Reads.mapM fun c _ => request_coherent c).bind fun tests htests => ?_
  dsimp only
  split
  · exact .pure ⟨fun _ => rfl, htests⟩
  · next hforever =>
    split
    · exact .pure ⟨fun h => absurd h hforever, htests⟩
    · refine (Reads.report trivial).bind fun _ _ => .pure ⟨fun h => absurd h hforever, htests⟩

/-- A script brings in only what has its place. -/
def Context.Places (ctx : Context) : Prop :=
  ∀ n, Reads (ctx.spliced n) PlacedPart Unseen

variable {ctx : Context}

mutual

theorem controller_placed (hx : ctx.Places) : ∀ n : Node,
    Reads (Controller.ofNode ctx n) Controller.Placed Unseen
  | ⟨name, children, attributes, content, line, source⟩ => by
    have hs := steps_placed hx children
    rw [Controller.ofNode]
    refine Reads.get.bind fun log _ => ?_
    refine Reads.count.bind fun _ _ => ?_
    refine hs.bind fun r hr => ?_
    refine (Reads.orDefault fun _ => trivial).bind fun name _ => ?_
    split
    · exact .pure hr
    · exact (Reads.report trivial).bind fun _ _ => .pure hr

theorem steps_placed (hx : ctx.Places) : ∀ cs : List Node,
    Reads (Controller.steps ctx cs) PlacedPart Unseen
  | [] => .pure ⟨trivial, trivial⟩
  | c :: cs => by
    have ih := steps_placed hx cs
    have hjoin : ∀ r, PlacedPart r →
        Reads (do let (after, more) ← Controller.steps ctx cs; return (r.1 ++ after, r.2 ++ more))
          PlacedPart Unseen :=
      fun r hr => ih.bind fun s hs => .pure (hr.join hs)
    rw [Controller.steps]
    split
    · exact (request_coherent c).bind fun r hr => hjoin ([.request r], []) ⟨⟨hr, trivial⟩, trivial⟩
    · exact (loop_coherent c).bind fun l hl => hjoin ([.loop l], []) ⟨⟨hl, trivial⟩, trivial⟩
    · exact (controller_placed hx c).bind fun k hk =>
        hjoin ([.controller k], []) ⟨⟨hk, trivial⟩, trivial⟩
    · split
      · exact (hx c).bind hjoin
      · exact hjoin ([], []) ⟨trivial, trivial⟩
    · exact hjoin ([], []) ⟨trivial, trivial⟩

end

/-- Requests, controllers and loops have their place anywhere. -/
theorem step?_placed (hx : ctx.Places) (site : Site) (n : Node) :
    Reads (step? ctx n) (fun o => ∀ e ∈ o, e.Placed site) Unseen := by
  unfold step?
  split
  · exact (request_coherent n).bind fun r hr => .pure (by simpa [Entry.Placed] using hr)
  · exact (controller_placed hx n).bind fun c hc => .pure (by simpa [Entry.Placed] using hc)
  · exact (loop_coherent n).bind fun l hl => .pure (by simpa [Entry.Placed] using hl)
  · exact .pure (by simp)

theorem repetition_placed (hx : ctx.Places) (n : Node) :
    Reads (repetition ctx n) (Entry.Placed .dataSet) Unseen := by
  unfold repetition
  have hs : ∀ c ∈ n.children, Reads (step? ctx c) (fun o => ∀ e ∈ o, e.Placed .repetition) Unseen :=
    fun c _ => step?_placed hx .repetition c
  exact (Reads.filterMapM hs).bind fun items hi => .pure ⟨rfl, placedSteps_iff.mpr hi⟩

theorem dataSet_placed (hx : ctx.Places) (n : Node) :
    Reads (DataSet.ofNode ctx n) DataSet.Placed Unseen := by
  have hs : ∀ c ∈ n.children, Reads (if c.kind == .repeated then
        if c.hasChildren then some <$> repetition ctx c else pure none
      else step? ctx c) (fun o => ∀ e ∈ o, e.Placed .dataSet) Unseen := by
    intro c _
    split
    · split
      · exact (repetition_placed hx c).map (by simp)
      · exact .pure (by simp)
    · exact step?_placed hx .dataSet c
  unfold DataSet.ofNode
  refine (Reads.filterMapM hs).bind fun stack hstack => ?_
  refine (Reads.orDefault fun _ => trivial).bind fun filename _ => .pure ?_
  exact placedSteps_iff.mpr hstack

/-! Documents. -/

theorem ofElement_placed (hx : ctx.Places) (n : Node) : Reads (ofElement ctx n) Placed Unseen := by
  have hempty : Reads (pure empty) Placed Unseen := .pure placed_empty
  unfold ofElement
  split
  · split
    · refine (timer_placed n).bind fun t _ => .pure ⟨?_, trivial⟩
      rw [placedSteps_iff]
      intro e he
      obtain ⟨t, -, rfl⟩ := List.mem_map.mp he
      exact (rfl : Site.sequence = .sequence)
    · exact hempty
  · split
    · exact (loop_coherent n).bind fun l hl => .pure ⟨⟨hl, trivial⟩, trivial⟩
    · exact hempty
  · split
    · exact (controller_placed hx n).bind fun c hc => .pure ⟨⟨hc, trivial⟩, trivial⟩
    · exact hempty
  · exact .pure ⟨trivial, trivial⟩
  · exact (request_coherent n).bind fun r hr => .pure ⟨⟨hr, trivial⟩, trivial⟩
  · split
    · exact (dataSet_placed hx n).bind fun d hd => .pure ⟨trivial, ⟨hd, trivial⟩⟩
    · exact hempty
  · split
    · exact (hx n).bind fun r hr => .pure ⟨hr.1, hr.2⟩
    · exact hempty
  · exact hempty

theorem ofElements_placed (hx : ctx.Places) (ns : List Node) :
    Reads (ofElements ctx ns) Placed Unseen := by
  induction ns with
  | nil => exact .pure placed_empty
  | cons n ns ih => exact (ofElement_placed hx n).bind fun s hs => ih.bind fun t ht => .pure (hs.append ht)

variable {disk : Storage.Disk} {settings : Settings} {chain : List Storage.Path} {root : Node}
  {inside : List Storage.Path → Node → Reading Scenario}

theorem splice_placed (hin : ∀ chain root, Reads (inside chain root) Placed Unseen) (n : Node) :
    Reads (splice disk settings chain inside n) Placed Unseen := by
  unfold splice
  split
  · exact (Reads.report trivial).bind fun _ _ => .pure placed_empty
  · split
    · exact (Reads.report trivial).bind fun _ _ => .pure placed_empty
    · exact hin _ _

theorem spliceAll_placed (hin : ∀ chain root, Reads (inside chain root) Placed Unseen)
    (ns : List Node) : Reads (spliceAll disk settings chain inside ns) PlacedPart Unseen := by
  induction ns with
  | nil => exact .pure ⟨trivial, trivial⟩
  | cons n ns ih =>
    have hjoin : ∀ s, Placed s → Reads (spliceAll disk settings chain inside ns >>= fun r =>
        pure (s.stack ++ r.1, s.dataSets ++ r.2)) PlacedPart Unseen :=
      fun s hs => ih.bind fun r hr => .pure
        (PlacedPart.join (r := (s.stack, s.dataSets)) ⟨hs.stack, hs.dataSets⟩ hr)
    unfold spliceAll
    split
    · exact (splice_placed hin n).bind hjoin
    · exact hjoin empty placed_empty

theorem ofDocument_placed (depth : Nat) (chain : List Storage.Path) (root : Node) :
    Reads (ofDocument disk settings depth chain root) Placed Unseen := by
  induction depth generalizing chain root with
  | zero => exact ofElements_placed (fun _ => spliceAll_placed (fun _ _ => .pure placed_empty) _) _
  | succ depth ih => exact ofElements_placed (fun _ => spliceAll_placed ih _) _

/-! Steps that have their place are made into blocks; a repetition is replaced by its steps before. -/

/-- No condition on shares or on data sets. -/
abbrev Anything {α : Type} : α → Prop := fun _ => True

mutual

theorem Entry.regular_of_placed : ∀ (e : Entry) {site : Site}, site ≠ .dataSet → e.Placed site →
    e.Regular Anything Anything Anything
  | .timer _, _, _, _ => trivial
  | .request _, _, _, _ => trivial
  | .loop _, _, _, _ => trivial
  | .controller c, _, _, h => c.regular_of_placed h
  | .repeated _, _, hsite, h => absurd h.1 hsite

theorem Controller.regular_of_placed : ∀ c : Controller, c.Placed → c.Regular Anything Anything Anything
  | ⟨_, _, stack, dataSets, _, _⟩, ⟨hs, hd⟩ =>
    ⟨trivial, regularSteps_of_placed stack (by decide) hs, regularSets_of_placed dataSets hd⟩

theorem regularSteps_of_placed : ∀ (es : List Entry) {site : Site}, site ≠ .dataSet →
    PlacedSteps site es → RegularSteps Anything Anything Anything es
  | [], _, _, _ => trivial
  | e :: es, _, hsite, ⟨he, hs⟩ => ⟨e.regular_of_placed hsite he, regularSteps_of_placed es hsite hs⟩

theorem DataSet.regular_of_placed : ∀ d : DataSet, d.Placed → d.Regular Anything Anything Anything
  | ⟨_, _, _, _, _, stack, _, _, _⟩, h => ⟨trivial, regularWithin_of_placed stack h⟩

theorem regularSets_of_placed : ∀ ds : List DataSet, PlacedSets ds → RegularSets Anything Anything Anything ds
  | [], _ => trivial
  | d :: ds, ⟨hd, hs⟩ => ⟨d.regular_of_placed hd, regularSets_of_placed ds hs⟩

theorem regularWithin_of_placed : ∀ es : List Entry, PlacedSteps .dataSet es → RegularWithin Anything Anything Anything es
  | [], _ => trivial
  | .timer _ :: _, ⟨he, _⟩ => nomatch he
  | .request _ :: es, ⟨_, hs⟩ => ⟨trivial, regularWithin_of_placed es hs⟩
  | .loop _ :: es, ⟨_, hs⟩ => ⟨trivial, regularWithin_of_placed es hs⟩
  | .controller c :: es, ⟨hc, hs⟩ => ⟨c.regular_of_placed hc, regularWithin_of_placed es hs⟩
  | .repeated items :: es, ⟨⟨_, hi⟩, hs⟩ =>
    ⟨regularSteps_of_placed items (by decide) hi, regularWithin_of_placed es hs⟩

end

theorem Placed.regular {s : Scenario} (h : Placed s) : s.Regular Anything Anything Anything :=
  ⟨regularSteps_of_placed _ (by decide) h.stack, regularSets_of_placed _ h.dataSets⟩

end LoadPlan.Scenario

namespace LoadPlan.Jmx

open LoadPlan.Scenario

variable {P : Number.Double → Prop} {L : Loop → Prop} {O : DataSet → Prop} {w : Workshop}

theorem misplaced_not_mem_shareFaults (share : Number.Double) :
    Fault.misplacedRepetition ∉ Layout.shareFaults share := by
  cases share <;> simp [Layout.shareFaults, Workshop.wholeShare]

theorem misplaced_not_mem_writingFaults (n : Int) :
    Fault.misplacedRepetition ∉ Layout.writingFaults n := by
  unfold Layout.writingFaults
  split <;> simp

theorem misplaced_not_mem_loopFaults (l : Loop) : Fault.misplacedRepetition ∉ Layout.loopFaults l := by
  unfold Layout.loopFaults
  split
  · exact List.not_mem_nil
  · exact misplaced_not_mem_writingFaults _

mutual

theorem misplaced_not_mem_stepFaults : ∀ e : Entry, e.Regular P L O →
    Fault.misplacedRepetition ∉ Layout.stepFaults e
  | .timer _, _ => List.not_mem_nil
  | .request _, _ => List.not_mem_nil
  | .loop l, _ => misplaced_not_mem_loopFaults l
  | .controller c, h => misplaced_not_mem_controllerFaults c h
  | .repeated _, h => h.elim

theorem misplaced_not_mem_controllerFaults : ∀ c : Controller, c.Regular P L O →
    Fault.misplacedRepetition ∉ Layout.controllerFaults c
  | ⟨_, share, stack, _, _, _⟩, ⟨_, hs, _⟩ => by
    rw [Layout.controllerFaults, List.mem_append, not_or]
    exact ⟨misplaced_not_mem_shareFaults share, misplaced_not_mem_stepsFaults stack hs⟩

theorem misplaced_not_mem_stepsFaults : ∀ es : List Entry, RegularSteps P L O es →
    Fault.misplacedRepetition ∉ Layout.stepsFaults es
  | [], _ => List.not_mem_nil
  | e :: es, ⟨he, hs⟩ => by
    rw [Layout.stepsFaults, List.mem_append, not_or]
    exact ⟨misplaced_not_mem_stepFaults e he, misplaced_not_mem_stepsFaults es hs⟩

end

theorem misplaced_not_mem_groupedFaults {es : List Entry} (h : RegularSteps P L O es) :
    Fault.misplacedRepetition ∉ Layout.groupedFaults w es := by
  intro hm
  obtain ⟨e, he, hm⟩ := List.mem_flatMap.mp hm
  rcases List.mem_append.mp hm with hm | hm
  · exact misplaced_not_mem_stepFaults e (regularSteps_iff.mp h e he) hm
  · split at hm
    · cases hm
    · exact misplaced_not_mem_writingFaults _ hm

theorem misplaced_not_mem_dataSetFaults {d : DataSet} (h : d.Regular P L O) :
    Fault.misplacedRepetition ∉ Layout.dataSetFaults w d := by
  intro hm
  obtain ⟨e, he, hm⟩ := List.mem_flatMap.mp hm
  rcases List.mem_append.mp hm with hm | hm
  · simp at hm
  · have hsteps : RegularSteps P L O (d.expanded w.disk e) := regularSteps_iff.mpr fun x hx =>
      regularSteps_iff.mp (regular_running w.disk h) x (List.mem_flatMap.mpr ⟨e, he, hx⟩)
    exact misplaced_not_mem_groupedFaults hsteps hm

/-- No fault of a regular scenario is a repetition where only a step may stand. -/
theorem misplaced_not_mem_planFaults {s : Scenario} (h : s.Regular P L O) :
    Fault.misplacedRepetition ∉ Layout.planFaults w s := by
  unfold Layout.planFaults
  rw [List.mem_append, List.mem_append, not_or, not_or]
  refine ⟨?_, misplaced_not_mem_stepsFaults _ h.stack, ?_⟩
  · unfold Layout.rampFaults
    split
    · exact List.not_mem_nil
    · exact misplaced_not_mem_writingFaults _
  · intro hm
    obtain ⟨d, hd, hm⟩ := List.mem_flatMap.mp hm
    exact misplaced_not_mem_dataSetFaults (regularSets_iff.mp h.allDataSets d hd) hm

end LoadPlan.Jmx

namespace LoadPlan.Scenario

/-- Whatever is read before and wherever a plan is then made, all that is collected from a description has
its place, and no repetition is met where a step is expected. -/
theorem placed_of_description (disk : Storage.Disk) (settings : Settings) (root : Description.Node)
    (log : Log) :
    Placed ((ofDescription disk settings root).run log).1 ∧
      ∀ disk' settings' source ds,
        Build.assemble disk' settings' source ((ofDescription disk settings root).run log).1 ds ≠
          .error .misplacedRepetition := by
  have hplaced : Placed ((ofDescription disk settings root).run log).1 :=
    (ofDocument_placed _ _ root log).1
  refine ⟨hplaced, fun disk' settings' source ds he => ?_⟩
  have hfirst := Jmx.assemble_eq_error_iff.mp he
  exact Jmx.misplaced_not_mem_planFaults hplaced.regular (List.mem_of_head? hfirst)

end LoadPlan.Scenario
