import Mathlib.Logic.Relation
import LoadPlan.Proofs.Jmx.Validity

/-! Which element trees are valid plans, whoever made them. -/
namespace LoadPlan.Markup.Element

/-- An element stands below another one, at any depth. -/
def Below : Element → Element → Prop :=
  Relation.TransGen fun x e => x ∈ e.children

/-- A child with a tag and a value of its name attribute, and none of those before it is such a child. -/
def FirstProperty (e : Element) (tag name : String) (p : Element) : Prop :=
  ∃ before after, e.children = before ++ p :: after ∧ (p.tag = tag ∧ p.attribute? "name" = some name) ∧
    ∀ c ∈ before, ¬(c.tag = tag ∧ c.attribute? "name" = some name)

variable {x e p : Element} {es : List Element} {tag name : String}

mutual

theorem eq_or_below_of_mem_subtree : ∀ e : Element, x ∈ e.subtree → x = e ∨ Below x e
  | ⟨tag, attributes, text, children⟩, h => by
    rw [subtree, List.mem_cons] at h
    rcases h with rfl | h
    · exact .inl rfl
    · obtain ⟨c, hc, hx⟩ := exists_of_mem_subtrees children h
      have hchild : c ∈ (⟨tag, attributes, text, children⟩ : Element).children := hc
      rcases hx with rfl | hx
      · exact .inr (.single hchild)
      · exact .inr (hx.tail hchild)

theorem exists_of_mem_subtrees : ∀ es : List Element, x ∈ subtrees es → ∃ c ∈ es, x = c ∨ Below x c
  | [], h => by cases h
  | e :: es, h => by
    rw [subtrees, List.mem_append] at h
    rcases h with h | h
    · exact ⟨e, List.mem_cons_self, eq_or_below_of_mem_subtree e h⟩
    · obtain ⟨c, hc, hx⟩ := exists_of_mem_subtrees es h
      exact ⟨c, List.mem_cons_of_mem e hc, hx⟩

end

theorem mem_descendants_iff : x ∈ e.descendants ↔ Below x e := by
  constructor
  · intro h
    obtain ⟨c, hc, hx⟩ := exists_of_mem_subtrees e.children h
    rcases hx with rfl | hx
    · exact .single hc
    · exact hx.tail hc
  · intro h
    induction h with
    | single h => exact mem_subtrees.mpr ⟨x, h, by rw [subtree_eq]; exact List.mem_cons_self⟩
    | tail _ hc ih => exact mem_subtrees.mpr ⟨_, hc, by rw [subtree_eq]; exact List.mem_cons_of_mem _ ih⟩

theorem mem_descendantsTagged_iff : x ∈ e.descendantsTagged tag ↔ Below x e ∧ x.tag = tag := by
  rw [descendantsTagged, List.mem_filter, mem_descendants_iff, beq_iff_eq]

theorem mem_subtreeTagged_iff : x ∈ e.subtreeTagged tag ↔ (x = e ∨ Below x e) ∧ x.tag = tag := by
  rw [subtreeTagged, List.mem_filter, subtree_eq, List.mem_cons, mem_descendants_iff, beq_iff_eq]

theorem property?_eq_some_iff : e.property? tag name = some p ↔ FirstProperty e tag name p := by
  unfold property? FirstProperty
  rw [List.find?_eq_some_iff_append]
  simp only [Bool.and_eq_true, beq_iff_eq, Bool.not_eq_true', ← Bool.not_eq_true]
  constructor
  · rintro ⟨hp, before, after, hchildren, hbefore⟩
    exact ⟨before, after, hchildren, hp, hbefore⟩
  · rintro ⟨before, after, hchildren, hp, hbefore⟩
    exact ⟨hp, before, after, hchildren, hbefore⟩

end LoadPlan.Markup.Element

namespace LoadPlan.Jmx

open LoadPlan.Markup (Element)
open LoadPlan.Markup.Element (Below FirstProperty mem_descendants_iff mem_descendantsTagged_iff
  mem_subtreeTagged_iff property?_eq_some_iff)

/-- The schedule of a thread group is on. -/
def Scheduled (group : Element) : Prop :=
  ∃ p, FirstProperty group "boolProp" "ThreadGroup.scheduler" p ∧ p.text = "true"

/-- A property is there and holds some text. -/
def Filled (e : Element) (name : String) : Prop :=
  ∃ p, FirstProperty e "stringProp" name p ∧ p.text ≠ ""

/-- A thread group says how many threads it has, how fast they start and when they stop: by its schedule if
that is on, and after a number of loops if it is not. -/
structure Runnable (group : Element) : Prop where
  threads : ∃ p, FirstProperty group "stringProp" "ThreadGroup.num_threads" p ∧ ThreadsValid p.text
  rampTime : ∃ p ∈ group.children, p.tag = "stringProp" ∧ p.attribute? "name" = some "ThreadGroup.ramp_time"
  stops : (Scheduled group ∧ Filled group "ThreadGroup.duration") ∨
    ¬Scheduled group ∧ ∃ p, Below p group ∧ p.tag = "stringProp" ∧
      p.attribute? "name" = some "LoopController.loops"

/-- A sampler says what it sends and where to, the latter unless the plan has defaults for it. -/
structure Sendable (root sampler : Element) : Prop where
  path : Filled sampler "HTTPSampler.path"
  method : Filled sampler "HTTPSampler.method"
  domain : Filled sampler "HTTPSampler.domain" ∨
    ∃ c, Below c root ∧ c.tag = "ConfigTestElement" ∧ c.attribute? "testclass" = some "ConfigTestElement"

/-- A tree of elements is a plan that can be run. -/
structure Conforms (root : Element) : Prop where
  root_tag : root.tag = "jmeterTestPlan"
  plan : ∃ x, Below x root ∧ x.tag = "TestPlan"
  group : ∃ x, Below x root ∧ x.tag = "ThreadGroup"
  tree : ∃ x ∈ root.children, x.tag = treeTag
  paired : Paired root
  runnable : ∀ x, x = root ∨ Below x root → x.tag = "ThreadGroup" → Runnable x
  sampler : ∃ x, Below x root ∧ x.tag = "HTTPSamplerProxy"
  sendable : ∀ x, Below x root → x.tag = "HTTPSamplerProxy" → Sendable root x

variable {root group sampler e : Element}

theorem isEmpty_descendantsTagged {tag : String} :
    (root.descendantsTagged tag).isEmpty = false ↔ ∃ x, Below x root ∧ x.tag = tag := by
  rw [List.isEmpty_eq_false_iff_exists_mem]
  simp only [mem_descendantsTagged_iff]

theorem structureIssues_eq_nil_iff :
    Audit.structureIssues root = [] ↔ root.tag = "jmeterTestPlan" ∧ (∃ x, Below x root ∧ x.tag = "TestPlan") ∧
      (∃ x, Below x root ∧ x.tag = "ThreadGroup") ∧ ∃ x ∈ root.children, x.tag = treeTag := by
  unfold Audit.structureIssues
  rw [← isEmpty_descendantsTagged, ← isEmpty_descendantsTagged]
  by_cases hroot : root.tag = "jmeterTestPlan"
  · simp [hroot]
  · simp [hroot]

theorem isScheduled_iff : Audit.isScheduled group = true ↔ Scheduled group := by
  unfold Audit.isScheduled Scheduled
  simp only [Option.any_eq_true, beq_iff_eq, property?_eq_some_iff]

theorem isFilled_iff {name : String} : Audit.isFilled e name = true ↔ Filled e name := by
  unfold Audit.isFilled Filled
  simp only [Option.any_eq_true, property?_eq_some_iff, Bool.not_eq_true', String.isEmpty_eq_false_iff]

theorem hasLoops_iff :
    Audit.hasLoops group = true ↔ ∃ p, Below p group ∧ p.tag = "stringProp" ∧
      p.attribute? "name" = some "LoopController.loops" := by
  unfold Audit.hasLoops
  simp only [List.any_eq_true, mem_descendantsTagged_iff, beq_iff_eq, and_assoc]

theorem hasRequestDefaults_iff :
    Audit.hasRequestDefaults root = true ↔ ∃ c, Below c root ∧ c.tag = "ConfigTestElement" ∧
      c.attribute? "testclass" = some "ConfigTestElement" := by
  unfold Audit.hasRequestDefaults
  simp only [List.any_eq_true, mem_descendantsTagged_iff, beq_iff_eq, and_assoc]

theorem property?_isSome_iff {tag name : String} :
    (e.property? tag name).isSome = true ↔ ∃ p ∈ e.children, p.tag = tag ∧ p.attribute? "name" = some name := by
  unfold Element.property?
  simp only [List.find?_isSome, Bool.and_eq_true, beq_iff_eq]

theorem groupIssues_eq_nil_iff : Audit.groupIssues group = [] ↔ Runnable group := by
  have hthreads (name : String) : Audit.threadsIssue? name group = none ↔
      ∃ p, FirstProperty group "stringProp" "ThreadGroup.num_threads" p ∧ ThreadsValid p.text := by
    simp only [threadsIssue?_eq_none_iff_exists, property?_eq_some_iff]
  have hstops : (Audit.isScheduled group = true ∨ Audit.hasLoops group = true) ∧
      (Audit.isScheduled group = true → Audit.isFilled group "ThreadGroup.duration" = true) ↔
      Audit.isScheduled group = true ∧ Audit.isFilled group "ThreadGroup.duration" = true ∨
        ¬Audit.isScheduled group = true ∧ Audit.hasLoops group = true := by
    by_cases hs : Audit.isScheduled group = true
    · simp [hs]
    · simp [hs]
  have hissues : Audit.groupIssues group = [] ↔
      Audit.threadsIssue? ((group.attribute? "testname").getD "Thread Group") group = none ∧
        (group.property? "stringProp" "ThreadGroup.ramp_time").isSome = true ∧
        (Audit.isScheduled group = true ∨ Audit.hasLoops group = true) ∧
        (Audit.isScheduled group = true → Audit.isFilled group "ThreadGroup.duration" = true) := by
    simp only [Audit.groupIssues, List.append_eq_nil_iff, Option.toList_eq_nil_iff, ite_eq_left_iff, ite_eq_right_iff,
      List.cons_ne_nil, imp_false, not_not, not_and, Bool.or_eq_true, Bool.and_eq_true, Bool.not_eq_true',
      Bool.not_eq_false, Option.isSome_iff_ne_none, Option.isNone_iff_eq_none, and_assoc,
      ne_eq]
  rw [hissues, hthreads, hstops, property?_isSome_iff, isScheduled_iff, isFilled_iff, hasLoops_iff]
  constructor
  · rintro ⟨ht, hr, hs⟩
    exact ⟨ht, hr, hs⟩
  · exact fun h => ⟨h.threads, h.rampTime, h.stops⟩

theorem samplerIssues_eq_nil_iff_sendable {number : Nat} :
    Audit.samplerIssues root sampler number = [] ↔ Sendable root sampler := by
  rw [samplerIssues_eq_nil_iff_filled, isFilled_iff, isFilled_iff, isFilled_iff, hasRequestDefaults_iff]
  constructor
  · rintro ⟨hp, hm, hd⟩
    exact ⟨hp, hm, hd⟩
  · exact fun h => ⟨h.path, h.method, h.domain⟩

/-- The numbers of samplers are of no account here: they only go into messages. -/
theorem samplersIssues_eq_nil_iff :
    Audit.samplersIssues root = [] ↔ (∃ x, Below x root ∧ x.tag = "HTTPSamplerProxy") ∧
      ∀ x, Below x root → x.tag = "HTTPSamplerProxy" → Sendable root x := by
  have hmem (x : Element) : x ∈ root.descendantsTagged "HTTPSamplerProxy" ↔
      Below x root ∧ x.tag = "HTTPSamplerProxy" := mem_descendantsTagged_iff
  simp only [← and_imp, ← hmem]
  unfold Audit.samplersIssues
  cases root.descendantsTagged "HTTPSamplerProxy" with
  | nil => simp
  | cons s ss =>
    have hall : ∀ number, (((s :: ss).zipIdx number).flatMap fun x => Audit.samplerIssues root x.1 x.2) = [] ↔
        ∀ x ∈ s :: ss, Sendable root x := by
      generalize s :: ss = samplers
      induction samplers with
      | nil => simp
      | cons s ss ih =>
        intro number
        rw [List.zipIdx_cons, List.flatMap_cons, List.append_eq_nil_iff, samplerIssues_eq_nil_iff_sendable, ih,
          List.forall_mem_cons]
    have hsome : ∃ x, x ∈ s :: ss := ⟨s, List.mem_cons_self⟩
    exact (hall 1).trans (and_iff_right hsome).symm

/-- An element tree is valid just if it is a plan that can be run. -/
theorem valid_iff_conforms (root : Element) : (Audit.ofElement root).valid = true ↔ Conforms root := by
  have hgroups : ((root.subtreeTagged "ThreadGroup").flatMap Audit.groupIssues) = [] ↔
      ∀ x, x = root ∨ Below x root → x.tag = "ThreadGroup" → Runnable x := by
    simp only [List.flatMap_eq_nil_iff, mem_subtreeTagged_iff, groupIssues_eq_nil_iff, and_imp]
  have hvalid : (Audit.ofElement root).valid = true ↔ Audit.structureIssues root = [] ∧
      Audit.pairingIssues root = [] ∧ ((root.subtreeTagged "ThreadGroup").flatMap Audit.groupIssues) = [] ∧
        Audit.samplersIssues root = [] := by
    simp [Audit.valid, Audit.ofElement, Audit.issuesOf]
  rw [hvalid, structureIssues_eq_nil_iff, pairingIssues_eq_nil_iff, hgroups, samplersIssues_eq_nil_iff]
  constructor
  · rintro ⟨⟨hroot, hplan, hgroup, htree⟩, hpaired, hrunnable, hsampler, hsendable⟩
    exact ⟨hroot, hplan, hgroup, htree, hpaired, hrunnable, hsampler, hsendable⟩
  · intro h
    exact ⟨⟨h.root_tag, h.plan, h.group, h.tree⟩, h.paired, h.runnable, h.sampler, h.sendable⟩

end LoadPlan.Jmx
