import LoadPlan.Jmx.Audit
import LoadPlan.Proofs.Jmx.Pairing
import LoadPlan.Proofs.Scenario.Requests

/-! When an assembled plan is valid. Its form is always right, so all depends on its requests and on the
number of threads. -/
namespace LoadPlan.Scenario

/-- The three fields that a request cannot do without. -/
def Request.Complete (r : Request) : Prop :=
  r.path ≠ "" ∧ r.method ≠ "" ∧ r.domain ≠ ""

end LoadPlan.Scenario

namespace LoadPlan.Jmx

open LoadPlan.Markup (Element)
open LoadPlan.Markup.Element (subtrees subtree_eq)
open LoadPlan.Scenario
open Block (Proper tagged tagged_nil tagged_cons tagged_append tagged_flatMap tagged_of_proper)

/-! The samplers in blocks of steps are those of the requests. -/

theorem samplers_request (r : Request) : tagged "HTTPSamplerProxy" (Layout.ofRequest r) = [sampler r] := by
  have hp : tagged "HTTPSamplerProxy" (Layout.parts r) = [] :=
    tagged_of_proper (Layout.proper_parts r) (by simp [partTags])
  have ht : tagged "HTTPSamplerProxy" (r.timers.map Layout.ofTimer) = [] :=
    tagged_of_proper (Layout.proper_timers r.timers) (by simp [partTags])
  unfold Layout.ofRequest
  split
  · rw [tagged_cons, hp, tagged_nil]
    simp
  · rw [tagged_cons, ht, tagged_nil]
    simp

theorem samplers_requests (rs : List Request) :
    tagged "HTTPSamplerProxy" (rs.flatMap Layout.ofRequest) = rs.map sampler := by
  simp only [tagged_flatMap, samplers_request]
  exact (List.map_eq_flatMap).symm

theorem samplers_loop (l : Loop) :
    tagged "HTTPSamplerProxy" (Layout.ofLoop l) = l.tests.map sampler := by
  unfold Layout.ofLoop
  split
  · next h => rw [List.isEmpty_iff.mp h, tagged_nil, List.map_nil]
  · rw [tagged_cons, samplers_requests, tagged_nil]
    simp

mutual

theorem samplers_step : ∀ e : Entry,
    tagged "HTTPSamplerProxy" (Layout.ofStep e) = e.requests.map sampler
  | .timer t => tagged_of_proper (Layout.proper_timers [t]) (by simp [partTags])
  | .request r => samplers_request r
  | .loop l => samplers_loop l
  | .controller c => samplers_controller c
  | .repeated _ => rfl

theorem samplers_controller : ∀ c : Controller,
    tagged "HTTPSamplerProxy" [Layout.ofController c] = c.requests.map sampler
  | ⟨name, share, stack, _, _, _⟩ => by
    rw [Layout.ofController, tagged_cons, tagged_cons, samplers_steps stack, tagged_nil]
    simp [Controller.requests]

theorem samplers_steps : ∀ es : List Entry,
    tagged "HTTPSamplerProxy" (Layout.ofSteps es) = (requestsOf es).map sampler
  | [] => rfl
  | e :: es => by
    rw [Layout.ofSteps, tagged_append, samplers_step e, samplers_steps es, requestsOf, List.map_append]

end

variable (w : Workshop)

theorem samplers_groups (name : String) (number : Nat) (bss : List (List Block)) :
    tagged "HTTPSamplerProxy" (Layout.groups w name number bss) =
      bss.flatMap (tagged "HTTPSamplerProxy") := by
  induction bss generalizing number with
  | nil => rfl
  | cons bs bss ih =>
    rw [Layout.groups_cons, Layout.ofGroup, tagged_cons, tagged_cons, tagged_nil, ih]
    simp

/-- Steps that come to nothing have no samplers, so it does not matter that they have no group. -/
theorem samplers_insides (es : List Entry) :
    (Layout.insides es).flatMap (tagged "HTTPSamplerProxy") = (requestsOf es).map sampler := by
  induction es with
  | nil => rfl
  | cons e es ih =>
    rw [← List.singleton_append, Layout.insides_append, List.flatMap_append, ih]
    have he := samplers_step e
    simp only [List.singleton_append, requestsOf, List.map_append]
    -- What is left is one step: it has a group, or there is nothing in it.
    congr 1
    unfold Layout.insides
    cases h : (Layout.ofStep e).isEmpty with
    | true =>
      rw [← he, List.isEmpty_iff.mp h]
      simp [h, tagged_nil]
    | false => simp [h, he]

theorem samplers_dataSets (number : Nat) (ds : List DataSet) :
    tagged "HTTPSamplerProxy" (Layout.ofDataSets w number ds) =
      (ds.flatMap fun d => requestsOf (d.running w.disk)).map sampler := by
  induction ds generalizing number with
  | nil => rfl
  | cons d ds ih =>
    rw [Layout.ofDataSets, tagged_append, ih, Layout.ofDataSet, tagged_cons, samplers_groups,
      samplers_insides, tagged_nil]
    simp

theorem samplers_content (s : Scenario) (number : Nat) :
    tagged "HTTPSamplerProxy" (Layout.content w s number) = (s.requests w.disk).map sampler := by
  rw [Layout.content, Layout.ofCollector, tagged_cons, tagged_cons, tagged_cons, samplers_steps,
    samplers_dataSets, tagged_nil]
  simp [Scenario.requests]

/-- What a plan holds with the tag of a component, outside of other components. -/
theorem descendantsTagged_root (s : Scenario) (number : Nat) {tag : String} (ht : tag ∉ propertyTags)
    (htree : tag ≠ treeTag) : (Layout.root w s number).descendantsTagged tag =
      tagged tag [⟨testPlan s.info.planName.value, Layout.content w s number⟩] := by
  have hb : (treeTag == tag) = false := beq_false_of_ne htree.symm
  have hp := Block.filter_subtrees_elementsOf ht htree _ (Layout.proper_plan w s number)
  rw [← hp, Element.descendantsTagged, Element.descendants, Layout.root, subtrees, subtrees,
    List.append_nil, Block.tree, Jmx.tree, Element.subtree, List.filter_cons, hb]
  rfl

/-- Nor is the root of a plan a component. -/
theorem subtreeTagged_root (s : Scenario) (number : Nat) {tag : String} (ht : tag ∈ componentTags) :
    (Layout.root w s number).subtreeTagged tag =
      tagged tag [⟨testPlan s.info.planName.value, Layout.content w s number⟩] := by
  obtain ⟨hp, htree⟩ := not_property_of_component tag ht
  have hroot : ((Layout.root w s number).tag == tag) = false := by
    have hno : "jmeterTestPlan" ∉ componentTags := by decide
    apply beq_false_of_ne
    rintro rfl
    exact hno ht
  rw [← descendantsTagged_root w s number hp htree, Element.subtreeTagged, subtree_eq, List.filter_cons,
    hroot]
  rfl

theorem samplers_root (s : Scenario) (number : Nat) :
    (Layout.root w s number).descendantsTagged "HTTPSamplerProxy" = (s.requests w.disk).map sampler := by
  rw [descendantsTagged_root w s number (by decide) (by decide), tagged_cons, samplers_content,
    tagged_nil]
  simp

/-! Thread groups. -/

theorem threadGroups_groups (name : String) (number : Nat) {bss : List (List Block)}
    (h : ∀ bs ∈ bss, Proper stepTags bs) {g : Element}
    (hg : g ∈ tagged "ThreadGroup" (Layout.groups w name number bss)) :
    ∃ title, g = threadGroup w.settings.onSampleError title "1"
      (Number.Integer.text w.settings.rampTime) := by
  induction bss generalizing number with
  | nil => cases hg
  | cons bs bss ih =>
    obtain ⟨hb, hs⟩ := List.forall_mem_cons.mp h
    have hn : tagged "ThreadGroup" bs = [] := tagged_of_proper hb (by simp [stepTags, partTags])
    rw [Layout.groups_cons, Layout.ofGroup, tagged_cons, tagged_cons, hn, tagged_nil] at hg
    simp only [tag_threadGroup, tag_cookieManager, beq_self_eq_true, if_true, String.reduceBEq,
      Bool.false_eq_true, if_false, List.nil_append, List.singleton_append, List.mem_cons] at hg
    rcases hg with rfl | hg
    · exact ⟨_, rfl⟩
    · exact ih _ hs hg

theorem threadGroups_dataSets (number : Nat) (ds : List DataSet) {g : Element}
    (hg : g ∈ tagged "ThreadGroup" (Layout.ofDataSets w number ds)) :
    ∃ title, g = threadGroup w.settings.onSampleError title "1"
      (Number.Integer.text w.settings.rampTime) := by
  induction ds generalizing number with
  | nil => cases hg
  | cons d ds ih =>
    rw [Layout.ofDataSets, tagged_append, List.mem_append] at hg
    rcases hg with hg | hg
    · rw [Layout.ofDataSet, tagged_cons, tagged_nil] at hg
      exact threadGroups_groups w _ _ Layout.proper_insides (by simpa using hg)
    · exact ih _ hg

/-- The main thread group comes first. -/
theorem threadGroups_root (s : Scenario) (number : Nat) :
    (Layout.root w s number).descendantsTagged "ThreadGroup" =
      threadGroup w.settings.onSampleError (Workshop.groupName number s.info.planName.value)
        s.info.threads.value (Layout.rampTime w s) ::
      tagged "ThreadGroup" (Layout.ofDataSets w (number + 1) s.allDataSets) := by
  have hs : tagged "ThreadGroup" (Layout.ofSteps s.stack) = [] :=
    tagged_of_proper (Layout.proper_steps s.stack) (by simp [stepTags, partTags])
  rw [descendantsTagged_root w s number (by decide) (by decide), tagged_cons, Layout.content,
    Layout.ofCollector, tagged_cons, tagged_cons, tagged_cons, hs, tagged_nil]
  simp

/-! What each of the checks finds in a plan. -/

theorem structureIssues_root (s : Scenario) (number : Nat) :
    Audit.structureIssues (Layout.root w s number) = [] := by
  have hr : (Layout.root w s number).tag = "jmeterTestPlan" := rfl
  have ht : (Layout.root w s number).children.any (·.tag == treeTag) = true := rfl
  have hp : ((Layout.root w s number).descendantsTagged "TestPlan").isEmpty = false := by
    rw [descendantsTagged_root w s number (by decide) (by decide), tagged_cons]
    rfl
  have hg : ((Layout.root w s number).descendantsTagged "ThreadGroup").isEmpty = false := by
    rw [threadGroups_root]
    rfl
  unfold Audit.structureIssues
  rw [hr, ht, hp, hg]
  rfl

/-- The check of pairs finds nothing just where elements and trees stand by turns. -/
theorem pairingIssue?_eq_none_iff : ∀ es : List Element, Audit.pairingIssue? es = none ↔ Alternates es
  | [] => by simp [Audit.pairingIssue?, alternates_nil]
  | [e] => by
    have ha : ¬Alternates [e] := fun h => absurd h.1 (by simp)
    unfold Audit.pairingIssue?
    split
    · simp [ha]
    · simp [ha]
  | e :: t :: es => by
    have ih := pairingIssue?_eq_none_iff es
    rw [alternates_cons_cons, ← ih, Audit.pairingIssue?]
    by_cases he : e.tag = treeTag
    · simp [he]
    · by_cases ht : t.tag = treeTag
      · simp [he, ht]
      · simp [he, ht]

theorem pairingIssues_eq_nil_iff (root : Element) : Audit.pairingIssues root = [] ↔ Paired root := by
  unfold Audit.pairingIssues Paired
  rw [List.filterMap_eq_nil_iff]
  constructor
  · intro h t ht htag
    exact (pairingIssue?_eq_none_iff _).mp (h t (List.mem_filter.mpr ⟨ht, beq_iff_eq.mpr htag⟩))
  · intro h t ht
    obtain ⟨ht, htag⟩ := List.mem_filter.mp ht
    exact (pairingIssue?_eq_none_iff _).mpr (h t ht (beq_iff_eq.mp htag))

/-- A number of threads is left to a variable, or is positive. -/
def ThreadsValid (text : String) : Prop :=
  "$\x7b".toList <+: text.toList ∨ ∃ n, Number.Integer.read? text = some n ∧ 0 < n

theorem num_threads (onSampleError title threads rampTime : String) :
    (threadGroup onSampleError title threads rampTime).property? "stringProp" "ThreadGroup.num_threads" =
      some (stringProp "ThreadGroup.num_threads" threads) := rfl

/-- The number of threads is all right just if there is one. -/
theorem threadsIssue?_eq_none_iff_exists {name : String} {group : Element} :
    Audit.threadsIssue? name group = none ↔
      ∃ p, group.property? "stringProp" "ThreadGroup.num_threads" = some p ∧ ThreadsValid p.text := by
  unfold Audit.threadsIssue? ThreadsValid
  cases group.property? "stringProp" "ThreadGroup.num_threads" with
  | none => simp
  | some p =>
    simp only [Option.some.injEq, exists_eq_left']
    rw [← List.isPrefixOf_iff_prefix]
    -- The mark of a variable settles it; an empty text counts as zero in the check, and reads as no number.
    generalize "$\x7b".toList.isPrefixOf p.text.toList = marked
    cases marked with
    | true => simp
    | false =>
      simp only [Bool.false_eq_true, if_false, false_or]
      by_cases he : p.text.isEmpty = true
      · have h0 : Number.Integer.read? "0" = some 0 := by decide
        have hn : Number.Integer.read? "" = none := by decide
        rw [if_pos he, h0, String.isEmpty_iff.mp he, hn]
        simp
      · rw [if_neg he]
        cases Number.Integer.read? p.text with
        | none => simp
        | some n =>
          by_cases hn : 0 < n
          · simp [hn]
          · simp [hn]

theorem threadsIssue?_eq_none_iff (onSampleError title threads rampTime name : String) :
    Audit.threadsIssue? name (threadGroup onSampleError title threads rampTime) = none ↔
      ThreadsValid threads := by
  rw [threadsIssue?_eq_none_iff_exists, num_threads]
  simp [stringProp, leaf]

/-- A thread group of a plan has all but perhaps a good number of threads. -/
theorem groupIssues_threadGroup (onSampleError title threads rampTime : String) :
    Audit.groupIssues (threadGroup onSampleError title threads rampTime) =
      (Audit.threadsIssue? title (threadGroup onSampleError title threads rampTime)).toList := by
  have hs : Audit.isScheduled (threadGroup onSampleError title threads rampTime) = false := rfl
  have hl : Audit.hasLoops (threadGroup onSampleError title threads rampTime) = true := rfl
  have hr : ((threadGroup onSampleError title threads rampTime).property? "stringProp"
      "ThreadGroup.ramp_time").isNone = false := rfl
  have hn : (threadGroup onSampleError title threads rampTime).attribute? "testname" = some title := rfl
  unfold Audit.groupIssues
  simp [hs, hl, hr, hn]

theorem hasRequestDefaults_root (s : Scenario) (number : Nat) :
    Audit.hasRequestDefaults (Layout.root w s number) = false := by
  have hp := Layout.proper_plan w s number
  unfold Audit.hasRequestDefaults
  rw [descendantsTagged_root w s number (by decide) (by decide), tagged_of_proper hp (by decide)]
  rfl

theorem isFilled_sampler (r : Request) :
    Audit.isFilled (sampler r) "HTTPSampler.path" = !r.path.isEmpty ∧
    Audit.isFilled (sampler r) "HTTPSampler.method" = !r.method.isEmpty ∧
    Audit.isFilled (sampler r) "HTTPSampler.domain" = !r.domain.isEmpty := by
  unfold Audit.isFilled Element.property? sampler component
  cases r.upload with
  | none => exact ⟨rfl, rfl, rfl⟩
  | some u => exact ⟨rfl, rfl, rfl⟩

/-- A sampler needs a path, a method and a domain, the last one unless there are defaults. -/
theorem samplerIssues_eq_nil_iff_filled {root sampler : Element} {number : Nat} :
    Audit.samplerIssues root sampler number = [] ↔
      Audit.isFilled sampler "HTTPSampler.path" = true ∧ Audit.isFilled sampler "HTTPSampler.method" = true ∧
        (Audit.isFilled sampler "HTTPSampler.domain" = true ∨ Audit.hasRequestDefaults root = true) := by
  simp only [Audit.samplerIssues, List.append_eq_nil_iff, ite_eq_left_iff, List.cons_ne_nil, imp_false, not_not,
    Bool.or_eq_true, and_assoc]

theorem samplerIssues_eq_nil_iff {root : Element} (h : Audit.hasRequestDefaults root = false)
    (r : Request) (number : Nat) :
    Audit.samplerIssues root (sampler r) number = [] ↔ r.Complete := by
  obtain ⟨hp, hm, hd⟩ := isFilled_sampler r
  rw [samplerIssues_eq_nil_iff_filled, h, hp, hm, hd]
  simp [Request.Complete]

theorem samplerIssues_all_eq_nil_iff {root : Element} (h : Audit.hasRequestDefaults root = false)
    (rs : List Request) (number : Nat) :
    (((rs.map sampler).zipIdx number).flatMap fun s => Audit.samplerIssues root s.1 s.2) = [] ↔
      ∀ r ∈ rs, r.Complete := by
  induction rs generalizing number with
  | nil => simp
  | cons r rs ih =>
    rw [List.map_cons, List.zipIdx_cons, List.flatMap_cons, List.append_eq_nil_iff,
      samplerIssues_eq_nil_iff h, ih, List.forall_mem_cons]

theorem samplersIssues_root_eq_nil_iff (s : Scenario) (number : Nat) :
    Audit.samplersIssues (Layout.root w s number) = [] ↔
      s.requests w.disk ≠ [] ∧ ∀ r ∈ s.requests w.disk, r.Complete := by
  unfold Audit.samplersIssues
  rw [samplers_root]
  have hall := samplerIssues_all_eq_nil_iff (hasRequestDefaults_root w s number) (s.requests w.disk) 1
  cases hr : s.requests w.disk with
  | nil => simp
  | cons r rs =>
    rw [hr] at hall
    simpa using hall

/-- All that is wrong with a plan is its number of threads, or lies in its samplers. -/
theorem issuesOf_root (s : Scenario) (number : Nat) :
    Audit.issuesOf (Layout.root w s number) =
      (Audit.threadsIssue? (Workshop.groupName number s.info.planName.value)
        (threadGroup w.settings.onSampleError (Workshop.groupName number s.info.planName.value)
          s.info.threads.value (Layout.rampTime w s))).toList ++
      Audit.samplersIssues (Layout.root w s number) := by
  have hp := (pairingIssues_eq_nil_iff _).mpr (paired_root w s number)
  have hone : ThreadsValid "1" := .inr ⟨1, by decide, by decide⟩
  -- The groups of data sets always have one thread.
  have hd : (tagged "ThreadGroup" (Layout.ofDataSets w (number + 1) s.allDataSets)).flatMap
      Audit.groupIssues = [] := by
    rw [List.flatMap_eq_nil_iff]
    intro g hg
    obtain ⟨title, rfl⟩ := threadGroups_dataSets w _ _ hg
    rw [groupIssues_threadGroup, (threadsIssue?_eq_none_iff _ _ _ _ _).mpr hone, Option.toList_none]
  have hr : (Layout.root w s number).tag = "jmeterTestPlan" := rfl
  have hg := threadGroups_root w s number
  rw [Element.descendantsTagged] at hg
  rw [Audit.issuesOf, structureIssues_root, hp, Element.subtreeTagged, subtree_eq, List.filter_cons, hr,
    hg]
  simp [hd, groupIssues_threadGroup]

/-- What concerns the form of a plan rather than the values in it. -/
def Issue.concernsForm : Issue → Bool
  | .wrongRoot | .noTestPlan | .noThreadGroup | .noMainTree => true
  | .strayTree | .unpaired _ _ => true
  | .noThreads _ | .noRampTime _ | .noEnd _ | .noDuration _ => true
  | _ => false

theorem threadsIssue?_concerns {onSampleError title threads rampTime name : String} {i : Issue}
    (h : Audit.threadsIssue? name (threadGroup onSampleError title threads rampTime) = some i) :
    i.concernsForm = false := by
  unfold Audit.threadsIssue? at h
  rw [num_threads] at h
  simp only at h
  split at h
  · cases h
  · split at h
    · split at h
      · cases h
      · cases h
        rfl
    · cases h
      rfl

theorem samplerIssues_concern {root e : Element} {number : Nat} {i : Issue}
    (h : i ∈ Audit.samplerIssues root e number) : i.concernsForm = false := by
  simp only [Audit.samplerIssues, List.mem_append, List.mem_ite_nil_left, List.mem_singleton] at h
  rcases h with (⟨-, rfl⟩ | ⟨-, rfl⟩) | ⟨-, rfl⟩ <;> rfl

theorem samplersIssues_concern {root : Element} {i : Issue} (h : i ∈ Audit.samplersIssues root) :
    i.concernsForm = false := by
  unfold Audit.samplersIssues at h
  split at h
  · rw [List.mem_singleton.mp h]
    rfl
  · obtain ⟨s, -, h⟩ := List.mem_flatMap.mp h
    exact samplerIssues_concern h

variable {disk : Storage.Disk} {settings : Settings} {source : String} {s : Scenario}
  {diagnostics : List Diagnostic} {d : Build.Draft}

/-- A plan is valid if it has samplers, their requests are complete and the number of threads is good.
Nothing is ever wrong with its form. -/
theorem valid_assembled_iff (h : Build.assemble disk settings source s diagnostics = .ok d) :
    ((Audit.ofElement d.root).valid = true ↔
      s.requests disk ≠ [] ∧ (∀ r ∈ s.requests disk, r.Complete) ∧
        ThreadsValid (Fields.getD s.info "numthreads" "1")) ∧
    d.root.descendantsTagged "HTTPSamplerProxy" = (s.requests disk).map sampler ∧
    ∀ i ∈ (Audit.ofElement d.root).issues, i.concernsForm = false := by
  obtain ⟨-, rfl⟩ := assemble_eq_ok_iff.mp h
  refine ⟨?_, samplers_root _ s 0, fun i hi => ?_⟩
  · have hs := samplersIssues_root_eq_nil_iff ⟨disk, settings, source⟩ s 0
    have ht := threadsIssue?_eq_none_iff settings.onSampleError
      (Workshop.groupName 0 s.info.planName.value) (Fields.getD s.info "numthreads" "1")
      (Layout.rampTime ⟨disk, settings, source⟩ s) (Workshop.groupName 0 s.info.planName.value)
    have hv : (Audit.ofElement (Layout.root ⟨disk, settings, source⟩ s 0)).valid = true ↔
        ThreadsValid (Fields.getD s.info "numthreads" "1") ∧
          s.requests disk ≠ [] ∧ ∀ r ∈ s.requests disk, r.Complete := by
      unfold Audit.valid Audit.ofElement
      rw [List.isEmpty_iff, issuesOf_root, List.append_eq_nil_iff, hs, Option.toList_eq_nil_iff, ← ht]
      rfl
    rw [hv, and_comm, and_assoc]
  · change i ∈ Audit.issuesOf _ at hi
    rw [issuesOf_root, List.mem_append, Option.mem_toList] at hi
    rcases hi with hi | hi
    · exact threadsIssue?_concerns hi
    · exact samplersIssues_concern hi

theorem requests_nestedScenario :
    nestedScenario.requests usersDisk = List.replicate 6 fullRequest := by
  have hd : nestedScenario.allDataSets = [usersDataSet] := rfl
  rw [Scenario.requests, hd, List.flatMap_singleton, running_usersDataSet]
  rfl

theorem valid_assembled_nestedScenario :
    ∃ d, Build.assemble usersDisk .standard "main.xml" nestedScenario [] = .ok d ∧
      (Audit.ofElement d.root).valid = true := by
  obtain ⟨d, hd⟩ := exists_plan_nestedScenario
  refine ⟨d, hd, (valid_assembled_iff hd).1.mpr ⟨?_, ?_, .inr ⟨5, by decide, by decide⟩⟩⟩
  · rw [requests_nestedScenario]
    simp
  · rw [requests_nestedScenario]
    intro r hr
    rw [List.eq_of_mem_replicate hr]
    exact ⟨by decide, by decide, by decide⟩

end LoadPlan.Jmx
