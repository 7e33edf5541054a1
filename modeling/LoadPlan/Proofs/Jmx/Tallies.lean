import LoadPlan.Proofs.Jmx.Validity

/-! The counts that are reported are those of the elements that are given out. This holds after any calls,
and of whole plans. -/
namespace LoadPlan.Jmx

open LoadPlan.Markup (Element)
open LoadPlan.Markup.Element (subtrees subtree_eq subtrees_append)
open LoadPlan.Scenario
open Block (elementsOf componentsOf components componentsOf_append Proper tagged)

/-- Something that a workshop can be called on to make. -/
inductive Call
  | order (o : Order)
  /-- A thread group by itself, without a tree. -/
  | threadGroup (name threads rampTime : String)

/-- The elements that a call is given. -/
def Call.passed : Call → Fragment
  | .order o => o.passed
  | .threadGroup .. => []

namespace Workshop

variable (w : Workshop)

/-- The elements that a call gives out. -/
def answer : Call → Generating Fragment
  | .order o => w.fragment o
  | .threadGroup name threads rampTime => return [← w.threadGroupElement name threads rampTime]

/-- What each of some calls gives out, up to the first that fails. -/
def answers (calls : List Call) : Generating (List Fragment) :=
  calls.mapM w.answer

end Workshop

/-! A controller is always two components, one for each of its kinds. -/

/-- There are as many components of one kind of controller as of the other. -/
def Coupled (bs : List Block) : Prop :=
  (componentsOf bs).countP (·.tag == "GenericController") =
    (componentsOf bs).countP (·.tag == "ThroughputController")

theorem coupled_nil : Coupled [] := rfl

theorem coupled_append {a b : List Block} (ha : Coupled a) (hb : Coupled b) : Coupled (a ++ b) := by
  unfold Coupled at *
  rw [componentsOf_append, List.countP_append, List.countP_append, ha, hb]

theorem coupled_cons {e : Element} {inside bs : List Block} (hg : e.tag ≠ "GenericController")
    (ht : e.tag ≠ "ThroughputController") (hi : Coupled inside) (hb : Coupled bs) :
    Coupled (⟨e, inside⟩ :: bs) := by
  have hcg : (e.tag == "GenericController") = false := beq_false_of_ne hg
  have hct : (e.tag == "ThroughputController") = false := beq_false_of_ne ht
  have h := coupled_append hi hb
  unfold Coupled at *
  rw [componentsOf, components, List.cons_append, ← componentsOf_append, List.countP_cons,
    List.countP_cons, hcg, hct, h]

theorem coupled_flatMap {α : Type} {f : α → List Block} (h : ∀ x, Coupled (f x)) (xs : List α) :
    Coupled (xs.flatMap f) := by
  induction xs with
  | nil => exact coupled_nil
  | cons x xs ih =>
    rw [List.flatMap_cons]
    exact coupled_append (h x) ih

/-- There are no controllers among what goes with a sampler. -/
theorem coupled_of_parts {bs : List Block} (h : Proper partTags bs) : Coupled bs := by
  have hcount : ∀ tag ∉ partTags, (componentsOf bs).countP (·.tag == tag) = 0 := by
    intro tag htag
    have ht : tagged tag bs = [] := Block.tagged_of_proper h htag
    rw [List.countP_eq_length_filter]
    exact congrArg List.length ht
  unfold Coupled
  rw [hcount _ (by decide), hcount _ (by decide)]

theorem coupled_request (r : Request) : Coupled (Layout.ofRequest r) := by
  unfold Layout.ofRequest
  split
  · have hp := coupled_of_parts (Layout.proper_parts r)
    exact coupled_cons (by simp) (by simp) hp coupled_nil
  · have ht := coupled_of_parts (Layout.proper_timers r.timers)
    exact coupled_cons (by simp) (by simp) coupled_nil ht

theorem coupled_loop (l : Loop) : Coupled (Layout.ofLoop l) := by
  unfold Layout.ofLoop
  split
  · exact coupled_nil
  · have ht := coupled_flatMap coupled_request l.tests
    exact coupled_cons (by simp) (by simp) ht coupled_nil

mutual

theorem coupled_step : ∀ e : Entry, Coupled (Layout.ofStep e)
  | .timer t => coupled_of_parts (Layout.proper_timers [t])
  | .request r => coupled_request r
  | .loop l => coupled_loop l
  | .controller c => coupled_controller c
  | .repeated _ => coupled_nil

theorem coupled_controller : ∀ c : Controller, Coupled [Layout.ofController c]
  | ⟨name, share, stack, _, _, _⟩ => by
    have hs := coupled_steps stack
    unfold Coupled at *
    simp only [Layout.ofController, componentsOf, components, List.append_nil, List.countP_cons, hs]
    rfl

theorem coupled_steps : ∀ es : List Entry, Coupled (Layout.ofSteps es)
  | [] => coupled_nil
  | e :: es => coupled_append (coupled_step e) (coupled_steps es)

end

section

variable (w : Workshop)

theorem coupled_group {name : String} {number : Nat} {inside : List Block} (h : Coupled inside) :
    Coupled [Layout.ofGroup w name number inside] := by
  have hc : Coupled (⟨cookieManager, []⟩ :: inside) := coupled_cons (by simp) (by simp) coupled_nil h
  exact coupled_cons (by simp) (by simp) hc coupled_nil

theorem coupled_groups (name : String) (number : Nat) {bss : List (List Block)}
    (h : ∀ bs ∈ bss, Coupled bs) : Coupled (Layout.groups w name number bss) := by
  induction bss generalizing number with
  | nil => exact coupled_nil
  | cons bs bss ih =>
    obtain ⟨hb, hs⟩ := List.forall_mem_cons.mp h
    rw [Layout.groups_cons, ← List.singleton_append]
    exact coupled_append (coupled_group w hb) (ih _ hs)

theorem coupled_insides {es : List Entry} : ∀ bs ∈ Layout.insides es, Coupled bs := by
  intro bs hb
  obtain ⟨e, -, rfl⟩ := List.mem_map.mp (List.mem_filter.mp hb).1
  exact coupled_step e

theorem coupled_dataSet (number : Nat) (d : DataSet) : Coupled (Layout.ofDataSet w number d) := by
  have hi : ∀ bs ∈ Layout.insides (d.running w.disk), Coupled bs := coupled_insides
  have hg := coupled_groups w d.name number hi
  exact coupled_cons (by simp) (by simp) coupled_nil hg

theorem coupled_dataSets (number : Nat) (ds : List DataSet) :
    Coupled (Layout.ofDataSets w number ds) := by
  induction ds generalizing number with
  | nil => exact coupled_nil
  | cons d ds ih => exact coupled_append (coupled_dataSet w number d) (ih _)

theorem coupled_content (s : Scenario) (number : Nat) : Coupled (Layout.content w s number) := by
  have hc := coupled_of_parts (Layout.proper_collector s.info.assertType.value "Assertion Results"
    s.info.assertLog.value)
  have hs := coupled_steps s.stack
  have hm : Coupled (⟨cookieManager, []⟩ :: Layout.ofSteps s.stack) :=
    coupled_cons (by simp) (by simp) coupled_nil hs
  have hd := coupled_dataSets w (number + 1) s.allDataSets
  exact coupled_append hc (coupled_cons (by simp) (by simp) hm hd)

theorem coupled_order (number : Nat) (o : Order) : Coupled (Layout.ofOrder w number o) := by
  cases o with
  | group name inside => exact coupled_group w coupled_nil
  | dataSet d => exact coupled_dataSet w number d
  | repetition d items => exact coupled_groups w d.name number coupled_insides
  | cookieManager => exact coupled_cons (by simp) (by simp) coupled_nil coupled_nil
  | timer t => exact coupled_of_parts (Layout.proper_timers [t])
  | extractor e => exact coupled_of_parts (Layout.proper_extractors [e])
  | assertion a => exact coupled_of_parts (Layout.proper_assertion a)
  | results r => exact coupled_of_parts (Layout.proper_collector _ _ _)
  | assertionResults gui filename => exact coupled_of_parts (Layout.proper_collector _ _ _)
  | request r => exact coupled_request r
  | loop l => exact coupled_loop l
  | controller c => exact coupled_controller c
  | step e => exact coupled_step e

end

/-! What is given out consists of what is made, and counted, and of what was passed in. -/

/-- The elements of each kind are those that were made and those that were there already. -/
def Accounts (made passed given : List Element) : Prop :=
  ∀ tag ∈ componentTags, given.countP (·.tag == tag) =
    made.countP (·.tag == tag) + passed.countP (·.tag == tag)

theorem Counts.plus_eq_of_accounts {made passed given : List Element} (c : Counts)
    (h : Accounts made passed given) : c.plus given = (c.plus made).plus passed := by
  unfold Counts.plus
  rw [h "HTTPSamplerProxy" (by decide), h "GaussianRandomTimer" (by decide),
    h "ResponseAssertion" (by decide), h "RegexExtractor" (by decide), h "LoopController" (by decide),
    h "GenericController" (by decide), h "CSVDataSet" (by decide), h "ThreadGroup" (by decide),
    h "ResultCollector" (by decide)]
  simp only [Nat.add_assoc]

theorem Accounts.append {a b c a' b' c' : List Element} (h : Accounts a b c) (h' : Accounts a' b' c') :
    Accounts (a ++ a') (b ++ b') (c ++ c') := by
  intro tag ht
  have hc := h tag ht
  have hc' := h' tag ht
  simp only [List.countP_append]
  omega

theorem accounts_elementsOf {bs : List Block} (h : Proper componentTags bs) :
    Accounts (componentsOf bs) [] (subtrees (elementsOf bs)) := by
  intro tag ht
  obtain ⟨hp, htree⟩ := not_property_of_component tag ht
  have hf := Block.filter_subtrees_elementsOf hp htree bs h
  rw [List.countP_eq_length_filter, hf, tagged, ← List.countP_eq_length_filter]
  rfl

/-- Elements put at the end of a tree come on top of those that are in it. -/
theorem accounts_fill {e : Element} {inside : List Block} (more : Fragment)
    (h : Proper componentTags [⟨e, inside⟩]) :
    Accounts (componentsOf [⟨e, inside⟩]) (subtrees more)
      (subtrees (Fragment.fill (elementsOf [⟨e, inside⟩]) more)) := by
  intro tag ht
  have hb := accounts_elementsOf h tag ht
  have htree := beq_false_of_ne (not_property_of_component tag ht).2.symm
  simp only [elementsOf, Block.elements, Fragment.fill, Jmx.tree, List.append_nil, subtrees, Element.subtree,
    subtrees_append, List.countP_append, List.countP_cons, List.countP_nil, htree] at hb ⊢
  omega

theorem accounts_order (w : Workshop) (number : Nat) (o : Order) :
    Accounts (componentsOf (Layout.ofOrder w number o)) (subtrees o.passed)
      (subtrees (Layout.fragmentOf w number o)) := by
  have hp := Layout.proper_order w number o
  cases o with
  | group name inside => exact accounts_fill inside hp
  | _ =>
    simp only [Layout.fragmentOf, Order.passed, Fragment.fill_nil]
    exact accounts_elementsOf hp

theorem accounts_component {e : Element} (h : IsComponent componentTags e) :
    Accounts [e] [] (subtrees [e]) := by
  intro tag ht
  have hp := (not_property_of_component tag ht).1
  have hd : e.descendants.countP (·.tag == tag) = 0 := by
    rw [List.countP_eq_length_filter, Block.filter_descendants h hp]
    rfl
  rw [subtrees, subtrees, List.append_nil, subtree_eq, List.countP_cons, List.countP_cons, hd]
  rfl

/-! Calls, one after the other. -/

/-- From one moment to another some components are made and counted. What is given out meanwhile consists
of them and of what is passed in. -/
def Tallied (p q : Progress) (passed given : List Element) : Prop :=
  ∃ made, q.counts = p.counts.plus made ∧ Accounts made passed given ∧
    made.countP (·.tag == "GenericController") = made.countP (·.tag == "ThroughputController")

variable {w : Workshop} {p q r : Progress}

theorem Tallied.refl (p : Progress) : Tallied p p [] [] :=
  ⟨[], by simp [Counts.plus], fun _ _ => rfl, rfl⟩

theorem Tallied.trans {a b c d : List Element} (h : Tallied p q a b) (h' : Tallied q r c d) :
    Tallied p r (a ++ c) (b ++ d) := by
  obtain ⟨made, hq, ha, hc⟩ := h
  obtain ⟨made', hr, ha', hc'⟩ := h'
  refine ⟨made ++ made', ?_, ha.append ha', ?_⟩
  · rw [hr, hq, Counts.plus_append]
  · rw [List.countP_append, List.countP_append, hc, hc']

/-- Starting from nothing, the counts are those of all that is given out, less what was passed in. -/
theorem Tallied.of_zero {passed given : List Element} (h : Tallied p q passed given)
    (hp : p.counts = .zero) :
    Counts.zero.plus given = q.counts.plus passed ∧
      given.countP (·.tag == "GenericController") + passed.countP (·.tag == "ThroughputController") =
        given.countP (·.tag == "ThroughputController") + passed.countP (·.tag == "GenericController") := by
  obtain ⟨made, hq, ha, hc⟩ := h
  have hg := ha "GenericController" (by decide)
  have ht := ha "ThroughputController" (by decide)
  constructor
  · rw [Counts.plus_eq_of_accounts _ ha, hq, hp]
  · omega

theorem tallied_order {o : Order} {f : Fragment} (h : (w.fragment o).run p = (.ok f, q)) :
    Tallied p q (subtrees o.passed) (subtrees f) := by
  obtain ⟨-, rfl, rfl⟩ := (Workshop.fragment_gives w o p).ok_iff.mp h
  exact ⟨_, rfl, accounts_order w p.nextGroup o, coupled_order w p.nextGroup o⟩

theorem tallied_threadGroup {name threads rampTime : String} {es : List Element}
    (h : (w.answer (.threadGroup name threads rampTime)).run p = (.ok es, q)) :
    Tallied p q [] (subtrees es) := by
  have hc := isComponent_threadGroup w.settings.onSampleError name threads rampTime
  cases h
  refine ⟨_, ?_, accounts_component hc, rfl⟩
  simp [Counts.plus]

/-- One call. -/
theorem tallied_answer {c : Call} {f : Fragment} (h : (w.answer c).run p = (.ok f, q)) :
    Tallied p q (subtrees c.passed) (subtrees f) := by
  cases c with
  | order o => exact tallied_order h
  | threadGroup name threads rampTime => exact tallied_threadGroup h

/-- Any number of calls. -/
theorem tallied_answers {calls : List Call} {returned : List Fragment}
    (h : (w.answers calls).run p = (.ok returned, q)) :
    Tallied p q (subtrees (calls.flatMap Call.passed)) (subtrees returned.flatten) := by
  induction calls generalizing p returned with
  | nil =>
    cases h
    exact .refl _
  | cons c cs ih =>
    unfold Workshop.answers at h ih
    rw [List.mapM_cons] at h
    obtain ⟨es, p', hc, h⟩ := run_bind_eq_ok.mp h
    obtain ⟨ess, q', hcs, h⟩ := run_bind_eq_ok.mp h
    cases h
    rw [List.flatMap_cons, List.flatten_cons, subtrees_append, subtrees_append]
    exact (tallied_answer hc).trans (ih hcs)

/-! Whole plans. -/

theorem accounts_root (w : Workshop) (s : Scenario) (number : Nat) :
    Accounts (componentsOf [⟨testPlan s.info.planName.value, Layout.content w s number⟩]) []
      (Layout.root w s number).subtree := by
  intro tag ht
  have hs := subtreeTagged_root w s number ht
  rw [Element.subtreeTagged, tagged] at hs
  rw [List.countP_eq_length_filter, hs, ← List.countP_eq_length_filter]
  rfl

theorem coupled_plan (w : Workshop) (s : Scenario) (number : Nat) :
    Coupled [⟨testPlan s.info.planName.value, Layout.content w s number⟩] :=
  coupled_cons (by simp) (by simp) (coupled_content w s number) coupled_nil

/-- The test plan itself is not counted. -/
theorem Counts.plus_plan (c : Counts) (name : String) (bs : List Block) :
    c.plus (componentsOf [⟨testPlan name, bs⟩]) = c.plus (componentsOf bs) := by
  simp [componentsOf, components, Counts.plus]

theorem tallied_plan {disk : Storage.Disk} {settings : Settings} {source : String} {s : Scenario}
    {diagnostics : List Diagnostic} {d : Build.Draft}
    (h : Build.assemble disk settings source s diagnostics = .ok d) :
    Tallied ⟨0, .zero, diagnostics⟩ ⟨d.groups, d.counts, d.diagnostics⟩ [] d.root.subtree := by
  obtain ⟨-, rfl⟩ := assemble_eq_ok_iff.mp h
  exact ⟨_, (Counts.plus_plan _ _ _).symm, accounts_root _ s 0, coupled_plan _ s 0⟩

/-- After any calls that all succeed, starting from nothing, the counts are those of the elements that were
given out, where an element put in a thread group is given out once more but counted only once. The counts
of a plan are those of its elements. Of the two kinds of controllers there are always equally many. -/
theorem counts_of_answers (w : Workshop) :
    (∀ (calls : List Call) (number : Nat) (diagnostics : List Diagnostic)
        (returned : List Fragment) (q : Progress),
      (w.answers calls).run ⟨number, .zero, diagnostics⟩ = (.ok returned, q) →
        let given := subtrees returned.flatten
        let passed := subtrees (calls.flatMap Call.passed)
        Counts.zero.plus given = q.counts.plus passed ∧
          given.countP (·.tag == "GenericController") + passed.countP (·.tag == "ThroughputController") =
            given.countP (·.tag == "ThroughputController") +
              passed.countP (·.tag == "GenericController")) ∧
    ∀ s diagnostics d, Build.assemble w.disk w.settings w.source s diagnostics = .ok d →
      d.counts = Counts.zero.plus d.root.subtree ∧
        d.root.subtree.countP (·.tag == "GenericController") =
          d.root.subtree.countP (·.tag == "ThroughputController") := by
  refine ⟨fun calls number diagnostics returned q h => ?_, fun s diagnostics d h => ?_⟩
  · exact (tallied_answers h).of_zero rfl
  · obtain ⟨hcounts, hc⟩ := (tallied_plan h).of_zero rfl
    have hnone : d.counts.plus [] = d.counts := by simp [Counts.plus]
    rw [hnone] at hcounts
    exact ⟨hcounts.symm, by simpa using hc⟩

/-- A request, the same request once more in a thread group, and a controller. -/
def wrappingCalls : List Call :=
  [.order (.request fullRequest), .order (.group "Users" (elementsOf (Layout.ofRequest fullRequest))),
    .order (.controller ⟨"Half", .finite false 50 0, [.timer ⟨"Pause", "1", "1"⟩], [], [], 2⟩),
    .threadGroup "Main" "5" "1"]

/-- The request was made once and given out twice. -/
theorem counts_of_answers_wrapping :
    (∃ returned q, (usersWorkshop.answers wrappingCalls).run ⟨0, .zero, []⟩ = (.ok returned, q) ∧
      q.counts = ⟨1, 2, 1, 0, 0, 1, 0, 2, 1⟩ ∧
      Counts.zero.plus (subtrees returned.flatten) = ⟨2, 3, 2, 0, 0, 1, 0, 2, 2⟩) ∧
    ∃ d, Build.assemble usersDisk .standard "main.xml" nestedScenario [] = .ok d ∧
      d.counts = Counts.zero.plus d.root.subtree := by
  constructor
  · have hrun : ∃ returned q, (usersWorkshop.answers wrappingCalls).run ⟨0, .zero, []⟩ =
        (.ok returned, q) ∧ q.counts = ⟨1, 2, 1, 0, 0, 1, 0, 2, 1⟩ := ⟨_, _, rfl, rfl⟩
    obtain ⟨returned, q, h, hq⟩ := hrun
    have hg := ((counts_of_answers usersWorkshop).1 _ _ _ _ _ h).1
    refine ⟨returned, q, h, hq, ?_⟩
    rw [hg, hq]
    rfl
  · obtain ⟨d, hd⟩ := exists_plan_nestedScenario
    exact ⟨d, hd, ((counts_of_answers usersWorkshop).2 _ _ _ hd).1⟩

end LoadPlan.Jmx
