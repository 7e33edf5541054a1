import LoadPlan.Proofs.Jmx.DataSets
import LoadPlan.Proofs.Jmx.Samplers

/-! The thread groups of a plan. They stand side by side in the tree of the test plan, are numbered through
and hold all samplers between them. The main one has the name of the plan, each other one that of the data
set before it. -/
namespace LoadPlan.Scenario

/-- A step that comes to nothing. A repetition does where it is not a step of a data set itself. -/
def Entry.isIdle : Entry → Bool
  | .loop l => l.tests.isEmpty
  | .repeated _ => true
  | _ => false

end LoadPlan.Scenario

namespace LoadPlan.Jmx

open LoadPlan.Markup (Element)
open LoadPlan.Markup.Element (subtree_eq)
open LoadPlan.Scenario
open Block (elementsOf componentsOf Proper proper_nil proper_cons tagged tagged_nil tagged_cons
  tagged_of_proper)

/-- Elements that stand by turns with their trees, each with its own. -/
def pairsOf : List Element → List (Element × Element)
  | e :: t :: es => (e, t) :: pairsOf es
  | _ => []

/-- A thread group has its number and a name in its title. Its number is how many come before it. The first
is named after the test plan, each later one after the data set that is the closest before it. -/
def Titled (plan : Element) (before : List Element) (group : Element) : Prop :=
  let number := before.countP (·.tag == "ThreadGroup")
  ∃ name, group.attribute? "testname" = some (Workshop.groupName number name) ∧
    if number = 0 then plan.attribute? "testname" = some name
    else ∃ c, (before.filter (·.tag == "CSVDataSet")).getLast? = some c ∧
      c.attribute? "testname" = some s!"CSV Data Set Config: {name}"

/-- How thread groups are arranged in the tree of a test plan. -/
structure Grouped (root plan tree : Element) : Prop where
  /-- Elements and trees stand by turns. -/
  paired : (pairsOf tree.children).flatMap (fun x => [x.1, x.2]) = tree.children ∧
    ∀ x ∈ pairsOf tree.children, x.1.tag ≠ treeTag ∧ x.2.tag = treeTag
  /-- All thread groups are in this tree itself. -/
  direct : root.subtreeTagged "ThreadGroup" = tree.children.filter (·.tag == "ThreadGroup")
  /-- The tree of a thread group starts with its cookies. -/
  cookies : ∀ x ∈ pairsOf tree.children, x.1.tag = "ThreadGroup" →
    ∃ c t rest, x.2.children = c :: t :: rest ∧ c.tag = "CookieManager" ∧ t.tag = treeTag
  /-- Each sampler is in the tree of one thread group. -/
  samplers : root.subtreeTagged "HTTPSamplerProxy" =
    ((pairsOf tree.children).filter (·.1.tag == "ThreadGroup")).flatMap fun x =>
      x.2.subtreeTagged "HTTPSamplerProxy"
  titled : ∀ before x after, pairsOf tree.children = before ++ x :: after → x.1.tag = "ThreadGroup" →
    Titled plan (before.map Prod.fst) x.1

/-- Blocks in the tree of a test plan, where some groups and maybe a data set came before. The main group
is the first, and comes before all data sets. -/
inductive Arranged (w : Workshop) (plan : String) : Nat → Option DataSet → List Block → Prop
  | nil {number : Nat} {last : Option DataSet} : Arranged w plan number last []
  | collector {number : Nat} {last : Option DataSet} {gui name filename : String} {bs : List Block} :
    Arranged w plan number last bs →
      Arranged w plan number last (Layout.ofCollector gui name filename :: bs)
  | main {threads rampTime : String} {inside bs : List Block} : Proper stepTags inside →
    Arranged w plan 1 none bs →
      Arranged w plan 0 none
        (⟨threadGroup w.settings.onSampleError (Workshop.groupName 0 plan) threads rampTime,
          ⟨cookieManager, []⟩ :: inside⟩ :: bs)
  | dataSet {number : Nat} {last : Option DataSet} (d : DataSet) {bs : List Block} :
    Arranged w plan number (some d) bs → Arranged w plan number last (⟨dataSet d, []⟩ :: bs)
  | group {number : Nat} {d : DataSet} {inside bs : List Block} : Proper stepTags inside →
    Arranged w plan (number + 2) (some d) bs →
      Arranged w plan (number + 1) (some d) (Layout.ofGroup w d.name (number + 1) inside :: bs)

/-! The blocks of a plan are arranged in this way. -/

section

variable (w : Workshop) (plan : String)

theorem arranged_groups (d : DataSet) (number : Nat) {bss : List (List Block)} {rest : List Block}
    (h : ∀ bs ∈ bss, Proper stepTags bs) (hr : Arranged w plan (number + 1 + bss.length) (some d) rest) :
    Arranged w plan (number + 1) (some d) (Layout.groups w d.name (number + 1) bss ++ rest) := by
  induction bss generalizing number with
  | nil => exact hr
  | cons bs bss ih =>
    obtain ⟨hb, hs⟩ := List.forall_mem_cons.mp h
    have hlength : number + 1 + (bs :: bss).length = number + 1 + 1 + bss.length := by
      rw [List.length_cons]
      omega
    rw [hlength] at hr
    rw [Layout.groups_cons]
    exact .group hb (ih (number + 1) hs hr)

/-- Data sets with their groups come after the main one. -/
theorem arranged_dataSets (number : Nat) (last : Option DataSet) (ds : List DataSet) :
    Arranged w plan (number + 1) last (Layout.ofDataSets w (number + 1) ds) := by
  induction ds generalizing number last with
  | nil => exact .nil
  | cons d ds ih =>
    have hr := ih (number + (Layout.insides (d.running w.disk)).length) (some d)
    rw [Nat.add_right_comm] at hr
    rw [Layout.ofDataSets, Layout.ofDataSet, List.cons_append]
    apply Arranged.dataSet
    exact arranged_groups w plan d number Layout.proper_insides hr

theorem arranged_content (s : Scenario) :
    Arranged w s.info.planName.value 0 none (Layout.content w s 0) := by
  have hd := arranged_dataSets w s.info.planName.value 0 none s.allDataSets
  exact .collector (.main (Layout.proper_steps s.stack) hd)

end

/-! What can be said of blocks that are arranged in this way. -/

variable {w : Workshop} {plan : String} {number : Nat} {last : Option DataSet} {bs : List Block}

theorem groups_of_step {bs : List Block} (h : Proper stepTags bs) : tagged "ThreadGroup" bs = [] :=
  tagged_of_proper h (by simp [stepTags, partTags])

/-- There are no thread groups but those side by side. -/
theorem Arranged.direct (h : Arranged w plan number last bs) :
    tagged "ThreadGroup" bs = (bs.map Block.element).filter (·.tag == "ThreadGroup") := by
  induction h with
  | nil => rfl
  | collector h ih =>
    rw [Layout.ofCollector, tagged_cons, tagged_nil, ih]
    rfl
  | main hi h ih =>
    rw [tagged_cons, tagged_cons, groups_of_step hi, tagged_nil, ih]
    rfl
  | dataSet d h ih =>
    rw [tagged_cons, tagged_nil, ih]
    rfl
  | group hi h ih =>
    rw [Layout.ofGroup, tagged_cons, tagged_cons, groups_of_step hi, tagged_nil, ih]
    rfl

/-- There are no samplers but those in thread groups. -/
theorem Arranged.samplers (h : Arranged w plan number last bs) :
    tagged "HTTPSamplerProxy" bs = (bs.filter (·.element.tag == "ThreadGroup")).flatMap fun b =>
      tagged "HTTPSamplerProxy" b.inside := by
  induction h with
  | nil => rfl
  | collector h ih =>
    rw [Layout.ofCollector, tagged_cons, tagged_nil, ih]
    rfl
  | main hi h ih =>
    rw [tagged_cons, ih]
    rfl
  | dataSet d h ih =>
    rw [tagged_cons, tagged_nil, ih]
    rfl
  | group hi h ih =>
    rw [Layout.ofGroup, tagged_cons, ih]
    rfl

/-- A thread group has its cookies, and then what it runs. -/
theorem Arranged.inside_eq (h : Arranged w plan number last bs) :
    ∀ b ∈ bs, b.element.tag = "ThreadGroup" →
      ∃ inside, b.inside = ⟨cookieManager, []⟩ :: inside ∧ Proper stepTags inside := by
  induction h with
  | nil => simp
  | collector h ih =>
    refine List.forall_mem_cons.mpr ⟨fun ht => ?_, ih⟩
    exact absurd ht (by decide : "ResultCollector" ≠ "ThreadGroup")
  | main hi h ih => exact List.forall_mem_cons.mpr ⟨fun _ => ⟨_, rfl, hi⟩, ih⟩
  | dataSet d h ih =>
    refine List.forall_mem_cons.mpr ⟨fun ht => ?_, ih⟩
    exact absurd ht (by decide : "CSVDataSet" ≠ "ThreadGroup")
  | group hi h ih => exact List.forall_mem_cons.mpr ⟨fun _ => ⟨_, rfl, hi⟩, ih⟩

/-- The title of a thread group with a given number, which may come after a data set. -/
def TitledAfter (plan : String) (number : Nat) (last : Option Element) (group : Element) : Prop :=
  ∃ name, group.attribute? "testname" = some (Workshop.groupName number name) ∧
    if number = 0 then name = plan else ∃ d : DataSet, last = some (dataSet d) ∧ name = d.name

/-- The data set that comes last among elements, or else the one before them. -/
def lastDataSet (last : Option DataSet) (es : List Element) : Option Element :=
  (es.filter (·.tag == "CSVDataSet")).getLast?.or (last.map dataSet)

theorem lastDataSet_cons_of_ne {e : Element} (he : (e.tag == "CSVDataSet") = false)
    (es : List Element) : lastDataSet last (e :: es) = lastDataSet last es := by
  rw [lastDataSet, List.filter_cons, he]
  rfl

theorem lastDataSet_dataSet (d : DataSet) (es : List Element) :
    lastDataSet last (dataSet d :: es) = lastDataSet (some d) es := by
  have hd : ((dataSet d).tag == "CSVDataSet") = true := rfl
  rw [lastDataSet, lastDataSet, List.filter_cons, hd, if_pos rfl, List.getLast?_cons]
  cases (es.filter (·.tag == "CSVDataSet")).getLast? with
  | none => rfl
  | some e => rfl

/-- A group is numbered and named by what comes before it. -/
theorem Arranged.titled {before after : List Block} {b : Block} (hb : b.element.tag = "ThreadGroup")
    (h : Arranged w plan number last (before ++ b :: after)) :
    TitledAfter plan (number + (before.map Block.element).countP (·.tag == "ThreadGroup"))
      (lastDataSet last (before.map Block.element)) b.element := by
  -- A block before it is one more group, or the data set that the others count from, or neither.
  induction before generalizing number last with
  | nil =>
    rw [List.nil_append] at h
    cases h with
    | collector h => exact absurd hb (by decide : "ResultCollector" ≠ "ThreadGroup")
    | main hi h => exact ⟨plan, rfl, rfl⟩
    | dataSet d h => exact absurd hb (by decide : "CSVDataSet" ≠ "ThreadGroup")
    | group hi h => exact ⟨_, rfl, _, rfl, rfl⟩
  | cons b' before ih =>
    rw [List.cons_append] at h
    rw [List.map_cons, List.countP_cons]
    cases h with
    | collector h =>
      rw [lastDataSet_cons_of_ne rfl]
      exact ih h
    | main hi h =>
      have ht := ih h
      rw [lastDataSet_cons_of_ne rfl, ← Nat.add_assoc, Nat.add_right_comm]
      exact ht
    | dataSet d h =>
      rw [lastDataSet_dataSet]
      exact ih h
    | group hi h =>
      have ht := ih h
      rw [lastDataSet_cons_of_ne rfl, ← Nat.add_assoc, Nat.add_right_comm]
      exact ht

/-! How many groups there are. -/

theorem isEmpty_ofStep (e : Entry) : (Layout.ofStep e).isEmpty = e.isIdle := by
  cases e with
  | timer t => rfl
  | request r =>
    rw [Layout.ofStep, Layout.ofRequest]
    split
    · rfl
    · rfl
  | loop l =>
    rw [Layout.ofStep, Layout.ofLoop, Entry.isIdle]
    split
    · next h => rw [h, List.isEmpty_nil]
    · next h => rw [eq_false_of_ne_true h, List.isEmpty_cons]
  | controller c => rfl
  | repeated items => rfl

theorem length_insides (es : List Entry) :
    (Layout.insides es).length = es.countP fun e => !e.isIdle := by
  rw [Layout.insides, ← List.countP_eq_length_filter, List.countP_map]
  congr 1
  funext e
  rw [Function.comp_apply, isEmpty_ofStep]

theorem countP_threadGroup_dataSets (w : Workshop) (number : Nat) (ds : List DataSet) :
    (componentsOf (Layout.ofDataSets w number ds)).countP (·.tag == "ThreadGroup") =
      (ds.flatMap fun d => d.running w.disk).countP fun e => !e.isIdle := by
  induction ds generalizing number with
  | nil => rfl
  | cons d ds ih =>
    have hg : (componentsOf (Layout.groups w d.name number (Layout.insides (d.running w.disk)))).countP
        (·.tag == "ThreadGroup") = (d.running w.disk).countP fun e => !e.isIdle := by
      rw [Layout.countP_threadGroup_groups w Layout.proper_insides, length_insides]
    rw [Layout.ofDataSets, Block.componentsOf_append, List.countP_append, ih, List.flatMap_cons,
      List.countP_append, ← hg]
    rfl

theorem countP_threadGroup_content (w : Workshop) (s : Scenario) (number : Nat) :
    (componentsOf (Layout.content w s number)).countP (·.tag == "ThreadGroup") =
      1 + (s.allDataSets.flatMap fun d => d.running w.disk).countP fun e => !e.isIdle := by
  have hs := Layout.countP_threadGroup_of_step (Layout.proper_steps s.stack)
  rw [← countP_threadGroup_dataSets w (number + 1)]
  simp [Layout.content, Layout.ofCollector, componentsOf, Block.components, hs, Nat.add_comm]

/-! The elements of blocks, again in pairs. -/

theorem pairsOf_elementsOf (bs : List Block) :
    pairsOf (elementsOf bs) = bs.map fun b => (b.element, Block.tree b.inside) := by
  induction bs with
  | nil => rfl
  | cons b bs ih =>
    obtain ⟨e, inside⟩ := b
    rw [List.map_cons, ← ih]
    rfl

theorem flatMap_pairsOf_elementsOf (bs : List Block) :
    (pairsOf (elementsOf bs)).flatMap (fun x => [x.1, x.2]) = elementsOf bs := by
  rw [pairsOf_elementsOf]
  induction bs with
  | nil => rfl
  | cons b bs ih =>
    obtain ⟨e, inside⟩ := b
    rw [List.map_cons, List.flatMap_cons, ih]
    rfl

theorem subtreeTagged_tree {tag : String} (ht : tag ∉ propertyTags) (htree : tag ≠ treeTag)
    {bs : List Block} (h : Proper componentTags bs) :
    (Block.tree bs).subtreeTagged tag = tagged tag bs := by
  have hb : ((Block.tree bs).tag == tag) = false := beq_false_of_ne htree.symm
  have hf := Block.filter_subtrees_elementsOf ht htree bs h
  rw [Element.subtreeTagged, subtree_eq, List.filter_cons, hb]
  exact hf

/-- The test plan is the only component outside of its tree. -/
theorem subtreeTagged_content (w : Workshop) (s : Scenario) (number : Nat) {tag : String}
    (ht : tag ∈ componentTags) (hn : tag ≠ "TestPlan") :
    (Layout.root w s number).subtreeTagged tag = tagged tag (Layout.content w s number) := by
  have hp : ((testPlan s.info.planName.value).tag == tag) = false := beq_false_of_ne hn.symm
  rw [subtreeTagged_root w s number ht, tagged_cons, hp, tagged_nil, List.append_nil]
  rfl

theorem titled_of_titledAfter {name : String} {before : List Element} {group : Element}
    (h : TitledAfter name (before.countP (·.tag == "ThreadGroup")) (lastDataSet none before) group) :
    Titled (testPlan name) before group := by
  obtain ⟨title, hg, ht⟩ := h
  refine ⟨title, hg, ?_⟩
  by_cases hn : before.countP (·.tag == "ThreadGroup") = 0
  · rw [if_pos hn] at ht ⊢
    rw [ht]
    rfl
  · rw [if_neg hn] at ht ⊢
    obtain ⟨d, hd, rfl⟩ := ht
    rw [lastDataSet, Option.map_none, Option.or_none] at hd
    exact ⟨dataSet d, hd, rfl⟩

theorem grouped_root (w : Workshop) (s : Scenario) :
    Grouped (Layout.root w s 0) (testPlan s.info.planName.value)
      (Block.tree (Layout.content w s 0)) := by
  have ha := arranged_content w s
  have hpaired := paired_tree_iff.mp (paired_of_proper (Layout.proper_content w s 0))
  have hmem : ∀ x ∈ pairsOf (Block.tree (Layout.content w s 0)).children,
      ∃ b ∈ Layout.content w s 0, (b.element, Block.tree b.inside) = x := by
    intro x hx
    rw [Block.tree, Jmx.tree, pairsOf_elementsOf] at hx
    exact List.mem_map.mp hx
  constructor
  · refine ⟨flatMap_pairsOf_elementsOf _, fun x hx => ?_⟩
    obtain ⟨b, hb, rfl⟩ := hmem x hx
    exact ⟨(hpaired b hb).1, rfl⟩
  · rw [subtreeTagged_content w s 0 (by decide) (by decide), ha.direct]
    exact (Block.filter_elementsOf (by decide) _).symm
  · intro x hx ht
    obtain ⟨b, hb, rfl⟩ := hmem x hx
    obtain ⟨inside, hi, -⟩ := ha.inside_eq b hb ht
    refine ⟨cookieManager, Block.tree [], elementsOf inside, ?_, rfl, rfl⟩
    rw [hi]
    rfl
  · have htree : ∀ b ∈ (Layout.content w s 0).filter (·.element.tag == "ThreadGroup"),
        tagged "HTTPSamplerProxy" b.inside =
          (Block.tree b.inside).subtreeTagged "HTTPSamplerProxy" := by
      intro b hb
      obtain ⟨hb, ht⟩ := List.mem_filter.mp hb
      obtain ⟨inside, hi, hs⟩ := ha.inside_eq b hb (beq_iff_eq.mp ht)
      have hp : Proper componentTags b.inside := by
        rw [hi]
        exact proper_cons.mpr ⟨isComponent_cookieManager, proper_nil, hs.of_step⟩
      exact (subtreeTagged_tree (by decide) (by decide) hp).symm
    rw [subtreeTagged_content w s 0 (by decide) (by decide), ha.samplers, List.flatMap_congr htree, Block.tree, Jmx.tree,
      pairsOf_elementsOf, List.filter_map, List.flatMap_map]
    rfl
  · intro before x after hx ht
    rw [Block.tree, Jmx.tree, pairsOf_elementsOf] at hx
    obtain ⟨bs, rest, hcontent, rfl, hrest⟩ := List.map_eq_append_iff.mp hx
    obtain ⟨b, bs', rfl, rfl, -⟩ := List.map_eq_cons_iff.mp hrest
    rw [hcontent] at ha
    have htitle := Arranged.titled ht ha
    rw [Nat.zero_add] at htitle
    rw [List.map_map]
    exact titled_of_titledAfter htitle

/-- The thread groups of a plan stand in the tree of its test plan and nowhere else, each with a tree that
begins with its cookies, and every sampler is in one of these trees. They are numbered from zero without
gaps. The main one, which has the name of the plan, is followed by one for each step that runs with a data
set and does not come to nothing, under the name of that data set. -/
theorem grouped_of_plan {disk : Storage.Disk} {settings : Settings} {source : String} {s : Scenario}
    {diagnostics : List Diagnostic} {d : Build.Draft}
    (h : Build.assemble disk settings source s diagnostics = .ok d) :
    (∃ plan tree, d.root.children = [⟨treeTag, [], "", [plan, tree]⟩] ∧ plan.tag = "TestPlan" ∧
      tree.tag = treeTag ∧ Grouped d.root plan tree) ∧
    d.groups = (d.root.subtreeTagged "ThreadGroup").length ∧
    d.groups = 1 + ((s.dataSets ++ hoisted s.stack s.dataSets).flatMap fun x =>
      x.running disk).countP fun e => !e.isIdle := by
  obtain ⟨-, rfl⟩ := assemble_eq_ok_iff.mp h
  refine ⟨⟨testPlan s.info.planName.value, Block.tree (Layout.content ⟨disk, settings, source⟩ s 0), rfl,
    tag_testPlan _, rfl, grouped_root _ s⟩, ?_, countP_threadGroup_content _ s 0⟩
  rw [subtreeTagged_content ⟨disk, settings, source⟩ s 0 (by decide) (by decide)]
  exact List.countP_eq_length_filter

/-- The main group, one for the data set without a file and five for the other. -/
theorem grouped_of_plan_skipping :
    ∃ d, Build.assemble usersDisk .standard "main.xml" skippingScenario [] = .ok d ∧
      (∃ plan tree, d.root.children = [⟨treeTag, [], "", [plan, tree]⟩] ∧ plan.tag = "TestPlan" ∧
        tree.tag = treeTag ∧ Grouped d.root plan tree) ∧
      d.groups = 7 ∧ (d.root.subtreeTagged "ThreadGroup").length = 7 := by
  obtain ⟨d, hd⟩ := exists_plan_skippingScenario
  obtain ⟨hgrouped, hlength, hcount⟩ := grouped_of_plan hd
  have hsets : skippingScenario.dataSets ++ hoisted skippingScenario.stack skippingScenario.dataSets =
      [lostDataSet, doubledDataSet] := rfl
  rw [hsets, List.flatMap_cons, List.flatMap_singleton, running_lostDataSet,
    running_doubledDataSet] at hcount
  have hseven : d.groups = 7 := hcount
  exact ⟨d, hd, hgrouped, hseven, hlength.symm.trans hseven⟩

end LoadPlan.Jmx
