import LoadPlan.Proofs.Jmx.Validity
import LoadPlan.Proofs.Scenario.Precedence

/-! The data sets of a plan: each that occurs is there once, in the order in which they are moved, and all
stand in the tree of the test plan itself. -/
namespace LoadPlan.Jmx

open LoadPlan.Markup (Element)
open LoadPlan.Scenario
open Block (Proper tagged tagged_nil tagged_cons tagged_append tagged_of_proper)

namespace Block

/-- The elements of blocks that stand beside one another. -/
theorem filter_elementsOf {tag : String} (htree : tag ≠ treeTag) (bs : List Block) :
    (elementsOf bs).filter (·.tag == tag) = (bs.map Block.element).filter (·.tag == tag) := by
  have htree' : (treeTag == tag) = false := beq_false_of_ne htree.symm
  induction bs with
  | nil => rfl
  | cons b bs ih =>
    obtain ⟨e, inside⟩ := b
    rw [elementsOf, elements, List.filter_append, ih, List.map_cons, List.filter_cons]
    cases h : e.tag == tag with
    | true => simp [h, htree']
    | false => simp [h, htree']

end Block

variable (w : Workshop)

theorem dataSets_of_step {bs : List Block} (h : Proper stepTags bs) : tagged "CSVDataSet" bs = [] :=
  tagged_of_proper h (by simp [stepTags, partTags])

theorem dataSets_groups (name : String) (number : Nat) {bss : List (List Block)}
    (h : ∀ bs ∈ bss, Proper stepTags bs) : tagged "CSVDataSet" (Layout.groups w name number bss) = [] := by
  induction bss generalizing number with
  | nil => rfl
  | cons bs bss ih =>
    obtain ⟨hb, hs⟩ := List.forall_mem_cons.mp h
    rw [Layout.groups_cons, Layout.ofGroup, tagged_cons, tagged_cons, tagged_nil, dataSets_of_step hb,
      ih _ hs]
    simp

theorem dataSets_ofDataSets (number : Nat) (ds : List DataSet) :
    tagged "CSVDataSet" (Layout.ofDataSets w number ds) = ds.map dataSet := by
  induction ds generalizing number with
  | nil => rfl
  | cons d ds ih =>
    have hgroups :
        tagged "CSVDataSet" (Layout.groups w d.name number (Layout.insides (d.running w.disk))) = [] :=
      dataSets_groups w d.name number Layout.proper_insides
    rw [Layout.ofDataSets, tagged_append, ih, Layout.ofDataSet, tagged_cons, tagged_nil, hgroups]
    simp

theorem dataSets_content (s : Scenario) (number : Nat) :
    tagged "CSVDataSet" (Layout.content w s number) = s.allDataSets.map dataSet := by
  have hs := dataSets_of_step (Layout.proper_steps s.stack)
  rw [Layout.content, Layout.ofCollector, tagged_cons, tagged_cons, tagged_cons, tagged_nil, hs,
    dataSets_ofDataSets]
  simp

theorem dataSets_root (s : Scenario) (number : Nat) :
    (Layout.root w s number).descendantsTagged "CSVDataSet" = s.allDataSets.map dataSet := by
  rw [descendantsTagged_root w s number (by decide) (by decide), tagged_cons, dataSets_content, tagged_nil]
  simp

/-! Those beside the main thread group. -/

theorem beside_groups (name : String) (number : Nat) (bss : List (List Block)) :
    ((Layout.groups w name number bss).map Block.element).filter (·.tag == "CSVDataSet") = [] := by
  induction bss generalizing number with
  | nil => rfl
  | cons bs bss ih =>
    rw [Layout.groups_cons, List.map_cons, List.filter_cons, ih]
    simp [Layout.ofGroup]

theorem beside_ofDataSets (number : Nat) (ds : List DataSet) :
    ((Layout.ofDataSets w number ds).map Block.element).filter (·.tag == "CSVDataSet") =
      ds.map dataSet := by
  induction ds generalizing number with
  | nil => rfl
  | cons d ds ih =>
    rw [Layout.ofDataSets, List.map_append, List.filter_append, ih, Layout.ofDataSet, List.map_cons,
      List.filter_cons, beside_groups]
    simp

theorem beside_content (s : Scenario) (number : Nat) :
    (Block.elementsOf (Layout.content w s number)).filter (·.tag == "CSVDataSet") =
      s.allDataSets.map dataSet := by
  rw [Block.filter_elementsOf (by decide), Layout.content, List.map_cons, List.map_cons,
    List.filter_cons, List.filter_cons, beside_ofDataSets]
  simp [Layout.ofCollector]

/-- The data sets of the plan, and then those that are moved, are all that occur, each once and in due
order. Whenever there is a plan, they are the data sets of its test plan in this order, and there are no
others in it. -/
theorem dataSets_of_plan (s : Scenario) :
    (∃ os, os.map Prod.snd = s.dataSets ++ hoisted s.stack s.dataSets ∧ IsListing s os) ∧
    ∀ disk settings source diagnostics d,
      Build.assemble disk settings source s diagnostics = .ok d →
      ∃ plan tree, d.root.children = [⟨treeTag, [], "", [plan, tree]⟩] ∧ plan.tag = "TestPlan" ∧
        tree.tag = treeTag ∧
        tree.children.filter (·.tag == "CSVDataSet") =
          (s.dataSets ++ hoisted s.stack s.dataSets).map dataSet ∧
        d.root.subtreeTagged "CSVDataSet" = (s.dataSets ++ hoisted s.stack s.dataSets).map dataSet := by
  refine ⟨⟨occurrences s, map_occurrences s, isListing_occurrences s⟩, ?_⟩
  intro disk settings source diagnostics d h
  obtain ⟨-, rfl⟩ := assemble_eq_ok_iff.mp h
  refine ⟨testPlan s.info.planName.value, Block.tree (Layout.content ⟨disk, settings, source⟩ s 0), rfl,
    tag_testPlan _, rfl, beside_content _ s 0, ?_⟩
  rw [Element.subtreeTagged, Element.subtree_eq]
  exact dataSets_root ⟨disk, settings, source⟩ s 0

theorem dataSets_of_plan_nested :
    ∃ d plan tree, Build.assemble usersDisk .standard "main.xml" nestedScenario [] = .ok d ∧
      d.root.children = [⟨treeTag, [], "", [plan, tree]⟩] ∧
      tree.children.filter (·.tag == "CSVDataSet") = [dataSet usersDataSet] := by
  obtain ⟨d, hd⟩ := exists_plan_nestedScenario
  obtain ⟨plan, tree, hroot, -, -, htree, -⟩ := (dataSets_of_plan nestedScenario).2 _ _ _ _ _ hd
  exact ⟨d, plan, tree, hd, hroot, htree⟩

end LoadPlan.Jmx
