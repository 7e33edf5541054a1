import LoadPlan.Proofs.Jmx.Making

/-! In every tree of a plan, elements and trees stand by turns. This holds of whole plans and of every fragment that
is made, as soon as it is put in a tree. -/
namespace LoadPlan.Jmx

open LoadPlan.Markup (Element)
open LoadPlan.Markup.Element (subtrees subtree_eq mem_subtrees forall_mem_subtree_iff)
open LoadPlan.Scenario
open Block (elements elementsOf componentsOf Proper proper_nil proper_cons)

/-- The elements are even in number, and every second one of them, and no other, is a tree. -/
def Alternates (es : List Element) : Prop :=
  es.length % 2 = 0 ∧ ∀ (i : Nat) (h : i < es.length), es[i].tag = treeTag ↔ i % 2 = 1

/-- The children of every tree in an element, however deep, alternate. -/
def Paired (root : Element) : Prop :=
  ∀ t ∈ root.subtree, t.tag = treeTag → Alternates t.children

theorem alternates_nil : Alternates [] :=
  ⟨rfl, fun i h => absurd h (Nat.not_lt_zero i)⟩

theorem alternates_cons_cons {e t : Element} {es : List Element} :
    Alternates (e :: t :: es) ↔ e.tag ≠ treeTag ∧ t.tag = treeTag ∧ Alternates es := by
  constructor
  · rintro ⟨hlen, h⟩
    refine ⟨fun he => ?_, (h 1 (by simp)).mpr rfl, ?_, fun i hi => ?_⟩
    · exact absurd ((h 0 (by simp)).mp he) (by decide)
    · simp only [List.length_cons] at hlen
      omega
    · have hi2 := h (i + 2) (by simpa using hi)
      rw [List.getElem_cons_succ, List.getElem_cons_succ] at hi2
      rw [hi2]
      omega
  · rintro ⟨he, ht, hlen, h⟩
    refine ⟨by simp only [List.length_cons]; omega, fun i hi => ?_⟩
    match i with
    | 0 => simpa using he
    | 1 => simpa using ht
    | i + 2 =>
      rw [List.getElem_cons_succ, List.getElem_cons_succ, h i (by simpa using hi)]
      omega

theorem alternates_append {a b : List Element} (ha : Alternates a) (hb : Alternates b) : Alternates (a ++ b) := by
  match a, ha with
  | [], _ => exact hb
  | [_], ⟨hlen, _⟩ => cases hlen
  | e :: t :: rest, ha =>
    obtain ⟨he, ht, hrest⟩ := alternates_cons_cons.mp ha
    exact alternates_cons_cons.mpr ⟨he, ht, alternates_append hrest hb⟩

theorem alternates_elementsOf {bs : List Block} :
    Alternates (elementsOf bs) ↔ ∀ b ∈ bs, b.element.tag ≠ treeTag := by
  induction bs with
  | nil => simp [elementsOf, alternates_nil]
  | cons b bs ih =>
    obtain ⟨e, inside⟩ := b
    change Alternates (e :: ⟨treeTag, [], "", elementsOf inside⟩ :: elementsOf bs) ↔ _
    rw [alternates_cons_cons, ih, List.forall_mem_cons]
    simp

theorem paired_iff (e : Element) :
    Paired e ↔ (e.tag = treeTag → Alternates e.children) ∧ ∀ c ∈ e.children, Paired c :=
  forall_mem_subtree_iff

theorem mem_elementsOf {x : Element} {bs : List Block} :
    x ∈ elementsOf bs ↔ ∃ b ∈ bs, x = b.element ∨ x = Block.tree b.inside := by
  induction bs with
  | nil => simp [elementsOf]
  | cons b bs ih =>
    obtain ⟨e, inside⟩ := b
    change x ∈ e :: ⟨treeTag, [], "", elementsOf inside⟩ :: elementsOf bs ↔ _
    rw [List.mem_cons, List.mem_cons, ih, List.exists_mem_cons_iff, or_assoc]
    rfl

/-- Blocks in a tree are paired if their elements are no trees and all below them is paired. -/
theorem paired_tree_iff {bs : List Block} :
    Paired (Block.tree bs) ↔
      ∀ b ∈ bs, b.element.tag ≠ treeTag ∧ Paired b.element ∧ Paired (Block.tree b.inside) := by
  rw [paired_iff]
  have ha : ((Block.tree bs).tag = treeTag → Alternates (Block.tree bs).children) ↔
      ∀ b ∈ bs, b.element.tag ≠ treeTag :=
    ⟨fun h => alternates_elementsOf.mp (h rfl), fun h _ => alternates_elementsOf.mpr h⟩
  rw [ha]
  constructor
  · intro ⟨ht, hc⟩ b hb
    exact ⟨ht b hb, hc _ (mem_elementsOf.mpr ⟨b, hb, .inl rfl⟩),
      hc _ (mem_elementsOf.mpr ⟨b, hb, .inr rfl⟩)⟩
  · refine fun h => ⟨fun b hb => (h b hb).1, fun c hc => ?_⟩
    obtain ⟨b, hb, rfl | rfl⟩ := mem_elementsOf.mp hc
    · exact (h b hb).2.1
    · exact (h b hb).2.2

theorem IsComponent.tag_ne_tree {e : Element} (h : IsComponent componentTags e) : e.tag ≠ treeTag := by
  intro heq
  have hm := h.tag_mem
  rw [heq] at hm
  exact absurd hm (by decide)

/-- There is no tree in a component. -/
theorem IsComponent.paired {e : Element} (h : IsComponent componentTags e) : Paired e := by
  intro t ht htree
  rw [subtree_eq, List.mem_cons] at ht
  rcases ht with rfl | ht
  · exact absurd htree h.tag_ne_tree
  · obtain ⟨c, hc, ht⟩ := mem_subtrees.mp ht
    have hp := h.properties c hc t ht
    rw [htree] at hp
    exact absurd hp (by decide)

theorem paired_of_proper : ∀ {bs : List Block}, Proper componentTags bs → Paired (Block.tree bs)
  | [], _ => paired_tree_iff.mpr (by simp)
  | ⟨e, inside⟩ :: bs, h => by
    obtain ⟨he, hi, hb⟩ := proper_cons.mp h
    have hbs := paired_tree_iff.mp (paired_of_proper hb)
    rw [paired_tree_iff, List.forall_mem_cons]
    exact ⟨⟨he.tag_ne_tree, he.paired, paired_of_proper hi⟩, hbs⟩

theorem paired_root (w : Workshop) (s : Scenario) (number : Nat) : Paired (Layout.root w s number) := by
  rw [paired_iff]
  refine ⟨fun h => absurd h (by decide : "jmeterTestPlan" ≠ treeTag), ?_⟩
  exact List.forall_mem_singleton.mpr (paired_of_proper (Layout.proper_plan w s number))

theorem paired_tree_fragment_iff {f : Fragment} :
    Paired (tree f) ↔ Alternates f ∧ ∀ e ∈ f, Paired e := by
  rw [paired_iff]
  exact and_congr_left' ⟨fun h => h rfl, fun h _ => h⟩

/-- What is put into the tree of a first element leaves all trees paired, if it is paired itself. -/
theorem paired_fill {f more : Fragment} (hf : Paired (tree f)) (hm : Paired (tree more)) :
    Paired (tree (f.fill more)) := by
  match f with
  | [] => exact hf
  | [_] => exact hf
  | e :: t :: rest =>
    obtain ⟨hf, hall⟩ := paired_tree_fragment_iff.mp hf
    obtain ⟨hm, hmore⟩ := paired_tree_fragment_iff.mp hm
    obtain ⟨he, ht, hrest⟩ := alternates_cons_cons.mp hf
    rw [List.forall_mem_cons, List.forall_mem_cons] at hall
    obtain ⟨hpe, hpt, hprest⟩ := hall
    obtain ⟨hchildren, hbelow⟩ := (paired_iff t).mp hpt
    rw [paired_tree_fragment_iff, Fragment.fill, List.forall_mem_cons, List.forall_mem_cons]
    refine ⟨alternates_cons_cons.mpr ⟨he, ht, hrest⟩, hpe, (paired_iff _).mpr ⟨fun _ => ?_, ?_⟩, hprest⟩
    · exact alternates_append (hchildren ht) hm
    · exact List.forall_mem_append.mpr ⟨hbelow, hmore⟩

/-- Every plan that is assembled is paired at every depth, and so is a tree with the fragment that is made for any
record at all. What is put in a thread group has to be paired itself. -/
theorem paired_of_made (disk : Storage.Disk) (settings : Settings) (source : String) :
    (∀ s diagnostics d, Build.assemble disk settings source s diagnostics = .ok d → Paired d.root) ∧
    ∀ (o : Order) (p q : Progress) (f : Fragment),
      (∀ name inside, o = .group name inside → Paired (tree inside)) →
      ((⟨disk, settings, source⟩ : Workshop).fragment o).run p = (.ok f, q) → Paired (tree f) := by
  refine ⟨fun s diagnostics d h => ?_, fun o p q f hi h => ?_⟩
  · obtain ⟨-, rfl⟩ := assemble_eq_ok_iff.mp h
    exact paired_root _ s 0
  · obtain ⟨-, rfl, -⟩ := (Workshop.fragment_gives _ o p).ok_iff.mp h
    refine paired_fill (paired_of_proper (Layout.proper_order _ _ o)) ?_
    cases o with
    | group name inside => exact hi name inside rfl
    | _ => exact paired_of_proper proper_nil

/-- A request with a timer, a condition and a file for its results. -/
def fullRequest : Request :=
  { Request.standard with
    name := "Home", domain := "shop.example", path := "/", hasParts := true
    timers := [⟨"Pause", "100", "10"⟩]
    assertions := [{ Assertion.standard with literals := ["Welcome"] }]
    results := some Results.standard }

/-- A data set with steps that are repeated for each line of its file, and with one more step. -/
def usersDataSet : DataSet :=
  { DataSet.standard with
    filename := "users.csv"
    stack := [.repeated [.request fullRequest, .timer ⟨"Pause", "1", "1"⟩], .request fullRequest] }

/-- A controller in another one, next to a loop. The data set came with the outer one. -/
def nestedScenario : Scenario where
  stack :=
    [.controller ⟨"Half", .finite false 50 0,
      [.controller ⟨"None", .zero, [.request fullRequest], [], [], 3⟩,
        .loop ⟨"Twice", 2, false, [fullRequest, fullRequest], 5⟩],
      [usersDataSet], [], 2⟩]
  dataSets := []
  info := [("numthreads", "5")]

/-- A disk with a file of two lines. -/
def usersDisk : Storage.Disk := ⟨[(["users.csv"], .file [97, 110, 110, 10, 98, 111, 98, 10])], []⟩

def usersWorkshop : Workshop := ⟨usersDisk, .standard, "main.xml"⟩

theorem read_users : usersDisk.read ⟨"", ["users.csv"]⟩ = .ok [97, 110, 110, 10, 98, 111, 98, 10] := by
  rw [Storage.Disk.read, Storage.Disk.find_of_file (by decide) (by decide) rfl]

theorem lineCount_users : DataFile.lineCount [97, 110, 110, 10, 98, 111, 98, 10] = 2 := by
  decide +kernel

theorem rounds_usersDataSet : usersDataSet.rounds usersDisk = .ok 2 := by
  rw [DataSet.rounds_of_read rfl read_users, ← lineCount_users]
  rfl

theorem running_usersDataSet : usersDataSet.running usersDisk =
    [.request fullRequest, .timer ⟨"Pause", "1", "1"⟩, .request fullRequest,
      .timer ⟨"Pause", "1", "1"⟩, .request fullRequest] := by
  have hs : usersDataSet.stack =
      [.repeated [.request fullRequest, .timer ⟨"Pause", "1", "1"⟩], .request fullRequest] := rfl
  rw [DataSet.running, hs]
  simp [DataSet.expanded, rounds_usersDataSet]

theorem planFaults_nestedScenario : Layout.planFaults usersWorkshop nestedScenario = [] := by
  have hw : Layout.writingFaults usersWorkshop.settings.rampTime = [] := by decide
  have hd : nestedScenario.allDataSets = [usersDataSet] := rfl
  have hs : Layout.stepsFaults nestedScenario.stack = [] := by decide
  have hf : Layout.dataSetFaults usersWorkshop usersDataSet = [] := by
    refine Layout.dataSetFaults_eq_nil hw rfl ?_
    exact (congrArg Layout.stepsFaults running_usersDataSet).trans rfl
  rw [Layout.planFaults, Layout.rampFaults, hw, ite_self, hs, hd, List.flatMap_singleton, hf]
  rfl

theorem exists_plan_nestedScenario :
    ∃ d, Build.assemble usersDisk .standard "main.xml" nestedScenario [] = .ok d :=
  ⟨_, assemble_eq_ok_iff.mpr ⟨planFaults_nestedScenario, rfl⟩⟩

theorem paired_of_made_nested :
    (∃ d, Build.assemble usersDisk .standard "main.xml" nestedScenario [] = .ok d ∧
      Paired d.root) ∧
    ∃ f q, (usersWorkshop.fragment (.group "Users" (pair cookieManager))).run ⟨0, .zero, []⟩ = (.ok f, q) ∧
      Paired (tree f) := by
  constructor
  · obtain ⟨d, hd⟩ := exists_plan_nestedScenario
    exact ⟨d, hd, (paired_of_made usersDisk .standard "main.xml").1 _ _ _ hd⟩
  · have hf : Layout.orderFaults usersWorkshop (.group "Users" (pair cookieManager)) = [] := by
      decide
    have hm := (Workshop.fragment_gives usersWorkshop _ ⟨0, .zero, []⟩).ok_iff.mpr ⟨hf, rfl, rfl⟩
    refine ⟨_, _, hm, (paired_of_made _ _ _).2 _ _ _ _ (fun name inside h => ?_) hm⟩
    cases h
    exact paired_of_proper (proper_cons.mpr ⟨isComponent_cookieManager, proper_nil, proper_nil⟩)

end LoadPlan.Jmx
