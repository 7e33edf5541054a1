import LoadPlan.Jmx.Block
import LoadPlan.Jmx.Component

/-! Components of plans and their properties told apart by their tags, and the components of blocks in
document order. -/
namespace LoadPlan.Markup.Element

theorem subtrees_eq_flatMap (es : List Element) : subtrees es = es.flatMap subtree := by
  induction es with
  | nil => rfl
  | cons e es ih => rw [subtrees, ih, List.flatMap_cons]

theorem subtree_eq (e : Element) : e.subtree = e :: e.descendants := by
  obtain ⟨tag, attributes, text, children⟩ := e
  rw [subtree]
  rfl

theorem subtrees_append (a b : List Element) : subtrees (a ++ b) = subtrees a ++ subtrees b := by
  simp only [subtrees_eq_flatMap, List.flatMap_append]

theorem mem_subtrees {x : Element} {es : List Element} :
    x ∈ subtrees es ↔ ∃ e ∈ es, x ∈ e.subtree := by
  rw [subtrees_eq_flatMap, List.mem_flatMap]

/-- What holds of an element and all below it holds of the element, and of each child and all below that. -/
theorem forall_mem_subtree_iff {p : Element → Prop} {e : Element} :
    (∀ x ∈ e.subtree, p x) ↔ p e ∧ ∀ c ∈ e.children, ∀ x ∈ c.subtree, p x := by
  rw [subtree_eq, List.forall_mem_cons]
  refine and_congr_right fun _ => ⟨fun h c hc x hx => h x (mem_subtrees.mpr ⟨c, hc, hx⟩), ?_⟩
  intro h x hx
  obtain ⟨c, hc, hx⟩ := mem_subtrees.mp hx
  exact h c hc x hx

theorem mem_subtree_of_mem_children {x e : Element} (h : x ∈ e.children) : x ∈ e.subtree := by
  have hx : x ∈ x.subtree := by
    rw [subtree_eq]
    exact List.mem_cons_self
  rw [subtree_eq]
  exact List.mem_cons_of_mem e (mem_subtrees.mpr ⟨x, h, hx⟩)

end LoadPlan.Markup.Element

namespace LoadPlan.Jmx

open LoadPlan.Markup (Element)
open LoadPlan.Markup.Element (subtrees subtrees_append subtree_eq mem_subtrees)
open LoadPlan.Scenario

/-- The tags of the components that go with a sampler. -/
def partTags : List String :=
  ["GaussianRandomTimer", "RegexExtractor", "ResponseAssertion", "ResultCollector"]

/-- The tags of the components that steps are made of. -/
def stepTags : List String :=
  ["HTTPSamplerProxy", "LoopController", "GenericController", "ThroughputController"] ++ partTags

/-- The tags of all components. -/
def componentTags : List String :=
  ["TestPlan", "ThreadGroup", "CookieManager", "CSVDataSet"] ++ stepTags

def propertyTags : List String :=
  ["stringProp", "boolProp", "intProp", "elementProp", "collectionProp", "objProp", "name", "value",
   "FloatProperty", "savedValue"] ++ savedItems.map Prod.fst

/-- No property and no tree has the tag of a component. -/
theorem not_property_of_component : ∀ tag ∈ componentTags, tag ∉ propertyTags ∧ tag ≠ treeTag := by
  decide

/-- A property, and only properties below it. -/
def IsProperty (e : Element) : Prop :=
  ∀ x ∈ e.subtree, x.tag ∈ propertyTags

/-- A component has one of certain tags, and only properties below it. -/
structure IsComponent (tags : List String) (e : Element) : Prop where
  tag_mem : e.tag ∈ tags
  properties : ∀ c ∈ e.children, IsProperty c

variable {tags : List String}

theorem isProperty_mk {tag text : String} {attributes : List (String × String)}
    {children : List Element} (ht : tag ∈ propertyTags) (hc : ∀ c ∈ children, IsProperty c) :
    IsProperty ⟨tag, attributes, text, children⟩ := by
  intro x hx
  rw [subtree_eq, List.mem_cons] at hx
  rcases hx with rfl | hx
  · exact ht
  · obtain ⟨c, hm, hx⟩ := mem_subtrees.mp hx
    exact hc c hm x hx

theorem isProperty_leaf {tag text : String} {attributes : List (String × String)}
    (ht : tag ∈ propertyTags) : IsProperty (leaf tag attributes text) :=
  isProperty_mk ht (by simp)

theorem isProperty_stringProp (name text : String) : IsProperty (stringProp name text) :=
  isProperty_leaf (by simp [propertyTags])

theorem isProperty_boolProp (name : String) (b : Bool) : IsProperty (boolProp name b) :=
  isProperty_leaf (by simp [propertyTags])

theorem isProperty_intProp (name text : String) : IsProperty (intProp name text) :=
  isProperty_leaf (by simp [propertyTags])

theorem isProperty_collectionProp {name : String} {children : List Element}
    (h : ∀ c ∈ children, IsProperty c) : IsProperty (collectionProp name children) :=
  isProperty_mk (by simp [propertyTags]) h

theorem isProperty_elementProp {name type : String} {more : List (String × String)}
    {children : List Element} (h : ∀ c ∈ children, IsProperty c) :
    IsProperty (elementProp name type more children) :=
  isProperty_mk (by simp [propertyTags]) h

theorem isComponent_component {kind gui name : String} {properties : List Element}
    (ht : kind ∈ tags) (hp : ∀ c ∈ properties, IsProperty c) :
    IsComponent tags (component kind gui name properties) :=
  ⟨ht, hp⟩

theorem IsComponent.of_part {e : Element} (h : IsComponent partTags e) : IsComponent stepTags e :=
  ⟨List.mem_append_right _ h.tag_mem, h.properties⟩

theorem IsComponent.of_step {e : Element} (h : IsComponent stepTags e) : IsComponent componentTags e :=
  ⟨List.mem_append_right _ h.tag_mem, h.properties⟩

/-! The components that are made. -/

theorem isComponent_timer (t : Timer) : IsComponent partTags (timer t) := by
  apply isComponent_component (by simp [partTags])
  simp [isProperty_stringProp]

theorem isComponent_extractor (e : Extractor) : IsComponent partTags (extractor e) := by
  apply isComponent_component (by simp [partTags])
  simp [isProperty_stringProp]

theorem isComponent_assertion (a : Assertion) : IsComponent partTags (assertion a) := by
  apply isComponent_component (by simp [partTags])
  have hl : ∀ c ∈ a.literals.map literal, IsProperty c := by
    intro c hc
    obtain ⟨text, -, rfl⟩ := List.mem_map.mp hc
    exact isProperty_stringProp _ _
  simp [isProperty_stringProp, isProperty_boolProp, isProperty_intProp,
    isProperty_collectionProp hl]

theorem isProperty_savedItem {item : String × String} (h : item ∈ savedItems) :
    IsProperty (leaf item.1 [] item.2) :=
  isProperty_leaf (List.mem_append_right _ (List.mem_map_of_mem h))

theorem isComponent_collector (gui name filename : String) :
    IsComponent partTags (collector gui name filename) := by
  apply isComponent_component (by simp [partTags])
  have hs : ∀ c ∈ savedItems.map fun item => leaf item.1 [] item.2, IsProperty c := by
    intro c hc
    obtain ⟨item, hi, rfl⟩ := List.mem_map.mp hc
    exact isProperty_savedItem hi
  have hv : IsProperty ⟨"value", [("class", "SampleSaveConfiguration")], "",
      savedItems.map fun item => leaf item.1 [] item.2⟩ :=
    isProperty_mk (by simp [propertyTags]) hs
  have hn : IsProperty (leaf "name" [] "saveConfig") := isProperty_leaf (by simp [propertyTags])
  have ho : IsProperty ⟨"objProp", [], "",
      [leaf "name" [] "saveConfig", ⟨"value", [("class", "SampleSaveConfiguration")], "",
        savedItems.map fun item => leaf item.1 [] item.2⟩]⟩ :=
    isProperty_mk (by simp [propertyTags]) (by simp [hn, hv])
  simp [isProperty_boolProp, isProperty_stringProp, ho]

theorem isProperty_argument (name value : String) : IsProperty (argument name value) := by
  apply isProperty_elementProp
  simp [isProperty_boolProp, isProperty_stringProp]

theorem isProperty_arguments (pairs : List (String × String)) : IsProperty (arguments pairs) := by
  have ha : ∀ c ∈ pairs.map fun p => argument p.1 p.2, IsProperty c := by
    intro c hc
    obtain ⟨p, -, rfl⟩ := List.mem_map.mp hc
    exact isProperty_argument _ _
  apply isProperty_elementProp
  simp [isProperty_collectionProp ha]

theorem isProperty_upload (u : Upload) : IsProperty (upload u) := by
  have hf : IsProperty (elementProp u.filename "HTTPFileArg" []
      [stringProp "File.path" u.filename, stringProp "File.paramname" u.parameter,
       stringProp "File.mimetype" u.mimeType]) := by
    apply isProperty_elementProp
    simp [isProperty_stringProp]
  have hc : IsProperty (collectionProp "HTTPFileArgs.files" [_]) :=
    isProperty_collectionProp (List.forall_mem_singleton.mpr hf)
  exact isProperty_elementProp (List.forall_mem_singleton.mpr hc)

theorem isComponent_sampler (r : Request) : IsComponent stepTags (sampler r) := by
  apply isComponent_component (by simp [stepTags])
  have hu : ∀ c ∈ r.upload.toList.map upload, IsProperty c := by
    intro c hc
    obtain ⟨u, -, rfl⟩ := List.mem_map.mp hc
    exact isProperty_upload u
  intro c hc
  rw [List.mem_cons, List.mem_append] at hc
  rcases hc with rfl | hc | hc
  · exact isProperty_arguments _
  · exact hu c hc
  · revert c
    simp [isProperty_boolProp, isProperty_stringProp]

theorem isComponent_loop (name count : String) (forever : Bool) :
    IsComponent stepTags (loop name count forever) := by
  apply isComponent_component (by simp [stepTags])
  simp [isProperty_boolProp, isProperty_intProp]

theorem isComponent_genericController (name : String) : IsComponent stepTags (genericController name) :=
  isComponent_component (by simp [stepTags]) (by simp)

theorem isComponent_throughputController (name : String) (share : Number.Double) (part : Int) :
    IsComponent stepTags (throughputController name share part) := by
  apply isComponent_component (by simp [stepTags])
  have hf : IsProperty ⟨"FloatProperty", [], "",
      [leaf "name" [] "ThroughputController.percentThroughput", leaf "value" [] share.text,
       leaf "savedValue" [] (Number.Integer.text part)]⟩ := by
    apply isProperty_mk (by simp [propertyTags])
    simp only [List.forall_mem_cons, List.not_mem_nil, false_implies, implies_true, and_true]
    exact ⟨isProperty_leaf (by simp [propertyTags]), isProperty_leaf (by simp [propertyTags]),
      isProperty_leaf (by simp [propertyTags])⟩
  simp [isProperty_boolProp, isProperty_intProp, hf]

theorem isComponent_threadGroup (onSampleError name threads rampTime : String) :
    IsComponent componentTags (threadGroup onSampleError name threads rampTime) := by
  apply isComponent_component (by simp [componentTags])
  have hc : IsProperty (elementProp "ThreadGroup.main_controller" "LoopController"
      (shown "LoopControlPanel" "LoopController" "Loop Controller")
      [boolProp "LoopController.continue_forever" false,
       stringProp "LoopController.loops" "1"]) := by
    apply isProperty_elementProp
    simp [isProperty_boolProp, isProperty_stringProp]
  simp [isProperty_boolProp, isProperty_stringProp, hc]

theorem isComponent_cookieManager : IsComponent componentTags cookieManager := by
  apply isComponent_component (by simp [componentTags])
  have hc : IsProperty (collectionProp "CookieManager.cookies" []) :=
    isProperty_collectionProp (by simp)
  simp [isProperty_boolProp, hc]

theorem isComponent_dataSet (d : DataSet) : IsComponent componentTags (dataSet d) := by
  apply isComponent_component (by simp [componentTags])
  simp [isProperty_boolProp, isProperty_stringProp]

theorem isComponent_testPlan (name : String) : IsComponent componentTags (testPlan name) := by
  apply isComponent_component (by simp [componentTags])
  have hv : IsProperty (elementProp "TestPlan.user_defined_variables" "Arguments"
      (shown "ArgumentsPanel" "Arguments" "User Defined Variables")
      [collectionProp "Arguments.arguments" []]) :=
    isProperty_elementProp (List.forall_mem_singleton.mpr (isProperty_collectionProp (by simp)))
  simp [isProperty_boolProp, isProperty_stringProp, hv]

@[simp] theorem tag_sampler (r : Request) : (sampler r).tag = "HTTPSamplerProxy" := rfl

@[simp] theorem tag_loop (name count : String) (forever : Bool) :
    (loop name count forever).tag = "LoopController" := rfl

@[simp] theorem tag_genericController (name : String) :
    (genericController name).tag = "GenericController" := rfl

@[simp] theorem tag_throughputController (name : String) (share : Number.Double) (part : Int) :
    (throughputController name share part).tag = "ThroughputController" := rfl

@[simp] theorem tag_threadGroup (onSampleError name threads rampTime : String) :
    (threadGroup onSampleError name threads rampTime).tag = "ThreadGroup" := rfl

@[simp] theorem tag_cookieManager : cookieManager.tag = "CookieManager" := rfl

@[simp] theorem tag_dataSet (d : DataSet) : (dataSet d).tag = "CSVDataSet" := rfl

@[simp] theorem tag_collector (gui name filename : String) :
    (collector gui name filename).tag = "ResultCollector" := rfl

@[simp] theorem tag_testPlan (name : String) : (testPlan name).tag = "TestPlan" := rfl

/-! Components of blocks. -/
namespace Block

mutual

/-- The component of a block and those inside, in document order. -/
def components : Block → List Element
  | ⟨element, inside⟩ => element :: componentsOf inside

def componentsOf : List Block → List Element
  | [] => []
  | b :: bs => components b ++ componentsOf bs

end

theorem componentsOf_append (a b : List Block) :
    componentsOf (a ++ b) = componentsOf a ++ componentsOf b := by
  induction a with
  | nil => rfl
  | cons x a ih => rw [List.cons_append, componentsOf, componentsOf, ih, List.append_assoc]

theorem componentsOf_flatMap {α : Type} (f : α → List Block) (xs : List α) :
    componentsOf (xs.flatMap f) = xs.flatMap fun x => componentsOf (f x) := by
  induction xs with
  | nil => rfl
  | cons x xs ih => rw [List.flatMap_cons, List.flatMap_cons, componentsOf_append, ih]

theorem componentsOf_map {α : Type} (f : α → Block) (xs : List α) :
    componentsOf (xs.map f) = xs.flatMap fun x => components (f x) := by
  induction xs with
  | nil => rfl
  | cons x xs ih => rw [List.map_cons, List.flatMap_cons, componentsOf, ih]

/-- Blocks of components with certain tags. -/
def Proper (tags : List String) (bs : List Block) : Prop :=
  ∀ e ∈ componentsOf bs, IsComponent tags e

theorem Proper.of_part {bs : List Block} (h : Proper partTags bs) : Proper stepTags bs :=
  fun e he => (h e he).of_part

theorem Proper.of_step {bs : List Block} (h : Proper stepTags bs) : Proper componentTags bs :=
  fun e he => (h e he).of_step

theorem proper_nil : Proper tags [] := by
  simp [Proper, componentsOf]

theorem proper_cons {e : Element} {inside bs : List Block} :
    Proper tags (⟨e, inside⟩ :: bs) ↔
      IsComponent tags e ∧ Proper tags inside ∧ Proper tags bs := by
  simp only [Proper, componentsOf, components, List.cons_append, List.forall_mem_cons,
    List.forall_mem_append]

theorem proper_append {a b : List Block} :
    Proper tags (a ++ b) ↔ Proper tags a ∧ Proper tags b := by
  simp only [Proper, componentsOf_append, List.forall_mem_append]

theorem proper_flatMap {α : Type} {f : α → List Block} {xs : List α}
    (h : ∀ x ∈ xs, Proper tags (f x)) : Proper tags (xs.flatMap f) := by
  intro e he
  rw [componentsOf_flatMap, List.mem_flatMap] at he
  obtain ⟨x, hx, he⟩ := he
  exact h x hx e he

/-- The components of blocks that have a tag. -/
def tagged (tag : String) (bs : List Block) : List Element :=
  (componentsOf bs).filter (·.tag == tag)

variable {tag : String}

theorem tagged_nil : tagged tag [] = [] := rfl

theorem tagged_cons (e : Element) (inside bs : List Block) :
    tagged tag (⟨e, inside⟩ :: bs) =
      (if e.tag == tag then [e] else []) ++ (tagged tag inside ++ tagged tag bs) := by
  unfold tagged
  rw [componentsOf, components, List.cons_append, List.filter_cons, List.filter_append]
  split
  · rfl
  · rfl

theorem tagged_append (a b : List Block) : tagged tag (a ++ b) = tagged tag a ++ tagged tag b := by
  unfold tagged
  rw [componentsOf_append, List.filter_append]

theorem tagged_flatMap {α : Type} (f : α → List Block) (xs : List α) :
    tagged tag (xs.flatMap f) = xs.flatMap fun x => tagged tag (f x) := by
  unfold tagged
  rw [componentsOf_flatMap, List.filter_flatMap]

theorem tagged_of_proper {bs : List Block} (h : Proper tags bs) (ht : tag ∉ tags) :
    tagged tag bs = [] := by
  unfold tagged
  rw [List.filter_eq_nil_iff]
  intro e he heq
  exact ht (beq_iff_eq.mp heq ▸ (h e he).tag_mem)

/-- Properties have the tags of properties, so what has another tag stands outside of components. -/
theorem filter_descendants {e : Element} (h : IsComponent tags e)
    (ht : tag ∉ propertyTags) : e.descendants.filter (·.tag == tag) = [] := by
  rw [List.filter_eq_nil_iff]
  intro x hx heq
  obtain ⟨c, hc, hx⟩ := mem_subtrees.mp hx
  exact ht (beq_iff_eq.mp heq ▸ h.properties c hc x hx)

/-- Among the elements of blocks, the ones with the tag of a component are components. -/
theorem filter_subtrees_elementsOf (ht : tag ∉ propertyTags) (htree : tag ≠ treeTag) :
    ∀ bs : List Block, Proper tags bs →
      (subtrees (elementsOf bs)).filter (·.tag == tag) = tagged tag bs
  | [], _ => rfl
  | ⟨e, inside⟩ :: bs, h => by
    obtain ⟨he, hi, hb⟩ := proper_cons.mp h
    have ihi := filter_subtrees_elementsOf ht htree inside hi
    have ihb := filter_subtrees_elementsOf ht htree bs hb
    have htree' : ∀ es, ((Jmx.tree es).tag == tag) = false := fun _ => beq_false_of_ne htree.symm
    have hs : ∀ es : List Element, (Jmx.tree es).subtree = Jmx.tree es :: subtrees es :=
      fun es => by rw [Jmx.tree, Element.subtree]
    rw [elementsOf, elements, subtrees_append, subtrees, subtrees, subtrees, hs, subtree_eq,
      tagged_cons]
    simp only [List.append_nil, List.cons_append, List.filter_append, List.filter_cons, htree',
      filter_descendants he ht, ihi, ihb, List.append_assoc]
    split <;> simp

end Block

end LoadPlan.Jmx
