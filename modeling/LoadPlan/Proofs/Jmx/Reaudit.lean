import LoadPlan.Proofs.Jmx.Leaves
import LoadPlan.Proofs.Jmx.Validity
import LoadPlan.Proofs.Markup.LineEnds

/-! The audit of a plan read back from its file. It differs from the audit of the plan itself in one word
at most: a bad number of threads is quoted as it was read. -/
namespace LoadPlan.Markup.Element

open LoadPlan.Text (IsWord unifyLineEnds)

variable {e : Element} {es es' : List Element} {depth : Nat} {word : String}

mutual

theorem subtree_subset : ∀ (e : Element) {x : Element}, x ∈ e.subtree → x.subtree ⊆ e.subtree
  | ⟨tag, attributes, text, children⟩, x, h => by
    rw [subtree, List.mem_cons] at h
    rcases h with rfl | h
    · exact List.Subset.refl _
    · rw [subtree]
      exact List.subset_cons_of_subset _ (subtrees_subset children h)

theorem subtrees_subset : ∀ (es : List Element) {x : Element}, x ∈ subtrees es → x.subtree ⊆ subtrees es
  | [], _, h => by cases h
  | e :: es, x, h => by
    rw [subtrees, List.mem_append] at h
    rw [subtrees]
    rcases h with h | h
    · exact List.subset_append_of_subset_left _ (subtree_subset e h)
    · exact List.subset_append_of_subset_right _ (subtrees_subset es h)

end

theorem rereadAll_eq_map (depth : Nat) (es : List Element) : rereadAll depth es = es.map (reread depth) := by
  induction es with
  | nil => rfl
  | cons e es ih => rw [rereadAll, ih, List.map_cons]

@[simp] theorem tag_reread (depth : Nat) (e : Element) : (e.reread depth).tag = e.tag := by
  obtain ⟨tag, attributes, text, children⟩ := e
  cases children <;> rw [reread]

@[simp] theorem attribute?_reread (depth : Nat) (e : Element) (name : String) :
    (e.reread depth).attribute? name = e.attribute? name := by
  obtain ⟨tag, attributes, text, children⟩ := e
  cases children <;> rw [reread] <;> rfl

theorem children_reread (depth : Nat) (e : Element) :
    (e.reread depth).children = e.children.map (reread (depth + 1)) := by
  obtain ⟨tag, attributes, text, children⟩ := e
  cases children with
  | nil => rw [reread, List.map_nil]
  | cons c cs => rw [reread, rereadAll_eq_map, List.map_cons]

theorem property?_reread (depth : Nat) (e : Element) (tag name : String) :
    (e.reread depth).property? tag name = (e.property? tag name).map (reread (depth + 1)) := by
  unfold property?
  rw [children_reread, List.find?_map]
  congr 2
  funext c
  simp

theorem mem_children_of_property? {c : Element} {tag name : String} (h : e.property? tag name = some c) :
    c ∈ e.children ∧ c.tag = tag := by
  have hfound := List.find?_some h
  rw [Bool.and_eq_true, beq_iff_eq] at hfound
  exact ⟨List.mem_of_find?_eq_some h, hfound.1⟩

theorem of_mem_descendantsTagged {x : Element} {tag : String} (h : x ∈ e.descendantsTagged tag) :
    x ∈ e.subtree ∧ x.tag = tag := by
  obtain ⟨hbelow, htag⟩ := List.mem_filter.mp h
  rw [subtree_eq]
  exact ⟨List.mem_cons_of_mem _ hbelow, beq_iff_eq.mp htag⟩

/-! Texts. -/

theorem text_reread_of_leaf (h : e.children = []) (depth : Nat) :
    (e.reread depth).text = rereadText e.text := by
  obtain ⟨tag, attributes, text, children⟩ := e
  cases h
  rw [reread]
  rfl

theorem toList_rereadText (text : String) : (rereadText text).toList = unifyLineEnds text.toList :=
  String.toList_ofList

theorem isEmpty_rereadText (text : String) : (rereadText text).isEmpty = text.isEmpty := by
  have hnil : rereadText text = "" ↔ text = "" := by
    rw [← String.toList_inj, toList_rereadText]
    exact Text.unifyLineEnds_eq_nil_iff.trans String.toList_eq_nil_iff
  rw [Bool.eq_iff_iff, String.isEmpty_iff, String.isEmpty_iff, hnil]

/-- A text that stands beside children is lost, and only blanks are read there: neither is a word. -/
theorem text_reread_eq_word_iff (hu : e.children ≠ [] → e.text = "") (hw : IsWord word.toList)
    (hne : word ≠ "") : (e.reread depth).text = word ↔ e.text = word := by
  obtain ⟨tag, attributes, text, children⟩ := e
  cases children with
  | nil =>
    rw [reread, ← String.toList_inj, String.toList_ofList, Text.unifyLineEnds_eq_word_iff hw,
      String.toList_inj]
  | cons c cs =>
    have htext : text = "" := hu (List.cons_ne_nil _ _)
    rw [reread, ← String.toList_inj, String.toList_ofList, htext]
    constructor
    · intro h
      have hline : '\n' ∈ lineStart (depth + 1) := List.mem_cons_self
      exact absurd (h ▸ hline) hw.2
    · exact fun h => absurd h.symm hne

/-! Lists of elements in document order. -/

/-- Elements and what is read of each of them. -/
def Rereads : List Element → List Element → Prop :=
  List.Forall₂ fun e e' => ∃ depth, e' = e.reread depth

mutual

theorem rereads_subtree : ∀ (depth : Nat) (e : Element), Rereads e.subtree (e.reread depth).subtree
  | depth, ⟨tag, attributes, text, []⟩ => by
    rw [reread]
    exact .cons ⟨depth, by rw [reread]⟩ .nil
  | depth, ⟨tag, attributes, text, child :: children⟩ => by
    rw [reread]
    exact .cons ⟨depth, by rw [reread]⟩ (rereads_subtrees (depth + 1) (child :: children))

theorem rereads_subtrees : ∀ (depth : Nat) (es : List Element),
    Rereads (subtrees es) (subtrees (rereadAll depth es))
  | _, [] => .nil
  | depth, e :: es => List.rel_append (rereads_subtree depth e) (rereads_subtrees depth es)

end

theorem Rereads.tagged (h : Rereads es es') (tag : String) :
    Rereads (es.filter (·.tag == tag)) (es'.filter (·.tag == tag)) := by
  refine List.rel_filter ?_ h
  rintro e e' ⟨depth, rfl⟩
  simp

theorem rereads_subtreeTagged (depth : Nat) (e : Element) (tag : String) :
    Rereads (e.subtreeTagged tag) ((e.reread depth).subtreeTagged tag) :=
  (rereads_subtree depth e).tagged tag

theorem rereads_descendantsTagged (depth : Nat) (e : Element) (tag : String) :
    Rereads (e.descendantsTagged tag) ((e.reread depth).descendantsTagged tag) := by
  unfold descendantsTagged descendants
  rw [children_reread, ← rereadAll_eq_map]
  exact (rereads_subtrees _ _).tagged tag

theorem Rereads.isEmpty (h : Rereads es es') : es'.isEmpty = es.isEmpty := by
  cases h <;> rfl

theorem Rereads.any (h : Rereads es es') {p : Element → Bool}
    (hp : ∀ e depth, p (reread depth e) = p e) : es'.any p = es.any p := by
  induction h with
  | nil => rfl
  | cons hx _ ih =>
    obtain ⟨depth, rfl⟩ := hx
    rw [List.any_cons, List.any_cons, hp, ih]

theorem Rereads.flatMap (h : Rereads es es') {α : Type} {f g : Element → List α}
    (hf : ∀ e ∈ es, ∀ depth, f (e.reread depth) = g e) : es'.flatMap f = es.flatMap g := by
  induction h with
  | nil => rfl
  | cons hx _ ih =>
    obtain ⟨depth, rfl⟩ := hx
    obtain ⟨hone, hmore⟩ := List.forall_mem_cons.mp hf
    rw [List.flatMap_cons, List.flatMap_cons, hone, ih hmore]

theorem Rereads.flatMap_zipIdx (h : Rereads es es') {α : Type} {f g : Element → Nat → List α}
    (hf : ∀ e ∈ es, ∀ depth number, f (e.reread depth) number = g e number) (number : Nat) :
    (es'.zipIdx number).flatMap (fun s => f s.1 s.2) =
      (es.zipIdx number).flatMap fun s => g s.1 s.2 := by
  induction h generalizing number with
  | nil => rfl
  | cons hx _ ih =>
    obtain ⟨depth, rfl⟩ := hx
    obtain ⟨hone, hmore⟩ := List.forall_mem_cons.mp hf
    rw [List.zipIdx_cons, List.zipIdx_cons, List.flatMap_cons, List.flatMap_cons, hone, ih hmore]

end LoadPlan.Markup.Element

namespace LoadPlan.Jmx

open LoadPlan.Markup (Element)
open LoadPlan.Markup.Element (Rereads rereadText rereads_subtreeTagged rereads_descendantsTagged)
open LoadPlan.Scenario
open LoadPlan.Text (IsWord)

/-- A tree in which no text stands beside children, and in which the text properties that an audit reads
have no children. -/
structure Auditable (root : Element) : Prop where
  unmixed : ∀ x ∈ root.subtree, ∀ c ∈ x.children, c.children ≠ [] → c.text = ""
  flat : ∀ x ∈ root.subtree, x.tag = "ThreadGroup" ∨ x.tag = "HTTPSamplerProxy" →
    ∀ c ∈ x.children, c.tag = "stringProp" → c.children = []

/-- The only text that is quoted is a bad number of threads. -/
def Issue.reread : Issue → Issue
  | .badThreads group text => .badThreads group (rereadText text)
  | i => i

namespace Audit

variable {e : Element}

@[simp] theorem testName_reread (depth : Nat) (e : Element) : testName (e.reread depth) = testName e := by
  unfold testName
  rw [Element.attribute?_reread]

theorem structureIssues_reread (depth : Nat) (root : Element) :
    structureIssues (root.reread depth) = (structureIssues root).map Issue.reread := by
  have htree : (root.reread depth).children.any (·.tag == treeTag) =
      root.children.any (·.tag == treeTag) := by
    rw [Element.children_reread, List.any_map]
    congr 1
    funext c
    simp
  unfold structureIssues
  rw [Element.tag_reread, (rereads_descendantsTagged depth root "TestPlan").isEmpty,
    (rereads_descendantsTagged depth root "ThreadGroup").isEmpty, htree]
  simp only [apply_ite (List.map Issue.reread), List.map_append, List.map_cons, List.map_nil,
    Issue.reread]

theorem pairingIssue?_reread (depth : Nat) (es : List Element) :
    pairingIssue? (es.map (Element.reread depth)) = (pairingIssue? es).map Issue.reread := by
  fun_induction pairingIssue? es with
  | case1 => rfl
  | case2 e rest h => cases rest <;> simp [pairingIssue?, h, Issue.reread]
  | case3 e h => simp [pairingIssue?, h, Issue.reread]
  | case4 e h t rest ht ih => simpa [pairingIssue?, h, ht] using ih
  | case5 e h t rest ht => simp [pairingIssue?, h, ht, Issue.reread]

theorem pairingIssues_reread (depth : Nat) (root : Element) :
    pairingIssues (root.reread depth) = (pairingIssues root).map Issue.reread := by
  unfold pairingIssues
  rw [List.map_filterMap, List.filterMap_eq_flatMap_toList, List.filterMap_eq_flatMap_toList]
  refine (rereads_subtreeTagged depth root treeTag).flatMap fun t _ k => ?_
  rw [Element.children_reread, pairingIssue?_reread]

/-! Thread groups. -/

theorem threadsIssue?_reread (hf : ∀ c ∈ e.children, c.tag = "stringProp" → c.children = [])
    (name : String) (depth : Nat) :
    threadsIssue? name (e.reread depth) = (threadsIssue? name e).map Issue.reread := by
  unfold threadsIssue?
  rw [Element.property?_reread]
  cases hp : e.property? "stringProp" "ThreadGroup.num_threads" with
  | none => rfl
  | some p =>
    obtain ⟨hmem, htag⟩ := Element.mem_children_of_property? hp
    have htext := Element.text_reread_of_leaf (hf p hmem htag) (depth + 1)
    have hword : IsWord "$\x7b".toList := by decide
    have hmark : "$\x7b".toList.isPrefixOf (rereadText p.text).toList =
        "$\x7b".toList.isPrefixOf p.text.toList := by
      rw [Bool.eq_iff_iff, List.isPrefixOf_iff_prefix, List.isPrefixOf_iff_prefix,
        Element.toList_rereadText]
      exact Text.isPrefix_unifyLineEnds_iff hword
    have hnumber : Number.Integer.read? (if p.text.isEmpty then "0" else rereadText p.text) =
        Number.Integer.read? (if p.text.isEmpty then "0" else p.text) := by
      split
      · rfl
      · exact Number.Integer.read?_unifyLineEnds p.text
    simp only [Option.map_some, htext, hmark, Element.isEmpty_rereadText, hnumber]
    split
    · rfl
    · split
      · split <;> rfl
      · rfl

/-- Whether a property is set to a word is read back. -/
theorem any_property_reread {word : String} (hu : ∀ c ∈ e.children, c.children ≠ [] → c.text = "")
    (hw : IsWord word.toList) (hne : word ≠ "") (tag name : String) (depth : Nat) :
    ((e.reread depth).property? tag name).any (·.text == word) =
      (e.property? tag name).any (·.text == word) := by
  rw [Element.property?_reread]
  cases hp : e.property? tag name with
  | none => rfl
  | some p =>
    have hmem := (Element.mem_children_of_property? hp).1
    simp only [Option.map_some, Option.any_some]
    rw [Bool.eq_iff_iff, beq_iff_eq, beq_iff_eq]
    exact Element.text_reread_eq_word_iff (hu p hmem) hw hne

theorem isFilled_reread (hf : ∀ c ∈ e.children, c.tag = "stringProp" → c.children = []) (name : String)
    (depth : Nat) : isFilled (e.reread depth) name = isFilled e name := by
  unfold isFilled
  rw [Element.property?_reread]
  cases hp : e.property? "stringProp" name with
  | none => rfl
  | some p =>
    obtain ⟨hmem, htag⟩ := Element.mem_children_of_property? hp
    simp only [Option.map_some, Option.any_some]
    rw [Element.text_reread_of_leaf (hf p hmem htag), Element.isEmpty_rereadText]

theorem hasLoops_reread (depth : Nat) (e : Element) : hasLoops (e.reread depth) = hasLoops e :=
  (rereads_descendantsTagged depth e "stringProp").any fun _ _ => by rw [Element.attribute?_reread]

theorem groupIssues_reread (hu : ∀ c ∈ e.children, c.children ≠ [] → c.text = "")
    (hf : ∀ c ∈ e.children, c.tag = "stringProp" → c.children = []) (depth : Nat) :
    groupIssues (e.reread depth) = (groupIssues e).map Issue.reread := by
  have hscheduled : isScheduled (e.reread depth) = isScheduled e :=
    any_property_reread hu (by decide) (by decide) _ _ depth
  have hramp : ((e.reread depth).property? "stringProp" "ThreadGroup.ramp_time").isNone =
      (e.property? "stringProp" "ThreadGroup.ramp_time").isNone := by
    rw [Element.property?_reread, Option.isNone_map]
  have hthreads : ∀ name, (threadsIssue? name (e.reread depth)).toList =
      (threadsIssue? name e).toList.map Issue.reread := by
    intro name
    rw [threadsIssue?_reread hf]
    cases threadsIssue? name e <;> rfl
  -- Every other complaint is about the absence of something, and quotes nothing.
  unfold groupIssues
  simp only [Element.attribute?_reread, hscheduled, hramp, hasLoops_reread, isFilled_reread hf, hthreads,
    List.map_append, apply_ite (List.map Issue.reread), List.map_cons, List.map_nil, Issue.reread]

/-! Samplers. -/

theorem hasRequestDefaults_reread (depth : Nat) (root : Element) :
    hasRequestDefaults (root.reread depth) = hasRequestDefaults root :=
  (rereads_descendantsTagged depth root "ConfigTestElement").any fun _ _ => by
    rw [Element.attribute?_reread]

theorem samplerIssues_reread (hf : ∀ c ∈ e.children, c.tag = "stringProp" → c.children = [])
    (depth : Nat) (root : Element) (k number : Nat) :
    samplerIssues (root.reread depth) (e.reread k) number =
      (samplerIssues root e number).map Issue.reread := by
  unfold samplerIssues
  simp only [testName_reread, isFilled_reread hf, hasRequestDefaults_reread, List.map_append,
    apply_ite (List.map Issue.reread), List.map_cons, List.map_nil, Issue.reread]

theorem samplersIssues_eq (root : Element) :
    samplersIssues root =
      if (root.descendantsTagged "HTTPSamplerProxy").isEmpty then [.noSampler]
      else ((root.descendantsTagged "HTTPSamplerProxy").zipIdx 1).flatMap fun s =>
        samplerIssues root s.1 s.2 := by
  unfold samplersIssues
  cases root.descendantsTagged "HTTPSamplerProxy" <;> rfl

/-! Whole trees. -/

variable {root : Element}

theorem samplersIssues_reread (h : Auditable root) (depth : Nat) :
    samplersIssues (root.reread depth) = (samplersIssues root).map Issue.reread := by
  have hsamplers := rereads_descendantsTagged depth root "HTTPSamplerProxy"
  have hall : ∀ x ∈ root.descendantsTagged "HTTPSamplerProxy", ∀ k number,
      samplerIssues (root.reread depth) (x.reread k) number =
        (samplerIssues root x number).map Issue.reread := by
    intro x hx k number
    obtain ⟨hmem, htag⟩ := Element.of_mem_descendantsTagged hx
    exact samplerIssues_reread (h.flat x hmem (.inr htag)) depth root k number
  have hissues := hsamplers.flatMap_zipIdx
    (g := fun x number => (samplerIssues root x number).map Issue.reread) hall 1
  rw [samplersIssues_eq, samplersIssues_eq, hsamplers.isEmpty, hissues,
    apply_ite (List.map Issue.reread), List.map_flatMap]
  rfl

theorem issuesOf_reread (h : Auditable root) (depth : Nat) :
    issuesOf (root.reread depth) = (issuesOf root).map Issue.reread := by
  have hgroups : ((root.reread depth).subtreeTagged "ThreadGroup").flatMap groupIssues =
      (root.subtreeTagged "ThreadGroup").flatMap fun g => (groupIssues g).map Issue.reread := by
    refine (rereads_subtreeTagged depth root "ThreadGroup").flatMap fun g hg k => ?_
    obtain ⟨hmem, htag⟩ := List.mem_filter.mp hg
    exact groupIssues_reread (h.unmixed g hmem) (h.flat g hmem (.inl (beq_iff_eq.mp htag))) k
  unfold issuesOf
  rw [structureIssues_reread, pairingIssues_reread, hgroups, samplersIssues_reread h]
  simp only [List.map_append, List.map_flatMap]

/-- The advice on the number of threads is about the integer that is read. -/
theorem threadsAdvice?_reread (h : Auditable root) (depth : Nat) :
    threadsAdvice? (root.reread depth) = threadsAdvice? root := by
  have hgroups := rereads_descendantsTagged depth root "ThreadGroup"
  unfold threadsAdvice?
  cases hg : root.descendantsTagged "ThreadGroup" with
  | nil =>
    rw [hg] at hgroups
    rw [List.forall₂_nil_left_iff.mp hgroups]
  | cons g gs =>
    rw [hg] at hgroups
    obtain ⟨g', gs', ⟨k, rfl⟩, -, hread⟩ := List.forall₂_cons_left_iff.mp hgroups
    have hfirst : g ∈ root.descendantsTagged "ThreadGroup" := by
      rw [hg]
      exact List.mem_cons_self
    obtain ⟨hmem, htag⟩ := Element.of_mem_descendantsTagged hfirst
    simp only [hread, Element.property?_reread]
    cases hp : g.property? "stringProp" "ThreadGroup.num_threads" with
    | none => rfl
    | some p =>
      obtain ⟨hchild, hstring⟩ := Element.mem_children_of_property? hp
      have hleaf := h.flat g hmem (.inl htag) p hchild hstring
      simp only [Option.map_some]
      rw [Element.text_reread_of_leaf hleaf, rereadText, Number.Integer.read?_unifyLineEnds]

theorem endlessLoop?_reread (hu : ∀ c ∈ e.children, c.children ≠ [] → c.text = "") (depth : Nat) :
    endlessLoop? (e.reread depth) = endlessLoop? e := by
  unfold endlessLoop?
  rw [any_property_reread hu (by decide) (by decide), testName_reread]

theorem adviceOn_reread (h : Auditable root) (depth : Nat) :
    adviceOn (root.reread depth) = adviceOn root := by
  have htimers : lacksTimers (root.reread depth) = lacksTimers root := by
    unfold lacksTimers
    congr 1
    funext tag
    exact (rereads_subtreeTagged depth root tag).isEmpty
  have hloops : ((root.reread depth).subtreeTagged "LoopController").filterMap endlessLoop? =
      (root.subtreeTagged "LoopController").filterMap endlessLoop? := by
    rw [List.filterMap_eq_flatMap_toList, List.filterMap_eq_flatMap_toList]
    refine (rereads_subtreeTagged depth root "LoopController").flatMap fun l hl k => ?_
    rw [endlessLoop?_reread (h.unmixed l (List.mem_filter.mp hl).1)]
  simp only [adviceOn]
  rw [htimers, (rereads_descendantsTagged depth root "HTTPSamplerProxy").isEmpty,
    (rereads_descendantsTagged depth root "ResponseAssertion").isEmpty,
    (rereads_descendantsTagged depth root "DurationAssertion").isEmpty, hloops,
    threadsAdvice?_reread h]

/-- The audit of a tree and of what is read of it. -/
theorem ofElement_reread (h : Auditable root) (depth : Nat) :
    ofElement (root.reread depth) =
      ⟨(ofElement root).issues.map Issue.reread, (ofElement root).advice⟩ := by
  unfold ofElement
  rw [issuesOf_reread h, adviceOn_reread h]

end Audit

/-! Plans. -/

theorem flat_sampler (r : Request) : ∀ c ∈ (sampler r).children, c.tag = "stringProp" → c.children = [] := by
  have hupload : ∀ c ∈ r.upload.toList.map upload, c.tag = "stringProp" → c.children = [] := by
    intro c hc ht
    obtain ⟨u, -, rfl⟩ := List.mem_map.mp hc
    exact absurd ht (by simp [upload, elementProp])
  have harguments : (arguments r.pairs).tag = "stringProp" → (arguments r.pairs).children = [] :=
    fun ht => absurd ht (by simp [arguments, elementProp])
  have hleaf : ∀ tag attributes text, (leaf tag attributes text).children = [] := fun _ _ _ => rfl
  simp only [sampler, component, List.forall_mem_cons, List.forall_mem_append]
  refine ⟨harguments, hupload, ?_⟩
  simp [stringProp, boolProp, hleaf]

theorem flat_threadGroup (onSampleError name threads rampTime : String) :
    ∀ c ∈ (threadGroup onSampleError name threads rampTime).children,
      c.tag = "stringProp" → c.children = [] := by
  have hleaf : ∀ tag attributes text, (leaf tag attributes text).children = [] := fun _ _ _ => rfl
  simp [threadGroup, component, stringProp, boolProp, hleaf, elementProp]

theorem auditable_root (w : Workshop) (s : Scenario) (number : Nat) :
    Auditable (Layout.root w s number) where
  unmixed x hx c hc :=
    Layout.unmixed_root w s number c
      (Element.subtree_subset _ hx (Element.mem_subtree_of_mem_children hc))
  flat x hx ht := by
    have htagged : x.tag ≠ "jmeterTestPlan" → x ∈ (Layout.root w s number).descendantsTagged x.tag := by
      intro hne
      rw [Element.subtree_eq, List.mem_cons] at hx
      rcases hx with rfl | hx
      · exact absurd rfl hne
      · exact List.mem_filter.mpr ⟨hx, beq_self_eq_true x.tag⟩
    rcases ht with ht | ht
    · have hgroup := htagged (by rw [ht]; decide)
      rw [ht, threadGroups_root, List.mem_cons] at hgroup
      rcases hgroup with rfl | hgroup
      · exact flat_threadGroup _ _ _ _
      · obtain ⟨title, rfl⟩ := threadGroups_dataSets w _ _ hgroup
        exact flat_threadGroup _ _ _ _
    · have hsampler := htagged (by rw [ht]; decide)
      rw [ht, samplers_root] at hsampler
      obtain ⟨r, -, rfl⟩ := List.mem_map.mp hsampler
      exact flat_sampler r

end LoadPlan.Jmx

namespace LoadPlan.Build

open LoadPlan.Jmx
open LoadPlan.Markup (Legible)
open LoadPlan.Markup.Element (rereadText)
open LoadPlan.Storage (Disk)

variable {disk store after : Disk} {settings : Settings} {source path : String} {s : Scenario}
  {diagnostics : List Diagnostic} {d : Draft}

/-- The audit of the file of a plan, if all that is written in it is legible. -/
theorem audit_of_written (ha : assemble disk settings source s diagnostics = .ok d)
    (hr : ∀ x ∈ d.root.subtree, x.Readable)
    (hw : PlanFile.write store (.ofString path) d.root = (after, .ok ())) :
    PlanFile.audit after path =
      .ok ⟨(Audit.ofElement d.root).issues.map Issue.reread, (Audit.ofElement d.root).advice⟩ := by
  obtain ⟨-, rfl⟩ := assemble_eq_ok_iff.mp ha
  have hnamed := Layout.named_root ⟨disk, settings, source⟩ s 0
  rw [PlanFile.audit, PlanFile.read_of_readable hnamed hr hw]
  exact congrArg Except.ok (Audit.ofElement_reread (auditable_root _ s 0) 0)

/-- A plan of legible strings is audited alike in memory and in its file: it is valid in both or in
neither, with as many complaints and the same advice. -/
theorem audit_written_eq (hs : s.Spelled (fun x => Legible x.toList) fun x => Legible x.toList)
    (hv : Legible settings.version.toList) (he : Legible settings.onSampleError.toList)
    (ha : assemble disk settings source s diagnostics = .ok d)
    (hw : PlanFile.write store (.ofString path) d.root = (after, .ok ())) :
    ∃ a, PlanFile.audit after path = .ok a ∧ a.valid = (Audit.ofElement d.root).valid ∧
      a.issues.length = (Audit.ofElement d.root).issues.length ∧
      a.advice = (Audit.ofElement d.root).advice := by
  have hd : ∀ d ∈ s.allDataSets, Legible d.delimiter.toList := fun d hd =>
    (Scenario.dataSet_spelled_iff.mp (Scenario.spelledSets_iff.mp hs.allDataSets d hd)).2.1
  have hr : ∀ x ∈ d.root.subtree, x.Readable := by
    obtain ⟨-, rfl⟩ := assemble_eq_ok_iff.mp ha
    exact (Layout.readable_root_iff hs).mpr ⟨hv, he, hd⟩
  refine ⟨_, audit_of_written ha hr hw, ?_, List.length_map _, rfl⟩
  exact List.isEmpty_map

/-- A number of threads over two lines. -/
def brokenThreads : Scenario := ⟨[.request returnRequest], [], [("numthreads", "1\r2")]⟩

theorem spelled_brokenThreads :
    brokenThreads.Spelled (fun x => Legible x.toList) fun x => Legible x.toList := by
  have hr : ∀ x ∈ returnRequest.strings, Legible x.toList := by decide
  exact ⟨⟨hr, trivial⟩, trivial, by decide⟩

theorem exists_brokenPlan : ∃ d, assemble ⟨[], []⟩ .standard "main.xml" brokenThreads [] = .ok d ∧
    d.root = Layout.root emptyWorkshop brokenThreads 0 := by
  have hfaults : Layout.planFaults emptyWorkshop brokenThreads = [] := by decide
  exact ⟨_, assemble_eq_ok_iff.mpr ⟨hfaults, rfl⟩, rfl⟩

theorem issues_brokenThreads : ∃ group more,
    (Audit.ofElement (Layout.root emptyWorkshop brokenThreads 0)).issues =
      .badThreads group "1\r2" :: more := by
  refine ⟨Workshop.groupName 0 "Test Plan",
    Audit.samplersIssues (Layout.root emptyWorkshop brokenThreads 0), ?_⟩
  change Audit.issuesOf _ = _
  rw [issuesOf_root, Audit.threadsIssue?, num_threads]
  rfl

/-- The complaint about the threads quotes the file, where the line ends in another way. -/
theorem audit_written_eq_brokenThreads : ∃ d after a,
    assemble ⟨[], []⟩ .standard "main.xml" brokenThreads [] = .ok d ∧
      PlanFile.write ⟨[], []⟩ (.ofString "o") d.root = (after, .ok ()) ∧
      PlanFile.audit after "o" = .ok a ∧
      a.issues.length = (Audit.ofElement d.root).issues.length ∧
      a.issues ≠ (Audit.ofElement d.root).issues := by
  obtain ⟨d, ha, hroot⟩ := exists_brokenPlan
  have hw := write_to_empty d.root
  obtain ⟨a, haudit, -, hlength, -⟩ := audit_written_eq spelled_brokenThreads (by decide) (by decide) ha hw
  have hread : ∀ x ∈ d.root.subtree, x.Readable := by
    rw [hroot, Layout.readable_root_iff spelled_brokenThreads]
    exact ⟨by decide, by decide, List.forall_mem_nil _⟩
  have hback := audit_of_written ha hread hw
  refine ⟨d, _, a, ha, hw, haudit, hlength, fun hsame => ?_⟩
  obtain ⟨group, more, hissues⟩ := issues_brokenThreads
  rw [haudit, Except.ok.injEq] at hback
  rw [hback, hroot, hissues] at hsame
  have htext : rereadText "1\r2" = "1\r2" := (Issue.badThreads.inj (List.cons.inj hsame).1).2
  exact absurd htext (by decide)

end LoadPlan.Build
