import LoadPlan.Proofs.Jmx.Sound

/-! Whole plans are sound as far as the records and the settings are. -/
namespace LoadPlan.Jmx

open LoadPlan.Markup (Element Admits Legible)
open LoadPlan.Markup.Element (AreNames subtrees subtree_eq mem_subtree_of_mem_children)
open LoadPlan.Scenario

variable {C D : String → Prop} {w : Workshop} {s : Scenario}

namespace Block

/-- Blocks of components that are sound. -/
def Sound (C : String → Prop) (bs : List Block) : Prop :=
  ∀ e ∈ componentsOf bs, e.AllSound C

theorem sound_nil : Sound C [] :=
  List.forall_mem_nil _

theorem sound_cons {e : Element} {inside bs : List Block} :
    Sound C (⟨e, inside⟩ :: bs) ↔ e.AllSound C ∧ Sound C inside ∧ Sound C bs := by
  simp only [Sound, componentsOf, components, List.cons_append, List.forall_mem_cons,
    List.forall_mem_append]

theorem sound_append {a b : List Block} : Sound C (a ++ b) ↔ Sound C a ∧ Sound C b := by
  simp only [Sound, componentsOf_append, List.forall_mem_append]

theorem sound_flatMap {α : Type} {f : α → List Block} {xs : List α} (h : ∀ x ∈ xs, Sound C (f x)) :
    Sound C (xs.flatMap f) := by
  intro e he
  rw [componentsOf_flatMap, List.mem_flatMap] at he
  obtain ⟨x, hx, he⟩ := he
  exact h x hx e he

theorem sound_map {α : Type} {f : α → Element} {xs : List α} (h : ∀ x ∈ xs, (f x).AllSound C) :
    Sound C (xs.map fun x => ⟨f x, []⟩) := by
  intro e he
  rw [componentsOf_map, List.mem_flatMap] at he
  obtain ⟨x, hx, he⟩ := he
  rw [List.mem_singleton.mp he]
  exact h x hx

/-- The trees after the components are sound too. -/
theorem sound_elementsOf (hC : Admits C) : ∀ bs : List Block, Sound C bs →
    ∀ e ∈ elementsOf bs, e.AllSound C
  | [], _ => List.forall_mem_nil _
  | ⟨e, inside⟩ :: bs, h => by
    obtain ⟨he, hi, hb⟩ := sound_cons.mp h
    have htree : Element.AllSound C ⟨treeTag, [], "", elementsOf inside⟩ :=
      sound_mk hC (by decide) areNames_nil (List.forall_mem_nil _) (sound_elementsOf hC inside hi)
    exact List.forall_mem_cons.mpr ⟨he, List.forall_mem_cons.mpr ⟨htree, sound_elementsOf hC bs hb⟩⟩

/-- Components stand in the tree with all that is below them. -/
theorem subtree_subset_elementsOf : ∀ bs : List Block, ∀ e ∈ componentsOf bs,
    e.subtree ⊆ subtrees (elementsOf bs)
  | [], _, he => by cases he
  | ⟨element, inside⟩ :: bs, e, he => by
    rw [componentsOf, components, List.cons_append, List.mem_cons, List.mem_append] at he
    rw [elementsOf, elements, List.cons_append, List.singleton_append, subtrees, subtrees, Jmx.tree,
      Element.subtree]
    intro x hx
    rw [List.mem_append, List.mem_append, List.mem_cons]
    rcases he with rfl | he | he
    · exact .inl hx
    · exact .inr (.inl (.inr (subtree_subset_elementsOf inside e he hx)))
    · exact .inr (.inr (subtree_subset_elementsOf bs e he hx))

end Block

open Block (sound_nil sound_cons sound_append sound_flatMap sound_map)

namespace Layout

section

variable (hC : Admits C)
include hC

theorem sound_results {r : Results} (h : ∀ x ∈ r.strings, C x) : Block.Sound C [ofResults r] := by
  simp only [Results.strings, List.forall_mem_cons] at h
  obtain ⟨hfile, hname, htype, -⟩ := h
  exact sound_cons.mpr ⟨sound_collector hC htype (hC.append hname (hC.legible (by decide))) hfile,
    sound_nil, sound_nil⟩

theorem sound_timers {ts : List Timer} (h : ∀ x ∈ ts.flatMap Timer.strings, C x) :
    Block.Sound C (ts.map ofTimer) :=
  sound_map fun t ht => sound_timer hC fun x hx => h x (List.mem_flatMap.mpr ⟨t, ht, hx⟩)

theorem sound_parts {r : Request} (h : ∀ x ∈ r.partStrings, C x) : Block.Sound C (parts r) := by
  simp only [Request.partStrings, List.forall_mem_append] at h
  obtain ⟨⟨⟨hextractors, htimers⟩, hassertions⟩, hresults⟩ := h
  have he : Block.Sound C (r.extractors.map ofExtractor) :=
    sound_map fun e he => sound_extractor hC fun x hx => hextractors x (List.mem_flatMap.mpr ⟨e, he, hx⟩)
  have ha : Block.Sound C (r.assertions.filterMap ofAssertion?) := by
    rw [List.filterMap_eq_flatMap_toList]
    refine sound_flatMap fun a ha => ?_
    unfold ofAssertion?
    split
    · exact sound_nil
    · have hs := sound_assertion hC fun x hx => hassertions x (List.mem_flatMap.mpr ⟨a, ha, hx⟩)
      exact sound_cons.mpr ⟨hs, sound_nil, sound_nil⟩
  have hr : Block.Sound C (r.results.toList.map ofResults) := by
    rw [List.map_eq_flatMap]
    exact sound_flatMap fun x hx => sound_results hC fun y hy =>
      hresults y (List.mem_flatMap.mpr ⟨x, hx, hy⟩)
  unfold parts
  simp only [sound_append]
  exact ⟨⟨⟨he, sound_timers hC htimers⟩, ha⟩, hr⟩

theorem sound_request {r : Request} (h : ∀ x ∈ r.strings, C x) : Block.Sound C (ofRequest r) := by
  have hparts : ∀ x ∈ r.partStrings, C x := fun x hx => h x (List.mem_append_right _ hx)
  unfold ofRequest
  split
  · exact sound_cons.mpr ⟨sound_sampler hC h, sound_parts hC hparts, sound_nil⟩
  · refine sound_cons.mpr ⟨sound_sampler hC h, sound_nil, sound_timers hC fun x hx => hparts x ?_⟩
    unfold Request.partStrings
    simp only [List.mem_append]
    exact .inl (.inl (.inr hx))

theorem sound_loops {l : Loop} (h : ∀ x ∈ l.strings, C x) : Block.Sound C (ofLoop l) := by
  obtain ⟨hname, htests⟩ := List.forall_mem_cons.mp h
  unfold ofLoop
  split
  · exact sound_nil
  · refine sound_cons.mpr ⟨sound_loop hC hname (legible_integerText _) _, sound_flatMap fun r hr => ?_,
      sound_nil⟩
    exact sound_request hC fun x hx => htests x (List.mem_flatMap.mpr ⟨r, hr, hx⟩)

end

mutual

theorem sound_step (hC : Admits C) : ∀ e : Entry, e.Spelled C D → Block.Sound C (ofStep e)
  | .timer _, h => sound_cons.mpr ⟨sound_timer hC h, sound_nil, sound_nil⟩
  | .request _, h => sound_request hC h
  | .loop _, h => sound_loops hC h
  | .controller c, h => sound_controller hC c h
  | .repeated _, _ => sound_nil

theorem sound_controller (hC : Admits C) : ∀ c : Controller, c.Spelled C D → Block.Sound C [ofController c]
  | ⟨_, share, stack, _, _, _⟩, ⟨hname, hstack, _⟩ => by
    have hinside := sound_cons.mpr ⟨sound_throughputController hC hname share (share.integerPart?.getD 0),
      sound_steps hC stack hstack, sound_nil⟩
    exact sound_cons.mpr ⟨sound_genericController hC hname, hinside, sound_nil⟩

theorem sound_steps (hC : Admits C) : ∀ es : List Entry, SpelledSteps C D es → Block.Sound C (ofSteps es)
  | [], _ => sound_nil
  | e :: es, ⟨he, hs⟩ => sound_append.mpr ⟨sound_step hC e he, sound_steps hC es hs⟩

end

/-! Thread groups and whole plans. -/

theorem value_orReport (i : Info) (name fallback : String) (p : Problem) :
    (i.orReport name fallback p).value = Fields.getD i name fallback := by
  unfold Info.orReport Fields.getD
  cases Fields.get? i name <;> rfl

section

variable (hC : Admits C)
include hC

theorem groupName_admitted {name : String} (number : Nat) (hn : C name) :
    C (Workshop.groupName number name) := by
  have hopen : Legible "Thread Group [".toList := by decide
  have hclose : C "]: " := hC.legible (by decide)
  exact hC.append (hC.append (hC.label hopen (hC.legible (legible_repr number))) hclose) hn

theorem sound_groups {name : String} {bss : List (List Block)} (he : C w.settings.onSampleError)
    (hn : C name) (hi : ∀ bs ∈ bss, Block.Sound C bs) (number : Nat) :
    Block.Sound C (groups w name number bss) := by
  induction bss generalizing number with
  | nil => exact sound_nil
  | cons bs bss ih =>
    obtain ⟨hb, hs⟩ := List.forall_mem_cons.mp hi
    have hgroup := sound_threadGroup hC he (groupName_admitted hC number hn)
      (hC.legible (x := "1") (by decide)) (hC.legible (legible_integerText w.settings.rampTime))
    rw [groups_cons]
    exact sound_cons.mpr ⟨hgroup, sound_cons.mpr ⟨sound_cookieManager hC, sound_nil, hb⟩, ih hs _⟩

theorem sound_dataSets {ds : List DataSet} (he : C w.settings.onSampleError)
    (hs : SpelledSets C D ds) (hd : ∀ d ∈ ds, C d.delimiter) (number : Nat) :
    Block.Sound C (ofDataSets w number ds) := by
  induction ds generalizing number with
  | nil => exact sound_nil
  | cons d ds ih =>
    obtain ⟨hd, hds⟩ := List.forall_mem_cons.mp hd
    obtain ⟨hstrings, -, hstack⟩ := dataSet_spelled_iff.mp hs.1
    have hrunning := spelledSteps_iff.mp (spelled_running w.disk hstack)
    have hinsides : ∀ bs ∈ insides (d.running w.disk), Block.Sound C bs := by
      intro bs hb
      obtain ⟨e, hr, rfl⟩ := List.mem_map.mp (List.mem_filter.mp hb).1
      exact sound_step hC e (hrunning e hr)
    have hgroups := sound_groups hC he (hstrings d.name List.mem_cons_self) hinsides number
    rw [ofDataSets, ofDataSet]
    exact sound_cons.mpr ⟨sound_dataSet hC hstrings hd, sound_nil,
      sound_append.mpr ⟨hgroups, ih hs.2 hds _⟩⟩

/-- A plan is sound if its records are, together with the settings that are written. -/
theorem sound_root (hs : s.Spelled C D) (hd : ∀ d ∈ s.allDataSets, C d.delimiter)
    (he : C w.settings.onSampleError) (hv : C w.settings.version) (number : Nat) :
    (root w s number).AllSound C := by
  have hinfo : Fields.Spelled C s.info := hs.info
  have hname : C s.info.planName.value := by
    rw [Info.planName, value_orReport]
    exact hinfo.getD (hC.legible (by decide))
  have hthreads : C s.info.threads.value := hinfo.getD (hC.legible (by decide))
  have hlog : C s.info.assertLog.value := by
    rw [Info.assertLog, value_orReport]
    exact hinfo.getD (hC.legible (by decide))
  have htype : C s.info.assertType.value := hinfo.getD (hC.legible (by decide))
  have hramp : C (rampTime w s) := hinfo.getD (hC.legible (legible_integerText _))
  have hfailed := sound_collector hC htype (hC.legible (x := "Assertion Results") (by decide)) hlog
  have hgroup := sound_threadGroup hC he (groupName_admitted hC number hname) hthreads hramp
  have hcontent : Block.Sound C (content w s number) :=
    sound_cons.mpr ⟨hfailed, sound_nil, sound_cons.mpr ⟨hgroup,
      sound_cons.mpr ⟨sound_cookieManager hC, sound_nil, sound_steps hC _ hs.stack⟩,
      sound_dataSets hC he hs.allDataSets hd _⟩⟩
  have hplan : Block.Sound C [⟨testPlan s.info.planName.value, content w s number⟩] :=
    sound_cons.mpr ⟨sound_testPlan hC hname, hcontent, sound_nil⟩
  have htree : (Block.tree [⟨testPlan s.info.planName.value, content w s number⟩]).AllSound C :=
    sound_mk hC (by decide) areNames_nil (List.forall_mem_nil _) (Block.sound_elementsOf hC _ hplan)
  have hnames : AreNames ["version", "properties", "jmeter"] := by decide
  refine sound_mk hC (by decide) hnames ?_ (List.forall_mem_singleton.mpr htree)
  simp only [List.forall_mem_cons]
  exact ⟨hC.legible (by decide), hv, hv, List.forall_mem_nil _⟩

end

theorem named_root (w : Workshop) (s : Scenario) (number : Nat) : (root w s number).Named := by
  have hs : s.Spelled Any Any := ⟨spelledSteps_any _, spelledSets_any _, fun _ _ => trivial⟩
  exact (sound_root Markup.admits_any hs (fun _ _ => trivial) trivial trivial number).named

/-- No element of a plan has text beside its children. -/
theorem unmixed_root (w : Workshop) (s : Scenario) (number : Nat) :
    ∀ x ∈ (root w s number).subtree, x.children ≠ [] → x.text = "" := by
  have hs : s.Spelled Any Any := ⟨spelledSteps_any _, spelledSets_any _, fun _ _ => trivial⟩
  exact fun x hx => (sound_root Markup.admits_any hs (fun _ _ => trivial) trivial trivial number x hx).unmixed

/-! What any plan holds. -/

theorem subtree_subset_root {e : Element} {number : Nat}
    (h : e ∈ Block.componentsOf (content w s number)) : e.subtree ⊆ (root w s number).subtree := by
  have hplan : e ∈ Block.componentsOf [⟨testPlan s.info.planName.value, content w s number⟩] :=
    List.mem_cons_of_mem _ (List.mem_append_left _ h)
  have hsub := Block.subtree_subset_elementsOf _ e hplan
  rw [root, Element.subtree, subtrees, subtrees, List.append_nil, Block.tree, Jmx.tree,
    Element.subtree]
  exact fun x hx => List.mem_cons_of_mem _ (List.mem_cons_of_mem _ (hsub hx))

theorem dataSet_mem_dataSets {d : DataSet} {ds : List DataSet} (h : d ∈ ds) (number : Nat) :
    dataSet d ∈ Block.componentsOf (ofDataSets w number ds) := by
  induction ds generalizing number with
  | nil => cases h
  | cons x ds ih =>
    rw [ofDataSets, Block.componentsOf_append, List.mem_append]
    rcases List.mem_cons.mp h with rfl | h
    · exact .inl List.mem_cons_self
    · exact .inr (ih h _)

/-- A legible plan shows strings of the settings, and the delimiters of all its data sets. -/
theorem legible_of_readable_root {number : Nat} (h : ∀ x ∈ (root w s number).subtree, x.Readable) :
    Legible w.settings.version.toList ∧ Legible w.settings.onSampleError.toList ∧
      ∀ d ∈ s.allDataSets, Legible d.delimiter.toList := by
  have hchild : ∀ e ∈ Block.componentsOf (content w s number), ∀ c ∈ e.children, c.Readable := by
    intro e he c hc
    exact h c (subtree_subset_root he (mem_subtree_of_mem_children hc))
  have hroot : (root w s number).Readable := by
    refine h _ ?_
    rw [subtree_eq]
    exact List.mem_cons_self
  refine ⟨?_, ?_, fun d hd => ?_⟩
  · exact hroot.attributes ("jmeter", w.settings.version)
      (List.mem_cons_of_mem _ (List.mem_cons_of_mem _ List.mem_cons_self))
  · have hgroup := hchild _ (List.mem_cons_of_mem _ List.mem_cons_self)
      (stringProp "ThreadGroup.on_sample_error" w.settings.onSampleError) List.mem_cons_self
    exact hgroup.text rfl
  · have hmem : dataSet d ∈ Block.componentsOf (content w s number) := by
      rw [content, Block.componentsOf, Block.componentsOf, List.mem_append, List.mem_append]
      exact .inr (.inr (dataSet_mem_dataSets hd _))
    exact (hchild _ hmem (stringProp "delimiter" d.delimiter) List.mem_cons_self).text rfl

/-- A plan from legible records is legible if some strings of the settings and all delimiters are. -/
theorem readable_root_iff {number : Nat} (hs : s.Spelled (fun x => Legible x.toList) D) :
    (∀ x ∈ (root w s number).subtree, x.Readable) ↔
      Legible w.settings.version.toList ∧ Legible w.settings.onSampleError.toList ∧
        ∀ d ∈ s.allDataSets, Legible d.delimiter.toList :=
  ⟨legible_of_readable_root, fun ⟨hv, he, hd⟩ =>
    (sound_root Markup.admits_legible hs hd he hv number).readable⟩

end Layout

end LoadPlan.Jmx
