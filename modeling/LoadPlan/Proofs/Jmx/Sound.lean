import LoadPlan.Proofs.Markup.Wellformed
import LoadPlan.Proofs.Scenario.Spelling

/-! The elements of a plan have names, no text beside their children, and only strings with a property
that the records and the settings have. -/
namespace LoadPlan.Markup

/-- A property of legible strings that is kept when strings are joined. -/
structure Admits (C : String → Prop) : Prop where
  legible {x : String} : Legible x.toList → C x
  append {x y : String} : C x → C y → C (x ++ y)

theorem Admits.empty {C : String → Prop} (hC : Admits C) : C "" :=
  hC.legible (by decide)

/-- A string after a word of the format. -/
theorem Admits.label {C : String → Prop} (hC : Admits C) {word x : String}
    (hw : Legible word.toList) (hx : C x) : C (word ++ x) :=
  hC.append (hC.legible hw) hx

theorem admits_any : Admits Scenario.Any :=
  ⟨fun _ => trivial, fun _ _ => trivial⟩

theorem admits_legible : Admits fun x => Legible x.toList :=
  ⟨id, fun hx hy => by rw [String.toList_append]; exact legible_append.mpr ⟨hx, hy⟩⟩

namespace Element

/-- An element with names, all its strings with a property, that has no text beside children. -/
structure Sound (C : String → Prop) (e : Element) : Prop where
  names : e.HasNames
  values : ∀ a ∈ e.attributes, C a.2
  text : C e.text
  unmixed : e.children ≠ [] → e.text = ""

/-- An element that is sound with all below it. -/
def AllSound (C : String → Prop) (e : Element) : Prop :=
  ∀ x ∈ e.subtree, x.Sound C

variable {C : String → Prop} {e : Element}

theorem allSound_iff : e.AllSound C ↔ e.Sound C ∧ ∀ c ∈ e.children, c.AllSound C :=
  forall_mem_subtree_iff

theorem AllSound.named (h : e.AllSound C) : e.Named :=
  fun x hx => (h x hx).names

theorem AllSound.readable (h : e.AllSound fun x => Legible x.toList) : ∀ x ∈ e.subtree, x.Readable :=
  fun x hx => ⟨(h x hx).values, fun _ => (h x hx).text⟩

/-- Names that the attributes of an element may have together. -/
def AreNames (names : List String) : Prop :=
  (∀ n ∈ names, isName n.toList = true) ∧ names.Nodup ∧ "xmlns" ∉ names

instance (names : List String) : Decidable (AreNames names) :=
  inferInstanceAs (Decidable (_ ∧ _ ∧ _))

theorem hasNames_of_areNames (ht : isName e.tag.toList = true)
    (ha : AreNames (e.attributes.map Prod.fst)) : e.HasNames := by
  obtain ⟨hn, hd, hx⟩ := ha
  refine ⟨ht, fun a h => hn _ (List.mem_map_of_mem h), hd, ?_⟩
  intro a h ha
  exact hx (ha ▸ List.mem_map_of_mem h)

end Element

end LoadPlan.Markup

namespace LoadPlan.Jmx

open LoadPlan.Markup (Element Admits Legible admits_legible isName)
open LoadPlan.Markup.Element (Sound AllSound allSound_iff hasNames_of_areNames AreNames)
open LoadPlan.Scenario

variable {C : String → Prop}

theorem legible_repr (n : Nat) : Legible (Nat.repr n).toList := by
  intro c hc
  rw [Nat.repr, String.toList_ofList] at hc
  have hd : c.isDigit = true := Nat.isDigit_of_mem_toDigits (by decide) (by decide) hc
  refine Markup.Escape.isAllowed_of_isReferenceChar ?_
  simp [Markup.Escape.isReferenceChar, Char.isAlphanum, hd]

theorem legible_join {x y : String} (hx : Legible x.toList) (hy : Legible y.toList) :
    Legible (x ++ y).toList :=
  admits_legible.append hx hy

theorem legible_integerText (n : Int) : Legible (Number.Integer.text n).toList := by
  unfold Number.Integer.text
  split
  · exact legible_join (by decide) (legible_repr _)
  · exact legible_repr _

theorem legible_layout {digits : List Char} (h : Legible digits) (k : Int) :
    Legible (Number.Shortest.layout digits k).toList := by
  have hof : ∀ {cs : List Char}, Legible cs → Legible (String.ofList cs).toList := by
    intro cs hcs
    rwa [String.toList_ofList]
  have hzeros : ∀ n, Legible (List.replicate n '0') := by
    intro n c hc
    rw [List.eq_of_mem_replicate hc]
    rfl
  have hpower : ∀ s : String, Legible s.toList → Legible (if s.length < 2 then "0" ++ s else s).toList := by
    intro s hs
    split
    · exact legible_join (by decide) hs
    · exact hs
  unfold Number.Shortest.layout
  dsimp only
  split
  · refine legible_join (legible_join (legible_join (hof ?_) (by decide)) ?_) (hpower _ (legible_repr _))
    · cases digits with
      | nil => exact h
      | cons d ds =>
        cases ds with
        | nil => exact h
        | cons e es =>
          obtain ⟨hd, hds⟩ := List.forall_mem_cons.mp h
          exact List.forall_mem_cons.mpr ⟨hd, List.forall_mem_cons.mpr ⟨rfl, hds⟩⟩
    · split <;> decide
  · split
    · exact legible_join (by decide) (hof (Markup.legible_append.mpr ⟨hzeros _, h⟩))
    · split
      · exact legible_join (hof (Markup.legible_append.mpr ⟨h, hzeros _⟩)) (by decide)
      · exact legible_join (legible_join (hof (h.mono (List.take_subset _ _))) (by decide))
          (hof (h.mono (List.drop_subset _ _)))

theorem legible_doubleText (x : Number.Double) : Legible x.text.toList := by
  have hsign : ∀ (negative : Bool) (s : String), Legible s.toList →
      Legible (if negative then "-" ++ s else s).toList := by
    intro negative s hs
    split
    · exact legible_join (by decide) hs
    · exact hs
  cases x with
  | nan => decide
  | infinite negative => cases negative <;> decide
  | finite negative m e =>
    refine hsign negative _ ?_
    split
    · decide
    · exact legible_layout (legible_repr _) _

/-! Properties. -/

theorem areNames_nil : AreNames [] := by decide

theorem areNames_name : AreNames ["name"] := by decide

theorem areNames_typed : AreNames ["name", "elementType"] := by decide

theorem areNames_shown : AreNames ["guiclass", "testclass", "testname", "enabled"] := by decide

theorem areNames_typed_shown :
    AreNames ["name", "elementType", "guiclass", "testclass", "testname", "enabled"] := by decide

theorem sound_leaf {tag text : String} {attributes : List (String × String)}
    (ht : isName tag.toList = true) (hn : AreNames (attributes.map Prod.fst))
    (hv : ∀ a ∈ attributes, C a.2) (hx : C text) : (leaf tag attributes text).AllSound C := by
  refine allSound_iff.mpr ⟨⟨hasNames_of_areNames ht hn, hv, hx, ?_⟩, List.forall_mem_nil _⟩
  exact fun h => absurd rfl h

theorem sound_plain {tag text : String} (ht : isName tag.toList = true) (hx : C text) :
    (leaf tag [] text).AllSound C :=
  sound_leaf ht areNames_nil (List.forall_mem_nil _) hx

theorem sound_mk (hC : Admits C) {tag : String} {attributes : List (String × String)}
    {children : List Element} (ht : isName tag.toList = true)
    (hn : AreNames (attributes.map Prod.fst)) (hv : ∀ a ∈ attributes, C a.2)
    (hc : ∀ c ∈ children, c.AllSound C) : (⟨tag, attributes, "", children⟩ : Element).AllSound C :=
  allSound_iff.mpr ⟨⟨hasNames_of_areNames ht hn, hv, hC.empty, fun _ => rfl⟩, hc⟩

section

variable (hC : Admits C)
include hC

theorem sound_stringProp {name text : String} (hn : Legible name.toList) (ht : C text) :
    (stringProp name text).AllSound C :=
  sound_leaf (by decide) areNames_name (List.forall_mem_singleton.mpr (hC.legible hn)) ht

theorem sound_intProp {name text : String} (hn : Legible name.toList) (ht : Legible text.toList) :
    (intProp name text).AllSound C :=
  sound_leaf (by decide) areNames_name (List.forall_mem_singleton.mpr (hC.legible hn)) (hC.legible ht)

theorem sound_boolProp {name : String} (hn : Legible name.toList) (b : Bool) :
    (boolProp name b).AllSound C := by
  have hb : C (boolText b) := by cases b <;> exact hC.legible (by decide)
  exact sound_leaf (by decide) areNames_name (List.forall_mem_singleton.mpr (hC.legible hn)) hb

theorem sound_collectionProp {name : String} {children : List Element} (hn : Legible name.toList)
    (hc : ∀ c ∈ children, c.AllSound C) : (collectionProp name children).AllSound C :=
  sound_mk hC (by decide) areNames_name (List.forall_mem_singleton.mpr (hC.legible hn)) hc

theorem values_shown {gui kind name : String} (hg : C gui) (hk : Legible kind.toList) (hn : C name) :
    ∀ a ∈ shown gui kind name, C a.2 := by
  have he : C "true" := hC.legible (by decide)
  simp only [shown, List.forall_mem_cons]
  exact ⟨hg, hC.legible hk, hn, he, List.forall_mem_nil _⟩

theorem sound_component {kind gui name : String} {properties : List Element}
    (hk : isName kind.toList = true) (hg : C gui) (hn : C name)
    (hp : ∀ c ∈ properties, c.AllSound C) : (component kind gui name properties).AllSound C :=
  sound_mk hC hk areNames_shown (values_shown hC hg (Markup.legible_of_isName hk) hn) hp

/-- Properties that are elements, with the attributes of what is shown or without. -/
theorem sound_elementProp {name type : String} {more : List (String × String)} {children : List Element}
    (hn : C name) (ht : Legible type.toList)
    (hm : AreNames (["name", "elementType"] ++ more.map Prod.fst)) (hv : ∀ a ∈ more, C a.2)
    (hc : ∀ c ∈ children, c.AllSound C) : (elementProp name type more children).AllSound C := by
  refine sound_mk hC (by decide) hm ?_ hc
  refine List.forall_mem_append.mpr ⟨?_, hv⟩
  exact List.forall_mem_cons.mpr ⟨hn, List.forall_mem_singleton.mpr (hC.legible ht)⟩

/-! Components. -/

theorem sound_timer {t : Timer} (h : ∀ x ∈ t.strings, C x) : (timer t).AllSound C := by
  simp only [Timer.strings, List.forall_mem_cons] at h
  obtain ⟨hname, hdelay, hrange, -⟩ := h
  refine sound_component hC (by decide) (hC.legible (by decide)) (hC.label (by decide) hname) ?_
  simp only [List.forall_mem_cons]
  exact ⟨sound_stringProp hC (by decide) hdelay, sound_stringProp hC (by decide) hrange,
    List.forall_mem_nil _⟩

theorem sound_extractor {e : Extractor} (h : ∀ x ∈ e.strings, C x) : (extractor e).AllSound C := by
  simp only [Extractor.strings, List.forall_mem_cons] at h
  obtain ⟨hname, hreference, hexpression, htemplate, hfallback, hnumber, -⟩ := h
  have hheaders : C e.useHeaders := by
    unfold Extractor.useHeaders
    split <;> exact hC.legible (by decide)
  have hlabel : C (if e.name.isEmpty then e.reference else e.name) := by
    split
    · exact hreference
    · exact hname
  refine sound_component hC (by decide) (hC.legible (by decide)) (hC.label (by decide) hlabel) ?_
  simp only [List.forall_mem_cons]
  exact ⟨sound_stringProp hC (by decide) hheaders, sound_stringProp hC (by decide) hreference,
    sound_stringProp hC (by decide) hexpression, sound_stringProp hC (by decide) htemplate,
    sound_stringProp hC (by decide) hfallback, sound_stringProp hC (by decide) hnumber,
    List.forall_mem_nil _⟩

theorem sound_assertion {a : Assertion} (h : ∀ x ∈ a.strings, C x) : (assertion a).AllSound C := by
  obtain ⟨hname, hliterals⟩ := List.forall_mem_cons.mp h
  have hl : ∀ c ∈ a.literals.map literal, c.AllSound C := by
    intro c hc
    obtain ⟨text, ht, rfl⟩ := List.mem_map.mp hc
    exact sound_stringProp hC (legible_repr _) (hliterals text ht)
  refine sound_component hC (by decide) (hC.legible (by decide)) (hC.label (by decide) hname) ?_
  simp only [List.forall_mem_cons]
  exact ⟨sound_collectionProp hC (by decide) hl,
    sound_stringProp hC (by decide) (hC.legible (by decide)), sound_boolProp hC (by decide) _,
    sound_intProp hC (by decide) (legible_repr _), List.forall_mem_nil _⟩

theorem sound_collector {gui name filename : String} (hg : C gui) (hn : C name) (hf : C filename) :
    (collector gui name filename).AllSound C := by
  have hitems : ∀ item ∈ savedItems, isName item.1.toList = true ∧ Legible item.2.toList := by decide
  have hsaved : ∀ c ∈ savedItems.map fun item => leaf item.1 [] item.2, c.AllSound C := by
    intro c hc
    obtain ⟨item, hi, rfl⟩ := List.mem_map.mp hc
    obtain ⟨hname, hvalue⟩ := hitems item hi
    exact sound_plain hname (hC.legible hvalue)
  have hclass : AreNames ["class"] := by decide
  have hvalue : Element.AllSound C ⟨"value", [("class", "SampleSaveConfiguration")], "", _⟩ :=
    sound_mk hC (by decide) hclass (List.forall_mem_singleton.mpr (hC.legible (by decide))) hsaved
  have hlabel : (leaf "name" [] "saveConfig").AllSound C :=
    sound_plain (by decide) (hC.legible (by decide))
  refine sound_component hC (by decide) hg hn ?_
  simp only [List.forall_mem_cons]
  refine ⟨sound_boolProp hC (by decide) _, ?_, sound_stringProp hC (by decide) hf, List.forall_mem_nil _⟩
  exact sound_mk hC (by decide) areNames_nil (List.forall_mem_nil _)
    (List.forall_mem_cons.mpr ⟨hlabel, List.forall_mem_singleton.mpr hvalue⟩)

theorem sound_argument {name value : String} (hn : C name) (hv : C value) :
    (argument name value).AllSound C := by
  refine sound_elementProp hC hn (by decide) areNames_typed (List.forall_mem_nil _) ?_
  simp only [List.forall_mem_cons]
  exact ⟨sound_boolProp hC (by decide) _, sound_stringProp hC (by decide) hn,
    sound_stringProp hC (by decide) hv, sound_stringProp hC (by decide) (hC.legible (by decide)),
    sound_boolProp hC (by decide) _, List.forall_mem_nil _⟩

theorem sound_arguments {pairs : List (String × String)} (h : ∀ p ∈ pairs, C p.1 ∧ C p.2) :
    (arguments pairs).AllSound C := by
  have ha : ∀ c ∈ pairs.map fun p => argument p.1 p.2, c.AllSound C := by
    intro c hc
    obtain ⟨p, hp, rfl⟩ := List.mem_map.mp hc
    exact sound_argument hC (h p hp).1 (h p hp).2
  have hshown : ∀ a ∈ shown "HTTPArgumentsPanel" "Arguments" "User Defined Variables", C a.2 :=
    values_shown hC (hC.legible (by decide)) (by decide) (hC.legible (by decide))
  exact sound_elementProp hC (hC.legible (by decide)) (by decide) areNames_typed_shown hshown
    (List.forall_mem_singleton.mpr (sound_collectionProp hC (by decide) ha))

theorem sound_upload {u : Upload} (h : ∀ x ∈ u.strings, C x) : (upload u).AllSound C := by
  simp only [Upload.strings, List.forall_mem_cons] at h
  obtain ⟨hfile, hparameter, htype, -⟩ := h
  have hargument : (elementProp u.filename "HTTPFileArg" []
      [stringProp "File.path" u.filename, stringProp "File.paramname" u.parameter,
       stringProp "File.mimetype" u.mimeType]).AllSound C := by
    refine sound_elementProp hC hfile (by decide) areNames_typed (List.forall_mem_nil _) ?_
    simp only [List.forall_mem_cons]
    exact ⟨sound_stringProp hC (by decide) hfile, sound_stringProp hC (by decide) hparameter,
      sound_stringProp hC (by decide) htype, List.forall_mem_nil _⟩
  have hfiles : (collectionProp "HTTPFileArgs.files" [_]).AllSound C :=
    sound_collectionProp hC (by decide) (List.forall_mem_singleton.mpr hargument)
  exact sound_elementProp hC (hC.legible (by decide)) (by decide) areNames_typed (List.forall_mem_nil _)
    (List.forall_mem_singleton.mpr hfiles)

theorem sound_sampler {r : Request} (h : ∀ x ∈ r.strings, C x) : (sampler r).AllSound C := by
  simp only [Request.strings, List.forall_mem_append, List.forall_mem_cons] at h
  obtain ⟨⟨⟨⟨hname, hdomain, hpath, hmethod, hport, hprotocol, -⟩, hpairs⟩, huploads⟩, -⟩ := h
  have hp : ∀ p ∈ r.pairs, C p.1 ∧ C p.2 := by
    intro p hp
    have hmem := fun x hx => hpairs x (List.mem_flatMap.mpr ⟨p, hp, hx⟩)
    exact ⟨hmem _ List.mem_cons_self, hmem _ (List.mem_cons_of_mem _ List.mem_cons_self)⟩
  have hu : ∀ c ∈ r.upload.toList.map upload, c.AllSound C := by
    intro c hc
    obtain ⟨u, hu, rfl⟩ := List.mem_map.mp hc
    exact sound_upload hC fun x hx => huploads x (List.mem_flatMap.mpr ⟨u, hu, hx⟩)
  refine sound_component hC (by decide) (hC.legible (by decide)) hname ?_
  refine List.forall_mem_cons.mpr ⟨sound_arguments hC hp, List.forall_mem_append.mpr ⟨hu, ?_⟩⟩
  simp only [List.forall_mem_cons]
  exact ⟨sound_stringProp hC (by decide) hdomain, sound_stringProp hC (by decide) hport,
    sound_stringProp hC (by decide) hprotocol, sound_stringProp hC (by decide) hpath,
    sound_stringProp hC (by decide) hmethod, sound_boolProp hC (by decide) _,
    sound_boolProp hC (by decide) _, sound_boolProp hC (by decide) _, List.forall_mem_nil _⟩

theorem sound_loop {name count : String} (h : C name) (hcount : Legible count.toList) (forever : Bool) :
    (loop name count forever).AllSound C := by
  refine sound_component hC (by decide) (hC.legible (by decide)) (hC.label (by decide) h) ?_
  simp only [List.forall_mem_cons]
  exact ⟨sound_intProp hC (by decide) hcount, sound_boolProp hC (by decide) _, List.forall_mem_nil _⟩

theorem sound_genericController {name : String} (h : C name) : (genericController name).AllSound C :=
  sound_component hC (by decide) (hC.legible (by decide)) (hC.label (by decide) h) (List.forall_mem_nil _)

theorem sound_throughputController {name : String} (h : C name) (share : Number.Double) (part : Int) :
    (throughputController name share part).AllSound C := by
  have hshare : Element.AllSound C ⟨"FloatProperty", [], "",
      [leaf "name" [] "ThroughputController.percentThroughput", leaf "value" [] share.text,
       leaf "savedValue" [] (Number.Integer.text part)]⟩ := by
    refine sound_mk hC (by decide) areNames_nil (List.forall_mem_nil _) ?_
    simp only [List.forall_mem_cons]
    exact ⟨sound_plain (by decide) (hC.legible (by decide)),
      sound_plain (by decide) (hC.legible (legible_doubleText share)),
      sound_plain (by decide) (hC.legible (legible_integerText part)), List.forall_mem_nil _⟩
  refine sound_component hC (by decide) (hC.legible (by decide)) (hC.label (by decide) h) ?_
  simp only [List.forall_mem_cons]
  exact ⟨hshare, sound_boolProp hC (by decide) _, sound_intProp hC (by decide) (by decide),
    sound_intProp hC (by decide) (by decide), List.forall_mem_nil _⟩

theorem sound_threadGroup {onSampleError name threads rampTime : String} (he : C onSampleError)
    (hn : C name) (ht : C threads) (hr : C rampTime) :
    (threadGroup onSampleError name threads rampTime).AllSound C := by
  have hloop : (elementProp "ThreadGroup.main_controller" "LoopController"
      (shown "LoopControlPanel" "LoopController" "Loop Controller")
      [boolProp "LoopController.continue_forever" false, stringProp "LoopController.loops" "1"]).AllSound
        C := by
    refine sound_elementProp hC (hC.legible (by decide)) (by decide) areNames_typed_shown
      (values_shown hC (hC.legible (by decide)) (by decide) (hC.legible (by decide))) ?_
    simp only [List.forall_mem_cons]
    exact ⟨sound_boolProp hC (by decide) _, sound_stringProp hC (by decide) (hC.legible (by decide)),
      List.forall_mem_nil _⟩
  refine sound_component hC (by decide) (hC.legible (by decide)) hn ?_
  simp only [List.forall_mem_cons]
  exact ⟨sound_stringProp hC (by decide) he, hloop, sound_stringProp hC (by decide) ht,
    sound_stringProp hC (by decide) hr, sound_boolProp hC (by decide) _,
    sound_stringProp hC (by decide) hC.empty, sound_stringProp hC (by decide) hC.empty,
    List.forall_mem_nil _⟩

theorem sound_cookieManager : cookieManager.AllSound C := by
  refine sound_component hC (by decide) (hC.legible (by decide)) (hC.legible (by decide)) ?_
  simp only [List.forall_mem_cons]
  exact ⟨sound_collectionProp hC (by decide) (List.forall_mem_nil _), sound_boolProp hC (by decide) _,
    List.forall_mem_nil _⟩

theorem sound_dataSet {d : DataSet} (h : ∀ x ∈ d.strings, C x) (hd : C d.delimiter) :
    (dataSet d).AllSound C := by
  simp only [DataSet.strings, List.forall_mem_cons] at h
  obtain ⟨hname, hfile, hcolumns, -⟩ := h
  refine sound_component hC (by decide) (hC.legible (by decide)) (hC.label (by decide) hname) ?_
  simp only [List.forall_mem_cons]
  exact ⟨sound_stringProp hC (by decide) hd, sound_stringProp hC (by decide) hC.empty,
    sound_stringProp hC (by decide) hfile, sound_boolProp hC (by decide) _,
    sound_boolProp hC (by decide) _, sound_stringProp hC (by decide) (hC.legible (by decide)),
    sound_boolProp hC (by decide) _, sound_stringProp hC (by decide) hcolumns, List.forall_mem_nil _⟩

theorem sound_testPlan {name : String} (h : C name) : (testPlan name).AllSound C := by
  have harguments : (elementProp "TestPlan.user_defined_variables" "Arguments"
      (shown "ArgumentsPanel" "Arguments" "User Defined Variables")
      [collectionProp "Arguments.arguments" []]).AllSound C :=
    sound_elementProp hC (hC.legible (by decide)) (by decide) areNames_typed_shown
      (values_shown hC (hC.legible (by decide)) (by decide) (hC.legible (by decide)))
      (List.forall_mem_singleton.mpr (sound_collectionProp hC (by decide) (List.forall_mem_nil _)))
  refine sound_component hC (by decide) (hC.legible (by decide)) h ?_
  simp only [List.forall_mem_cons]
  exact ⟨sound_stringProp hC (by decide) hC.empty, sound_boolProp hC (by decide) _,
    sound_boolProp hC (by decide) _, sound_stringProp hC (by decide) hC.empty, harguments,
    List.forall_mem_nil _⟩

end

end LoadPlan.Jmx
