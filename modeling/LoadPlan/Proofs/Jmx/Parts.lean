import Mathlib.Data.List.Forall2
import LoadPlan.Proofs.Jmx.Samplers
import LoadPlan.Proofs.Scenario.Lacks

/-! The parts of a request. Each part that an element describes has its component among the blocks that are
made for it, in document order, and there are no other components. -/
namespace LoadPlan.Scenario

open LoadPlan.Description (Node)

/-- A timer with all that a timer needs. -/
def isTimer (c : Node) : Bool :=
  c.kind == .timer && Timer.required.all fun key => (c.last? key).isSome

/-- Asserts with something to check. -/
def isAssertion (c : Node) : Bool :=
  c.kind == .asserts && c.children.any isLiteral

/-- The file that results go to. -/
def resultFile (c : Node) : String :=
  let file := (c.last? "result_file" <|> c.last? "resultfile").getD ""
  if file.isEmpty then "report-result.log" else file

def Timer.described (c : Node) : Timer :=
  ⟨(c.last? "name").getD "", (c.last? "delay").getD "", (c.last? "range").getD ""⟩

theorem filterMapM_read {α β : Type} {f : α → Reading (Option β)} {g : α → Option β} {xs : List α}
    {R : Diagnostic → Prop} (h : ∀ x ∈ xs, Reads (f x) (· = g x) R) :
    Reads (xs.filterMapM f) (· = xs.filterMap g) R := by
  have hone : ∀ x ∈ xs, Reads (f x) (fun o => o.toList.flatMap (fun y => [y]) = (g x).toList) R := by
    intro x hx
    refine (h x hx).mono ?_
    rintro _ rfl
    simp
  refine (Reads.filterMapM_flatMap hone).mono fun ys hys => ?_
  rw [List.filterMap_eq_flatMap_toList, ← hys, List.flatMap_singleton']

/-- A timer is read from its element just if that is complete. -/
theorem timer_read {c : Node} (hk : c.kind = .timer) :
    Reads (Timer.read? c) (· = if isTimer c then some (Timer.described c) else none) Unseen := by
  have hlost : ∀ p, isTimer c = false → Reads (do report p c; return none)
      (· = if isTimer c then some (Timer.described c) else none) Unseen :=
    fun p hc => (Reads.report trivial).bind fun _ _ => .pure (by simp [hc])
  unfold Timer.read? Timer.ofNode
  simp only [Node.get?_fields]
  cases hname : c.last? "name" with
  | none => exact hlost _ (by simp [isTimer, Timer.required, hname])
  | some name =>
    cases hdelay : c.last? "delay" with
    | none => exact hlost _ (by simp [isTimer, Timer.required, hdelay])
    | some delay =>
      cases hrange : c.last? "range" with
      | none => exact hlost _ (by simp [isTimer, Timer.required, hrange])
      | some range =>
        refine .pure ?_
        simp [isTimer, Timer.required, Timer.described, hk, hname, hdelay, hrange]

/-- A timer that is complete has elements in it. -/
theorem filled_timers (ns : List Node) : (filled .timer ns).filter isTimer = ns.filter isTimer := by
  rw [filled, List.filter_filter]
  refine List.filter_congr fun c _ => ?_
  cases hc : isTimer c with
  | false => simp
  | true =>
    simp only [isTimer, Bool.and_eq_true, beq_iff_eq, Timer.required, List.all_cons, List.all_nil] at hc
    obtain ⟨hk, hname, -⟩ := hc
    have hchildren : c.children ≠ [] := by
      intro hnil
      simp [Node.last?, hnil] at hname
    simp [hk, Node.hasChildren, hchildren]

/-- What is read of the parts that an element describes. Of uploads and of results the last ones count. -/
structure Request.Holds (n : Node) (r : Request) : Prop where
  timers : r.timers = (n.children.filter isTimer).map Timer.described
  extractors : r.extractors = (filled .regex n.children).map Extractor.ofNode
  assertions : r.assertions = (filled .asserts n.children).map Assertion.ofNode
  results : r.results.isSome = (filled .results n.children).getLast?.isSome
  file : ∀ x ∈ r.results, ∀ c ∈ (filled .results n.children).getLast?, x.file = resultFile c
  upload : r.upload = (filled .upload n.children).getLast?.map Upload.ofNode
  hasParts : r.hasParts = Request.describesParts n

theorem timers_read (ns : List Node) :
    Reads ((filled .timer ns).filterMapM Timer.read?) (· = (ns.filter isTimer).map Timer.described)
      Unseen := by
  refine (filterMapM_read fun c hc => timer_read (mem_filled.mp hc).2.1).mono ?_
  rintro _ rfl
  rw [← filled_timers]
  induction filled .timer ns with
  | nil => rfl
  | cons c cs ih =>
    rw [List.filterMap_cons, List.filter_cons, ih]
    cases isTimer c <;> rfl

theorem results_read (c : Node) (name : String) (n : Node) :
    Reads ((Results.ofNode c).complete name n) (·.file = resultFile c) Unseen := by
  unfold Results.complete
  refine (Reads.orDefault fun _ => trivial).bind fun file hfile => ?_
  refine (Reads.orDefault fun _ => trivial).bind fun type _ => .pure (hfile.trans ?_)
  rw [file_ofNode]
  unfold resultFile
  dsimp only
  split <;> rfl

theorem request_holds (n : Node) : Reads (Request.ofNode n) (Request.Holds n) Unseen := by
  unfold Request.ofNode
  refine (timers_read n.children).bind fun timers htimers => ?_
  refine (Reads.orDefault fun _ => trivial).bind fun method _ => ?_
  refine (Reads.orDefault fun _ => trivial).bind fun name _ => ?_
  cases hr : (filled .results n.children).getLast? with
  | none =>
    refine Reads.bind (Q := (· = none)) (.pure rfl) ?_
    rintro _ rfl
    exact .pure ⟨htimers, rfl, rfl, by rw [hr]; rfl, by simp, rfl, rfl⟩
  | some c =>
    have hc := (results_read c name n).map (g := some)
      (S := fun o => ∃ x, o = some x ∧ x.file = resultFile c) fun x hx => ⟨x, rfl, hx⟩
    refine hc.bind ?_
    rintro _ ⟨x, rfl, hx⟩
    exact .pure ⟨htimers, rfl, rfl, by rw [hr]; rfl, by simpa [hr] using hx, rfl, rfl⟩

end LoadPlan.Scenario

namespace LoadPlan.Jmx

open LoadPlan.Description (Node)
open LoadPlan.Markup (Element)
open LoadPlan.Markup.Element (subtrees)
open LoadPlan.Scenario
open Block (elementsOf componentsOf tagged)
open Sending (stringProp?)

/-- A timer goes by the fields of its element. -/
structure TimerOf (c : Node) (e : Element) : Prop where
  tag : e.tag = "GaussianRandomTimer"
  testname : e.attribute? "testname" = (c.last? "name").map fun name => s!"Gaussian Timer: {name}"
  delay : stringProp? e "ConstantTimer.delay" = c.last? "delay"
  range : stringProp? e "RandomTimer.range" = c.last? "range"

structure ExtractorOf (c : Node) (e : Element) : Prop where
  tag : e.tag = "RegexExtractor"
  reference : stringProp? e "RegexExtractor.refname" = some ((c.last? "refname").getD "UNDEFINED_REF_NAME")
  expression : stringProp? e "RegexExtractor.regex" = some ((c.last? "expression").getD "")
  template : stringProp? e "RegexExtractor.template" = some ((c.last? "template").getD "$1$")
  fallback : stringProp? e "RegexExtractor.default" = some ((c.last? "defaultvalue").getD "REGEX_ERROR")
  matchNumber : stringProp? e "RegexExtractor.match_number" = some ((c.last? "matchnum").getD "0")

/-- An assertion has the literals of its element in their order. -/
structure AssertionOf (c : Node) (e : Element) : Prop where
  tag : e.tag = "ResponseAssertion"
  literals : (e.property? "collectionProp" "Asserion.test_strings").map (·.children.map (·.text)) =
    some ((c.children.filter isLiteral).map (·.content))

structure CollectorOf (c : Node) (e : Element) : Prop where
  tag : e.tag = "ResultCollector"
  file : stringProp? e "filename" = some (resultFile c)

structure FilesOf (c : Node) (e : Element) : Prop where
  tag : e.tag = "elementProp"
  path : ((e.property? "collectionProp" "HTTPFileArgs.files").map fun files =>
    files.children.map (stringProp? · "File.path")) = some [some ((c.last? "filename").getD "")]

/-! The component of a record goes by the element that the record is read from. -/

variable {c : Node}

/-- What is left of the assertions are those with something to check. -/
theorem filter_assertions (ns : List Node) :
    ((filled .asserts ns).map Assertion.ofNode).filter (fun a => !a.literals.isEmpty) =
      (ns.filter isAssertion).map Assertion.ofNode := by
  rw [List.filter_map, filled, List.filter_filter]
  congr 1
  refine List.filter_congr fun c _ => ?_
  have hliterals : (Assertion.ofNode c).literals.isEmpty = false ↔ c.children.any isLiteral = true := by
    simp [Assertion.ofNode]
  rw [Bool.eq_iff_iff]
  simp only [Function.comp_apply, Bool.and_eq_true, Bool.not_eq_true', hliterals, isAssertion, beq_iff_eq]
  constructor
  · rintro ⟨hl, hk, -⟩
    exact ⟨hk, hl⟩
  · rintro ⟨hk, hl⟩
    have hchildren : c.children ≠ [] := by
      intro hnil
      simp [hnil] at hl
    exact ⟨hl, hk, by simp [Node.hasChildren, hchildren]⟩

theorem timerOf_described (hc : isTimer c = true) : TimerOf c (timer (Timer.described c)) := by
  simp only [isTimer, Timer.required, List.all_cons, List.all_nil, Bool.and_eq_true, and_true,
    Option.isSome_iff_exists] at hc
  obtain ⟨-, ⟨name, hname⟩, ⟨delay, hdelay⟩, ⟨range, hrange⟩⟩ := hc
  have htimer : Timer.described c = ⟨name, delay, range⟩ := by
    simp [Timer.described, hname, hdelay, hrange]
  rw [htimer]
  refine ⟨rfl, ?_, ?_, ?_⟩
  · rw [hname]
    rfl
  · rw [hdelay]
    rfl
  · rw [hrange]
    rfl

theorem extractorOf_ofNode (c : Node) : ExtractorOf c (extractor (Extractor.ofNode c)) := by
  refine ⟨rfl, ?_, ?_, ?_, ?_, ?_⟩ <;>
  · simp only [← Node.get?_fields]
    rfl

theorem assertionOf_ofNode (c : Node) : AssertionOf c (assertion (Assertion.ofNode c)) := by
  have hp : (assertion (Assertion.ofNode c)).property? "collectionProp" "Asserion.test_strings" =
      some (collectionProp "Asserion.test_strings" ((Assertion.ofNode c).literals.map literal)) := rfl
  refine ⟨rfl, ?_⟩
  rw [hp, Option.map_some, collectionProp, List.map_map]
  exact congrArg some (List.map_id _)

theorem collectorOf_results {x : Results} (hx : x.file = resultFile c) : CollectorOf c (results x) :=
  ⟨rfl, congrArg some hx⟩

theorem filesOf_upload (c : Node) : FilesOf c (upload (Upload.ofNode c)) := by
  refine ⟨rfl, ?_⟩
  rw [← Node.get?_fields]
  rfl

/-- The files of a request are the only property of its sampler that goes by their name. -/
theorem files_sampler (r : Request) :
    (sampler r).children.filter (fun e => e.attribute? "name" == some "HTTPsampler.Files") =
      r.upload.toList.map upload := by
  unfold sampler component
  cases r.upload with
  | none => rfl
  | some u => rfl

/-- The components of a request. -/
structure RequestParts where
  sampler : Element
  extractors : List Element
  timers : List Element
  assertions : List Element
  collectors : List Element

namespace RequestParts

/-- What goes with the sampler, in the order in which it stands. -/
def companions (parts : RequestParts) : List Element :=
  parts.extractors ++ parts.timers ++ parts.assertions ++ parts.collectors

/-- The components are those of an element, each of them for what describes it. -/
structure Of (n : Node) (parts : RequestParts) : Prop where
  sampler : parts.sampler.tag = "HTTPSamplerProxy"
  extractors : List.Forall₂ ExtractorOf (filled .regex n.children) parts.extractors
  timers : List.Forall₂ TimerOf (n.children.filter isTimer) parts.timers
  assertions : List.Forall₂ AssertionOf (n.children.filter isAssertion) parts.assertions
  collectors : List.Forall₂ CollectorOf (filled .results n.children).getLast?.toList parts.collectors
  files : List.Forall₂ FilesOf (filled .upload n.children).getLast?.toList
    (parts.sampler.children.filter fun e => e.attribute? "name" == some "HTTPsampler.Files")

/-- The components of a record. -/
def ofRequest (r : Request) : RequestParts where
  sampler := Jmx.sampler r
  extractors := r.extractors.map extractor
  timers := r.timers.map timer
  assertions := (r.assertions.filter fun a => !a.literals.isEmpty).map assertion
  collectors := r.results.toList.map results

/-- Elements with an empty tree each. -/
def pairs (es : List Element) : Fragment :=
  es.flatMap pair

variable {n : Node} {r : Request}

theorem of_holds (h : r.Holds n) : (ofRequest r).Of n where
  sampler := rfl
  extractors := by
    rw [ofRequest, h.extractors, List.map_map, List.forall₂_map_right_iff, List.forall₂_same]
    exact fun c _ => extractorOf_ofNode c
  timers := by
    rw [ofRequest, h.timers, List.map_map, List.forall₂_map_right_iff, List.forall₂_same]
    exact fun c hc => timerOf_described (List.mem_filter.mp hc).2
  assertions := by
    rw [ofRequest, h.assertions, filter_assertions, List.map_map, List.forall₂_map_right_iff,
      List.forall₂_same]
    exact fun c _ => assertionOf_ofNode c
  collectors := by
    rw [ofRequest]
    cases hc : (filled .results n.children).getLast? with
    | none =>
      have hr : r.results = none := by simpa [hc] using h.results
      rw [hr]
      exact .nil
    | some c =>
      obtain ⟨x, hx⟩ := Option.isSome_iff_exists.mp (h.results.trans (by rw [hc]; rfl))
      rw [hx]
      exact .cons (collectorOf_results (h.file x hx c hc)) .nil
  files := by
    rw [ofRequest, files_sampler, h.upload, List.forall₂_map_right_iff]
    cases (filled .upload n.children).getLast? with
    | none => exact .nil
    | some c => exact .cons (filesOf_upload c) .nil

theorem parts_eq (r : Request) : Layout.parts r = (ofRequest r).companions.map (⟨·, []⟩) := by
  have ha : r.assertions.filterMap Layout.ofAssertion? =
      ((r.assertions.filter fun a => !a.literals.isEmpty).map assertion).map (⟨·, []⟩) := by
    induction r.assertions with
    | nil => rfl
    | cons a as ih =>
      rw [List.filterMap_cons, ih, Layout.ofAssertion?, List.filter_cons]
      cases a.literals.isEmpty <;> rfl
  simp only [Layout.parts, companions, ofRequest, List.map_append, List.map_map, ha]
  rfl

theorem elementsOf_map (es : List Element) : elementsOf (es.map (⟨·, []⟩)) = pairs es := by
  induction es with
  | nil => rfl
  | cons e es ih =>
    rw [List.map_cons, elementsOf, ih]
    rfl

theorem componentsOf_map (es : List Element) : componentsOf (es.map (⟨·, []⟩)) = es := by
  rw [Block.componentsOf_map]
  exact List.flatMap_singleton' es

/-- A part other than a timer is described. -/
def Described (n : Node) : Prop :=
  ∃ c ∈ n.children, c.kind ∈ [.asserts, .regex, .results, .upload] ∧ c.hasChildren = true

theorem describesParts_iff_described : Request.describesParts n = true ↔ Described n := by
  have hfilled (kind : Description.Kind) : (!(filled kind n.children).isEmpty) = true ↔
      ∃ c ∈ n.children, c.kind = kind ∧ c.hasChildren = true := by
    simp [filled, List.filter_eq_nil_iff]
  unfold Request.describesParts Described
  rw [List.any_eq_true]
  simp only [hfilled]
  constructor
  · rintro ⟨kind, hkind, c, hc, rfl, hf⟩
    exact ⟨c, hc, hkind, hf⟩
  · rintro ⟨c, hc, hkind, hf⟩
    exact ⟨c.kind, hkind, c, hc, rfl, hf⟩

/-- Without other parts, only timers go with a sampler. -/
theorem companions_eq_timers (h : r.Holds n) (hn : Request.describesParts n = false) :
    (ofRequest r).companions = (ofRequest r).timers := by
  simp only [Request.describesParts, List.any_cons, List.any_nil, Bool.or_false, Bool.or_eq_false_iff,
    Bool.not_eq_false', List.isEmpty_iff] at hn
  obtain ⟨hasserts, hregex, hresults, -⟩ := hn
  have hr : r.results = none := by simpa [hresults] using h.results
  simp [companions, ofRequest, h.assertions, h.extractors, hr, hasserts, hregex]

theorem elementsOf_request (h : r.Holds n) :
    elementsOf (Layout.ofRequest r) = if Request.describesParts n then
      [Jmx.sampler r, tree (pairs (ofRequest r).companions)]
    else pair (Jmx.sampler r) ++ pairs (ofRequest r).timers := by
  rw [Layout.ofRequest, h.hasParts, parts_eq]
  split
  · rw [← elementsOf_map]
    rfl
  · rw [← elementsOf_map, ofRequest, List.map_map]
    rfl

theorem componentsOf_request (h : r.Holds n) :
    componentsOf (Layout.ofRequest r) = Jmx.sampler r :: (ofRequest r).companions := by
  rw [Layout.ofRequest, h.hasParts, parts_eq]
  cases hn : Request.describesParts n with
  | true =>
    rw [if_pos rfl, componentsOf, Block.components, componentsOf_map]
    exact List.append_nil _
  | false =>
    have ht : r.timers.map Layout.ofTimer = (ofRequest r).timers.map (⟨·, []⟩) := by
      rw [ofRequest, List.map_map]
      rfl
    rw [if_neg (by simp), companions_eq_timers h hn, componentsOf, Block.components, ht, componentsOf_map]
    rfl

end RequestParts

open RequestParts (Described pairs describesParts_iff_described)

/-- A fragment is made for whatever is read from the element of a request, and it consists of the components
of its parts: all in the tree of the sampler if there are others than timers, and else the timers after the
sampler, whose tree is empty. There are no more components of any kind. -/
theorem parts_of_request (n : Node) (log : Log) (p : Progress) :
    ∃ f q, ∃ parts : RequestParts,
      (Workshop.requestFragment ((Request.ofNode n).run log).1).run p = (.ok f, q) ∧ parts.Of n ∧
      (Described n → f = [parts.sampler, tree (pairs parts.companions)]) ∧
      (¬Described n → f = pair parts.sampler ++ pairs parts.timers) ∧
      ∀ tag ∈ componentTags, (subtrees f).filter (·.tag == tag) =
        (parts.sampler :: parts.companions).filter (·.tag == tag) := by
  have h := (request_holds n log).1
  generalize ((Request.ofNode n).run log).1 = r at h
  have hrun := ((Workshop.requestFragment_makes r p).ok_iff).mpr ⟨rfl, rfl, rfl⟩
  refine ⟨_, _, .ofRequest r, hrun, RequestParts.of_holds h, fun hd => ?_, fun hd => ?_, fun tag ht => ?_⟩
  · rw [RequestParts.elementsOf_request h, if_pos (describesParts_iff_described.mpr hd)]
    rfl
  · rw [RequestParts.elementsOf_request h, if_neg (mt describesParts_iff_described.mp hd)]
    rfl
  · obtain ⟨hp, htree⟩ := not_property_of_component tag ht
    rw [Block.filter_subtrees_elementsOf hp htree _ (Layout.proper_request r), tagged,
      RequestParts.componentsOf_request h]
    rfl

end LoadPlan.Jmx
