import LoadPlan.Proofs.Jmx.Sound
import LoadPlan.Proofs.Scenario.Documents

/-! The strings of the records come from the descriptions, whose characters are legible, or are words of
the program. Delimiters of data sets may come from the settings as well. -/
namespace LoadPlan

namespace Description.Node

variable (C : String → Prop)

mutual

/-- The contents and the values of attributes in an element have a property. -/
def Spelled : Node → Prop
  | ⟨_, children, attributes, content, _, _⟩ =>
    attributes.Spelled C ∧ C content ∧ AllSpelled children

def AllSpelled : List Node → Prop
  | [] => True
  | n :: ns => n.Spelled ∧ AllSpelled ns

end

variable {C} {n : Node} {ns : List Node}

theorem allSpelled_iff : AllSpelled C ns ↔ ∀ n ∈ ns, n.Spelled C := by
  induction ns with
  | nil => simp [AllSpelled]
  | cons n ns ih => rw [AllSpelled, ih, List.forall_mem_cons]

theorem spelled_iff : n.Spelled C ↔ n.attributes.Spelled C ∧ C n.content ∧ ∀ c ∈ n.children, c.Spelled C := by
  obtain ⟨name, children, attributes, content, line, source⟩ := n
  rw [Spelled, allSpelled_iff]

theorem Spelled.attributes (h : n.Spelled C) : n.attributes.Spelled C :=
  (spelled_iff.mp h).1

theorem Spelled.content (h : n.Spelled C) : C n.content :=
  (spelled_iff.mp h).2.1

theorem Spelled.children (h : n.Spelled C) : ∀ c ∈ n.children, c.Spelled C :=
  (spelled_iff.mp h).2.2

theorem spelled_fieldsOf (h : ∀ n ∈ ns, n.Spelled C) : (fieldsOf ns).Spelled C := by
  refine Fields.spelled_ofPairs fun p hp => ?_
  obtain ⟨n, hn, rfl⟩ := List.mem_map.mp hp
  exact (h n hn).content

theorem Spelled.fields (h : n.Spelled C) : n.fields.Spelled C :=
  spelled_fieldsOf h.children

/-! Elements of documents. -/

mutual

theorem legible_textOf : ∀ n : Markup.Node, n.Legible → Markup.Legible (textOf n)
  | .element _ _ _ children, h => legible_textsOf children h.2
  | .text _, h => h
  | .reference name, h => by
    have hamp : Markup.Legible ['&'] := by decide
    have hend : Markup.Legible [';'] := by decide
    exact Markup.legible_append.mpr ⟨hamp, Markup.legible_append.mpr ⟨h, hend⟩⟩

theorem legible_textsOf : ∀ ns : List Markup.Node, Markup.Node.AllLegible ns → Markup.Legible (textsOf ns)
  | [], _ => List.forall_mem_nil _
  | n :: ns, h => Markup.legible_append.mpr ⟨legible_textOf n h.1, legible_textsOf ns h.2⟩

end

theorem stripWhere_subset (p : Char → Bool) (cs : List Char) : Text.stripWhere p cs ⊆ cs := by
  intro c hc
  have hc := List.mem_reverse.mp hc
  have hc := (List.dropWhile_sublist p).subset hc
  exact (List.dropWhile_sublist p).subset (List.mem_reverse.mp hc)

mutual

theorem spelled_of_ofMarkup (source : String) : ∀ (n : Markup.Node) (r : Node), n.Legible →
    ofMarkup source n = some r → r.Spelled fun x => Markup.Legible x.toList
  | .element name attributes line children, r, h, hr => by
    cases hr
    refine spelled_iff.mpr ⟨Fields.spelled_ofPairs fun p hp => ?_, ?_,
      spelled_of_ofMarkups source children h.2⟩
    · obtain ⟨a, ha, rfl⟩ := List.mem_map.mp hp
      exact h.1 a ha
    · rw [String.toList_ofList]
      exact (legible_textsOf children h.2).mono (stripWhere_subset _ _)
  | .text _, _, _, hr => by cases hr
  | .reference _, _, _, hr => by cases hr

theorem spelled_of_ofMarkups (source : String) : ∀ ns : List Markup.Node, Markup.Node.AllLegible ns →
    ∀ r ∈ ofMarkups source ns, r.Spelled fun x => Markup.Legible x.toList
  | [], _ => List.forall_mem_nil _
  | n :: ns, h => by
    rw [ofMarkups, List.forall_mem_append]
    refine ⟨fun r hr => ?_, spelled_of_ofMarkups source ns h.2⟩
    exact spelled_of_ofMarkup source n r h.1 (Option.mem_toList.mp hr)

end

end Description.Node

/-- A description that is read is legible. -/
theorem Description.spelled_of_ofFile {disk : Storage.Disk} {path : String} {root : Description.Node}
    (h : Description.ofFile disk path = .ok root) : root.Spelled fun x => Markup.Legible x.toList := by
  obtain ⟨bytes, -, h⟩ := ofFile_eq_ok_iff.mp h
  unfold ofBytes at h
  split at h
  · cases h
  · next tree ht =>
    split at h
    · next hm =>
      cases h
      exact Node.spelled_of_ofMarkup _ tree _ (Markup.Document.legible_of_ofBytes ht) hm
    · cases h

namespace Scenario

open LoadPlan.Description (Node Kind)
open LoadPlan.Markup (Admits)

variable {C D : String → Prop} {n : Node}

theorem timer_spelled (h : n.Spelled C) :
    Reads (Timer.read? n) (fun o => ∀ t ∈ o, ∀ x ∈ t.strings, C x) Unseen := by
  unfold Timer.read?
  cases ht : Timer.ofNode n with
  | error p => exact (Reads.report trivial).bind fun _ _ => .pure (by simp)
  | ok t =>
    refine .pure ?_
    rintro _ ⟨⟩
    unfold Timer.ofNode at ht
    dsimp only at ht
    split at ht
    · next hname hdelay hrange =>
      cases ht
      have hf := h.fields
      simp only [Timer.strings, List.forall_mem_cons]
      exact ⟨hf.get? hname, hf.get? hdelay, hf.get? hrange, List.forall_mem_nil _⟩
    · cases ht

theorem orDefault_spelled {field : Option String} {fallback : String} {p : Problem} {n : Node}
    (hf : ∀ x ∈ field, C x) (hd : C fallback) : Reads (orDefault field fallback p n) C Unseen := by
  refine (Reads.orDefault fun _ => trivial).mono ?_
  rintro _ rfl
  cases field with
  | none => exact hd
  | some x => exact hf x rfl

theorem request_strings {r : Request} :
    (∀ x ∈ r.strings, C x) ↔
      (∀ x ∈ [r.name, r.domain, r.path, r.method, r.port, r.protocol], C x) ∧
      (∀ p ∈ r.parameters, ∀ x ∈ p.pairs, C x.1 ∧ C x.2) ∧ (∀ u ∈ r.upload, ∀ x ∈ u.strings, C x) ∧
      (∀ e ∈ r.extractors, ∀ x ∈ e.strings, C x) ∧ (∀ t ∈ r.timers, ∀ x ∈ t.strings, C x) ∧
      (∀ a ∈ r.assertions, ∀ x ∈ a.strings, C x) ∧ ∀ o ∈ r.results, ∀ x ∈ o.strings, C x := by
  have hpairs : (∀ p ∈ r.parameters, ∀ x ∈ p.pairs, C x.1 ∧ C x.2) ↔
      ∀ x ∈ r.pairs, ∀ y ∈ [x.1, x.2], C y := by
    unfold Request.pairs
    cases r.parameters <;> simp
  rw [hpairs]
  simp only [Request.strings, Request.partStrings, List.forall_mem_append, List.forall_mem_flatMap,
    Option.mem_toList, Option.mem_def, and_assoc]

theorem forall_mem_last {α : Type} {f : Node → α} {P : α → Prop} {ns : List Node}
    (h : ∀ c ∈ ns, P (f c)) : ∀ a ∈ ns.getLast?.map f, P a := by
  intro a ha
  obtain ⟨c, hc, rfl⟩ := Option.map_eq_some_iff.mp ha
  exact h c (List.mem_of_getLast? hc)

theorem spelled_filled {kind : Kind} (h : n.Spelled C) : ∀ c ∈ filled kind n.children, c.Spelled C :=
  fun c hc => h.children c (mem_filled.mp hc).1

theorem spelled_fieldsWhere {p : Node → Bool} (h : n.Spelled C) :
    (Node.fieldsOf (n.children.filter p)).Spelled C :=
  Node.spelled_fieldsOf fun c hc => h.children c (List.mem_filter.mp hc).1

theorem parameters_spelled (h : n.Spelled C) :
    ∀ p ∈ (Parameters.ofNode n).pairs, C p.1 ∧ C p.2 := by
  intro p hp
  obtain ⟨c, hc, hp⟩ := List.mem_filterMap.mp hp
  obtain ⟨name, hname, rfl⟩ := Option.map_eq_some_iff.mp hp
  have hc := h.children c hc
  exact ⟨hc.attributes.get? hname, hc.content⟩

section

variable (hC : Admits C)
include hC

theorem assertion_spelled (h : n.Spelled C) : ∀ x ∈ (Assertion.ofNode n).strings, C x := by
  have hchildren : ∀ c ∈ n.children.filter fun c => !isLiteral c, C c.content :=
    fun c hc => (h.children c (List.mem_filter.mp hc).1).content
  have hfields := h.attributes.foldl Node.name Node.content hchildren
  refine List.forall_mem_cons.mpr ⟨hfields.getD (hC.legible (by decide)), fun x hx => ?_⟩
  obtain ⟨c, hc, rfl⟩ := List.mem_map.mp hx
  exact (h.children c (List.mem_filter.mp hc).1).content

theorem extractor_spelled (h : n.Spelled C) : ∀ x ∈ (Extractor.ofNode n).strings, C x := by
  have hf := h.fields
  simp only [Extractor.strings, List.forall_mem_cons]
  exact ⟨hf.getD (hC.legible (by decide)), hf.getD (hC.legible (by decide)),
    hf.getD (hC.legible (by decide)), hf.getD (hC.legible (by decide)),
    hf.getD (hC.legible (by decide)), hf.getD (hC.legible (by decide)), List.forall_mem_nil _⟩

theorem upload_spelled (h : n.Spelled C) : ∀ x ∈ (Upload.ofNode n).strings, C x := by
  have hf := h.fields
  simp only [Upload.strings, List.forall_mem_cons]
  exact ⟨hf.getD hC.empty, hf.getD hC.empty, hf.getD hC.empty, List.forall_mem_nil _⟩

theorem results_spelled {r : Node} (h : r.Spelled C) {name : String} (hname : C name) (n : Node) :
    Reads ((Results.ofNode r).complete name n) (fun r => ∀ x ∈ r.strings, C x) Unseen := by
  have hf := h.fields
  have hfile : C (Results.ofNode r).file := hf.getD (hf.getD hC.empty)
  have htype : C (Results.ofNode r).type := hf.getD hC.empty
  have hown : C (Results.ofNode r).name := hf.getD hC.empty
  have hgiven : ∀ {text : String}, C text →
      ∀ x ∈ (if text.isEmpty then none else some text), C x := by
    intro text ht x hx
    split at hx
    · cases hx
    · cases hx
      exact ht
  have hreport : C Results.standard.file := hC.legible (by decide)
  have hviewer : C Results.standard.type := hC.legible (by decide)
  unfold Results.complete
  refine (orDefault_spelled (hgiven hfile) hreport).bind fun file hfile => ?_
  refine (orDefault_spelled (hgiven htype) hviewer).bind fun type htype => ?_
  refine .pure ?_
  simp only [Results.strings, List.forall_mem_cons]
  refine ⟨hfile, ?_, htype, List.forall_mem_nil _⟩
  split
  · exact hname
  · exact hown

theorem request_spelled (h : n.Spelled C) :
    Reads (Request.ofNode n) (fun r => ∀ x ∈ r.strings, C x) Unseen := by
  have hf : (Node.fieldsOf (Request.fieldNodes n)).Spelled C := spelled_fieldsWhere h
  have hfield : ∀ name, C ((Node.fieldsOf (Request.fieldNodes n)).getD name "") :=
    fun name => hf.getD hC.empty
  have hget : C Request.standard.method := hC.legible (by decide)
  have hspace : C " " := hC.legible (by decide)
  have htimer : ∀ c ∈ filled .timer n.children, c.Spelled C := spelled_filled h
  have htimers := Reads.filterMapM fun c hc => timer_spelled (htimer c hc)
  have hpairs : ∀ p ∈ (n.children.filter (·.kind == .data)).getLast?.map Parameters.ofNode,
      ∀ x ∈ p.pairs, C x.1 ∧ C x.2 :=
    forall_mem_last fun c hc => parameters_spelled (h.children c (List.mem_filter.mp hc).1)
  have hupload : ∀ u ∈ (filled .upload n.children).getLast?.map Upload.ofNode, ∀ x ∈ u.strings, C x :=
    forall_mem_last fun c hc => upload_spelled hC (spelled_filled h c hc)
  have hextractors : ∀ e ∈ (filled .regex n.children).map Extractor.ofNode, ∀ x ∈ e.strings, C x :=
    List.forall_mem_map.mpr fun c hc => extractor_spelled hC (spelled_filled h c hc)
  have hassertions : ∀ a ∈ (filled .asserts n.children).map Assertion.ofNode, ∀ x ∈ a.strings, C x :=
    List.forall_mem_map.mpr fun c hc => assertion_spelled hC (spelled_filled h c hc)
  unfold Request.ofNode
  refine htimers.bind fun timers htimers => ?_
  refine (orDefault_spelled (fun x hx => hf.get? hx) hget).bind fun method hmethod => ?_
  have hfallback := hC.append (hC.append hmethod hspace) (hfield "path")
  refine (orDefault_spelled (fun x hx => hf.get? hx) hfallback).bind fun name hname => ?_
  have hown := List.forall_mem_cons.mpr ⟨hname, List.forall_mem_cons.mpr ⟨hfield "domain",
    List.forall_mem_cons.mpr ⟨hfield "path", List.forall_mem_cons.mpr ⟨hmethod,
      List.forall_mem_cons.mpr ⟨hfield "port", List.forall_mem_singleton.mpr (hfield "protocol")⟩⟩⟩⟩⟩
  dsimp only
  split
  · next r hr =>
    have hr := spelled_filled h r (List.mem_of_getLast? hr)
    have hsome := (results_spelled hC hr hname n).map (g := some)
      (S := fun o => ∀ r ∈ o, ∀ x ∈ r.strings, C x) (by simp)
    refine hsome.bind fun results hresults => .pure (request_strings.mpr ?_)
    exact ⟨hown, hpairs, hupload, hextractors, htimers, hassertions, hresults⟩
  · have hnone : Reads (pure none : Reading (Option Results))
      (fun o => ∀ r ∈ o, ∀ x ∈ r.strings, C x) Unseen := .pure (by simp)
    refine hnone.bind fun results hresults => .pure (request_strings.mpr ?_)
    exact ⟨hown, hpairs, hupload, hextractors, htimers, hassertions, hresults⟩

theorem loop_spelled (h : n.Spelled C) :
    Reads (Loop.ofNode n) (fun l => ∀ x ∈ l.strings, C x) Unseen := by
  have htest : ∀ c ∈ n.children.filter (·.kind == .http), c.Spelled C :=
    fun c hc => h.children c (List.mem_filter.mp hc).1
  have htests := Reads.mapM fun c hc => request_spelled hC (htest c hc)
  have hname : C ((Node.fieldsOf (n.children.filter (·.kind != .http))).getD "name" "") :=
    (spelled_fieldsWhere h).getD hC.empty
  unfold Loop.ofNode
  refine htests.bind fun tests htests => ?_
  have hall := List.forall_mem_cons.mpr ⟨hname, List.forall_mem_flatMap.mpr htests⟩
  dsimp only
  split
  · exact .pure hall
  · split
    · exact .pure hall
    · exact (Reads.report trivial).bind fun _ _ => .pure hall

end

/-- Steps and data sets of a part. -/
def SpelledPart (C D : String → Prop) (r : List Entry × List DataSet) : Prop :=
  SpelledSteps C D r.1 ∧ SpelledSets C D r.2

/-- What the elements are read with gives strings of the properties too. -/
structure Context.Spells (C D : String → Prop) (ctx : Context) : Prop where
  admits : Admits C
  delimiter : D ctx.settings.delimiter
  field {x : String} : C x → D x
  spliced {n : Node} : n.Spelled C → Reads (ctx.spliced n) (SpelledPart C D) Unseen

variable {ctx : Context}

mutual

theorem controller_spelled (hx : ctx.Spells C D) : ∀ n : Node, n.Spelled C →
    Reads (Controller.ofNode ctx n) (Controller.Spelled C D) Unseen
  | ⟨name, children, attributes, content, line, source⟩, h => by
    have hs := steps_spelled hx children (Node.spelled_iff.mp h).2.2
    have hf : (Node.fieldsOf (children.filter fun c => !Controller.stepKinds.contains c.kind)).Spelled C :=
      spelled_fieldsWhere h
    rw [Controller.ofNode]
    refine Reads.get.bind fun log _ => ?_
    refine Reads.count.bind fun _ _ => ?_
    refine hs.bind fun r hr => ?_
    have hfallback : C s!"My Controller: {log.controllers}" :=
      hx.admits.label (by decide) (hx.admits.legible (Jmx.legible_repr log.controllers))
    refine (orDefault_spelled (fun x hx => hf.get? hx) hfallback).bind fun name hname => ?_
    split
    · exact .pure ⟨hname, hr⟩
    · exact (Reads.report trivial).bind fun _ _ => .pure ⟨hname, hr⟩

theorem steps_spelled (hx : ctx.Spells C D) : ∀ cs : List Node, (∀ c ∈ cs, c.Spelled C) →
    Reads (Controller.steps ctx cs) (SpelledPart C D) Unseen
  | [], _ => .pure ⟨trivial, trivial⟩
  | c :: cs, h => by
    obtain ⟨hc, hcs⟩ := List.forall_mem_cons.mp h
    have ih := steps_spelled hx cs hcs
    have hjoin : ∀ r, SpelledPart C D r →
        Reads (do let (after, more) ← Controller.steps ctx cs; return (r.1 ++ after, r.2 ++ more))
          (SpelledPart C D) Unseen := by
      intro r hr
      exact ih.bind fun s hs =>
        .pure ⟨spelledSteps_append.mpr ⟨hr.1, hs.1⟩, spelledSets_append.mpr ⟨hr.2, hs.2⟩⟩
    rw [Controller.steps]
    split
    · exact (request_spelled hx.admits hc).bind fun r hr => hjoin ([.request r], []) ⟨⟨hr, trivial⟩, trivial⟩
    · exact (loop_spelled hx.admits hc).bind fun l hl => hjoin ([.loop l], []) ⟨⟨hl, trivial⟩, trivial⟩
    · exact (controller_spelled hx c hc).bind fun k hk =>
        hjoin ([.controller k], []) ⟨⟨hk, trivial⟩, trivial⟩
    · split
      · exact (hx.spliced hc).bind hjoin
      · exact hjoin ([], []) ⟨trivial, trivial⟩
    · exact hjoin ([], []) ⟨trivial, trivial⟩

end

theorem step?_spelled (hx : ctx.Spells C D) (h : n.Spelled C) :
    Reads (step? ctx n) (fun o => ∀ e ∈ o, e.Spelled C D) Unseen := by
  unfold step?
  split
  · exact (request_spelled hx.admits h).bind fun r hr => .pure (by simpa [Entry.Spelled] using hr)
  · exact (controller_spelled hx n h).bind fun c hc => .pure (by simpa [Entry.Spelled] using hc)
  · exact (loop_spelled hx.admits h).bind fun l hl => .pure (by simpa [Entry.Spelled] using hl)
  · exact .pure (by simp)

theorem repetition_spelled (hx : ctx.Spells C D) (h : n.Spelled C) :
    Reads (repetition ctx n) (Entry.Spelled C D) Unseen := by
  unfold repetition
  have hs := Reads.filterMapM fun c hc => step?_spelled hx (h.children c hc)
  exact hs.bind fun items hi => .pure (spelledSteps_iff.mpr hi)

theorem dataSet_spelled (hx : ctx.Spells C D) (h : n.Spelled C) :
    Reads (DataSet.ofNode ctx n) (DataSet.Spelled C D) Unseen := by
  have hs : ∀ c ∈ n.children, Reads (if c.kind == .repeated then
        if c.hasChildren then some <$> repetition ctx c else pure none
      else step? ctx c) (fun o => ∀ e ∈ o, e.Spelled C D) Unseen := by
    intro c hc
    have hc := h.children c hc
    split
    · split
      · exact (repetition_spelled hx hc).map (by simp)
      · exact .pure (by simp)
    · exact step?_spelled hx hc
  have hf : (DataSet.fieldsOf n).Spelled C := spelled_fieldsWhere h
  unfold DataSet.ofNode
  refine (Reads.filterMapM hs).bind fun stack hstack => ?_
  refine (orDefault_spelled (fun x hx => hf.get? hx) hx.admits.empty).bind fun filename hfilename => ?_
  exact .pure ⟨hf.getD hx.admits.empty, hfilename, hf.getD hx.admits.empty,
    (hf.mono hx.field).getD hx.delimiter, spelledSteps_iff.mpr hstack⟩

/-! Documents. -/

theorem spelled_empty : Scenario.Spelled C D empty :=
  ⟨trivial, trivial, List.forall_mem_nil _⟩

theorem Spelled.append {s t : Scenario} (hs : s.Spelled C D) (ht : t.Spelled C D) :
    (s.append t).Spelled C D where
  stack := spelledSteps_append.mpr ⟨hs.stack, ht.stack⟩
  dataSets := spelledSets_append.mpr ⟨hs.dataSets, ht.dataSets⟩
  info := Fields.Spelled.foldl Prod.fst Prod.snd hs.info ht.info

theorem ofElement_spelled (hx : ctx.Spells C D) (h : n.Spelled C) :
    Reads (ofElement ctx n) (Scenario.Spelled C D) Unseen := by
  have hempty : Reads (pure empty) (Scenario.Spelled C D) Unseen := .pure spelled_empty
  have hinfo := List.forall_mem_nil fun f : String × String => C f.2
  unfold ofElement
  split
  · split
    · refine (timer_spelled h).bind fun t ht => .pure ⟨?_, trivial, hinfo⟩
      rw [spelledSteps_iff]
      intro e he
      obtain ⟨t, htm, rfl⟩ := List.mem_map.mp he
      exact ht t (Option.mem_toList.mp htm)
    · exact hempty
  · split
    · exact (loop_spelled hx.admits h).bind fun l hl => .pure ⟨⟨hl, trivial⟩, trivial, hinfo⟩
    · exact hempty
  · split
    · exact (controller_spelled hx n h).bind fun c hc => .pure ⟨⟨hc, trivial⟩, trivial, hinfo⟩
    · exact hempty
  · exact .pure ⟨trivial, trivial, h.fields⟩
  · exact (request_spelled hx.admits h).bind fun r hr => .pure ⟨⟨hr, trivial⟩, trivial, hinfo⟩
  · split
    · exact (dataSet_spelled hx h).bind fun d hd => .pure ⟨trivial, ⟨hd, trivial⟩, hinfo⟩
    · exact hempty
  · split
    · exact (hx.spliced h).bind fun r hr => .pure ⟨hr.1, hr.2, hinfo⟩
    · exact hempty
  · exact hempty

theorem ofElements_spelled (hx : ctx.Spells C D) {ns : List Node} (h : ∀ n ∈ ns, n.Spelled C) :
    Reads (ofElements ctx ns) (Scenario.Spelled C D) Unseen := by
  induction ns with
  | nil => exact .pure spelled_empty
  | cons n ns ih =>
    obtain ⟨hn, hns⟩ := List.forall_mem_cons.mp h
    exact (ofElement_spelled hx hn).bind fun s hs => (ih hns).bind fun t ht => .pure (hs.append ht)

/-- What is legible. -/
abbrev Plain : String → Prop := fun x => Markup.Legible x.toList

/-- A delimiter is legible, or is the one that the settings give to data sets that name none. -/
abbrev Delimits (settings : Settings) : String → Prop :=
  fun x => Plain x ∨ x = settings.delimiter

variable {disk : Storage.Disk} {settings : Settings} {chain : List Storage.Path} {root : Node}

/-- A reading of legible strings. -/
abbrev ReadsPlain (settings : Settings) (m : Reading Scenario) : Prop :=
  Reads m (Scenario.Spelled Plain (Delimits settings)) Unseen

variable {inside : List Storage.Path → Node → Reading Scenario}

theorem splice_spelled (hin : ∀ chain root, root.Spelled Plain → ReadsPlain settings (inside chain root))
    (n : Node) : ReadsPlain settings (splice disk settings chain inside n) := by
  unfold splice
  split
  · exact (Reads.report trivial).bind fun _ _ => .pure spelled_empty
  · split
    · exact (Reads.report trivial).bind fun _ _ => .pure spelled_empty
    · next root hroot =>
      exact hin _ root (Description.spelled_of_ofFile (includedDocument_eq_ok hroot))

theorem spliceAll_spelled
    (hin : ∀ chain root, root.Spelled Plain → ReadsPlain settings (inside chain root)) (ns : List Node) :
    Reads (spliceAll disk settings chain inside ns) (SpelledPart Plain (Delimits settings)) Unseen := by
  induction ns with
  | nil => exact .pure ⟨trivial, trivial⟩
  | cons n ns ih =>
    have hjoin : ∀ s : Scenario, s.Spelled Plain (Delimits settings) →
        Reads (spliceAll disk settings chain inside ns >>= fun r =>
            pure (s.stack ++ r.1, s.dataSets ++ r.2)) (SpelledPart Plain (Delimits settings)) Unseen := by
      intro s hs
      exact ih.bind fun r hr => .pure
        ⟨spelledSteps_append.mpr ⟨hs.stack, hr.1⟩, spelledSets_append.mpr ⟨hs.dataSets, hr.2⟩⟩
    unfold spliceAll
    split
    · exact (splice_spelled hin n).bind hjoin
    · exact hjoin empty spelled_empty

theorem document_spelled
    (hin : ∀ chain root, root.Spelled Plain → ReadsPlain settings (inside chain root))
    (h : root.Spelled Plain) : ReadsPlain settings (ofElements ⟨disk, settings, fun script =>
      spliceAll disk settings chain inside script.children⟩ root.children) :=
  ofElements_spelled ⟨Markup.admits_legible, .inr rfl, .inl, fun _ => spliceAll_spelled hin _⟩ h.children

theorem ofDocument_spelled (depth : Nat) (chain : List Storage.Path) (root : Node)
    (h : root.Spelled Plain) : ReadsPlain settings (ofDocument disk settings depth chain root) := by
  induction depth generalizing chain root with
  | zero => exact document_spelled (fun _ _ _ => .pure spelled_empty) h
  | succ depth ih => exact document_spelled ih h

/-- What is read from a description is legible, a delimiter from the settings apart. -/
theorem ofDescription_spelled {path : String} (hm : Description.ofFile disk path = .ok root) :
    ReadsPlain settings (ofDescription disk settings root) :=
  ofDocument_spelled _ _ root (Description.spelled_of_ofFile hm)

end Scenario

end LoadPlan
