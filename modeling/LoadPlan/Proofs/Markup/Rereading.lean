import Mathlib.Data.List.Nodup
import LoadPlan.Jmx.PlanFile
import LoadPlan.Proofs.Markup.Marks

/-! A written document is read back as the tree it was written from. -/
namespace LoadPlan.Markup

open LoadPlan.Text (unifyLineEnds)

/-- A document that is read one character of text at a time. -/
def texts (cs : List Char) : List Node :=
  cs.map fun c => .text [c]

namespace Builder

variable {b : Builder} {d : Dialect} {es : Entities} {e : Element}

theorem hasDuplicates_eq_false_iff {α : Type} [BEq α] [LawfulBEq α] {l : List α} :
    hasDuplicates l = false ↔ l.Nodup := by
  induction l with
  | nil => simp [hasDuplicates]
  | cons a l ih => simp [hasDuplicates, ih]

theorem mapM_eq_ok {α β : Type} {f : α → Except Malformed β} {g : α → β} {xs : List α}
    (h : ∀ x ∈ xs, f x = .ok (g x)) : xs.mapM f = .ok (xs.map g) := by
  induction xs with
  | nil => rfl
  | cons x xs ih =>
    obtain ⟨hx, hxs⟩ := List.forall_mem_cons.mp h
    rw [List.mapM_cons, hx, ih hxs]
    rfl

/-! Start tags. -/

/-- The attributes of an element as a reader gives them: they are in no namespace. -/
def plain (as : List (String × String)) : List (Name × String) :=
  as.map fun a => (⟨"", a.1⟩, a.2)

/-- An element that is open, with nothing in it yet. -/
def opened (e : Element) (line : Nat) : Frame :=
  ⟨⟨none, e.tag⟩, ⟨"", e.tag⟩, plain e.attributes, line, .initial, []⟩

theorem bound?_eq_none {name : String} (h : name ≠ "xmlns") : Scope.bound? ⟨none, name⟩ = none := by
  unfold Scope.bound?
  split
  · next heq => exact absurd (QualifiedName.mk.inj heq).2 h
  · next heq => cases heq
  · rfl

/-- The attributes of a start tag with their values. -/
def valued (as : List (String × String)) : List (QualifiedName × String) :=
  as.map fun a => (⟨none, a.1⟩, a.2)

theorem mapM_value (as : List (String × String)) (hrules : es.rules = []) (element : QualifiedName) :
    ((as.map Tag.escaped).mapM fun a => do
      let value ← es.valueUnder (es.rule? element a.1) a.2
      return (a.1, String.ofList value)) = .ok (valued as) := by
  rw [List.mapM_map]
  refine mapM_eq_ok fun a _ => ?_
  have hrule : es.rule? element ⟨none, a.1⟩ = none := by
    rw [Entities.rule?, hrules, List.find?_nil]
  have hs : String.ofList a.2.toList = a.2 := String.ofList_toList
  simp only [Function.comp_def, Tag.escaped, hrule, Entities.valueUnder, Escape.value_encodeList]
  change Except.ok (_, String.ofList a.2.toList) = _
  rw [hs]

/-- None of the attributes binds a namespace. -/
theorem bindings_eq_nil {as : List (String × String)} (h : ∀ a ∈ as, a.1 ≠ "xmlns") :
    ((valued as).filterMap fun a => (Scope.bound? a.1).map (·, a.2)) = [] ∧
      ((valued as).filter fun a => (Scope.bound? a.1).isNone) = valued as := by
  have hb : ∀ a ∈ valued as, Scope.bound? a.1 = none := by
    intro a ha
    obtain ⟨x, hx, rfl⟩ := List.mem_map.mp ha
    exact bound?_eq_none (h x hx)
  constructor
  · rw [List.filterMap_eq_nil_iff]
    intro a ha
    rw [hb a ha]
    rfl
  · rw [List.filter_eq_self]
    intro a ha
    rw [hb a ha]
    rfl

theorem mapM_attributeName (as : List (String × String)) (scope : Scope) :
    ((valued as).mapM fun a => do
      let name ← scope.attributeName a.1
      return (name, a.2)) = (.ok (plain as) : Except Malformed _) := by
  rw [valued, List.mapM_map]
  exact mapM_eq_ok fun a _ => rfl

theorem openTag_of_hasNames (h : e.HasNames) (hs : b.scope = .initial) (hd : d.depthLimit = none)
    (hrules : es.rules = []) (empty : Bool) :
    b.openTag d es (e.tag.toList ++ (e.attributes.flatMap Tag.written ++ Tag.slash empty)) =
      .ok (if empty then b.add (.element ⟨"", e.tag⟩ (plain e.attributes) b.line [])
        else { b with frames := opened e b.line :: b.frames }) := by
  have hdup : hasDuplicates ((e.attributes.map Tag.escaped).map Prod.fst) = false := by
    have hm : (e.attributes.map Tag.escaped).map Prod.fst =
        (e.attributes.map Prod.fst).map (QualifiedName.mk none) := by
      simp [Tag.escaped]
    rw [hasDuplicates_eq_false_iff, hm]
    exact h.distinct.map fun a b hab => (QualifiedName.mk.inj hab).2
  have hdup' : hasDuplicates ((plain e.attributes).map Prod.fst) = false := by
    have hm : (plain e.attributes).map Prod.fst = (e.attributes.map Prod.fst).map (Name.mk "") := by
      simp [plain]
    rw [hasDuplicates_eq_false_iff, hm]
    exact h.distinct.map fun a b hab => (Name.mk.inj hab).2
  obtain ⟨hbind, hattr⟩ := bindings_eq_nil h.unbound
  have hscope : Scope.extend d.checksUris .initial [] = .ok .initial := rfl
  have hname : Scope.elementName .initial ⟨none, e.tag⟩ = .ok ⟨"", e.tag⟩ := rfl
  rw [openTag, Tag.ofBody_written h.tag h.attributes]
  simp only [bind, Except.bind, pure, Except.pure, hdup, Bool.false_eq_true, if_false]
  have hdefaults (present : List QualifiedName) : es.defaults ⟨none, e.tag⟩ present = [] := by
    rw [Entities.defaults, hrules, List.filterMap_nil]
  have hvalue := mapM_value e.attributes hrules ⟨none, e.tag⟩
  simp only [bind, Except.bind, pure, Except.pure] at hvalue
  have hattrs := mapM_attributeName e.attributes .initial
  simp only [bind, Except.bind, pure, Except.pure] at hattrs
  simp only [hvalue, hdefaults, ite_self, List.map_nil, List.append_nil, hbind, hs, hscope, hname, hattr, hattrs, hdup', hd, Bool.false_eq_true, if_false,
    Option.any_none]
  cases empty with
  | true => rfl
  | false => rfl

/-! Text and end tags. -/

/-- More nodes in the innermost element. -/
def addAll (b : Builder) (ns : List Node) : Builder :=
  ns.foldl add b

theorem addAll_cons (b : Builder) (n : Node) (ns : List Node) :
    b.addAll (n :: ns) = (b.add n).addAll ns := rfl

theorem addAll_append (b : Builder) (ms ns : List Node) :
    b.addAll (ms ++ ns) = (b.addAll ms).addAll ns :=
  List.foldl_append

theorem addAll_eq {f : Frame} {fs : List Frame} (h : b.frames = f :: fs) (ns : List Node) :
    b.addAll ns = { b with frames := { f with children := ns.reverse ++ f.children } :: fs } := by
  induction ns generalizing b f with
  | nil =>
    obtain ⟨frames, finished, outer, line⟩ := b
    simp only at h
    rw [h]
    rfl
  | cons n ns ih =>
    have hadd : b.add n = { b with frames := { f with children := n :: f.children } :: fs } := by
      rw [add, h]
    rw [addAll_cons, hadd, ih rfl]
    simp

theorem hasSectionEnd_eq_false {cs : List Char} (h : '>' ∉ cs) : hasSectionEnd cs = false := by
  have hc : cutAfter "]]>".toList cs = none := by
    induction cs with
    | nil => rfl
    | cons c cs ih =>
      have hp : "]]>".toList.isPrefixOf (c :: cs) = false := by
        rw [Bool.eq_false_iff, ne_eq, List.isPrefixOf_iff_prefix]
        intro hp
        exact h (hp.subset (by decide))
      rw [cutAfter, hp, ih fun hm => h (List.mem_cons_of_mem _ hm)]
      rfl
  rw [hasSectionEnd, hc]
  rfl

theorem foldlM_eq_ok {α β : Type} {f : β → α → Except Malformed β} {g : β → α → β}
    (h : ∀ b x, f b x = .ok (g b x)) (xs : List α) (b : β) :
    xs.foldlM f b = .ok (xs.foldl g b) := by
  induction xs generalizing b with
  | nil => rfl
  | cons x xs ih =>
    rw [List.foldlM_cons, h]
    exact ih _

theorem addText_encodeList (inside : Scope → List Char → Except Malformed (List Node))
    (cs : List Char) :
    b.addText d es inside (Escape.encodeList false cs) = .ok (b.addAll (texts (unifyLineEnds cs))) := by
  have hgt : '>' ∉ Escape.encodeList false cs := Escape.not_mem_encodeList (by decide) cs
  rw [addText, hasSectionEnd_eq_false hgt, Escape.unifyLineEnds_encodeList, Escape.pieces_encodeList]
  change List.foldlM _ b ((unifyLineEnds cs).map (Escape.pieceOf false)) = _
  rw [List.foldlM_map, addAll, texts, List.foldl_map]
  refine foldlM_eq_ok (fun b c => ?_) _ b
  rcases Escape.pieceOf_cases false c with hp | hp | ⟨name, hp, hc⟩
  · rw [hp]
    rfl
  · rw [hp]
    rfl
  · rw [hp]
    change (referenced d es inside b.scope name >>= fun nodes => pure (nodes.foldl add b)) = _
    rw [referenced, Entities.meaning, hc]
    rfl

/-- An end tag closes the innermost element. -/
theorem closeTag_opened (b : Builder) (fs : List Frame) {frame : Frame} (h : e.HasNames)
    (hf : frame.tag = ⟨none, e.tag⟩) :
    ({ b with frames := frame :: fs } : Builder).closeTag e.tag.toList =
      .ok ({ b with frames := fs }.add
        (.element frame.name frame.attributes frame.line frame.children.reverse)) := by
  rw [closeTag, Tag.ofClosing_written h.tag]
  simp only [bind, Except.bind, pure, Except.pure, hf, bne_self_eq_false, Bool.false_eq_true, if_false]

end Builder

/-! What is read of an element. -/

namespace Element

mutual

/-- An element as it is read back: the line ends of its text are unified, and before its first child
stands the beginning of a line. -/
def reread (depth : Nat) : Element → Element
  | ⟨tag, attributes, text, []⟩ =>
    ⟨tag, attributes, String.ofList (unifyLineEnds text.toList), []⟩
  | ⟨tag, attributes, _, child :: children⟩ =>
    ⟨tag, attributes, String.ofList (lineStart (depth + 1)),
      reread (depth + 1) child :: rereadAll (depth + 1) children⟩

def rereadAll (depth : Nat) : List Element → List Element
  | [] => []
  | e :: es => reread depth e :: rereadAll depth es

end

/-- An element with neither text nor children. -/
def isVoid (e : Element) : Bool :=
  e.text.isEmpty && e.children.isEmpty

theorem inner_of_isVoid {e : Element} (h : e.isVoid = true) (depth : Nat) :
    inner depth e = [] ∧ reread depth e = ⟨e.tag, e.attributes, "", []⟩ := by
  obtain ⟨tag, attributes, text, children⟩ := e
  obtain ⟨ht, hc⟩ := Bool.and_eq_true_iff.mp h
  cases List.isEmpty_iff.mp hc
  refine ⟨by rw [inner, if_pos ht], ?_⟩
  have htext : text = "" := String.isEmpty_iff.mp ht
  rw [reread, htext]
  rfl

end Element

open Jmx.PlanFile (elementOf elementsOf leadingText nameText)

theorem elementsOf_append (ms ns : List Node) : elementsOf (ms ++ ns) = elementsOf ms ++ elementsOf ns := by
  induction ms with
  | nil => rfl
  | cons m ms ih => rw [List.cons_append, elementsOf, elementsOf, ih, List.append_assoc]

theorem elementsOf_texts (cs : List Char) : elementsOf (texts cs) = [] := by
  induction cs with
  | nil => rfl
  | cons c cs ih => exact ih

theorem leadingText_texts_append (cs : List Char) (ns : List Node) :
    leadingText (texts cs ++ ns) = cs ++ leadingText ns := by
  induction cs with
  | nil => rfl
  | cons c cs ih => exact congrArg (c :: ·) ih

theorem leadingText_texts (cs : List Char) : leadingText (texts cs) = cs := by
  have h := leadingText_texts_append cs []
  rwa [List.append_nil, leadingText, List.append_nil] at h

theorem elementOf_element (e : Element) (line : Nat) (ns : List Node) :
    elementOf (.element ⟨"", e.tag⟩ (Builder.plain e.attributes) line ns) =
      some ⟨e.tag, e.attributes, String.ofList (leadingText ns), elementsOf ns⟩ := by
  have hn : ∀ name, nameText ⟨"", name⟩ = name := fun _ => rfl
  have ha : (Builder.plain e.attributes).map (fun a => (nameText a.1, a.2)) = e.attributes := by
    rw [Builder.plain, List.map_map]
    exact List.map_id _
  rw [elementOf, hn, ha]

theorem leadingText_of_element {n : Node} {e : Element} (h : elementOf n = some e) (more : List Node) :
    leadingText (n :: more) = [] := by
  cases n with
  | element => rfl
  | text | reference => cases h

namespace Element

theorem encodeList_lineStart (depth : Nat) :
    Escape.encodeList false (lineStart depth) = lineStart depth := by
  have hc : ∀ c ∈ lineStart depth, Escape.encodeChar false c = [c] := by
    intro c hc
    by_cases hn : c = '\n'
    · rw [hn]
      rfl
    · by_cases hs : c = ' '
      · rw [hs]
        rfl
      · exact absurd hc (not_mem_lineStart hn hs depth)
  rw [Escape.encodeList, List.flatMap_congr hc, List.flatMap_singleton']

theorem unifyLineEnds_lineStart (depth : Nat) : unifyLineEnds (lineStart depth) = lineStart depth :=
  Text.unifyLineEnds_of_not_mem (not_mem_lineStart (by decide) (by decide) depth)

end Element

/-! Documents. -/

namespace Builder

open Element (startTag)

variable {b : Builder} {d : Dialect} {es : Entities} {e : Element}

theorem step_startTag (h : e.HasNames) (hs : b.scope = .initial) (hd : d.depthLimit = none)
    (hrules : es.rules = []) (inside : Scope → List Char → Except Malformed (List Node)) :
    ∃ line, b.step d es inside (startTag e) = .ok
      (if e.isVoid then { b.add (.element ⟨"", e.tag⟩ (plain e.attributes) line []) with line := line }
      else { b with frames := opened e line :: b.frames, line := line }) := by
  have hscope : (b.advance (startTag e).body).scope = .initial := hs
  have hopen := openTag_of_hasNames h hscope hd hrules e.isVoid
  have hstart : startTag e =
      .opening (e.tag.toList ++ (e.attributes.flatMap Tag.written ++ Tag.slash e.isVoid)) := by
    cases e
    rfl
  refine ⟨(b.advance (startTag e).body).line, ?_⟩
  rw [hstart] at hopen ⊢
  rw [step]
  refine hopen.trans (congrArg Except.ok ?_)
  obtain ⟨frames, finished, outer, line⟩ := b
  cases frames with
  | nil => rfl
  | cons f fs => rfl

end Builder

namespace Document

open Builder (opened plain)
open Element (lineStart startTag inner marksOf reread rereadAll)

section

variable (d : Dialect) (standalone : Bool) (es : Entities) (typed : Bool)

/-- Pieces leave more nodes in the innermost element. -/
def Adds (ls : List Lexeme) (b : Builder) (ns : List Node) : Prop :=
  ∃ line, ls.foldlM (step d standalone) (es, typed, b) =
    .ok (es, typed, { b.addAll ns with line := line })

/-- Pieces complete the innermost element, and leave it behind as a node. -/
def Closes (ls : List Lexeme) (b : Builder) (f : Frame) (n : Node) : Prop :=
  ∃ line, ls.foldlM (step d standalone) (es, typed, { b with frames := f :: b.frames }) =
    .ok (es, typed, { b.add n with line := line })

end

variable {d : Dialect} {standalone typed : Bool} {es : Entities} {b : Builder} {e : Element}
  {ls ls' : List Lexeme} {ns ns' : List Node} {n : Node}

/-- An element is open, and no namespaces are bound. -/
structure Inside (b : Builder) : Prop where
  frames : b.frames ≠ []
  scope : b.scope = .initial

theorem step_of_inside (h : Inside b) (l : Lexeme) :
    step d standalone (es, typed, b) l =
      (b.step d es (fragment d es es.texts.length) l).map (es, typed, ·) := by
  have hf : b.frames.isEmpty = false := by simpa using h.frames
  simp only [step, hf, Bool.false_eq_true, if_false]

theorem inside_opened (b : Builder) (e : Element) (line : Nat) :
    Inside { b with frames := opened e line :: b.frames } :=
  ⟨List.cons_ne_nil _ _, rfl⟩

theorem Inside.addAll (h : Inside b) (ns : List Node) (line : Nat) :
    Inside { b.addAll ns with line := line } := by
  obtain ⟨f, fs, hf⟩ := List.exists_cons_of_ne_nil h.frames
  have hs := h.scope
  rw [Builder.addAll_eq hf]
  rw [Builder.scope, hf] at hs
  exact ⟨List.cons_ne_nil _ _, hs⟩

theorem Adds.nil : Adds d standalone es typed [] b [] :=
  ⟨b.line, rfl⟩

theorem Adds.append_exists {P : List Node → Prop} (hb : Inside b)
    (h : Adds d standalone es typed ls b ns)
    (h' : ∀ line, ∃ ns', Adds d standalone es typed ls' { b.addAll ns with line := line } ns' ∧ P ns') :
    ∃ ns', Adds d standalone es typed (ls ++ ls') b (ns ++ ns') ∧ P ns' := by
  obtain ⟨line, hls⟩ := h
  obtain ⟨ns', ⟨line', hls'⟩, hp⟩ := h' line
  refine ⟨ns', ⟨line', ?_⟩, hp⟩
  rw [List.foldlM_append, hls]
  refine hls'.trans ?_
  obtain ⟨f, fs, hf⟩ := List.exists_cons_of_ne_nil hb.frames
  rw [Builder.addAll_append, Builder.addAll_eq hf]
  rw [Builder.addAll_eq rfl, Builder.addAll_eq rfl]

theorem Adds.append (hb : Inside b) (h : Adds d standalone es typed ls b ns)
    (h' : ∀ line, Adds d standalone es typed ls' { b.addAll ns with line := line } ns') :
    Adds d standalone es typed (ls ++ ls') b (ns ++ ns') := by
  obtain ⟨ms, hms, rfl⟩ := h.append_exists (P := (· = ns')) hb fun line => ⟨ns', h' line, rfl⟩
  exact hms

/-- Escaped text. -/
theorem adds_text (hb : Inside b) (cs : List Char) :
    Adds d standalone es typed (Mark.textOf (Escape.encodeList false cs)) b
      (texts (unifyLineEnds cs)) := by
  by_cases hc : cs = []
  · rw [hc]
    exact Adds.nil
  · have he : Escape.encodeList false cs ≠ [] := mt Escape.encodeList_eq_nil_iff.mp hc
    obtain ⟨f, fs, hf⟩ := List.exists_cons_of_ne_nil hb.frames
    have hadvance : (b.advance (Escape.encodeList false cs)).frames = f :: fs := hf
    refine ⟨(b.advance (Escape.encodeList false cs)).line, ?_⟩
    rw [Mark.textOf, if_neg he, List.foldlM_cons, step_of_inside hb, Builder.step]
    simp only [Lexeme.body]
    rw [Builder.addText_encodeList, Builder.addAll_eq hf, Builder.addAll_eq hadvance]
    rfl

theorem adds_lineStart (hb : Inside b) (depth : Nat) :
    Adds d standalone es typed (Mark.textOf (lineStart depth)) b (texts (lineStart depth)) := by
  have h : Adds d standalone es typed _ b _ := adds_text hb (lineStart depth)
  rwa [Element.encodeList_lineStart, Element.unifyLineEnds_lineStart] at h

/-- The content of an element and its end tag. -/
theorem closes_of_adds (h : e.HasNames) {line : Nat}
    (ha : Adds d standalone es typed ls { b with frames := opened e line :: b.frames } ns) :
    Closes d standalone es typed (ls ++ [.closing e.tag.toList]) b (opened e line)
      (.element ⟨"", e.tag⟩ (plain e.attributes) line ns) := by
  obtain ⟨last, hls⟩ := ha
  have hchildren : (ns.reverse ++ []).reverse = ns := by rw [List.append_nil, List.reverse_reverse]
  have htag : ({ opened e line with children := ns.reverse ++ [] } : Frame).tag = ⟨none, e.tag⟩ := rfl
  have hclose := Builder.closeTag_opened
    ⟨b.frames, b.finished, b.outer, last + e.tag.toList.count '\n'⟩ b.frames h htag
  refine ⟨last + e.tag.toList.count '\n', ?_⟩
  have hinside := (inside_opened b e line).addAll ns last
  rw [Builder.addAll_eq rfl] at hls hinside
  rw [List.foldlM_append, hls]
  change List.foldlM (step d standalone) _ [Lexeme.closing e.tag.toList] = _
  simp only [List.foldlM_cons, List.foldlM_nil, bind_pure]
  rw [step_of_inside hinside]
  refine (congrArg (Except.map (es, typed, ·)) hclose).trans (congrArg Except.ok ?_)
  rw [hchildren]
  obtain ⟨frames, finished, outer, line⟩ := b
  cases frames with
  | nil => rfl
  | cons f fs => rfl

/-- The start tag of an element and what comes after it. An element that closes at once is added by its
start tag, any other by its end tag. -/
theorem run_element (hd : d.depthLimit = none) (hrules : es.rules = []) (h : e.HasNames)
    (hs : b.scope = .initial) {before : Bool} (hstart : step d standalone (es, before, b) (startTag e) =
      (b.step d es (fragment d es es.texts.length) (startTag e)).map (es, typed, ·)) {depth : Nat}
    (hi : e.isVoid = false → ∀ (b : Builder) (line : Nat), ∃ n,
      Closes d standalone es typed ((inner depth e).flatMap Mark.pieces) b (opened e line) n ∧
        elementOf n = some (reread depth e)) :
    ∃ n line, (startTag e :: (inner depth e).flatMap Mark.pieces).foldlM (step d standalone)
        (es, before, b) = .ok (es, typed, { b.add n with line := line }) ∧
      elementOf n = some (reread depth e) := by
  obtain ⟨line, hstep⟩ := Builder.step_startTag h hs hd hrules (fragment d es es.texts.length)
  rw [List.foldlM_cons, hstart, hstep]
  cases hv : e.isVoid with
  | true =>
    obtain ⟨hinner, hread⟩ := Element.inner_of_isVoid hv depth
    rw [hinner]
    exact ⟨_, line, rfl, (elementOf_element e line []).trans (congrArg some hread.symm)⟩
  | false =>
    obtain ⟨n, ⟨last, hls⟩, hn⟩ := hi hv { b with line := line } line
    refine ⟨n, last, hls.trans ?_, hn⟩
    obtain ⟨frames, finished, outer, line⟩ := b
    cases frames with
    | nil => rfl
    | cons f fs => rfl

theorem adds_element (hd : d.depthLimit = none) (hrules : es.rules = []) (h : e.HasNames) (hb : Inside b)
    {depth : Nat} (hi : e.isVoid = false → ∀ (b : Builder) (line : Nat), ∃ n,
      Closes d standalone es typed ((inner depth e).flatMap Mark.pieces) b (opened e line) n ∧
        elementOf n = some (reread depth e)) :
    ∃ ns, Adds d standalone es typed (startTag e :: (inner depth e).flatMap Mark.pieces) b ns ∧
      elementsOf ns = [reread depth e] ∧ ∀ more, leadingText (ns ++ more) = [] := by
  obtain ⟨n, line, hn, hread⟩ := run_element hd hrules h hb.scope (step_of_inside hb _) hi
  refine ⟨[n], ⟨line, hn⟩, ?_, fun more => leadingText_of_element hread more⟩
  rw [elementsOf, hread]
  rfl

mutual

theorem closes_inner (hd : d.depthLimit = none) (hrules : es.rules = []) : ∀ (depth : Nat) (e : Element), e.Named →
    e.isVoid = false → ∀ (b : Builder) (line : Nat), ∃ n,
      Closes d standalone es typed ((inner depth e).flatMap Mark.pieces) b (opened e line) n ∧
        elementOf n = some (reread depth e)
  | depth, ⟨tag, attributes, text, []⟩, h, hv, b, line => by
    have hnames := (Element.named_iff.mp h).1
    have htext : text.isEmpty = false := by simpa [Element.isVoid] using hv
    have hadds : Adds d standalone es typed (Mark.textOf (Escape.encodeList false text.toList)) _ _ :=
      adds_text (inside_opened b ⟨tag, attributes, text, []⟩ line) text.toList
    refine ⟨.element ⟨"", tag⟩ (plain attributes) line (texts (unifyLineEnds text.toList)), ?_,
      (elementOf_element ⟨tag, attributes, text, []⟩ line _).trans ?_⟩
    · have hclose := closes_of_adds hnames hadds
      rw [Element.inner, htext]
      simpa [Mark.pieces] using hclose
    · rw [reread, leadingText_texts, elementsOf_texts]
  | depth, ⟨tag, attributes, text, child :: children⟩, h, _, b, line => by
    obtain ⟨hnames, hall⟩ := Element.named_iff.mp h
    have hopen := inside_opened b ⟨tag, attributes, text, child :: children⟩ line
    obtain ⟨ns, hns, helements, hleading⟩ := adds_marksOf hd hrules (depth + 1) (child :: children) hall _ hopen
    have hend : ∀ l, Adds d standalone es typed _ _ _ := fun l =>
      adds_lineStart (hopen.addAll ns l) depth
    have hclose := closes_of_adds hnames (hns.append hopen hend)
    refine ⟨.element ⟨"", tag⟩ (plain attributes) line (ns ++ texts (lineStart depth)), ?_,
      (elementOf_element ⟨tag, attributes, text, child :: children⟩ line _).trans ?_⟩
    · rw [Element.inner_cons]
      simpa [Mark.pieces] using hclose
    · rw [reread, hleading _ (List.cons_ne_nil _ _), elementsOf_append, elementsOf_texts, helements,
        List.append_nil, rereadAll]

theorem adds_marksOf (hd : d.depthLimit = none) (hrules : es.rules = []) : ∀ (depth : Nat) (children : List Element),
    (∀ e ∈ children, e.Named) → ∀ b : Builder, Inside b → ∃ ns,
      Adds d standalone es typed ((marksOf depth children).flatMap Mark.pieces) b ns ∧
        elementsOf ns = rereadAll depth children ∧
        ∀ more, children ≠ [] → leadingText (ns ++ more) = lineStart depth
  | _, [], _, _, _ => ⟨[], Adds.nil, rfl, fun _ h => absurd rfl h⟩
  | depth, e :: rest, h, b, hb => by
    obtain ⟨he, hrest⟩ := List.forall_mem_cons.mp h
    have hstart : Adds d standalone es typed _ b _ := adds_lineStart hb depth
    obtain ⟨ns, hns, hread, hleading⟩ := hstart.append_exists hb fun line =>
      adds_element hd hrules (Element.named_iff.mp he).1 (hb.addAll _ line) (closes_inner hd hrules depth e he)
    obtain ⟨ns', hns', hread', -⟩ := hns.append_exists hb fun line =>
      adds_marksOf hd hrules depth rest hrest _ (hb.addAll _ line)
    refine ⟨texts (lineStart depth) ++ ns ++ ns', ?_, ?_, ?_⟩
    · simpa [marksOf, Mark.pieces] using hns'
    · rw [elementsOf_append, elementsOf_append, elementsOf_texts, hread, hread']
      rfl
    · intro more _
      rw [List.append_assoc, List.append_assoc, leadingText_texts_append, hleading, List.append_nil]

end

end Document

end LoadPlan.Markup
