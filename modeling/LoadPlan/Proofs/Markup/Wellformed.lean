import LoadPlan.Proofs.Markup.Bytes
import LoadPlan.Proofs.Markup.Legible
import LoadPlan.Proofs.Markup.Rereading

/-! Written documents are well formed, and the tree they were written from is read back from them. -/
namespace LoadPlan.Markup

namespace Element

/-- The strings that are written of an element itself are legible. The text of an element with
children is not written. -/
structure Readable (e : Element) : Prop where
  attributes : ∀ a ∈ e.attributes, Legible a.2.toList
  text : e.children = [] → Legible e.text.toList

theorem readable_iff {e : Element} :
    e.Readable ↔ (∀ a ∈ e.attributes, Legible a.2.toList) ∧ (e.children = [] → Legible e.text.toList) :=
  ⟨fun h => ⟨h.attributes, h.text⟩, fun h => ⟨h.1, h.2⟩⟩

instance (e : Element) : Decidable e.Readable :=
  decidable_of_iff ((∀ a ∈ e.attributes, Legible a.2.toList) ∧ (e.children.isEmpty → Legible e.text.toList))
    (by rw [readable_iff, List.isEmpty_iff])

theorem legible_written {a : String × String} (h : isName a.1.toList = true) :
    Legible (Tag.written a) ↔ Legible a.2.toList := by
  have hname := legible_of_isName h
  have hblank : Legible [' '] := by decide
  have hequals : Legible ['=', '"'] := by decide
  have hquote : Legible ['"'] := by decide
  have hsplit : Tag.written a =
      [' '] ++ a.1.toList ++ ['=', '"'] ++ Escape.encodeList true a.2.toList ++ ['"'] := by
    simp [Tag.written]
  rw [hsplit]
  simp only [legible_append, Escape.legible_encodeList, hname, hblank, hequals, hquote, true_and, and_true]

theorem legible_startTag {e : Element} (h : e.HasNames) :
    Legible (Mark.sourceOf (startTag e)) ↔ ∀ a ∈ e.attributes, Legible a.2.toList := by
  obtain ⟨tag, attributes, text, children⟩ := e
  have htag := legible_of_isName h.tag
  have hopen : Legible ['<'] := by decide
  have hclose : Legible ['>'] := by decide
  have hslash : ∀ empty, Legible (Tag.slash empty) := by decide
  have hsplit : Mark.sourceOf (startTag ⟨tag, attributes, text, children⟩) =
      ['<'] ++ tag.toList ++ attributes.flatMap Tag.written ++
        Tag.slash (text.isEmpty && children.isEmpty) ++ ['>'] := by
    simp [Mark.sourceOf, startTag]
  rw [hsplit]
  simp only [legible_append, legible_flatMap, htag, hopen, hclose, hslash, true_and, and_true]
  exact forall₂_congr fun a ha => legible_written (h.attributes a ha)

theorem legible_endTag {e : Element} (h : e.HasNames) : Legible (Mark.sourceOf (.closing e.tag.toList)) := by
  have hopen : Legible ['<', '/'] := by decide
  have hclose : Legible ['>'] := by decide
  have hsplit : Mark.sourceOf (.closing e.tag.toList) = ['<', '/'] ++ e.tag.toList ++ ['>'] := by
    simp [Mark.sourceOf]
  rw [hsplit]
  exact legible_append.mpr ⟨legible_append.mpr ⟨hopen, legible_of_isName h.tag⟩, hclose⟩

theorem legible_lineStart (depth : Nat) : Legible (lineStart depth) := by
  intro c hc
  by_cases hn : c = '\n'
  · rw [hn]
    rfl
  by_cases hs : c = ' '
  · rw [hs]
    rfl
  · exact absurd hc (not_mem_lineStart hn hs depth)

mutual

theorem legible_inner : ∀ (depth : Nat) (e : Element), e.Named →
    (Legible ((inner depth e).flatMap Mark.source) ↔
      (e.children = [] → Legible e.text.toList) ∧ ∀ x ∈ subtrees e.children, x.Readable)
  | depth, ⟨tag, attributes, text, []⟩, h => by
    have hend := legible_endTag (named_iff.mp h).1
    have hnone : ∀ x ∈ subtrees [], x.Readable := by simp [subtrees]
    rw [inner, and_iff_left hnone, forall_prop_of_true rfl]
    split
    · next ht =>
      rw [String.isEmpty_iff.mp ht]
      exact iff_of_true (List.forall_mem_nil _) (List.forall_mem_nil _)
    · rw [List.flatMap_singleton, Mark.source, legible_append, Escape.legible_encodeList, and_iff_left hend]
  | depth, ⟨tag, attributes, text, child :: children⟩, h => by
    obtain ⟨hnames, hall⟩ := named_iff.mp h
    have hend := legible_endTag hnames
    have hline : Legible ([(lineStart depth, Lexeme.closing tag.toList)].flatMap Mark.source) := by
      rw [List.flatMap_singleton]
      exact legible_append.mpr ⟨legible_lineStart depth, hend⟩
    rw [inner_cons, List.flatMap_append, legible_append, and_iff_left hline,
      legible_marksOf (depth + 1) (child :: children) hall]
    simp

theorem legible_marksOf : ∀ (depth : Nat) (es : List Element), (∀ e ∈ es, e.Named) →
    (Legible ((marksOf depth es).flatMap Mark.source) ↔ ∀ x ∈ subtrees es, x.Readable)
  | _, [], _ => by simp [marksOf, subtrees, Legible]
  | depth, e :: es, h => by
    obtain ⟨he, hes⟩ := List.forall_mem_cons.mp h
    rw [marksOf, List.flatMap_cons, List.flatMap_append, legible_append, legible_append,
      legible_marksOf depth es hes, Mark.source, legible_append, and_iff_right (legible_lineStart depth),
      legible_startTag (named_iff.mp he).1, legible_inner depth e he, subtrees, List.forall_mem_append,
      subtree_eq, List.forall_mem_cons, readable_iff]
    simp only [and_assoc]
    rfl

end

/-- A document is legible if all the strings written in it are. -/
theorem legible_document {e : Element} (h : e.Named) :
    Legible e.document.toList ↔ ∀ x ∈ e.subtree, x.Readable := by
  have hdeclaration : Legible (Mark.source ([], .instruction declarationBody)) := by decide
  have hend : Legible ['\n'] := by decide
  have hmarks := legible_marksOf 0 [e] (List.forall_mem_singleton.mpr h)
  rw [marksOf, marksOf, List.append_nil, subtrees, subtrees, List.append_nil] at hmarks
  rw [toList_document, legible_append, and_iff_left hend, List.flatMap_cons, legible_append,
    and_iff_right hdeclaration, ← hmarks, marks]

end Element

namespace Document

open Jmx.PlanFile (elementOf)
open Element (marks startTag inner lineStart)

variable {d : Dialect} {e : Element}

/-- The pieces of a written document after its declaration. -/
def rest (e : Element) : List Lexeme :=
  Lexeme.text ['\n'] :: startTag e :: (inner 0 e).flatMap Mark.pieces ++ [Lexeme.text ['\n']]

theorem run_rest (hd : d.depthLimit = none) (h : e.Named) (line : Nat) :
    ∃ n last, (rest e).foldlM (step d false) (Entities.none, false, ⟨[], [], .initial, line⟩) =
        .ok (Entities.none, true, ⟨[], [n], .initial, last⟩) ∧
      elementOf n = some (e.reread 0) := by
  let b : Builder := ⟨[], [], .initial, line + 1⟩
  have hstart : step d false (Entities.none, false, b) (startTag e) =
      (b.step d Entities.none (fragment d Entities.none Entities.none.texts.length) (startTag e)).map
        (Entities.none, true, ·) := by
    cases e
    rfl
  obtain ⟨n, last, hn, hread⟩ := run_element hd rfl (Element.named_iff.mp h).1 rfl hstart
    (closes_inner hd rfl 0 e h)
  refine ⟨n, last + 1, ?_, hread⟩
  rw [rest, List.cons_append, List.foldlM_cons]
  change List.foldlM (step d false) (Entities.none, false, b) _ = _
  rw [List.foldlM_append, hn]
  rfl

theorem split?_document (h : e.Named) :
    Lexeme.split? e.document.toList = some (.instruction Element.declarationBody :: rest e) := by
  have hd : '?' ∉ Element.declarationBody := by decide
  have hclean : Element.Clean (([], .instruction Element.declarationBody) :: marks 0 e) := by
    have hroot := Element.clean_marksOf 0 [e] (List.forall_mem_singleton.mpr h)
    rw [Element.marksOf, Element.marksOf, List.append_nil] at hroot
    exact List.forall_mem_cons.mpr ⟨⟨by decide, hd⟩, hroot⟩
  have hend : '<' ∉ ['\n'] := by decide
  rw [Element.toList_document, Mark.split?_source hclean hend]
  rfl

/-- A written document is well formed, and read back with the line ends of its texts unified. -/
theorem ofChars_document (hd : d.depthLimit = none) (h : e.Named)
    (hr : ∀ x ∈ e.subtree, x.Readable) :
    ∃ root, ofChars d e.document.toList = .ok root ∧ elementOf root = some (e.reread 0) := by
  have hall : (e.document.toList.all fun c => isAllowed c.toNat) = true :=
    List.all_eq_true.mpr ((Element.legible_document h).mpr hr)
  have hhead : head (.instruction Element.declarationBody :: rest e) =
      .ok (⟨"1.0", some "UTF-8", false⟩, rest e) := by
    have hd : Declaration.isHead Element.declarationBody = true := by decide
    rw [head, if_pos hd, Declaration.ofBody_declarationBody]
    rfl
  have hversion : Declaration.isFirst ⟨"1.0", some "UTF-8", false⟩ = true := by decide
  have hlines : ∃ line, ((Lexeme.instruction Element.declarationBody :: rest e).take
      ((Lexeme.instruction Element.declarationBody :: rest e).length - (rest e).length)).foldl
        (fun b l => b.advance l.body) (Builder.start .initial) = ⟨[], [], .initial, line⟩ := by
    have hlength : (Lexeme.instruction Element.declarationBody :: rest e).length - (rest e).length = 1 := by
      simp
    rw [hlength]
    exact ⟨_, rfl⟩
  obtain ⟨line, hlines⟩ := hlines
  obtain ⟨n, last, hn, hread⟩ := run_rest hd h line
  refine ⟨n, ?_, hread⟩
  simp only [ofChars, hall, split?_document h, hhead, hversion, hlines, hn, bind, Except.bind, pure,
    Except.pure, Bool.not_true, Bool.and_false, Bool.false_eq_true, if_false]
  rfl

theorem ofBytes_document (hd : d.depthLimit = none) (h : e.Named)
    (hr : ∀ x ∈ e.subtree, x.Readable) :
    ∃ root, ofBytes d (Text.Utf8.encode e.document) = .ok root ∧ elementOf root = some (e.reread 0) := by
  rw [ofBytes, Encoding.decode?_document]
  exact ofChars_document hd h hr

/-- No reader takes a document with a string that is not legible. -/
theorem ofBytes_document_eq_error (h : e.Named) (hr : ¬ ∀ x ∈ e.subtree, x.Readable) :
    ofBytes d (Text.Utf8.encode e.document) = .error .character := by
  rw [ofBytes, Encoding.decode?_document]
  exact ofChars_eq_error (mt (Element.legible_document h).mp hr)

end Document

namespace Element

mutual

/-- A tree without its texts. -/
def skeleton : Element → Element
  | ⟨tag, attributes, _, children⟩ => ⟨tag, attributes, "", skeletons children⟩

def skeletons : List Element → List Element
  | [] => []
  | e :: es => skeleton e :: skeletons es

end

mutual

theorem skeleton_reread : ∀ (depth : Nat) (e : Element), (e.reread depth).skeleton = e.skeleton
  | _, ⟨_, _, _, []⟩ => by rw [reread, skeleton, skeleton]
  | depth, ⟨_, _, _, child :: children⟩ => by
    rw [reread, skeleton, skeleton, skeletons, skeletons, skeleton_reread (depth + 1) child,
      skeletons_rereadAll (depth + 1) children]

theorem skeletons_rereadAll : ∀ (depth : Nat) (es : List Element),
    skeletons (rereadAll depth es) = skeletons es
  | _, [] => rfl
  | depth, e :: es => by
    rw [rereadAll, skeletons, skeletons, skeleton_reread depth e, skeletons_rereadAll depth es]

end

end Element

/-- Elements, their order and their attributes come through a document unchanged, whatever the strings
in it hold. -/
theorem skeleton_of_document {d : Dialect} {e : Element} (hd : d.depthLimit = none) (hn : e.Named)
    (hr : ∀ x ∈ e.subtree, x.Readable) :
    ∃ root e', Document.ofBytes d (Text.Utf8.encode e.document) = .ok root ∧
      Jmx.PlanFile.elementOf root = some e' ∧ e'.skeleton = e.skeleton := by
  obtain ⟨root, hroot, hread⟩ := Document.ofBytes_document hd hn hr
  exact ⟨root, e.reread 0, hroot, hread, Element.skeleton_reread 0 e⟩

/-- Strings full of markup, quotes, line ends and tabs. -/
def markedTree : Element :=
  ⟨"plan", [("name", "\"a\"<b/>\r\n\t&amp;"), ("note", "")], "not written",
    [⟨"leaf", [("x", "]]>\r")], "</plan><!--\r\n&#9;", []⟩, ⟨"inner", [], "", [⟨"leaf", [], "", []⟩]⟩]⟩

theorem skeleton_of_document_markedTree :
    ∃ root e', Document.ofBytes Jmx.PlanFile.dialect (Text.Utf8.encode markedTree.document) = .ok root ∧
      Jmx.PlanFile.elementOf root = some e' ∧ e'.skeleton = markedTree.skeleton :=
  skeleton_of_document rfl (by decide) (by decide)

end LoadPlan.Markup
