import LoadPlan.Markup.Element
import LoadPlan.Markup.Lexeme
import LoadPlan.Proofs.Jmx.Component
import LoadPlan.Proofs.Markup.Tags

/-! A written document as a list of marks, each after a gap of text, and that it is cut into these. -/
namespace LoadPlan.Markup

/-- The text before a piece of markup, and the piece. -/
abbrev Mark := List Char × Lexeme

namespace Mark

/-- A tag or an instruction as it is written. -/
def sourceOf : Lexeme → List Char
  | .opening body => '<' :: (body ++ ['>'])
  | .closing body => '<' :: '/' :: (body ++ ['>'])
  | .instruction body => '<' :: '?' :: (body ++ ['?', '>'])
  | _ => []

def source (m : Mark) : List Char :=
  m.1 ++ sourceOf m.2

/-- No text is no piece. -/
def textOf (gap : List Char) : List Lexeme :=
  if gap = [] then [] else [.text gap]

def pieces (m : Mark) : List Lexeme :=
  textOf m.1 ++ [m.2]

/-- Markup that ends where it is written to end. -/
def Closed : Lexeme → Prop
  | .opening body => Tag.Inner body ∧ ∃ c cs, body = c :: cs ∧ isNameStart c = true
  | .closing body => '>' ∉ body
  | .instruction body => '?' ∉ body
  | _ => False

variable {m : Mark} {rest : List Char}

theorem cutAfter_pair {a b : Char} {body : List Char} (h : a ∉ body) (rest : List Char) :
    cutAfter [a, b] (body ++ a :: b :: rest) = some (body, rest) := by
  induction body with
  | nil => simp [cutAfter]
  | cons x body ih =>
    obtain ⟨hx, hb⟩ := not_or.mp (mt List.mem_cons.mpr h)
    have hp : [a, b].isPrefixOf (x :: (body ++ a :: b :: rest)) = false := by
      rw [List.isPrefixOf, beq_false_of_ne hx, Bool.false_and]
    rw [List.cons_append, cutAfter, hp, ih hb]
    rfl

theorem cut?_sourceOf {l : Lexeme} (h : Closed l) (rest : List Char) :
    ∃ tail, sourceOf l ++ rest = '<' :: tail ∧ Lexeme.cut? tail = some (l, rest) := by
  cases l with
  | opening body =>
    obtain ⟨hi, c, cs, rfl, hc⟩ := h
    refine ⟨c :: cs ++ '>' :: rest, by simp [sourceOf], ?_⟩
    have hcut := hi.cut rest
    rw [List.cons_append] at hcut ⊢
    rw [Lexeme.cut?, hcut]
    · rfl
    all_goals
      rintro tail ht
      rw [(List.cons.inj ht).1] at hc
      exact absurd hc (by decide)
  | closing body =>
    refine ⟨'/' :: (body ++ '>' :: rest), by simp [sourceOf], ?_⟩
    rw [Lexeme.cut?, Escape.cutAfter_of_not_mem h]
    rfl
  | instruction body =>
    refine ⟨'?' :: (body ++ '?' :: '>' :: rest), by simp [sourceOf], ?_⟩
    have hcut : cutAfter "?>".toList (body ++ '?' :: '>' :: rest) = some (body, rest) := cutAfter_pair h rest
    rw [Lexeme.cut?, hcut]
    rfl
  | _ => exact h.elim

theorem split?_sourceOf {l : Lexeme} (h : Closed l) (rest : List Char) :
    Lexeme.split? (sourceOf l ++ rest) = (Lexeme.split? rest).map (l :: ·) := by
  obtain ⟨tail, hs, hcut⟩ := cut?_sourceOf h rest
  rw [hs, Lexeme.split?, if_pos rfl]
  split
  · next hn =>
    rw [hcut] at hn
    cases hn
  · next hn =>
    rw [hcut] at hn
    cases hn
    rfl

/-- A text ends where the next piece of markup begins. -/
theorem split?_gap {gap : List Char} (h : '<' ∉ gap) (hr : ∀ c ∈ rest.head?, c = '<') :
    Lexeme.split? (gap ++ rest) = (Lexeme.split? rest).map (textOf gap ++ ·) := by
  cases gap with
  | nil => simp [textOf]
  | cons c cs =>
    obtain ⟨hc, hcs⟩ := not_or.mp (mt List.mem_cons.mpr h)
    have hall : ∀ x ∈ cs, (x != '<') = true := by
      intro x hx
      rw [bne_iff_ne]
      rintro rfl
      exact hcs hx
    have ht : rest.takeWhile (· != '<') = [] ∧ rest.dropWhile (· != '<') = rest := by
      cases rest with
      | nil => exact ⟨rfl, rfl⟩
      | cons x xs =>
        rw [hr x rfl]
        exact ⟨rfl, rfl⟩
    rw [List.cons_append, Lexeme.split?, if_neg (fun he => hc he.symm),
      List.takeWhile_append_of_pos hall, List.dropWhile_append_of_pos hall, ht.1, ht.2,
      List.append_nil]
    rfl

/-- A written document is cut into its marks. -/
theorem split?_source {ms : List Mark} {last : List Char} (h : ∀ m ∈ ms, '<' ∉ m.1 ∧ Closed m.2)
    (hl : '<' ∉ last) :
    Lexeme.split? (ms.flatMap source ++ last) = some (ms.flatMap pieces ++ textOf last) := by
  induction ms with
  | nil =>
    have hs : Lexeme.split? (last ++ []) = (Lexeme.split? []).map (textOf last ++ ·) :=
      split?_gap hl (by simp)
    rw [List.append_nil, Lexeme.split?] at hs
    simpa using hs
  | cons m ms ih =>
    obtain ⟨⟨hg, hm⟩, hms⟩ := List.forall_mem_cons.mp h
    have hhead : ∀ c ∈ (sourceOf m.2 ++ (ms.flatMap source ++ last)).head?, c = '<' := by
      obtain ⟨tail, hs, -⟩ := cut?_sourceOf hm (ms.flatMap source ++ last)
      rw [hs]
      rintro c ⟨⟩
      rfl
    rw [List.flatMap_cons, source, List.append_assoc, List.append_assoc, split?_gap hg hhead,
      split?_sourceOf hm, ih hms]
    simp [pieces]

end Mark

namespace Element

/-- The names of an element itself: those of its attributes are distinct and bind no namespace. -/
structure HasNames (e : Element) : Prop where
  tag : isName e.tag.toList = true
  attributes : ∀ a ∈ e.attributes, isName a.1.toList = true
  distinct : (e.attributes.map Prod.fst).Nodup
  unbound : ∀ a ∈ e.attributes, a.1 ≠ "xmlns"

theorem hasNames_iff {e : Element} : e.HasNames ↔ isName e.tag.toList = true ∧
    (∀ a ∈ e.attributes, isName a.1.toList = true) ∧ (e.attributes.map Prod.fst).Nodup ∧
    ∀ a ∈ e.attributes, a.1 ≠ "xmlns" :=
  ⟨fun h => ⟨h.tag, h.attributes, h.distinct, h.unbound⟩, fun h => ⟨h.1, h.2.1, h.2.2.1, h.2.2.2⟩⟩

instance (e : Element) : Decidable e.HasNames :=
  decidable_of_iff _ hasNames_iff.symm

/-- All elements of a tree have names. -/
def Named (e : Element) : Prop :=
  ∀ x ∈ e.subtree, x.HasNames

instance (e : Element) : Decidable e.Named :=
  inferInstanceAs (Decidable (∀ x ∈ e.subtree, x.HasNames))

theorem named_iff {e : Element} : e.Named ↔ e.HasNames ∧ ∀ c ∈ e.children, c.Named :=
  forall_mem_subtree_iff

/-! The marks of an element. -/

/-- What stands before a tag that has a line of its own. -/
def lineStart (depth : Nat) : List Char :=
  '\n' :: (indent depth).toList

/-- The start tag of an element; it closes one with neither text nor children. -/
def startTag : Element → Lexeme
  | ⟨tag, attributes, text, children⟩ =>
    .opening (tag.toList ++ (attributes.flatMap Tag.written ++
      Tag.slash (text.isEmpty && children.isEmpty)))

mutual

/-- The marks of an element after its start tag. -/
def inner (depth : Nat) : Element → List Mark
  | ⟨tag, _, text, []⟩ =>
    if text.isEmpty then [] else [(Escape.encodeList false text.toList, .closing tag.toList)]
  | ⟨tag, _, _, child :: children⟩ =>
    (lineStart (depth + 1), startTag child) ::
      (inner (depth + 1) child ++ marksOf (depth + 1) children) ++
      [(lineStart depth, .closing tag.toList)]

/-- The marks of elements on lines of their own. -/
def marksOf (depth : Nat) : List Element → List Mark
  | [] => []
  | e :: es => (lineStart depth, startTag e) :: (inner depth e ++ marksOf depth es)

end

/-- The marks of an element on a line of its own. -/
def marks (depth : Nat) (e : Element) : List Mark :=
  (lineStart depth, startTag e) :: inner depth e

theorem inner_cons (depth : Nat) (tag text : String) (attributes : List (String × String))
    (child : Element) (children : List Element) :
    inner depth ⟨tag, attributes, text, child :: children⟩ =
      marksOf (depth + 1) (child :: children) ++ [(lineStart depth, .closing tag.toList)] := by
  simp [inner, marksOf]

theorem toList_opening (tag : String) (attributes : List (String × String)) :
    (opening tag attributes).toList = tag.toList ++ attributes.flatMap Tag.written := by
  have ha : ∀ a : String × String,
      (" " ++ a.1 ++ "=\"" ++ Escape.encode true a.2 ++ "\"").toList = Tag.written a := by
    intro a
    simp [Tag.written, Escape.encode]
  rw [opening, String.toList_append, String.toList_join, List.flatMap_map]
  simp only [ha]

/-- The characters of lines, each after a line feed. -/
def broken (ls : List String) : List Char :=
  ls.flatMap fun l => '\n' :: l.toList

theorem broken_append (a b : List String) : broken (a ++ b) = broken a ++ broken b :=
  List.flatMap_append

/-- A start tag at the beginning of a line. -/
theorem source_startTag (depth : Nat) (e : Element) :
    Mark.source (lineStart depth, startTag e) =
      '\n' :: (indent depth ++ "<" ++ opening e.tag e.attributes).toList ++
        Tag.slash (e.text.isEmpty && e.children.isEmpty) ++ ['>'] := by
  obtain ⟨tag, attributes, text, children⟩ := e
  simp [Mark.source, Mark.sourceOf, startTag, lineStart, toList_opening]

mutual

theorem broken_lines : ∀ (depth : Nat) (e : Element),
    broken (lines depth e) = (marks depth e).flatMap Mark.source
  | depth, ⟨tag, attributes, text, []⟩ => by
    rw [lines, marks, inner, List.flatMap_cons, source_startTag]
    cases text.isEmpty with
    | true => simp [broken, Tag.slash]
    | false => simp [broken, Tag.slash, Mark.source, Mark.sourceOf, Escape.encode]
  | depth, ⟨tag, attributes, text, child :: children⟩ => by
    have hc := broken_lines (depth + 1) child
    have hs := broken_linesOf (depth + 1) children
    have hall : broken (lines (depth + 1) child ++ linesOf (depth + 1) children) =
        (marks (depth + 1) child ++ marksOf (depth + 1) children).flatMap Mark.source := by
      rw [broken_append, hc, hs, List.flatMap_append]
    rw [lines, broken_append, marks, List.flatMap_cons, source_startTag, broken, List.flatMap_cons]
    change _ ++ broken (lines (depth + 1) child ++ linesOf (depth + 1) children) ++ _ = _
    rw [hall]
    simp [inner, marks, Tag.slash, broken, Mark.source, Mark.sourceOf, lineStart]

theorem broken_linesOf : ∀ (depth : Nat) (es : List Element),
    broken (linesOf depth es) = (marksOf depth es).flatMap Mark.source
  | _, [] => rfl
  | depth, e :: es => by
    rw [linesOf, broken_append, broken_lines depth e, broken_linesOf depth es, ← List.flatMap_append]
    rfl

end

/-- The marks of elements stand after gaps without markup. -/
def Clean (ms : List Mark) : Prop :=
  ∀ m ∈ ms, '<' ∉ m.1 ∧ Mark.Closed m.2

theorem not_mem_lineStart {c : Char} (hn : c ≠ '\n') (hs : c ≠ ' ') (depth : Nat) :
    c ∉ lineStart depth := by
  intro h
  rcases List.mem_cons.mp h with h | h
  · exact hn h
  · rw [indent, String.toList_join, List.mem_flatMap] at h
    obtain ⟨l, hl, h⟩ := h
    rw [List.eq_of_mem_replicate hl] at h
    have hm : c ∈ [' ', ' '] := h
    simp [hs] at hm

theorem closed_startTag {e : Element} (h : e.HasNames) : Mark.Closed (startTag e) := by
  obtain ⟨tag, attributes, text, children⟩ := e
  obtain ⟨c, cs, hc, hs⟩ := exists_cons_of_isName h.tag
  have htag : tag.toList = c :: cs := hc
  refine ⟨Tag.inner_opening h.tag h.attributes _, c, ?_⟩
  rw [htag, List.cons_append]
  exact ⟨_, rfl, hs⟩

theorem closed_endTag {e : Element} (h : e.HasNames) : Mark.Closed (.closing e.tag.toList) :=
  not_mem_of_isName h.tag (by decide)

theorem clean_line {l : Lexeme} (h : Mark.Closed l) (depth : Nat) : Clean [(lineStart depth, l)] :=
  List.forall_mem_singleton.mpr ⟨not_mem_lineStart (by decide) (by decide) depth, h⟩

mutual

theorem clean_inner : ∀ (depth : Nat) (e : Element), e.Named → Clean (inner depth e)
  | depth, ⟨tag, attributes, text, children⟩, h => by
    obtain ⟨hn, hall⟩ := named_iff.mp h
    have hchildren := clean_marksOf (depth + 1) children hall
    cases children with
    | nil =>
      rw [inner]
      split
      · exact List.forall_mem_nil _
      · exact List.forall_mem_singleton.mpr
          ⟨Escape.not_mem_encodeList (by decide) _, closed_endTag hn⟩
    | cons child children =>
      rw [inner_cons]
      exact List.forall_mem_append.mpr ⟨hchildren, clean_line (closed_endTag hn) depth⟩

theorem clean_marksOf : ∀ (depth : Nat) (es : List Element), (∀ e ∈ es, e.Named) →
    Clean (marksOf depth es)
  | _, [], _ => List.forall_mem_nil _
  | depth, e :: es, h => by
    obtain ⟨he, hes⟩ := List.forall_mem_cons.mp h
    have hstart := clean_line (closed_startTag (named_iff.mp he).1) depth
    have hall := List.forall_mem_append.mpr ⟨clean_inner depth e he, clean_marksOf depth es hes⟩
    exact List.forall_mem_append.mpr ⟨hstart, hall⟩

end

/-- The inside of the declaration that documents begin with. -/
def declarationBody : List Char :=
  "xml version=\"1.0\" encoding=\"UTF-8\"".toList

/-- A document is its declaration and the marks of its root, with a line feed at the end. -/
theorem toList_document (root : Element) :
    root.document.toList =
      ((([], .instruction declarationBody) :: marks 0 root).flatMap Mark.source) ++ ['\n'] := by
  have hd : declaration.toList = Mark.source ([], .instruction declarationBody) := by decide
  have hi : ∀ (l : String) (ls : List String),
      ("\n".intercalate (l :: ls)).toList = l.toList ++ broken ls := by
    intro l ls
    induction ls generalizing l with
    | nil => simp [broken]
    | cons next ls ih =>
      rw [String.intercalate_cons_cons, String.toList_append, String.toList_append, ih]
      simp [broken]
  rw [document, String.toList_append, hi, broken_lines, hd, List.flatMap_cons]
  rfl

end Element

end LoadPlan.Markup
