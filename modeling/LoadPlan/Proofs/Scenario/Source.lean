import LoadPlan.Description.Reader
import LoadPlan.Proofs.Scenario.Flaw

/-! All elements of a document have its source, and under that source it is found again. -/
namespace LoadPlan.Storage.Path

/-- A name in a path as it is kept. -/
def IsName (name : String) : Prop :=
  name ≠ "" ∧ name ≠ "." ∧ '/' ∉ name.toList

theorem names_eq (cs : List Char) :
    names (String.ofList cs) = ((cs.splitOn '/').map String.ofList).filter
      fun name => name != "" && name != "." := by
  rw [names, String.toList_ofList]

theorem not_mem_of_mem_splitOn {c : Char} {cs piece : List Char} (h : piece ∈ cs.splitOn c) :
    c ∉ piece := by
  induction cs generalizing piece with
  | nil =>
    rw [List.splitOn_nil] at h
    rw [List.mem_singleton.mp h]
    simp
  | cons d cs ih =>
    rw [List.splitOn_cons_eq_if_modifyHead] at h
    split at h
    · rcases List.mem_cons.mp h with rfl | h
      · simp
      · exact ih h
    · next hd =>
      cases hs : cs.splitOn c with
      | nil => exact absurd hs (List.splitOn_ne_nil c cs)
      | cons first rest =>
        rw [hs] at h ih
        rcases List.mem_cons.mp h with rfl | h
        · have hf := ih (List.mem_cons_self)
          have hcd : c ≠ d := fun heq => hd (beq_iff_eq.mpr heq.symm)
          simp [hcd, hf]
        · exact ih (List.mem_cons_of_mem _ h)

theorem isName_of_mem_names {s name : String} (h : name ∈ names s) : IsName name := by
  obtain ⟨hm, hn⟩ := List.mem_filter.mp h
  obtain ⟨cs, hcs, rfl⟩ := List.mem_map.mp hm
  simp only [bne_iff_ne, Bool.and_eq_true, ne_eq] at hn
  refine ⟨hn.1, hn.2, ?_⟩
  rw [String.toList_ofList]
  exact not_mem_of_mem_splitOn hcs

/-- A slash at the start adds no names. -/
theorem names_slash (cs : List Char) : names (String.ofList ('/' :: cs)) = names (String.ofList cs) := by
  rw [names_eq, names_eq, List.splitOn_cons_eq_if_modifyHead]
  simp

theorem names_intercalate {parts : List String} (h : ∀ name ∈ parts, IsName name) :
    names (String.ofList (['/'].intercalate (parts.map String.toList))) = parts := by
  rw [names_eq]
  cases parts with
  | nil => rfl
  | cons part parts =>
    have hsep : ∀ l ∈ (part :: parts).map String.toList, '/' ∉ l := by
      intro l hl
      obtain ⟨name, hname, rfl⟩ := List.mem_map.mp hl
      exact (h name hname).2.2
    rw [List.splitOn_intercalate _ hsep (by simp), List.map_map]
    have hid : String.ofList ∘ String.toList = id := by
      funext s
      simp
    rw [hid, List.map_id, List.filter_eq_self]
    intro name hname
    obtain ⟨h1, h2, -⟩ := h name hname
    simp [h1, h2]

theorem root_ofString {cs : List Char} (h : ∀ rest, cs ≠ '/' :: rest) :
    (ofString (String.ofList cs)).root = "" ∧
    (ofString (String.ofList ('/' :: cs))).root = "/" ∧
    (ofString (String.ofList ('/' :: '/' :: cs))).root = "//" := by
  unfold ofString
  refine ⟨?_, ?_, ?_⟩
  · simp only [String.toList_ofList]
    split
    · exact absurd rfl (h _)
    · exact absurd rfl (h _)
    · exact absurd rfl (h _)
    · rfl
  · simp only [String.toList_ofList]
    split
    · rfl
    · next hcs => exact absurd (List.cons.inj hcs).2 (h _)
    · rfl
    · next heq => exact absurd rfl (heq cs)
  · simp only [String.toList_ofList]

theorem root_cases (s : String) :
    (ofString s).root = "" ∨ (ofString s).root = "/" ∨ (ofString s).root = "//" := by
  unfold ofString
  simp only
  split
  · exact .inr (.inl rfl)
  · exact .inr (.inr rfl)
  · exact .inr (.inl rfl)
  · exact .inl rfl

/-- The text of a path leads to the same path again. -/
theorem ofString_text (s : String) : ofString (ofString s).text = ofString s := by
  have hnames : ∀ name ∈ (ofString s).parts, IsName name := fun name h => isName_of_mem_names h
  have hroot := root_cases s
  generalize ofString s = p at hnames hroot
  obtain ⟨root, parts⟩ := p
  have hp := names_intercalate hnames
  have hstart : ∀ rest, ['/'].intercalate (parts.map String.toList) ≠ '/' :: rest := by
    intro rest heq
    cases parts with
    | nil => cases heq
    | cons part parts =>
      obtain ⟨hne, -, hslash⟩ := hnames part List.mem_cons_self
      cases hl : part.toList with
      | nil => exact hne (String.toList_eq_nil_iff.mp hl)
      | cons c cs =>
        have hc : c = '/' := by
          cases parts with
          | nil => simpa [hl] using congrArg List.head? heq
          | cons next parts => simpa [hl] using congrArg List.head? heq
        rw [hl, hc] at hslash
        exact hslash List.mem_cons_self
  have htext : ¬(root = "" ∧ parts = []) → text ⟨root, parts⟩ =
      String.ofList (root.toList ++ ['/'].intercalate (parts.map String.toList)) := by
    intro h
    have hc : ¬(root = "" && parts.isEmpty) = true := by simpa using h
    exact if_neg hc
  obtain ⟨h0, h1, h2⟩ := root_ofString hstart
  have heq : ∀ t, ofString t = ⟨(ofString t).root, names t⟩ := fun t => rfl
  -- The empty path is written as a dot, which is no name.
  by_cases he : root = "" ∧ parts = []
  · obtain ⟨rfl, rfl⟩ := he
    decide
  · rw [htext he]
    rcases hroot with rfl | rfl | rfl
    · change ofString (String.ofList (['/'].intercalate _)) = _
      rw [heq, h0, hp]
    · change ofString (String.ofList ('/' :: ['/'].intercalate _)) = _
      rw [heq, h1, names_slash, hp]
    · change ofString (String.ofList ('/' :: '/' :: ['/'].intercalate _)) = _
      rw [heq, h2, names_slash, names_slash, hp]

end LoadPlan.Storage.Path

namespace LoadPlan.Description

/-- An element of a markup document with a given source. -/
def Node.Under (source : String) (n : Node) : Prop :=
  ∃ m, ofMarkup source m = some n

namespace Node

variable {source : String} {n c : Node}

theorem ofMarkup_eq_some {m : Markup.Node} (h : ofMarkup source m = some n) :
    n.source = source ∧ ∃ ms, n.children = ofMarkups source ms := by
  cases m with
  | element name attributes line children =>
    rw [ofMarkup] at h
    cases h
    exact ⟨rfl, children, rfl⟩
  | text cs =>
    rw [ofMarkup] at h
    · cases h
    · simp
  | reference name =>
    rw [ofMarkup] at h
    · cases h
    · simp

theorem Under.source_eq (h : Under source n) : n.source = source := by
  obtain ⟨m, hm⟩ := h
  exact (ofMarkup_eq_some hm).1

theorem under_of_mem_ofMarkups {ms : List Markup.Node} (h : c ∈ ofMarkups source ms) :
    Under source c := by
  induction ms with
  | nil =>
    rw [ofMarkups] at h
    cases h
  | cons m ms ih =>
    rw [ofMarkups, List.mem_append, Option.mem_toList] at h
    rcases h with h | h
    · exact ⟨m, h⟩
    · exact ih h

theorem Under.child (h : Under source n) (hc : c ∈ n.children) : Under source c := by
  obtain ⟨m, hm⟩ := h
  obtain ⟨-, ms, hms⟩ := ofMarkup_eq_some hm
  rw [hms] at hc
  exact under_of_mem_ofMarkups hc

end Node

variable {disk : Storage.Disk} {path : String} {root n : Node}

theorem ofFile_eq_ok_iff : ofFile disk path = .ok root ↔ ∃ bytes,
    disk.read (.ofString path) = .ok bytes ∧ ofBytes (Storage.Path.ofString path).text bytes = .ok root := by
  rw [ofFile_eq]
  cases hread : disk.read (.ofString path) with
  | ok bytes => simp [Storage.Disk.isFile_of_read hread]
  | error failure =>
    rcases disk.isFile (.ofString path) with _ | _ | _
    · simp
    · simp
    · simp

theorem ofFile_under (h : ofFile disk path = .ok root) :
    Node.Under (Storage.Path.ofString path).text root := by
  obtain ⟨bytes, -, h⟩ := ofFile_eq_ok_iff.mp h
  unfold ofBytes at h
  split at h
  · cases h
  · split at h
    · next hroot =>
      cases h
      exact ⟨_, hroot⟩
    · cases h

/-- A document is found again under its source. -/
theorem ofFile_source (h : ofFile disk path = .ok root) : ofFile disk root.source = .ok root := by
  have hs := (ofFile_under h).source_eq
  rw [ofFile_eq_ok_iff] at h ⊢
  rwa [hs, Storage.Path.ofString_text]

end LoadPlan.Description

namespace LoadPlan.Scenario

open LoadPlan.Description (Node)

variable {source : String} {root n c : Node}

theorem Taken.mem_children (h : Taken n c) : c ∈ n.children := by
  cases h with
  | _ => assumption

theorem Topmost.mem_children (h : Topmost root c) : c ∈ root.children := by
  cases h with
  | _ => assumption

theorem Processed.under (hn : Processed root n) (h : root.Under source) : n.Under source := by
  obtain ⟨c, hc, hb⟩ := hn
  induction hb with
  | refl => exact h.child hc.mem_children
  | tail _ ht ih => exact ih.child ht.mem_children

/-- The source of an element leads to the document that it is processed in. -/
theorem Processed.ofFile_source {disk : Storage.Disk} {path : String}
    (hn : Processed root n) (h : Description.ofFile disk path = .ok root) :
    Description.ofFile disk n.source = .ok root := by
  have hu := Description.ofFile_under h
  rw [(hn.under hu).source_eq, ← hu.source_eq]
  exact Description.ofFile_source h

end LoadPlan.Scenario
