import LoadPlan.Markup.Doctype
import LoadPlan.Proofs.Markup.Tags

/-! What is cut out of a text is text of it, so that what is read of a legible document is legible. -/
namespace LoadPlan.Markup

/-! Steps that can fail. -/

theorem bind_eq_ok {α β : Type} {x : Except Malformed α} {f : α → Except Malformed β} {b : β} :
    (x >>= f) = .ok b ↔ ∃ a, x = .ok a ∧ f a = .ok b := by
  cases x <;> simp [bind, Except.bind]

theorem map_eq_ok {α β : Type} {x : Except Malformed α} {f : α → β} {b : β} :
    x.map f = .ok b ↔ ∃ a, x = .ok a ∧ f a = b := by
  cases x <;> simp [Except.map]

theorem guard_eq_ok {α : Type} {c : Bool} {a b : α} {e : Malformed}
    (h : (if c then pure a else throw e : Except Malformed α) = .ok b) : a = b := by
  split at h <;> cases h
  rfl

theorem exists_of_mapM {α β : Type} {f : α → Except Malformed β} {xs : List α} {ys : List β}
    (h : xs.mapM f = .ok ys) : ∀ y ∈ ys, ∃ x ∈ xs, f x = .ok y := by
  induction xs generalizing ys with
  | nil =>
    cases h
    simp
  | cons x xs ih =>
    rw [List.mapM_cons, bind_eq_ok] at h
    obtain ⟨y, hy, h⟩ := h
    obtain ⟨rest, hrest, h⟩ := bind_eq_ok.mp h
    cases h
    rw [List.forall_mem_cons]
    refine ⟨⟨x, List.mem_cons_self, hy⟩, fun z hz => ?_⟩
    obtain ⟨w, hw, hf⟩ := ih hrest z hz
    exact ⟨w, List.mem_cons_of_mem _ hw, hf⟩

theorem foldlM_preserves {α β : Type} {f : β → α → Except Malformed β} {P : β → Prop} {xs : List α}
    {b b' : β} (hb : P b) (hf : ∀ b x b', x ∈ xs → P b → f b x = .ok b' → P b')
    (h : xs.foldlM f b = .ok b') : P b' := by
  induction xs generalizing b with
  | nil =>
    cases h
    exact hb
  | cons x xs ih =>
    rw [List.foldlM_cons] at h
    obtain ⟨b₁, hb₁, h⟩ := bind_eq_ok.mp h
    exact ih (hf b x b₁ List.mem_cons_self hb hb₁)
      (fun b x b' hx => hf b x b' (List.mem_cons_of_mem _ hx)) h

theorem mem_of_lookup {α β : Type} [BEq α] [LawfulBEq α] {l : List (α × β)} {a : α} {b : β}
    (h : l.lookup a = some b) : (a, b) ∈ l := by
  obtain ⟨l₁, l₂, rfl, -⟩ := List.lookup_eq_some_iff.mp h
  simp

theorem legible_flatten {xss : List (List Char)} : Legible xss.flatten ↔ ∀ xs ∈ xss, Legible xs := by
  simp only [Legible, List.mem_flatten]
  refine ⟨fun h xs hxs c hc => h c ⟨xs, hxs, hc⟩, ?_⟩
  rintro h c ⟨xs, hxs, hc⟩
  exact h xs hxs c hc

/-! Cutting. -/

variable {cs before after : List Char}

theorem subset_behind {a b rest : List Char} (pre : List Char) (h : b ⊆ rest ∧ a ⊆ rest) :
    b ⊆ pre ++ rest ∧ a ⊆ pre ++ rest :=
  ⟨List.Subset.trans h.1 (List.subset_append_right _ _), List.Subset.trans h.2 (List.subset_append_right _ _)⟩

theorem subset_of_map {o : Option (List Char × List Char)} (pre : List Char) {rest : List Char}
    (h : (o.map fun p => (pre ++ p.1, p.2)) = some (before, after))
    (ih : ∀ b a, o = some (b, a) → b ⊆ rest ∧ a ⊆ rest) :
    before ⊆ pre ++ rest ∧ after ⊆ pre ++ rest := by
  obtain ⟨⟨b, a⟩, ho, he⟩ := Option.map_eq_some_iff.mp h
  obtain ⟨rfl, rfl⟩ := Prod.mk.inj he
  have hrest := subset_behind pre (ih b a ho)
  exact ⟨List.append_subset.mpr ⟨List.subset_append_left _ _, hrest.1⟩, hrest.2⟩

theorem subset_of_cutAfter {word : List Char} (h : cutAfter word cs = some (before, after)) :
    before ⊆ cs ∧ after ⊆ cs := by
  induction cs generalizing before after with
  | nil => cases h
  | cons c rest ih =>
    rw [cutAfter] at h
    split at h
    · cases h
      exact ⟨List.nil_subset _, List.drop_subset _ _⟩
    · exact subset_of_map [c] h fun b a => ih

theorem subset_of_cutTag {quote : Option Char} (h : cutTag quote cs = some (before, after)) :
    before ⊆ cs ∧ after ⊆ cs := by
  induction cs generalizing before after quote with
  | nil => cases h
  | cons c rest ih =>
    cases quote with
    | some q => exact subset_of_map [c] h fun b a => ih
    | none =>
      rw [cutTag] at h
      split at h
      · cases h
        exact ⟨List.nil_subset _, List.subset_cons_self _ _⟩
      · exact subset_of_map [c] h fun b a => ih

theorem subset_of_cutDoctype {nest : Nest} (h : cutDoctype nest cs = some (before, after)) :
    before ⊆ cs ∧ after ⊆ cs := by
  fun_induction cutDoctype nest cs generalizing before after with
  | case1 => cases h
  | case2 =>
    cases h
    exact ⟨List.nil_subset _, List.subset_cons_self _ _⟩
  | case4 rest ih => exact subset_of_map "<!--".toList h fun b a => ih
  | case5 rest ih => exact subset_of_map "<?".toList h fun b a => ih
  | case8 rest ih => exact subset_of_map "-->".toList h fun b a => ih
  | case10 rest ih => exact subset_of_map "?>".toList h fun b a => ih
  | case3 c rest _ ih => exact subset_of_map [c] h fun b a => ih
  | case6 c rest _ _ ih => exact subset_of_map [c] h fun b a => ih
  | case7 _ _ c rest ih => exact subset_of_map [c] h fun b a => ih
  | case9 c rest _ ih => exact subset_of_map [c] h fun b a => ih
  | case11 c rest _ ih => exact subset_of_map [c] h fun b a => ih

namespace Lexeme

theorem subset_of_cut? {l : Lexeme} (h : cut? cs = some (l, after)) : l.body ⊆ cs ∧ after ⊆ cs := by
  rw [cut?.eq_def] at h
  split at h
  all_goals
    obtain ⟨⟨b, a⟩, ho, he⟩ := Option.map_eq_some_iff.mp h
    obtain ⟨rfl, rfl⟩ := Prod.mk.inj he
  case h_1 rest => exact subset_behind "!--".toList (subset_of_cutAfter ho)
  case h_2 rest => exact subset_behind "![CDATA[".toList (subset_of_cutAfter ho)
  case h_3 rest => exact subset_behind "!DOCTYPE".toList (subset_of_cutDoctype ho)
  case h_4 rest => exact subset_behind ['?'] (subset_of_cutAfter ho)
  case h_5 rest => exact subset_behind ['/'] (subset_of_cutAfter ho)
  case h_6 => exact subset_of_cutTag ho

theorem subset_of_split? {ls : List Lexeme} (h : split? cs = some ls) : ∀ l ∈ ls, l.body ⊆ cs := by
  fun_induction split? cs generalizing ls with
  | case1 =>
    cases h
    simp
  | case2 => cases h
  | case3 rest l after hcut _ ih =>
    obtain ⟨more, hmore, rfl⟩ := Option.map_eq_some_iff.mp h
    obtain ⟨hl, ha⟩ := subset_of_cut? hcut
    rw [List.forall_mem_cons]
    refine ⟨List.Subset.trans hl (List.subset_cons_self _ _), fun x hx => ?_⟩
    exact List.Subset.trans (ih hmore x hx) (List.Subset.trans ha (List.subset_cons_self _ _))
  | case4 c rest _ _ ih =>
    obtain ⟨more, hmore, rfl⟩ := Option.map_eq_some_iff.mp h
    rw [List.forall_mem_cons]
    refine ⟨List.cons_subset_cons _ (List.takeWhile_subset _), fun x hx => ?_⟩
    refine List.Subset.trans (ih hmore x hx) ?_
    exact List.Subset.trans (List.dropWhile_sublist _).subset (List.subset_cons_self _ _)

end Lexeme

/-! References. -/

/-- What a piece stands for or names is legible. -/
def Piece.Legible : Piece → Prop
  | .plain c => isAllowed c.toNat = true
  | .coded c => isAllowed c.toNat = true
  | .entity name => Markup.Legible name.toList

namespace Reference

theorem isAllowed_of_coded? {c : Char} (h : coded? cs = some c) : isAllowed c.toNat = true := by
  obtain ⟨n, -, hn⟩ := Option.bind_eq_some_iff.mp h
  split at hn
  · next ha =>
    cases hn
    have hv : n.isValidChar := by
      simp only [isAllowed, Bool.or_eq_true, Bool.and_eq_true, decide_eq_true_eq, beq_iff_eq] at ha
      unfold Nat.isValidChar
      omega
    rwa [Text.toNat_ofNat hv]
  · cases hn

theorem legible_of_ofBody {p : Piece} (h : ofBody cs = .ok p) : p.Legible := by
  unfold ofBody at h
  split at h
  · split at h
    · next hc =>
      cases h
      exact isAllowed_of_coded? hc
    · cases h
  · split at h
    · next hn =>
      cases h
      rw [Piece.Legible, String.toList_ofList]
      exact legible_of_isName hn
    · cases h

theorem legible_of_pieces {ps : List Piece} (hcs : Legible cs) (h : pieces cs = .ok ps) :
    ∀ p ∈ ps, p.Legible := by
  fun_induction pieces cs generalizing ps with
  | case1 =>
    cases h
    exact List.forall_mem_nil _
  | case2 => cases h
  | case3 rest body after hcut _ p more _ hbody ih =>
    cases h
    have hafter : after ⊆ '&' :: rest :=
      List.Subset.trans (subset_of_cutAfter hcut).2 (List.subset_cons_self _ _)
    exact List.forall_mem_cons.mpr ⟨legible_of_ofBody hbody, ih (hcs.mono hafter) ‹_›⟩
  | case4 => cases h
  | case5 => cases h
  | case6 c rest _ ih =>
    obtain ⟨more, hmore, rfl⟩ := map_eq_ok.mp h
    obtain ⟨hc, hrest⟩ := List.forall_mem_cons.mp hcs
    exact List.forall_mem_cons.mpr ⟨hc, ih hrest hmore⟩

end Reference

/-! Entities. -/

/-- What entities stand for and what rules give to attributes is legible. -/
structure Entities.Legible (es : Entities) : Prop where
  texts : ∀ t ∈ es.texts, Markup.Legible t.2
  defaults : ∀ r ∈ es.rules, ∀ v ∈ r.default, Markup.Legible v

namespace Entities

variable {es : Entities}

theorem legible_none : Entities.none.Legible :=
  ⟨List.forall_mem_nil _, List.forall_mem_nil _⟩

theorem legible_of_predefined? {name : String} {c : Char} (h : Reference.predefined? name = some c) :
    isAllowed c.toNat = true := by
  unfold Reference.predefined? at h
  split at h
  all_goals
    cases h
    try rfl

theorem legible_of_meaning {name : String} {text : List Char} (hes : es.Legible)
    (h : es.meaning name = .replacement text) : Markup.Legible text := by
  unfold meaning at h
  split at h
  · cases h
  · split at h
    · next ht =>
      cases h
      exact hes.texts _ (mem_of_lookup ht)
    · split at h <;> cases h

theorem legible_of_character {name : String} {c : Char} (h : es.meaning name = .character c) :
    isAllowed c.toNat = true := by
  unfold meaning at h
  split at h
  · next hp =>
    cases h
    exact legible_of_predefined? hp
  · split at h
    · cases h
    · split at h <;> cases h

theorem legible_of_valuePiece {replace : List Char → Except Malformed (List Char)} {p : Piece}
    {v : List Char} (hes : es.Legible) (hp : p.Legible)
    (hr : ∀ t v, Markup.Legible t → replace t = .ok v → Markup.Legible v)
    (h : es.valuePiece replace p = .ok v) : Markup.Legible v := by
  cases p with
  | plain c =>
    rw [valuePiece] at h
    split at h
    · cases h
    · cases h
      split
      · decide
      · exact List.forall_mem_singleton.mpr hp
  | coded c =>
    cases h
    exact List.forall_mem_singleton.mpr hp
  | entity name =>
    rw [valuePiece] at h
    split at h
    · next hc =>
      cases h
      exact List.forall_mem_singleton.mpr (legible_of_character hc)
    · next ht => exact hr _ v (legible_of_meaning hes ht) h
    · cases h
    · split at h <;> cases h
      decide

theorem legible_of_parts {replace : List Char → Except Malformed (List Char)} {v : List Char}
    (hes : es.Legible) (hcs : Markup.Legible cs)
    (hr : ∀ t v, Markup.Legible t → replace t = .ok v → Markup.Legible v)
    (h : (do
      let ps ← Reference.pieces cs
      let parts ← ps.mapM (es.valuePiece replace)
      return parts.flatten) = .ok v) : Markup.Legible v := by
  obtain ⟨ps, hps, h⟩ := bind_eq_ok.mp h
  obtain ⟨parts, hparts, h⟩ := bind_eq_ok.mp h
  cases h
  refine legible_flatten.mpr fun part hpart => ?_
  obtain ⟨p, hp, hv⟩ := exists_of_mapM hparts part hpart
  exact legible_of_valuePiece hes (Reference.legible_of_pieces hcs hps p hp) hr hv

theorem legible_of_value {depth : Nat} {v : List Char} (hes : es.Legible) (hcs : Markup.Legible cs)
    (h : es.value depth cs = .ok v) : Markup.Legible v := by
  induction depth generalizing cs v with
  | zero =>
    rw [value] at h
    refine legible_of_parts hes hcs (fun t v _ ht => ?_) h
    cases ht
  | succ depth ih =>
    rw [value] at h
    exact legible_of_parts hes hcs (fun t v ht hv => ih ht hv) h

theorem subset_of_parts (separator : Char) (cs : List Char) : ∀ part ∈ Text.parts separator cs, part ⊆ cs := by
  fun_induction Text.parts separator cs with
  | case1 => simp
  | case2 rest ih =>
    exact List.forall_mem_cons.mpr ⟨List.nil_subset _, fun p hp => List.subset_cons_of_subset _ (ih p hp)⟩
  | case3 c rest _ hparts ih => simp
  | case4 c rest _ part more hparts ih =>
    rw [hparts] at ih
    obtain ⟨hpart, hmore⟩ := List.forall_mem_cons.mp ih
    exact List.forall_mem_cons.mpr
      ⟨List.cons_subset_cons c hpart, fun p hp => List.subset_cons_of_subset _ (hmore p hp)⟩

theorem mem_of_mem_intersperse {α : Type} {a x : α} {xs : List α} (h : x ∈ xs.intersperse a) :
    x = a ∨ x ∈ xs := by
  fun_induction List.intersperse a xs with
  | case1 => cases h
  | case2 => exact .inr h
  | case3 y z xs ih =>
    rcases List.mem_cons.mp h with rfl | h
    · exact .inr List.mem_cons_self
    · rcases List.mem_cons.mp h with rfl | h
      · exact .inl rfl
      · exact (ih h).imp_right (List.mem_cons_of_mem _)

theorem legible_words (hcs : Markup.Legible cs) : Markup.Legible (valueUnder.words cs) := by
  unfold valueUnder.words List.intercalate
  refine legible_flatten.mpr fun part hpart => ?_
  rcases mem_of_mem_intersperse hpart with rfl | hpart
  · decide
  · exact hcs.mono (subset_of_parts ' ' cs part (List.mem_filter.mp hpart).1)

theorem legible_of_valueUnder {rule : Option AttributeRule} {v : List Char} (hes : es.Legible)
    (hcs : Markup.Legible cs) (h : es.valueUnder rule cs = .ok v) : Markup.Legible v := by
  obtain ⟨value, hvalue, h⟩ := bind_eq_ok.mp h
  have hvalue := legible_of_value hes (legible_unifyLineEnds hcs) hvalue
  cases h
  split
  · exact legible_words hvalue
  · exact hvalue

theorem legible_of_defaults {element : QualifiedName} {present : List QualifiedName} (hes : es.Legible) :
    ∀ a ∈ es.defaults element present, Markup.Legible a.2 := by
  intro a ha
  obtain ⟨r, hr, hdefault⟩ := List.mem_filterMap.mp ha
  split at hdefault
  · obtain ⟨v, hv, rfl⟩ := Option.map_eq_some_iff.mp hdefault
    exact hes.defaults r hr v hv
  · cases hdefault

end Entities

/-! Tags. -/

namespace Tag

theorem subset_of_name? {q : QualifiedName} (h : name? cs = some (q, after)) : after ⊆ cs := by
  obtain ⟨a, -, ha⟩ := Option.map_eq_some_iff.mp h
  obtain ⟨-, rfl⟩ := Prod.mk.inj ha
  exact (List.dropWhile_sublist _).subset

theorem subset_of_quoted? {value : List Char} (h : quoted? cs = some (value, after)) :
    value ⊆ cs ∧ after ⊆ cs := by
  cases cs with
  | nil => cases h
  | cons q rest =>
    simp only [quoted?] at h
    split at h
    · split at h
      · cases h
      · next hd =>
        cases h
        have hs := (List.dropWhile_sublist (l := rest) (· != q)).subset
        rw [hd] at hs
        exact subset_behind [q] ⟨List.takeWhile_subset _, List.Subset.trans (List.subset_cons_self _ _) hs⟩
    · cases h

theorem subset_of_attribute? {a : QualifiedName × List Char} (h : attribute? cs = some (a, after)) :
    a.2 ⊆ cs ∧ after ⊆ cs := by
  unfold attribute? at h
  split at h
  · cases h
  · next name rest hn =>
    split at h
    · next tail ht =>
      split at h
      · cases h
      · next value after' hq =>
        cases h
        have hrest := subset_of_name? hn
        have htail : tail ⊆ cs := by
          have hs := (List.dropWhile_sublist (l := rest) isSpace).subset
          rw [ht] at hs
          exact List.Subset.trans (List.Subset.trans (List.subset_cons_self _ _) hs) hrest
        have hq' := subset_of_quoted? hq
        have hspace := List.Subset.trans (List.dropWhile_sublist (l := tail) isSpace).subset htail
        exact ⟨List.Subset.trans hq'.1 hspace, List.Subset.trans hq'.2 hspace⟩
    · cases h

theorem subset_of_attributes? {as : List (QualifiedName × List Char)} {empty : Bool}
    (h : attributes? cs = some (as, empty)) : ∀ a ∈ as, a.2 ⊆ cs := by
  fun_induction attributes? cs generalizing as empty with
  | case1 | case2 =>
    cases h
    exact List.forall_mem_nil _
  | case3 | case4 => cases h
  | case5 cs c rest _ hd _ a after ha _ ih =>
    obtain ⟨⟨more, e⟩, hmore, he⟩ := Option.map_eq_some_iff.mp h
    obtain ⟨rfl, rfl⟩ := Prod.mk.inj he
    have hrest := (List.dropWhile_sublist (l := cs) isSpace).subset
    rw [hd] at hrest
    obtain ⟨hvalue, hafter⟩ := subset_of_attribute? ha
    refine List.forall_mem_cons.mpr ⟨List.Subset.trans hvalue hrest, fun x hx => ?_⟩
    exact List.Subset.trans (ih hmore x hx) (List.Subset.trans hafter hrest)

theorem subset_of_ofBody {tag : Tag} (h : ofBody cs = .ok tag) : ∀ a ∈ tag.attributes, a.2 ⊆ cs := by
  unfold ofBody at h
  split at h
  · cases h
  · next name rest hn =>
    split at h
    · cases h
    · next as empty ha =>
      cases h
      exact fun a hm => List.Subset.trans (subset_of_attributes? ha a hm) (subset_of_name? hn)

end Tag

/-! Document type declarations. -/

namespace Doctype

variable {es es' : Entities}

theorem legible_of_replacement {t : List Char} (hcs : Legible cs) (h : replacement cs = .ok t) :
    Legible t := by
  obtain ⟨ps, hps, h⟩ := bind_eq_ok.mp h
  obtain ⟨parts, hparts, h⟩ := bind_eq_ok.mp h
  cases h
  refine legible_flatten.mpr fun part hpart => ?_
  obtain ⟨p, hp, hv⟩ := exists_of_mapM hparts part hpart
  have hl := Reference.legible_of_pieces hcs hps p hp
  cases p with
  | plain c =>
    dsimp only at hv
    split at hv <;> cases hv
    exact List.forall_mem_singleton.mpr hl
  | coded c =>
    cases hv
    exact List.forall_mem_singleton.mpr hl
  | entity name =>
    cases hv
    have hamp : Legible ['&'] := by decide
    have hend : Legible [';'] := by decide
    exact legible_append.mpr ⟨legible_append.mpr ⟨hamp, hl⟩, hend⟩

theorem subset_of_blank? (h : blank? cs = some after) : after ⊆ cs := by
  unfold blank? at h
  split at h
  · split at h <;> cases h
    exact List.Subset.trans (List.dropWhile_sublist _).subset (List.subset_cons_self _ _)
  · cases h

theorem subset_of_word? {w : String} (h : word? w cs = some after) : after ⊆ cs := by
  unfold word? at h
  split at h <;> cases h
  exact List.drop_subset _ _

theorem subset_of_literal? {value : List Char} (h : literal? cs = some (value, after)) : after ⊆ cs := by
  obtain ⟨rest, hr, hq⟩ := Option.bind_eq_some_iff.mp h
  exact List.Subset.trans (Tag.subset_of_quoted? hq).2 (subset_of_blank? hr)

theorem subset_of_external? (h : external? cs = some after) : after ⊆ cs := by
  unfold external? at h
  split at h
  · next hw =>
    obtain ⟨⟨v, a⟩, hl, rfl⟩ := Option.map_eq_some_iff.mp h
    exact List.Subset.trans (subset_of_literal? hl) (subset_of_word? hw)
  · split at h
    · next hw =>
      obtain ⟨⟨v, a⟩, hl, h⟩ := Option.bind_eq_some_iff.mp h
      obtain ⟨⟨v', a'⟩, hl', rfl⟩ := Option.map_eq_some_iff.mp h
      have hboth := List.Subset.trans (subset_of_literal? hl') (subset_of_literal? hl)
      exact List.Subset.trans hboth (subset_of_word? hw)
    · cases h

theorem subset_of_entityName? {name : String} (h : entityName? cs = some (name, after)) : after ⊆ cs := by
  simp only [entityName?] at h
  split at h <;> cases h
  exact (List.dropWhile_sublist _).subset

theorem orMalformed_eq_ok {α : Type} {x : Option α} {a : α} : orMalformed x = .ok a ↔ x = some a := by
  cases x <;> simp [orMalformed]

theorem subset_of_entityValue? {value : Option (List Char)} (h : entityValue? cs = some (value, after)) :
    ∀ v ∈ value, v ⊆ cs := by
  unfold entityValue? at h
  split at h
  · next hquoted =>
    cases h
    rintro _ ⟨⟩
    exact (Tag.subset_of_quoted? hquoted).1
  · obtain ⟨_, -, heq⟩ := Option.map_eq_some_iff.mp h
    cases heq
    exact nofun

theorem legible_declare {name : String} {t : Option (List Char)} (hes : es.Legible)
    (ht : ∀ x ∈ t, Legible x) : (declare es name t).Legible := by
  unfold declare
  split
  · exact hes
  · split
    · next x =>
      exact ⟨List.forall_mem_append.mpr ⟨hes.texts, List.forall_mem_singleton.mpr (ht x rfl)⟩, hes.defaults⟩
    · exact ⟨hes.texts, hes.defaults⟩

/-- What is declared is legible as it is written. -/
def Declared.Legible : Declared → Prop
  | .entity _ value => ∀ v ∈ value, Markup.Legible v
  | .attributes rules => ∀ r ∈ rules, ∀ v ∈ r.default, Markup.Legible v
  | .parameter _ | .other => True

theorem legible_of_entity? {x : Declared} (hcs : Legible cs) (h : entity? cs = some x) : x.Legible := by
  obtain ⟨rest, hrest, h⟩ := Option.bind_eq_some_iff.mp h
  split at h
  · obtain ⟨⟨_, _⟩, -, h⟩ := Option.bind_eq_some_iff.mp h
    obtain ⟨⟨_, _⟩, -, h⟩ := Option.bind_eq_some_iff.mp h
    dsimp only at h
    split at h <;> cases h
    trivial
  · obtain ⟨⟨name, r₁⟩, hname, h⟩ := Option.bind_eq_some_iff.mp h
    obtain ⟨⟨value, r₂⟩, hvalue, h⟩ := Option.bind_eq_some_iff.mp h
    obtain ⟨r, hblank, hvalue⟩ := Option.bind_eq_some_iff.mp hvalue
    have hr := ((hcs.mono (subset_of_blank? hrest)).mono (subset_of_entityName? hname)).mono
      (subset_of_blank? hblank)
    dsimp only at h
    split at h <;> cases h
    exact fun v hv => hr.mono (subset_of_entityValue? hvalue v hv)

theorem subset_of_keyword (cs : List Char) : (keyword cs).2 ⊆ cs :=
  (List.dropWhile_sublist _).subset

theorem subset_of_choices? {isWord : List Char → Bool} (h : choices? isWord cs = some after) : after ⊆ cs := by
  unfold choices? at h
  split at h
  · next hcut =>
    split at h <;> cases h
    exact (subset_of_cutAfter hcut).2
  · cases h

theorem subset_of_attributeType? {worded : Bool} (h : attributeType? cs = some (worded, after)) :
    after ⊆ cs := by
  unfold attributeType? at h
  split at h
  · obtain ⟨_, hchoices, heq⟩ := Option.map_eq_some_iff.mp h
    cases heq
    exact List.subset_cons_of_subset _ (subset_of_choices? hchoices)
  · have hword := subset_of_keyword cs
    dsimp only at h
    split at h
    · cases h
      exact hword
    · split at h
      · split at h
        · next hblank =>
          obtain ⟨_, hchoices, heq⟩ := Option.map_eq_some_iff.mp h
          cases heq
          have hinside := List.subset_cons_of_subset '(' (subset_of_choices? hchoices)
          exact List.Subset.trans hinside (List.Subset.trans (subset_of_blank? hblank) hword)
        · cases h
      · split at h <;> cases h
        exact hword

theorem subset_of_attributeDefault? {default : Option (List Char)}
    (h : attributeDefault? cs = some (default, after)) : (∀ v ∈ default, v ⊆ cs) ∧ after ⊆ cs := by
  unfold attributeDefault? at h
  split at h
  · next rest =>
    have hword := List.subset_cons_of_subset '#' (subset_of_keyword rest)
    dsimp only at h
    split at h
    · cases h
      exact ⟨nofun, hword⟩
    · split at h
      · obtain ⟨⟨value, tail⟩, hliteral, heq⟩ := Option.map_eq_some_iff.mp h
        cases heq
        obtain ⟨_, hblank, hquoted⟩ := Option.bind_eq_some_iff.mp hliteral
        have hrest := List.Subset.trans (subset_of_blank? hblank) hword
        obtain ⟨hvalue, hafter⟩ := Tag.subset_of_quoted? hquoted
        refine ⟨?_, List.Subset.trans hafter hrest⟩
        rintro _ ⟨⟩
        exact List.Subset.trans hvalue hrest
      · cases h
  · obtain ⟨_, hquoted, heq⟩ := Option.map_eq_some_iff.mp h
    cases heq
    obtain ⟨hvalue, hafter⟩ := Tag.subset_of_quoted? hquoted
    refine ⟨?_, hafter⟩
    rintro _ ⟨⟩
    exact hvalue

theorem subset_of_attributeRule? {element : QualifiedName} {r : AttributeRule}
    (h : attributeRule? element cs = some (r, after)) : (∀ v ∈ r.default, v ⊆ cs) ∧ after ⊆ cs := by
  simp only [attributeRule?, Option.bind_eq_bind, Option.bind_eq_some_iff, Option.pure_def, Option.some.injEq,
    Prod.exists, Prod.mk.injEq] at h
  obtain ⟨name, rest, ⟨r₁, hr₁, hname⟩, worded, rest', ⟨r₂, hr₂, htype⟩, default, rest'', ⟨r₃, hr₃, hdefault⟩,
    rfl, rfl⟩ := h
  have hfirst := List.Subset.trans (Tag.subset_of_name? hname) (subset_of_blank? hr₁)
  have hsecond := List.Subset.trans (subset_of_attributeType? htype)
    (List.Subset.trans (subset_of_blank? hr₂) hfirst)
  have hthird := List.Subset.trans (subset_of_blank? hr₃) hsecond
  obtain ⟨hvalue, hafter⟩ := subset_of_attributeDefault? hdefault
  exact ⟨fun v hv => List.Subset.trans (hvalue v hv) hthird, List.Subset.trans hafter hthird⟩

theorem subset_of_attributeRules? {element : QualifiedName} {rules : List AttributeRule}
    (h : attributeRules? element cs = some rules) : ∀ r ∈ rules, ∀ v ∈ r.default, v ⊆ cs := by
  fun_induction attributeRules? element cs generalizing rules with
  | case1 =>
    cases h
    exact List.forall_mem_nil _
  | case2 cs _ r after hrule ih =>
    obtain ⟨more, hmore, rfl⟩ := Option.map_eq_some_iff.mp h
    obtain ⟨hvalue, hafter⟩ := subset_of_attributeRule? hrule
    exact List.forall_mem_cons.mpr ⟨hvalue, fun x hx v hv => List.Subset.trans (ih hmore x hx v hv) hafter⟩
  | case3 => cases h

theorem legible_of_addRule {r : AttributeRule} (hes : es.Legible) (hr : ∀ v ∈ r.default, Legible v)
    (h : addRule es r = .ok es') : es'.Legible := by
  obtain ⟨default, hdefault, h⟩ := bind_eq_ok.mp h
  have hlegible : ∀ v ∈ default, Legible v := by
    rintro v ⟨⟩
    cases hwritten : r.default with
    | none =>
      rw [hwritten] at hdefault
      cases hdefault
    | some written =>
      rw [hwritten] at hdefault
      obtain ⟨v', hvalue, heq⟩ := bind_eq_ok.mp hdefault
      cases heq
      exact Entities.legible_of_valueUnder hes (hr written hwritten) hvalue
  split at h <;> cases h
  · exact hes
  · exact ⟨hes.texts, List.forall_mem_append.mpr ⟨hes.defaults, List.forall_mem_singleton.mpr hlegible⟩⟩

theorem legible_of_attributes? {x : Declared} (hcs : Legible cs) (h : attributes? cs = some x) : x.Legible := by
  obtain ⟨⟨element, rest⟩, helement, h⟩ := Option.bind_eq_some_iff.mp h
  obtain ⟨rules, hrules, h⟩ := Option.bind_eq_some_iff.mp h
  obtain ⟨r, hblank, hname⟩ := Option.bind_eq_some_iff.mp helement
  have hrest := (hcs.mono (subset_of_blank? hblank)).mono (Tag.subset_of_name? hname)
  cases h
  exact fun r hr v hv => hrest.mono (subset_of_attributeRules? hrules r hr v hv)

theorem legible_of_declaration? {x : Declared} (hcs : Legible cs) (h : declaration? cs = some x) :
    x.Legible := by
  have hrest := hcs.mono (subset_of_keyword cs)
  unfold declaration? at h
  dsimp only at h
  split at h
  · exact legible_of_entity? hrest h
  · split at h
    · exact legible_of_attributes? hrest h
    · split at h <;> cases h
      trivial

theorem legible_of_note {x : Declared} (hes : es.Legible) (hx : x.Legible) (h : note es x = .ok es') :
    es'.Legible := by
  cases x with
  | entity name value =>
    obtain ⟨text, htext, h⟩ := bind_eq_ok.mp h
    cases h
    refine legible_declare hes fun t ht => ?_
    cases value with
    | none =>
      cases htext
      cases ht
    | some v =>
      obtain ⟨t', hreplacement, htext⟩ := bind_eq_ok.mp htext
      cases htext
      cases ht
      exact legible_of_replacement (hx v rfl) hreplacement
  | parameter value =>
    obtain ⟨_, -, rfl⟩ := map_eq_ok.mp h
    exact hes
  | attributes rules =>
    exact foldlM_preserves hes (fun es r es' hr hes hadd => legible_of_addRule hes (hx r hr) hadd) h
  | other =>
    cases h
    exact hes

theorem subset_of_next {i : Item} (h : next cs = .ok (i, after)) :
    (∀ l, i = .markup l → l.body ⊆ cs) ∧ after ⊆ cs := by
  rw [next.eq_def] at h
  split at h
  · cases h
  · cases h
    exact ⟨by rintro _ ⟨⟩, List.subset_cons_self _ _⟩
  · split at h <;> cases h
    next hc =>
      refine ⟨by rintro _ ⟨⟩, ?_⟩
      exact List.Subset.trans (subset_of_cutAfter hc).2 (List.subset_cons_self _ _)
  · split at h <;> cases h
    next hc =>
      obtain ⟨hl, ha⟩ := Lexeme.subset_of_cut? hc
      refine ⟨?_, List.Subset.trans ha (List.subset_cons_self _ _)⟩
      rintro l ⟨⟩
      exact List.Subset.trans hl (List.subset_cons_self _ _)
  · split at h <;> cases h
    exact ⟨by rintro _ ⟨⟩, List.subset_cons_self _ _⟩

theorem legible_of_takeIn {noting : Bool} {i : Item} (hes : es.Legible)
    (hi : ∀ l, i = .markup l → Legible l.body) (h : takeIn noting es i = .ok es') : es'.Legible := by
  unfold takeIn at h
  split at h
  case h_6 body =>
    obtain ⟨x, hx, h⟩ := bind_eq_ok.mp h
    split at h
    · have hbody : Legible ('!' :: body) := hi _ rfl
      have hdeclared := legible_of_declaration? (hbody.mono (List.subset_cons_self _ _)) (orMalformed_eq_ok.mp hx)
      exact legible_of_note hes hdeclared h
    · cases h
      exact hes
  case h_7 => cases h
  all_goals
    first
      | (cases h; exact hes)
      | (split at h <;> cases h; exact ⟨hes.texts, hes.defaults⟩)

theorem legible_of_subset {stops noting : Bool} (hes : es.Legible) (hcs : Legible cs)
    (h : subset stops noting es cs = .ok (es', after)) : es'.Legible ∧ after ⊆ cs := by
  fun_induction subset stops noting es cs with
  | case1 => cases h
  | case2 noting es cs rest hnext =>
    cases h
    exact ⟨hes, (subset_of_next hnext).2⟩
  | case3 noting es cs i rest _ hnext _ es₁ htake ih =>
    obtain ⟨hi, hrest⟩ := subset_of_next hnext
    have hes₁ := legible_of_takeIn hes (fun l hl => hcs.mono (hi l hl)) htake
    obtain ⟨hes', hafter⟩ := ih hes₁ (hcs.mono hrest) h
    exact ⟨hes', List.Subset.trans hafter hrest⟩
  | case4 => cases h

theorem legible_of_ofBody {stops standalone : Bool} (hcs : Legible cs)
    (h : ofBody stops standalone cs = .ok es) : es.Legible := by
  obtain ⟨⟨q, r₁⟩, hname, h⟩ := bind_eq_ok.mp h
  obtain ⟨r, hblank, hname⟩ := Option.bind_eq_some_iff.mp (orMalformed_eq_ok.mp hname)
  have hr₁ := (hcs.mono (subset_of_blank? hblank)).mono (Tag.subset_of_name? hname)
  have hnone (open? : Bool) : { Entities.none with incomplete := open? }.Legible :=
    ⟨Entities.legible_none.texts, Entities.legible_none.defaults⟩
  dsimp only at h
  split at h
  · next inner hinner =>
    have hl : Legible ('[' :: inner) := by
      rw [← hinner]
      refine Legible.mono ?_ (List.dropWhile_sublist isSpace).subset
      -- What is outside may be named first.
      split
      · next after he =>
        obtain ⟨r, hr, he⟩ := Option.bind_eq_some_iff.mp he
        exact (hr₁.mono (subset_of_blank? hr)).mono (subset_of_external? he)
      · exact hr₁
    obtain ⟨⟨es₁, r₄⟩, hsub, h⟩ := bind_eq_ok.mp h
    obtain rfl := guard_eq_ok h
    have hes := (legible_of_subset (hnone _) (hl.mono (List.subset_cons_self _ _)) hsub).1
    exact ⟨hes.texts, hes.defaults⟩
  · obtain ⟨_, ⟨⟩, h⟩ := bind_eq_ok.mp h
    obtain rfl := guard_eq_ok h
    exact hnone _

end Doctype

end LoadPlan.Markup
