import LoadPlan.Markup.Document
import LoadPlan.Proofs.Markup.Scanning

/-! The texts and the values of attributes in a document that is read are legible. -/
namespace LoadPlan.Markup

theorem passed {α β : Type} {c : Bool} {e : Malformed} {k : β → Except Malformed α}
    {m : Except Malformed α} {a : α}
    (h : (if c then throw e >>= k else m) = .ok a) : m = .ok a := by
  split at h
  · cases h
  · exact h

namespace Node

mutual

def Legible : Node → Prop
  | .element _ attributes _ children =>
    (∀ a ∈ attributes, Markup.Legible a.2.toList) ∧ AllLegible children
  | .text cs => Markup.Legible cs
  | .reference name => Markup.Legible name.toList

def AllLegible : List Node → Prop
  | [] => True
  | n :: ns => n.Legible ∧ AllLegible ns

end

theorem allLegible_iff {ns : List Node} : AllLegible ns ↔ ∀ n ∈ ns, n.Legible := by
  induction ns with
  | nil => simp [AllLegible]
  | cons n ns ih => rw [AllLegible, ih, List.forall_mem_cons]

end Node

namespace Builder

/-- What has been read so far is legible. -/
structure Legible (b : Builder) : Prop where
  attributes : ∀ f ∈ b.frames, ∀ a ∈ f.attributes, Markup.Legible a.2.toList
  children : ∀ f ∈ b.frames, ∀ n ∈ f.children, n.Legible
  finished : ∀ n ∈ b.finished, n.Legible

variable {d : Dialect} {es : Entities} {b b' : Builder} {n : Node} {ns : List Node} {body : List Char}
  {inside : Scope → List Char → Except Malformed (List Node)}

theorem legible_start (scope : Scope) : (start scope).Legible :=
  ⟨List.forall_mem_nil _, List.forall_mem_nil _, List.forall_mem_nil _⟩

theorem Legible.advance (h : b.Legible) (body : List Char) : (b.advance body).Legible :=
  ⟨h.attributes, h.children, h.finished⟩

theorem Legible.advanceAll (h : b.Legible) (ls : List Lexeme) :
    (ls.foldl (fun b l => b.advance l.body) b).Legible := by
  induction ls generalizing b with
  | nil => exact h
  | cons l ls ih => exact ih (h.advance l.body)

theorem Legible.add (h : b.Legible) (hn : n.Legible) : (b.add n).Legible := by
  obtain ⟨frames, finished, outer, line⟩ := b
  cases frames with
  | nil => exact ⟨List.forall_mem_nil _, List.forall_mem_nil _, List.forall_mem_cons.mpr ⟨hn, h.finished⟩⟩
  | cons f fs =>
    obtain ⟨hf, hfs⟩ := List.forall_mem_cons.mp h.children
    refine ⟨?_, List.forall_mem_cons.mpr ⟨List.forall_mem_cons.mpr ⟨hn, hf⟩, hfs⟩, h.finished⟩
    exact List.forall_mem_cons.mpr (List.forall_mem_cons.mp h.attributes)

theorem Legible.addAll (h : b.Legible) (hns : ∀ n ∈ ns, n.Legible) : (ns.foldl Builder.add b).Legible := by
  induction ns generalizing b with
  | nil => exact h
  | cons n ns ih =>
    obtain ⟨hn, hns⟩ := List.forall_mem_cons.mp hns
    exact ih (h.add hn) hns

theorem legible_of_openTag (hes : es.Legible) (h : b.Legible) (hbody : Markup.Legible body)
    (ho : b.openTag d es body = .ok b') : b'.Legible := by
  obtain ⟨tag, htag, ho⟩ := bind_eq_ok.mp ho
  obtain ⟨values, hvalues, ho⟩ := bind_eq_ok.mp (passed ho)
  obtain ⟨scope, -, ho⟩ := bind_eq_ok.mp ho
  obtain ⟨name, -, ho⟩ := bind_eq_ok.mp ho
  obtain ⟨attributes, hattributes, ho⟩ := bind_eq_ok.mp ho
  have hlegible : ∀ a ∈ attributes, Markup.Legible a.2.toList := by
    intro a ha
    obtain ⟨v, hv, hname⟩ := exists_of_mapM hattributes a ha
    obtain ⟨_, -, ⟨⟩⟩ := bind_eq_ok.mp hname
    rcases List.mem_append.mp (List.mem_filter.mp hv).1 with hv | hv
    · obtain ⟨w, hw, hvalue⟩ := exists_of_mapM hvalues v hv
      obtain ⟨cs, hcs, ⟨⟩⟩ := bind_eq_ok.mp hvalue
      rw [String.toList_ofList]
      exact Entities.legible_of_valueUnder hes (hbody.mono (Tag.subset_of_ofBody htag w hw)) hcs
    · obtain ⟨w, hw, rfl⟩ := List.mem_map.mp hv
      rw [String.toList_ofList]
      split at hw
      · exact Entities.legible_of_defaults hes w hw
      · cases hw
  have ho := passed (passed ho)
  split at ho <;> cases ho
  · exact h.add ⟨hlegible, trivial⟩
  · exact ⟨List.forall_mem_cons.mpr ⟨hlegible, h.attributes⟩,
      List.forall_mem_cons.mpr ⟨List.forall_mem_nil _, h.children⟩, h.finished⟩

theorem legible_of_closeTag (h : b.Legible) (hc : b.closeTag body = .ok b') : b'.Legible := by
  obtain ⟨tag, -, hc⟩ := bind_eq_ok.mp hc
  obtain ⟨frames, finished, outer, line⟩ := b
  cases frames with
  | nil => cases hc
  | cons f fs =>
    have hc := passed hc
    obtain ⟨ha, has⟩ := List.forall_mem_cons.mp h.attributes
    obtain ⟨hf, hfs⟩ := List.forall_mem_cons.mp h.children
    cases hc
    refine Legible.add ⟨has, hfs, h.finished⟩ ⟨ha, ?_⟩
    rw [Node.allLegible_iff]
    exact fun n hn => hf n (List.mem_reverse.mp hn)

/-- What entities are replaced by is legible. -/
def LegibleInside (inside : Scope → List Char → Except Malformed (List Node)) : Prop :=
  ∀ scope text ns, Markup.Legible text → inside scope text = .ok ns → ∀ n ∈ ns, n.Legible

theorem legible_of_referenced {scope : Scope} {name : String} (hes : es.Legible)
    (hi : LegibleInside inside) (hname : Markup.Legible name.toList)
    (h : referenced d es inside scope name = .ok ns) : ∀ n ∈ ns, n.Legible := by
  have hleft : (Node.reference name).Legible := hname
  unfold referenced at h
  split at h
  · next hc =>
    cases h
    exact List.forall_mem_singleton.mpr
      (List.forall_mem_singleton.mpr (Entities.legible_of_character hc))
  · next ht =>
    obtain ⟨nodes, hnodes, rfl⟩ := map_eq_ok.mp h
    split
    · exact hi _ _ _ (Entities.legible_of_meaning hes ht) hnodes
    · exact List.forall_mem_singleton.mpr hleft
  · split at h <;> cases h
    exact List.forall_mem_singleton.mpr hleft
  · split at h <;> cases h
    exact List.forall_mem_singleton.mpr hleft

theorem legible_of_addText (hes : es.Legible) (hi : LegibleInside inside) (h : b.Legible)
    (hbody : Markup.Legible body) (ht : b.addText d es inside body = .ok b') : b'.Legible := by
  obtain ⟨ps, hps, ht⟩ := bind_eq_ok.mp (passed ht)
  have hlegible := Reference.legible_of_pieces (legible_unifyLineEnds hbody) hps
  refine foldlM_preserves h (fun b p b' hp hb hstep => ?_) ht
  have hp := hlegible p hp
  cases p with
  | plain c | coded c =>
    cases hstep
    exact hb.add (List.forall_mem_singleton.mpr hp)
  | entity name =>
    obtain ⟨nodes, hnodes, ⟨⟩⟩ := bind_eq_ok.mp hstep
    exact hb.addAll (legible_of_referenced hes hi hp hnodes)

theorem legible_of_step {l : Lexeme} (hes : es.Legible) (hi : LegibleInside inside) (h : b.Legible)
    (hl : Markup.Legible l.body) (ht : b.step d es inside l = .ok b') : b'.Legible := by
  have hb := h.advance l.body
  cases l with
  | text body => exact legible_of_addText hes hi hb hl ht
  | opening body => exact legible_of_openTag hes hb hl ht
  | closing body => exact legible_of_closeTag hb ht
  | comment body | instruction body =>
    rw [step] at ht
    split at ht <;> cases ht
    exact hb
  | literal body =>
    cases ht
    exact hb.add (legible_unifyLineEnds hl)
  | doctype body => cases ht

theorem legible_of_finish (h : b.Legible) (hf : b.finish = .ok ns) : ∀ n ∈ ns, n.Legible := by
  unfold finish at hf
  split at hf <;> cases hf
  exact fun n hn => h.finished n (List.mem_reverse.mp hn)

end Builder

open Builder (LegibleInside)

variable {d : Dialect} {es : Entities} {cs : List Char} {root : Node}

/-- References lead to legible text however deep they are. -/
theorem legibleInside_fragment (hes : es.Legible) (depth : Nat) : LegibleInside (fragment d es depth) := by
  induction depth with
  | zero =>
    intro scope text ns _ h
    cases h
  | succ depth ih =>
    intro scope text ns htext h
    rw [fragment] at h
    split at h
    · cases h
    · next ls hls =>
      obtain ⟨b, hb, hf⟩ := bind_eq_ok.mp h
      refine Builder.legible_of_finish (foldlM_preserves (Builder.legible_start scope) ?_ hb) hf
      intro b l b' hl hb hstep
      exact Builder.legible_of_step hes ih hb (htext.mono (Lexeme.subset_of_split? hls l hl)) hstep

namespace Document

theorem ofChars_eq_error (h : ¬ Legible cs) : ofChars d cs = .error .character := by
  have hall : (cs.all fun c => isAllowed c.toNat) = false := by
    rw [← Bool.not_eq_true, List.all_eq_true]
    exact h
  rw [ofChars, hall]
  rfl

/-- The entities known so far and all that has been read are legible. -/
def LegibleState (state : Entities × Bool × Builder) : Prop :=
  state.1.Legible ∧ state.2.2.Legible

theorem legible_of_step {standalone : Bool} {state state' : Entities × Bool × Builder} {l : Lexeme}
    (hs : LegibleState state) (hl : Legible l.body) (h : step d standalone state l = .ok state') :
    LegibleState state' := by
  obtain ⟨es, typed, b⟩ := state
  obtain ⟨hes, hb⟩ := hs
  have hinner : ∀ t, (b.step d es (fragment d es es.texts.length) l).map (es, t, ·) = .ok state' →
      LegibleState state' := by
    intro t h
    obtain ⟨b', hb', rfl⟩ := map_eq_ok.mp h
    exact ⟨hes, Builder.legible_of_step hes (legibleInside_fragment hes _) hb hl hb'⟩
  rw [step] at h
  split at h
  · unfold outside at h
    cases l with
    | text body =>
      dsimp only at h
      split at h <;> cases h
      exact ⟨hes, hb.advance body⟩
    | literal body => cases h
    | doctype body =>
      dsimp only at h
      split at h
      · cases h
      · obtain ⟨es', hes', rfl⟩ := map_eq_ok.mp h
        exact ⟨Doctype.legible_of_ofBody hl hes', hb.advance body⟩
    | opening body =>
      dsimp only at h
      split at h
      · exact hinner true h
      · cases h
    | closing body | comment body | instruction body => exact hinner typed h
  · exact hinner typed h

theorem subset_of_head {ls rest : List Lexeme} {declaration : Declaration}
    (h : head ls = .ok (declaration, rest)) : rest ⊆ ls := by
  unfold head at h
  split at h
  · split at h
    · obtain ⟨_, -, ⟨⟩⟩ := map_eq_ok.mp h
      exact List.subset_cons_self _ _
    · cases h
      exact List.Subset.refl _
  · cases h
    exact List.Subset.refl _

/-- Nothing but legible text is read from a document. -/
theorem legible_of_ofChars (h : ofChars d cs = .ok root) : root.Legible := by
  have hcs : Legible cs := by
    by_contra hcs
    rw [ofChars_eq_error hcs] at h
    cases h
  have hall : (cs.all fun c => isAllowed c.toNat) = true := List.all_eq_true.mpr hcs
  simp only [ofChars, hall, Bool.not_true, Bool.false_eq_true, if_false] at h
  split at h
  · cases h
  next ls hls =>
  obtain ⟨⟨declaration, rest⟩, hhead, h⟩ := bind_eq_ok.mp h
  have hrest : ∀ l ∈ rest, Legible l.body := fun l hl =>
    hcs.mono (Lexeme.subset_of_split? hls l (subset_of_head hhead hl))
  obtain ⟨state, hstate, h⟩ := bind_eq_ok.mp (passed h)
  obtain ⟨nodes, hnodes, h⟩ := bind_eq_ok.mp h
  have hs : LegibleState state :=
    foldlM_preserves ⟨Entities.legible_none, (Builder.legible_start _).advanceAll _⟩
      (fun state l state' hl hs => legible_of_step hs (hrest l hl)) hstate
  have hroot := Builder.legible_of_finish hs.2 hnodes
  split at h <;> cases h
  exact hroot _ List.mem_cons_self

theorem legible_of_ofBytes {bytes : Text.Utf8.Bytes} (h : ofBytes d bytes = .ok root) : root.Legible := by
  unfold ofBytes at h
  split at h
  · exact legible_of_ofChars h
  · cases h

end Document

end LoadPlan.Markup
