import Mathlib.Data.List.Forall2
import Mathlib.Order.Nat
import LoadPlan.Proofs.Jmx.Validity

/-! Where elements and trees do not stand by turns. Each tree in a document that breaks the rule is reported once, by
the first place where it does so. -/
namespace LoadPlan.Markup.Element

/-- The element that the numbers of children lead to, from the top down. -/
def at? (e : Element) : List Nat → Option Element
  | [] => some e
  | i :: path => e.children[i]?.bind fun c => c.at? path

mutual

/-- An element and all below it with the paths that lead there, in document order. -/
def places : Element → List (List Nat × Element)
  | ⟨tag, attributes, text, children⟩ => ([], ⟨tag, attributes, text, children⟩) :: placesFrom 0 children

/-- The same for children, the first of which has a number. -/
def placesFrom (i : Nat) : List Element → List (List Nat × Element)
  | [] => []
  | e :: es => (places e).map (fun p => (i :: p.1, p.2)) ++ placesFrom (i + 1) es

end

theorem places_eq (e : Element) : e.places = ([], e) :: placesFrom 0 e.children := by
  obtain ⟨tag, attributes, text, children⟩ := e
  rw [places]

mutual

theorem map_snd_places : ∀ e : Element, e.places.map Prod.snd = e.subtree
  | ⟨tag, attributes, text, children⟩ => by
    rw [places, subtree, List.map_cons, map_snd_placesFrom 0 children]

theorem map_snd_placesFrom : ∀ (i : Nat) (es : List Element), (placesFrom i es).map Prod.snd = subtrees es
  | _, [] => rfl
  | i, e :: es => by
    rw [placesFrom, subtrees, List.map_append, List.map_map, map_snd_placesFrom (i + 1) es, ← map_snd_places e]
    rfl

end

theorem mem_placesFrom {i : Nat} {es : List Element} {path : List Nat} {x : Element} :
    (path, x) ∈ placesFrom i es ↔ ∃ j rest c, path = (i + j) :: rest ∧ es[j]? = some c ∧ (rest, x) ∈ c.places := by
  induction es generalizing i with
  | nil => simp [placesFrom]
  | cons e es ih =>
    rw [placesFrom, List.mem_append, List.mem_map, ih]
    constructor
    · rintro (⟨⟨rest, y⟩, hy, heq⟩ | ⟨j, rest, c, rfl, hc, hx⟩)
      · cases heq
        exact ⟨0, rest, e, rfl, rfl, hy⟩
      · exact ⟨j + 1, rest, c, by rw [Nat.add_right_comm, Nat.add_assoc], hc, hx⟩
    · rintro ⟨_ | j, rest, c, rfl, hc, hx⟩
      · cases hc
        exact .inl ⟨(rest, x), hx, rfl⟩
      · exact .inr ⟨j, rest, c, by rw [Nat.add_right_comm, Nat.add_assoc], hc, hx⟩

/-- Every path into an element leads to one of its places. -/
theorem mem_places_iff {path : List Nat} {e x : Element} : (path, x) ∈ e.places ↔ e.at? path = some x := by
  induction path generalizing e with
  | nil =>
    rw [places_eq, List.mem_cons, mem_placesFrom, at?]
    simp [eq_comm]
  | cons i path ih =>
    rw [places_eq, List.mem_cons, mem_placesFrom, at?, Option.bind_eq_some_iff]
    simp only [← ih]
    constructor
    · rintro (heq | ⟨j, rest, c, heq, hc, hx⟩)
      · cases heq
      · rw [Nat.zero_add] at heq
        cases heq
        exact ⟨c, hc, hx⟩
    · rintro ⟨c, hc, hx⟩
      exact .inr ⟨i, path, c, by rw [Nat.zero_add], hc, hx⟩

mutual

/-- Document order is the order of the paths, in which one comes before those that go on from it. -/
theorem pairwise_places : ∀ e : Element, e.places.Pairwise fun p q => p.1 < q.1
  | ⟨tag, attributes, text, children⟩ => by
    rw [places, List.pairwise_cons]
    refine ⟨fun ⟨path, x⟩ hx => ?_, pairwise_placesFrom 0 children⟩
    obtain ⟨j, rest, -, rfl, -⟩ := mem_placesFrom.mp hx
    exact List.nil_lt_cons _ _

theorem pairwise_placesFrom : ∀ (i : Nat) (es : List Element), (placesFrom i es).Pairwise fun p q => p.1 < q.1
  | _, [] => .nil
  | i, e :: es => by
    rw [placesFrom, List.pairwise_append]
    refine ⟨?_, pairwise_placesFrom (i + 1) es, ?_⟩
    · rw [List.pairwise_map]
      exact (pairwise_places e).imp fun h => List.cons_lt_cons_iff.mpr (.inr ⟨rfl, h⟩)
    · rintro p hp ⟨path, x⟩ hq
      obtain ⟨p, -, rfl⟩ := List.mem_map.mp hp
      obtain ⟨j, rest, -, rfl, -⟩ := mem_placesFrom.mp hq
      exact List.cons_lt_cons_iff.mpr (.inl (by omega))

end

end LoadPlan.Markup.Element

namespace LoadPlan.Jmx

open LoadPlan.Markup (Element)
open LoadPlan.Markup.Element (places mem_places_iff map_snd_places pairwise_places)

/-- An element at a position, with no tree right behind it. -/
def LoneAt (es : List Element) (i : Nat) : Prop :=
  ∃ e, es[i]? = some e ∧ e.tag ≠ treeTag ∧ ∀ t, es[i + 1]? = some t → t.tag ≠ treeTag

/-- A tree at a position where elements stand. -/
def StrayAt (es : List Element) (i : Nat) : Prop :=
  i % 2 = 0 ∧ ∃ t, es[i]? = some t ∧ t.tag = treeTag

/-- What is wrong where elements and trees do not stand by turns. It is the first lone element, unless a stray tree
comes before it or there is no such element. -/
inductive Breaks (es : List Element) : Issue → Prop
  | lone {i e} : es[i]? = some e → LoneAt es i → (∀ j < i, ¬LoneAt es j) → (∀ k < i, ¬StrayAt es k) →
      Breaks es (.unpaired e.tag (Audit.testName e))
  | stray {k} : StrayAt es k → (∀ i, LoneAt es i → k < i) → Breaks es .strayTree

variable {es : List Element} {e t : Element} {issue : Issue} {i : Nat}

theorem Breaks.unique {issue' : Issue} (h : Breaks es issue) (h' : Breaks es issue') : issue = issue' := by
  cases h with
  | @lone i e he hi hfirst hstray =>
    cases h' with
    | @lone j d hd hj hfirst' _ =>
      have hij : i = j := le_antisymm (not_lt.mp fun h => hfirst j h hj) (not_lt.mp fun h => hfirst' i h hi)
      rw [hij, hd] at he
      cases he
      rfl
    | @stray k hk hbefore => exact absurd hk (hstray k (hbefore i hi))
  | @stray k hk hbefore =>
    cases h' with
    | @lone i e he hi hfirst hstray => exact absurd hk (hstray k (hbefore i hi))
    | stray => rfl

theorem loneAt_zero : LoneAt (e :: es) 0 ↔ e.tag ≠ treeTag ∧ ∀ t, es.head? = some t → t.tag ≠ treeTag := by
  simp [LoneAt, List.head?_eq_getElem?]

theorem strayAt_zero : StrayAt (e :: es) 0 ↔ e.tag = treeTag := by
  simp [StrayAt]

/-- An element with its tree is not lone, and there is no stray tree in it. -/
theorem loneAt_cons_cons (ht : t.tag = treeTag) : LoneAt (e :: t :: es) i ↔ ∃ j, i = j + 2 ∧ LoneAt es j := by
  match i with
  | 0 => simp [LoneAt, ht]
  | 1 => simp [LoneAt, ht]
  | i + 2 => simp [LoneAt]

theorem strayAt_cons_cons (he : e.tag ≠ treeTag) : StrayAt (e :: t :: es) i ↔ ∃ j, i = j + 2 ∧ StrayAt es j := by
  match i with
  | 0 => simp [StrayAt, he]
  | 1 => simp [StrayAt]
  | i + 2 => simp [StrayAt]

/-- So it has no part in what is wrong after it. -/
theorem Breaks.after (he : e.tag ≠ treeTag) (ht : t.tag = treeTag) (h : Breaks es issue) :
    Breaks (e :: t :: es) issue := by
  cases h with
  | @lone i d hd hi hfirst hnone =>
    refine .lone (i := i + 2) hd ((loneAt_cons_cons ht).mpr ⟨i, rfl, hi⟩) (fun j hj hlone => ?_) fun k hk hstray => ?_
    · obtain ⟨j, rfl, hj'⟩ := (loneAt_cons_cons ht).mp hlone
      exact hfirst j (by omega) hj'
    · obtain ⟨k, rfl, hk'⟩ := (strayAt_cons_cons he).mp hstray
      exact hnone k (by omega) hk'
  | @stray k hk hbefore =>
    refine .stray (k := k + 2) ((strayAt_cons_cons he).mpr ⟨k, rfl, hk⟩) fun i hi => ?_
    obtain ⟨j, rfl, hj⟩ := (loneAt_cons_cons ht).mp hi
    have hkj := hbefore j hj
    omega

theorem breaks_of_tree (he : e.tag = treeTag) : Breaks (e :: es) .strayTree := by
  refine .stray (strayAt_zero.mpr he) fun i hi => Nat.pos_of_ne_zero ?_
  rintro rfl
  exact (loneAt_zero.mp hi).1 he

theorem breaks_of_lone (he : e.tag ≠ treeTag) (hes : ∀ t, es.head? = some t → t.tag ≠ treeTag) :
    Breaks (e :: es) (.unpaired e.tag (Audit.testName e)) :=
  .lone rfl (loneAt_zero.mpr ⟨he, hes⟩) (fun _ h => absurd h (Nat.not_lt_zero _)) fun _ h => absurd h (Nat.not_lt_zero _)

theorem breaks_of_pairingIssue? (h : Audit.pairingIssue? es = some issue) : Breaks es issue := by
  -- The check only goes on behind an element with its tree; in all other cases it has found what comes first.
  fun_induction Audit.pairingIssue? es with
  | case1 => cases h
  | case2 e es he =>
    cases h
    exact breaks_of_tree he
  | case3 e he =>
    cases h
    exact breaks_of_lone he (by simp)
  | case4 e he t es ht ih => exact (ih h).after he ht
  | case5 e he t es ht =>
    cases h
    exact breaks_of_lone he (by simpa using ht)

theorem Alternates.not_strayAt (h : Alternates es) : ¬StrayAt es i := by
  rintro ⟨heven, t, ht, htree⟩
  obtain ⟨hi, rfl⟩ := List.getElem?_eq_some_iff.mp ht
  have hodd := (h.2 i hi).mp htree
  omega

theorem Alternates.not_loneAt (h : Alternates es) : ¬LoneAt es i := by
  rintro ⟨e, he, hne, hnext⟩
  obtain ⟨hi, rfl⟩ := List.getElem?_eq_some_iff.mp he
  have hodd : ¬i % 2 = 1 := fun hodd => hne ((h.2 i hi).mpr hodd)
  -- The number of elements is even, so this is not the last of them.
  have hnext' : i + 1 < es.length := by
    have hlen := h.1
    omega
  have htree : es[i + 1].tag = treeTag := (h.2 (i + 1) hnext').mpr (by omega)
  exact hnext es[i + 1] (List.getElem?_eq_getElem hnext') htree

theorem Alternates.not_breaks (h : Alternates es) : ¬Breaks es issue := by
  rintro (⟨-, hi, -, -⟩ | ⟨hk, -⟩)
  · exact h.not_loneAt hi
  · exact h.not_strayAt hk

/-- The check of pairs tells what is wrong first, if anything is. -/
theorem pairingIssue?_eq_some_iff : Audit.pairingIssue? es = some issue ↔ Breaks es issue := by
  refine ⟨breaks_of_pairingIssue?, fun h => ?_⟩
  cases hissue : Audit.pairingIssue? es with
  | none => exact absurd h ((pairingIssue?_eq_none_iff es).mp hissue).not_breaks
  | some issue' => rw [h.unique (breaks_of_pairingIssue? hissue)]

/-- What is wrong with an element, if it is a tree. -/
def treeIssue? (t : Element) : Option Issue :=
  if t.tag == treeTag then Audit.pairingIssue? t.children else none

theorem isSome_treeIssue?_iff : (treeIssue? t).isSome = true ↔ t.tag = treeTag ∧ ¬Alternates t.children := by
  rw [treeIssue?, ← pairingIssue?_eq_none_iff]
  by_cases ht : t.tag = treeTag
  · simp [ht, Option.isSome_iff_ne_none]
  · simp [ht]

theorem breaks_of_treeIssue? (h : treeIssue? t = some issue) : Breaks t.children issue := by
  unfold treeIssue? at h
  split at h
  · exact pairingIssue?_eq_some_iff.mp h
  · cases h

theorem pairingIssues_eq_filterMap (root : Element) :
    Audit.pairingIssues root = root.places.filterMap fun p => treeIssue? p.2 := by
  rw [Audit.pairingIssues, Element.subtreeTagged, List.filterMap_filter, ← map_snd_places, List.filterMap_map]
  rfl

theorem forall₂_filterMap {α β : Type} (f : α → Option β) (xs : List α) :
    List.Forall₂ (fun x y => f x = some y) (xs.filter fun x => (f x).isSome) (xs.filterMap f) := by
  induction xs with
  | nil => exact .nil
  | cons x xs ih =>
    cases hx : f x with
    | none => simpa [hx] using ih
    | some y => simpa [hx] using ih

/-- There is one report for each tree in which elements and trees do not stand by turns, wherever it is, and none for
any other. The reports come in document order, and each tells what is wrong first in its tree. -/
theorem pairingIssues_of_places (root : Element) :
    ∃ paths : List (List Nat), paths.Pairwise (· < ·) ∧
      (∀ path, path ∈ paths ↔ ∃ t, root.at? path = some t ∧ t.tag = treeTag ∧ ¬Alternates t.children) ∧
      List.Forall₂ (fun path issue => ∃ t, root.at? path = some t ∧ Breaks t.children issue) paths
        (Audit.pairingIssues root) := by
  let faulty := root.places.filter fun p => (treeIssue? p.2).isSome
  refine ⟨faulty.map Prod.fst, ?_, fun path => ?_, ?_⟩
  · rw [List.pairwise_map]
    exact (pairwise_places root).filter _
  · rw [List.mem_map]
    constructor
    · rintro ⟨⟨path, t⟩, hp, rfl⟩
      obtain ⟨ht, hissue⟩ := List.mem_filter.mp hp
      exact ⟨t, mem_places_iff.mp ht, isSome_treeIssue?_iff.mp hissue⟩
    · rintro ⟨t, ht, hfaulty⟩
      exact ⟨(path, t), List.mem_filter.mpr ⟨mem_places_iff.mpr ht, isSome_treeIssue?_iff.mpr hfaulty⟩, rfl⟩
  · rw [List.forall₂_map_left_iff, pairingIssues_eq_filterMap]
    have hplaced : ∀ p ∈ faulty, p ∈ root.places := fun p hp => (List.mem_filter.mp hp).1
    have hissues := (List.forall₂_and_left _ _).mpr ⟨hplaced, forall₂_filterMap (fun p => treeIssue? p.2) root.places⟩
    refine hissues.imp fun p issue ⟨hp, hissue⟩ => ?_
    exact ⟨p.2, mem_places_iff.mp hp, breaks_of_treeIssue? hissue⟩

/-- A fault in a tree does not hide those in the trees below it. -/
example : Audit.pairingIssues
      ⟨treeTag, [], "", [⟨treeTag, [], "", [⟨"ConstantTimer", [("testname", "Pause")], "", []⟩]⟩]⟩ =
    [.strayTree, .unpaired "ConstantTimer" "Pause"] := by decide

end LoadPlan.Jmx
