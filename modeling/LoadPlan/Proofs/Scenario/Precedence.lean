import Mathlib.Data.List.Lex
import Mathlib.Data.List.Nodup
import LoadPlan.Proofs.Scenario.Occurrences

/-! The order in which data sets are moved to the top is that of the ways that lead to them, so none comes
twice and what is reached through one comes right after it. -/
namespace LoadPlan.Scenario

variable {s : Scenario}

/-- The place of a move among those from the same place. Those of the plan to its data sets are last, as
what is below them is moved after all else. -/
def Move.rank : Move → List Nat
  | .set i => [0, i]
  | .step i => [1, i]
  | .item i j => [1, i, j]
  | .plan i => [2, i]

instance : LT Move := ⟨fun m n => m.rank < n.rank⟩

theorem Move.asymm {m n : Move} (h : m < n) : ¬ n < m :=
  lt_asymm (a := m.rank) h

theorem Move.set_lt_set {i j : Nat} (h : i < j) : Move.set i < Move.set j :=
  List.Lex.cons (.rel h)

theorem Move.set_lt_step (i j : Nat) : Move.set i < Move.step j :=
  List.Lex.rel Nat.zero_lt_one

theorem Move.step_lt_step {i j : Nat} (h : i < j) : Move.step i < Move.step j :=
  List.Lex.cons (.rel h)

theorem Move.item_lt_item (i : Nat) {j k : Nat} (h : j < k) : Move.item i j < Move.item i k :=
  List.Lex.cons (.cons (.rel h))

theorem Move.step_lt_plan (i j : Nat) : Move.step i < Move.plan j :=
  List.Lex.rel Nat.one_lt_two

theorem Move.plan_lt_plan {i j : Nat} (h : i < j) : Move.plan i < Move.plan j :=
  List.Lex.cons (.rel h)

/-- A move of one kind, from a number on. -/
def Move.From (move : Nat → Move) (i : Nat) (m : Move) : Prop :=
  ∃ k, i ≤ k ∧ m = move k

/-- A move to a controller among the steps of a data set, from a number on. -/
def Move.Inward (i : Nat) (m : Move) : Prop :=
  ∃ k, i ≤ k ∧ (m = .step k ∨ ∃ j, m = .item k j)

theorem Move.lt_of_inward {i : Nat} {m n : Move} (hm : m = .step i ∨ ∃ j, m = .item i j)
    (hn : n.Inward (i + 1)) : m < n := by
  obtain ⟨k, hk, hn⟩ := hn
  have hlt : i < k := hk
  -- Steps and items are told apart by the number of the step before anything else.
  rcases hm with rfl | ⟨j, rfl⟩ <;> rcases hn with rfl | ⟨l, rfl⟩ <;> exact List.Lex.cons (.rel hlt)

/-- All positions go on from one by moves of a kind, and come in lexicographic order. -/
structure Ordered (p : Position) (P : Move → Prop) (os : List Occurrence) : Prop where
  onward : ∀ o ∈ os, ∃ m q, P m ∧ o.1 = p ++ m :: q
  sorted : os.Pairwise fun a b => a.1 < b.1

namespace Ordered

variable {p : Position} {P Q : Move → Prop} {a b os : List Occurrence}

theorem nil : Ordered p P [] :=
  ⟨List.forall_mem_nil _, .nil⟩

theorem mono (h : Ordered p P os) (hPQ : ∀ m, P m → Q m) : Ordered p Q os where
  onward o ho := by
    obtain ⟨m, q, hm, heq⟩ := h.onward o ho
    exact ⟨m, q, hPQ m hm, heq⟩
  sorted := h.sorted

theorem append (ha : Ordered p P a) (hb : Ordered p Q b) (h : ∀ m n, P m → Q n → m < n) :
    Ordered p (fun m => P m ∨ Q m) (a ++ b) where
  onward := List.forall_mem_append.mpr
    ⟨(ha.mono fun m hm => .inl hm).onward, (hb.mono fun m hm => .inr hm).onward⟩
  sorted := by
    refine List.pairwise_append.mpr ⟨ha.sorted, hb.sorted, fun x hx y hy => ?_⟩
    obtain ⟨m, q, hm, hx⟩ := ha.onward x hx
    obtain ⟨n, r, hn, hy⟩ := hb.onward y hy
    rw [hx, hy]
    exact List.append_left_lt (List.cons_lt_cons_iff.mpr (.inl (h m n hm hn)))

/-- Below a position that is itself reached by a move. -/
theorem below {m : Move} (h : Ordered (p ++ [m]) P os) : Ordered p (· = m) os where
  onward o ho := by
    obtain ⟨n, q, -, heq⟩ := h.onward o ho
    exact ⟨m, n :: q, rfl, by rw [heq, List.append_assoc]; rfl⟩
  sorted := h.sorted

theorem cons {m : Move} (d : DataSet) (h : Ordered (p ++ [m]) P os) :
    Ordered p (· = m) ((p ++ [m], d) :: os) where
  onward := List.forall_mem_cons.mpr ⟨⟨m, [], rfl, rfl⟩, h.below.onward⟩
  sorted := by
    refine List.pairwise_cons.mpr ⟨fun o ho => ?_, h.sorted⟩
    obtain ⟨n, q, -, heq⟩ := h.onward o ho
    have hlt : p ++ [m] ++ [] < p ++ [m] ++ n :: q := List.append_left_lt (List.nil_lt_cons n q)
    rw [List.append_nil] at hlt
    rw [heq]
    exact hlt

/-- One after the other, counted from a number. -/
theorem count {move : Nat → Move} {i : Nat} (hmove : ∀ {j k}, j < k → move j < move k)
    (ha : Ordered p (· = move i) a) (hb : Ordered p (Move.From move (i + 1)) b) :
    Ordered p (Move.From move i) (a ++ b) := by
  have hlt : ∀ m n, m = move i → Move.From move (i + 1) n → m < n := by
    rintro m n rfl ⟨k, hk, rfl⟩
    exact hmove hk
  refine (ha.append hb hlt).mono fun m hm => ?_
  rcases hm with rfl | ⟨k, hk, rfl⟩
  · exact ⟨i, le_rfl, rfl⟩
  · exact ⟨k, by omega, rfl⟩

theorem countWithin {i : Nat} (ha : Ordered p (fun m => m = .step i ∨ ∃ j, m = .item i j) a)
    (hb : Ordered p (Move.Inward (i + 1)) b) : Ordered p (Move.Inward i) (a ++ b) := by
  refine (ha.append hb fun m n => Move.lt_of_inward).mono fun m hm => ?_
  rcases hm with hm | ⟨k, hk, hm⟩
  · exact ⟨i, le_rfl, hm⟩
  · exact ⟨k, by omega, hm⟩

end Ordered

/-- Any move. -/
abbrev Move.Any : Move → Prop := fun _ => True

mutual

theorem Entry.ordered : ∀ (p : Position) (e : Entry), Ordered p Move.Any (e.occurrences p)
  | p, .controller c => c.ordered p
  | _, .timer _ => .nil
  | _, .request _ => .nil
  | _, .loop _ => .nil
  | _, .repeated _ => .nil

theorem Controller.ordered : ∀ (p : Position) (c : Controller), Ordered p Move.Any (c.occurrences p)
  | p, ⟨_, _, stack, dataSets, _, _⟩ => by
    have hown := orderedWith p 0 dataSets
    have hnested := orderedFrom p .step 0 stack Move.step_lt_step
    have hlt : ∀ m n, Move.From .set 0 m → Move.From .step 0 n → m < n := by
      rintro m n ⟨j, -, rfl⟩ ⟨k, -, rfl⟩
      exact Move.set_lt_step j k
    exact (hown.append hnested hlt).mono fun _ _ => trivial

theorem orderedWith : ∀ (p : Position) (i : Nat) (ds : List DataSet),
    Ordered p (Move.From .set i) (occurrencesWith p i ds)
  | _, _, [] => .nil
  | p, i, d :: ds => by
    have hd := (d.ordered (p ++ [.set i])).cons d
    exact Ordered.count Move.set_lt_set hd (orderedWith p (i + 1) ds)

theorem orderedFrom : ∀ (p : Position) (move : Nat → Move) (i : Nat) (es : List Entry),
    (∀ {j k}, j < k → move j < move k) → Ordered p (Move.From move i) (occurrencesFrom p move i es)
  | _, _, _, [], _ => .nil
  | p, move, i, e :: es, hmove => by
    have he := (e.ordered (p ++ [move i])).below
    exact Ordered.count hmove he (orderedFrom p move (i + 1) es hmove)

theorem DataSet.ordered : ∀ (p : Position) (d : DataSet), Ordered p Move.Any (d.occurrences p)
  | p, ⟨_, _, _, _, _, stack, _, _, _⟩ => (orderedWithin p 0 stack).mono fun _ _ => trivial

theorem orderedWithin : ∀ (p : Position) (i : Nat) (es : List Entry),
    Ordered p (Move.Inward i) (occurrencesWithin p i es)
  | _, _, [] => .nil
  | p, i, .repeated items :: es => by
    have hitems := orderedFrom p (.item i) 0 items (Move.item_lt_item i)
    refine Ordered.countWithin (hitems.mono fun m hm => ?_) (orderedWithin p (i + 1) es)
    obtain ⟨j, -, rfl⟩ := hm
    exact .inr ⟨j, rfl⟩
  | p, i, .controller c :: es => by
    have hc := (c.ordered (p ++ [.step i])).below
    exact Ordered.countWithin (hc.mono fun m => .inl) (orderedWithin p (i + 1) es)
  | p, i, .timer _ :: es => Ordered.countWithin .nil (orderedWithin p (i + 1) es)
  | p, i, .request _ :: es => Ordered.countWithin .nil (orderedWithin p (i + 1) es)
  | p, i, .loop _ :: es => Ordered.countWithin .nil (orderedWithin p (i + 1) es)

end

theorem orderedBelow (i : Nat) (ds : List DataSet) :
    Ordered [] (Move.From .plan i) (occurrencesBelow i ds) := by
  induction ds generalizing i with
  | nil => exact .nil
  | cons d ds ih =>
    have hd : Ordered [] (· = .plan i) (d.occurrences ([] ++ [.plan i])) := (d.ordered _).below
    exact Ordered.count Move.plan_lt_plan hd (ih (i + 1))

theorem ordered_moved (s : Scenario) : Ordered [] Move.Any (moved s) := by
  have hmain := orderedFrom [] .step 0 s.stack Move.step_lt_step
  have hlt : ∀ m n, Move.From .step 0 m → Move.From .plan 0 n → m < n := by
    rintro m n ⟨j, -, rfl⟩ ⟨k, -, rfl⟩
    exact Move.step_lt_plan j k
  exact (hmain.append (orderedBelow 0 s.dataSets) hlt).mono fun _ _ => trivial

/-! What the order means. -/

instance : Std.Asymm (fun m n : Move => m < n) := ⟨fun _ _ => Move.asymm⟩

theorem not_append_lt (p q : Position) : ¬ p ++ q < p := by
  induction p with
  | nil => exact List.not_lt_nil q
  | cons m p ih =>
    rw [List.cons_append, List.cons_lt_cons_iff]
    rintro (h | ⟨-, h⟩)
    · exact Move.asymm h h
    · exact ih h

/-- What stands between a position and one that goes on from it goes on from it as well. -/
theorem prefix_of_between {p q r : Position} (hpq : p < q) (hqr : q < p ++ r) : p <+: q := by
  induction p generalizing q with
  | nil => exact List.nil_prefix
  | cons m p ih =>
    cases q with
    | nil => exact absurd hpq (List.not_lt_nil _)
    | cons n q =>
      rw [List.cons_append] at hqr
      rcases List.cons_lt_cons_iff.mp hpq with hmn | ⟨rfl, hlt⟩
      · rcases List.cons_lt_cons_iff.mp hqr with hnm | ⟨rfl, -⟩
        · exact absurd hnm (Move.asymm hmn)
        · exact absurd hmn (Move.asymm hmn)
      · rcases List.cons_lt_cons_iff.mp hqr with hmm | ⟨-, hqr⟩
        · exact absurd hmm (Move.asymm hmm)
        · exact List.cons_prefix_cons.mpr ⟨rfl, ih hlt hqr⟩

variable {os : List Occurrence}

theorem exists_split_after {p : Position} (hs : os.Pairwise fun a b => a.1 < b.1)
    (hp : ∀ o ∈ os, p < o.1) :
    ∃ through after, os = through ++ after ∧ (∀ o ∈ through, p <+: o.1) ∧ ∀ o ∈ after, ¬ p <+: o.1 := by
  induction os with
  | nil => exact ⟨[], [], rfl, List.forall_mem_nil _, List.forall_mem_nil _⟩
  | cons o os ih =>
    obtain ⟨ho, hs⟩ := List.pairwise_cons.mp hs
    obtain ⟨hpo, hp⟩ := List.forall_mem_cons.mp hp
    by_cases h : p <+: o.1
    · obtain ⟨through, after, rfl, hthrough, hafter⟩ := ih hs hp
      exact ⟨o :: through, after, rfl, List.forall_mem_cons.mpr ⟨h, hthrough⟩, hafter⟩
    · refine ⟨[], o :: os, rfl, List.forall_mem_nil _, List.forall_mem_cons.mpr ⟨h, ?_⟩⟩
      rintro x hx ⟨r, hr⟩
      exact h (prefix_of_between hpo (hr ▸ ho x hx))

/-- In lexicographic order, what goes on from a position comes right after it. -/
theorem exists_split {o : Occurrence} (hs : os.Pairwise fun a b => a.1 < b.1) (ho : o ∈ os) :
    ∃ before through after, os = before ++ o :: (through ++ after) ∧ (∀ x ∈ through, o.1 <+: x.1) ∧
      ∀ x ∈ before ++ after, ¬ o.1 <+: x.1 := by
  obtain ⟨before, rest, rfl⟩ := List.append_of_mem ho
  obtain ⟨-, hrest, hbefore⟩ := List.pairwise_append.mp hs
  obtain ⟨hlt, hrest⟩ := List.pairwise_cons.mp hrest
  obtain ⟨through, after, rfl, hthrough, hafter⟩ := exists_split_after hrest hlt
  refine ⟨before, through, after, rfl, hthrough, List.forall_mem_append.mpr ⟨?_, hafter⟩⟩
  rintro x hx ⟨r, hr⟩
  have hxo := hbefore x hx o List.mem_cons_self
  exact not_append_lt o.1 r (hr ▸ hxo)

theorem pair_sublist {x y : Occurrence} (hs : os.Pairwise fun a b => a.1 < b.1) (hx : x ∈ os)
    (hy : y ∈ os) (hxy : x.1 < y.1) : [x, y].Sublist os := by
  have hne : ∀ {z : Occurrence}, ¬ z.1 < z.1 := by
    intro z hz
    exact not_append_lt z.1 [] (by rwa [List.append_nil])
  induction os with
  | nil => cases hx
  | cons o os ih =>
    obtain ⟨ho, hs⟩ := List.pairwise_cons.mp hs
    rcases List.mem_cons.mp hx with rfl | hx'
    · rcases List.mem_cons.mp hy with rfl | hy'
      · exact absurd hxy hne
      · exact (List.singleton_sublist.mpr hy').cons_cons x
    · rcases List.mem_cons.mp hy with rfl | hy'
      · exact absurd hxy (List.lt_asymm (ho x hx'))
      · exact (ih hs hx' hy').cons o

/-! The list as a whole. -/

/-- What is moved does not stand among the data sets of the plan. -/
theorem ne_plan_of_mem_moved {o : Occurrence} (ho : o ∈ moved s) (i : Nat) : o.1 ≠ [.plan i] := by
  rcases List.mem_append.mp ho with ho | ho
  · obtain ⟨m, q, ⟨k, -, rfl⟩, heq⟩ := (orderedFrom [] .step 0 s.stack Move.step_lt_step).onward o ho
    rw [heq]
    simp
  · have hlength : ∀ (j : Nat) (ds : List DataSet), ∀ o ∈ occurrencesBelow j ds, 2 ≤ o.1.length := by
      intro j ds
      induction ds generalizing j with
      | nil => exact List.forall_mem_nil _
      | cons d ds ih =>
        refine List.forall_mem_append.mpr ⟨fun o ho => ?_, ih (j + 1)⟩
        obtain ⟨m, q, -, heq⟩ := (d.ordered [.plan j]).onward o ho
        rw [heq]
        simp
    have h := hlength 0 s.dataSets o ho
    intro heq
    rw [heq] at h
    simp at h

theorem nodup_positions (s : Scenario) : ((occurrences s).map Prod.fst).Nodup := by
  have htop : ((s.dataSets.zipIdx.map fun x => (([.plan x.2], x.1) : Occurrence)).map Prod.fst) =
      (List.range' 0 s.dataSets.length).map fun i => [Move.plan i] := by
    rw [← List.zipIdx_map_snd 0 s.dataSets, List.map_map, List.map_map]
    rfl
  have hinj : Function.Injective fun i => [Move.plan i] := by
    intro i j h
    simpa using h
  have hmoved : ((moved s).map Prod.fst).Nodup := by
    refine List.pairwise_map.mpr ((ordered_moved s).sorted.imp ?_)
    intro a b hab heq
    rw [heq] at hab
    exact List.lt_asymm hab hab
  rw [occurrences, List.map_append, htop]
  have hrange : (List.range' 0 s.dataSets.length).Nodup := List.nodup_range'
  refine (hrange.map hinj).append hmoved ?_
  intro p hp hm
  obtain ⟨i, -, rfl⟩ := List.mem_map.mp hp
  obtain ⟨o, ho, heq⟩ := List.mem_map.mp hm
  exact ne_plan_of_mem_moved ho i heq

theorem mem_moved_iff {o : Occurrence} :
    o ∈ moved s ↔ o ∈ occurrences s ∧ ∀ i, o.1 ≠ [.plan i] := by
  constructor
  · intro ho
    exact ⟨List.mem_append_right _ ho, ne_plan_of_mem_moved ho⟩
  · rintro ⟨ho, hne⟩
    rcases List.mem_append.mp ho with ho | ho
    · obtain ⟨x, -, rfl⟩ := List.mem_map.mp ho
      exact absurd rfl (hne x.2)
    · exact ho

/-- A list of data sets with their positions that takes every occurrence once, in due order. -/
structure IsListing (s : Scenario) (os : List Occurrence) : Prop where
  once : (os.map Prod.fst).Nodup
  mem_iff : ∀ p d, (p, d) ∈ os ↔ Occurs s p (.dataSet d)
  /-- A data set that is moved is followed by those that are reached through it. -/
  followed : ∀ p d, (p, d) ∈ os → (∀ i, p ≠ [.plan i]) → ∃ before through after,
    os = before ++ (p, d) :: (through ++ after) ∧ (∀ o ∈ through, p <+: o.1) ∧
      ∀ o ∈ before ++ after, ¬ p <+: o.1
  /-- The data sets of a controller come before those of the controllers in it. -/
  ownFirst : ∀ p i j q r d e, (p ++ .set i :: q, d) ∈ os → (p ++ .step j :: r, e) ∈ os →
    [(p ++ .set i :: q, d), (p ++ .step j :: r, e)].Sublist os

theorem isListing_occurrences (s : Scenario) : IsListing s (occurrences s) where
  once := nodup_positions s
  mem_iff _ _ := mem_occurrences_iff
  followed p d ho hne := by
    have ho := mem_moved_iff.mpr ⟨ho, hne⟩
    obtain ⟨before, through, after, heq, hthrough, hother⟩ := exists_split (ordered_moved s).sorted ho
    obtain ⟨m, q, -, hp⟩ := (ordered_moved s).onward _ ho
    have hp : p = m :: q := hp
    refine ⟨s.dataSets.zipIdx.map (fun x => ([.plan x.2], x.1)) ++ before, through, after, ?_, hthrough, ?_⟩
    · rw [occurrences, heq, List.append_assoc]
    · rw [List.append_assoc, List.forall_mem_append]
      refine ⟨fun o ho hprefix => ?_, hother⟩
      obtain ⟨x, -, rfl⟩ := List.mem_map.mp ho
      have hshort : p = [.plan x.2] := by
        rw [hp] at hprefix ⊢
        obtain ⟨rfl, hq⟩ := List.cons_prefix_cons.mp hprefix
        rw [List.prefix_nil.mp hq]
      exact hne x.2 hshort
  ownFirst p i j q r d e hd he := by
    have hown : ∀ k, p ++ .set i :: q ≠ [.plan k] := by
      intro k h
      cases p <;> simp at h
    have hnested : ∀ k, p ++ .step j :: r ≠ [.plan k] := by
      intro k h
      cases p <;> simp at h
    have hlt : p ++ .set i :: q < p ++ .step j :: r :=
      List.append_left_lt (List.cons_lt_cons_iff.mpr (.inl (Move.set_lt_step i j)))
    have hpair := pair_sublist (ordered_moved s).sorted (mem_moved_iff.mpr ⟨hd, hown⟩)
      (mem_moved_iff.mpr ⟨he, hnested⟩) hlt
    exact hpair.trans (List.sublist_append_right _ _)

/-- A controller with data sets of its own. -/
def holder (name : String) (stack : List Entry) (dataSets : List DataSet) : Entry :=
  .controller ⟨name, .zero, stack, dataSets, [], 0⟩

def namedSet (name : String) (stack : List Entry) : DataSet :=
  { DataSet.standard with name, stack }

/-- Data sets on all the ways there are. -/
def scatteredScenario : Scenario where
  stack :=
    [holder "outer" [holder "inner" [] [namedSet "d" []]]
      [namedSet "a" [.repeated [holder "repeated" [] [namedSet "b" []]]], namedSet "c" []]]
  dataSets := [namedSet "e" [holder "own" [] [namedSet "f" []]]]
  info := []

example : (occurrences scatteredScenario).map (fun o => (o.1, o.2.name)) =
    [([.plan 0], "e"), ([.step 0, .set 0], "a"), ([.step 0, .set 0, .item 0 0, .set 0], "b"),
      ([.step 0, .set 1], "c"), ([.step 0, .step 0, .set 0], "d"),
      ([.plan 0, .step 0, .set 0], "f")] := by
  decide

end LoadPlan.Scenario
