import Mathlib.Data.List.Basic
import LoadPlan.Scenario.Collection
import LoadPlan.Scenario.Hoisting

/-! Where data sets occur: in the plan, in its controllers, and in the controllers among the steps of data
sets. Moving them to the top takes what occurs, and nothing else. -/
namespace LoadPlan.Scenario

/-- A move on the way from a plan down to a data set. -/
inductive Move
  /-- To a data set of the plan. -/
  | plan (i : Nat)
  /-- From a controller to a data set of its own. -/
  | set (i : Nat)
  /-- To a controller among the steps. -/
  | step (i : Nat)
  /-- From a data set to a controller among the items of a repetition. -/
  | item (i j : Nat)
  deriving DecidableEq, Repr

/-- The moves from the plan down. -/
abbrev Position := List Move

inductive Occupant
  | controller (c : Controller)
  | dataSet (d : DataSet)

/-- What stands at the positions of a plan. -/
inductive Occurs (s : Scenario) : Position → Occupant → Prop
  | plan {i : Nat} {d : DataSet} : s.dataSets[i]? = some d → Occurs s [.plan i] (.dataSet d)
  | main {i : Nat} {c : Controller} : s.stack[i]? = some (.controller c) →
      Occurs s [.step i] (.controller c)
  | own {p : Position} {c : Controller} {i : Nat} {d : DataSet} : Occurs s p (.controller c) →
      c.dataSets[i]? = some d → Occurs s (p ++ [.set i]) (.dataSet d)
  | nested {p : Position} {c k : Controller} {i : Nat} : Occurs s p (.controller c) →
      c.stack[i]? = some (.controller k) → Occurs s (p ++ [.step i]) (.controller k)
  | step {p : Position} {d : DataSet} {c : Controller} {i : Nat} : Occurs s p (.dataSet d) →
      d.stack[i]? = some (.controller c) → Occurs s (p ++ [.step i]) (.controller c)
  | item {p : Position} {d : DataSet} {items : List Entry} {c : Controller} {i j : Nat} :
      Occurs s p (.dataSet d) → d.stack[i]? = some (.repeated items) →
      items[j]? = some (.controller c) → Occurs s (p ++ [.item i j]) (.controller c)

/-- A data set and where it occurs. -/
abbrev Occurrence := Position × DataSet

mutual

/-- The occurrences below a step at a position. -/
def Entry.occurrences (p : Position) : Entry → List Occurrence
  | .controller c => c.occurrences p
  | _ => []

def Controller.occurrences (p : Position) : Controller → List Occurrence
  | ⟨_, _, stack, dataSets, _, _⟩ => occurrencesWith p 0 dataSets ++ occurrencesFrom p .step 0 stack

/-- Data sets, counted from a number, with the occurrences below them. -/
def occurrencesWith (p : Position) (i : Nat) : List DataSet → List Occurrence
  | [] => []
  | d :: ds =>
    (p ++ [.set i], d) :: (d.occurrences (p ++ [.set i]) ++ occurrencesWith p (i + 1) ds)

/-- The occurrences below steps that are reached by one kind of move. -/
def occurrencesFrom (p : Position) (move : Nat → Move) (i : Nat) : List Entry → List Occurrence
  | [] => []
  | e :: es => e.occurrences (p ++ [move i]) ++ occurrencesFrom p move (i + 1) es

def DataSet.occurrences (p : Position) : DataSet → List Occurrence
  | ⟨_, _, _, _, _, stack, _, _, _⟩ => occurrencesWithin p 0 stack

/-- The occurrences below the steps of a data set, looking into repetitions. -/
def occurrencesWithin (p : Position) (i : Nat) : List Entry → List Occurrence
  | [] => []
  | .repeated items :: es => occurrencesFrom p (.item i) 0 items ++ occurrencesWithin p (i + 1) es
  | e :: es => e.occurrences (p ++ [.step i]) ++ occurrencesWithin p (i + 1) es

end

/-- The occurrences below the data sets of a plan. -/
def occurrencesBelow (i : Nat) : List DataSet → List Occurrence
  | [] => []
  | d :: ds => d.occurrences [.plan i] ++ occurrencesBelow (i + 1) ds

/-- The occurrences that are moved to the top. -/
def moved (s : Scenario) : List Occurrence :=
  occurrencesFrom [] .step 0 s.stack ++ occurrencesBelow 0 s.dataSets

/-- All occurrences. -/
def occurrences (s : Scenario) : List Occurrence :=
  (s.dataSets.zipIdx.map fun x => ([.plan x.2], x.1)) ++ moved s

/-! Without their positions, they are the data sets that are moved. -/

mutual

theorem Entry.map_occurrences : ∀ (p : Position) (e : Entry), (e.occurrences p).map Prod.snd = e.hoisted
  | p, .controller c => c.map_occurrences p
  | _, .timer _ => rfl
  | _, .request _ => rfl
  | _, .loop _ => rfl
  | _, .repeated _ => rfl

theorem Controller.map_occurrences : ∀ (p : Position) (c : Controller),
    (c.occurrences p).map Prod.snd = c.hoisted
  | p, ⟨_, _, stack, dataSets, _, _⟩ => by
    rw [Controller.occurrences, Controller.hoisted, List.map_append, map_occurrencesWith,
      map_occurrencesFrom]

theorem map_occurrencesWith : ∀ (p : Position) (i : Nat) (ds : List DataSet),
    (occurrencesWith p i ds).map Prod.snd = hoistedWith ds
  | _, _, [] => rfl
  | p, i, d :: ds => by
    rw [occurrencesWith, hoistedWith, List.map_cons, List.map_append, d.map_occurrences,
      map_occurrencesWith]

theorem map_occurrencesFrom : ∀ (p : Position) (move : Nat → Move) (i : Nat) (es : List Entry),
    (occurrencesFrom p move i es).map Prod.snd = hoistedFrom es
  | _, _, _, [] => rfl
  | p, move, i, e :: es => by
    rw [occurrencesFrom, hoistedFrom, List.map_append, e.map_occurrences, map_occurrencesFrom]

theorem DataSet.map_occurrences : ∀ (p : Position) (d : DataSet),
    (d.occurrences p).map Prod.snd = d.hoisted
  | p, ⟨_, _, _, _, _, stack, _, _, _⟩ => map_occurrencesWithin p 0 stack

theorem map_occurrencesWithin : ∀ (p : Position) (i : Nat) (es : List Entry),
    (occurrencesWithin p i es).map Prod.snd = hoistedWithin es
  | _, _, [] => rfl
  | p, i, .repeated items :: es => by
    rw [occurrencesWithin, hoistedWithin, List.map_append, map_occurrencesFrom, map_occurrencesWithin]
  | p, i, .controller c :: es => by
    have hc := Entry.map_occurrences (p ++ [.step i]) (.controller c)
    rw [occurrencesWithin, hoistedWithin, List.map_append, hc, map_occurrencesWithin]
    · intro items he
      cases he
    · intro items he
      cases he
  | p, i, .timer _ :: es => map_occurrencesWithin p (i + 1) es
  | p, i, .request _ :: es => map_occurrencesWithin p (i + 1) es
  | p, i, .loop _ :: es => map_occurrencesWithin p (i + 1) es

end

theorem map_occurrencesBelow (i : Nat) (ds : List DataSet) :
    (occurrencesBelow i ds).map Prod.snd = ds.flatMap DataSet.hoisted := by
  induction ds generalizing i with
  | nil => rfl
  | cons d ds ih => rw [occurrencesBelow, List.map_append, d.map_occurrences, ih, List.flatMap_cons]

theorem map_occurrences (s : Scenario) :
    (occurrences s).map Prod.snd = s.dataSets ++ hoisted s.stack s.dataSets := by
  have htop : (s.dataSets.zipIdx.map fun x => (([.plan x.2], x.1) : Occurrence)).map Prod.snd =
      s.dataSets := by
    rw [List.map_map]
    exact List.zipIdx_map_fst 0 s.dataSets
  rw [occurrences, moved, List.map_append, List.map_append, map_occurrencesFrom, map_occurrencesBelow,
    htop]
  rfl

/-! What is listed occurs. -/

/-- The elements of a list, counted from a number, have a property together with their numbers. -/
def Numbered {α : Type} (P : Nat → α → Prop) (i : Nat) (xs : List α) : Prop :=
  ∀ k x, xs[k]? = some x → P (i + k) x

theorem numbered_cons {α : Type} {P : Nat → α → Prop} {i : Nat} {x : α} {xs : List α} :
    Numbered P i (x :: xs) ↔ P i x ∧ Numbered P (i + 1) xs := by
  constructor
  · intro h
    refine ⟨h 0 x rfl, fun k y hy => ?_⟩
    have hk : i + 1 + k = i + (k + 1) := by omega
    rw [hk]
    exact h (k + 1) y hy
  · rintro ⟨hx, hxs⟩ k y hy
    cases k with
    | zero =>
      cases hy
      exact hx
    | succ k =>
      have hk : i + (k + 1) = i + 1 + k := by omega
      rw [hk]
      exact hxs k y hy

variable {s : Scenario}

/-- If a step is a controller, it stands at a position. -/
def Entry.StandsAt (s : Scenario) (p : Position) (e : Entry) : Prop :=
  ∀ c, e = .controller c → Occurs s p (.controller c)

/-- All of these occur. -/
abbrev AllOccur (s : Scenario) (os : List Occurrence) : Prop :=
  ∀ o ∈ os, Occurs s o.1 (.dataSet o.2)

mutual

theorem Entry.occurrences_occur : ∀ (p : Position) (e : Entry), e.StandsAt s p →
    AllOccur s (e.occurrences p)
  | p, .controller c, h => c.occurrences_occur p (h c rfl)
  | _, .timer _, _ => List.forall_mem_nil _
  | _, .request _, _ => List.forall_mem_nil _
  | _, .loop _, _ => List.forall_mem_nil _
  | _, .repeated _, _ => List.forall_mem_nil _

theorem Controller.occurrences_occur : ∀ (p : Position) (c : Controller), Occurs s p (.controller c) →
    AllOccur s (c.occurrences p)
  | p, ⟨name, percent, stack, dataSets, extra, line⟩, h => by
    have hown := occurrencesWith_occur p 0 dataSets fun k d hd => by
      rw [Nat.zero_add]
      exact h.own hd
    have hnested := occurrencesFrom_occur p .step 0 stack fun k e he c hc => by
      rw [Nat.zero_add]
      exact h.nested (hc ▸ he)
    exact List.forall_mem_append.mpr ⟨hown, hnested⟩

theorem occurrencesWith_occur : ∀ (p : Position) (i : Nat) (ds : List DataSet),
    Numbered (fun k d => Occurs s (p ++ [.set k]) (.dataSet d)) i ds → AllOccur s (occurrencesWith p i ds)
  | _, _, [], _ => List.forall_mem_nil _
  | p, i, d :: ds, h => by
    obtain ⟨hd, hds⟩ := numbered_cons.mp h
    have hbelow := d.occurrences_occur (p ++ [.set i]) hd
    have hrest := occurrencesWith_occur p (i + 1) ds hds
    exact List.forall_mem_cons.mpr ⟨hd, List.forall_mem_append.mpr ⟨hbelow, hrest⟩⟩

theorem occurrencesFrom_occur : ∀ (p : Position) (move : Nat → Move) (i : Nat) (es : List Entry),
    Numbered (fun k e => e.StandsAt s (p ++ [move k])) i es → AllOccur s (occurrencesFrom p move i es)
  | _, _, _, [], _ => List.forall_mem_nil _
  | p, move, i, e :: es, h => by
    obtain ⟨he, hes⟩ := numbered_cons.mp h
    have hrest := occurrencesFrom_occur p move (i + 1) es hes
    exact List.forall_mem_append.mpr ⟨e.occurrences_occur (p ++ [move i]) he, hrest⟩

theorem DataSet.occurrences_occur : ∀ (p : Position) (d : DataSet), Occurs s p (.dataSet d) →
    AllOccur s (d.occurrences p)
  | p, ⟨name, filename, columns, delimiter, recycle, stack, directory, extra, line⟩, h => by
    refine occurrencesWithin_occur p 0 stack fun k e he => ⟨fun c hc => ?_, ?_⟩
    · rw [Nat.zero_add]
      exact h.step (hc ▸ he)
    · intro items hi j x hx c hc
      rw [Nat.zero_add, Nat.zero_add]
      exact h.item (hi ▸ he) (hc ▸ hx)

theorem occurrencesWithin_occur : ∀ (p : Position) (i : Nat) (es : List Entry),
    Numbered (fun k e => e.StandsAt s (p ++ [.step k]) ∧ ∀ items, e = .repeated items →
      Numbered (fun j x => x.StandsAt s (p ++ [.item k j])) 0 items) i es →
    AllOccur s (occurrencesWithin p i es)
  | _, _, [], _ => List.forall_mem_nil _
  | p, i, .repeated items :: es, h => by
    obtain ⟨⟨-, hi⟩, hes⟩ := numbered_cons.mp h
    have hitems := occurrencesFrom_occur p (.item i) 0 items (hi items rfl)
    exact List.forall_mem_append.mpr ⟨hitems, occurrencesWithin_occur p (i + 1) es hes⟩
  | p, i, .controller c :: es, h => by
    obtain ⟨⟨hc, -⟩, hes⟩ := numbered_cons.mp h
    have hbelow := c.occurrences_occur (p ++ [.step i]) (hc c rfl)
    exact List.forall_mem_append.mpr ⟨hbelow, occurrencesWithin_occur p (i + 1) es hes⟩
  | p, i, .timer _ :: es, h => occurrencesWithin_occur p (i + 1) es (numbered_cons.mp h).2
  | p, i, .request _ :: es, h => occurrencesWithin_occur p (i + 1) es (numbered_cons.mp h).2
  | p, i, .loop _ :: es, h => occurrencesWithin_occur p (i + 1) es (numbered_cons.mp h).2

end

theorem occurrencesBelow_occur (i : Nat) (ds : List DataSet)
    (h : Numbered (fun k d => Occurs s [.plan k] (.dataSet d)) i ds) :
    AllOccur s (occurrencesBelow i ds) := by
  induction ds generalizing i with
  | nil => exact List.forall_mem_nil _
  | cons d ds ih =>
    obtain ⟨hd, hds⟩ := numbered_cons.mp h
    exact List.forall_mem_append.mpr ⟨d.occurrences_occur [.plan i] hd, ih (i + 1) hds⟩

theorem occurrences_occur (s : Scenario) : AllOccur s (occurrences s) := by
  have htop : AllOccur s (s.dataSets.zipIdx.map fun x => ([.plan x.2], x.1)) := by
    intro o ho
    obtain ⟨x, hx, rfl⟩ := List.mem_map.mp ho
    exact .plan (List.mem_zipIdx_iff_getElem?.mp hx)
  have hmain := occurrencesFrom_occur [] .step 0 s.stack fun k e he c hc => by
    rw [Nat.zero_add]
    exact Occurs.main (hc ▸ he)
  have hbelow := occurrencesBelow_occur 0 s.dataSets fun k d hd => by
    rw [Nat.zero_add]
    exact Occurs.plan hd
  exact List.forall_mem_append.mpr ⟨htop, List.forall_mem_append.mpr ⟨hmain, hbelow⟩⟩

/-! What occurs is listed. -/

theorem subset_of_occurrencesWith {p : Position} {i : Nat} {ds : List DataSet} {l : List Occurrence}
    (h : occurrencesWith p i ds ⊆ l) :
    Numbered (fun k d => (p ++ [.set k], d) :: d.occurrences (p ++ [.set k]) ⊆ l) i ds := by
  induction ds generalizing i with
  | nil => exact fun k d hd => by cases hd
  | cons d ds ih =>
    rw [occurrencesWith, ← List.cons_append, List.append_subset] at h
    exact numbered_cons.mpr ⟨h.1, ih h.2⟩

theorem subset_of_occurrencesFrom {p : Position} {move : Nat → Move} {i : Nat} {es : List Entry}
    {l : List Occurrence} (h : occurrencesFrom p move i es ⊆ l) :
    Numbered (fun k e => e.occurrences (p ++ [move k]) ⊆ l) i es := by
  induction es generalizing i with
  | nil => exact fun k e he => by cases he
  | cons e es ih =>
    rw [occurrencesFrom, List.append_subset] at h
    exact numbered_cons.mpr ⟨h.1, ih h.2⟩

theorem subset_of_occurrencesWithin {p : Position} {i : Nat} {es : List Entry} {l : List Occurrence}
    (h : occurrencesWithin p i es ⊆ l) :
    Numbered (fun k e => e.occurrences (p ++ [.step k]) ⊆ l ∧ ∀ items, e = .repeated items →
      occurrencesFrom p (.item k) 0 items ⊆ l) i es := by
  induction es generalizing i with
  | nil => exact fun k e he => by cases he
  | cons e es ih =>
    cases e with
    | repeated items =>
      rw [occurrencesWithin, List.append_subset] at h
      refine numbered_cons.mpr ⟨⟨List.nil_subset l, ?_⟩, ih h.2⟩
      rintro _ ⟨⟩
      exact h.1
    | _ =>
      rw [occurrencesWithin, List.append_subset] at h
      · refine numbered_cons.mpr ⟨⟨h.1, ?_⟩, ih h.2⟩
        rintro _ ⟨⟩
      · rintro _ ⟨⟩

theorem subset_of_occurrencesBelow {i : Nat} {ds : List DataSet} {l : List Occurrence}
    (h : occurrencesBelow i ds ⊆ l) : Numbered (fun k d => d.occurrences [.plan k] ⊆ l) i ds := by
  induction ds generalizing i with
  | nil => exact fun k d hd => by cases hd
  | cons d ds ih =>
    rw [occurrencesBelow, List.append_subset] at h
    exact numbered_cons.mpr ⟨h.1, ih h.2⟩

/-- What occurs at a position and below it. -/
def Occupant.occurrences (p : Position) : Occupant → List Occurrence
  | .controller c => c.occurrences p
  | .dataSet d => (p, d) :: d.occurrences p

theorem Controller.occurrences_eq (p : Position) (c : Controller) :
    c.occurrences p = occurrencesWith p 0 c.dataSets ++ occurrencesFrom p .step 0 c.stack := by
  obtain ⟨_, _, _, _, _, _⟩ := c
  rw [Controller.occurrences]

theorem DataSet.occurrences_eq (p : Position) (d : DataSet) :
    d.occurrences p = occurrencesWithin p 0 d.stack := by
  obtain ⟨_, _, _, _, _, _, _, _, _⟩ := d
  rw [DataSet.occurrences]

theorem Occurs.subset {p : Position} {x : Occupant} (h : Occurs s p x) :
    x.occurrences p ⊆ Scenario.occurrences s := by
  have hmoved : moved s ⊆ Scenario.occurrences s := List.subset_append_right _ _
  have hmain := subset_of_occurrencesFrom (List.Subset.trans (List.subset_append_left _ _) hmoved)
  have hbelow := subset_of_occurrencesBelow (List.Subset.trans (List.subset_append_right _ _) hmoved)
  induction h with
  | @plan i d hd =>
    have hd' := hbelow i d hd
    rw [Nat.zero_add] at hd'
    refine List.cons_subset.mpr ⟨?_, hd'⟩
    refine List.mem_append_left _ (List.mem_map.mpr ⟨(d, i), ?_, rfl⟩)
    exact List.mem_zipIdx_iff_getElem?.mpr hd
  | @main i c hc =>
    have hc' := hmain i _ hc
    rwa [Nat.zero_add] at hc'
  | @own p c i d _ hd ih =>
    rw [Occupant.occurrences, c.occurrences_eq, List.append_subset] at ih
    have hd' := subset_of_occurrencesWith ih.1 i d hd
    rwa [Nat.zero_add] at hd'
  | @nested p c k i _ hk ih =>
    rw [Occupant.occurrences, c.occurrences_eq, List.append_subset] at ih
    have hk' := subset_of_occurrencesFrom ih.2 i _ hk
    rwa [Nat.zero_add] at hk'
  | @step p d c i _ hc ih =>
    rw [Occupant.occurrences, d.occurrences_eq, List.cons_subset] at ih
    have hc' := (subset_of_occurrencesWithin ih.2 i _ hc).1
    rwa [Nat.zero_add] at hc'
  | @item p d items c i j _ hi hc ih =>
    rw [Occupant.occurrences, d.occurrences_eq, List.cons_subset] at ih
    have hi' := (subset_of_occurrencesWithin ih.2 i _ hi).2 items rfl
    rw [Nat.zero_add] at hi'
    have hc' := subset_of_occurrencesFrom hi' j _ hc
    rwa [Nat.zero_add] at hc'

/-- The list holds what occurs and nothing else. -/
theorem mem_occurrences_iff {p : Position} {d : DataSet} :
    (p, d) ∈ occurrences s ↔ Occurs s p (.dataSet d) :=
  ⟨occurrences_occur s (p, d), fun h => h.subset List.mem_cons_self⟩

end LoadPlan.Scenario
