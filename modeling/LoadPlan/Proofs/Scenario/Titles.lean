import LoadPlan.Proofs.Scenario.Course

/-! The names of controllers apart from all else in the records. Records are put together again from both:
what is the same without names, with the same names in the same order, is the same. -/
namespace LoadPlan.Scenario

/-- The name of a controller and the line it is described in. -/
abbrev Title := String × Nat

mutual

/-- A step without the names of the controllers in it. -/
def Entry.untitled : Entry → Entry
  | .controller c => .controller c.untitled
  | .repeated items => .repeated (untitledSteps items)
  | .timer t => .timer t
  | .request r => .request r
  | .loop l => .loop l

def Controller.untitled : Controller → Controller
  | ⟨_, percent, stack, dataSets, extra, line⟩ =>
    ⟨"", percent, untitledSteps stack, untitledSets dataSets, extra, line⟩

def untitledSteps : List Entry → List Entry
  | [] => []
  | e :: es => e.untitled :: untitledSteps es

def DataSet.untitled : DataSet → DataSet
  | ⟨name, filename, columns, delimiter, recycle, stack, directory, extra, line⟩ =>
    ⟨name, filename, columns, delimiter, recycle, untitledSteps stack, directory, extra, line⟩

def untitledSets : List DataSet → List DataSet
  | [] => []
  | d :: ds => d.untitled :: untitledSets ds

end

mutual

/-- The titles of the controllers in a step, each one before those of the controllers in it. -/
def Entry.titles : Entry → List Title
  | .controller c => c.titles
  | .repeated items => titlesOfSteps items
  | _ => []

def Controller.titles : Controller → List Title
  | ⟨name, _, stack, dataSets, _, line⟩ => (name, line) :: (titlesOfSteps stack ++ titlesOfSets dataSets)

def titlesOfSteps : List Entry → List Title
  | [] => []
  | e :: es => e.titles ++ titlesOfSteps es

def DataSet.titles : DataSet → List Title
  | ⟨_, _, _, _, _, stack, _, _, _⟩ => titlesOfSteps stack

def titlesOfSets : List DataSet → List Title
  | [] => []
  | d :: ds => d.titles ++ titlesOfSets ds

end

theorem untitledSteps_append (a b : List Entry) :
    untitledSteps (a ++ b) = untitledSteps a ++ untitledSteps b := by
  induction a with
  | nil => rfl
  | cons e es ih => rw [List.cons_append, untitledSteps, ih, untitledSteps, List.cons_append]

theorem untitledSets_append (a b : List DataSet) :
    untitledSets (a ++ b) = untitledSets a ++ untitledSets b := by
  induction a with
  | nil => rfl
  | cons d ds ih => rw [List.cons_append, untitledSets, ih, untitledSets, List.cons_append]

theorem titlesOfSteps_append (a b : List Entry) :
    titlesOfSteps (a ++ b) = titlesOfSteps a ++ titlesOfSteps b := by
  induction a with
  | nil => rfl
  | cons e es ih => rw [List.cons_append, titlesOfSteps, ih, titlesOfSteps, List.append_assoc]

theorem titlesOfSets_append (a b : List DataSet) :
    titlesOfSets (a ++ b) = titlesOfSets a ++ titlesOfSets b := by
  induction a with
  | nil => rfl
  | cons d ds ih => rw [List.cons_append, titlesOfSets, ih, titlesOfSets, List.append_assoc]

/-! Without names there are as many titles. -/

mutual

theorem Entry.length_titles_untitled : ∀ e : Entry, e.untitled.titles.length = e.titles.length
  | .timer _ => rfl
  | .request _ => rfl
  | .loop _ => rfl
  | .controller c => c.length_titles_untitled
  | .repeated items => length_titlesOfSteps_untitled items

theorem Controller.length_titles_untitled : ∀ c : Controller,
    c.untitled.titles.length = c.titles.length
  | ⟨_, _, stack, dataSets, _, _⟩ => by
    rw [Controller.untitled, Controller.titles, Controller.titles, List.length_cons, List.length_cons,
      List.length_append, List.length_append, length_titlesOfSteps_untitled stack,
      length_titlesOfSets_untitled dataSets]

theorem length_titlesOfSteps_untitled : ∀ es : List Entry,
    (titlesOfSteps (untitledSteps es)).length = (titlesOfSteps es).length
  | [] => rfl
  | e :: es => by
    rw [untitledSteps, titlesOfSteps, titlesOfSteps, List.length_append, List.length_append,
      e.length_titles_untitled, length_titlesOfSteps_untitled es]

theorem DataSet.length_titles_untitled : ∀ d : DataSet, d.untitled.titles.length = d.titles.length
  | ⟨_, _, _, _, _, stack, _, _, _⟩ => length_titlesOfSteps_untitled stack

theorem length_titlesOfSets_untitled : ∀ ds : List DataSet,
    (titlesOfSets (untitledSets ds)).length = (titlesOfSets ds).length
  | [] => rfl
  | d :: ds => by
    rw [untitledSets, titlesOfSets, titlesOfSets, List.length_append, List.length_append,
      d.length_titles_untitled, length_titlesOfSets_untitled ds]

end

mutual

/-- A step is what it is without names and the names in it. -/
theorem Entry.eq_of_untitled : ∀ e e' : Entry, e.untitled = e'.untitled → e.titles = e'.titles → e = e'
  | .controller c, .controller c', hu, ht => by
    rw [c.eq_of_untitled c' (Entry.controller.inj hu) ht]
  | .repeated items, .repeated items', hu, ht => by
    rw [steps_eq_of_untitled items items' (Entry.repeated.inj hu) ht]
  | .timer _, .timer _, hu, _ => hu
  | .request _, .request _, hu, _ => hu
  | .loop _, .loop _, hu, _ => hu

theorem Controller.eq_of_untitled : ∀ c c' : Controller, c.untitled = c'.untitled →
    c.titles = c'.titles → c = c'
  | ⟨name, percent, stack, dataSets, extra, line⟩, ⟨name', percent', stack', dataSets', extra', line'⟩,
    hu, ht => by
    simp only [Controller.untitled, Controller.mk.injEq, true_and] at hu
    obtain ⟨rfl, hstack, hsets, rfl, rfl⟩ := hu
    simp only [Controller.titles, List.cons.injEq, Prod.mk.injEq, and_true] at ht
    obtain ⟨rfl, ht⟩ := ht
    have hlength : (titlesOfSteps stack).length = (titlesOfSteps stack').length := by
      rw [← length_titlesOfSteps_untitled stack, hstack, length_titlesOfSteps_untitled stack']
    obtain ⟨hsteps, ht⟩ := List.append_inj ht hlength
    rw [steps_eq_of_untitled stack stack' hstack hsteps, sets_eq_of_untitled dataSets dataSets' hsets ht]

theorem steps_eq_of_untitled : ∀ es es' : List Entry, untitledSteps es = untitledSteps es' →
    titlesOfSteps es = titlesOfSteps es' → es = es'
  | [], [], _, _ => rfl
  | e :: es, e' :: es', hu, ht => by
    obtain ⟨he, hes⟩ := List.cons.inj hu
    have hlength : e.titles.length = e'.titles.length := by
      rw [← e.length_titles_untitled, he, e'.length_titles_untitled]
    obtain ⟨hte, htes⟩ := List.append_inj ht hlength
    rw [e.eq_of_untitled e' he hte, steps_eq_of_untitled es es' hes htes]

theorem DataSet.eq_of_untitled : ∀ d d' : DataSet, d.untitled = d'.untitled → d.titles = d'.titles →
    d = d'
  | ⟨name, filename, columns, delimiter, recycle, stack, directory, extra, line⟩,
    ⟨name', filename', columns', delimiter', recycle', stack', directory', extra', line'⟩, hu, ht => by
    simp only [DataSet.untitled, DataSet.mk.injEq] at hu
    obtain ⟨rfl, rfl, rfl, rfl, rfl, hstack, rfl, rfl, rfl⟩ := hu
    rw [steps_eq_of_untitled stack stack' hstack ht]

theorem sets_eq_of_untitled : ∀ ds ds' : List DataSet, untitledSets ds = untitledSets ds' →
    titlesOfSets ds = titlesOfSets ds' → ds = ds'
  | [], [], _, _ => rfl
  | d :: ds, d' :: ds', hu, ht => by
    obtain ⟨hd, hds⟩ := List.cons.inj hu
    have hlength : d.titles.length = d'.titles.length := by
      rw [← d.length_titles_untitled, hd, d'.length_titles_untitled]
    obtain ⟨htd, htds⟩ := List.append_inj ht hlength
    rw [d.eq_of_untitled d' hd htd, sets_eq_of_untitled ds ds' hds htds]

end

/-- What can be looked at without its names, and by its names alone: those among its steps and those among
its data sets. -/
class Titled (α : Type) where
  untitled : α → α
  inSteps : α → List Title
  inSets : α → List Title

open Titled (untitled inSteps inSets)

instance : Titled Parts :=
  ⟨fun r => (untitledSteps r.1, untitledSets r.2), fun r => titlesOfSteps r.1, fun r => titlesOfSets r.2⟩

instance : Titled (List Entry) := ⟨untitledSteps, titlesOfSteps, fun _ => []⟩

instance : Titled Entry := ⟨Entry.untitled, Entry.titles, fun _ => []⟩

instance : Titled (Option Entry) :=
  ⟨Option.map Entry.untitled, fun o => titlesOfSteps o.toList, fun _ => []⟩

instance : Titled Controller := ⟨Controller.untitled, Controller.titles, fun _ => []⟩

instance : Titled DataSet := ⟨DataSet.untitled, fun _ => [], DataSet.titles⟩

instance : Titled Scenario :=
  ⟨fun s => ⟨untitledSteps s.stack, untitledSets s.dataSets, s.info⟩, fun s => titlesOfSteps s.stack,
    fun s => titlesOfSets s.dataSets⟩

/-- What is collected is what it is without names and the names in it. -/
theorem eq_of_untitled {s t : Scenario} (hu : untitled s = untitled t) (hsteps : inSteps s = inSteps t)
    (hsets : inSets s = inSets t) : s = t := by
  obtain ⟨stack, dataSets, info⟩ := s
  obtain ⟨stack', dataSets', info'⟩ := t
  obtain ⟨hstack, hdata, rfl⟩ := Scenario.mk.inj hu
  rw [steps_eq_of_untitled stack stack' hstack hsteps, sets_eq_of_untitled dataSets dataSets' hdata hsets]

end LoadPlan.Scenario
