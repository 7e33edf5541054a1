import LoadPlan.Proofs.Jmx.Layout

/-! Steps with repetitions only where they have their place, in data sets, and with shares, loops and data sets
that have given properties. Moving data sets to the top and repeating steps keeps this up. -/
namespace LoadPlan.Scenario

variable (P : Number.Double → Prop) (L : Loop → Prop) (O : DataSet → Prop)

mutual

def Entry.Regular : Entry → Prop
  | .timer _ => True
  | .request _ => True
  | .loop l => L l
  | .controller c => c.Regular
  | .repeated _ => False

def Controller.Regular : Controller → Prop
  | ⟨_, percent, stack, dataSets, _, _⟩ => P percent ∧ RegularSteps stack ∧ RegularSets dataSets

def RegularSteps : List Entry → Prop
  | [] => True
  | e :: es => e.Regular ∧ RegularSteps es

def DataSet.Regular : DataSet → Prop
  | ⟨name, filename, columns, delimiter, recycle, stack, directory, extra, line⟩ =>
    O ⟨name, filename, columns, delimiter, recycle, stack, directory, extra, line⟩ ∧
      RegularWithin stack

def RegularSets : List DataSet → Prop
  | [] => True
  | d :: ds => d.Regular ∧ RegularSets ds

/-- The steps of a data set, which may be repetitions. -/
def RegularWithin : List Entry → Prop
  | [] => True
  | .repeated items :: es => RegularSteps items ∧ RegularWithin es
  | e :: es => e.Regular ∧ RegularWithin es

end

variable {P L O}

theorem regularSteps_iff {es : List Entry} : RegularSteps P L O es ↔ ∀ e ∈ es, e.Regular P L O := by
  induction es with
  | nil => simp [RegularSteps]
  | cons e es ih => rw [RegularSteps, ih, List.forall_mem_cons]

theorem regularSets_iff {ds : List DataSet} : RegularSets P L O ds ↔ ∀ d ∈ ds, d.Regular P L O := by
  induction ds with
  | nil => simp [RegularSets]
  | cons d ds ih => rw [RegularSets, ih, List.forall_mem_cons]

theorem regularSteps_append {a b : List Entry} :
    RegularSteps P L O (a ++ b) ↔ RegularSteps P L O a ∧ RegularSteps P L O b := by
  simp only [regularSteps_iff, List.forall_mem_append]

theorem regularSets_append {a b : List DataSet} :
    RegularSets P L O (a ++ b) ↔ RegularSets P L O a ∧ RegularSets P L O b := by
  simp only [regularSets_iff, List.forall_mem_append]

theorem regularWithin_cons {e : Entry} {es : List Entry} :
    RegularWithin P L O (e :: es) ↔
      (e.Regular P L O ∨ ∃ items, e = .repeated items ∧ RegularSteps P L O items) ∧
        RegularWithin P L O es := by
  cases e with
  | repeated items => simp [RegularWithin, Entry.Regular]
  | _ => simp [RegularWithin]

theorem regularWithin_iff {es : List Entry} :
    RegularWithin P L O es ↔
      ∀ e ∈ es, e.Regular P L O ∨ ∃ items, e = .repeated items ∧ RegularSteps P L O items := by
  induction es with
  | nil => simp [RegularWithin]
  | cons e es ih => rw [regularWithin_cons, ih, List.forall_mem_cons]

theorem dataSet_regular_iff {d : DataSet} : d.Regular P L O ↔ O d ∧ RegularWithin P L O d.stack := by
  obtain ⟨_, _, _, _, _, _, _, _, _⟩ := d
  rw [DataSet.Regular]

/-! Data sets that are moved are as regular as what they came with. -/

mutual

theorem Entry.regular_hoisted : ∀ e : Entry, e.Regular P L O → RegularSets P L O e.hoisted
  | .timer _, _ => trivial
  | .request _, _ => trivial
  | .loop _, _ => trivial
  | .controller c, h => c.regular_hoisted h
  | .repeated _, h => h.elim

theorem Controller.regular_hoisted : ∀ c : Controller, c.Regular P L O → RegularSets P L O c.hoisted
  | ⟨_, _, stack, dataSets, _, _⟩, ⟨_, hs, hd⟩ =>
    regularSets_append.mpr ⟨regular_hoistedWith dataSets hd, regular_hoistedFrom stack hs⟩

theorem regular_hoistedWith : ∀ ds : List DataSet, RegularSets P L O ds →
    RegularSets P L O (hoistedWith ds)
  | [], _ => trivial
  | d :: ds, ⟨hd, hs⟩ =>
    ⟨hd, regularSets_append.mpr ⟨d.regular_hoisted hd, regular_hoistedWith ds hs⟩⟩

theorem regular_hoistedFrom : ∀ es : List Entry, RegularSteps P L O es →
    RegularSets P L O (hoistedFrom es)
  | [], _ => trivial
  | e :: es, ⟨he, hs⟩ =>
    regularSets_append.mpr ⟨e.regular_hoisted he, regular_hoistedFrom es hs⟩

theorem DataSet.regular_hoisted : ∀ d : DataSet, d.Regular P L O → RegularSets P L O d.hoisted
  | ⟨_, _, _, _, _, stack, _, _, _⟩, ⟨_, h⟩ => regular_hoistedWithin stack h

theorem regular_hoistedWithin : ∀ es : List Entry, RegularWithin P L O es →
    RegularSets P L O (hoistedWithin es)
  | [], _ => trivial
  | .repeated items :: es, ⟨hi, hs⟩ =>
    regularSets_append.mpr ⟨regular_hoistedFrom items hi, regular_hoistedWithin es hs⟩
  | .timer _ :: es, ⟨_, hs⟩ => regular_hoistedWithin es hs
  | .request _ :: es, ⟨_, hs⟩ => regular_hoistedWithin es hs
  | .loop _ :: es, ⟨_, hs⟩ => regular_hoistedWithin es hs
  | .controller c :: es, ⟨hc, hs⟩ =>
    regularSets_append.mpr ⟨c.regular_hoisted hc, regular_hoistedWithin es hs⟩

end

/-- What runs with a data set does not hold repetitions any more. -/
theorem regular_running (disk : Storage.Disk) {d : DataSet} (h : d.Regular P L O) :
    RegularSteps P L O (d.running disk) := by
  have hw := regularWithin_iff.mp (dataSet_regular_iff.mp h).2
  rw [regularSteps_iff]
  intro e he
  obtain ⟨x, hx, he⟩ := List.mem_flatMap.mp he
  -- A step runs as it is; of a repetition, the items run as often as the file has lines, or never.
  rcases hw x hx with hx | ⟨items, rfl, hi⟩
  · cases x with
    | repeated items => exact hx.elim
    | _ =>
      rw [List.mem_singleton.mp he]
      exact hx
  · unfold DataSet.expanded at he
    simp only at he
    split at he
    · obtain ⟨l, hl, he⟩ := List.mem_flatten.mp he
      rw [List.eq_of_mem_replicate hl] at he
      exact regularSteps_iff.mp hi e he
    · cases he

end LoadPlan.Scenario

namespace LoadPlan

open LoadPlan.Scenario

variable {P : Number.Double → Prop} {L : Loop → Prop} {O : Scenario.DataSet → Prop} {s : Scenario}

/-- A scenario that is regular throughout. -/
structure Scenario.Regular (P : Number.Double → Prop) (L : Loop → Prop) (O : DataSet → Prop) (s : Scenario) : Prop where
  stack : RegularSteps P L O s.stack
  dataSets : RegularSets P L O s.dataSets

theorem Scenario.Regular.append {t : Scenario} (hs : s.Regular P L O) (ht : t.Regular P L O) :
    (s.append t).Regular P L O :=
  ⟨regularSteps_append.mpr ⟨hs.stack, ht.stack⟩,
    regularSets_append.mpr ⟨hs.dataSets, ht.dataSets⟩⟩

theorem Scenario.Regular.allDataSets (h : s.Regular P L O) : RegularSets P L O s.allDataSets := by
  unfold Scenario.allDataSets Scenario.hoisted
  rw [regularSets_append, regularSets_append]
  refine ⟨h.dataSets, regular_hoistedFrom _ h.stack, ?_⟩
  rw [regularSets_iff]
  intro d hd
  obtain ⟨c, hc, hd⟩ := List.mem_flatMap.mp hd
  exact regularSets_iff.mp (c.regular_hoisted (regularSets_iff.mp h.dataSets c hc)) d hd

end LoadPlan
