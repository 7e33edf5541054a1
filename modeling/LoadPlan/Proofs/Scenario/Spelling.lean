import LoadPlan.Proofs.Jmx.Layout
import LoadPlan.Proofs.Markup.Scanning

/-! The strings of what is to be run. Moving data sets to the top and repeating steps brings in no others. -/
namespace LoadPlan

/-- The values of fields have a property. -/
def Fields.Spelled (C : String → Prop) (fs : Fields) : Prop :=
  ∀ f ∈ fs, C f.2

namespace Fields

variable {C : String → Prop} {fs : Fields}

theorem Spelled.set (h : fs.Spelled C) (name : String) {value : String} (hv : C value) :
    (fs.set name value).Spelled C := by
  induction fs with
  | nil => exact List.forall_mem_singleton.mpr hv
  | cons f fs ih =>
    obtain ⟨n, v⟩ := f
    obtain ⟨hf, hfs⟩ := List.forall_mem_cons.mp h
    rw [Fields.set]
    split
    · exact List.forall_mem_cons.mpr ⟨hv, hfs⟩
    · exact List.forall_mem_cons.mpr ⟨hf, ih hfs⟩

theorem Spelled.foldl {α : Type} (name value : α → String) {xs : List α} (h : fs.Spelled C)
    (hx : ∀ x ∈ xs, C (value x)) : (xs.foldl (fun fs x => fs.set (name x) (value x)) fs).Spelled C := by
  induction xs generalizing fs with
  | nil => exact h
  | cons x xs ih =>
    obtain ⟨hx, hxs⟩ := List.forall_mem_cons.mp hx
    exact ih (h.set (name x) hx) hxs

theorem spelled_ofPairs {pairs : List (String × String)} (h : ∀ p ∈ pairs, C p.2) :
    (ofPairs pairs).Spelled C :=
  Spelled.foldl Prod.fst Prod.snd (List.forall_mem_nil _) h

theorem Spelled.mono {D : String → Prop} (h : fs.Spelled C) (hD : ∀ {x}, C x → D x) : fs.Spelled D :=
  fun f hf => hD (h f hf)

theorem Spelled.get? {name value : String} (h : fs.Spelled C) (hg : fs.get? name = some value) :
    C value :=
  h _ (Markup.mem_of_lookup hg)

theorem Spelled.getD {name fallback : String} (h : fs.Spelled C) (hf : C fallback) :
    C (fs.getD name fallback) := by
  unfold Fields.getD
  cases hg : fs.get? name with
  | none => exact hf
  | some value => exact h.get? hg

end Fields

end LoadPlan

namespace LoadPlan.Scenario

def Timer.strings (t : Timer) : List String :=
  [t.name, t.delay, t.range]

/-- The type of an extractor is not written as it is. -/
def Extractor.strings (e : Extractor) : List String :=
  [e.name, e.reference, e.expression, e.template, e.fallback, e.matchNumber]

def Assertion.strings (a : Assertion) : List String :=
  a.name :: a.literals

def Upload.strings (u : Upload) : List String :=
  [u.filename, u.parameter, u.mimeType]

def Results.strings (r : Results) : List String :=
  [r.file, r.name, r.type]

namespace Request

/-- The strings of the parts that go below a sampler. -/
def partStrings (r : Request) : List String :=
  r.extractors.flatMap Extractor.strings ++ r.timers.flatMap Timer.strings ++
    r.assertions.flatMap Assertion.strings ++ r.results.toList.flatMap Results.strings

def strings (r : Request) : List String :=
  [r.name, r.domain, r.path, r.method, r.port, r.protocol] ++
    r.pairs.flatMap (fun p => [p.1, p.2]) ++ r.upload.toList.flatMap Upload.strings ++ r.partStrings

end Request

def Loop.strings (l : Loop) : List String :=
  l.name :: l.tests.flatMap Request.strings

/-- The strings of a data set itself, without its delimiter. -/
def DataSet.strings (d : DataSet) : List String :=
  [d.name, d.filename, d.columns]

variable (C D : String → Prop)

mutual

/-- All strings have one property, and all delimiters of data sets another. -/
def Entry.Spelled : Entry → Prop
  | .timer t => ∀ x ∈ t.strings, C x
  | .request r => ∀ x ∈ r.strings, C x
  | .loop l => ∀ x ∈ l.strings, C x
  | .controller c => c.Spelled
  | .repeated items => SpelledSteps items

def Controller.Spelled : Controller → Prop
  | ⟨name, _, stack, dataSets, _, _⟩ => C name ∧ SpelledSteps stack ∧ SpelledSets dataSets

def SpelledSteps : List Entry → Prop
  | [] => True
  | e :: es => e.Spelled ∧ SpelledSteps es

def DataSet.Spelled : DataSet → Prop
  | ⟨name, filename, columns, delimiter, _, stack, _, _, _⟩ =>
    C name ∧ C filename ∧ C columns ∧ D delimiter ∧ SpelledSteps stack

def SpelledSets : List DataSet → Prop
  | [] => True
  | d :: ds => d.Spelled ∧ SpelledSets ds

end

variable {C D}

theorem spelledSteps_iff {es : List Entry} : SpelledSteps C D es ↔ ∀ e ∈ es, e.Spelled C D := by
  induction es with
  | nil => simp [SpelledSteps]
  | cons e es ih => rw [SpelledSteps, ih, List.forall_mem_cons]

theorem spelledSets_iff {ds : List DataSet} : SpelledSets C D ds ↔ ∀ d ∈ ds, d.Spelled C D := by
  induction ds with
  | nil => simp [SpelledSets]
  | cons d ds ih => rw [SpelledSets, ih, List.forall_mem_cons]

theorem spelledSteps_append {a b : List Entry} :
    SpelledSteps C D (a ++ b) ↔ SpelledSteps C D a ∧ SpelledSteps C D b := by
  simp only [spelledSteps_iff, List.forall_mem_append]

theorem spelledSets_append {a b : List DataSet} :
    SpelledSets C D (a ++ b) ↔ SpelledSets C D a ∧ SpelledSets C D b := by
  simp only [spelledSets_iff, List.forall_mem_append]

theorem dataSet_spelled_iff {d : DataSet} :
    d.Spelled C D ↔ (∀ x ∈ d.strings, C x) ∧ D d.delimiter ∧ SpelledSteps C D d.stack := by
  obtain ⟨_, _, _, _, _, _, _, _, _⟩ := d
  simp [DataSet.Spelled, DataSet.strings, and_assoc]

/-- What every string is. -/
abbrev Any : String → Prop := fun _ => True

mutual

theorem Entry.spelled_any : ∀ e : Entry, e.Spelled Any Any
  | .timer _ => fun _ _ => trivial
  | .request _ => fun _ _ => trivial
  | .loop _ => fun _ _ => trivial
  | .controller c => c.spelled_any
  | .repeated items => spelledSteps_any items

theorem Controller.spelled_any : ∀ c : Controller, c.Spelled Any Any
  | ⟨_, _, stack, dataSets, _, _⟩ => ⟨trivial, spelledSteps_any stack, spelledSets_any dataSets⟩

theorem spelledSteps_any : ∀ es : List Entry, SpelledSteps Any Any es
  | [] => trivial
  | e :: es => ⟨e.spelled_any, spelledSteps_any es⟩

theorem DataSet.spelled_any : ∀ d : DataSet, d.Spelled Any Any
  | ⟨_, _, _, _, _, stack, _, _, _⟩ => ⟨trivial, trivial, trivial, trivial, spelledSteps_any stack⟩

theorem spelledSets_any : ∀ ds : List DataSet, SpelledSets Any Any ds
  | [] => trivial
  | d :: ds => ⟨d.spelled_any, spelledSets_any ds⟩

end

/-! Data sets that are moved. -/

mutual

theorem Entry.spelled_hoisted : ∀ e : Entry, e.Spelled C D → SpelledSets C D e.hoisted
  | .timer _, _ => trivial
  | .request _, _ => trivial
  | .loop _, _ => trivial
  | .controller c, h => c.spelled_hoisted h
  | .repeated _, _ => trivial

theorem Controller.spelled_hoisted : ∀ c : Controller, c.Spelled C D → SpelledSets C D c.hoisted
  | ⟨_, _, stack, dataSets, _, _⟩, ⟨_, hs, hd⟩ =>
    spelledSets_append.mpr ⟨spelled_hoistedWith dataSets hd, spelled_hoistedFrom stack hs⟩

theorem spelled_hoistedWith : ∀ ds : List DataSet, SpelledSets C D ds → SpelledSets C D (hoistedWith ds)
  | [], _ => trivial
  | d :: ds, ⟨hd, hs⟩ =>
    ⟨hd, spelledSets_append.mpr ⟨d.spelled_hoisted hd, spelled_hoistedWith ds hs⟩⟩

theorem spelled_hoistedFrom : ∀ es : List Entry, SpelledSteps C D es → SpelledSets C D (hoistedFrom es)
  | [], _ => trivial
  | e :: es, ⟨he, hs⟩ => spelledSets_append.mpr ⟨e.spelled_hoisted he, spelled_hoistedFrom es hs⟩

theorem DataSet.spelled_hoisted : ∀ d : DataSet, d.Spelled C D → SpelledSets C D d.hoisted
  | ⟨_, _, _, _, _, stack, _, _, _⟩, ⟨_, _, _, _, h⟩ => spelled_hoistedWithin stack h

theorem spelled_hoistedWithin : ∀ es : List Entry, SpelledSteps C D es →
    SpelledSets C D (hoistedWithin es)
  | [], _ => trivial
  | .repeated items :: es, ⟨hi, hs⟩ =>
    spelledSets_append.mpr ⟨spelled_hoistedFrom items hi, spelled_hoistedWithin es hs⟩
  | .timer _ :: es, ⟨_, hs⟩ => spelled_hoistedWithin es hs
  | .request _ :: es, ⟨_, hs⟩ => spelled_hoistedWithin es hs
  | .loop _ :: es, ⟨_, hs⟩ => spelled_hoistedWithin es hs
  | .controller c :: es, ⟨hc, hs⟩ =>
    spelledSets_append.mpr ⟨c.spelled_hoisted hc, spelled_hoistedWithin es hs⟩

end

theorem spelled_running (disk : Storage.Disk) {d : DataSet} (h : SpelledSteps C D d.stack) :
    SpelledSteps C D (d.running disk) := by
  rw [spelledSteps_iff] at h ⊢
  intro e he
  obtain ⟨x, hx, he⟩ := List.mem_flatMap.mp he
  cases x with
  | repeated items =>
    unfold DataSet.expanded at he
    simp only at he
    split at he
    · obtain ⟨l, hl, he⟩ := List.mem_flatten.mp he
      rw [List.eq_of_mem_replicate hl] at he
      exact spelledSteps_iff.mp (h _ hx) e he
    · cases he
  | _ =>
    rw [List.mem_singleton.mp he]
    exact h _ hx

end LoadPlan.Scenario

namespace LoadPlan

open LoadPlan.Scenario

variable {C D : String → Prop} {s t : Scenario}

/-- The strings of a scenario; what is said of the plan as a whole are strings too. -/
structure Scenario.Spelled (C D : String → Prop) (s : Scenario) : Prop where
  stack : SpelledSteps C D s.stack
  dataSets : SpelledSets C D s.dataSets
  info : ∀ f ∈ s.info, C f.2

theorem Scenario.Spelled.allDataSets (h : s.Spelled C D) : SpelledSets C D s.allDataSets := by
  unfold Scenario.allDataSets Scenario.hoisted
  rw [spelledSets_append, spelledSets_append]
  refine ⟨h.dataSets, spelled_hoistedFrom _ h.stack, ?_⟩
  rw [spelledSets_iff]
  intro d hd
  obtain ⟨c, hc, hd⟩ := List.mem_flatMap.mp hd
  exact spelledSets_iff.mp (c.spelled_hoisted (spelledSets_iff.mp h.dataSets c hc)) d hd

end LoadPlan
