import LoadPlan.Jmx.Generation
import LoadPlan.Proofs.Jmx.Component

/-! How the making of blocks ends: with the first of its faults, or with a value and further progress. -/
namespace LoadPlan.Jmx

open LoadPlan.Markup (Element)

/-- The counts with more components counted. -/
def Counts.plus (c : Counts) (es : List Element) : Counts where
  samplers := c.samplers + es.countP (·.tag == "HTTPSamplerProxy")
  timers := c.timers + es.countP (·.tag == "GaussianRandomTimer")
  assertions := c.assertions + es.countP (·.tag == "ResponseAssertion")
  extractors := c.extractors + es.countP (·.tag == "RegexExtractor")
  loops := c.loops + es.countP (·.tag == "LoopController")
  controllers := c.controllers + es.countP (·.tag == "GenericController")
  dataSets := c.dataSets + es.countP (·.tag == "CSVDataSet")
  threadGroups := c.threadGroups + es.countP (·.tag == "ThreadGroup")
  collectors := c.collectors + es.countP (·.tag == "ResultCollector")

theorem Counts.plus_append (c : Counts) (a b : List Element) :
    c.plus (a ++ b) = (c.plus a).plus b := by
  simp only [plus, List.countP_append, Nat.add_assoc]

theorem Counts.plus_perm (c : Counts) {a b : List Element} (h : a.Perm b) : c.plus a = c.plus b := by
  simp only [plus, h.countP_eq]

/-- The progress after components are made and problems are met. Each thread group takes a number. -/
def Progress.after (p : Progress) (es : List Element) (ds : List Diagnostic) : Progress where
  nextGroup := p.nextGroup + es.countP (·.tag == "ThreadGroup")
  counts := p.counts.plus es
  diagnostics := p.diagnostics ++ ds

namespace Progress

@[simp] theorem after_nil (p : Progress) : p.after [] [] = p := by
  simp [after, Counts.plus]

theorem after_after (p : Progress) (a b : List Element) (ds es : List Diagnostic) :
    (p.after a ds).after b es = p.after (a ++ b) (ds ++ es) := by
  simp only [after, Counts.plus_append, List.countP_append, Nat.add_assoc, List.append_assoc]

theorem after_perm (p : Progress) {a b : List Element} (h : a.Perm b) (ds : List Diagnostic) :
    p.after a ds = p.after b ds := by
  simp only [after, p.counts.plus_perm h, h.countP_eq]

end Progress

variable {α β : Type} {m : Generating α} {f : α → Generating β} {p q r : Progress} {a : α} {b : β}
  {fs gs : List Fault}

theorem run_bind (m : Generating α) (f : α → Generating β) (p : Progress) :
    (m >>= f).run p = match m.run p with
      | (.ok a, q) => (f a).run q
      | (.error e, q) => (.error e, q) := by
  simp only [bind, ExceptT.bind, ExceptT.run, ExceptT.mk, StateT.bind, ExceptT.bindCont]
  rcases m p with ⟨_ | _, q⟩ <;> rfl

theorem run_bind_eq_ok : (m >>= f).run p = (.ok b, r) ↔
    ∃ a q, m.run p = (.ok a, q) ∧ (f a).run q = (.ok b, r) := by
  rw [run_bind]
  rcases hm : m.run p with ⟨e | a, q⟩
  · refine ⟨fun h => ?_, ?_⟩
    · cases h
    · rintro ⟨a, q', h, -⟩
      cases h
  · refine ⟨fun h => ⟨a, q, rfl, h⟩, ?_⟩
    rintro ⟨a', q', h, hf⟩
    cases h
    exact hf

/-- With no fault there is a value and the progress made on the way; else the first fault ends it. -/
def Gives (m : Generating α) (p : Progress) (fs : List Fault) (a : α) (q : Progress) : Prop :=
  match fs with
  | [] => m.run p = (.ok a, q)
  | e :: _ => (m.run p).1 = .error e

namespace Gives

theorem pure (a : α) (p : Progress) : Gives (pure a) p [] a p := rfl

theorem throw (e : Fault) (fs : List Fault) (p : Progress) (a : α) (q : Progress) :
    Gives (throw e) p (e :: fs) a q := rfl

theorem bind (hm : Gives m p fs a q) (hf : Gives (f a) q gs b r) :
    Gives (m >>= f) p (fs ++ gs) b r := by
  cases fs with
  | nil =>
    have hm' : m.run p = (.ok a, q) := hm
    have hr : (m >>= f).run p = (f a).run q := by rw [run_bind, hm']
    rw [List.nil_append]
    cases gs with
    | nil => exact hr.trans hf
    | cons e gs => exact (congrArg Prod.fst hr).trans hf
  | cons e fs =>
    have hm' : (m.run p).1 = .error e := hm
    change ((m >>= f).run p).1 = .error e
    rw [run_bind]
    rcases h : m.run p with ⟨_ | _, q'⟩ <;> simp_all

/-- What follows an action without faults may have some. -/
theorem next (hm : Gives m p [] a q) (hf : Gives (f a) q gs b r) : Gives (m >>= f) p gs b r :=
  hm.bind hf

/-- What follows an action has no faults of its own. -/
theorem finish (hm : Gives m p fs a q) (hf : Gives (f a) q [] b r) : Gives (m >>= f) p fs b r := by
  have h := hm.bind hf
  rwa [List.append_nil] at h

/-- A value comes out just when there is no fault. -/
theorem ok_iff (h : Gives m p fs a q) {a' : α} {q' : Progress} :
    m.run p = (.ok a', q') ↔ fs = [] ∧ a' = a ∧ q' = q := by
  cases fs with
  | nil =>
    have h' : m.run p = (.ok a, q) := h
    constructor
    · intro ha
      cases h'.symm.trans ha
      exact ⟨rfl, rfl, rfl⟩
    · rintro ⟨-, rfl, rfl⟩
      exact h'
  | cons e fs =>
    have h' : (m.run p).1 = .error e := h
    simp only [List.cons_ne_nil, false_and, iff_false]
    intro ha
    simp [ha] at h'

theorem error_iff (h : Gives m p fs a q) {e : Fault} :
    (m.run p).1 = .error e ↔ fs.head? = some e := by
  cases fs with
  | nil =>
    have h' : m.run p = (.ok a, q) := h
    simp [h']
  | cons e' fs =>
    have h' : (m.run p).1 = .error e' := h
    simp [h']

end Gives

end LoadPlan.Jmx
