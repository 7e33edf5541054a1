import LoadPlan.Scenario.Reading

/-! What reading results in, and what it reports on the way. -/
namespace LoadPlan.Scenario

open LoadPlan.Description (Node)

/-- Every outcome has a property, and so has all that is reported. -/
def Reads {α : Type} (m : Reading α) (Q : α → Prop) (R : Diagnostic → Prop) : Prop :=
  ∀ log, Q (m.run log).1 ∧
    ∃ ds, (m.run log).2.diagnostics = log.diagnostics ++ ds ∧ ∀ d ∈ ds, R d

/-- What is reported does not matter. -/
abbrev Unseen : Diagnostic → Prop := fun _ => True

/-- What is reported does not end the reading of a description. -/
abbrev Answered : Diagnostic → Prop := fun g => g.problem.refusal? = none

variable {α β : Type} {m : Reading α} {f : α → Reading β} {Q : α → Prop} {S : β → Prop}
  {R : Diagnostic → Prop}

namespace Reads

theorem pure {a : α} (h : Q a) : Reads (pure a) Q R := by
  intro log
  refine ⟨h, [], ?_, by simp⟩
  exact (List.append_nil _).symm

theorem bind (hm : Reads m Q R) (hf : ∀ a, Q a → Reads (f a) S R) : Reads (m >>= f) S R := by
  intro log
  obtain ⟨ha, ds, hds, hrds⟩ := hm log
  obtain ⟨hb, es, hes, hres⟩ := hf _ ha (m.run log).2
  refine ⟨hb, ds ++ es, ?_, ?_⟩
  · rw [← List.append_assoc, ← hds]
    exact hes
  · intro d hd
    rcases List.mem_append.mp hd with hd | hd
    · exact hrds d hd
    · exact hres d hd

theorem mono {T : α → Prop} (hm : Reads m Q R) (h : ∀ a, Q a → T a) : Reads m T R := by
  intro log
  obtain ⟨ha, hds⟩ := hm log
  exact ⟨h _ ha, hds⟩

theorem unseen (hm : Reads m Q R) : Reads m Q Unseen := by
  intro log
  obtain ⟨ha, ds, hds, -⟩ := hm log
  exact ⟨ha, ds, hds, fun _ _ => trivial⟩

theorem map {g : α → β} (hm : Reads m Q R) (h : ∀ a, Q a → S (g a)) : Reads (g <$> m) S R := by
  rw [map_eq_pure_bind]
  exact hm.bind fun a ha => pure (h a ha)

theorem get : Reads (get : Reading Log) (fun _ => True) R := by
  intro log
  refine ⟨trivial, [], ?_, by simp⟩
  exact (List.append_nil _).symm

theorem count : Reads (modify fun log => { log with controllers := log.controllers + 1 })
    (fun _ => True) R := by
  intro log
  refine ⟨trivial, [], ?_, by simp⟩
  exact (List.append_nil _).symm

theorem report {p : Problem} {n : Node} (h : R ⟨p, n.place⟩) :
    Reads (report p n) (fun _ => True) R := by
  intro log
  refine ⟨trivial, [⟨p, n.place⟩], rfl, ?_⟩
  intro d hd
  rw [List.mem_singleton.mp hd]
  exact h

theorem orDefault {field : Option String} {fallback : String} {p : Problem} {n : Node}
    (h : field = none → R ⟨p, n.place⟩) :
    Reads (orDefault field fallback p n) (· = field.getD fallback) R := by
  cases field with
  | none => exact (report (h rfl)).bind fun _ _ => pure rfl
  | some value => exact pure rfl

theorem mapM {γ : Type} {f : γ → Reading β} {xs : List γ} (h : ∀ x ∈ xs, Reads (f x) S R) :
    Reads (xs.mapM f) (fun ys => ∀ y ∈ ys, S y) R := by
  induction xs with
  | nil => exact pure (by simp)
  | cons x xs ih =>
    obtain ⟨hx, hxs⟩ := List.forall_mem_cons.mp h
    rw [List.mapM_cons]
    refine hx.bind fun y hy => (ih hxs).bind fun ys hys => pure ?_
    exact List.forall_mem_cons.mpr ⟨hy, hys⟩

theorem filterMapM {γ : Type} {f : γ → Reading (Option β)} {xs : List γ}
    (h : ∀ x ∈ xs, Reads (f x) (fun o => ∀ y ∈ o, S y) R) :
    Reads (xs.filterMapM f) (fun ys => ∀ y ∈ ys, S y) R := by
  induction xs with
  | nil => exact pure (by simp)
  | cons x xs ih =>
    obtain ⟨hx, hxs⟩ := List.forall_mem_cons.mp h
    rw [List.filterMapM_cons]
    refine hx.bind fun o ho => ?_
    cases o with
    | none => exact ih hxs
    | some y =>
      refine (ih hxs).bind fun ys hys => pure ?_
      exact List.forall_mem_cons.mpr ⟨ho y rfl, hys⟩

theorem mapM_eq {γ : Type} {f : γ → Reading β} {g : γ → β} {xs : List γ}
    (h : ∀ x ∈ xs, Reads (f x) (· = g x) R) : Reads (xs.mapM f) (· = xs.map g) R := by
  induction xs with
  | nil => exact pure rfl
  | cons x xs ih =>
    obtain ⟨hx, hxs⟩ := List.forall_mem_cons.mp h
    rw [List.mapM_cons]
    refine hx.bind fun y hy => (ih hxs).bind fun ys hys => pure ?_
    rw [hy, hys, List.map_cons]

/-- What comes out for each element in turn, as far as something does. -/
theorem filterMapM_flatMap {γ δ : Type} {f : γ → Reading (Option β)} {φ : β → List δ}
    {ψ : γ → List δ} {xs : List γ}
    (h : ∀ x ∈ xs, Reads (f x) (fun o => o.toList.flatMap φ = ψ x) R) :
    Reads (xs.filterMapM f) (fun ys => ys.flatMap φ = xs.flatMap ψ) R := by
  induction xs with
  | nil => exact pure rfl
  | cons x xs ih =>
    obtain ⟨hx, hxs⟩ := List.forall_mem_cons.mp h
    rw [List.filterMapM_cons]
    refine hx.bind fun o ho => ?_
    cases o with
    | none => exact (ih hxs).mono fun ys hys => by rw [hys, List.flatMap_cons, ← ho]; rfl
    | some y =>
      refine (ih hxs).bind fun ys hys => pure ?_
      rw [List.flatMap_cons, List.flatMap_cons, hys, ← ho, Option.toList_some, List.flatMap_singleton]

end Reads

/-- The outcome is one and the same, whatever was read before, and no report ends the reading. -/
def Settled (m : Reading α) : Prop :=
  ∃ a, Reads m (· = a) Answered

namespace Settled

theorem pure (a : α) : Settled (pure a) :=
  ⟨a, Reads.pure rfl⟩

theorem bind (hm : Settled m) (hf : ∀ a, Settled (f a)) : Settled (m >>= f) := by
  obtain ⟨a, ha⟩ := hm
  obtain ⟨b, hb⟩ := hf a
  refine ⟨b, ha.bind ?_⟩
  rintro _ rfl
  exact hb

theorem report {p : Problem} (h : p.refusal? = none) (n : Node) : Settled (report p n) :=
  ⟨(), (Reads.report h).mono fun _ _ => rfl⟩

theorem orDefault (field : Option String) (fallback : String) {p : Problem} (h : p.refusal? = none)
    (n : Node) : Settled (orDefault field fallback p n) :=
  ⟨field.getD fallback, Reads.orDefault fun _ => h⟩

theorem filterMapM {γ : Type} {f : γ → Reading (Option β)} (h : ∀ x, Settled (f x)) (xs : List γ) :
    Settled (xs.filterMapM f) := by
  induction xs with
  | nil => exact pure []
  | cons x xs ih =>
    rw [List.filterMapM_cons]
    refine (h x).bind fun o => ?_
    cases o with
    | none => exact ih
    | some y => exact ih.bind fun ys => pure (y :: ys)

end Settled

end LoadPlan.Scenario
