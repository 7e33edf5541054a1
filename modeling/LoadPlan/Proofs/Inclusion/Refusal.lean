import LoadPlan.Proofs.Inclusion.Depth

/-! The first lookup that the disk refuses ends a collection, with what was reported before it. Nothing else
ends one before its time. -/
namespace LoadPlan

theorem Problem.refusal?_eq_some_iff {p : Problem} {failure : Storage.Failure} :
    p.refusal? = some failure ↔ p = .includeRefused failure := by
  cases p <;> simp [refusal?]

namespace Scenario

open LoadPlan.Description (Node)

namespace Log

variable {log later : Log}

theorem Grows.refusal?_eq (h : log.Grows later) (hlog : log.refusal? = none) : later.refusal? = none := by
  obtain ⟨ds, hds, hanswered⟩ := h
  rw [refusal?, hds, List.findSome?_append]
  have hnone : ds.findSome? (·.problem.refusal?) = none := List.findSome?_eq_none_iff.mpr hanswered
  rw [hnone, Option.or_none]
  exact hlog

theorem grows_report {p : Problem} (hp : p.refusal? = none) (log : Log) (n : Node) :
    log.Grows (log.report p n) :=
  ⟨[⟨p, n.place⟩], rfl, List.forall_mem_singleton.mpr hp⟩

variable {g : Diagnostic} {ds : List Diagnostic}

theorem refusal?_of_append (hlog : log.refusal? = none)
    (h : later.diagnostics = log.diagnostics ++ g :: ds) {failure : Storage.Failure}
    (hg : g.problem.refusal? = some failure) : later.refusal? = some failure := by
  rw [refusal?, h, List.findSome?_append, List.findSome?_cons, hg]
  exact congrArg (·.or (some failure)) hlog

theorem beforeRefusal_of_append (hlog : log.refusal? = none)
    (h : later.diagnostics = log.diagnostics ++ g :: ds) (hg : g.problem.refusal? ≠ none) :
    later.beforeRefusal.diagnostics = log.diagnostics := by
  have hg : (g.problem.refusal?).isNone = false := by
    rw [Option.isNone_eq_false_iff]
    exact Option.isSome_iff_ne_none.mpr hg
  have hall : ∀ d ∈ log.diagnostics, (d.problem.refusal?).isNone = true := by
    intro d hd
    rw [Option.isNone_iff_eq_none]
    exact List.findSome?_eq_none_iff.mp hlog d hd
  rw [beforeRefusal]
  simp only [h]
  rw [List.takeWhile_append_of_pos hall, List.takeWhile_cons_of_neg (by rw [hg]; decide), List.append_nil]

end Log

/-! The log moment by moment. -/

def Course.log {α : Type} : Course α → Log
  | .done _ log | .script _ log _ => log

theorem Course.Grows.log {α : Type} {c : Course α} {log : Log} (h : c.Grows log) : log.Grows c.log := by
  cases c with
  | done => exact h
  | script => exact h.1

theorem Course.Grows.here {α : Type} {c : Course α} {log : Log} (h : c.Grows log) : c.Grows c.log := by
  cases c with
  | done a later => exact .refl later
  | script n later next => exact ⟨.refl later, h.2⟩

def Moment.log (m : Moment) : Log :=
  match m.now with
  | .called _ log | .script _ log | .returned _ log => log
  | .document course => course.log

/-- A document goes on after a script with reports that do not end the collection. -/
def Script.Grows (s : Script) : Prop :=
  ∀ parts log, (s.next parts log).Grows log

/-- The documents that are open, and those that wait, go on with reports that do not end the collection. -/
structure Moment.Grows (m : Moment) : Prop where
  waiting : ∀ s ∈ m.waiting, s.Grows
  document {course : Course Scenario} : m.now = .document course → course.Grows course.log
  script {s : Script} {now : Log} : m.now = .script s now → s.Grows

/-- An element of a script asks for a document, and the disk refuses to tell where it is. -/
structure Moment.Refused (disk : Storage.Disk) (settings : Settings) (m : Moment) (n : Node)
    (failure : Storage.Failure) (now : Log) : Prop where
  asks : m.Asks n now
  refused : opened disk settings m.chain n = .error (.includeRefused failure)

variable {disk : Storage.Disk} {settings : Settings} {main : Node} {log : Log}

theorem Turn.grows {m m' : Moment} (h : Turn disk settings main m m') (hm : m.Grows) : m'.Grows := by
  obtain ⟨hwaiting, hdocument, hscript⟩ := hm
  have hbegun : ∀ root log course, begun disk settings root log = .document course →
      course.Grows course.log := by
    rintro root log _ ⟨⟩
    exact ((elements_paced disk settings root.children).grows log).here
  cases h with
  | call _ _ _ root log => exact ⟨hwaiting, hbegun root log _, nofun⟩
  | stop _ _ _ n log next =>
    refine ⟨hwaiting, nofun, ?_⟩
    rintro _ _ ⟨⟩
    exact (hdocument rfl).2
  | leave chain files w waiting s log =>
    obtain ⟨hw, hwaiting⟩ := List.forall_mem_cons.mp hwaiting
    refine ⟨hwaiting, nofun, ?_⟩
    rintro _ _ ⟨⟩
    exact hw
  | finish => exact ⟨List.forall_mem_nil _, nofun, nofun⟩
  | resume _ _ _ s log =>
    refine ⟨hwaiting, ?_, nofun⟩
    rintro _ ⟨⟩
    exact (hscript rfl s.taken log).here
  | pass _ _ _ s | refuse _ _ _ s =>
    have hs : s.Grows := hscript rfl
    refine ⟨hwaiting, nofun, ?_⟩
    rintro _ _ ⟨⟩
    exact hs
  | enter _ _ _ s log =>
    have hs : s.Grows := hscript rfl
    exact ⟨List.forall_mem_cons.mpr ⟨hs, hwaiting⟩, hbegun _ log _, nofun⟩
  | rest => exact ⟨hwaiting, nofun, nofun⟩

/-- The log grows from one moment to the next, unless a lookup is refused. -/
theorem Turn.log_grows {m m' : Moment} (h : Turn disk settings main m m') (hm : m.Grows)
    (hnone : ∀ n failure now, ¬m.Refused disk settings n failure now) : m.log.Grows m'.log := by
  have hbegun : ∀ (root : Node) (log : Log), log.Grows (Stepwise.elements disk settings root.children log).log :=
    fun root log => ((elements_paced disk settings root.children).grows log).log
  cases h with
  | call _ _ _ root log => exact hbegun root log
  | enter _ _ _ _ log => exact hbegun _ log
  | resume _ _ _ s log => exact (hm.script rfl s.taken log).log
  | @refuse chain _ _ s log n rest p hr hn ho =>
    refine Log.grows_report ?_ log n
    cases hp : p.refusal? with
    | none => rfl
    | some failure =>
      rw [Problem.refusal?_eq_some_iff.mp hp] at ho
      exact absurd ⟨⟨s, rest, rfl, hr, hn⟩, ho⟩ (hnone n failure log)
  | _ => exact .refl _

/-- Nothing is taken from the log. -/
theorem Turn.log_kept {m m' : Moment} (h : Turn disk settings main m m') (hm : m.Grows) :
    m.log.diagnostics <+: m'.log.diagnostics := by
  by_cases hnone : ∀ n failure now, ¬m.Refused disk settings n failure now
  · exact (h.log_grows hm hnone).isPrefix
  · push Not at hnone
    obtain ⟨n, failure, now, ⟨s, rest, hnow, hs, hn⟩, ho⟩ := hnone
    cases h with
    | refuse => exact List.prefix_append _ _
    | resume _ _ _ _ _ hr =>
      cases hnow
      cases hs.symm.trans hr
    | pass => exact List.prefix_rfl
    | enter _ _ _ _ _ hr _ ho' =>
      cases hnow
      cases hs.symm.trans hr
      cases ho.symm.trans ho'
    | _ => cases hnow

theorem Moment.Refused.log_eq {m : Moment} {n : Node} {failure : Storage.Failure} {now : Log}
    (h : m.Refused disk settings n failure now) : m.log = now := by
  obtain ⟨⟨s, rest, hnow, -, -⟩, -⟩ := h
  rw [Moment.log, hnow]

/-- A lookup that is refused is reported. -/
theorem Moment.Refused.reported {m : Moment} {n : Node} {failure : Storage.Failure} {now : Log}
    (h : m.Refused disk settings n failure now) :
    (step disk settings main m).log = now.report (.includeRefused failure) n := by
  obtain ⟨s, rest, -, -, hstep⟩ := step_of_asks disk settings main h.asks
  rw [hstep, h.refused]
  rfl

theorem moment_grows (log : Log) (k : Nat) : (moment disk settings main log k).Grows := by
  induction k with
  | zero => exact ⟨List.forall_mem_nil _, nofun, nofun⟩
  | succ k ih => exact (turn_moment log k).grows ih

theorem moment_log_kept (log : Log) {j k : Nat} (h : j ≤ k) :
    (moment disk settings main log j).log.diagnostics <+: (moment disk settings main log k).log.diagnostics := by
  induction k, h using Nat.le_induction with
  | base => exact List.prefix_rfl
  | succ k _ ih => exact ih.trans ((turn_moment log k).log_kept (moment_grows log k))

/-- As long as no lookup is refused, the log grows. -/
theorem moment_log_grows {log : Log} {k : Nat}
    (h : ∀ j < k, ∀ n failure now, ¬(moment disk settings main log j).Refused disk settings n failure now) :
    log.Grows (moment disk settings main log k).log := by
  induction k with
  | zero => exact .refl log
  | succ k ih =>
    have hbefore := ih fun j hj => h j (Nat.lt_succ_of_lt hj)
    exact hbefore.trans ((turn_moment log k).log_grows (moment_grows log k) (h k (Nat.lt_succ_self k)))

/-- After a lookup that is refused, the first one in the log is that one. -/
theorem refusal?_of_refused {j k : Nat} {n : Node} {failure : Storage.Failure} {now : Log}
    (h : (moment disk settings main log j).Refused disk settings n failure now)
    (hnow : now.refusal? = none) (hjk : j < k) :
    (moment disk settings main log k).log.refusal? = some failure ∧
      (moment disk settings main log k).log.beforeRefusal.diagnostics = now.diagnostics := by
  obtain ⟨ds, hds⟩ : (moment disk settings main log (j + 1)).log.diagnostics <+:
      (moment disk settings main log k).log.diagnostics := moment_log_kept log (Nat.succ_le_of_lt hjk)
  rw [moment_succ, h.reported] at hds
  have hlog : (moment disk settings main log k).log.diagnostics =
      now.diagnostics ++ ⟨.includeRefused failure, n.place⟩ :: ds := by
    rw [← hds]
    exact (List.append_cons ..).symm
  exact ⟨Log.refusal?_of_append hnow hlog rfl, Log.beforeRefusal_of_append hnow hlog nofun⟩

/-- After the end of a collection nothing happens. -/
theorem moment_of_returned {k j : Nat} {s : Scenario} {later : Log}
    (h : (moment disk settings main log k).now = .returned s later) (hkj : k ≤ j) :
    (moment disk settings main log j).now = .returned s later := by
  induction j, hkj using Nat.le_induction with
  | base => exact h
  | succ j _ ih => rw [moment_succ, step, ih, ih]

theorem exists_first_refused
    (h : ∃ k n failure now, (moment disk settings main log k).Refused disk settings n failure now) :
    ∃ k n failure now, (moment disk settings main log k).Refused disk settings n failure now ∧
      ∀ j < k, ∀ n failure now, ¬(moment disk settings main log j).Refused disk settings n failure now := by
  classical
  obtain ⟨n, failure, now, hrefused⟩ := Nat.find_spec h
  refine ⟨Nat.find h, n, failure, now, hrefused, fun j hj n failure now hearlier => ?_⟩
  exact Nat.find_min h hj ⟨n, failure, now, hearlier⟩

/-- A collection either gives what reading gives, and then no lookup has been refused. Or it ends at the first
lookup that is, with the reports that were made before. -/
theorem collect_ends (disk : Storage.Disk) (settings : Settings) (main : Node) {log : Log}
    (hlog : log.refusal? = none) :
    (∃ s later, (collect disk settings main).run log = (.ok s, later) ∧
      (ofDescription disk settings main).run log = (s, later) ∧
      ∀ k n failure now, ¬(moment disk settings main log k).Refused disk settings n failure now) ∨
    ∃ failure later k n now, (collect disk settings main).run log = (.error failure, later) ∧
      (moment disk settings main log k).Refused disk settings n failure now ∧
      later.diagnostics = now.diagnostics ∧
      ∀ j < k, ∀ n failure now, ¬(moment disk settings main log j).Refused disk settings n failure now := by
  obtain ⟨last, hlast⟩ := exists_returned disk settings main log
  have hend : (moment disk settings main log last).log = ((ofDescription disk settings main).run log).2 := by
    rw [hlast]
    rfl
  rw [run_collect]
  by_cases hnone : ∀ k n failure now, ¬(moment disk settings main log k).Refused disk settings n failure now
  · have hanswered : ((ofDescription disk settings main).run log).2.refusal? = none := by
      rw [← hend]
      exact (moment_log_grows fun j _ => hnone j).refusal?_eq hlog
    rw [hanswered]
    exact .inl ⟨_, _, rfl, rfl, hnone⟩
  · push Not at hnone
    obtain ⟨first, n, failure, now, hrefused, hfirst⟩ := exists_first_refused hnone
    have hnow : now.refusal? = none := by
      rw [← hrefused.log_eq]
      exact (moment_log_grows hfirst).refusal?_eq hlog
    -- It comes before the end, since nothing is asked for after that.
    have hbefore : first < last := by
      by_contra hle
      obtain ⟨s, rest, hasks, -, -⟩ := hrefused.asks
      have hreturned := moment_of_returned (congrArg Moment.now hlast) (Nat.le_of_not_lt hle)
      cases hasks.symm.trans hreturned
    obtain ⟨hsome, hcut⟩ := refusal?_of_refused hrefused hnow hbefore
    rw [hend] at hsome hcut
    rw [hsome]
    exact .inr ⟨failure, _, first, n, now, rfl, hrefused, hcut, hfirst⟩

end Scenario

end LoadPlan
