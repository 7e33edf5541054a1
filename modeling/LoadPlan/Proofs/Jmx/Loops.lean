import Mathlib.Algebra.Order.Ring.Nat
import LoadPlan.Proofs.Jmx.Making
import LoadPlan.Proofs.Number.Integers
import LoadPlan.Proofs.Scenario.Numbering

/-! The rounds of a loop, from the text of its element to the text in the plan. -/
namespace LoadPlan

namespace Description.Node

variable {n : Node} {before after : List Node} {c : Node}

theorem last?_of_last (h : n.children = before ++ c :: after) (hafter : ∀ d ∈ after, d.name ≠ c.name) :
    n.last? c.name = some c.content := by
  have hnone : after.filter (·.name == c.name) = [] :=
    List.filter_eq_nil_iff.mpr fun d hd => by simpa using hafter d hd
  rw [last?, h, List.filter_append, List.filter_cons, hnone]
  simp

/-- Other names are not affected when an element is changed under its own. -/
theorem last?_of_ne (h : n.children = before ++ c :: after) {d : Node} (hd : d.name = c.name) {name : String}
    (hname : c.name ≠ name) : last? { n with children := before ++ d :: after } name = n.last? name := by
  have hc : (c.name == name) = false := beq_false_of_ne hname
  rw [last?, last?, h]
  simp [hd, hc]

end Description.Node

namespace Scenario.Loop

open LoadPlan.Description (Node)
open LoadPlan.Number
open LoadPlan.Text (lower strip)

/-- A loop runs for ever unless the text on that, without blanks around it and in lower case, is a certain word. -/
def Endless (forever : Option String) : Prop :=
  ∀ text ∈ forever, lower (strip text) ≠ "false"

/-- The texts in the plan for the number of rounds and for whether they have an end, and the problem if the number is
made up. -/
inductive Turns (forever count : Option String) : String → String → Option Problem → Prop
  | endless : Endless forever → Turns forever count "-1" "true" none
  | counted {text k} : ¬Endless forever → count = some text → Integer.Written (strip text).toList k →
      Turns forever count (Integer.text k) "false" none
  | absent : ¬Endless forever → count = none → Turns forever count "0" "false" (some .noCount)
  | unread {text} : ¬Endless forever → count = some text →
      (∀ k, ¬Integer.Written (strip text).toList k) → Turns forever count "0" "false" (some (.badCount text))

variable {forever count : Option String} {loops endless : String} {problem : Option Problem}

theorem isOn_iff_endless : isOn forever = true ↔ Endless forever := by
  cases forever <;> simp [isOn, Endless]

theorem Turns.kind (h : Turns forever count loops endless problem) : ∀ p ∈ problem, p.kind = .defaulted := by
  cases h <;> simp [Problem.kind]

/-- The text in the plan is read back. -/
theorem Turns.again (h : Turns forever count loops endless problem) :
    Turns forever (some loops) loops endless none := by
  have hzero : Integer.Written (strip "0").toList 0 :=
    Integer.read?_strip_eq_some_iff.mp (Integer.read?_text (k := 0) (by simp))
  cases h with
  | endless hon => exact .endless hon
  | counted hoff _ hwritten =>
    refine .counted hoff rfl ?_
    rw [← Integer.read?_strip_eq_some_iff]
    exact Integer.read?_text hwritten.natAbs_lt
  | absent hoff => exact .counted hoff rfl hzero
  | unread hoff => exact .counted hoff rfl hzero

/-- The number of rounds as it is read, whether they have no end, and the problem. -/
def turned (forever count : Option String) : Int × Bool × Option Problem :=
  if isOn forever then (-1, true, none)
  else match rounds count with
    | .ok k => (k, false, none)
    | .error p => (0, false, some p)

theorem turns_turned (forever count : Option String) :
    let r := turned forever count
    Turns forever count (Integer.text r.1) (Jmx.boolText r.2.1) r.2.2 := by
  unfold turned
  split
  · next hon => exact .endless (isOn_iff_endless.mp hon)
  · next hoff =>
    rw [isOn_iff_endless] at hoff
    cases count with
    | none => exact .absent hoff rfl
    | some text =>
      cases hread : Integer.read? (strip text) with
      | none =>
        have hrounds : rounds (some text) = .error (.badCount text) := by rw [rounds, hread]
        rw [hrounds]
        have hno : ∀ k, ¬Integer.Written (strip text).toList k := fun k hk => by
          rw [Integer.read?_strip_eq_some_iff.mpr hk] at hread
          cases hread
        dsimp only
        exact .unread hoff rfl hno
      | some k =>
        have hrounds : rounds (some text) = .ok k := by rw [rounds, hread]
        rw [hrounds]
        exact .counted hoff rfl (Integer.read?_strip_eq_some_iff.mp hread)

/-- The number of rounds can be written, whatever the element says. -/
theorem writable_turned (forever count : Option String) :
    Integer.text? (turned forever count).1 ≠ none := by
  unfold turned
  split
  · exact (by decide : Integer.text? (-1) ≠ none)
  · split
    · next k hk => exact writable_of_rounds hk
    · exact (by decide : Integer.text? 0 ≠ none)

theorem Turns.eq_turned (h : Turns forever count loops endless problem) :
    let r := turned forever count
    loops = Integer.text r.1 ∧ endless = Jmx.boolText r.2.1 ∧ problem = r.2.2 := by
  cases h with
  | endless hon =>
    rw [turned, if_pos (isOn_iff_endless.mpr hon)]
    exact ⟨rfl, rfl, rfl⟩
  | counted hoff hcount hwritten =>
    rw [turned, if_neg (isOn_iff_endless.not.mpr hoff), hcount, rounds,
      Integer.read?_strip_eq_some_iff.mpr hwritten]
    exact ⟨rfl, rfl, rfl⟩
  | absent hoff hnone =>
    rw [turned, if_neg (isOn_iff_endless.not.mpr hoff), hnone]
    exact ⟨rfl, rfl, rfl⟩
  | unread hoff hcount hno =>
    next text =>
    have hread : Integer.read? (strip text) = none :=
      Option.eq_none_iff_forall_ne_some.mpr fun k hk => hno k (Integer.read?_strip_eq_some_iff.mp hk)
    have hrounds : rounds (some text) = .error (.badCount text) := by rw [rounds, hread]
    rw [turned, if_neg (isOn_iff_endless.not.mpr hoff), hcount, hrounds]
    dsimp only
    exact ⟨rfl, rfl, rfl⟩

theorem Turns.eq {loops' endless' : String} {problem' : Option Problem}
    (h : Turns forever count loops endless problem) (h' : Turns forever count loops' endless' problem') :
    loops = loops' ∧ endless = endless' ∧ problem = problem' := by
  obtain ⟨rfl, rfl, rfl⟩ := h.eq_turned
  obtain ⟨rfl, rfl, rfl⟩ := h'.eq_turned
  exact ⟨rfl, rfl, rfl⟩

/-- The readings of the requests in a loop. -/
def requests (n : Node) : Reading (List Request) :=
  (n.children.filter (·.kind == .http)).mapM Request.ofNode

theorem run_ofNode (n : Node) (log : Log) :
    let tests := (requests n).run log
    let r := turned (n.last? "forever") (n.last? "count")
    (Loop.ofNode n).run log = (⟨(n.last? "name").getD "", r.1, r.2.1, tests.1, n.line⟩,
      ⟨tests.2.controllers, tests.2.diagnostics ++ r.2.2.toList.map (⟨·, n.place⟩)⟩) := by
  have hfield : ∀ field, (Description.Kind.ofName field != .http) = true →
      (Node.fieldsOf (n.children.filter (·.kind != .http))).get? field = n.last? field := by
    intro field hno
    refine Node.get?_fieldsOf_filter fun c hc => ?_
    rw [Node.kind, hc, hno]
  unfold Loop.ofNode requests
  simp only [Fields.getD, hfield "name" rfl, hfield "forever" rfl, hfield "count" rfl]
  rw [Sheds.run_bind]
  generalize ((n.children.filter (·.kind == .http)).mapM Request.ofNode).run log = tests
  rw [turned]
  cases isOn (n.last? "forever") with
  | true =>
    simp only [if_true, Option.toList_none, List.map_nil, List.append_nil]
    rfl
  | false =>
    cases rounds (n.last? "count") with
    | ok k =>
      simp only [Bool.false_eq_true, if_false, Option.toList_none, List.map_nil, List.append_nil]
      rfl
    | error p => rfl

end Scenario.Loop

namespace Jmx.Workshop

open LoadPlan.Scenario (Loop)
open LoadPlan.Description (Node)
open LoadPlan.Markup (Element)

/-- The controller that is made for a loop after other parts of a plan has these texts in it, for the number of
rounds and for whether they have an end. -/
def Turning (l : Loop) (p : Progress) (loops endless : String) : Prop :=
  ∃ (e : Element) (inside : Fragment), ((loopFragment? l).run p).1 = .ok (some [e, tree inside]) ∧
    e.tag = "LoopController" ∧ (e.property? "intProp" "LoopController.loops").map (·.text) = some loops ∧
    (e.property? "boolProp" "LoopController.continue_forever").map (·.text) = some endless

theorem loopFragment?_turning {l : Loop} (h : l.tests ≠ []) (hw : l.Writable) (p : Progress) :
    Turning l p (Number.Integer.text l.count) (boolText l.forever) := by
  let element := loop l.name (Number.Integer.text l.count) l.forever
  have hmakes := loopFragment?_makes l p
  have hfaults : Layout.loopFaults l = [] := by
    rw [Layout.loopFaults, Layout.writingFaults, if_pos (Option.isSome_iff_ne_none.mpr hw), ite_self]
  have hblocks : Layout.ofLoop l = [⟨element, l.tests.flatMap Layout.ofRequest⟩] := by
    rw [Layout.ofLoop, if_neg (by simpa using h)]
  rw [MakesSome, hfaults, hblocks] at hmakes
  exact ⟨element, _, congrArg Prod.fst hmakes, rfl, rfl, rfl⟩

/-- The controller of a loop with requests has the texts that the fields of its element give, and the reports are those
on the requests and then the one on the number of rounds, if it is made up. -/
theorem turning_of_turns {n : Node} {loops endless : String} {problem : Option Problem}
    (hhttp : ∃ c ∈ n.children, c.kind = .http)
    (h : Loop.Turns (n.last? "forever") (n.last? "count") loops endless problem) (log : Scenario.Log)
    (p : Progress) : Turning ((Loop.ofNode n).run log).1 p loops endless ∧
      ((Loop.ofNode n).run log).2.diagnostics =
        ((Loop.requests n).run log).2.diagnostics ++ problem.toList.map (⟨·, n.place⟩) := by
  obtain ⟨rfl, rfl, rfl⟩ := h.eq_turned
  let r := Loop.turned (n.last? "forever") (n.last? "count")
  let l : Loop := ⟨(n.last? "name").getD "", r.1, r.2.1, ((Loop.requests n).run log).1, n.line⟩
  have hw : l.Writable := Loop.writable_turned _ _
  have htests : l.tests ≠ [] := by
    obtain ⟨c, hc, hkind⟩ := hhttp
    have hmem : c ∈ n.children.filter (·.kind == .http) := List.mem_filter.mpr ⟨hc, by simp [hkind]⟩
    simp only [l, Loop.requests]
    cases hfilter : n.children.filter (·.kind == .http) with
    | nil =>
      rw [hfilter] at hmem
      cases hmem
    | cons d rest =>
      rw [List.mapM_cons]
      exact List.cons_ne_nil _ _
  rw [Loop.run_ofNode]
  exact ⟨loopFragment?_turning (l := l) htests hw p, rfl⟩

/-- The text that comes out, put in the place of the text that went in, comes out again. -/
theorem turning_again {n c : Node} {before after : List Node} {loops endless : String} {problem : Option Problem}
    (hhttp : ∃ c ∈ n.children, c.kind = .http)
    (h : Loop.Turns (n.last? "forever") (n.last? "count") loops endless problem)
    (hchildren : n.children = before ++ c :: after) (hc : c.name = "count")
    (hafter : ∀ d ∈ after, d.name ≠ "count") (log : Scenario.Log) (p : Progress) :
    let again : Node := { n with children := before ++ { c with content := loops } :: after }
    Turning ((Loop.ofNode again).run log).1 p loops endless ∧
      ((Loop.ofNode again).run log).2.diagnostics = ((Loop.requests n).run log).2.diagnostics := by
  intro again
  have hkind : ∀ d : Node, d.name = "count" → (d.kind == .http) = false := fun d hd => by
    rw [Node.kind, hd]
    rfl
  have hfilter : again.children.filter (·.kind == .http) = n.children.filter (·.kind == .http) := by
    have hd := hkind { c with content := loops } hc
    rw [hchildren]
    simp [again, hkind c hc, hd]
  have hcount : again.last? "count" = some loops := by
    have hlast := Node.last?_of_last (n := again) (c := { c with content := loops }) rfl (by simpa [hc] using hafter)
    rwa [hc] at hlast
  have hforever : again.last? "forever" = n.last? "forever" :=
    Node.last?_of_ne hchildren (d := { c with content := loops }) rfl (by simp [hc])
  have hhttp' : ∃ d ∈ again.children, d.kind = .http := by
    obtain ⟨d, hd, hdkind⟩ := hhttp
    have hmem : d ∈ again.children.filter (·.kind == .http) := by
      rw [hfilter]
      exact List.mem_filter.mpr ⟨hd, by simp [hdkind]⟩
    exact ⟨d, (List.mem_filter.mp hmem).1, hdkind⟩
  have hagain := h.again
  rw [← hcount, ← hforever] at hagain
  obtain ⟨hturning, hreports⟩ := turning_of_turns hhttp' hagain log p
  rw [Loop.requests, hfilter, ← Loop.requests, Option.toList_none, List.map_nil, List.append_nil] at hreports
  exact ⟨hturning, hreports⟩

/-- The controller of a loop with requests runs for ever unless the last text on that says otherwise. Else its number of
rounds is the integer in the last text on that, in its own decimal form, or zero with one report. What comes out, put
in the place of that text, comes out again without a report, and so does every integer that is not too long. -/
theorem loop_turns (n : Node) (hhttp : ∃ c ∈ n.children, c.kind = .http) (log : Scenario.Log) (p : Progress) :
    ∃ loops endless problem, Loop.Turns (n.last? "forever") (n.last? "count") loops endless problem ∧
      (∀ q ∈ problem, q.kind = .defaulted) ∧ Turning ((Loop.ofNode n).run log).1 p loops endless ∧
      ((Loop.ofNode n).run log).2.diagnostics =
        ((Loop.requests n).run log).2.diagnostics ++ problem.toList.map (⟨·, n.place⟩) ∧
      (∀ before c after, n.children = before ++ c :: after → c.name = "count" →
        (∀ d ∈ after, d.name ≠ "count") → ∀ (log : Scenario.Log) (p : Progress),
          let again : Node := { n with children := before ++ { c with content := loops } :: after }
          Turning ((Loop.ofNode again).run log).1 p loops endless ∧
            ((Loop.ofNode again).run log).2.diagnostics = ((Loop.requests n).run log).2.diagnostics) ∧
      ∀ k : Int, k.natAbs < 10 ^ Number.Integer.digitLimit → ¬Loop.Endless (n.last? "forever") →
        n.last? "count" = some (Number.Integer.text k) → loops = Number.Integer.text k ∧ problem = none := by
  obtain ⟨loops, endless, problem, hturns⟩ :
      ∃ loops endless problem, Loop.Turns (n.last? "forever") (n.last? "count") loops endless problem :=
    ⟨_, _, _, Loop.turns_turned _ _⟩
  obtain ⟨hturning, hreports⟩ := turning_of_turns hhttp hturns log p
  refine ⟨loops, endless, problem, hturns, hturns.kind, hturning, hreports, ?_, ?_⟩
  · exact fun before c after hchildren hc hafter => turning_again hhttp hturns hchildren hc hafter
  · intro k hk hoff hcount
    have hwritten : Number.Integer.Written (Text.strip (Number.Integer.text k)).toList k :=
      Number.Integer.read?_strip_eq_some_iff.mp (Number.Integer.read?_text hk)
    obtain ⟨hloops, -, hproblem⟩ := hturns.eq (.counted hoff hcount hwritten)
    exact ⟨hloops, hproblem⟩

/-- A loop of as many rounds as the last of two counts says; a request and a count come before. -/
def sampleLoop (count : String) : Node :=
  let child (name content : String) : Node := ⟨name, [], [], content, 1, "a.xml"⟩
  ⟨"loop", [child "http" "", child "forever" " FALSE", child "count" "7", child "count" count], [], "", 1, "a.xml"⟩

/-- The number of rounds is written with a sign, a zero and an underscore, and comes out without them. -/
theorem loop_turns_sampleLoop :
    let turning (count : String) : Prop :=
      Turning ((Loop.ofNode (sampleLoop count)).run .empty).1 ⟨0, .zero, []⟩ "10" "false" ∧
        ((Loop.ofNode (sampleLoop count)).run .empty).2.diagnostics =
          ((Loop.requests (sampleLoop "+0_10 ")).run .empty).2.diagnostics
    turning "+0_10 " ∧ turning "10" := by
  intro turning
  have hhttp : ∃ c ∈ (sampleLoop "+0_10 ").children, c.kind = .http := ⟨_, List.mem_cons_self, rfl⟩
  obtain ⟨loops, endless, problem, hturns, -, hturning, hreports, hagain, -⟩ :=
    loop_turns (sampleLoop "+0_10 ") hhttp .empty ⟨0, .zero, []⟩
  have hoff : ¬Loop.Endless ((sampleLoop "+0_10 ").last? "forever") := by
    rw [← Loop.isOn_iff_endless]
    decide
  have hwritten : Number.Integer.Written (Text.strip "+0_10 ").toList 10 :=
    Number.Integer.read?_strip_eq_some_iff.mp (by decide)
  obtain ⟨rfl, rfl, rfl⟩ := hturns.eq (.counted hoff rfl hwritten)
  refine ⟨⟨hturning, hreports.trans (List.append_nil _)⟩, ?_⟩
  exact hagain ((sampleLoop "+0_10 ").children.take 3) _ [] rfl rfl (List.forall_mem_nil _) .empty _

end Jmx.Workshop

end LoadPlan
