import Mathlib.Data.List.Induction
import LoadPlan.Proofs.Scenario.Flaw
import LoadPlan.Proofs.Scenario.Recognition

/-! What the elements of a description lack, and that the reports on a description that includes no other
are about just that, one report for each thing that is lacking. -/
namespace LoadPlan

namespace Description

namespace Node

/-- The content of the last element with a name in an element. -/
def last? (n : Node) (name : String) : Option String :=
  ((n.children.filter (·.name == name)).getLast?).map (·.content)

theorem get?_fieldsOf (ns : List Node) (name : String) :
    (fieldsOf ns).get? name = ((ns.filter (·.name == name)).getLast?).map (·.content) := by
  induction ns using List.reverseRecOn with
  | nil => rfl
  | append_singleton ns n ih =>
    have hset : fieldsOf (ns ++ [n]) = (fieldsOf ns).set n.name n.content := by
      simp [fieldsOf, Fields.ofPairs, List.foldl_append]
    rw [hset, Fields.get?_set, ih, List.filter_append]
    by_cases hn : n.name = name
    · simp [hn]
    · simp [hn, Ne.symm hn]

/-- Elements with other names make no difference to a field. -/
theorem get?_fieldsOf_filter {n : Node} {p : Node → Bool} {name : String}
    (hp : ∀ c : Node, c.name = name → p c = true) :
    (fieldsOf (n.children.filter p)).get? name = n.last? name := by
  have hsame : (n.children.filter p).filter (·.name == name) = n.children.filter (·.name == name) := by
    rw [List.filter_filter]
    refine List.filter_congr fun c _ => ?_
    by_cases hc : c.name = name
    · simp [hp c hc]
    · simp [hc]
  rw [get?_fieldsOf, hsame, last?]

theorem get?_fields (n : Node) (name : String) : n.fields.get? name = n.last? name :=
  get?_fieldsOf n.children name

/-! Elements in the order in which their reading ends. -/

mutual

/-- An element and all elements in it, each one after those in it. -/
def closings (around : List Node) : Node → List Standing
  | ⟨name, children, attributes, content, line, source⟩ =>
    closingsOf (⟨name, children, attributes, content, line, source⟩ :: around) children ++
      [⟨⟨name, children, attributes, content, line, source⟩, around⟩]

def closingsOf (around : List Node) : List Node → List Standing
  | [] => []
  | n :: ns => closings around n ++ closingsOf around ns

end

mutual

theorem closings_perm : ∀ (around : List Node) (n : Node), (closings around n).Perm (standings around n)
  | around, ⟨name, children, attributes, content, line, source⟩ => by
    rw [closings, standings]
    exact List.perm_append_comm.trans (.cons _ (closingsOf_perm _ children))

theorem closingsOf_perm : ∀ around ns : List Node, (closingsOf around ns).Perm (standingsOf around ns)
  | _, [] => .nil
  | around, n :: ns => (closings_perm around n).append (closingsOf_perm around ns)

end

theorem closings_eq (around : List Node) (n : Node) :
    closings around n = closingsOf (n :: around) n.children ++ [⟨n, around⟩] := by
  obtain ⟨name, children, attributes, content, line, source⟩ := n
  rw [closings]

/-- All elements of a document but its root, in the order in which they end. -/
def endings (root : Node) : List Standing :=
  closingsOf [] root.children

theorem endings_perm (root : Node) : root.endings.Perm root.elements :=
  closingsOf_perm [] root.children

/-- A timer is looked at on top of a document, and in a request. -/
def isTimed : List Node → Bool
  | [] => true
  | m :: around => m.kind == .http && recognised m around

end Node

/-- The element is looked at: it is recognised where it stands, or is a timer in the right place. -/
def Standing.processed (x : Standing) : Bool :=
  Node.recognised x.node x.around || x.node.kind == .timer && Node.isTimed x.around

namespace Node

mutual

/-- What is processed in an element is in one that is recognised. -/
theorem recognised_of_processed {m : Node} {around : List Node} {x : Standing} :
    ∀ n : Node, x ∈ standings (m :: around) n → x.processed = true → recognised m around = true
  | ⟨name, children, attributes, content, line, source⟩, hx, hp => by
    rw [mem_standings] at hx
    rcases hx with rfl | hx
    · rcases Bool.or_eq_true_iff.mp hp with hr | ht
      · exact (Bool.and_eq_true_iff.mp hr).2
      · exact (Bool.and_eq_true_iff.mp (Bool.and_eq_true_iff.mp ht).2).2
    · exact (Bool.and_eq_true_iff.mp (recognised_of_processedOf children hx hp)).2

theorem recognised_of_processedOf {m : Node} {around : List Node} {x : Standing} :
    ∀ ns : List Node, x ∈ standingsOf (m :: around) ns → x.processed = true → recognised m around = true
  | n :: ns, hx, hp => by
    rw [standingsOf, List.mem_append] at hx
    rcases hx with hx | hx
    · exact recognised_of_processed n hx hp
    · exact recognised_of_processedOf ns hx hp

end

end Node

end Description

namespace Scenario

open LoadPlan.Description (Node Standing)

/-- Something that an element should have. -/
inductive Lack
  | timerFields
  | method
  | requestName
  | resultFile
  | resultType
  | count
  | controllerName
  | percent
  | filename
  deriving DecidableEq, Repr

end Scenario

open Scenario (Lack)

/-- What is lacking according to a report. -/
def Problem.lack? : Problem → Option Lack
  | .timerLacks _ => some .timerFields
  | .noMethod => some .method
  | .noRequestName _ => some .requestName
  | .noResultFile => some .resultFile
  | .noResultType => some .resultType
  | .noCount | .badCount _ => some .count
  | .noControllerName _ => some .controllerName
  | .noPercent _ | .badPercent .. | .infinitePercent .. => some .percent
  | .noFilename => some .filename
  | _ => none

/-- The place that a report is about, and what is lacking there. -/
def Diagnostic.complaint (d : Diagnostic) : Place × Option Lack :=
  (d.place, d.problem.lack?)

namespace Description.Node

open Scenario

/-- What the last block of results in a request lacks. -/
def resultLacks (r : Node) : List Lack :=
  (if ((r.last? "result_file" <|> r.last? "resultfile").getD "").isEmpty then [.resultFile] else []) ++
    if ((r.last? "type").getD "").isEmpty then [.resultType] else []

/-- A loop that is not without end needs a number of rounds. -/
def countLacks (n : Node) : List Lack :=
  if isOn (n.last? "forever") then []
  else if ((n.last? "count").bind fun text => Number.Integer.read? (Text.strip text)).isSome then []
  else [.count]

/-- The share of a controller is a finite number, if need be with something after it. -/
def percentLacks (n : Node) : List Lack :=
  if ((n.last? "percent" <|> n.last? "precent").bind Number.Decimal.leading?).any
      (·.toDouble.isFinite) then []
  else [.percent]

/-- What an element lacks, in the order in which it is missed. -/
def lacks (n : Node) : List Lack :=
  match n.kind with
  | .timer =>
    if n.hasChildren && Timer.required.any fun name => (n.last? name).isNone then [.timerFields] else []
  | .http =>
    (if (n.last? "method").isNone then [.method] else []) ++
      (if (n.last? "name").isNone then [.requestName] else []) ++
        (filled .results n.children).getLast?.elim [] resultLacks
  | .loop => n.countLacks
  | .controller => (if (n.last? "name").isNone then [.controllerName] else []) ++ n.percentLacks
  | .csv => if (n.last? "filename").isNone then [.filename] else []
  | _ => []

/-- The complaints about an element that lacks some things. -/
def lacking (n : Node) (ls : List Lack) : List (Place × Option Lack) :=
  ls.map fun l => (n.place, some l)

theorem lacking_append (n : Node) (ls ms : List Lack) :
    n.lacking (ls ++ ms) = n.lacking ls ++ n.lacking ms :=
  List.map_append

/-- What an element lacks, with its place. -/
def complaints (n : Node) : List (Place × Option Lack) :=
  n.lacking n.lacks

end Description.Node

namespace Scenario

open LoadPlan.Description (Node Standing)
open LoadPlan.Description.Node (closings closingsOf closings_eq standings standingsOf mem_standings
  recognised fits isStep isTimed)

/-- Reading adds reports with certain complaints, in this order, whatever was read before. -/
def Complains {α : Type} (m : Reading α) (cs : List (Place × Option Lack)) : Prop :=
  ∀ log, ∃ ds, (m.run log).2.diagnostics = log.diagnostics ++ ds ∧ ds.map Diagnostic.complaint = cs

namespace Complains

variable {α β γ : Type} {m : Reading α} {f : α → Reading β} {cs ds : List (Place × Option Lack)}

theorem pure (a : α) : Complains (pure a) [] := by
  intro log
  exact ⟨[], (List.append_nil _).symm, rfl⟩

theorem bind (hm : Complains m cs) (hf : ∀ a, Complains (f a) ds) : Complains (m >>= f) (cs ++ ds) := by
  intro log
  obtain ⟨before, hbefore, hcs⟩ := hm log
  obtain ⟨after, hafter, hds⟩ := hf (m.run log).1 (m.run log).2
  refine ⟨before ++ after, ?_, ?_⟩
  · rw [← List.append_assoc, ← hbefore]
    exact hafter
  · rw [List.map_append, hcs, hds]

/-- Nothing is reported after the first part. -/
theorem before (hm : Complains m cs) (hf : ∀ a, Complains (f a) []) : Complains (m >>= f) cs := by
  have h := hm.bind hf
  rwa [List.append_nil] at h

/-- Nothing is reported in the first part. -/
theorem after (hm : Complains m []) (hf : ∀ a, Complains (f a) cs) : Complains (m >>= f) cs :=
  hm.bind hf

theorem map (hm : Complains m cs) (g : α → β) : Complains (g <$> m) cs := by
  rw [map_eq_pure_bind]
  exact hm.before fun a => pure (g a)

theorem get : Complains (get : Reading Log) [] := by
  intro log
  exact ⟨[], (List.append_nil _).symm, rfl⟩

theorem count : Complains (modify fun log => { log with controllers := log.controllers + 1 }) [] := by
  intro log
  exact ⟨[], (List.append_nil _).symm, rfl⟩

theorem report (p : Problem) (n : Node) : Complains (report p n) [(n.place, p.lack?)] := by
  intro log
  exact ⟨[⟨p, n.place⟩], rfl, rfl⟩

theorem report_of_lack {p : Problem} {l : Lack} (hp : p.lack? = some l) (n : Node) :
    Complains (Scenario.report p n) (n.lacking [l]) := by
  have h := report p n
  rwa [hp] at h

theorem orDefault {p : Problem} {l : Lack} (hp : p.lack? = some l) (field : Option String)
    (fallback : String) (n : Node) :
    Complains (orDefault field fallback p n) (n.lacking (if field.isNone then [l] else [])) := by
  cases field with
  | none => exact (report_of_lack hp n).before fun _ => pure fallback
  | some value => exact pure value

theorem mapM {f : γ → Reading β} {g : γ → List (Place × Option Lack)} {xs : List γ}
    (h : ∀ x ∈ xs, Complains (f x) (g x)) : Complains (xs.mapM f) (xs.flatMap g) := by
  induction xs with
  | nil => exact pure []
  | cons x xs ih =>
    obtain ⟨hx, hxs⟩ := List.forall_mem_cons.mp h
    rw [List.mapM_cons, List.flatMap_cons]
    exact hx.bind fun y => (ih hxs).before fun ys => pure (y :: ys)

theorem filterMapM {f : γ → Reading (Option β)} {g : γ → List (Place × Option Lack)} {xs : List γ}
    (h : ∀ x ∈ xs, Complains (f x) (g x)) : Complains (xs.filterMapM f) (xs.flatMap g) := by
  induction xs with
  | nil => exact pure []
  | cons x xs ih =>
    obtain ⟨hx, hxs⟩ := List.forall_mem_cons.mp h
    rw [List.filterMapM_cons, List.flatMap_cons]
    refine hx.bind fun o => ?_
    cases o with
    | none => exact ih hxs
    | some y => exact (ih hxs).before fun ys => pure (y :: ys)

end Complains

/-! What is lacking in the elements that are processed. -/

/-- What the elements that are processed lack, among elements or below them. -/
def complaintsIn (around ns : List Node) : List (Place × Option Lack) :=
  ((closingsOf around ns).filter Standing.processed).flatMap fun x => x.node.complaints

variable {ctx : Context} {around : List Node} {m n : Node}

theorem complaintsIn_cons (around : List Node) (n : Node) (ns : List Node) :
    complaintsIn around (n :: ns) = complaintsIn around [n] ++ complaintsIn around ns := by
  simp only [complaintsIn, closingsOf, List.append_nil, List.filter_append, List.flatMap_append]

theorem complaintsIn_eq_flatMap (around ns : List Node) :
    complaintsIn around ns = ns.flatMap fun n => complaintsIn around [n] := by
  induction ns with
  | nil => rfl
  | cons n ns ih => rw [complaintsIn_cons, ih, List.flatMap_cons]

/-- The complaints about an element come after those about what is in it. -/
theorem complaintsIn_singleton (around : List Node) (n : Node) :
    complaintsIn around [n] = complaintsIn (n :: around) n.children ++
      if Standing.processed ⟨n, around⟩ then n.complaints else [] := by
  rw [complaintsIn, closingsOf, closingsOf, List.append_nil, closings_eq, List.filter_append,
    List.flatMap_append, complaintsIn]
  congr 1
  rw [List.filter_singleton]
  split <;> simp_all

theorem complaintsIn_below (hr : recognised n around = false) (ns : List Node) :
    complaintsIn (n :: around) ns = [] := by
  rw [complaintsIn, List.filter_eq_nil_iff.mpr]
  · rfl
  · intro x hx hp
    have hx := (Node.closingsOf_perm _ _).mem_iff.mp hx
    rw [Node.recognised_of_processedOf ns hx hp] at hr
    cases hr

/-- Nothing is lacking in an element of a kind that needs nothing, unless it is in it. -/
theorem complaintsIn_recognised (hr : recognised n around = true) :
    complaintsIn around [n] = complaintsIn (n :: around) n.children ++ n.complaints := by
  rw [complaintsIn_singleton, if_pos]
  simp [Standing.processed, hr]

theorem complaintsIn_ignored (hr : recognised n around = false)
    (ht : n.kind = .timer → isTimed around = false) : complaintsIn around [n] = [] := by
  rw [complaintsIn_singleton, complaintsIn_below hr, if_neg]
  · rfl
  · simpa [Standing.processed, hr] using ht

/-- Timers are looked at only in requests. -/
theorem complaintsIn_unfit (hm : m.kind ≠ .http) (hr : recognised n (m :: around) = false) :
    complaintsIn (m :: around) [n] = [] :=
  complaintsIn_ignored hr fun _ => by simp [isTimed, hm]

theorem complaintsIn_timer (hk : n.kind = .timer) (ht : isTimed around = true) :
    complaintsIn around [n] = n.complaints := by
  have hr : recognised n around = false := by
    cases around with
    | nil => simp [recognised, fits, hk]
    | cons m around => cases hm : m.kind <;> simp [recognised, fits, isStep, hk, hm]
  rw [complaintsIn_singleton, complaintsIn_below hr, if_pos]
  · rfl
  · simp [Standing.processed, hk, ht]

/-! What is reported while an element is read. -/

theorem timer_complains (hk : n.kind = .timer) (hc : n.hasChildren = true) :
    Complains (Timer.read? n) n.complaints := by
  unfold Timer.read? Timer.ofNode
  simp only [Node.get?_fields, Node.complaints, Node.lacks, hk, hc, Timer.required, List.any_cons,
    List.any_nil, Bool.true_and, Bool.or_false]
  cases n.last? "name" with
  | none => exact (Complains.report _ n).before fun _ => .pure none
  | some name =>
    cases n.last? "delay" with
    | none => exact (Complains.report _ n).before fun _ => .pure none
    | some delay =>
      cases n.last? "range" with
      | none => exact (Complains.report _ n).before fun _ => .pure none
      | some range => exact .pure _

theorem file_ofNode (r : Node) :
    (Results.ofNode r).file = (r.last? "result_file" <|> r.last? "resultfile").getD "" := by
  unfold Results.ofNode Fields.getD
  simp only [Node.get?_fields]
  cases r.last? "result_file" <;> rfl

theorem results_complains (r : Node) (name : String) (n : Node) :
    Complains ((Results.ofNode r).complete name n) (n.lacking r.resultLacks) := by
  have htype : (Results.ofNode r).type = (r.last? "type").getD "" := by
    unfold Results.ofNode Fields.getD
    simp only [Node.get?_fields]
  have hempty : ∀ {p : Problem} {l : Lack} {text fallback : String}, p.lack? = some l →
      Complains (orDefault (if text.isEmpty then none else some text) fallback p n)
        (n.lacking (if text.isEmpty then [l] else [])) := by
    intro p l text fallback hp
    have h := Complains.orDefault hp (if text.isEmpty then none else some text) fallback n
    cases ht : text.isEmpty with
    | true => simpa [ht] using h
    | false => simpa [ht] using h
  unfold Results.complete Node.resultLacks
  rw [← file_ofNode, ← htype, Node.lacking_append]
  refine Complains.bind (hempty rfl) fun file => ?_
  exact Complains.before (hempty rfl) fun type => .pure _

/-- Only the timers in a request can lack something themselves. -/
theorem complaintsIn_request (hk : m.kind = .http) (hr : recognised m around = true) (ns : List Node) :
    complaintsIn (m :: around) ns = (filled .timer ns).flatMap Node.complaints := by
  induction ns with
  | nil => rfl
  | cons n ns ih =>
    rw [complaintsIn_cons, ih]
    by_cases hn : n.kind = .timer
    · rw [complaintsIn_timer hn (by simp [isTimed, hk, hr])]
      cases hc : n.hasChildren with
      | true => simp [hn, hc, filled]
      | false => simp [hn, hc, filled, Node.complaints, Node.lacks, Node.lacking]
    · rw [complaintsIn_ignored (by simp [recognised, fits, hk]) fun ht => absurd ht hn]
      simp [hn, filled]

theorem request_complains (hk : n.kind = .http) (hr : recognised n around = true) :
    Complains (Request.ofNode n) (complaintsIn around [n]) := by
  have htimers : Complains ((filled .timer n.children).filterMapM Timer.read?)
      ((filled .timer n.children).flatMap Node.complaints) := by
    refine Complains.filterMapM fun c hc => ?_
    obtain ⟨-, hck, hf⟩ := mem_filled.mp hc
    exact timer_complains hck hf
  have hmethod : (Node.fieldsOf (Request.fieldNodes n)).get? "method" = n.last? "method" :=
    Node.get?_fieldsOf_filter fun c hc => by rw [Node.kind, hc]; rfl
  have hname : (Node.fieldsOf (Request.fieldNodes n)).get? "name" = n.last? "name" :=
    Node.get?_fieldsOf_filter fun c hc => by rw [Node.kind, hc]; rfl
  rw [complaintsIn_recognised hr, complaintsIn_request hk hr, Node.complaints, Node.lacks, hk]
  simp only [Node.lacking_append, List.append_assoc]
  unfold Request.ofNode
  refine htimers.bind fun timers => ?_
  rw [← hmethod, ← hname]
  refine Complains.bind (.orDefault rfl _ _ n) fun method => ?_
  refine Complains.bind (.orDefault rfl _ _ n) fun name => ?_
  cases (filled .results n.children).getLast? with
  | none => exact Complains.before (.pure none) fun results => .pure _
  | some r => exact Complains.before ((results_complains r name n).map some) fun results => .pure _

theorem complaintsIn_loop (hk : m.kind = .loop) (ns : List Node) :
    complaintsIn (m :: around) ns =
      (ns.filter (·.kind == .http)).flatMap fun n => complaintsIn (m :: around) [n] := by
  induction ns with
  | nil => rfl
  | cons n ns ih =>
    rw [complaintsIn_cons, ih, List.filter_cons]
    by_cases hn : n.kind = .http
    · simp [hn]
    · rw [complaintsIn_unfit (by simp [hk]) (by simp [recognised, fits, hk, hn])]
      simp [hn]

/-- A number of rounds is lacking just if there is a complaint about it. -/
theorem rounds_cases (field : Option String) :
    (∃ k, Loop.rounds field = .ok k ∧
      (field.bind fun text => Number.Integer.read? (Text.strip text)).isSome = true) ∨
    ∃ p : Problem, Loop.rounds field = .error p ∧ p.lack? = some .count ∧
      (field.bind fun text => Number.Integer.read? (Text.strip text)).isSome = false := by
  cases field with
  | none => exact .inr ⟨.noCount, rfl, rfl, rfl⟩
  | some text =>
    cases hread : Number.Integer.read? (Text.strip text) with
    | none => exact .inr ⟨.badCount text, by simp [Loop.rounds, hread], rfl, by simp [hread]⟩
    | some k => exact .inl ⟨k, by simp [Loop.rounds, hread], by simp [hread]⟩

theorem loop_complains (hk : n.kind = .loop) (hr : recognised n around = true) :
    Complains (Loop.ofNode n) (complaintsIn around [n]) := by
  have htests : Complains ((n.children.filter (·.kind == .http)).mapM Request.ofNode)
      (complaintsIn (n :: around) n.children) := by
    rw [complaintsIn_loop hk]
    refine Complains.mapM fun c hc => ?_
    have hck := beq_iff_eq.mp (List.mem_filter.mp hc).2
    exact request_complains hck (by simp [recognised, fits, hk, hck, hr])
  have hforever : (Node.fieldsOf (n.children.filter (·.kind != .http))).get? "forever" =
      n.last? "forever" :=
    Node.get?_fieldsOf_filter fun c hc => by rw [Node.kind, hc]; rfl
  have hcount : (Node.fieldsOf (n.children.filter (·.kind != .http))).get? "count" = n.last? "count" :=
    Node.get?_fieldsOf_filter fun c hc => by rw [Node.kind, hc]; rfl
  rw [complaintsIn_recognised hr, Node.complaints, Node.lacks, hk]
  unfold Loop.ofNode
  refine htests.bind fun tests => ?_
  simp only [hforever, hcount, Node.countLacks]
  cases isOn (n.last? "forever") with
  | true =>
    simp only [if_true]
    exact Complains.before (.pure _) fun _ => .pure _
  | false =>
    rcases rounds_cases (n.last? "count") with ⟨k, hrounds, hread⟩ | ⟨p, hrounds, hp, hread⟩
    · simp only [hrounds, hread, Bool.false_eq_true, if_false, if_true]
      exact Complains.before (.pure _) fun _ => .pure _
    · simp only [hrounds, hread, Bool.false_eq_true, if_false]
      refine Complains.before (.report_of_lack hp n) fun _ => ?_
      exact Complains.before (.pure _) fun _ => .pure _

/-- A share is lacking just if there is a complaint about it. -/
theorem share_cases (settings : Settings) (field : Option String) :
    (∃ share, Controller.share settings field = .ok share ∧
      (field.bind Number.Decimal.leading?).any (·.toDouble.isFinite) = true) ∨
    ∃ p : Problem, Controller.share settings field = .error p ∧ p.lack? = some .percent ∧
      (field.bind Number.Decimal.leading?).any (·.toDouble.isFinite) = false := by
  cases field with
  | none => exact .inr ⟨.noPercent settings.defaultPercent, rfl, rfl, rfl⟩
  | some text =>
    cases hread : Number.Decimal.leading? text with
    | none =>
      exact .inr ⟨.badPercent text settings.defaultPercent, by simp [Controller.share, hread], rfl,
        by simp [hread]⟩
    | some d =>
      cases hd : d.toDouble.isFinite with
      | false =>
        exact .inr ⟨.infinitePercent text settings.defaultPercent,
          by simp [Controller.share, hread, hd], rfl, by simp [hread, hd]⟩
      | true => exact .inl ⟨d.toDouble, by simp [Controller.share, hread, hd], by simp [hread, hd]⟩

mutual

theorem controller_complains : ∀ (n : Node) (around : List Node), n.kind = .controller →
    recognised n around = true → Scriptless (standingsOf (n :: around) n.children) →
    Complains (Controller.ofNode ctx n) (complaintsIn around [n])
  | ⟨name, children, attributes, content, line, source⟩, around, hk, hr, hs => by
    have hsteps := steps_complains children _ around hk hr hs
    have hfield : ∀ field, Controller.stepKinds.contains (.ofName field) = false →
        (Node.fieldsOf (children.filter fun c => !Controller.stepKinds.contains c.kind)).get? field =
          Node.last? ⟨name, children, attributes, content, line, source⟩ field := by
      intro field hno
      refine Node.get?_fieldsOf_filter
        (n := ⟨name, children, attributes, content, line, source⟩) fun c hc => ?_
      rw [Node.kind, hc, hno]
      rfl
    rw [complaintsIn_recognised hr, Node.complaints, Node.lacks, hk, Node.lacking_append, Controller.ofNode]
    refine Complains.after .get fun log => ?_
    refine Complains.after .count fun _ => ?_
    refine hsteps.bind fun r => ?_
    simp only [Node.percentLacks, ← hfield "name" rfl, ← hfield "percent" rfl, ← hfield "precent" rfl]
    refine Complains.bind (.orDefault rfl _ _ _) fun title => ?_
    generalize (Node.fieldsOf (children.filter fun c => !Controller.stepKinds.contains c.kind)) = fs
    rcases share_cases ctx.settings (fs.get? "percent" <|> fs.get? "precent") with
      ⟨share, hshare, hread⟩ | ⟨p, hshare, hp, hread⟩
    · simp only [hshare, hread, if_true]
      exact Complains.before (.pure _) fun _ => .pure _
    · simp only [hshare, hread, Bool.false_eq_true, if_false]
      refine Complains.before (.report_of_lack hp _) fun _ => ?_
      exact Complains.before (.pure _) fun _ => .pure _

theorem steps_complains : ∀ (cs : List Node) (m : Node) (around : List Node), m.kind = .controller →
    recognised m around = true → Scriptless (standingsOf (m :: around) cs) →
    Complains (Controller.steps ctx cs) (complaintsIn (m :: around) cs)
  | [], _, _, _, _, _ => .pure _
  | c :: cs, m, around, hk, hr, h => by
    obtain ⟨hc, hbelow, hcs⟩ := scriptless_cons.mp h
    have ih := steps_complains cs m around hk hr hcs
    have hfits : recognised c (m :: around) = isStep c := by simp [recognised, fits, hk, hr]
    have hjoin : ∀ es sets, Complains
        (do let (after, more) ← Controller.steps ctx cs; return (es ++ after, sets ++ more))
        (complaintsIn (m :: around) cs) :=
      fun es sets => ih.before fun r => .pure _
    rw [complaintsIn_cons, Controller.steps]
    split
    · next hck =>
      have hcr : recognised c (m :: around) = true := by simp [hfits, isStep, hck]
      exact (request_complains hck hcr).bind fun r => hjoin [.request r] []
    · next hck =>
      have hcr : recognised c (m :: around) = true := by simp [hfits, isStep, hck]
      exact (loop_complains hck hcr).bind fun l => hjoin [.loop l] []
    · next hck =>
      have hcr : recognised c (m :: around) = true := by simp [hfits, isStep, hck]
      exact (controller_complains c _ hck hcr hbelow).bind fun k => hjoin [.controller k] []
    · next hck => exact absurd hck hc
    · rw [complaintsIn_unfit (by simp [hk]) (by simp_all [isStep])]
      exact hjoin [] []

end

theorem step?_complains (hm : m.kind ≠ .http) (hfits : recognised n (m :: around) = isStep n)
    (hs : Scriptless (standingsOf (n :: m :: around) n.children)) :
    Complains (step? ctx n) (complaintsIn (m :: around) [n]) := by
  unfold step?
  split
  · next hk =>
    have hr : recognised n (m :: around) = true := by simp [hfits, isStep, hk]
    exact (request_complains hk hr).before fun r => .pure _
  · next hk =>
    have hr : recognised n (m :: around) = true := by simp [hfits, isStep, hk]
    exact (controller_complains n _ hk hr hs).before fun c => .pure _
  · next hk =>
    have hr : recognised n (m :: around) = true := by simp [hfits, isStep, hk]
    exact (loop_complains hk hr).before fun l => .pure _
  · rw [complaintsIn_unfit hm (by simp_all [isStep])]
    exact .pure none

theorem repetition_complains (hk : n.kind = .repeated) (hr : recognised n around = true)
    (hs : Scriptless (standingsOf (n :: around) n.children)) :
    Complains (repetition ctx n) (complaintsIn around [n]) := by
  have hitems : Complains (n.children.filterMapM (step? ctx)) (complaintsIn (n :: around) n.children) := by
    rw [complaintsIn_eq_flatMap]
    refine Complains.filterMapM fun c hc => ?_
    have hfits : recognised c (n :: around) = isStep c := by simp [recognised, fits, hk, hr]
    exact step?_complains (by simp [hk]) hfits (scriptless_of_mem hs hc)
  rw [complaintsIn_recognised hr, Node.complaints, Node.lacks, hk]
  exact hitems.bind fun items => .pure _

theorem dataSet_complains (hk : n.kind = .csv) (hr : recognised n around = true)
    (hs : Scriptless (standingsOf (n :: around) n.children)) :
    Complains (DataSet.ofNode ctx n) (complaintsIn around [n]) := by
  have hstep : ∀ c ∈ n.children, Complains
      (if c.kind == .repeated then if c.hasChildren then some <$> repetition ctx c else pure none
        else step? ctx c) (complaintsIn (n :: around) [c]) := by
    intro c hc
    have hcs := scriptless_of_mem hs hc
    split
    · next hck =>
      have hck := beq_iff_eq.mp hck
      split
      · next hf =>
        have hcr : recognised c (n :: around) = true := by simp [recognised, fits, hk, hr, hck, hf]
        exact (repetition_complains hck hcr hcs).map some
      · next hf =>
        rw [complaintsIn_unfit (by simp [hk]) (by simp [recognised, fits, hk, isStep, hck, hf])]
        exact .pure none
    · next hck =>
      have hfits : recognised c (n :: around) = isStep c := by simp_all [recognised, fits]
      exact step?_complains (by simp [hk]) hfits hcs
  have hfilename : (Node.fieldsOf (n.children.filter fun c => !DataSet.stepKinds.contains c.kind)).get?
      "filename" = n.last? "filename" :=
    Node.get?_fieldsOf_filter fun c hc => by rw [Node.kind, hc]; rfl
  rw [complaintsIn_recognised hr, complaintsIn_eq_flatMap, Node.complaints, Node.lacks, hk, ← hfilename]
  unfold DataSet.ofNode
  refine (Complains.filterMapM hstep).bind fun stack => ?_
  exact Complains.before (.orDefault rfl _ _ n) fun filename => .pure _

/-! Whole documents. -/

theorem ofElement_complains (hs : Scriptless (standings [] n)) :
    Complains (ofElement ctx n) (complaintsIn [] [n]) := by
  rw [Node.standings_eq] at hs
  obtain ⟨hn, hs⟩ := List.forall_mem_cons.mp hs
  have hignored : n.kind ≠ .timer → recognised n [] = false → Complains (pure empty) (complaintsIn [] [n]) := by
    intro ht hr
    rw [complaintsIn_ignored hr fun h => absurd h ht]
    exact .pure _
  unfold ofElement
  split
  · next hk =>
    rw [complaintsIn_timer hk rfl]
    split
    · next hc => exact (timer_complains hk hc).before fun t => .pure _
    · next hc =>
      simp only [Node.complaints, Node.lacks, hk, hc]
      exact .pure _
  · next hk =>
    split
    · next hc => exact (loop_complains hk (by simp [recognised, fits, hk, hc])).before fun l => .pure _
    · next hc => exact hignored (by simp [hk]) (by simp [recognised, fits, hk, hc])
  · next hk =>
    split
    · next hc =>
      have hr : recognised n [] = true := by simp [recognised, fits, hk, hc]
      exact (controller_complains n [] hk hr hs).before fun c => .pure _
    · next hc => exact hignored (by simp [hk]) (by simp [recognised, fits, hk, hc])
  · next hk =>
    rw [complaintsIn_ignored (by simp [recognised, fits, hk]) (by simp [hk])]
    exact .pure _
  · next hk => exact (request_complains hk (by simp [recognised, fits, hk])).before fun r => .pure _
  · next hk =>
    split
    · next hc =>
      have hr : recognised n [] = true := by simp [recognised, fits, hk, hc]
      exact (dataSet_complains hk hr hs).before fun d => .pure _
    · next hc => exact hignored (by simp [hk]) (by simp [recognised, fits, hk, hc])
  · next hk => exact absurd hk hn
  · exact hignored (by simp_all) (by simp_all [recognised, fits])

theorem ofElements_complains : ∀ ns : List Node, Scriptless (standingsOf [] ns) →
    Complains (ofElements ctx ns) (complaintsIn [] ns)
  | [], _ => .pure _
  | n :: ns, h => by
    rw [standingsOf] at h
    obtain ⟨hn, hns⟩ := List.forall_mem_append.mp h
    rw [ofElements, complaintsIn_cons]
    refine (ofElement_complains hn).bind fun s => ?_
    exact (ofElements_complains ns hns).before fun t => .pure _

theorem ofDocument_complains (disk : Storage.Disk) (settings : Settings) (depth : Nat)
    (chain : List Storage.Path) {root : Node} (h : Scriptless root.elements) :
    Complains (ofDocument disk settings depth chain root) (complaintsIn [] root.children) := by
  cases depth with
  | zero => exact ofElements_complains _ h
  | succ depth => exact ofElements_complains _ h

/-- The reports on a description that includes no other are about what the elements that are processed
lack: one report for each thing that is lacking, at the place of its element, after those on the elements
in it, and no others. -/
theorem complaints_collected (disk : Storage.Disk) (settings : Settings) {root : Node}
    (h : Scriptless root.elements) (log : Log) :
    ∃ ds, ((ofDescription disk settings root).run log).2.diagnostics = log.diagnostics ++ ds ∧
      ds.map Diagnostic.complaint =
        (root.endings.filter Standing.processed).flatMap (fun x => x.node.complaints) ∧
      ds.length = ((root.elements.filter Standing.processed).map fun x => x.node.lacks.length).sum := by
  obtain ⟨ds, hds, hcomplaints⟩ := ofDocument_complains disk settings _ _ h log
  refine ⟨ds, hds, hcomplaints, ?_⟩
  have hlength : ∀ x : Standing, x.node.complaints.length = x.node.lacks.length :=
    fun x => List.length_map _
  have hperm := ((Node.endings_perm root).filter Standing.processed).map fun x => x.node.lacks.length
  calc
    ds.length = (ds.map Diagnostic.complaint).length := (List.length_map _).symm
    _ = ((root.endings.filter Standing.processed).map fun x => x.node.lacks.length).sum := by
      rw [hcomplaints]
      simp only [complaintsIn, List.length_flatMap, hlength]
      rfl
    _ = ((root.elements.filter Standing.processed).map fun x => x.node.lacks.length).sum :=
      hperm.sum_nat

/-! A description in which something is lacking everywhere, and in an element that is not processed. -/

def field (name content : String) : Node :=
  ⟨name, [], [], content, 1, "<text>"⟩

def careless : Node :=
  part "suite" [part "timer" [field "name" "pause"],
    part "http" [part "timer" [field "delay" "1"], part "results" [field "type" ""], field "method" "PUT"],
    part "controller" [part "loop" [field "forever" "false", field "count" "many"], field "percent" "x"],
    part "csv" [page "/in"], part "group" [page "/lost"]]

theorem complaints_collected_careless :
    Scriptless careless.elements ∧
      ((ofDescription ⟨[], []⟩ .standard careless).run .empty).2.diagnostics.map (·.problem.lack?) =
        ([.timerFields, .timerFields, .requestName, .resultFile, .resultType, .count, .controllerName,
          .percent, .method, .requestName, .filename] : List Lack).map some := by
  have h : Scriptless careless.elements := by decide
  obtain ⟨ds, hds, hcomplaints, -⟩ := complaints_collected ⟨[], []⟩ .standard h .empty
  have hlacks := congrArg (List.map Prod.snd) hcomplaints
  rw [List.map_map] at hlacks
  refine ⟨h, ?_⟩
  rw [hds]
  exact hlacks.trans rfl

end Scenario

end LoadPlan
