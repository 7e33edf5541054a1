import LoadPlan.Proofs.Scenario.Lacks
import LoadPlan.Proofs.Scenario.Sheds
import LoadPlan.Proofs.Scenario.Titles

/-! The numbers of controllers. A collector counts the controllers of all documents it reads, in the order
in which they begin, and the name of a controller that has none is all that comes of the count. -/
namespace LoadPlan

/-- The name that was made up for a controller. -/
def Problem.madeUp? : Problem → Option String
  | .noControllerName name => some name
  | _ => none

namespace Scenario

open LoadPlan.Description (Node Kind)
open Titled (untitled inSteps inSets)

/-! The order in which the controllers of a document begin. -/

section

variable (scripts : Node → List Node)

mutual

/-- The elements of a controller and of those in it, in the order in which the controllers begin. -/
def Controller.starts : Node → List Node
  | ⟨name, children, attributes, content, line, source⟩ =>
    ⟨name, children, attributes, content, line, source⟩ :: startsOfSteps children

/-- The same for the elements in a controller; scripts bring in controllers of other documents. -/
def startsOfSteps : List Node → List Node
  | [] => []
  | c :: cs =>
    (match c.kind with
      | .controller => Controller.starts c
      | .script => if c.hasChildren then scripts c else []
      | _ => []) ++ startsOfSteps cs

end

def startsOfStep? (n : Node) : List Node :=
  if n.kind = .controller then Controller.starts scripts n else []

def startsOfRepetition (n : Node) : List Node :=
  n.children.flatMap (startsOfStep? scripts)

def startsOfDataStep? (n : Node) : List Node :=
  if n.kind == .repeated then if n.hasChildren then startsOfRepetition scripts n else []
  else startsOfStep? scripts n

def DataSet.starts (n : Node) : List Node :=
  n.children.flatMap (startsOfDataStep? scripts)

/-- The same for an element at the top of a document. -/
def startsOfElement (n : Node) : List Node :=
  match n.kind with
  | .controller => if n.hasChildren then Controller.starts scripts n else []
  | .csv => if n.hasChildren then DataSet.starts scripts n else []
  | .script => if n.hasChildren then scripts n else []
  | _ => []

end

section

variable (disk : Storage.Disk) (settings : Settings)

/-- The same for a script, whose documents begin one after another. -/
def startsOfScript (inside : List Storage.Path → Node → List Node) (chain : List Storage.Path)
    (script : Node) : List Node :=
  script.children.flatMap fun n =>
    if n.name = "file" then
      match opened disk settings chain n with
      | .ok (place, root) => inside (chain ++ [place]) root
      | .error _ => []
    else []

def startsOfDocument : Nat → List Storage.Path → Node → List Node
  | 0, chain, root =>
    root.children.flatMap (startsOfElement (startsOfScript disk settings (fun _ _ => []) chain))
  | depth + 1, chain, root =>
    root.children.flatMap (startsOfElement (startsOfScript disk settings (startsOfDocument depth) chain))

/-- The elements of the controllers of a description, in the order in which the controllers begin: an outer
one before those in it, and those of included documents where the script stands. -/
def starts (root : Node) : List Node :=
  startsOfDocument disk settings (depthLeft settings (headChain disk root)) (headChain disk root) root

end

/-! What comes of a number. -/

/-- The name of a controller that has none. -/
def nameOf (ordinal : Nat) : String :=
  s!"My Controller: {ordinal}"

theorem nameOf_injective : Function.Injective nameOf := by
  intro i j h
  have htoList := congrArg String.toList h
  simp only [nameOf, toString, String.toList_append, String.toList_inj,
    List.append_cancel_left_eq] at htoList
  have hdigits : Nat.toDigits 10 i = Nat.toDigits 10 j :=
    String.ofList_injective (by simpa [Nat.repr] using htoList)
  have hback (n : Nat) : Nat.ofDigitChars 10 (Nat.toDigits 10 n) 0 = n :=
    Nat.ofDigitChars_toDigits (by decide) (by decide)
  rw [← hback i, hdigits, hback]

/-- An element of a controller with the number of controllers that begin before. -/
abbrev Start := Node × Nat

namespace Start

/-- The controller has no name of its own. -/
def isNameless (x : Start) : Bool :=
  (x.1.last? "name").isNone

/-- The title of the controller after as many others of earlier documents. -/
def title (earlier : Nat) (x : Start) : Title :=
  ((x.1.last? "name").getD (nameOf (earlier + x.2)), x.1.line)

end Start

/-- A report on anything else, or on a controller that has no name. -/
inductive Notice
  | other (d : Diagnostic)
  | nameless (x : Start)

namespace Notice

/-- The report after as many controllers of earlier documents. -/
def diagnostic (earlier : Nat) : Notice → Diagnostic
  | .other d => d
  | .nameless x => ⟨.noControllerName (nameOf (earlier + x.2)), x.1.place⟩

def nameless? : Notice → Option Start
  | .other _ => none
  | .nameless x => some x

/-- The report on the name of a controller. -/
def ofName (x : Start) : List Notice :=
  if x.isNameless then [.nameless x] else []

theorem nameless?_ofName (x : Start) : (ofName x).filterMap nameless? = [x].filter Start.isNameless := by
  unfold ofName
  cases h : x.isNameless <;> simp [nameless?, h]

theorem nameless?_others (ds : List Diagnostic) : (ds.map Notice.other).filterMap nameless? = [] := by
  simp [nameless?, Function.comp_def]

theorem diagnostic_others (earlier : Nat) (ds : List Diagnostic) :
    (ds.map Notice.other).map (diagnostic earlier) = ds := by
  simp [diagnostic, Function.comp_def]

/-- The reports on anything else are not on names. -/
def Apart (notices : List Notice) : Prop :=
  ∀ d, .other d ∈ notices → d.problem.madeUp? = none

theorem apart_append {a b : List Notice} : Apart (a ++ b) ↔ Apart a ∧ Apart b := by
  simp [Apart, or_imp, forall_and]

theorem apart_others {ds : List Diagnostic} :
    Apart (ds.map .other) ↔ ∀ d ∈ ds, d.problem.madeUp? = none := by
  simp [Apart]

theorem apart_ofName (x : Start) : Apart (ofName x) := by
  unfold ofName
  split <;> simp [Apart]

/-- The names that were made up are those of the controllers that have none. -/
theorem madeUp?_diagnostic {notices : List Notice} (h : Apart notices) (earlier : Nat) :
    (notices.map (diagnostic earlier)).filterMap (·.problem.madeUp?) =
      (notices.filterMap nameless?).map fun x => nameOf (earlier + x.2) := by
  induction notices with
  | nil => rfl
  | cons notice notices ih =>
    obtain ⟨hnotice, hnotices⟩ := (apart_append (a := [notice])).mp h
    have ih := ih hnotices
    cases notice with
    | other d =>
      have hd : d.problem.madeUp? = none := hnotice d (List.mem_singleton_self _)
      simpa [diagnostic, nameless?, hd, List.filterMap_cons] using ih
    | nameless x => simpa [diagnostic, nameless?, Problem.madeUp?] using ih

end Notice

/-- What is read of elements, as far as it depends on the controllers of earlier documents. -/
structure Account where
  /-- The controllers among the steps, in the order in which they stand there. -/
  steps : List Start
  /-- The controllers among the data sets. -/
  sets : List Start
  notices : List Notice

/-- The account is about these controllers: each stands in one place, and there is one report for each that
has no name. -/
structure Account.Covers (account : Account) (xs : List Start) : Prop where
  places : (account.steps ++ account.sets).Perm xs
  nameless : (account.notices.filterMap Notice.nameless?).Perm (xs.filter Start.isNameless)
  apart : Notice.Apart account.notices

/-! Readings that begin no controllers. -/

/-- The outcome and the reports are the same whatever was read before, and none is on a controller. -/
def Constant {α : Type} (m : Reading α) : Prop :=
  ∃ a ds, (∀ d ∈ ds, d.problem.madeUp? = none) ∧
    ∀ log, m.run log = (a, ⟨log.controllers, log.diagnostics ++ ds⟩)

namespace Constant

variable {α β : Type} {m : Reading α} {f : α → Reading β}

theorem pure (a : α) : Constant (pure a) := by
  refine ⟨a, [], by simp, fun log => ?_⟩
  rw [List.append_nil]
  rfl

theorem bind (hm : Constant m) (hf : ∀ a, Constant (f a)) : Constant (m >>= f) := by
  obtain ⟨a, ds, hds, hrun⟩ := hm
  obtain ⟨b, es, hes, hrun'⟩ := hf a
  refine ⟨b, ds ++ es, List.forall_mem_append.mpr ⟨hds, hes⟩, fun log => ?_⟩
  rw [Sheds.run_bind, hrun, hrun', List.append_assoc]

theorem map (hm : Constant m) (g : α → β) : Constant (g <$> m) := by
  rw [map_eq_pure_bind]
  exact hm.bind fun a => pure (g a)

theorem report {p : Problem} (hp : p.madeUp? = none) (n : Node) : Constant (report p n) := by
  refine ⟨(), [⟨p, n.place⟩], ?_, fun log => rfl⟩
  exact List.forall_mem_singleton.mpr hp

theorem orDefault {p : Problem} (hp : p.madeUp? = none) (field : Option String) (fallback : String)
    (n : Node) : Constant (orDefault field fallback p n) := by
  cases field with
  | none => exact (report hp n).bind fun _ => pure fallback
  | some value => exact pure value

end Constant

theorem Sequential.constant {α β γ : Type} {g : List γ → Reading β} {one : γ → Reading α}
    {join : α → β → β} {last : β} (h : Sequential g one join last) (hone : ∀ x, Constant (one x))
    (xs : List γ) : Constant (g xs) := by
  induction xs with
  | nil =>
    rw [h.nil]
    exact .pure last
  | cons x xs ih =>
    rw [h.cons]
    exact (hone x).bind fun a => ih.bind fun b => .pure _

theorem timer_constant (n : Node) : Constant (Timer.read? n) := by
  unfold Timer.read? Timer.ofNode
  dsimp only
  split
  · exact .pure _
  · next p hp =>
    have hm : p.madeUp? = none := by
      split at hp
      · cases hp
      · cases hp
        rfl
    exact (Constant.report hm n).bind fun _ => .pure none

theorem results_constant (r : Results) (name : String) (n : Node) : Constant (r.complete name n) := by
  unfold Results.complete
  refine (Constant.orDefault rfl _ _ n).bind fun file => ?_
  exact (Constant.orDefault rfl _ _ n).bind fun type => .pure _

theorem request_constant (n : Node) : Constant (Request.ofNode n) := by
  unfold Request.ofNode
  refine ((Sequential.filterMapM _).constant timer_constant _).bind fun timers => ?_
  refine (Constant.orDefault rfl _ _ n).bind fun method => ?_
  refine (Constant.orDefault rfl _ _ n).bind fun name => ?_
  cases (filled .results n.children).getLast? with
  | none => exact (Constant.pure none).bind fun _ => .pure _
  | some r => exact ((results_constant _ name n).map some).bind fun _ => .pure _

theorem loop_constant (n : Node) : Constant (Loop.ofNode n) := by
  unfold Loop.ofNode
  refine ((Sequential.mapM _).constant request_constant _).bind fun tests => ?_
  dsimp only
  split
  · exact (Constant.pure _).bind fun _ => .pure _
  · rcases rounds_cases ((Node.fieldsOf (n.children.filter (·.kind != .http))).get? "count") with
      ⟨k, hk, -⟩ | ⟨p, hp, hlack, -⟩
    · rw [hk]
      exact (Constant.pure _).bind fun _ => .pure _
    · have hm : p.madeUp? = none := by
        cases p <;> first | rfl | cases hlack
      rw [hp]
      refine Constant.bind ?_ fun _ => .pure _
      exact (Constant.report hm n).bind fun _ => .pure ()

/-! Readings that begin controllers. -/

section

variable {α β γ : Type} [Titled α] [Titled β] [Titled γ]

/-- The controllers of these elements begin, and what is read depends on the controllers before only by the
names that are made up. -/
def Numbers (m : Reading α) (ns : List Node) : Prop :=
  ∀ first, ∃ (a : α) (account : Account), account.Covers (ns.zipIdx first) ∧
    ∀ earlier here, ∃ b, untitled b = a ∧ inSteps b = account.steps.map (Start.title earlier) ∧
      inSets b = account.sets.map (Start.title earlier) ∧
      m.run ⟨earlier + first, here⟩ =
        (b, ⟨earlier + first + ns.length, here ++ account.notices.map (Notice.diagnostic earlier)⟩)

theorem Account.covers_others {ds : List Diagnostic} (h : ∀ d ∈ ds, d.problem.madeUp? = none) :
    (Account.mk [] [] (ds.map .other)).Covers [] where
  places := .nil
  nameless := by rw [Notice.nameless?_others, List.filter_nil]
  apart := Notice.apart_others.mpr h

theorem Account.Covers.append {here there : Account} {xs ys : List Start} (h : here.Covers xs)
    (h' : there.Covers ys) : (Account.mk (here.steps ++ there.steps) (here.sets ++ there.sets)
      (here.notices ++ there.notices)).Covers (xs ++ ys) where
  places := by
    -- The data sets of the first come before the steps of the second.
    have hswap : (here.steps ++ there.steps ++ (here.sets ++ there.sets)).Perm
        (here.steps ++ here.sets ++ (there.steps ++ there.sets)) := by
      rw [List.append_assoc, List.append_assoc]
      refine .append_left _ ?_
      rw [← List.append_assoc, ← List.append_assoc]
      exact List.perm_append_comm.append_right _
    exact hswap.trans (h.places.append h'.places)
  nameless := by
    rw [List.filterMap_append, List.filter_append]
    exact h.nameless.append h'.nameless
  apart := Notice.apart_append.mpr ⟨h.apart, h'.apart⟩

/-- The account of a controller, from that of its steps and the reports on its share. -/
theorem Account.Covers.controller {account : Account} {xs : List Start} (h : account.Covers xs)
    (x : Start) {ds : List Diagnostic} (hds : ∀ d ∈ ds, d.problem.madeUp? = none) :
    (Account.mk (x :: (account.steps ++ account.sets)) []
      (account.notices ++ (Notice.ofName x ++ ds.map .other))).Covers (x :: xs) where
  places := by
    rw [List.append_nil]
    exact h.places.cons x
  nameless := by
    rw [List.filterMap_append, List.filterMap_append, Notice.nameless?_others, List.append_nil,
      Notice.nameless?_ofName, ← List.singleton_append (l := xs), List.filter_append]
    exact List.perm_append_comm.trans (h.nameless.append_left _)
  apart :=
    Notice.apart_append.mpr ⟨h.apart, Notice.apart_append.mpr
      ⟨Notice.apart_ofName x, Notice.apart_others.mpr hds⟩⟩

namespace Numbers

variable {m : Reading α} {k : Reading β} {ns ms : List Node}

/-- What comes of a constant reading and has no controllers in it. -/
theorem of_constant {δ : Type} {m : Reading δ} (hm : Constant m) (g : δ → α)
    (hs : ∀ a, inSteps (g a) = []) (hd : ∀ a, inSets (g a) = []) :
    Numbers (m >>= fun a => pure (g a)) [] := by
  obtain ⟨a, ds, hds, hrun⟩ := hm
  intro first
  refine ⟨untitled (g a), ⟨[], [], ds.map .other⟩, Account.covers_others hds, fun earlier here => ?_⟩
  refine ⟨g a, rfl, hs a, hd a, ?_⟩
  rw [Sheds.run_bind, hrun, Notice.diagnostic_others]
  rfl

theorem pure {a : α} (hs : inSteps a = []) (hd : inSets a = []) : Numbers (pure a) [] :=
  of_constant (Constant.pure ()) (fun _ => a) (fun _ => hs) (fun _ => hd)

/-- The records are wrapped up, with the same names in the same places. -/
theorem map (hm : Numbers m ns) {g : α → β} (hu : ∀ a, untitled (g a) = g (untitled a))
    (hs : ∀ a, inSteps (g a) = inSteps a) (hd : ∀ a, inSets (g a) = inSets a) :
    Numbers (m >>= fun a => Pure.pure (g a)) ns := by
  intro first
  obtain ⟨a, account, hcovers, hrun⟩ := hm first
  refine ⟨g a, account, hcovers, fun earlier here => ?_⟩
  obtain ⟨b, hb, hsteps, hsets, hrun⟩ := hrun earlier here
  refine ⟨g b, by rw [hu, hb], by rw [hs, hsteps], by rw [hd, hsets], ?_⟩
  rw [Sheds.run_bind, hrun]
  rfl

/-- The records are wrapped up with something else, and names among steps come to stand among data sets. -/
theorem moved {δ : Type} {k : Reading δ} (hm : Numbers m ns) (hk : Constant k) {g : α → δ → β}
    (hu : ∀ a x, untitled (g a x) = g (untitled a) x) (hs : ∀ a x, inSteps (g a x) = inSets a)
    (hd : ∀ a x, inSets (g a x) = inSteps a) :
    Numbers (do let a ← m; let x ← k; return g a x) ns := by
  obtain ⟨x, ds, hds, hk⟩ := hk
  intro first
  obtain ⟨a, account, hcovers, hrun⟩ := hm first
  have hcovers' : (Account.mk account.sets account.steps (account.notices ++ ds.map .other)).Covers
      (ns.zipIdx first) := by
    refine ⟨List.perm_append_comm.trans hcovers.places, ?_, ?_⟩
    · rw [List.filterMap_append, Notice.nameless?_others, List.append_nil]
      exact hcovers.nameless
    · exact Notice.apart_append.mpr ⟨hcovers.apart, Notice.apart_others.mpr hds⟩
  refine ⟨g a x, _, hcovers', fun earlier here => ?_⟩
  obtain ⟨b, hb, hsteps, hsets, hrun⟩ := hrun earlier here
  refine ⟨g b x, by rw [hu, hb], by rw [hs, hsets], by rw [hd, hsteps], ?_⟩
  rw [Sheds.run_bind, hrun, Sheds.run_bind, hk, List.map_append, Notice.diagnostic_others,
    List.append_assoc]
  rfl

/-- One reading after another, with their records side by side. -/
theorem join (hm : Numbers m ns) (hk : Numbers k ms) {g : α → β → γ}
    (hu : ∀ a b, untitled (g a b) = g (untitled a) (untitled b))
    (hs : ∀ a b, inSteps (g a b) = inSteps a ++ inSteps b)
    (hd : ∀ a b, inSets (g a b) = inSets a ++ inSets b) :
    Numbers (do let a ← m; let b ← k; return g a b) (ns ++ ms) := by
  intro first
  obtain ⟨a, here, hcovers, hrun⟩ := hm first
  obtain ⟨b, there, hcovers', hrun'⟩ := hk (first + ns.length)
  rw [List.zipIdx_append]
  refine ⟨g a b, _, hcovers.append hcovers', fun earlier log => ?_⟩
  obtain ⟨x, hx, hxs, hxd, hrun⟩ := hrun earlier log
  obtain ⟨y, hy, hys, hyd, hrun'⟩ :=
    hrun' earlier (log ++ here.notices.map (Notice.diagnostic earlier))
  refine ⟨g x y, by rw [hu, hx, hy], ?_, ?_, ?_⟩
  · rw [hs, hxs, hys, List.map_append]
  · rw [hd, hxd, hyd, List.map_append]
  · rw [← Nat.add_assoc] at hrun'
    rw [Sheds.run_bind, hrun, Sheds.run_bind, hrun', List.length_append, List.map_append,
      List.append_assoc, Nat.add_assoc (earlier + first)]
    rfl

end Numbers

/-- Reading one after another begins the controllers of all. -/
theorem Sequential.numbers {δ : Type} {g : List δ → Reading β} {one : δ → Reading α} {join : α → β → β}
    {last : β} (h : Sequential g one join last) (hs : inSteps last = []) (hd : inSets last = [])
    (hu : ∀ a b, untitled (join a b) = join (untitled a) (untitled b))
    (hsteps : ∀ a b, inSteps (join a b) = inSteps a ++ inSteps b)
    (hsets : ∀ a b, inSets (join a b) = inSets a ++ inSets b) {ns : δ → List Node} {xs : List δ}
    (hone : ∀ x ∈ xs, Numbers (one x) (ns x)) : Numbers (g xs) (xs.flatMap ns) := by
  induction xs with
  | nil =>
    rw [h.nil]
    exact .pure hs hd
  | cons x xs ih =>
    obtain ⟨hx, hxs⟩ := List.forall_mem_cons.mp hone
    rw [h.cons, List.flatMap_cons]
    exact hx.join (ih hxs) hu hsteps hsets

end

/-! The readers of elements. -/

/-- The share of a controller, and the problem if it is the default. -/
def Controller.shareOf (settings : Settings) (n : Node) : Number.Double × List Problem :=
  match share settings (n.last? "percent" <|> n.last? "precent") with
  | .ok p => (p, [])
  | .error p => (settings.defaultPercent, [p])

/-- The fields of a controller that have no place of their own. -/
def Controller.extraOf (n : Node) : Fields :=
  (Node.fieldsOf (n.children.filter fun c => !stepKinds.contains c.kind)).without known

/-- The controller that an element describes, with its number and what its steps come to. -/
def Controller.around (settings : Settings) (n : Node) (ordinal : Nat) (r : Parts) : Controller :=
  ⟨(n.last? "name").getD (nameOf ordinal), (shareOf settings n).1, r.1, r.2, extraOf n, n.line⟩

/-- The reports on the element itself. -/
def Controller.reports (settings : Settings) (n : Node) (ordinal : Nat) : List Diagnostic :=
  (if (n.last? "name").isNone then [⟨.noControllerName (nameOf ordinal), n.place⟩] else []) ++
    (shareOf settings n).2.map (⟨·, n.place⟩)

/-- A controller takes its number before its steps are read, and its name after that. -/
theorem run_controller (ctx : Context) (n : Node) (log : Log) :
    (Controller.ofNode ctx n).run log =
      let r := (Controller.steps ctx n.children).run ⟨log.controllers + 1, log.diagnostics⟩
      (Controller.around ctx.settings n log.controllers r.1,
        ⟨r.2.controllers, r.2.diagnostics ++ Controller.reports ctx.settings n log.controllers⟩) := by
  obtain ⟨tag, children, attributes, content, line, source⟩ := n
  have hfield : ∀ field, Controller.stepKinds.contains (.ofName field) = false →
      (Node.fieldsOf (children.filter fun c => !Controller.stepKinds.contains c.kind)).get? field =
        Node.last? ⟨tag, children, attributes, content, line, source⟩ field := by
    intro field hno
    refine Node.get?_fieldsOf_filter
      (n := ⟨tag, children, attributes, content, line, source⟩) fun c hc => ?_
    rw [Node.kind, hc, hno]
    rfl
  simp only [Controller.around, Controller.reports, Controller.shareOf, Controller.extraOf,
    ← hfield "name" rfl, ← hfield "percent" rfl, ← hfield "precent" rfl]
  rw [Controller.ofNode]
  dsimp only
  generalize (Node.fieldsOf (children.filter fun c => !Controller.stepKinds.contains c.kind)) = fs
  cases fs.get? "name" with
  | none =>
    cases Controller.share ctx.settings (fs.get? "percent" <|> fs.get? "precent") with
    | ok share => rfl
    | error p => exact congrArg (fun ds => (_, Log.mk _ ds)) (List.append_assoc _ _ _)
  | some name =>
    cases Controller.share ctx.settings (fs.get? "percent" <|> fs.get? "precent") with
    | ok share => exact congrArg (fun ds => (_, Log.mk _ ds)) (List.append_nil _).symm
    | error p => rfl

/-- No problem with a share is about a name. -/
theorem madeUp?_shareOf (settings : Settings) (n : Node) :
    ∀ p ∈ (Controller.shareOf settings n).2, p.madeUp? = none := by
  intro p hp
  unfold Controller.shareOf at hp
  rcases share_cases settings (n.last? "percent" <|> n.last? "precent") with
    ⟨share, hshare, -⟩ | ⟨q, hshare, hlack, -⟩
  · rw [hshare] at hp
    cases hp
  · rw [hshare] at hp
    obtain rfl := List.mem_singleton.mp hp
    cases p <;> first | rfl | cases hlack

/-- A script begins these controllers. -/
def Context.Numbers (ctx : Context) (scripts : Node → List Node) : Prop :=
  ∀ n, Scenario.Numbers (ctx.spliced n) (scripts n)

variable {ctx : Context} {scripts : Node → List Node}

/-- The controller itself comes first, then those among its steps. -/
theorem controller_numbers_of_steps {n : Node} {ns : List Node}
    (hs : Numbers (Controller.steps ctx n.children) ns) : Numbers (Controller.ofNode ctx n) (n :: ns) := by
  intro first
  obtain ⟨steps, account, hcovers, hrun⟩ := hs (first + 1)
  let share := (Controller.shareOf ctx.settings n).2.map (⟨·, n.place⟩ : Problem → Diagnostic)
  have hshare : ∀ d ∈ share, d.problem.madeUp? = none :=
    List.forall_mem_map.mpr fun p hp => madeUp?_shareOf ctx.settings n p hp
  have hreports : ∀ earlier, (Notice.ofName (n, first)).map (Notice.diagnostic earlier) ++ share =
      Controller.reports ctx.settings n (earlier + first) := by
    intro earlier
    unfold Notice.ofName Start.isNameless Controller.reports
    split <;> rfl
  refine ⟨⟨"", (Controller.shareOf ctx.settings n).1, steps.1, steps.2, Controller.extraOf n, n.line⟩,
    _, hcovers.controller (n, first) hshare, fun earlier here => ?_⟩
  obtain ⟨parts, rfl, hsteps, hsets, hrun⟩ := hrun earlier here
  rw [← Nat.add_assoc] at hrun
  refine ⟨Controller.around ctx.settings n (earlier + first) parts, rfl, ?_, rfl, ?_⟩
  · rw [List.map_cons, List.map_append, ← hsteps, ← hsets]
    rfl
  · rw [run_controller]
    simp only [hrun, List.map_append, Notice.diagnostic_others, hreports, List.append_assoc,
      List.length_cons]
    rw [Nat.add_assoc (earlier + first), Nat.add_comm 1]

theorem stepOf_numbers_of_controller (hx : ctx.Numbers scripts) {c : Node}
    (hc : Numbers (Controller.ofNode ctx c) (Controller.starts scripts c)) :
    Numbers (stepOf ctx c) (match c.kind with
      | .controller => Controller.starts scripts c
      | .script => if c.hasChildren then scripts c else []
      | _ => []) := by
  unfold stepOf
  cases c.kind with
  | http =>
    exact Numbers.of_constant (request_constant c) (fun r => (([.request r], []) : Parts)) (fun _ => rfl)
      fun _ => rfl
  | loop =>
    exact Numbers.of_constant (loop_constant c) (fun l => (([.loop l], []) : Parts)) (fun _ => rfl) fun _ => rfl
  | controller =>
    exact hc.map (g := fun k => (([.controller k], []) : Parts)) (fun _ => rfl)
      (fun _ => List.append_nil _) fun _ => rfl
  | script =>
    cases c.hasChildren with
    | true => exact hx c
    | false => exact .pure rfl rfl
  | _ => exact .pure rfl rfl

theorem parts_numbers {δ : Type} {g : List δ → Reading Parts} {one : δ → Reading Parts}
    (h : Sequential g one (fun here after => (here.1 ++ after.1, here.2 ++ after.2)) ([], []))
    {ns : δ → List Node} {xs : List δ} (hone : ∀ x ∈ xs, Numbers (one x) (ns x)) :
    Numbers (g xs) (xs.flatMap ns) :=
  h.numbers rfl rfl
    (fun a b => Prod.ext (untitledSteps_append a.1 b.1) (untitledSets_append a.2 b.2))
    (fun a b => titlesOfSteps_append a.1 b.1) (fun a b => titlesOfSets_append a.2 b.2) hone

mutual

theorem controller_numbers (hx : ctx.Numbers scripts) :
    ∀ n : Node, Numbers (Controller.ofNode ctx n) (Controller.starts scripts n)
  | ⟨_, children, _, _, _, _⟩ => by
    rw [Controller.starts]
    exact controller_numbers_of_steps (steps_numbers hx children)

theorem steps_numbers (hx : ctx.Numbers scripts) :
    ∀ cs : List Node, Numbers (Controller.steps ctx cs) (startsOfSteps scripts cs)
  | [] => by
    rw [Controller.steps, startsOfSteps]
    exact .pure rfl rfl
  | c :: cs => by
    rw [startsOfSteps, (steps_sequential ctx).cons]
    exact (stepOf_numbers_of_controller hx (controller_numbers hx c)).join (steps_numbers hx cs)
      (fun a b => Prod.ext (untitledSteps_append a.1 b.1) (untitledSets_append a.2 b.2))
      (fun a b => titlesOfSteps_append a.1 b.1) fun a b => titlesOfSets_append a.2 b.2

end

theorem step?_numbers (hx : ctx.Numbers scripts) (n : Node) :
    Numbers (step? ctx n) (startsOfStep? scripts n) := by
  unfold step? startsOfStep?
  cases n.kind with
  | http =>
    exact Numbers.of_constant (request_constant n) (fun r => some (Entry.request r)) (fun _ => rfl)
      fun _ => rfl
  | loop =>
    exact Numbers.of_constant (loop_constant n) (fun l => some (Entry.loop l)) (fun _ => rfl) fun _ => rfl
  | controller =>
    exact (controller_numbers hx n).map (g := fun k => some (Entry.controller k)) (fun _ => rfl)
      (fun _ => List.append_nil _) fun _ => rfl
  | _ => exact .pure rfl rfl

/-- Steps that are read one after another, as far as there are some. -/
theorem filterMapM_numbers {f : Node → Reading (Option Entry)} {ns : Node → List Node} (xs : List Node)
    (h : ∀ x, Numbers (f x) (ns x)) : Numbers (xs.filterMapM f) (xs.flatMap ns) := by
  have hu : ∀ (o : Option Entry) (es : List Entry),
      untitled (o.toList ++ es) = (untitled o).toList ++ untitled es := by
    intro o es
    cases o <;> rfl
  have hsets : ∀ (o : Option Entry) (es : List Entry),
      inSets (o.toList ++ es) = inSets o ++ inSets es := fun _ _ => rfl
  exact (Sequential.filterMapM f).numbers rfl rfl hu (fun o es => titlesOfSteps_append _ es) hsets
    fun x _ => h x

theorem repetition_numbers (hx : ctx.Numbers scripts) (n : Node) :
    Numbers (repetition ctx n) (startsOfRepetition scripts n) := by
  unfold repetition
  exact (filterMapM_numbers n.children (step?_numbers hx)).map (g := Entry.repeated) (fun _ => rfl)
    (fun _ => rfl) fun _ => rfl

theorem dataStep?_numbers (hx : ctx.Numbers scripts) (n : Node) :
    Numbers (dataStep? ctx n) (startsOfDataStep? scripts n) := by
  unfold dataStep? startsOfDataStep?
  split
  · split
    · rw [map_eq_pure_bind]
      exact (repetition_numbers hx n).map (fun _ => rfl) (fun _ => List.append_nil _) fun _ => rfl
    · exact .pure rfl rfl
  · exact step?_numbers hx n

/-- The controllers among the steps of a data set stand in the data set. -/
theorem dataSet_numbers (hx : ctx.Numbers scripts) (n : Node) :
    Numbers (DataSet.ofNode ctx n) (DataSet.starts scripts n) := by
  unfold DataSet.ofNode
  exact Numbers.moved (filterMapM_numbers n.children (dataStep?_numbers hx))
    (Constant.orDefault rfl _ _ n) (fun _ _ => rfl) (fun _ _ => rfl) fun _ _ => rfl

theorem ofElement_numbers (hx : ctx.Numbers scripts) (n : Node) :
    Numbers (ofElement ctx n) (startsOfElement scripts n) := by
  have hempty : Numbers (pure empty : Reading Scenario) [] := .pure rfl rfl
  unfold ofElement startsOfElement
  cases n.kind with
  | timer =>
    cases n.hasChildren with
    | true =>
      refine Numbers.of_constant (timer_constant n) (fun t => (⟨t.toList.map .timer, [], []⟩ : Scenario)) (fun t => ?_)
        fun _ => rfl
      cases t <;> rfl
    | false => exact hempty
  | loop =>
    cases n.hasChildren with
    | true =>
      exact Numbers.of_constant (loop_constant n) (fun l => (⟨[.loop l], [], []⟩ : Scenario)) (fun _ => rfl) fun _ => rfl
    | false => exact hempty
  | controller =>
    cases n.hasChildren with
    | true =>
      exact (controller_numbers hx n).map (g := fun c => (⟨[.controller c], [], []⟩ : Scenario))
        (fun _ => rfl) (fun _ => List.append_nil _) fun _ => rfl
    | false => exact hempty
  | testinfo => exact .pure rfl rfl
  | http =>
    exact Numbers.of_constant (request_constant n) (fun r => (⟨[.request r], [], []⟩ : Scenario)) (fun _ => rfl)
      fun _ => rfl
  | csv =>
    cases n.hasChildren with
    | true =>
      exact (dataSet_numbers hx n).map (g := fun d => (⟨[], [d], []⟩ : Scenario)) (fun _ => rfl)
        (fun _ => rfl) fun _ => List.append_nil _
    | false => exact hempty
  | script =>
    cases n.hasChildren with
    | true =>
      exact (hx n).map (g := fun r => (⟨r.1, r.2, []⟩ : Scenario)) (fun _ => rfl) (fun _ => rfl)
        fun _ => rfl
    | false => exact hempty
  | _ => exact hempty

theorem ofElements_numbers (hx : ctx.Numbers scripts) (ns : List Node) :
    Numbers (ofElements ctx ns) (ns.flatMap (startsOfElement scripts)) := by
  refine (ofElements_sequential ctx).numbers rfl rfl (fun s t => ?_)
    (fun s t => titlesOfSteps_append s.stack t.stack) (fun s t => titlesOfSets_append s.dataSets t.dataSets)
    fun n _ => ofElement_numbers hx n
  exact congrArg₂ (Scenario.mk · · _) (untitledSteps_append _ _) (untitledSets_append _ _)

/-! Documents. -/

section

variable {disk : Storage.Disk} {settings : Settings} {chain : List Storage.Path}

/-- Why a document cannot be opened is not about a name. -/
theorem madeUp?_of_opened {n : Node} {p : Problem} (h : opened disk settings chain n = .error p) :
    p.madeUp? = none := by
  rcases opened_eq_error_iff.mp h with hi | ⟨place, e, -, -, rfl⟩
  · have hk := kind_of_included hi
    cases p with
    | noControllerName => cases hk
    | _ => rfl
  · cases e <;> rfl

variable {inside : List Storage.Path → Node → Reading Scenario}
  {below : List Storage.Path → Node → List Node}

theorem splice_numbers (hin : ∀ chain root, Numbers (inside chain root) (below chain root)) (n : Node) :
    Numbers (splice disk settings chain inside n)
      (match opened disk settings chain n with
        | .ok (place, root) => below (chain ++ [place]) root
        | .error _ => []) := by
  rw [splice_eq]
  cases ho : opened disk settings chain n with
  | error p =>
    exact Numbers.of_constant (Constant.report (madeUp?_of_opened ho) n) (fun _ => empty) (fun _ => rfl)
      fun _ => rfl
  | ok o => exact hin _ _

theorem spliceAll_numbers (hin : ∀ chain root, Numbers (inside chain root) (below chain root))
    (script : Node) :
    Numbers (spliceAll disk settings chain inside script.children)
      (startsOfScript disk settings below chain script) := by
  have hone : ∀ n : Node, Numbers
      (parts <$> if n.name = "file" then splice disk settings chain inside n else pure empty)
      (if n.name = "file" then
        match opened disk settings chain n with
        | .ok (place, root) => below (chain ++ [place]) root
        | .error _ => []
      else []) := by
    intro n
    rw [map_eq_pure_bind]
    split
    · exact (splice_numbers hin n).map (fun _ => rfl) (fun _ => rfl) fun _ => rfl
    · exact (Numbers.pure rfl rfl).map (fun _ => rfl) (fun _ => rfl) fun _ => rfl
  exact parts_numbers ⟨rfl, spliceAll_cons⟩ fun n _ => hone n

theorem ofDocument_numbers (depth : Nat) (chain : List Storage.Path) (root : Node) :
    Numbers (ofDocument disk settings depth chain root)
      (startsOfDocument disk settings depth chain root) := by
  induction depth generalizing chain root with
  | zero => exact ofElements_numbers (fun _ => spliceAll_numbers (fun _ _ => .pure rfl rfl) _) _
  | succ depth ih => exact ofElements_numbers (fun _ => spliceAll_numbers ih _) _

theorem ofDescription_numbers (root : Node) :
    Numbers (ofDescription disk settings root) (starts disk settings root) :=
  ofDocument_numbers _ _ root

end

/-- Where every controller has a name, nothing depends on what was read before. -/
theorem Numbers.run_of_named {m : Reading Scenario} {ns : List Node} (h : Numbers m ns)
    (hn : ∀ n ∈ ns, (n.last? "name").isSome) :
    ∃ s ds, ∀ log, m.run log = (s, ⟨log.controllers + ns.length, log.diagnostics ++ ds⟩) := by
  obtain ⟨a, account, hcovers, hrun⟩ := h 0
  have hnamed : ∀ x ∈ ns.zipIdx, Start.isNameless x = false := by
    intro x hx
    have hname := hn x.1 (List.fst_mem_of_mem_zipIdx hx)
    simpa [Start.isNameless, Option.isNone_iff_eq_none, Option.isSome_iff_ne_none] using hname
  have htitle : ∀ earlier, ∀ x ∈ account.steps ++ account.sets, x.title earlier = x.title 0 := by
    intro earlier x hx
    have hname := hnamed x (hcovers.places.subset hx)
    unfold Start.isNameless at hname
    unfold Start.title
    cases hl : x.1.last? "name" with
    | none => simp [hl] at hname
    | some name => rfl
  have hreport : ∀ earlier, ∀ notice ∈ account.notices,
      notice.diagnostic earlier = notice.diagnostic 0 := by
    intro earlier notice hmem
    cases notice with
    | other d => rfl
    | nameless x =>
      have hx : x ∈ account.notices.filterMap Notice.nameless? := List.mem_filterMap.mpr ⟨_, hmem, rfl⟩
      have hx := List.mem_filter.mp (hcovers.nameless.subset hx)
      rw [hnamed x hx.1] at hx
      cases hx.2
  obtain ⟨s, hu, hsteps, hsets, -⟩ := hrun 0 []
  refine ⟨s, account.notices.map (Notice.diagnostic 0), fun log => ?_⟩
  obtain ⟨t, hu', hsteps', hsets', hrun⟩ := hrun log.controllers log.diagnostics
  have hsame : t = s := by
    refine eq_of_untitled (hu'.trans hu.symm) ?_ ?_
    · rw [hsteps, hsteps']
      exact List.map_congr_left fun x hx => htitle _ x (List.mem_append_left _ hx)
    · rw [hsets, hsets']
      exact List.map_congr_left fun x hx => htitle _ x (List.mem_append_right _ hx)
  rw [← hsame, ← List.map_congr_left (hreport log.controllers)]
  exact hrun

/-! Documents one after another. -/

instance : Titled (List Scenario) :=
  ⟨List.map untitled, List.flatMap inSteps, List.flatMap inSets⟩

variable (disk : Storage.Disk) (settings : Settings)

/-- Descriptions are read one after another, with one count of controllers and one list of reports. -/
def collectAll (roots : List Node) : Reading (List Scenario) :=
  roots.mapM (ofDescription disk settings)

theorem collectAll_numbers (roots : List Node) :
    Numbers (collectAll disk settings roots) (roots.flatMap (starts disk settings)) :=
  (Sequential.mapM _).numbers rfl rfl (fun _ _ => rfl) (fun _ _ => List.flatMap_cons)
    (fun _ _ => List.flatMap_cons) fun root _ => ofDescription_numbers root

/-- A description among others is read after those before it, whatever comes later. -/
theorem getElem?_collectAll (earlier later : List Node) (root : Node) (log : Log) :
    ((collectAll disk settings (earlier ++ root :: later)).run log).1[earlier.length]? =
      some ((ofDescription disk settings root).run
        ((collectAll disk settings earlier).run log).2).1 := by
  unfold collectAll
  induction earlier generalizing log with
  | nil =>
    rw [List.nil_append, List.mapM_cons]
    rfl
  | cons first earlier ih =>
    rw [List.cons_append, List.mapM_cons, List.mapM_cons]
    exact ih _

/-- The names that are made up while descriptions are read all differ. -/
theorem madeUp_nodup (roots : List Node) :
    (((collectAll disk settings roots).run .empty).2.diagnostics.filterMap (·.problem.madeUp?)).Nodup := by
  obtain ⟨_, account, hcovers, hrun⟩ := collectAll_numbers disk settings roots 0
  obtain ⟨_, -, -, -, hrun⟩ := hrun 0 []
  have hnumbers : ((account.notices.filterMap Notice.nameless?).map Prod.snd).Nodup := by
    have hsub : (((roots.flatMap (starts disk settings)).zipIdx.filter Start.isNameless).map
        Prod.snd).Nodup := by
      refine ((List.filter_sublist).map Prod.snd).nodup ?_
      rw [List.zipIdx_map_snd]
      exact List.nodup_range'
    exact (hcovers.nameless.map Prod.snd).nodup_iff.mpr hsub
  have hnames := Notice.madeUp?_diagnostic hcovers.apart 0
  have hsplit : (fun x : Start => nameOf (0 + x.2)) = nameOf ∘ Prod.snd := by
    funext x
    rw [Nat.zero_add]
    rfl
  rw [Log.empty, hrun, List.nil_append, hnames, hsplit, ← List.map_map]
  exact hnumbers.map nameOf_injective

/-- What is collected and reported as an account tells it, after as many controllers of earlier documents. -/
structure Account.Tells (account : Account) (earlier : Nat) (s : Scenario) (reports : List Diagnostic) :
    Prop where
  steps : inSteps s = account.steps.map (Start.title earlier)
  sets : inSets s = account.sets.map (Start.title earlier)
  reports : reports = account.notices.map (Notice.diagnostic earlier)

/-- A description that is read after others gives what it gives by itself, but for the names that are made
up for controllers: each has the number of controllers that began before, in the earlier descriptions as
well as in this one, so that no name is made up twice. -/
theorem collected_in_turn (root : Node) :
    ∃ account : Account, account.Covers (starts disk settings root).zipIdx ∧
      let fresh := (ofDescription disk settings root).run .empty
      account.Tells 0 fresh.1 fresh.2.diagnostics ∧
      ∀ earlier later : List Node,
        let before := ((collectAll disk settings earlier).run .empty).2
        let turn := (ofDescription disk settings root).run before
        let all := (collectAll disk settings (earlier ++ root :: later)).run .empty
        before.controllers = (earlier.flatMap (starts disk settings)).length ∧
          all.1[earlier.length]? = some turn.1 ∧ untitled turn.1 = untitled fresh.1 ∧
          (∃ reports, turn.2.diagnostics = before.diagnostics ++ reports ∧
            account.Tells before.controllers turn.1 reports) ∧
          (all.2.diagnostics.filterMap (·.problem.madeUp?)).Nodup := by
  have hnumbers : Numbers (ofDescription disk settings root) (starts disk settings root) :=
    ofDescription_numbers root
  obtain ⟨s, account, hcovers, hrun⟩ := hnumbers 0
  obtain ⟨t, rfl, hsteps, hsets, hfresh⟩ := hrun 0 []
  have hfresh : (ofDescription disk settings root).run .empty = (t, _) := hfresh
  refine ⟨account, hcovers, ?_⟩
  rw [hfresh]
  refine ⟨⟨hsteps, hsets, List.nil_append _⟩, fun earlier later => ?_⟩
  have hcount : ((collectAll disk settings earlier).run .empty).2.controllers =
      (earlier.flatMap (starts disk settings)).length := by
    obtain ⟨_, _, -, hbefore⟩ := collectAll_numbers disk settings earlier 0
    obtain ⟨_, -, -, -, hbefore⟩ := hbefore 0 []
    rw [Log.empty, hbefore]
    simp
  obtain ⟨t', hu', hsteps', hsets', hturn⟩ := hrun
    ((collectAll disk settings earlier).run .empty).2.controllers
    ((collectAll disk settings earlier).run .empty).2.diagnostics
  have hturn : (ofDescription disk settings root).run ((collectAll disk settings earlier).run .empty).2 =
      (t', _) := hturn
  refine ⟨hcount, getElem?_collectAll disk settings earlier later root .empty, ?_, ?_,
    madeUp_nodup disk settings _⟩
  · rw [hturn]
    exact hu'
  · rw [hturn]
    exact ⟨_, rfl, hsteps', hsets', rfl⟩

end Scenario

end LoadPlan
