import LoadPlan.Proofs.Scenario.Recognition

/-! Reading as far as the next script element, and on from there with whatever the script brings in. What
is read of a document is the same in both ways, and nothing that was reported is taken back. -/
namespace LoadPlan.Scenario

open LoadPlan.Description (Node Kind)

/-- The steps and data sets that a script brings in. -/
abbrev Parts := List Entry × List DataSet

/-- The way that reading takes: it comes to its end, or to a script element, and then goes on with the
parts that the script brings in and with the log as it is after that. -/
inductive Course (α : Type)
  | done (a : α) (log : Log)
  | script (n : Node) (log : Log) (next : Parts → Log → Course α)

/-- Reports were added to a log, none of which ends the reading of a description. -/
def Log.Grows (log later : Log) : Prop :=
  ∃ ds, later.diagnostics = log.diagnostics ++ ds ∧ ∀ g ∈ ds, Answered g

theorem Log.Grows.refl (log : Log) : log.Grows log :=
  ⟨[], (List.append_nil _).symm, by simp⟩

theorem Log.Grows.trans {log later last : Log} (h : log.Grows later) (h' : later.Grows last) :
    log.Grows last := by
  obtain ⟨ds, hds, hanswered⟩ := h
  obtain ⟨es, hes, hanswered'⟩ := h'
  exact ⟨ds ++ es, by rw [hes, hds, List.append_assoc], List.forall_mem_append.mpr ⟨hanswered, hanswered'⟩⟩

theorem Log.Grows.isPrefix {log later : Log} (h : log.Grows later) :
    log.diagnostics <+: later.diagnostics := by
  obtain ⟨ds, hds, -⟩ := h
  exact ⟨ds, hds.symm⟩

namespace Course

variable {α β : Type}

/-- The end of the way if scripts bring in what is said of them. -/
def read (spliced : Node → Reading Parts) : Course α → α × Log
  | .done a log => (a, log)
  | .script n log next => (next ((spliced n).run log).1 ((spliced n).run log).2).read spliced

def bind : Course α → (α → Log → Course β) → Course β
  | .done a log, f => f a log
  | .script n log next, f => .script n log fun parts log => (next parts log).bind f

theorem read_bind (spliced : Node → Reading Parts) (c : Course α) (f : α → Log → Course β) :
    (c.bind f).read spliced = (f (c.read spliced).1 (c.read spliced).2).read spliced := by
  induction c with
  | done a log => rfl
  | script n log next ih => exact ih _ _

theorem bind_done (c : Course α) : c.bind .done = c := by
  induction c with
  | done a log => rfl
  | script n log next ih => exact congrArg (Course.script n log) (funext fun p => funext fun l => ih p l)

theorem bind_bind {γ : Type} (c : Course α) (f : α → Log → Course β) (g : β → Log → Course γ) :
    (c.bind f).bind g = c.bind fun a log => (f a log).bind g := by
  induction c with
  | done a log => rfl
  | script n log next ih => exact congrArg (Course.script n log) (funext fun p => funext fun l => ih p l)

/-- The log grows on the whole way, apart from what scripts add. -/
def Grows (before : Log) : Course α → Prop
  | .done _ log => before.Grows log
  | .script _ log next => before.Grows log ∧ ∀ parts log, (next parts log).Grows log

theorem Grows.since {before log : Log} {c : Course α} (h : c.Grows log) (hp : before.Grows log) :
    c.Grows before := by
  cases c with
  | done a log => exact hp.trans h
  | script n log next => exact ⟨hp.trans h.1, h.2⟩

theorem Grows.bind {log : Log} {c : Course α} {f : α → Log → Course β} (hc : c.Grows log)
    (hf : ∀ a log, (f a log).Grows log) : (c.bind f).Grows log := by
  induction c generalizing log with
  | done a end_ => exact (hf a end_).since hc
  | script n end_ next ih => exact ⟨hc.1, fun parts log => ih parts log (hc.2 parts log)⟩

end Course

/-- Reading that stops at script elements. -/
def Stepwise (α : Type) : Type :=
  Log → Course α

namespace Stepwise

variable {α β : Type}

instance : Monad Stepwise where
  pure a := fun log => .done a log
  bind m f := fun log => (m log).bind f

instance : LawfulMonad Stepwise := LawfulMonad.mk' Stepwise
  (fun m => funext fun log => (m log).bind_done)
  (fun _ _ => rfl)
  (fun m f g => funext fun log => (m log).bind_bind f g)

def ofReading (m : Reading α) : Stepwise α :=
  fun log => .done (m.run log).1 (m.run log).2

/-- Stop at a script element. -/
def script (n : Node) : Stepwise Parts :=
  fun log => .script n log .done

/-- Reading to the end. -/
def read (m : Stepwise α) (spliced : Node → Reading Parts) : Reading α :=
  fun log => (m log).read spliced

end Stepwise

/-! The readers of the elements that may hold scripts, step by step. -/

namespace Stepwise

variable (disk : Storage.Disk) (settings : Settings)

mutual

def controller : Node → Stepwise Controller
  | ⟨name, children, attributes, content, line, source⟩ => do
    let node : Node := ⟨name, children, attributes, content, line, source⟩
    let log ← ofReading get
    ofReading (modify fun log => { log with controllers := log.controllers + 1 })
    let (stack, dataSets) ← steps children
    ofReading do
      let fs := Node.fieldsOf (children.filter fun c => !Controller.stepKinds.contains c.kind)
      let fallback := s!"My Controller: {log.controllers}"
      let name ← orDefault (fs.get? "name") fallback (.noControllerName fallback) node
      let used ← match Controller.share settings (fs.get? "percent" <|> fs.get? "precent") with
        | .ok p => pure p
        | .error p => do
          report p node
          pure settings.defaultPercent
      return ⟨name, used, stack, dataSets, fs.without Controller.known, line⟩

def steps : List Node → Stepwise Parts
  | [] => return ([], [])
  | c :: cs => do
    let (here, sets) ← match c.kind with
      | .http => do
        let r ← ofReading (Request.ofNode c)
        pure ([Entry.request r], [])
      | .loop => do
        let l ← ofReading (Loop.ofNode c)
        pure ([Entry.loop l], [])
      | .controller => do
        let k ← controller c
        pure ([Entry.controller k], [])
      | .script => if c.hasChildren then script c else pure ([], [])
      | _ => pure ([], [])
    let (after, more) ← steps cs
    return (here ++ after, sets ++ more)

end

def step? (n : Node) : Stepwise (Option Entry) :=
  match n.kind with
  | .http => do
    let r ← ofReading (Request.ofNode n)
    return some (.request r)
  | .controller => do
    let c ← controller settings n
    return some (.controller c)
  | .loop => do
    let l ← ofReading (Loop.ofNode n)
    return some (.loop l)
  | _ => return none

def repetition (n : Node) : Stepwise Entry := do
  let items ← n.children.filterMapM (step? settings)
  return .repeated items

def dataSet (n : Node) : Stepwise DataSet := do
  let stack ← n.children.filterMapM fun c =>
    if c.kind == .repeated then
      if c.hasChildren then some <$> repetition settings c else pure none
    else step? settings c
  ofReading do
    let fs := Node.fieldsOf (n.children.filter fun c => !DataSet.stepKinds.contains c.kind)
    let filename ← orDefault (fs.get? "filename") "" .noFilename n
    return {
      filename, stack
      name := fs.getD "name" ""
      columns := fs.getD "varnames" ""
      delimiter := fs.getD "delimiter" settings.delimiter
      recycle := match fs.get? "recycle" with
        | some v => isOn (some v)
        | none => settings.recycle
      directory := n.directory disk
      extra := fs.without DataSet.known
      line := n.line }

def element (n : Node) : Stepwise Scenario :=
  match n.kind with
  | .timer =>
    if n.hasChildren then do
      let t ← ofReading (Timer.read? n)
      return ⟨t.toList.map .timer, [], []⟩
    else return empty
  | .loop =>
    if n.hasChildren then do
      let l ← ofReading (Loop.ofNode n)
      return ⟨[.loop l], [], []⟩
    else return empty
  | .controller =>
    if n.hasChildren then do
      let c ← controller settings n
      return ⟨[.controller c], [], []⟩
    else return empty
  | .testinfo => return ⟨[], [], n.fields⟩
  | .http => do
    let r ← ofReading (Request.ofNode n)
    return ⟨[.request r], [], []⟩
  | .csv =>
    if n.hasChildren then do
      let d ← dataSet disk settings n
      return ⟨[], [d], []⟩
    else return empty
  | .script =>
    if n.hasChildren then do
      let (stack, dataSets) ← script n
      return ⟨stack, dataSets, []⟩
    else return empty
  | _ => return empty

def elements : List Node → Stepwise Scenario
  | [] => return empty
  | n :: ns => do
    let here ← element disk settings n
    let after ← elements ns
    return here.append after

end Stepwise

/-- Reading with given scripts is stepwise reading to the end, and takes back nothing. -/
structure Paced {α : Type} (m : (Node → Reading Parts) → Reading α) (c : Stepwise α) : Prop where
  read (spliced : Node → Reading Parts) : m spliced = c.read spliced
  grows (log : Log) : (c log).Grows log

namespace Paced

variable {α β : Type}

theorem ofReading {m : Reading α} {Q : α → Prop} (h : Reads m Q Answered) :
    Paced (fun _ => m) (.ofReading m) where
  read _ := rfl
  grows log := (h log).2

theorem pure (a : α) : Paced (fun _ => pure a) (pure a) where
  read _ := rfl
  grows log := .refl log

theorem script (n : Node) : Paced (fun spliced => spliced n) (.script n) where
  read _ := rfl
  grows log := ⟨.refl log, fun _ log => .refl log⟩

theorem bind {m : (Node → Reading Parts) → Reading α} {f : (Node → Reading Parts) → α → Reading β}
    {c : Stepwise α} {d : α → Stepwise β} (hm : Paced m c) (hf : ∀ a, Paced (fun s => f s a) (d a)) :
    Paced (fun spliced => m spliced >>= f spliced) (c >>= d) where
  read spliced := by
    funext log
    have hc : m spliced log = (c log).read spliced := congrFun (hm.read spliced) log
    have hd := fun a => congrFun ((hf a).read spliced)
    calc (m spliced >>= f spliced) log
        = f spliced ((c log).read spliced).1 ((c log).read spliced).2 := by rw [← hc]; rfl
      _ = (d ((c log).read spliced).1 ((c log).read spliced).2).read spliced := hd _ _
      _ = ((c log).bind d).read spliced := (Course.read_bind spliced (c log) d).symm
  grows log := (hm.grows log).bind fun a => (hf a).grows

theorem map {m : (Node → Reading Parts) → Reading α} {c : Stepwise α} (g : α → β) (h : Paced m c) :
    Paced (fun spliced => g <$> m spliced) (g <$> c) := by
  simp only [map_eq_pure_bind]
  exact h.bind fun a => pure (g a)

theorem filterMapM {γ : Type} {f : (Node → Reading Parts) → γ → Reading (Option β)}
    {d : γ → Stepwise (Option β)} (h : ∀ x, Paced (fun s => f s x) (d x)) (xs : List γ) :
    Paced (fun spliced => xs.filterMapM (f spliced)) (xs.filterMapM d) := by
  induction xs with
  | nil => exact pure []
  | cons x xs ih =>
    simp only [List.filterMapM_cons]
    refine (h x).bind fun o => ?_
    cases o with
    | none => exact ih
    | some y => exact ih.bind fun ys => pure (y :: ys)

end Paced

variable (disk : Storage.Disk) (settings : Settings)

theorem refusal?_of_rounds {field : Option String} {p : Problem} (h : Loop.rounds field = .error p) :
    p.refusal? = none := by
  unfold Loop.rounds at h
  split at h
  · cases h
    rfl
  · split at h
    · cases h
    · cases h
      rfl

theorem refusal?_of_share {field : Option String} {p : Problem}
    (h : Controller.share settings field = .error p) : p.refusal? = none := by
  unfold Controller.share at h
  split at h
  · cases h
    rfl
  · split at h
    · cases h
      rfl
    · split at h
      · cases h
      · cases h
        rfl

theorem loop_read (n : Node) : Reads (Loop.ofNode n) (fun _ => True) Answered := by
  unfold Loop.ofNode
  refine (Reads.mapM_eq fun c _ => request_read c).bind fun tests _ => ?_
  dsimp only
  split
  · exact .pure trivial
  · split
    · exact .pure trivial
    · next p hp => exact (Reads.report (refusal?_of_rounds hp)).bind fun _ _ => .pure trivial

mutual

theorem controller_paced : ∀ n : Node,
    Paced (fun spliced => Controller.ofNode ⟨disk, settings, spliced⟩ n) (Stepwise.controller settings n)
  | ⟨name, children, attributes, content, line, source⟩ => by
    have hsteps := steps_paced children
    simp only [Controller.ofNode, Stepwise.controller]
    refine (Paced.ofReading Reads.get).bind fun log => ?_
    refine (Paced.ofReading Reads.count).bind fun _ => ?_
    refine hsteps.bind fun r => ?_
    refine .ofReading (Q := fun _ => True) ?_
    refine (Reads.orDefault (R := Answered) fun _ => rfl).bind fun name _ => ?_
    split
    · exact .pure trivial
    · next p hp => exact (Reads.report (refusal?_of_share settings hp)).bind fun _ _ => .pure trivial

theorem steps_paced : ∀ cs : List Node,
    Paced (fun spliced => Controller.steps ⟨disk, settings, spliced⟩ cs) (Stepwise.steps settings cs)
  | [] => by
    simp only [Controller.steps, Stepwise.steps]
    exact .pure _
  | c :: cs => by
    have ih := steps_paced cs
    have hjoin : ∀ r : Parts, Paced
        (fun spliced => do
          let (after, more) ← Controller.steps ⟨disk, settings, spliced⟩ cs
          return (r.1 ++ after, r.2 ++ more))
        (do
          let (after, more) ← Stepwise.steps settings cs
          return (r.1 ++ after, r.2 ++ more)) :=
      fun r => ih.bind fun s => .pure _
    simp only [Controller.steps, Stepwise.steps]
    cases c.kind with
    | http => exact (Paced.ofReading (request_read c)).bind fun r => hjoin ([.request r], [])
    | loop => exact (Paced.ofReading (loop_read c)).bind fun l => hjoin ([.loop l], [])
    | controller => exact (controller_paced c).bind fun k => hjoin ([.controller k], [])
    | script =>
      cases c.hasChildren with
      | true => exact (Paced.script c).bind hjoin
      | false => exact hjoin ([], [])
    | _ => exact hjoin ([], [])

end

theorem step?_paced (n : Node) :
    Paced (fun spliced => step? ⟨disk, settings, spliced⟩ n) (Stepwise.step? settings n) := by
  unfold step? Stepwise.step?
  cases n.kind with
  | http => exact (Paced.ofReading (request_read n)).bind fun r => .pure _
  | controller => exact (controller_paced disk settings n).bind fun c => .pure _
  | loop => exact (Paced.ofReading (loop_read n)).bind fun l => .pure _
  | _ => exact .pure _

theorem repetition_paced (n : Node) :
    Paced (fun spliced => repetition ⟨disk, settings, spliced⟩ n) (Stepwise.repetition settings n) := by
  have hitems := Paced.filterMapM (step?_paced disk settings) n.children
  exact hitems.bind fun items => .pure _

theorem dataSet_paced (n : Node) :
    Paced (fun spliced => DataSet.ofNode ⟨disk, settings, spliced⟩ n)
      (Stepwise.dataSet disk settings n) := by
  have hstep : ∀ c : Node, Paced
      (fun spliced => if c.kind == .repeated then
          if c.hasChildren then some <$> repetition ⟨disk, settings, spliced⟩ c else pure none
        else step? ⟨disk, settings, spliced⟩ c)
      (if c.kind == .repeated then
          if c.hasChildren then some <$> Stepwise.repetition settings c else pure none
        else Stepwise.step? settings c) := by
    intro c
    split
    · split
      · exact (repetition_paced disk settings c).map some
      · exact .pure none
    · exact step?_paced disk settings c
  refine (Paced.filterMapM hstep n.children).bind fun stack => ?_
  dsimp only
  refine .ofReading (Q := fun _ => True) ?_
  exact (Reads.orDefault (R := Answered) fun _ => rfl).bind fun _ _ => .pure trivial

theorem element_paced (n : Node) :
    Paced (fun spliced => ofElement ⟨disk, settings, spliced⟩ n) (Stepwise.element disk settings n) := by
  have hempty : Paced (fun _ => pure empty) (pure empty : Stepwise Scenario) := .pure empty
  unfold ofElement Stepwise.element
  cases n.kind with
  | timer =>
    obtain ⟨t, ht⟩ := timer_settled n
    cases n.hasChildren with
    | true => exact (Paced.ofReading ht).bind fun t => .pure _
    | false => exact hempty
  | loop =>
    cases n.hasChildren with
    | true => exact (Paced.ofReading (loop_read n)).bind fun l => .pure _
    | false => exact hempty
  | controller =>
    cases n.hasChildren with
    | true => exact (controller_paced disk settings n).bind fun c => .pure _
    | false => exact hempty
  | testinfo => exact .pure _
  | http => exact (Paced.ofReading (request_read n)).bind fun r => .pure _
  | csv =>
    cases n.hasChildren with
    | true => exact (dataSet_paced disk settings n).bind fun d => .pure _
    | false => exact hempty
  | script =>
    cases n.hasChildren with
    | true => exact (Paced.script n).bind fun parts => .pure _
    | false => exact hempty
  | _ => exact hempty

theorem elements_paced (ns : List Node) :
    Paced (fun spliced => ofElements ⟨disk, settings, spliced⟩ ns)
      (Stepwise.elements disk settings ns) := by
  induction ns with
  | nil => exact .pure _
  | cons n ns ih => exact (element_paced disk settings n).bind fun here => ih.bind fun after => .pure _

end LoadPlan.Scenario
