import LoadPlan.Proofs.Inclusion.Inlining

/-! Readings compared. What is read depends on nothing that was reported before, and two readings that
differ in a report alone make no difference to what is read after them. -/
namespace LoadPlan.Scenario

open LoadPlan.Description (Node Kind)

/-- Two readings with the same outcome after the same number of controllers. The first one makes some more
reports, at some point between those that both make. -/
def Sheds {α : Type} (more : List Diagnostic) (m m' : Reading α) : Prop :=
  ∀ (k : Nat) (here there : List Diagnostic), ∃ a j before after,
    m.run ⟨k, here⟩ = (a, ⟨j, here ++ (before ++ more ++ after)⟩) ∧
      m'.run ⟨k, there⟩ = (a, ⟨j, there ++ (before ++ after)⟩)

/-- The outcome of a reading does not depend on what was reported before. -/
abbrev Steady {α : Type} (m : Reading α) : Prop :=
  Sheds [] m m

namespace Sheds

variable {α β : Type} {m m' : Reading α} {f f' : α → Reading β} {more : List Diagnostic}

theorem pure (a : α) : Steady (pure a) := by
  intro k here there
  refine ⟨a, k, [], [], ?_, ?_⟩
  · simp only [List.append_nil]
    rfl
  · simp only [List.append_nil]
    rfl

theorem run_bind (m : Reading α) (f : α → Reading β) (log : Log) :
    (m >>= f).run log = (f (m.run log).1).run (m.run log).2 := rfl

/-- The additional reports are made in the first part. -/
theorem first (hm : Sheds more m m') (hf : ∀ a, Sheds [] (f a) (f' a)) :
    Sheds more (m >>= f) (m' >>= f') := by
  intro k here there
  obtain ⟨a, j, before, after, hrun, hrun'⟩ := hm k here there
  obtain ⟨b, i, before₂, after₂, hrun₂, hrun₂'⟩ :=
    hf a j (here ++ (before ++ more ++ after)) (there ++ (before ++ after))
  refine ⟨b, i, before, after ++ (before₂ ++ after₂), ?_, ?_⟩
  · rw [run_bind, hrun, hrun₂]
    simp only [List.append_assoc, List.append_nil]
  · rw [run_bind, hrun', hrun₂']
    simp only [List.append_assoc]

/-- The additional reports are made in the second part. -/
theorem second (hm : Sheds [] m m') (hf : ∀ a, Sheds more (f a) (f' a)) :
    Sheds more (m >>= f) (m' >>= f') := by
  intro k here there
  obtain ⟨a, j, before, after, hrun, hrun'⟩ := hm k here there
  obtain ⟨b, i, before₂, after₂, hrun₂, hrun₂'⟩ :=
    hf a j (here ++ (before ++ [] ++ after)) (there ++ (before ++ after))
  refine ⟨b, i, before ++ after ++ before₂, after₂, ?_, ?_⟩
  · rw [run_bind, hrun, hrun₂]
    simp only [List.append_assoc, List.append_nil]
  · rw [run_bind, hrun', hrun₂']
    simp only [List.append_assoc]

theorem map (hm : Sheds more m m') (g : α → β) : Sheds more (g <$> m) (g <$> m') := by
  simp only [map_eq_pure_bind]
  exact hm.first fun a => pure (g a)

/-- A report that is made only in the first reading. -/
theorem of_report (p : Problem) (n : Node) (a : α) :
    Sheds [⟨p, n.place⟩] (do report p n; return a) (Pure.pure a) := by
  intro k here there
  refine ⟨a, k, [], [], ?_, ?_⟩
  · simp only [List.append_nil, List.nil_append]
    rfl
  · simp only [List.append_nil]
    rfl

theorem report {n n' : Node} (hn : n'.place = n.place) (p : Problem) :
    Sheds [] (report p n) (report p n') := by
  intro k here there
  refine ⟨(), k, [⟨p, n.place⟩], [], ?_, ?_⟩
  · simp only [List.append_nil]
    rfl
  · simp only [List.append_nil, ← hn]
    rfl

theorem orDefault {n n' : Node} (hn : n'.place = n.place) (field : Option String) (fallback : String)
    (p : Problem) : Sheds [] (orDefault field fallback p n) (orDefault field fallback p n') := by
  cases field with
  | none => exact (report hn p).first fun _ => pure fallback
  | some value => exact pure value

/-- A controller is counted, and takes its number from the count alone. -/
theorem numbered {f f' : Log → Reading β} (h : ∀ k here there, Sheds more (f ⟨k, here⟩) (f' ⟨k, there⟩)) :
    Sheds more
      (do
        let log ← get
        modify fun log => { log with controllers := log.controllers + 1 }
        f log)
      (do
        let log ← get
        modify fun log => { log with controllers := log.controllers + 1 }
        f' log) := by
  intro k here there
  obtain ⟨b, j, before, after, hrun, hrun'⟩ := h k here there (k + 1) here there
  exact ⟨b, j, before, after, hrun, hrun'⟩

end Sheds

/-- Reading one after another, with a result that is put together from the end on. -/
structure Sequential {α β γ : Type} (g : List γ → Reading β) (one : γ → Reading α) (join : α → β → β)
    (last : β) : Prop where
  nil : g [] = pure last
  cons (x : γ) (xs : List γ) : g (x :: xs) = do
    let a ← one x
    let b ← g xs
    return join a b

namespace Sequential

variable {α β γ : Type} {g : List γ → Reading β} {one : γ → Reading α} {join : α → β → β} {last : β}
  {more : List Diagnostic} {x x' : γ} {xs xs' : List γ}

theorem mapM (f : γ → Reading β) : Sequential (List.mapM f) f List.cons [] where
  nil := rfl
  cons _ _ := List.mapM_cons

theorem filterMapM (f : γ → Reading (Option β)) :
    Sequential (List.filterMapM f) f (fun o ys => o.toList ++ ys) [] where
  nil := rfl
  cons x xs := by
    rw [List.filterMapM_cons]
    congr 1
    funext o
    cases o with
    | none => exact (bind_pure _).symm
    | some y => rfl

theorem sheds (h : Sequential g one join last) (hx : Sheds more (one x) (one x'))
    (hxs : Sheds [] (g xs) (g xs')) : Sheds more (g (x :: xs)) (g (x' :: xs')) := by
  rw [h.cons, h.cons]
  exact hx.first fun a => hxs.first fun b => .pure _

theorem steady (h : Sequential g one join last) (hxs : ∀ x ∈ xs, Steady (one x)) : Steady (g xs) := by
  induction xs with
  | nil =>
    rw [h.nil]
    exact .pure last
  | cons x xs ih =>
    obtain ⟨hx, hxs⟩ := List.forall_mem_cons.mp hxs
    exact h.sheds hx (ih hxs)

/-- What is read before makes no difference. -/
theorem after (h : Sequential g one join last) (hone : ∀ x, Steady (one x)) (before : List γ)
    (hxs : Sheds more (g xs) (g xs')) : Sheds more (g (before ++ xs)) (g (before ++ xs')) := by
  induction before with
  | nil => exact hxs
  | cons y ys ih =>
    rw [List.cons_append, List.cons_append, h.cons, h.cons]
    exact (hone y).second fun a => ih.first fun b => .pure _

/-- One of them is another. -/
theorem among (h : Sequential g one join last) (hone : ∀ x, Steady (one x)) (before after : List γ)
    (hx : Sheds more (one x) (one x')) : Sheds more (g (before ++ x :: after)) (g (before ++ x' :: after)) :=
  h.after hone before (h.sheds hx (h.steady fun y _ => hone y))

/-- One of them is missing that adds nothing. -/
theorem without (h : Sequential g one join last) (hone : ∀ x, Steady (one x)) (before after : List γ) {a : α}
    (hx : Sheds more (one x) (pure a)) (ha : ∀ b, join a b = b) :
    Sheds more (g (before ++ x :: after)) (g (before ++ after)) := by
  have hafter : Steady (g after) := h.steady fun y _ => hone y
  have hboth := hx.first fun a => hafter.first fun b => Sheds.pure (join a b)
  simp only [pure_bind, ha, bind_pure] at hboth
  refine h.after hone before ?_
  rw [h.cons]
  exact hboth

end Sequential

/-! The readers of elements. Two elements are read alike if they are the same but for what is in them, and
what is in them is read alike. -/

/-- The same element, but for what is in it. -/
structure Resembles (n n' : Node) : Prop where
  name : n'.name = n.name
  attributes : n'.attributes = n.attributes
  line : n'.line = n.line
  source : n'.source = n.source

namespace Resembles

variable {n n' : Node}

theorem refl (n : Node) : Resembles n n :=
  ⟨rfl, rfl, rfl, rfl⟩

theorem kind (h : Resembles n n') : n'.kind = n.kind := by
  rw [Node.kind, h.name, Node.kind]

theorem place (h : Resembles n n') : n'.place = n.place := by
  rw [Node.place, h.source, h.line, Node.place]

theorem directory (h : Resembles n n') (disk : Storage.Disk) : n'.directory disk = n.directory disk := by
  rw [Node.directory, h.source, Node.directory]

end Resembles

variable {more : List Diagnostic} {n n' : Node} {disk : Storage.Disk} {settings : Settings}
  {chain : List Storage.Path} {ctx : Context}

theorem timer_steady (n : Node) : Steady (Timer.read? n) := by
  unfold Timer.read?
  cases Timer.ofNode n with
  | ok t => exact .pure _
  | error p => exact (Sheds.report rfl p).first fun _ => .pure none

theorem results_sheds (h : Resembles n n') (r : Results) (name : String) :
    Sheds [] (r.complete name n) (r.complete name n') := by
  unfold Results.complete
  exact (Sheds.orDefault h.place _ _ _).first fun file =>
    (Sheds.orDefault h.place _ _ _).first fun type => .pure _

/-- Elements apart from those of a kind. -/
theorem filter_of_filter {p q : Node → Bool} {ms ns : List Node} (h : ms.filter q = ns.filter q)
    (hp : ∀ c, p c = true → q c = true) : ms.filter p = ns.filter p := by
  have hboth : ∀ l : List Node, l.filter p = (l.filter q).filter p := by
    intro l
    rw [List.filter_filter]
    refine List.filter_congr fun c _ => ?_
    cases hc : p c with
    | false => rfl
    | true => rw [hp c hc]; rfl
  rw [hboth, h, ← hboth]

/-- All but the timers of a request is read at once. -/
theorem request_sheds (h : Resembles n n')
    (hothers : n'.children.filter (·.kind != .timer) = n.children.filter (·.kind != .timer))
    (htimers : Sheds more ((filled .timer n.children).filterMapM Timer.read?)
      ((filled .timer n'.children).filterMapM Timer.read?)) :
    Sheds more (Request.ofNode n) (Request.ofNode n') := by
  have hfilled : ∀ kind : Kind, kind ≠ .timer → filled kind n'.children = filled kind n.children := by
    intro kind hk
    refine filter_of_filter hothers fun c hc => ?_
    rw [beq_iff_eq.mp (Bool.and_eq_true_iff.mp hc).1]
    exact bne_iff_ne.mpr hk
  have hfields : Request.fieldNodes n' = Request.fieldNodes n := by
    refine filter_of_filter hothers fun c hc => bne_iff_ne.mpr fun hk => ?_
    rw [hk] at hc
    exact absurd hc (by decide)
  have hdata : n'.children.filter (·.kind == .data) = n.children.filter (·.kind == .data) := by
    refine filter_of_filter hothers fun c hc => ?_
    rw [beq_iff_eq.mp hc]
    rfl
  unfold Request.ofNode Request.describesParts
  refine htimers.first fun timers => ?_
  simp only [hfields, hdata, h.line, List.any_cons, List.any_nil, hfilled .results (by decide),
    hfilled .asserts (by decide), hfilled .regex (by decide), hfilled .upload (by decide)]
  refine (Sheds.orDefault h.place _ _ _).first fun method => ?_
  refine (Sheds.orDefault h.place _ _ _).first fun name => ?_
  cases (filled .results n.children).getLast? with
  | none => exact (Sheds.pure none).first fun _ => .pure _
  | some r => exact ((results_sheds h _ name).map some).first fun _ => .pure _

theorem request_steady (n : Node) : Steady (Request.ofNode n) :=
  request_sheds (.refl n) rfl ((Sequential.filterMapM _).steady fun c _ => timer_steady c)

theorem loop_sheds (h : Resembles n n')
    (hothers : n'.children.filter (·.kind != .http) = n.children.filter (·.kind != .http))
    (htests : Sheds more ((n.children.filter (·.kind == .http)).mapM Request.ofNode)
      ((n'.children.filter (·.kind == .http)).mapM Request.ofNode)) :
    Sheds more (Loop.ofNode n) (Loop.ofNode n') := by
  unfold Loop.ofNode
  refine htests.first fun tests => ?_
  simp only [hothers, h.line]
  split
  · exact (Sheds.pure _).first fun _ => .pure _
  · split
    · exact (Sheds.pure _).first fun _ => .pure _
    · exact (Sheds.report h.place _).first fun _ => (Sheds.pure _).first fun _ => .pure _

theorem loop_steady (n : Node) : Steady (Loop.ofNode n) :=
  loop_sheds (.refl n) rfl ((Sequential.mapM _).steady fun c _ => request_steady c)

theorem controller_sheds (h : Resembles n n')
    (hothers : (n'.children.filter fun c => !Controller.stepKinds.contains c.kind) =
      n.children.filter fun c => !Controller.stepKinds.contains c.kind)
    (hsteps : Sheds more (Controller.steps ctx n.children) (Controller.steps ctx n'.children)) :
    Sheds more (Controller.ofNode ctx n) (Controller.ofNode ctx n') := by
  obtain ⟨name, children, attributes, content, line, source⟩ := n
  obtain ⟨name', children', attributes', content', line', source'⟩ := n'
  obtain rfl : line' = line := h.line
  simp only at hothers hsteps
  simp only [Controller.ofNode]
  refine Sheds.numbered fun k here there => hsteps.first fun r => ?_
  simp only [hothers]
  refine (Sheds.orDefault h.place _ _ _).first fun title => ?_
  split
  · exact (Sheds.pure _).first fun _ => .pure _
  · exact (Sheds.report h.place _).first fun _ => (Sheds.pure _).first fun _ => .pure _

/-- What one element adds to the steps of a controller. -/
def stepOf (ctx : Context) (c : Node) : Reading Parts :=
  match c.kind with
  | .http => do
    let r ← Request.ofNode c
    return ([.request r], [])
  | .loop => do
    let l ← Loop.ofNode c
    return ([.loop l], [])
  | .controller => do
    let k ← Controller.ofNode ctx c
    return ([.controller k], [])
  | .script => if c.hasChildren then ctx.spliced c else return ([], [])
  | _ => return ([], [])

theorem steps_sequential (ctx : Context) : Sequential (Controller.steps ctx) (stepOf ctx)
    (fun here after => (here.1 ++ after.1, here.2 ++ after.2)) ([], []) where
  nil := by rw [Controller.steps]
  cons c cs := by
    rw [Controller.steps, stepOf]
    cases c.kind with
    | script => cases c.hasChildren <;> rfl
    | _ => rfl

theorem stepOf_of_controller (hscript : ∀ n, Steady (ctx.spliced n)) {c : Node}
    (hcontroller : Steady (Controller.ofNode ctx c)) : Steady (stepOf ctx c) := by
  unfold stepOf
  split
  · exact (request_steady c).first fun r => .pure _
  · exact (loop_steady c).first fun l => .pure _
  · exact hcontroller.first fun k => .pure _
  · split
    · exact hscript c
    · exact .pure _
  · exact .pure _

mutual

theorem controller_steady (hscript : ∀ n, Steady (ctx.spliced n)) :
    ∀ n : Node, Steady (Controller.ofNode ctx n)
  | ⟨_, children, _, _, _, _⟩ => controller_sheds (.refl _) rfl (steps_steady hscript children)

theorem steps_steady (hscript : ∀ n, Steady (ctx.spliced n)) :
    ∀ cs : List Node, Steady (Controller.steps ctx cs)
  | [] => (steps_sequential ctx).steady fun _ h => absurd h List.not_mem_nil
  | c :: cs => (steps_sequential ctx).sheds (stepOf_of_controller hscript (controller_steady hscript c))
      (steps_steady hscript cs)

end

section

variable (hscript : ∀ n, Steady (ctx.spliced n))
include hscript

theorem stepOf_steady (c : Node) : Steady (stepOf ctx c) :=
  stepOf_of_controller hscript (controller_steady hscript c)

theorem step?_steady (n : Node) : Steady (step? ctx n) := by
  unfold step?
  split
  · exact (request_steady n).first fun r => .pure _
  · exact (controller_steady hscript n).first fun c => .pure _
  · exact (loop_steady n).first fun l => .pure _
  · exact .pure _

theorem repetition_steady (n : Node) : Steady (repetition ctx n) :=
  ((Sequential.filterMapM _).steady fun c _ => step?_steady hscript c).first fun _ => .pure _

end

/-- What one element adds to the steps of a data set. -/
def dataStep? (ctx : Context) (c : Node) : Reading (Option Entry) :=
  if c.kind == .repeated then
    if c.hasChildren then some <$> repetition ctx c else pure none
  else step? ctx c

theorem dataSet_sheds (h : Resembles n n')
    (hothers : (n'.children.filter fun c => !DataSet.stepKinds.contains c.kind) =
      n.children.filter fun c => !DataSet.stepKinds.contains c.kind)
    (hstack : Sheds more (n.children.filterMapM (dataStep? ctx)) (n'.children.filterMapM (dataStep? ctx))) :
    Sheds more (DataSet.ofNode ctx n) (DataSet.ofNode ctx n') := by
  unfold DataSet.ofNode
  refine Sheds.first hstack fun stack => ?_
  simp only [hothers, h.line, h.directory]
  exact (Sheds.orDefault h.place _ _ _).first fun filename => .pure _

theorem ofElements_sequential (ctx : Context) :
    Sequential (ofElements ctx) (ofElement ctx) append empty where
  nil := rfl
  cons _ _ := rfl

section

variable (hscript : ∀ n, Steady (ctx.spliced n))
include hscript

theorem dataStep?_steady (c : Node) : Steady (dataStep? ctx c) := by
  unfold dataStep?
  split
  · split
    · exact (repetition_steady hscript c).map some
    · exact .pure none
  · exact step?_steady hscript c

theorem dataSet_steady (n : Node) : Steady (DataSet.ofNode ctx n) :=
  dataSet_sheds (.refl n) rfl ((Sequential.filterMapM _).steady fun c _ => dataStep?_steady hscript c)

theorem ofElement_steady (n : Node) : Steady (ofElement ctx n) := by
  have hempty : Steady (Pure.pure empty : Reading Scenario) := .pure _
  unfold ofElement
  cases n.kind with
  | timer =>
    cases n.hasChildren with
    | true => exact (timer_steady n).first fun t => .pure _
    | false => exact hempty
  | loop =>
    cases n.hasChildren with
    | true => exact (loop_steady n).first fun l => .pure _
    | false => exact hempty
  | controller =>
    cases n.hasChildren with
    | true => exact (controller_steady hscript n).first fun c => .pure _
    | false => exact hempty
  | testinfo => exact .pure _
  | http => exact (request_steady n).first fun r => .pure _
  | csv =>
    cases n.hasChildren with
    | true => exact (dataSet_steady hscript n).first fun d => .pure _
    | false => exact hempty
  | script =>
    cases n.hasChildren with
    | true => exact (hscript n).first fun r => .pure _
    | false => exact hempty
  | _ => exact hempty

theorem ofElements_steady (ns : List Node) : Steady (ofElements ctx ns) :=
  (ofElements_sequential ctx).steady fun n _ => ofElement_steady hscript n

end

/-! Scripts. -/

theorem spliceAll_sequential (disk : Storage.Disk) (settings : Settings) (chain : List Storage.Path) :
    Sequential (spliceAll disk settings chain (contents disk settings))
      (fun n => parts <$> brought disk settings chain n)
      (fun here after => (here.1 ++ after.1, here.2 ++ after.2)) ([], []) where
  nil := rfl
  cons n ns := spliceAll_cons n ns

/-- Whatever documents are included, what was reported before makes no difference. -/
theorem brought_steady (chain : List Storage.Path) (n : Node) :
    Steady (brought disk settings chain n) := by
  generalize hd : depthLeft settings chain = depth
  -- Documents that are opened leave less depth.
  induction depth using Nat.strongRecOn generalizing chain n with
  | ind depth ih =>
    unfold brought
    split
    · rw [splice_eq]
      cases ho : opened disk settings chain n with
      | error p => exact (Sheds.report rfl p).first fun _ => .pure _
      | ok o =>
        obtain ⟨place, root⟩ := o
        have hless := depthLeft_of_opened ho
        have hinner : ∀ script, Steady (spliced disk settings (chain ++ [place]) script) :=
          fun script => (spliceAll_sequential disk settings (chain ++ [place])).steady fun m _ =>
            (ih _ (by omega) (chain ++ [place]) m rfl).map parts
        simp only [contents_eq]
        exact ofElements_steady hinner root.children
    · exact .pure _

theorem spliced_steady (chain : List Storage.Path) (script : Node) :
    Steady (spliced disk settings chain script) :=
  (spliceAll_sequential disk settings chain).steady fun n _ => (brought_steady chain n).map parts

end LoadPlan.Scenario
