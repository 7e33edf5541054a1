import LoadPlan.Proofs.Build.Unlined
import LoadPlan.Proofs.Scenario.Numbering

/-! Descriptions with their elements on other lines and, at the top, in another order. -/
namespace LoadPlan.Scenario

open LoadPlan.Description (Node Kind)

/-- Two readings that come to the same as far as a function tells, after the same number of controllers,
with the same reports but for their lines. -/
def Alike {α β : Type} (φ : α → β) (m m' : Reading α) : Prop :=
  ∀ k here there, ∃ a a' j ds ds', m.run ⟨k, here⟩ = (a, ⟨j, here ++ ds⟩) ∧
    m'.run ⟨k, there⟩ = (a', ⟨j, there ++ ds'⟩) ∧ φ a = φ a' ∧
    ds.map Diagnostic.unlined = ds'.map Diagnostic.unlined

namespace Alike

variable {α β γ δ : Type} {φ : α → γ} {ψ : β → δ} {m m' : Reading α} {f f' : α → Reading β}

theorem pure {a a' : α} (h : φ a = φ a') : Alike φ (pure a) (pure a') := by
  intro k here there
  refine ⟨a, a', k, [], [], ?_, ?_, h, rfl⟩
  · rw [List.append_nil]
    rfl
  · rw [List.append_nil]
    rfl

theorem bind (hm : Alike φ m m') (hf : ∀ a a', φ a = φ a' → Alike ψ (f a) (f' a')) :
    Alike ψ (m >>= f) (m' >>= f') := by
  intro k here there
  obtain ⟨a, a', j, ds, ds', hrun, hrun', ha, hds⟩ := hm k here there
  obtain ⟨b, b', i, es, es', hrun₂, hrun₂', hb, hes⟩ := hf a a' ha j (here ++ ds) (there ++ ds')
  refine ⟨b, b', i, ds ++ es, ds' ++ es', ?_, ?_, hb, ?_⟩
  · rw [Sheds.run_bind, hrun, hrun₂, List.append_assoc]
  · rw [Sheds.run_bind, hrun', hrun₂', List.append_assoc]
  · rw [List.map_append, List.map_append, hds, hes]

/-- Readings with the same result go on with it alike. -/
theorem bind_same (hm : Alike id m m') (hf : ∀ a, Alike ψ (f a) (f' a)) : Alike ψ (m >>= f) (m' >>= f') :=
  hm.bind fun a a' ha => by
    obtain rfl : a = a' := ha
    exact hf a

theorem map (hm : Alike φ m m') {g : α → β} (hg : ∀ a a', φ a = φ a' → ψ (g a) = ψ (g a')) :
    Alike ψ (g <$> m) (g <$> m') := by
  rw [map_eq_pure_bind, map_eq_pure_bind]
  exact hm.bind fun a a' ha => pure (hg a a' ha)

theorem of_steady (hm : Steady m) (φ : α → γ) : Alike φ m m := by
  intro k here there
  obtain ⟨a, j, before, after, hrun, hrun'⟩ := hm k here there
  refine ⟨a, a, j, before ++ after, before ++ after, ?_, hrun', rfl, rfl⟩
  rw [hrun, List.append_nil]

theorem report (p : Problem) (n : Node) : Alike id (report p n) (report p n.unlined) := by
  intro k here there
  refine ⟨(), (), k, [⟨p, n.place⟩], [⟨p, n.unlined.place⟩], rfl, rfl, rfl, ?_⟩
  simp [Diagnostic.unlined, Node.place]

theorem orDefault (field : Option String) (fallback : String) (p : Problem) (n : Node) :
    Alike id (orDefault field fallback p n) (orDefault field fallback p n.unlined) := by
  cases field with
  | none => exact (report p n).bind fun _ _ _ => pure rfl
  | some value => exact pure rfl

end Alike

theorem Sequential.alike {α β γ δ ε : Type} {g : List γ → Reading β} {one : γ → Reading α}
    {join : α → β → β} {last : β} {φ : α → δ} {ψ : β → ε} (h : Sequential g one join last)
    (hjoin : ∀ a a' b b', φ a = φ a' → ψ b = ψ b' → ψ (join a b) = ψ (join a' b')) {u : γ → γ}
    {xs : List γ} (hone : ∀ x ∈ xs, Alike φ (one x) (one (u x))) :
    Alike ψ (g xs) (g (xs.map u)) := by
  induction xs with
  | nil =>
    rw [List.map_nil, h.nil]
    exact .pure rfl
  | cons x xs ih =>
    obtain ⟨hx, hxs⟩ := List.forall_mem_cons.mp hone
    rw [List.map_cons, h.cons, h.cons]
    exact hx.bind fun a a' ha => (ih hxs).bind fun b b' hb => .pure (hjoin a a' b b' ha hb)

/-! An element is read without lines as it is with them. -/

theorem filled_unlined (kind : Kind) (ns : List Node) :
    filled kind (ns.map Node.unlined) = (filled kind ns).map Node.unlined :=
  Node.filter_unlined (fun c => by rw [Node.kind_unlined, Node.hasChildren_unlined]) ns

theorem getLast?_filled_unlined (kind : Kind) (ns : List Node) :
    (filled kind (ns.map Node.unlined)).getLast? = (filled kind ns).getLast?.map Node.unlined := by
  rw [filled_unlined, List.getLast?_map]

theorem map_filled_unlined {α : Type} {f : Node → α} (hf : ∀ c, f c.unlined = f c) (kind : Kind) (n : Node) :
    (filled kind n.unlined.children).map f = (filled kind n.children).map f := by
  rw [Node.children_unlined, filled_unlined, List.map_map]
  exact List.map_congr_left fun c _ => hf c

theorem timer_alike (n : Node) : Alike id (Timer.read? n) (Timer.read? n.unlined) := by
  have hsame : Timer.ofNode n.unlined = Timer.ofNode n := by
    unfold Timer.ofNode
    rw [Node.fields_unlined]
  unfold Timer.read?
  rw [hsame]
  cases Timer.ofNode n with
  | ok t => exact .pure rfl
  | error p => exact (Alike.report p n).bind fun _ _ _ => .pure rfl

theorem results_alike (r : Results) (name : String) (n : Node) :
    Alike id (r.complete name n) (r.complete name n.unlined) := by
  unfold Results.complete
  exact (Alike.orDefault _ _ _ n).bind_same fun _ => (Alike.orDefault _ _ _ n).bind_same fun _ => .pure rfl

theorem assertion_unlined (n : Node) : Assertion.ofNode n.unlined = Assertion.ofNode n := by
  have hliteral : ∀ c : Node, isLiteral c.unlined = isLiteral c := by
    intro c
    rw [isLiteral, Node.name_unlined, isLiteral]
  have hfields : ((n.children.map Node.unlined).filter fun c => !isLiteral c) =
      (n.children.filter fun c => !isLiteral c).map Node.unlined :=
    Node.filter_unlined (fun c => by rw [hliteral]) _
  unfold Assertion.ofNode
  rw [Node.children_unlined, Node.attributes_unlined, hfields, Node.filter_unlined hliteral]
  simp only [List.foldl_map, List.map_map, Function.comp_def, Node.name_unlined, Node.content_unlined]

theorem parameters_unlined (n : Node) : Parameters.ofNode n.unlined = Parameters.ofNode n := by
  unfold Parameters.ofNode
  rw [Node.children_unlined, Node.attributes_unlined, List.filterMap_map]
  simp only [Function.comp_def, Node.attributes_unlined, Node.content_unlined]

theorem upload_unlined (n : Node) : (filled .upload n.unlined.children).getLast?.map Upload.ofNode =
    (filled .upload n.children).getLast?.map Upload.ofNode := by
  have hsame : ∀ c : Node, Upload.ofNode c.unlined = Upload.ofNode c := by
    intro c
    simp only [Upload.ofNode, Node.fields_unlined]
  rw [← List.getLast?_map, ← List.getLast?_map, map_filled_unlined hsame]

theorem lastParameters_unlined (n : Node) :
    (n.unlined.children.filter (·.kind == .data)).getLast?.map Parameters.ofNode =
      (n.children.filter (·.kind == .data)).getLast?.map Parameters.ofNode := by
  rw [Node.children_unlined, Node.filter_kind_unlined (· == .data), List.getLast?_map, Option.map_map]
  exact congrArg (Option.map · _) (funext parameters_unlined)

theorem fieldNodes_unlined (n : Node) : Request.fieldNodes n.unlined = (Request.fieldNodes n).map Node.unlined := by
  unfold Request.fieldNodes
  rw [Node.children_unlined]
  exact Node.filter_kind_unlined (!Request.partKinds.contains ·) _

theorem describesParts_unlined (n : Node) : Request.describesParts n.unlined = Request.describesParts n := by
  unfold Request.describesParts
  simp only [Node.children_unlined, filled_unlined, List.isEmpty_map]

theorem request_alike (n : Node) : Alike Request.unlined (Request.ofNode n) (Request.ofNode n.unlined) := by
  have htimers : Alike id ((filled .timer n.children).filterMapM Timer.read?)
      ((filled .timer n.unlined.children).filterMapM Timer.read?) := by
    rw [Node.children_unlined, filled_unlined]
    exact (Sequential.filterMapM _).alike (by simp) fun c _ => timer_alike c
  have hassertions := map_filled_unlined assertion_unlined .asserts n
  have hextractors := map_filled_unlined (f := Extractor.ofNode)
    (fun c => congrArg Extractor.ofFields c.fields_unlined) .regex n
  unfold Request.ofNode
  refine htimers.bind_same fun timers => ?_
  simp only [fieldNodes_unlined, Node.fieldsOf_unlined, describesParts_unlined, upload_unlined, lastParameters_unlined]
  refine (Alike.orDefault _ _ _ n).bind_same fun method => ?_
  refine (Alike.orDefault _ _ _ n).bind_same fun name => ?_
  rw [hassertions, hextractors, Node.children_unlined, getLast?_filled_unlined]
  cases (filled .results n.children).getLast? with
  | none => exact (Alike.pure (φ := id) rfl).bind_same fun _ => .pure rfl
  | some r =>
    have hresults : Results.ofNode r.unlined = Results.ofNode r := by
      unfold Results.ofNode
      rw [Node.fields_unlined]
    simp only [Option.map_some, hresults]
    have hsome := (results_alike (Results.ofNode r) name n).map (g := some) (ψ := id) fun _ _ h => congrArg some h
    exact hsome.bind_same fun _ => .pure rfl

theorem loop_alike (n : Node) : Alike Loop.unlined (Loop.ofNode n) (Loop.ofNode n.unlined) := by
  have htests : Alike (List.map Request.unlined)
      ((n.children.filter (·.kind == .http)).mapM Request.ofNode)
      ((n.unlined.children.filter (·.kind == .http)).mapM Request.ofNode) := by
    rw [Node.children_unlined, Node.filter_kind_unlined (· == .http)]
    refine (Sequential.mapM _).alike (fun a a' b b' ha hb => ?_) fun c _ => request_alike c
    rw [List.map_cons, List.map_cons, ha, hb]
  have hfields : Node.fieldsOf (n.unlined.children.filter (·.kind != .http)) =
      Node.fieldsOf (n.children.filter (·.kind != .http)) := by
    rw [Node.children_unlined, Node.filter_kind_unlined (· != .http),
      Node.fieldsOf_unlined]
  have hloop : ∀ (name : String) (count : Int) (forever : Bool) (tests tests' : List Request),
      tests.map Request.unlined = tests'.map Request.unlined →
      Loop.unlined ⟨name, count, forever, tests, n.line⟩ =
        Loop.unlined ⟨name, count, forever, tests', n.unlined.line⟩ := by
    intro name count forever tests tests' ht
    simp only [Loop.unlined, ht]
  unfold Loop.ofNode
  refine htests.bind fun tests tests' ht => ?_
  simp only [hfields]
  split
  · exact .pure (hloop _ _ _ tests tests' ht)
  · split
    · exact .pure (hloop _ _ _ tests tests' ht)
    · exact (Alike.report _ n).bind fun _ _ _ => .pure (hloop _ _ _ tests tests' ht)

/-- Steps and data sets without lines. -/
def unlinedParts (r : Parts) : Parts :=
  (unlinedSteps r.1, unlinedSets r.2)

theorem unlinedParts_join {r r' s s' : Parts} (hr : unlinedParts r = unlinedParts r')
    (hs : unlinedParts s = unlinedParts s') :
    unlinedParts (r.1 ++ s.1, r.2 ++ s.2) = unlinedParts (r'.1 ++ s'.1, r'.2 ++ s'.2) := by
  obtain ⟨hr₁, hr₂⟩ := Prod.mk.inj hr
  obtain ⟨hs₁, hs₂⟩ := Prod.mk.inj hs
  simp only [unlinedParts, unlinedSteps_append, unlinedSets_append, hr₁, hr₂, hs₁, hs₂]

/-- Scripts bring in the same whatever lines they stand on. -/
def Context.Alike (ctx : Context) : Prop :=
  ∀ n : Node, Scenario.Alike unlinedParts (ctx.spliced n) (ctx.spliced n.unlined)

variable {ctx : Context}

theorem stepOf_alike_of_controller (hx : ctx.Alike) {c : Node}
    (hc : Alike Controller.unlined (Controller.ofNode ctx c) (Controller.ofNode ctx c.unlined)) :
    Alike unlinedParts (stepOf ctx c) (stepOf ctx c.unlined) := by
  unfold stepOf
  rw [Node.kind_unlined, Node.hasChildren_unlined]
  cases c.kind with
  | http =>
    refine (request_alike c).bind fun r r' hr => .pure ?_
    simp only [unlinedParts, unlinedSteps, Entry.unlined, hr]
  | loop =>
    refine (loop_alike c).bind fun l l' hl => .pure ?_
    simp only [unlinedParts, unlinedSteps, Entry.unlined, hl]
  | controller =>
    refine hc.bind fun k k' hk => .pure ?_
    simp only [unlinedParts, unlinedSteps, Entry.unlined, hk]
  | script =>
    cases c.hasChildren with
    | true => exact hx c
    | false => exact .pure rfl
  | _ => exact .pure rfl

theorem last?_unlined (n : Node) (name : String) : n.unlined.last? name = n.last? name := by
  unfold Node.last?
  rw [Node.children_unlined, Node.filter_unlined fun c => by rw [Node.name_unlined], List.getLast?_map,
    Option.map_map]
  exact congrArg (Option.map · _) (funext Node.content_unlined)

theorem controller_alike_of_steps {n : Node}
    (hs : Alike unlinedParts (Controller.steps ctx n.children)
      (Controller.steps ctx n.unlined.children)) :
    Alike Controller.unlined (Controller.ofNode ctx n) (Controller.ofNode ctx n.unlined) := by
  have hshare : Controller.shareOf ctx.settings n.unlined = Controller.shareOf ctx.settings n := by
    unfold Controller.shareOf
    rw [last?_unlined, last?_unlined]
  have hextra : Controller.extraOf n.unlined = Controller.extraOf n := by
    unfold Controller.extraOf
    rw [Node.children_unlined, Node.filter_kind_unlined (!Controller.stepKinds.contains ·),
      Node.fieldsOf_unlined]
  have hreports : ∀ k, (Controller.reports ctx.settings n k).map Diagnostic.unlined =
      (Controller.reports ctx.settings n.unlined k).map Diagnostic.unlined := by
    intro k
    unfold Controller.reports
    rw [last?_unlined, hshare, List.map_append, List.map_append, List.map_map, List.map_map]
    cases n.last? "name" with
    | none => simp [Diagnostic.unlined, Node.place, Function.comp_def]
    | some name => simp [Diagnostic.unlined, Node.place, Function.comp_def]
  intro k here there
  obtain ⟨r, r', j, ds, ds', hrun, hrun', hr, hds⟩ := hs (k + 1) here there
  obtain ⟨hstack, hsets⟩ := Prod.mk.inj hr
  refine ⟨Controller.around ctx.settings n k r, Controller.around ctx.settings n.unlined k r', j,
    ds ++ Controller.reports ctx.settings n k, ds' ++ Controller.reports ctx.settings n.unlined k,
    ?_, ?_, ?_, ?_⟩
  · rw [run_controller]
    simp only [hrun, List.append_assoc]
  · rw [run_controller]
    simp only [hrun', List.append_assoc]
  · simp only [Controller.around, Controller.unlined, last?_unlined, hshare, hextra, hstack, hsets]
  · rw [List.map_append, List.map_append, hds, hreports]

mutual

theorem controller_alike (hx : ctx.Alike) : ∀ n : Node,
    Alike Controller.unlined (Controller.ofNode ctx n) (Controller.ofNode ctx n.unlined)
  | ⟨name, children, attributes, content, line, source⟩ => by
    have hsteps := steps_alike hx children
    rw [← Node.unlinedAll_eq_map] at hsteps
    exact controller_alike_of_steps hsteps

theorem steps_alike (hx : ctx.Alike) : ∀ cs : List Node,
    Alike unlinedParts (Controller.steps ctx cs) (Controller.steps ctx (cs.map Node.unlined))
  | [] => by
    rw [List.map_nil, Controller.steps]
    exact .pure rfl
  | c :: cs => by
    have hc := stepOf_alike_of_controller hx (controller_alike hx c)
    rw [List.map_cons, (steps_sequential ctx).cons, (steps_sequential ctx).cons]
    exact hc.bind fun r r' hr => (steps_alike hx cs).bind fun s s' hs => .pure (unlinedParts_join hr hs)

end

theorem step?_alike (hx : ctx.Alike) (n : Node) :
    Alike (Option.map Entry.unlined) (step? ctx n) (step? ctx n.unlined) := by
  unfold step?
  rw [Node.kind_unlined]
  cases n.kind with
  | http =>
    refine (request_alike n).bind fun r r' hr => .pure ?_
    simp only [Option.map_some, Entry.unlined, hr]
  | loop =>
    refine (loop_alike n).bind fun l l' hl => .pure ?_
    simp only [Option.map_some, Entry.unlined, hl]
  | controller =>
    refine (controller_alike hx n).bind fun c c' hc => .pure ?_
    simp only [Option.map_some, Entry.unlined, hc]
  | _ => exact .pure rfl

/-- Steps that are read one after another, as far as there are some. -/
theorem filterMapM_alike {f : Node → Reading (Option Entry)} (ns : List Node)
    (h : ∀ n, Alike (Option.map Entry.unlined) (f n) (f n.unlined)) :
    Alike unlinedSteps (ns.filterMapM f) ((ns.map Node.unlined).filterMapM f) := by
  refine (Sequential.filterMapM f).alike (fun o o' es es' ho hes => ?_) fun n _ => h n
  have hsteps : ∀ o : Option Entry, unlinedSteps o.toList = (o.map Entry.unlined).toList := by
    intro o
    cases o <;> rfl
  rw [unlinedSteps_append, unlinedSteps_append, hsteps, hsteps, ho, hes]

theorem repetition_alike (hx : ctx.Alike) (n : Node) :
    Alike Entry.unlined (repetition ctx n) (repetition ctx n.unlined) := by
  unfold repetition
  rw [Node.children_unlined]
  refine (filterMapM_alike _ (step?_alike hx)).bind fun items items' hi => .pure ?_
  rw [Entry.unlined, Entry.unlined, hi]

theorem dataStep?_alike (hx : ctx.Alike) (n : Node) :
    Alike (Option.map Entry.unlined) (dataStep? ctx n) (dataStep? ctx n.unlined) := by
  unfold dataStep?
  rw [Node.kind_unlined, Node.hasChildren_unlined]
  split
  · split
    · exact (repetition_alike hx n).map fun e e' he => congrArg some he
    · exact .pure rfl
  · exact step?_alike hx n

theorem dataSet_alike (hx : ctx.Alike) (n : Node) :
    Alike DataSet.unlined (DataSet.ofNode ctx n) (DataSet.ofNode ctx n.unlined) := by
  have hstack : Alike unlinedSteps (n.children.filterMapM (dataStep? ctx))
      (n.unlined.children.filterMapM (dataStep? ctx)) := by
    rw [Node.children_unlined]
    exact filterMapM_alike _ (dataStep?_alike hx)
  have hfields : Node.fieldsOf (n.unlined.children.filter fun c => !DataSet.stepKinds.contains c.kind) =
      Node.fieldsOf (n.children.filter fun c => !DataSet.stepKinds.contains c.kind) := by
    rw [Node.children_unlined, Node.filter_kind_unlined (!DataSet.stepKinds.contains ·),
      Node.fieldsOf_unlined]
  unfold DataSet.ofNode
  refine Alike.bind hstack fun stack stack' hs => ?_
  simp only [hfields, Node.directory_unlined]
  refine (Alike.orDefault _ _ _ n).bind_same fun filename => .pure ?_
  simp only [DataSet.unlined, hs]

theorem ofElement_alike (hx : ctx.Alike) (n : Node) :
    Alike unlined (ofElement ctx n) (ofElement ctx n.unlined) := by
  have hempty : Alike unlined (pure empty) (pure empty) := .pure rfl
  unfold ofElement
  rw [Node.kind_unlined, Node.hasChildren_unlined]
  cases n.kind with
  | timer =>
    cases n.hasChildren with
    | true => exact (timer_alike n).bind_same fun _ => .pure rfl
    | false => exact hempty
  | loop =>
    cases n.hasChildren with
    | true =>
      refine (loop_alike n).bind fun l l' hl => .pure ?_
      simp only [unlined, unlinedSteps, Entry.unlined, hl]
    | false => exact hempty
  | controller =>
    cases n.hasChildren with
    | true =>
      refine (controller_alike hx n).bind fun c c' hc => .pure ?_
      simp only [unlined, unlinedSteps, Entry.unlined, hc]
    | false => exact hempty
  | testinfo =>
    refine .pure ?_
    rw [Node.fields_unlined]
  | http =>
    refine (request_alike n).bind fun r r' hr => .pure ?_
    simp only [unlined, unlinedSteps, Entry.unlined, hr]
  | csv =>
    cases n.hasChildren with
    | true =>
      refine (dataSet_alike hx n).bind fun d d' hd => .pure ?_
      simp only [unlined, unlinedSets, hd]
    | false => exact hempty
  | script =>
    cases n.hasChildren with
    | true =>
      refine (hx n).bind fun r r' hr => .pure ?_
      obtain ⟨hstack, hsets⟩ := Prod.mk.inj hr
      simp only [unlined, hstack, hsets]
    | false => exact hempty
  | _ => exact hempty

/-! Scripts: the same documents are opened from any line. -/

section

variable {disk : Storage.Disk} {settings : Settings} {chain : List Storage.Path}
  {inside : List Storage.Path → Node → Reading Scenario}

theorem opened_unlined (n : Node) : opened disk settings chain n.unlined = opened disk settings chain n := by
  unfold opened included
  rw [Node.content_unlined, Node.directory_unlined]

theorem splice_alike (hin : ∀ chain root, Steady (inside chain root)) (n : Node) :
    Alike unlined (splice disk settings chain inside n) (splice disk settings chain inside n.unlined) := by
  rw [splice_eq, splice_eq, opened_unlined]
  cases opened disk settings chain n with
  | error p => exact (Alike.report p n).bind fun _ _ _ => .pure rfl
  | ok o => exact .of_steady (hin _ _) unlined

theorem spliceAll_each : Sequential (spliceAll disk settings chain inside)
    (fun n => parts <$> if n.name = "file" then splice disk settings chain inside n else pure empty)
    (fun here after => (here.1 ++ after.1, here.2 ++ after.2)) ([], []) :=
  ⟨rfl, spliceAll_cons⟩

theorem spliceAll_alike (hin : ∀ chain root, Steady (inside chain root)) (ns : List Node) :
    Alike unlinedParts (spliceAll disk settings chain inside ns)
      (spliceAll disk settings chain inside (ns.map Node.unlined)) := by
  refine spliceAll_each.alike (fun r r' s s' hr hs => unlinedParts_join hr hs) fun n _ => ?_
  refine Alike.map (φ := unlined) ?_ fun s s' h => ?_
  · rw [Node.name_unlined]
    split
    · exact splice_alike hin n
    · exact .pure rfl
  · exact congrArg parts h

theorem spliceAll_steady (hin : ∀ chain root, Steady (inside chain root)) (ns : List Node) :
    Steady (spliceAll disk settings chain inside ns) := by
  refine spliceAll_each.steady fun n _ => Sheds.map ?_ parts
  split
  · rw [splice_eq]
    cases opened disk settings chain n with
    | error p => exact (Sheds.report rfl p).first fun _ => .pure _
    | ok o => exact hin _ _
  · exact .pure _

theorem ofDocument_steady (depth : Nat) (chain : List Storage.Path) (root : Node) :
    Steady (ofDocument disk settings depth chain root) := by
  induction depth generalizing chain root with
  | zero => exact ofElements_steady (fun _ => spliceAll_steady (fun _ _ => .pure _) _) _
  | succ depth ih => exact ofElements_steady (fun _ => spliceAll_steady ih _) _

end

/-! The elements at the top of a document, each with what it adds at any time. -/

/-- What an element adds to a document, but for lines, whatever was read before. -/
def Adds (ctx : Context) (n : Node) (r : Scenario × List Diagnostic) : Prop :=
  ∀ k here, ∃ j s ds, (ofElement ctx n).run ⟨k, here⟩ = (s, ⟨j, here ++ ds⟩) ∧ s.unlined = r.1 ∧
    ds.map Diagnostic.unlined = r.2

theorem Adds.of_unlined (hx : ctx.Alike) {n n' : Node} {r : Scenario × List Diagnostic}
    (h : Adds ctx n r) (hn : n'.unlined = n.unlined) : Adds ctx n' r := by
  intro k here
  obtain ⟨j, s, ds, hrun, hs, hds⟩ := h k here
  obtain ⟨t, u, i, es, fs, hrun₁, hrun₂, ht, hes⟩ := ofElement_alike hx n k here here
  obtain ⟨t', u', i', es', fs', hrun₁', hrun₂', ht', hes'⟩ := ofElement_alike hx n' k here here
  rw [hrun] at hrun₁
  rw [hn, hrun₂] at hrun₂'
  obtain ⟨rfl, hlog⟩ := Prod.mk.inj hrun₁
  obtain ⟨rfl, hlog'⟩ := Prod.mk.inj hrun₂'
  obtain rfl : ds = es := List.append_cancel_left (Log.mk.inj hlog).2
  obtain rfl : fs = fs' := List.append_cancel_left (Log.mk.inj hlog').2
  refine ⟨i', t', es', hrun₁', ?_, ?_⟩
  · rw [ht', ← ht, hs]
  · rw [hes', ← hes, hds]

/-- Elements add what each of them adds, one after another. -/
theorem run_of_adds {f : Node → Scenario × List Diagnostic} {ns : List Node}
    (h : ∀ n ∈ ns, Adds ctx n (f n.unlined)) (k : Nat) (here : List Diagnostic) :
    ∃ j r ds, (partsOf ctx ns).run ⟨k, here⟩ = (r, ⟨j, here ++ ds⟩) ∧
      unlinedParts r = ((ns.map Node.unlined).flatMap fun m => (f m).1.stack,
        (ns.map Node.unlined).flatMap fun m => (f m).1.dataSets) ∧
      ds.map Diagnostic.unlined = (ns.map Node.unlined).flatMap fun m => (f m).2 := by
  induction ns generalizing k here with
  | nil =>
    refine ⟨k, ([], []), [], ?_, rfl, rfl⟩
    rw [List.append_nil]
    rfl
  | cons n ns ih =>
    obtain ⟨hn, hns⟩ := List.forall_mem_cons.mp h
    obtain ⟨j, s, ds, hrun, hs, hds⟩ := hn k here
    obtain ⟨i, r, es, hrun', hr, hes⟩ := ih hns j (here ++ ds)
    refine ⟨i, (s.stack ++ r.1, s.dataSets ++ r.2), ds ++ es, ?_, ?_, ?_⟩
    · have hcons : (partsOf ctx (n :: ns)).run ⟨k, here⟩ =
          let first := (ofElement ctx n).run ⟨k, here⟩
          let rest := (partsOf ctx ns).run first.2
          ((first.1.stack ++ rest.1.1, first.1.dataSets ++ rest.1.2), rest.2) := rfl
      rw [hcons, hrun]
      simp only [hrun', List.append_assoc]
    · obtain ⟨hr₁, hr₂⟩ := Prod.mk.inj hr
      rw [List.map_cons, List.flatMap_cons, List.flatMap_cons, ← hs, ← hr₁, ← hr₂]
      simp only [unlinedParts, unlinedSteps_append, unlinedSets_append, unlined]
    · rw [List.map_append, List.map_cons, List.flatMap_cons, hds, hes]

/-- The elements that are steps of a plan. -/
def isMain (n : Node) : Bool :=
  n.kind == .timer || n.kind == .loop || n.kind == .controller || n.kind == .http

/-- Elements that are no steps add none; only data sets add any; and others report nothing. -/
theorem ofElement_apart (ctx : Context) {n : Node} (hk : n.kind ≠ .script) (log : Log) :
    (isMain n = false → ((ofElement ctx n).run log).1.stack = []) ∧
      (n.kind ≠ .csv → ((ofElement ctx n).run log).1.dataSets = []) ∧
      (isMain n = false → n.kind ≠ .csv → ((ofElement ctx n).run log).2 = log) := by
  unfold isMain ofElement
  cases hn : n.kind with
  | timer => cases n.hasChildren <;> exact ⟨nofun, fun _ => rfl, nofun⟩
  | loop => cases n.hasChildren <;> exact ⟨nofun, fun _ => rfl, nofun⟩
  | controller => cases n.hasChildren <;> exact ⟨nofun, fun _ => rfl, nofun⟩
  | http => exact ⟨nofun, fun _ => rfl, nofun⟩
  | csv => cases n.hasChildren <;> exact ⟨fun _ => rfl, fun h => absurd rfl h, fun _ h => absurd rfl h⟩
  | script => exact absurd hn hk
  | _ => exact ⟨fun _ => rfl, fun _ => rfl, fun _ _ => rfl⟩

theorem Adds.apart {n : Node} {r : Scenario × List Diagnostic} (h : Adds ctx n r) (hk : n.kind ≠ .script) :
    (isMain n = false → r.1.stack = []) ∧ (n.kind ≠ .csv → r.1.dataSets = []) ∧
      (isMain n = false → n.kind ≠ .csv → r.2 = []) := by
  obtain ⟨j, s, ds, hrun, hs, hds⟩ := h 0 []
  obtain ⟨hstack, hsets, hreports⟩ := ofElement_apart ctx hk ⟨0, []⟩
  rw [hrun] at hstack hsets hreports
  refine ⟨fun hm => ?_, fun hc => ?_, fun hm hc => ?_⟩
  · have hnil : s.stack = [] := hstack hm
    rw [← hs, unlined, hnil]
    rfl
  · have hnil : s.dataSets = [] := hsets hc
    rw [← hs, unlined, hnil]
    rfl
  · have hnil : ds = [] := (Log.mk.inj (hreports hm hc)).2
    rw [← hds, hnil]
    rfl

theorem adds_of_other {n : Node} (hm : isMain n = false) (hc : n.kind ≠ .csv) (hk : n.kind ≠ .script) :
    Adds ctx n (⟨[], [], if n.kind = .testinfo then n.fields else []⟩, []) := by
  intro k here
  obtain ⟨hstack, hsets, hreports⟩ := ofElement_apart ctx hk ⟨k, here⟩
  have hinfo : ((ofElement ctx n).run ⟨k, here⟩).1.info = if n.kind = .testinfo then n.fields else [] :=
    info_ofElement n ⟨k, here⟩
  refine ⟨k, ((ofElement ctx n).run ⟨k, here⟩).1, [], ?_, ?_, rfl⟩
  · rw [List.append_nil]
    exact Prod.ext rfl (hreports hm hc)
  · rw [unlined, hstack hm, hsets hc, hinfo]
    rfl

/-! What elements add in all, from the steps and the data sets among them. -/

theorem flatMap_filter_of_nil {α β : Type} {p : α → Bool} {g : α → List β} {xs : List α}
    (h : ∀ x ∈ xs, p x = false → g x = []) : (xs.filter p).flatMap g = xs.flatMap g := by
  induction xs with
  | nil => rfl
  | cons x xs ih =>
    obtain ⟨hx, hxs⟩ := List.forall_mem_cons.mp h
    rw [List.flatMap_cons, ← ih hxs, List.filter_cons]
    cases hp : p x with
    | true => rfl
    | false =>
      rw [hx hp]
      rfl

/-- What is added comes from two sorts of elements, whatever order both stand in. -/
theorem flatMap_perm_of_nil {α β : Type} {p q : α → Bool} {g : α → List β} {xs : List α}
    (hpq : ∀ x, q x = true → p x = false) (h : ∀ x ∈ xs, p x = false → q x = false → g x = []) :
    (xs.flatMap g).Perm ((xs.filter p).flatMap g ++ (xs.filter q).flatMap g) := by
  have hrest : (xs.filter fun x => !p x).flatMap g = (xs.filter q).flatMap g := by
    have hq : (xs.filter fun x => !p x).filter q = xs.filter q := by
      rw [List.filter_filter]
      refine List.filter_congr fun x _ => ?_
      cases hx : q x with
      | false => rfl
      | true => rw [hpq x hx]; rfl
    rw [← hq]
    refine (flatMap_filter_of_nil fun x hx hqx => ?_).symm
    obtain ⟨hx, hpx⟩ := List.mem_filter.mp hx
    exact h x hx (by simpa using hpx) hqx
  rw [← hrest, ← List.flatMap_append]
  exact ((List.filter_append_perm p xs).symm).flatMap_right g

theorem saidOf_unlined (ns : List Node) : saidOf (ns.map Node.unlined) = saidOf ns := by
  induction ns with
  | nil => rfl
  | cons n ns ih => rw [List.map_cons, saidOf, saidOf, ih, Node.kind_unlined, Node.fields_unlined]

/-- The same elements at the top, on any lines: steps in their order, data sets in theirs, and what is said
of the plan in its own. Elements of other kinds may be anything but scripts. -/
structure Reorders (root root' : Node) : Prop where
  source : root'.source = root.source
  main : (root'.children.filter isMain).map Node.unlined = (root.children.filter isMain).map Node.unlined
  dataSets : (root'.children.filter (·.kind == .csv)).map Node.unlined =
    (root.children.filter (·.kind == .csv)).map Node.unlined
  info : (root'.children.filter (·.kind == .testinfo)).map Node.unlined =
    (root.children.filter (·.kind == .testinfo)).map Node.unlined
  scriptless : ∀ c ∈ root.children, c.kind ≠ .script
  scriptless' : ∀ c ∈ root'.children, c.kind ≠ .script

variable {root root' : Node}

theorem Reorders.isMain_unlined (c : Node) : isMain c.unlined = isMain c := by
  unfold isMain
  rw [Node.kind_unlined]

/-- Whatever one of the documents has as a step or a data set, the other has as well. -/
theorem Reorders.mem (h : Reorders root root') {c : Node} (hc : c ∈ root'.children)
    (hk : isMain c = true ∨ c.kind = .csv) : ∃ d ∈ root.children, d.unlined = c.unlined := by
  have hfilter : ∀ p : Node → Bool, p c = true →
      (root'.children.filter p).map Node.unlined = (root.children.filter p).map Node.unlined →
      ∃ d ∈ root.children, d.unlined = c.unlined := by
    intro p hp heq
    have hmem : c.unlined ∈ (root'.children.filter p).map Node.unlined :=
      List.mem_map_of_mem (List.mem_filter.mpr ⟨hc, hp⟩)
    rw [heq] at hmem
    obtain ⟨d, hd, hdc⟩ := List.mem_map.mp hmem
    exact ⟨d, (List.mem_filter.mp hd).1, hdc⟩
  rcases hk with hk | hk
  · exact hfilter _ hk h.main
  · exact hfilter (·.kind == .csv) (beq_iff_eq.mpr hk) h.dataSets

/-- What the elements of a document add in all. -/
structure Sums (f : Node → Scenario × List Diagnostic) (ns : List Node) (s : Scenario)
    (ds : List Diagnostic) : Prop where
  stack : s.unlined.stack = ((ns.filter isMain).map Node.unlined).flatMap fun m => (f m).1.stack
  dataSets : s.unlined.dataSets =
    ((ns.filter (·.kind == .csv)).map Node.unlined).flatMap fun m => (f m).1.dataSets
  info : s.unlined.info = saidOf ((ns.filter (·.kind == .testinfo)).map Node.unlined)
  reports : (ds.map Diagnostic.unlined).Perm
    (((ns.filter isMain).map Node.unlined).flatMap (fun m => (f m).2) ++
      ((ns.filter (·.kind == .csv)).map Node.unlined).flatMap fun m => (f m).2)

theorem sums_of_adds {f : Node → Scenario × List Diagnostic} {ns : List Node}
    (hk : ∀ n ∈ ns, n.kind ≠ .script) (h : ∀ n ∈ ns, Adds ctx n (f n.unlined)) :
    let r := (ofElements ctx ns).run .empty
    Sums f ns r.1 r.2.diagnostics := by
  obtain ⟨j, r, ds, hrun, hr, hds⟩ := run_of_adds h 0 []
  obtain ⟨hstack, hsets⟩ := Prod.mk.inj hr
  have hrun : (partsOf ctx ns).run .empty = (r, ⟨j, ds⟩) := hrun
  rw [run_ofElements]
  simp only [hrun]
  have hmain : (ns.filter isMain).map Node.unlined = (ns.map Node.unlined).filter isMain :=
    (Node.filter_unlined Reorders.isMain_unlined ns).symm
  have hcsv : (ns.filter (·.kind == .csv)).map Node.unlined =
      (ns.map Node.unlined).filter (·.kind == .csv) :=
    (Node.filter_kind_unlined (· == .csv) ns).symm
  have hapart : ∀ m ∈ ns.map Node.unlined, (isMain m = false → (f m).1.stack = []) ∧
      (m.kind ≠ .csv → (f m).1.dataSets = []) ∧ (isMain m = false → m.kind ≠ .csv → (f m).2 = []) := by
    intro m hm
    obtain ⟨n, hn, rfl⟩ := List.mem_map.mp hm
    rw [Reorders.isMain_unlined, Node.kind_unlined]
    exact (h n hn).apart (hk n hn)
  refine ⟨?_, ?_, ?_, ?_⟩
  · rw [hmain, flatMap_filter_of_nil fun m hm => (hapart m hm).1]
    exact hstack
  · rw [hcsv, flatMap_filter_of_nil fun m hm hc => (hapart m hm).2.1 (by simpa using hc)]
    exact hsets
  · rw [saidOf_unlined, saidOf_filter]
    rfl
  · rw [hds, hmain, hcsv]
    refine flatMap_perm_of_nil (fun m hm => ?_) fun m hm hp hq => (hapart m hm).2.2 hp (by simpa using hq)
    unfold isMain
    rw [beq_iff_eq.mp hm]
    rfl

theorem eq_of_fields {s t : Scenario} (hstack : s.stack = t.stack) (hsets : s.dataSets = t.dataSets)
    (hinfo : s.info = t.info) : s = t := by
  cases s
  cases t
  simp only at hstack hsets hinfo
  rw [hstack, hsets, hinfo]

/-- A document is read as its elements are, with scripts that begin certain controllers. -/
theorem exists_context (disk : Storage.Disk) (settings : Settings) (depth : Nat)
    (chain : List Storage.Path) :
    ∃ ctx scripts, Context.Numbers ctx scripts ∧ Context.Alike ctx ∧ ∀ root,
      ofDocument disk settings depth chain root = ofElements ctx root.children ∧
        startsOfDocument disk settings depth chain root =
          root.children.flatMap (startsOfElement scripts) := by
  have hscripts : ∀ inside below, (∀ chain root, Numbers (inside chain root) (below chain root)) →
      (∀ chain root, Steady (inside chain root)) →
      Context.Numbers ⟨disk, settings, fun script => spliceAll disk settings chain inside script.children⟩
          (startsOfScript disk settings below chain) ∧
        Context.Alike ⟨disk, settings, fun script => spliceAll disk settings chain inside script.children⟩ := by
    intro inside below hnumbers hsteady
    refine ⟨fun n => spliceAll_numbers hnumbers n, fun n => ?_⟩
    have hs : Alike unlinedParts (spliceAll disk settings chain inside n.children)
        (spliceAll disk settings chain inside (n.children.map Node.unlined)) :=
      spliceAll_alike hsteady n.children
    rwa [← Node.children_unlined] at hs
  cases depth with
  | zero =>
    obtain ⟨hnumbers, halike⟩ := hscripts (fun _ _ => pure empty) (fun _ _ => [])
      (fun _ _ => .pure rfl rfl) fun _ _ => .pure _
    exact ⟨_, _, hnumbers, halike, fun _ => ⟨rfl, rfl⟩⟩
  | succ depth =>
    obtain ⟨hnumbers, halike⟩ := hscripts _ _ (ofDocument_numbers depth) (ofDocument_steady depth)
    exact ⟨_, _, hnumbers, halike, fun _ => ⟨rfl, rfl⟩⟩

/-- If all controllers have names, it makes no difference to the plan where steps, data sets and what is said
of the plan stand among one another, nor on which lines; and the reports are the same but for lines. -/
theorem sameDraft_of_reorders (disk : Storage.Disk) (settings : Settings) (source : String)
    (h : Reorders root root') (hnamed : ∀ n ∈ starts disk settings root, (n.last? "name").isSome) :
    Build.SameDraft (Build.draft disk settings source root) (Build.draft disk settings source root') := by
  have hchain : headChain disk root' = headChain disk root := by
    unfold headChain
    rw [h.source]
  obtain ⟨ctx, scripts, hnumbers, halike, hread⟩ := exists_context disk settings
    (depthLeft settings (headChain disk root)) (headChain disk root)
  have hroot : ofDescription disk settings root = ofElements ctx root.children := (hread root).1
  have hroot' : ofDescription disk settings root' = ofElements ctx root'.children := by
    rw [← (hread root').1, ← hchain]
    rfl
  have hadds : ∀ c ∈ root.children, ∃ r, Adds ctx c r := by
    intro c hc
    have hnames : ∀ n ∈ startsOfElement scripts c, (n.last? "name").isSome := by
      intro n hn
      refine hnamed n ?_
      unfold starts
      rw [(hread root).2]
      exact List.mem_flatMap.mpr ⟨c, hc, hn⟩
    obtain ⟨s, ds, hrun⟩ := (ofElement_numbers hnumbers c).run_of_named hnames
    exact ⟨(s.unlined, ds.map Diagnostic.unlined), fun k here => ⟨_, s, ds, hrun ⟨k, here⟩, rfl, rfl⟩⟩
  have hadds' : ∀ c ∈ root'.children, ∃ r, Adds ctx c r := by
    intro c hc
    by_cases hk : isMain c = true ∨ c.kind = .csv
    · obtain ⟨d, hd, hdc⟩ := h.mem hc hk
      obtain ⟨r, hr⟩ := hadds d hd
      exact ⟨r, hr.of_unlined halike hdc.symm⟩
    · rw [not_or, Bool.not_eq_true] at hk
      exact ⟨_, adds_of_other hk.1 hk.2 (h.scriptless' c hc)⟩
  -- What an element adds depends on no more of it than is left without lines.
  have hsame : ∀ m : Node, ∃ r, ∀ n : Node, n.unlined = m → (∃ q, Adds ctx n q) → Adds ctx n r := by
    intro m
    by_cases hm : ∃ n : Node, n.unlined = m ∧ ∃ q, Adds ctx n q
    · obtain ⟨n, hn, q, hq⟩ := hm
      exact ⟨q, fun n' hn' _ => hq.of_unlined halike (hn'.trans hn.symm)⟩
    · exact ⟨default, fun n hn hq => absurd ⟨n, hn, hq⟩ hm⟩
  choose f hf using hsame
  have hsum := sums_of_adds h.scriptless fun c hc => hf c.unlined c rfl (hadds c hc)
  have hsum' := sums_of_adds h.scriptless' fun c hc => hf c.unlined c rfl (hadds' c hc)
  rw [← hroot] at hsum
  rw [← hroot'] at hsum'
  refine Build.sameDraft_of_reports ?_ ?_
  · have hstack := hsum'.stack
    have hsets := hsum'.dataSets
    have hinfo := hsum'.info
    rw [h.main, ← hsum.stack] at hstack
    rw [h.dataSets, ← hsum.dataSets] at hsets
    rw [h.info, ← hsum.info] at hinfo
    exact eq_of_fields hstack hsets hinfo
  · have hreports := hsum'.reports
    rw [h.main, h.dataSets] at hreports
    exact hreports.trans hsum.reports.symm

/-- An element with elements in it, of a description that is not read from a file. -/
def element (name : String) (line : Nat) (children : List Node) : Node :=
  ⟨name, children, [], "", line, "<text>"⟩

/-- A data set before a controller, an aside and the name of the plan. -/
def mixed : Node :=
  element "suite" 1
    [element "csv" 2 [field "filename" "users.csv", element "http" 4 []],
      element "controller" 5 [field "name" "Login", element "http" 7 []],
      element "aside" 8 [],
      element "testinfo" 9 [field "name" "Orders"]]

/-- The same, the name of the plan first and the data set last. -/
def gathered : Node :=
  element "suite" 1
    [element "testinfo" 2 [field "name" "Orders"],
      element "controller" 4 [field "name" "Login", element "http" 6 []],
      element "csv" 8 [field "filename" "users.csv", element "http" 10 []]]

theorem reorders_gathered : Reorders mixed gathered where
  source := rfl
  main := rfl
  dataSets := rfl
  info := rfl
  scriptless := by decide
  scriptless' := by decide

theorem sameDraft_of_reorders_gathered :
    Reorders mixed gathered ∧
      (∀ n ∈ starts ⟨[], []⟩ Settings.standard mixed, (n.last? "name").isSome) ∧
      Build.SameDraft (Build.draft ⟨[], []⟩ Settings.standard "<text>" mixed)
        (Build.draft ⟨[], []⟩ Settings.standard "<text>" gathered) := by
  have hnamed : ∀ n ∈ starts ⟨[], []⟩ Settings.standard mixed, (n.last? "name").isSome := by decide
  exact ⟨reorders_gathered, hnamed, sameDraft_of_reorders _ _ _ reorders_gathered hnamed⟩

end LoadPlan.Scenario
