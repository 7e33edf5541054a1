import Mathlib.Logic.Relation
import LoadPlan.Proofs.Number.Integers
import LoadPlan.Proofs.Scenario.Reads
import LoadPlan.Proofs.Scenario.Regular
import LoadPlan.Scenario.Collection

/-! What is wrong with an element, and that reading it reports nothing else. -/
namespace LoadPlan.Scenario

open LoadPlan.Description (Node Kind)

/-- The fields of a data set itself. -/
def DataSet.fieldsOf (n : Node) : Fields :=
  Node.fieldsOf (n.children.filter fun c => !stepKinds.contains c.kind)

/-- A data set is what an element describes, as far as its file goes. -/
structure DataSet.DescribedBy (disk : Storage.Disk) (n : Node) (d : DataSet) : Prop where
  kind : n.kind = .csv
  line : d.line = n.line
  filename : d.filename = (fieldsOf n).getD "filename" ""
  directory : d.directory = n.directory disk
  repeats : (∃ items, .repeated items ∈ d.stack) →
    ∃ c ∈ n.children, c.kind = .repeated ∧ c.hasChildren

/-- The steps of a data set are to be repeated for each line of a file, but that cannot be read. -/
def DataSet.Fails (disk : Storage.Disk) (failure : Storage.Failure) (d : DataSet) : Prop :=
  (∃ items, .repeated items ∈ d.stack) ∧ d.rounds disk = .error failure

/-- What is wrong with an element by itself. The chain holds the documents it is included in. -/
inductive Flaw (disk : Storage.Disk) (settings : Settings) (chain : List Storage.Path) (n : Node) :
    Problem → Prop
  | timer {p : Problem} : n.kind = .timer → Timer.ofNode n = .error p → Flaw disk settings chain n p
  | method : n.kind = .http → (Node.fieldsOf (Request.fieldNodes n)).get? "method" = none →
      Flaw disk settings chain n .noMethod
  | requestName {fs : Fields} : n.kind = .http → fs = Node.fieldsOf (Request.fieldNodes n) →
      fs.get? "name" = none →
      Flaw disk settings chain n
        (.noRequestName (fs.getD "method" Request.standard.method ++ " " ++ fs.getD "path" ""))
  | resultFile {r : Node} : n.kind = .http → (filled .results n.children).getLast? = some r →
      (Results.ofNode r).file = "" → Flaw disk settings chain n .noResultFile
  | resultType {r : Node} : n.kind = .http → (filled .results n.children).getLast? = some r →
      (Results.ofNode r).type = "" → Flaw disk settings chain n .noResultType
  | rounds {fs : Fields} {p : Problem} : n.kind = .loop →
      fs = Node.fieldsOf (n.children.filter (·.kind != .http)) → isOn (fs.get? "forever") = false →
      Loop.rounds (fs.get? "count") = .error p → Flaw disk settings chain n p
  | controllerName {fs : Fields} (ordinal : Nat) : n.kind = .controller →
      fs = Node.fieldsOf (n.children.filter fun c => !Controller.stepKinds.contains c.kind) →
      fs.get? "name" = none →
      Flaw disk settings chain n (.noControllerName s!"My Controller: {ordinal}")
  | share {fs : Fields} {p : Problem} : n.kind = .controller →
      fs = Node.fieldsOf (n.children.filter fun c => !Controller.stepKinds.contains c.kind) →
      Controller.share settings (fs.get? "percent" <|> fs.get? "precent") = .error p →
      Flaw disk settings chain n p
  | filename : n.kind = .csv → (DataSet.fieldsOf n).get? "filename" = none →
      Flaw disk settings chain n .noFilename
  | included {p : Problem} : n.name = "file" → included disk settings chain n = .error p →
      Flaw disk settings chain n p
  | document {place : Storage.Path} {p : Problem} : n.name = "file" →
      Scenario.included disk settings chain n = .ok place → includedDocument disk place = .error p →
      Flaw disk settings chain n p
  | unreadable {d : DataSet} {failure : Storage.Failure} : d.DescribedBy disk n →
      d.Fails disk failure → Flaw disk settings chain n (.dataUnreadable d.filename failure)

/-- The elements that the reading of an element takes in. -/
inductive Taken (n : Node) : Node → Prop
  | timer {c : Node} : n.kind = .http → c ∈ n.children → c.kind = .timer → c.hasChildren →
      Taken n c
  | round {c : Node} : n.kind = .loop → c ∈ n.children → c.kind = .http → Taken n c
  | step {c : Node} : n.kind = .controller → c ∈ n.children →
      c.kind = .http ∨ c.kind = .loop ∨ c.kind = .controller → Taken n c
  | script {c : Node} : n.kind = .controller → c ∈ n.children → c.kind = .script → c.hasChildren →
      Taken n c
  | dataStep {c : Node} : n.kind = .csv ∨ n.kind = .repeated → c ∈ n.children →
      c.kind = .http ∨ c.kind = .controller ∨ c.kind = .loop → Taken n c
  | repetition {c : Node} : n.kind = .csv → c ∈ n.children → c.kind = .repeated → c.hasChildren →
      Taken n c
  | file {c : Node} : n.kind = .script → c ∈ n.children → c.name = "file" → Taken n c

/-- The elements that the reading of a document begins with. -/
inductive Topmost (root : Node) : Node → Prop
  | request {c : Node} : c ∈ root.children → c.kind = .http → Topmost root c
  | filled {c : Node} : c ∈ root.children →
      c.kind = .timer ∨ c.kind = .loop ∨ c.kind = .controller ∨ c.kind = .csv ∨ c.kind = .script →
      c.hasChildren → Topmost root c

/-- An element or one of those that its reading takes in, however deep. -/
abbrev Below : Node → Node → Prop := Relation.ReflTransGen Taken

/-- An element that is processed when a document is read. -/
def Processed (root n : Node) : Prop :=
  ∃ c, Topmost root c ∧ Below c n

/-- A share is finite, or is the one that the settings give to controllers that name none. -/
def Admissible (settings : Settings) (share : Number.Double) : Prop :=
  share.isFinite = true ∨ share = settings.defaultPercent

/-- The number of rounds is not too long to be written. -/
def Loop.Writable (l : Loop) : Prop :=
  Number.Integer.text? l.count ≠ none

/-- Steps and data sets that are regular as to the shares that the settings admit and the rounds of loops. -/
def RegularPart (settings : Settings) (O : DataSet → Prop) (r : List Entry × List DataSet) : Prop :=
  RegularSteps (Admissible settings) Loop.Writable O r.1 ∧ RegularSets (Admissible settings) Loop.Writable O r.2

/-- Reports and data sets have certain properties if they come from an element or from below it. -/
structure Covers (ctx : Context) (chain : List Storage.Path) (O : DataSet → Prop)
    (R : Diagnostic → Prop) (n : Node) : Prop where
  report {m : Node} {p : Problem} : Below n m → Flaw ctx.disk ctx.settings chain m p →
    R ⟨p, m.place⟩
  describe {m : Node} {d : DataSet} : Below n m → d.DescribedBy ctx.disk m → O d
  splice {m : Node} : Below n m → m.kind = .script →
    Reads (ctx.spliced m) (RegularPart ctx.settings O) R

variable {ctx : Context} {chain : List Storage.Path} {O : DataSet → Prop} {R : Diagnostic → Prop}
  {n c : Node}

theorem Covers.of_taken (h : Covers ctx chain O R n) (ht : Taken n c) : Covers ctx chain O R c where
  report hm := h.report (.head ht hm)
  describe hm := h.describe (.head ht hm)
  splice hm := h.splice (.head ht hm)

theorem Covers.flaw {p : Problem} (h : Covers ctx chain O R n)
    (hp : Flaw ctx.disk ctx.settings chain n p) : R ⟨p, n.place⟩ :=
  h.report .refl hp

theorem timer_reads (h : Covers ctx chain O R n) (hk : n.kind = .timer) :
    Reads (Timer.read? n) (fun _ => True) R := by
  unfold Timer.read?
  cases ht : Timer.ofNode n with
  | ok t => exact .pure trivial
  | error p => exact (Reads.report (h.flaw (.timer hk ht))).bind fun _ _ => .pure trivial

theorem mem_filled {kind : Kind} {ns : List Node} :
    c ∈ filled kind ns ↔ c ∈ ns ∧ c.kind = kind ∧ c.hasChildren = true := by
  simp [filled]

theorem results_reads {r : Node} (name : String) (h : Covers ctx chain O R n) (hk : n.kind = .http)
    (hr : (filled .results n.children).getLast? = some r) :
    Reads ((Results.ofNode r).complete name n) (fun _ => True) R := by
  have hf : (if (Results.ofNode r).file.isEmpty then none else some (Results.ofNode r).file) = none →
      R ⟨.noResultFile, n.place⟩ := by
    intro he
    exact h.flaw (.resultFile hk hr (by simpa using he))
  have ht : (if (Results.ofNode r).type.isEmpty then none else some (Results.ofNode r).type) = none →
      R ⟨.noResultType, n.place⟩ := by
    intro he
    exact h.flaw (.resultType hk hr (by simpa using he))
  unfold Results.complete
  refine (Reads.orDefault hf).bind fun file _ => ?_
  exact (Reads.orDefault ht).bind fun type _ => .pure trivial

theorem request_reads (h : Covers ctx chain O R n) (hk : n.kind = .http) :
    Reads (Request.ofNode n) (fun _ => True) R := by
  have hts : ∀ c ∈ filled .timer n.children, Reads (Timer.read? c) (fun _ => True) R := by
    intro c hc
    obtain ⟨hc, hck, hf⟩ := mem_filled.mp hc
    exact timer_reads (h.of_taken (.timer hk hc hck hf)) hck
  have hall := Reads.filterMapM (f := Timer.read?) (S := fun _ => True) fun c hc =>
    (hts c hc).mono fun _ _ _ _ => trivial
  have hnone : Reads (pure none : Reading (Option Results)) (fun _ => True) R := .pure trivial
  unfold Request.ofNode
  refine hall.bind fun timers _ => ?_
  refine (Reads.orDefault fun hm => h.flaw (.method hk hm)).bind fun method hmethod => ?_
  refine (Reads.orDefault fun hn => ?_).bind fun name _ => ?_
  · -- The name that is used instead has the method in it, by default as well.
    rw [hmethod]
    exact h.flaw (.requestName hk rfl hn)
  · cases hr : (filled .results n.children).getLast? with
    | none => exact hnone.bind fun _ _ => .pure trivial
    | some r =>
      have hs := (results_reads name h hk hr).map (g := some) (S := fun _ => True) fun _ _ => trivial
      exact hs.bind fun _ _ => .pure trivial

theorem Loop.writable_of_rounds {field : Option String} {k : Int} (h : rounds field = .ok k) :
    Number.Integer.text? k ≠ none := by
  unfold rounds at h
  split at h
  · cases h
  · split at h
    · next hread =>
      cases h
      exact Number.Integer.text?_of_read?_strip hread
    · cases h

theorem loop_reads (h : Covers ctx chain O R n) (hk : n.kind = .loop) :
    Reads (Loop.ofNode n) Loop.Writable R := by
  have hts : ∀ c ∈ n.children.filter (·.kind == .http),
      Reads (Request.ofNode c) (fun _ => True) R := by
    intro c hc
    obtain ⟨hc, hck⟩ := List.mem_filter.mp hc
    have hck := beq_iff_eq.mp hck
    exact request_reads (h.of_taken (.round hk hc hck)) hck
  unfold Loop.ofNode
  refine (Reads.mapM hts).bind fun tests _ => ?_
  dsimp only
  split
  · exact .pure (by decide : Number.Integer.text? (-1) ≠ none)
  · next hforever =>
    split
    · next k hk => exact .pure (Loop.writable_of_rounds hk)
    · next p hp =>
      have hf := h.flaw (.rounds hk rfl (by simpa using hforever) hp)
      exact (Reads.report hf).bind fun _ _ => .pure (by decide : Number.Integer.text? 0 ≠ none)

theorem share_admissible {settings : Settings} {field : Option String} {share : Number.Double}
    (h : Controller.share settings field = .ok share) : Admissible settings share := by
  unfold Controller.share at h
  split at h
  · cases h
  · split at h
    · cases h
    · split at h
      · next hf =>
        cases h
        exact .inl hf
      · cases h

mutual

theorem controller_reads : ∀ n : Node, Covers ctx chain O R n → n.kind = .controller →
    Reads (Controller.ofNode ctx n) (Controller.Regular (Admissible ctx.settings) Loop.Writable O) R
  | ⟨name, children, attributes, content, line, source⟩, h, hk => by
    have hs := steps_reads children (fun c hc hck => h.of_taken (.step hk hc hck))
      (fun c hc hck hf => h.of_taken (.script hk hc hck hf))
    rw [Controller.ofNode]
    refine Reads.get.bind fun log _ => ?_
    refine Reads.count.bind fun _ _ => ?_
    refine hs.bind fun r hr => ?_
    refine (Reads.orDefault fun hn => h.flaw (.controllerName _ hk rfl hn)).bind fun name _ => ?_
    split
    · next share hshare => exact .pure ⟨share_admissible hshare, hr.1, hr.2⟩
    · next p hp =>
      exact (Reads.report (h.flaw (.share hk rfl hp))).bind fun _ _ => .pure ⟨.inr rfl, hr.1, hr.2⟩

theorem steps_reads : ∀ cs : List Node,
    (∀ c ∈ cs, c.kind = .http ∨ c.kind = .loop ∨ c.kind = .controller →
      Covers ctx chain O R c) →
    (∀ c ∈ cs, c.kind = .script → c.hasChildren → Covers ctx chain O R c) →
    Reads (Controller.steps ctx cs) (RegularPart ctx.settings O) R
  | [], _, _ => .pure ⟨trivial, trivial⟩
  | c :: cs, hstep, hscript => by
    obtain ⟨hc, hcs⟩ := List.forall_mem_cons.mp hstep
    obtain ⟨hsc, hscs⟩ := List.forall_mem_cons.mp hscript
    have ih := steps_reads cs hcs hscs
    have hjoin : ∀ r, RegularPart ctx.settings O r →
        Reads (do let (after, more) ← Controller.steps ctx cs; return (r.1 ++ after, r.2 ++ more))
          (RegularPart ctx.settings O) R := by
      intro r hr
      exact ih.bind fun s hs =>
        .pure ⟨regularSteps_append.mpr ⟨hr.1, hs.1⟩, regularSets_append.mpr ⟨hr.2, hs.2⟩⟩
    rw [Controller.steps]
    split
    · next hk =>
      have hr := request_reads (hc (.inl hk)) hk
      exact hr.bind fun r _ => hjoin ([.request r], []) ⟨⟨trivial, trivial⟩, trivial⟩
    · next hk =>
      have hl := loop_reads (hc (.inr (.inl hk))) hk
      exact hl.bind fun l hl => hjoin ([.loop l], []) ⟨⟨hl, trivial⟩, trivial⟩
    · next hk =>
      have hr := controller_reads c (hc (.inr (.inr hk))) hk
      exact hr.bind fun k hk => hjoin ([.controller k], []) ⟨⟨hk, trivial⟩, trivial⟩
    · next hk =>
      split
      · next hf => exact ((hsc hk hf).splice .refl hk).bind hjoin
      · exact hjoin ([], []) ⟨trivial, trivial⟩
    · exact hjoin ([], []) ⟨trivial, trivial⟩

end

theorem step?_reads
    (h : n.kind = .http ∨ n.kind = .controller ∨ n.kind = .loop → Covers ctx chain O R n) :
    Reads (step? ctx n) (fun o => ∀ e ∈ o, e.Regular (Admissible ctx.settings) Loop.Writable O) R := by
  unfold step?
  split
  · next hk =>
    exact (request_reads (h (.inl hk)) hk).bind fun r _ => .pure (by simp [Entry.Regular])
  · next hk =>
    have hc := controller_reads n (h (.inr (.inl hk))) hk
    exact hc.bind fun c hc => .pure (by simpa [Entry.Regular] using hc)
  · next hk =>
    exact (loop_reads (h (.inr (.inr hk))) hk).bind fun l hl => .pure (by simpa [Entry.Regular] using hl)
  · exact .pure (by simp)

theorem repetition_reads (h : Covers ctx chain O R n) (hk : n.kind = .repeated) :
    Reads (repetition ctx n)
      (fun e => ∃ items, e = .repeated items ∧ RegularSteps (Admissible ctx.settings) Loop.Writable O items) R := by
  unfold repetition
  have hs := Reads.filterMapM fun c hc =>
    step?_reads (n := c) fun hck => h.of_taken (.dataStep (.inr hk) hc hck)
  exact hs.bind fun items hi => .pure ⟨items, rfl, regularSteps_iff.mpr hi⟩

theorem dataSet_reads (h : Covers ctx chain O R n) (hk : n.kind = .csv) :
    Reads (DataSet.ofNode ctx n) (DataSet.Regular (Admissible ctx.settings) Loop.Writable O) R := by
  have hs : ∀ c ∈ n.children, Reads (if c.kind == .repeated then
        if c.hasChildren then some <$> repetition ctx c else pure none
      else step? ctx c)
      (fun o => ∀ e ∈ o, e.Regular (Admissible ctx.settings) Loop.Writable O ∨
        (∃ items, e = .repeated items ∧ RegularSteps (Admissible ctx.settings) Loop.Writable O items) ∧
          ∃ c ∈ n.children, c.kind = .repeated ∧ c.hasChildren) R := by
    intro c hc
    split
    · next hr =>
      have hr := beq_iff_eq.mp hr
      split
      · next hf =>
        refine (repetition_reads (h.of_taken (.repetition hk hc hr hf)) hr).map fun e he => ?_
        intro x hx
        cases hx
        exact .inr ⟨he, c, hc, hr, hf⟩
      · exact .pure (by simp)
    · exact (step?_reads fun hck => h.of_taken (.dataStep (.inl hk) hc hck)).mono
        fun o ho e he => .inl (ho e he)
  unfold DataSet.ofNode
  refine (Reads.filterMapM hs).bind fun stack hstack => ?_
  refine (Reads.orDefault fun hn => h.flaw (.filename hk hn)).bind fun filename hfilename => ?_
  refine .pure ?_
  rw [dataSet_regular_iff]
  constructor
  · refine h.describe .refl ⟨hk, rfl, hfilename, rfl, ?_⟩
    rintro ⟨items, hi⟩
    rcases hstack _ hi with hi | ⟨-, hi⟩
    · exact hi.elim
    · exact hi
  · rw [regularWithin_iff]
    intro e he
    exact (hstack e he).imp_right And.left

end LoadPlan.Scenario
