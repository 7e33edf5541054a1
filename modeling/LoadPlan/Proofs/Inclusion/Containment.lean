import LoadPlan.Proofs.Inclusion.Reentry
import LoadPlan.Proofs.Inclusion.Refusal
import LoadPlan.Proofs.Scenario.Removal

/-! Every element of every script comes to be taken in, and where it fails nothing else does. -/
namespace LoadPlan.Scenario

open LoadPlan.Description (Node Kind)

/-! A way that stops at a script does so whatever the scripts before it bring in. -/

/-- The way leads to a script. -/
def Course.Meets {α : Type} (script : Node) : Course α → Prop
  | .done .. => False
  | .script n _ next => n = script ∨ ∀ parts log, (next parts log).Meets script

/-- Reading stops at a script. -/
def Stepwise.Meets {α : Type} (script : Node) (m : Stepwise α) : Prop :=
  ∀ log, (m log).Meets script

namespace Stepwise.Meets

variable {α β γ : Type} {script : Node} {m : Stepwise α} {f : α → Stepwise β}

theorem here (script : Node) : (Stepwise.script script).Meets script :=
  fun _ => .inl rfl

theorem first (h : m.Meets script) : (m >>= f).Meets script := by
  have hbind : ∀ c : Course α, c.Meets script → (c.bind f).Meets script := by
    intro c hc
    induction c with
    | done => exact hc.elim
    | script n log next ih => exact hc.imp_right fun hc parts log => ih parts log (hc parts log)
  exact fun log => hbind _ (h log)

theorem second (h : ∀ a, (f a).Meets script) : (m >>= f).Meets script := by
  have hbind : ∀ c : Course α, (c.bind f).Meets script := by
    intro c
    induction c with
    | done a log => exact h a log
    | script n log next ih => exact .inr ih
  exact fun log => hbind _

theorem map (h : m.Meets script) (g : α → β) : (g <$> m).Meets script := by
  rw [map_eq_pure_bind]
  exact h.first

theorem filterMapM {f : γ → Stepwise (Option β)} {x : γ} {xs : List γ} (hx : x ∈ xs)
    (h : (f x).Meets script) : (xs.filterMapM f).Meets script := by
  induction xs with
  | nil => cases hx
  | cons y ys ih =>
    rw [List.filterMapM_cons]
    rcases List.mem_cons.mp hx with rfl | hx
    · exact h.first
    · refine second fun o => ?_
      cases o with
      | none => exact ih hx
      | some z => exact (ih hx).first

end Stepwise.Meets

variable (disk : Storage.Disk) (settings : Settings)

/-- Reading an element of its kind stops at a script, or the element is that script. -/
def Passes (script n : Node) : Prop :=
  match n.kind with
  | .controller => (Stepwise.controller settings n).Meets script
  | .repeated => (Stepwise.repetition settings n).Meets script
  | .csv => (Stepwise.dataSet disk settings n).Meets script
  | .script => n = script
  | _ => False

variable {disk settings} {script n c root : Node}

theorem steps_meets {cs : List Node} (hc : c ∈ cs)
    (h : c.kind = .controller ∧ (Stepwise.controller settings c).Meets script ∨
      c.kind = .script ∧ c.hasChildren = true ∧ c = script) :
    (Stepwise.steps settings cs).Meets script := by
  induction cs with
  | nil => cases hc
  | cons d ds ih =>
    rw [Stepwise.steps]
    rcases List.mem_cons.mp hc with rfl | hc
    · rcases h with ⟨hk, h⟩ | ⟨hk, hf, rfl⟩
      · rw [hk]
        exact h.first
      · rw [hk, hf]
        exact (Stepwise.Meets.here c).first
    · have hrest : ∀ r : Parts, Stepwise.Meets script (do
          let s ← Stepwise.steps settings ds
          return (r.1 ++ s.1, r.2 ++ s.2)) :=
        fun r => (ih hc).first
      cases d.kind with
      | http => exact .second fun r => hrest ([.request r], [])
      | loop => exact .second fun l => hrest ([.loop l], [])
      | controller => exact .second fun k => hrest ([.controller k], [])
      | script =>
        cases d.hasChildren with
        | true => exact .second fun _ => hrest _
        | false => exact hrest ([], [])
      | _ => exact hrest ([], [])

theorem controller_meets (hc : c ∈ n.children)
    (h : c.kind = .controller ∧ (Stepwise.controller settings c).Meets script ∨
      c.kind = .script ∧ c.hasChildren = true ∧ c = script) :
    (Stepwise.controller settings n).Meets script := by
  obtain ⟨name, children, attributes, content, line, source⟩ := n
  rw [Stepwise.controller]
  exact .second fun _ => .second fun _ => (steps_meets hc h).first

theorem passes_of_taken (ht : Taken n c) (h : Passes disk settings script c) :
    Passes disk settings script n := by
  have hleaf : c.kind = .http ∨ c.kind = .loop ∨ c.kind = .timer ∨ c.kind = .other → False := by
    unfold Passes at h
    rintro (hk | hk | hk | hk) <;> rw [hk] at h <;> exact h
  have hcontroller : c.kind = .controller → (Stepwise.controller settings c).Meets script := by
    intro hk
    unfold Passes at h
    rw [hk] at h
    exact h
  have hstep : c.kind = .controller → (Stepwise.step? settings c).Meets script := by
    intro hk
    unfold Stepwise.step?
    rw [hk]
    exact (hcontroller hk).first
  cases ht with
  | timer _ _ hk => exact (hleaf (.inr (.inr (.inl hk)))).elim
  | round _ _ hk => exact (hleaf (.inl hk)).elim
  | file _ _ hname => exact (hleaf (.inr (.inr (.inr (kind_of_file hname))))).elim
  | step hn hc hk =>
    rcases hk with hk | hk | hk
    · exact (hleaf (.inl hk)).elim
    · exact (hleaf (.inr (.inl hk))).elim
    · unfold Passes
      rw [hn]
      exact controller_meets hc (.inl ⟨hk, hcontroller hk⟩)
  | script hn hc hk hf =>
    unfold Passes at h ⊢
    rw [hk] at h
    rw [hn]
    exact controller_meets hc (.inr ⟨hk, hf, h⟩)
  | dataStep hn hc hk =>
    rcases hk with hk | hk | hk
    · exact (hleaf (.inl hk)).elim
    · unfold Passes
      rcases hn with hn | hn
      · rw [hn]
        refine (Stepwise.Meets.filterMapM hc ?_).first
        rw [if_neg (by rw [hk]; decide)]
        exact hstep hk
      · rw [hn]
        exact (Stepwise.Meets.filterMapM hc (hstep hk)).first
    · exact (hleaf (.inr (.inl hk))).elim
  | repetition hn hc hk hf =>
    unfold Passes at h ⊢
    rw [hk] at h
    rw [hn]
    refine (Stepwise.Meets.filterMapM hc ?_).first
    rw [if_pos (by rw [hk]; rfl), if_pos hf]
    exact h.map some

theorem passes_of_below (h : Below n script) (hk : script.kind = .script) :
    Passes disk settings script n := by
  induction h using Relation.ReflTransGen.head_induction_on with
  | refl =>
    unfold Passes
    rw [hk]
  | head ht _ ih => exact passes_of_taken ht ih

theorem element_meets (ht : Topmost root n) (h : Passes disk settings script n) :
    (Stepwise.element disk settings n).Meets script := by
  unfold Passes at h
  cases ht with
  | request _ hk =>
    rw [hk] at h
    exact h.elim
  | filled _ hk hf =>
    unfold Stepwise.element
    rcases hk with hk | hk | hk | hk | hk <;> rw [hk] at h ⊢
    · exact h.elim
    · exact h.elim
    · rw [hf]
      exact h.first
    · rw [hf]
      exact h.first
    · rw [hf]
      subst h
      exact (Stepwise.Meets.here n).first

theorem elements_meets {ns : List Node} (hn : n ∈ ns) (h : (Stepwise.element disk settings n).Meets script) :
    (Stepwise.elements disk settings ns).Meets script := by
  induction ns with
  | nil => cases hn
  | cons m ms ih =>
    rw [Stepwise.elements]
    rcases List.mem_cons.mp hn with rfl | hn
    · exact h.first
    · exact .second fun _ => (ih hn).first

/-- Reading a document stops at each of its scripts. -/
theorem elements_meets_of_processed (h : Processed root script) (hk : script.kind = .script) :
    (Stepwise.elements disk settings root.children).Meets script := by
  obtain ⟨c, hc, hb⟩ := h
  exact elements_meets hc.mem_children (element_meets hc (passes_of_below hb hk))

/-! Each script that is met is taken in, from its first element to its last. -/

variable {main : Node} {chain : List Storage.Path} {log : Log} {before rest : List Node} {s : Script}

variable (disk settings main) in
/-- Reading comes to a script that it stops at, after those before it have been taken in. -/
theorem leads_meets {course : Course Scenario} (h : course.Meets script) (chain : List Storage.Path)
    (files : List Storage.Location) (waiting : List Script) :
    ∃ next now, Leads disk settings main ⟨chain, files, waiting, .document course⟩
      ⟨chain, files, waiting, .script ⟨script.children, ([], []), next, chain⟩ now⟩ := by
  induction course with
  | done => exact h.elim
  | script n log next ih =>
    have hstop : Leads disk settings main ⟨chain, files, waiting, .document (.script n log next)⟩
        ⟨chain, files, waiting, .script ⟨n.children, ([], []), next, chain⟩ log⟩ := ⟨1, rfl⟩
    rcases h with rfl | h
    · exact ⟨next, log, hstop⟩
    · obtain ⟨parts, later, hresumed⟩ := leads_resumed disk settings main chain files waiting
        ⟨n.children, ([], []), next, chain⟩ log
      obtain ⟨next', now, hmet⟩ := ih parts later (h parts later)
      exact ⟨next', now, hstop.trans (hresumed.trans hmet)⟩

variable (disk settings main chain) in
theorem leads_brought {n : Node} (hs : s.rest = n :: rest) (files : List Storage.Location)
    (waiting : List Script) (log : Log) :
    let r := (brought disk settings chain n).run log
    Leads disk settings main ⟨chain, files, waiting, .script s log⟩
      ⟨chain, files, waiting, .script ((s.pass rest).take r.1) r.2⟩ :=
  leads_child (fun _ _ _ _ => readsOn disk settings main _) hs files waiting log

variable (disk settings main chain) in
/-- A script comes to each of its elements. -/
theorem leads_rest (hs : s.rest = before ++ rest) (files : List Storage.Location) (waiting : List Script)
    (log : Log) :
    ∃ t now, t.rest = rest ∧ Leads disk settings main ⟨chain, files, waiting, .script s log⟩
      ⟨chain, files, waiting, .script t now⟩ := by
  induction before generalizing s log with
  | nil => exact ⟨s, log, hs, .refl _⟩
  | cons n ns ih =>
    let r := (brought disk settings chain n).run log
    obtain ⟨t, now, ht, hleads⟩ := ih (s := (s.pass (ns ++ rest)).take r.1) rfl r.2
    exact ⟨t, now, ht, (leads_brought disk settings main chain hs files waiting log).trans hleads⟩

variable (disk settings main chain log) in
/-- The reading of a document begins at some moment. -/
def Begins (root : Node) : Prop :=
  ∃ files waiting now, Leads disk settings main ⟨[], [], [], .called main log⟩
    ⟨chain, files, waiting, begun disk settings root now⟩

variable (disk settings main chain log) in
/-- At some moment these are the elements of a script that are still to come. -/
def Remains (rest : List Node) : Prop :=
  ∃ s files waiting now, s.rest = rest ∧ Leads disk settings main ⟨[], [], [], .called main log⟩
    ⟨chain, files, waiting, .script s now⟩

theorem Begins.remains (h : Begins disk settings main chain log root) (hscript : Processed root script)
    (hk : script.kind = .script) (hchildren : script.children = before ++ rest) :
    Remains disk settings main chain log rest := by
  obtain ⟨files, waiting, now, hbegun⟩ := h
  obtain ⟨next, met, hmeets⟩ := leads_meets disk settings main
    (elements_meets_of_processed hscript hk now) chain files waiting
  obtain ⟨t, later, ht, hrest⟩ := leads_rest disk settings main chain
    (s := ⟨script.children, ([], []), next, chain⟩) hchildren files waiting met
  exact ⟨t, files, waiting, later, ht, hbegun.trans (hmeets.trans hrest)⟩

theorem script_of_file (h : Processed root n) (hname : n.name = "file") :
    ∃ script, Processed root script ∧ script.kind = .script ∧ n ∈ script.children := by
  obtain ⟨c, hc, hb⟩ := h
  rcases Relation.ReflTransGen.cases_tail hb with rfl | ⟨script, hb, ht⟩
  · exact absurd hname (topmost_of_file hc)
  · exact ⟨script, ⟨c, hc, hb⟩, ht.of_file hname, ht.mem_children⟩

/-- Each document is opened by an element of a script in a document that is read before. -/
theorem begins_of_reached (h : Reached disk settings main chain root) (log : Log) :
    Begins disk settings main chain log root := by
  induction h with
  | main => exact ⟨_, _, log, 1, rfl⟩
  | @included chain root n next place _ hn hname hi hd ih =>
    obtain ⟨script, hscript, hk, hmem⟩ := script_of_file hn hname
    obtain ⟨before, after, hchildren⟩ := List.append_of_mem hmem
    obtain ⟨s, files, waiting, now, hs, hleads⟩ := ih.remains hscript hk hchildren
    have ho : opened disk settings chain n = .ok (place, next) := opened_eq_ok_iff.mpr ⟨hi, hd⟩
    refine ⟨files ++ (named disk n).toList, s.pass after :: waiting, now, hleads.trans ⟨1, ?_⟩⟩
    simp only [Function.iterate_one, step, hs, if_pos hname, ho]

/-! What becomes of an element of a script. -/

variable (disk settings chain) in
/-- An element names a document that may be included but is not well-formed. -/
def Unparsable (n : Node) : Prop :=
  ∃ place source, included disk settings chain n = .ok place ∧
    Description.ofFile disk place.text = .error (.malformed source)

theorem kind_of_opened {p : Problem} (h : opened disk settings chain n = .error p) :
    p.kind = .malformed ∧ Unparsable disk settings chain n ∨
      p.kind = .unavailable ∧ ¬Unparsable disk settings chain n := by
  rcases opened_eq_error_iff.mp h with hi | ⟨place, e, hi, hf, rfl⟩
  · refine .inr ⟨kind_of_included hi, ?_⟩
    rintro ⟨place, source, hi', -⟩
    cases hi.symm.trans hi'
  · have hother : (∀ source, e ≠ .malformed source) → ¬Unparsable disk settings chain n := by
      rintro hne ⟨place', source, hi', hf'⟩
      cases hi.symm.trans hi'
      exact hne source (Except.error.inj (hf.symm.trans hf'))
    cases e with
    | missing path => exact .inr ⟨rfl, hother nofun⟩
    | malformed source => exact .inl ⟨rfl, place, source, hi, hf⟩
    | refused failure => exact .inr ⟨rfl, hother nofun⟩

theorem run_brought (hname : n.name = "file") (now : Log) :
    (brought disk settings chain n).run now =
      match opened disk settings chain n with
      | .ok (place, next) => (contents disk settings (chain ++ [place]) next).run now
      | .error p => (empty, now.report p n) := by
  rw [brought, if_pos hname, splice_eq]
  cases opened disk settings chain n with
  | ok o => rfl
  | error p => rfl

/-- An element of a script that names a document has been dealt with. Either the document was read, after the
reports made before, and the script goes on with what is in it; or nothing was taken in and there is one more
report, on that element, which says whether the document is malformed. -/
inductive Moment.Handles (disk : Storage.Disk) (settings : Settings) (m : Moment) (n : Node) :
    Moment → Prop
  | spliced {s : Script} {now : Log} {rest : List Node} {place : Storage.Path} {next : Node}
      {r : Scenario × Log} : m.now = .script s now → s.rest = n :: rest →
      opened disk settings m.chain n = .ok (place, next) →
      (contents disk settings (m.chain ++ [place]) next).run now = r →
      Handles disk settings m n { m with now := .script ((s.pass rest).take r.1) r.2 }
  | dropped {s : Script} {now : Log} {rest : List Node} {p : Problem} : m.now = .script s now →
      s.rest = n :: rest → opened disk settings m.chain n = .error p →
      p.refusal? = none →
      p.kind = .malformed ∧ Unparsable disk settings m.chain n ∨
        p.kind = .unavailable ∧ ¬Unparsable disk settings m.chain n →
      Handles disk settings m n { m with now := .script (s.pass rest) (now.report p n) }

theorem exists_handled {k : Nat} {now : Log} (h : (moment disk settings main log k).Asks n now)
    (hanswered : ∀ failure, ¬(moment disk settings main log k).Refused disk settings n failure now) :
    ∃ j, (moment disk settings main log k).Handles disk settings n
      (moment disk settings main log (k + j)) := by
  obtain ⟨s, rest, hnow, hs, hname⟩ := id h
  have hsteps : ∀ j, moment disk settings main log (k + j) =
      (step disk settings main)^[j] (moment disk settings main log k) := by
    intro j
    rw [moment, Nat.add_comm k j, Function.iterate_add_apply]
    rfl
  simp only [hsteps]
  generalize moment disk settings main log k = m at h hanswered hnow
  obtain ⟨chain, files, waiting, activity⟩ := m
  have hnow : activity = .script s now := hnow
  subst hnow
  obtain ⟨j, hj⟩ := leads_brought disk settings main chain hs files waiting now
  refine ⟨j, ?_⟩
  rw [hj, run_brought hname]
  cases ho : opened disk settings chain n with
  | ok o => exact .spliced rfl hs ho rfl
  | error p =>
    simp only [Script.take_empty]
    refine .dropped rfl hs ho ?_ (kind_of_opened ho)
    refine Option.eq_none_iff_forall_not_mem.mpr fun failure hp => hanswered failure ⟨h, ?_⟩
    rw [← Problem.refusal?_eq_some_iff.mp hp]
    exact ho

/-- A report that does not end the collection may as well be missing: the same is collected. -/
theorem collect_of_removal {main' c : Node} {p : Problem} (hr : Resembles main main')
    (h : Removal c (Topmost main) main.children main'.children)
    (hc : Useless disk settings (headChain disk main) c p) (hp : p.refusal? = none) (log : Log) :
    (∃ s controllers before after,
      (collect disk settings main).run log =
        (.ok s, ⟨controllers, log.diagnostics ++ (before ++ [⟨p, c.place⟩] ++ after)⟩) ∧
      (collect disk settings main').run log =
        (.ok s, ⟨controllers, log.diagnostics ++ (before ++ after)⟩)) ∨
    ∃ failure, ((collect disk settings main).run log).1 = .error failure ∧
      ((collect disk settings main').run log).1 = .error failure := by
  obtain ⟨s, controllers, before, after, hrun, hrun'⟩ := run_of_removal hr h hc log
  have hsame : Log.refusal? ⟨controllers, log.diagnostics ++ (before ++ [⟨p, c.place⟩] ++ after)⟩ =
      Log.refusal? ⟨controllers, log.diagnostics ++ (before ++ after)⟩ := by
    simp only [Log.refusal?, List.findSome?_append, List.findSome?_cons, hp, List.findSome?_nil,
      Option.or_none]
  rw [run_collect, run_collect, hrun, hrun', hsame]
  cases Log.refusal? ⟨controllers, log.diagnostics ++ (before ++ after)⟩ with
  | none => exact .inl ⟨s, controllers, before, after, rfl, rfl⟩
  | some failure => exact .inr ⟨failure, rfl, rfl⟩

/-- How far failures are contained. Each element of each script in each document that is read comes to be
taken in at some moment. One that names a document is dealt with by itself, whatever fails, unless the disk refuses
to tell where the document is. A description from which such an element is removed where it opens no document, or a
timer where it lacks a field, gives the same as before, with one report less. The first lookup that is
refused ends the collection with no description at all, and nothing else does. -/
theorem failures_contained (disk : Storage.Disk) (settings : Settings) (main : Node) (log : Log) :
    let moment := moment disk settings main log
    (∀ {chain : List Storage.Path} {root script n : Node} {before rest : List Node},
      Reached disk settings main chain root → Processed root script → script.kind = .script →
      script.children = before ++ n :: rest →
      ∃ k s now, (moment k).chain = chain ∧ (moment k).now = .script s now ∧ s.rest = n :: rest) ∧
    (∀ {k : Nat} {n : Node} {now : Log}, (moment k).Asks n now →
      (∃ failure, (moment k).Refused disk settings n failure now) ∨
        ∃ j, (moment k).Handles disk settings n (moment (k + j))) ∧
    (∀ {main' c : Node} {p : Problem}, Resembles main main' →
      Removal c (Topmost main) main.children main'.children →
      Useless disk settings (headChain disk main) c p → p.refusal? = none →
      (∃ s controllers before after,
        (collect disk settings main).run log =
          (.ok s, ⟨controllers, log.diagnostics ++ (before ++ [⟨p, c.place⟩] ++ after)⟩) ∧
        (collect disk settings main').run log =
          (.ok s, ⟨controllers, log.diagnostics ++ (before ++ after)⟩)) ∨
      ∃ failure, ((collect disk settings main).run log).1 = .error failure ∧
        ((collect disk settings main').run log).1 = .error failure) ∧
    (log.refusal? = none →
      (∃ s later, (collect disk settings main).run log = (.ok s, later) ∧
        (ofDescription disk settings main).run log = (s, later) ∧
        ∀ k n failure now, ¬(moment k).Refused disk settings n failure now) ∨
      ∃ failure later k n now, (collect disk settings main).run log = (.error failure, later) ∧
        (moment k).Refused disk settings n failure now ∧ later.diagnostics = now.diagnostics ∧
        ∀ j < k, ∀ n failure now, ¬(moment j).Refused disk settings n failure now) := by
  intro moment
  refine ⟨?_, ?_, fun hr h hc hp => collect_of_removal hr h hc hp log, collect_ends disk settings main⟩
  · intro chain root script n before rest hroot hscript hk hchildren
    obtain ⟨s, files, waiting, now, hs, k, hmoment⟩ :=
      (begins_of_reached hroot log).remains hscript hk hchildren
    have hmoment : moment k = ⟨chain, files, waiting, .script s now⟩ := hmoment
    exact ⟨k, s, now, by rw [hmoment], by rw [hmoment], hs⟩
  · intro k n now hasks
    by_cases hrefused : ∃ failure, (moment k).Refused disk settings n failure now
    · exact .inl hrefused
    · exact .inr (exists_handled hasks (not_exists.mp hrefused))

def goneFile : Node :=
  ⟨"file", [], [], "gone", 1, "r"⟩

def goneScript : Node :=
  ⟨"script", [goneFile], [], "gone", 1, "r"⟩

/-- A timer without a delay. -/
def hastyTimer : Node :=
  ⟨"timer", [⟨"name", [], [], "t", 2, "r"⟩, ⟨"range", [], [], "1", 2, "r"⟩], [], "t1", 2, "r"⟩

/-- A description with a script that names no document and a timer that lacks a field. -/
def brittleNode : Node :=
  ⟨"s", [goneScript, ⟨"http", [hastyTimer], [], "t1", 2, "r"⟩], [], "gonet1", 1, "r"⟩

def soundNode : Node :=
  ⟨"s", [goneScript, ⟨"http", [], [], "", 2, "r"⟩], [], "gone", 1, "r"⟩

theorem collected_brittle : ((collect circle shallow brittleNode).run .empty).1.isOk = true := by
  cbv

def longFile : Node :=
  ⟨"file", [], [], Storage.Disk.longName, 1, ""⟩

def longScript : Node :=
  ⟨"script", [longFile], [], "", 1, ""⟩

/-- A description in memory with a script that names a document by a name that is too long. -/
def longNode : Node :=
  ⟨"s", [longScript], [], "", 1, ""⟩

theorem opened_longFile (disk : Storage.Disk) (settings : Settings) (chain : List Storage.Path) :
    ∃ failure, opened disk settings chain longFile = .error (.includeRefused failure) := by
  have hname : longFile.content.isEmpty = false :=
    Bool.eq_false_iff.mpr fun h => Storage.Disk.longName_ne (by decide) (String.isEmpty_iff.mp h)
  have hfound : found disk longFile = disk.firstFile [⟨"", [Storage.Disk.longName]⟩] := by
    rw [found, hname]
    simp only [longFile, Storage.Disk.ofString_longName]
    rfl
  rw [Storage.Disk.firstFile, Storage.Disk.isFile, Storage.Disk.look_longName disk] at hfound
  rw [opened, included_eq, hfound]
  exact ⟨_, rfl⟩

theorem failures_contained_brittle :
    (∃ k j, (moment circle shallow brittleNode .empty k).Handles circle shallow goneFile
      (moment circle shallow brittleNode .empty (k + j))) ∧
    (∃ s controllers before after,
      (collect circle shallow brittleNode).run .empty =
        (.ok s, ⟨controllers, before ++ [⟨.timerLacks ["delay"], ⟨"r", 2⟩⟩] ++ after⟩) ∧
      (collect circle shallow soundNode).run .empty = (.ok s, ⟨controllers, before ++ after⟩)) ∧
    ∃ failure, ((collect circle shallow longNode).run .empty).1 = .error failure := by
  have hanswered : Log.empty.refusal? = none := rfl
  refine ⟨?_, ?_, ?_⟩
  · obtain ⟨hasked, hhandled, -, hends⟩ := failures_contained circle shallow brittleNode .empty
    have hscript : Processed brittleNode goneScript :=
      ⟨goneScript, .filled (List.mem_cons_self ..) (by decide) rfl, .refl⟩
    obtain ⟨k, s, now, -, hnow, hs⟩ := hasked .main hscript rfl (List.nil_append _).symm
    rcases hhandled ⟨s, [], hnow, hs, rfl⟩ with ⟨failure, hrefused⟩ | ⟨j, hj⟩
    · rcases hends hanswered with ⟨-, -, -, -, hnone⟩ | ⟨failure, _, _, _, _, hrun, -⟩
      · exact absurd hrefused (hnone k goneFile failure now)
      · have hok := collected_brittle
        rw [hrun] at hok
        cases hok
    · exact ⟨k, j, hj⟩
  · obtain ⟨-, -, hremoval, -⟩ := failures_contained circle shallow brittleNode .empty
    have hr : Removal hastyTimer (Topmost brittleNode) brittleNode.children soundNode.children :=
      .inside [goneScript] [] (.request (List.mem_cons_of_mem _ (List.mem_singleton_self _)) rfl)
        ⟨rfl, rfl, rfl, rfl⟩ (.here [] [] (.timer rfl (List.mem_singleton_self _) rfl rfl))
    have huseless : Useless circle shallow (headChain circle brittleNode) hastyTimer
        (.timerLacks ["delay"]) :=
      .timer rfl ⟨"delay", by decide, by decide⟩
    have hsame : Resembles brittleNode soundNode := ⟨rfl, rfl, rfl, rfl⟩
    rcases hremoval hsame hr huseless rfl with hremoved | ⟨failure, hfailed, -⟩
    · exact hremoved
    · have hok := collected_brittle
      rw [hfailed] at hok
      cases hok
  · obtain ⟨hasked, -, -, hends⟩ := failures_contained circle shallow longNode .empty
    have hscript : Processed longNode longScript :=
      ⟨longScript, .filled (List.mem_singleton_self _) (by decide) rfl, .refl⟩
    have hchildren : longScript.children = [] ++ longFile :: [] := rfl
    obtain ⟨k, s, now, -, hnow, hs⟩ := hasked .main hscript rfl hchildren
    rcases hends hanswered with ⟨-, -, -, -, hnone⟩ | ⟨failure, _, _, _, _, hrun, -⟩
    · obtain ⟨failure, hopened⟩ := opened_longFile circle shallow (moment circle shallow longNode .empty k).chain
      exact absurd ⟨⟨s, [], hnow, hs, rfl⟩, hopened⟩ (hnone k longFile failure now)
    · exact ⟨failure, by rw [hrun]⟩

end LoadPlan.Scenario
