import LoadPlan.Proofs.Console.Exit
import LoadPlan.Proofs.Jmx.Leaves

/-! What the validate command shows of an audit, and its exit code. Texts are shown one after another until an error
is raised over one of them. -/
namespace LoadPlan.Console

open LoadPlan.Storage (Disk)

/-- The lines of texts up to the first one that an error is raised over, and the message of that error. -/
def Screen.shownOf (library : Renderer) : List String → List String × Option String
  | [] => ([], none)
  | t :: ts =>
    match lines library t with
    | .ok ls => (ls ++ (shownOf library ts).1, (shownOf library ts).2)
    | .error message => ([], some message)

variable {library : Renderer}

theorem Screen.shownOf_append (as bs : List String) : shownOf library (as ++ bs) =
    match (shownOf library as).2 with
    | none => ((shownOf library as).1 ++ (shownOf library bs).1, (shownOf library bs).2)
    | some message => ((shownOf library as).1, some message) := by
  induction as with
  | nil => rfl
  | cons t as ih =>
    rw [List.cons_append, shownOf, shownOf]
    cases lines library t with
    | error message => rfl
    | ok ls =>
      dsimp only
      rw [ih]
      cases hshown : (shownOf library as).2 <;> simp

theorem Screen.shownOf_eq_none_iff {ts : List String} :
    (shownOf library ts).2 = none ↔ ∀ t ∈ ts, library.Shows t := by
  induction ts with
  | nil => simp [shownOf]
  | cons t ts ih =>
    rw [List.forall_mem_cons, ← Running.exists_lines_iff, ← ih, shownOf]
    cases lines library t <;> simp

namespace Running

/-- On a disk, which stays as it is, an action shows texts one after another, and then ends as it may. An error over
one of them ends it before. -/
def Prints (library : Renderer) (d : Disk) (m : Running Unit) (texts : List String) (last : Except Stop Unit) : Prop :=
  ∀ shown, m.run ⟨d, shown⟩ =
    (match (Screen.shownOf library texts).2 with
      | none => last
      | some message => .error (.crash (.unshown message)),
      ⟨d, shown ++ (Screen.shownOf library texts).1⟩)

namespace Prints

variable {d : Disk} {m n : Running Unit} {as bs : List String} {last : Except Stop Unit}

theorem pure : Prints library d (pure ()) [] (.ok ()) := by
  intro shown
  change (_, _) = (_, _)
  simp [Screen.shownOf]

theorem throw (stop : Stop) : Prints library d (throw stop) [] (.error stop) := by
  intro shown
  change (_, _) = (_, _)
  simp [Screen.shownOf]

theorem print (t : String) : Prints library d (print library t) [t] (.ok ()) := by
  intro shown
  rw [Screen.shownOf]
  unfold Running.print Running.display
  cases Screen.lines library t with
  | error message =>
    change (_, _) = (_, _)
    simp
  | ok ls =>
    change (_, _) = (_, _)
    simp [Screen.shownOf]

theorem bind (hm : Prints library d m as (.ok ())) (hn : Prints library d n bs last) :
    Prints library d (m >>= fun _ => n) (as ++ bs) last := by
  intro shown
  rw [run_bind, hm shown, Screen.shownOf_append]
  cases (Screen.shownOf library as).2 with
  | some message => rfl
  | none =>
    dsimp only
    rw [hn, List.append_assoc]

/-- What comes next may depend on the disk. -/
theorem disk {f : Disk → Running Unit} (hf : Prints library d (f d) as last) :
    Prints library d (disk >>= f) as last := by
  intro shown
  have hread : (Running.disk >>= f).run ⟨d, shown⟩ = (f d).run ⟨d, shown⟩ := run_bind ..
  rw [hread]
  exact hf shown

end Prints

end Running

namespace Command

open Running

/-- Texts with numbers in front. -/
def numbered (start : Nat) (ls : List String) : List (List Span) :=
  (ls.zipIdx start).map fun x => [.plain s!"  {x.2}. {x.1}"]

/-- What is shown of the issues of an audit, in their order. -/
def verdict (a : Jmx.Audit) : List (List Span) :=
  if a.valid then [[.styled "bold green" "✓ JMX file is valid!"]]
  else [.styled "bold red" s!"✗ JMX file has {a.issues.length} issue(s)"] ::
    [.plain "\n", .styled "bold red" "Issues Found:"] :: numbered 1 (a.issues.map (·.message))

/-- What is shown of the advice of an audit, in its order. -/
def recommendations (a : Jmx.Audit) : List (List Span) :=
  if a.advice.isEmpty then []
  else [.plain "\n", .styled "bold yellow" "Recommendations:"] :: numbered 1 (a.advice.map (·.message))

/-- What stands before the path. -/
def validatingHead : List Span :=
  [.plain "\n", .styled "bold" "Validating JMX file:", .plain " "]

/-- What stands above the findings. -/
def heading (path : String) : List Span :=
  validatingHead ++ [.plain path, .plain "\n"]

/-- All that is shown when a plan is validated. -/
def findings (path : String) (a : Jmx.Audit) : List (List Span) :=
  heading path :: (verdict a ++ recommendations a)

variable {d : Disk} {args : List String} {path : String} {a : Jmx.Audit}

section Printing

theorem prints_numbered (ls : List String) :
    Prints library d (printNumbered library ls) ((numbered 1 ls).map markup) (.ok ()) := by
  have hloop (start : Nat) : Prints library d (do
      forIn (ls.zipIdx start) PUnit.unit fun x _ => do
        print library s!"  {x.2}. {x.1}"
        pure (ForInStep.yield PUnit.unit)
      pure ()) ((numbered start ls).map markup) (.ok ()) := by
    induction ls generalizing start with
    | nil => exact Prints.pure
    | cons l ls ih =>
      have hnumbered : (numbered start (l :: ls)).map markup =
          s!"  {start}. {l}" :: (numbered (start + 1) ls).map markup := by
        rw [numbered, List.zipIdx_cons, List.map_cons, List.map_cons, markup_plain]
        rfl
      rw [List.zipIdx_cons, List.forIn_cons, hnumbered]
      simp only [bind_assoc, pure_bind]
      exact (Prints.print _).bind (ih (start + 1))
  exact hloop 1

theorem prints_recommendations (a : Jmx.Audit) {m : Running Unit} {last : Except Stop Unit}
    (hm : Prints library d m [] last) :
    Prints library d (do
      if (!a.advice.isEmpty) = true then
        print library "\n[bold yellow]Recommendations:[/bold yellow]"
        printNumbered library (a.advice.map (·.message))
      m) ((recommendations a).map markup) last := by
  have htitle : "\n[bold yellow]Recommendations:[/bold yellow]" =
      markup [.plain "\n", .styled "bold yellow" "Recommendations:"] := by
    decide
  unfold recommendations
  rw [htitle]
  dsimp only
  cases a.advice.isEmpty with
  | true => exact hm
  | false =>
    have h := (Prints.print (markup [.plain "\n", .styled "bold yellow" "Recommendations:"])).bind
      ((prints_numbered (a.advice.map (·.message))).bind hm)
    rwa [List.append_nil] at h

theorem prints_showAudit (a : Jmx.Audit) :
    Prints library d (showAudit library a) ((verdict a ++ recommendations a).map markup)
      (if a.valid then .ok () else .error (.exit 1)) := by
  have hend : Prints library d (if (!a.valid) = true then throw (.exit 1) else pure ()) []
      (if a.valid then .ok () else .error (.exit 1)) := by
    cases a.valid with
    | true => exact .pure
    | false => exact .throw _
  have hrest := prints_recommendations a hend
  have hcount : s!"[bold red]✗ JMX file has {a.issues.length} issue(s)[/bold red]" =
      markup [.styled "bold red" s!"✗ JMX file has {a.issues.length} issue(s)"] := by
    apply String.toList_injective
    simp [markup, Span.markup, toString]
  have hvalid : "[bold green]✓ JMX file is valid![/bold green]" =
      markup [.styled "bold green" "✓ JMX file is valid!"] := by
    decide
  have htitle : "\n[bold red]Issues Found:[/bold red]" =
      markup [.plain "\n", .styled "bold red" "Issues Found:"] := by
    decide
  unfold showAudit verdict
  rw [hcount, hvalid, htitle, List.map_append]
  dsimp only at hrest ⊢
  by_cases hv : a.valid = true
  · rw [if_pos hv, if_pos hv]
    exact (Prints.print _).bind hrest
  · rw [if_neg hv, if_neg hv]
    exact (Prints.print _).bind ((Prints.print _).bind ((prints_numbered (a.issues.map (·.message))).bind hrest))

theorem heading_text (path : String) : s!"\n[bold]Validating JMX file:[/bold] {path}\n" = markup (heading path) := by
  have hhead : "\n[bold]Validating JMX file:[/bold] " = markup validatingHead := by decide
  rw [heading, markup_append, ← hhead]
  exact String.append_assoc ..

theorem prints_validate (haudit : Jmx.PlanFile.audit d path = .ok a) :
    Prints library d (validate library path) ((findings path a).map markup)
      (if a.valid then .ok () else .error (.exit 1)) := by
  unfold validate
  rw [heading_text]
  refine (Prints.print _).bind (.disk ?_)
  rw [haudit]
  exact prints_showAudit a

/-- The findings are shown up to the first one that an error is raised over, and if there is none the exit code is
that of the audit. -/
theorem run_validate (hargs : Arguments.request? args = some (.validate path))
    (hthere : isThere d path = true) (haudit : Jmx.PlanFile.audit d path = .ok a) :
    run library d args =
      let shown := Screen.shownOf library ((findings path a).map markup)
      ⟨d, if shown.2 = none ∧ a.valid = true then 0 else 1, shown.2.map .unshown, shown.1⟩ := by
  have hperform : Prints library d (perform library (.validate path)) ((findings path a).map markup)
      (if a.valid then .ok () else .error (.exit 1)) := by
    refine Prints.disk ?_
    rw [if_pos hthere]
    exact prints_validate haudit
  have hrun := hperform []
  unfold run
  rw [hargs]
  dsimp only at hrun ⊢
  rw [hrun]
  cases (Screen.shownOf library ((findings path a).map markup)).2 <;> cases a.valid <;> rfl

end Printing

section Reading

/-- The texts of the issues and of the advice. -/
def messages (a : Jmx.Audit) : List String :=
  a.issues.map (·.message) ++ a.advice.map (·.message)

/-- The lines of a text as it is written. -/
def written (t : String) : List String :=
  Screen.tidyLines (Text.splitLines t.toList)

theorem shownOf_of_visible {ts : List (List Span)}
    (h : ∀ spans ∈ ts, library.visible (markup spans) = .ok (textOf spans).toList) :
    Screen.shownOf library (ts.map markup) = ((ts.map textOf).flatMap written, none) := by
  induction ts with
  | nil => rfl
  | cons spans ts ih =>
    obtain ⟨hspans, hts⟩ := List.forall_mem_cons.mp h
    have hlines : Screen.lines library (markup spans) = .ok (written (textOf spans)) := by
      rw [Screen.lines, hspans]
      rfl
    rw [List.map_cons, Screen.shownOf, hlines, ih hts]
    rfl

/-- What stands in front of a text with a number. -/
def front (i : Nat) : String :=
  "  " ++ i.repr ++ ". "

theorem bare_front (i : Nat) : Bare (front i) :=
  ((by decide : Bare "  ").append (bare_repr i)).append (by decide)

theorem plain_front (i : Nat) : ∀ c ∈ (front i).toList, c ≠ ':' ∧ isControl c = false := by
  simp only [front, String.toList_append, List.forall_mem_append]
  exact ⟨⟨by simp [isControl], plain_repr i⟩, by simp [isControl]⟩

theorem mem_numbered {start : Nat} {ls : List String} {spans : List Span} (h : spans ∈ numbered start ls) :
    ∃ i, ∃ l ∈ ls, spans = [.plain (front i ++ l)] := by
  obtain ⟨⟨l, i⟩, hl, rfl⟩ := List.mem_map.mp h
  exact ⟨i, l, List.fst_mem_of_mem_zipIdx hl, rfl⟩

/-- Whatever holds of the titles and of the messages under their numbers holds of all that is told. -/
theorem forall_told {P : List Span → Prop}
    (hvalid : P [.styled "bold green" "✓ JMX file is valid!"])
    (hcount : P [.styled "bold red" s!"✗ JMX file has {a.issues.length} issue(s)"])
    (hissues : P [.plain "\n", .styled "bold red" "Issues Found:"])
    (hadvice : P [.plain "\n", .styled "bold yellow" "Recommendations:"])
    (hmessages : ∀ i, ∀ m ∈ messages a, P [.plain (front i ++ m)]) :
    ∀ spans ∈ verdict a ++ recommendations a, P spans := by
  have hnumbered {ls : List String} (hls : ls ⊆ messages a) : ∀ spans ∈ numbered 1 ls, P spans := by
    intro spans hspans
    obtain ⟨i, l, hl, rfl⟩ := mem_numbered hspans
    exact hmessages i l (hls hl)
  refine List.forall_mem_append.mpr ⟨?_, ?_⟩
  · unfold verdict
    split
    · exact List.forall_mem_singleton.mpr hvalid
    · simp only [List.forall_mem_cons]
      exact ⟨hcount, hissues, hnumbered (List.subset_append_left ..)⟩
  · unfold recommendations
    split
    · exact List.forall_mem_nil _
    · rw [List.forall_mem_cons]
      exact ⟨hadvice, hnumbered (List.subset_append_right ..)⟩

theorem count_eq (n : Nat) : s!"✗ JMX file has {n} issue(s)" = "✗ JMX file has " ++ (n.repr ++ " issue(s)") :=
  String.append_assoc ..

theorem proper_told (h : ∀ m ∈ messages a, Bare m) :
    ∀ spans ∈ verdict a ++ recommendations a, ∀ s ∈ spans, s.Proper := by
  refine forall_told ?_ ?_ ?_ ?_ fun i m hm => ?_
  · exact List.forall_mem_singleton.mpr ⟨by decide, by decide⟩
  · refine List.forall_mem_singleton.mpr ⟨by decide, ?_⟩
    rw [count_eq]
    exact (by decide : Bare "✗ JMX file has ").append ((bare_repr _).append (by decide))
  · exact List.forall_mem_cons.mpr ⟨(by decide : Bare "\n"), List.forall_mem_singleton.mpr ⟨by decide, by decide⟩⟩
  · exact List.forall_mem_cons.mpr ⟨(by decide : Bare "\n"), List.forall_mem_singleton.mpr ⟨by decide, by decide⟩⟩
  · exact List.forall_mem_singleton.mpr ((bare_front i).append (h m hm))

theorem clear_told (h : ∀ m ∈ messages a, Clear m) :
    ∀ spans ∈ verdict a ++ recommendations a, Clear (textOf spans) := by
  refine forall_told (by decide) ?_ (by decide) (by decide) fun i m hm => ?_
  · rw [textOf, Span.text, textOf, String.append_empty, count_eq]
    refine Clear.behind (Clear.behind (by decide) (plain_repr _)) ?_
    simp [isControl]
  · rw [textOf_plain]
    exact (h m hm).behind (plain_front i)

end Reading

/-- The findings as they are to be read, without the heading. -/
def told (a : Jmx.Audit) : List String :=
  (verdict a ++ recommendations a).map textOf

/-- How it ends to validate a plan with an audit. -/
structure Ended (library : Renderer) (path : String) (a : Jmx.Audit) (d : Disk) (out : Outcome) : Prop where
  disk : out.disk = d
  /-- Besides the audit, the exit code depends on whether all findings can be shown. -/
  zero : out.code = 0 ↔ a.valid = true ∧ ∀ spans ∈ findings path a, library.Shows (markup spans)
  one : out.code ≠ 0 → out.code = 1
  /-- The findings are shown in their order, up to the first one that an error is raised over. -/
  shown : out.lines = (Screen.shownOf library ((findings path a).map markup)).1
  crash : out.crash = (Screen.shownOf library ((findings path a).map markup)).2.map .unshown
  /-- If nothing in the path and in the messages is read as a tag, the exit code is that of the audit. -/
  bare : library.ReadsTags → (∀ t ∈ path :: messages a, Bare t) → (out.code = 0 ↔ a.valid = true)
  /-- If one of them closes a style, the exit code is 1, whatever the audit says. -/
  closes : library.ReadsTags → (∃ t ∈ path :: messages a, Closes t) → out.code = 1
  /-- If nothing in the messages is read as something else, all of them are shown as they are, in order and
  under numbers. -/
  verbatim : library.ReadsTags → (∀ m ∈ messages a, Bare m ∧ Clear m) →
    ∀ opening, Screen.lines library (markup (heading path)) = .ok opening →
      (out.code = 0 ↔ a.valid = true) ∧ out.lines = opening ++ (told a).flatMap written

theorem proper_validatingHead : ∀ s ∈ validatingHead, s.Proper := by
  simp only [validatingHead, List.forall_mem_cons]
  exact ⟨(by decide : Bare "\n"), ⟨by decide, by decide⟩, (by decide : Bare " "), List.forall_mem_nil _⟩

theorem shows_findings (hlibrary : library.ReadsTags) (h : ∀ t ∈ path :: messages a, Bare t) :
    ∀ spans ∈ findings path a, library.Shows (markup spans) := by
  obtain ⟨hpath, hmessages⟩ := List.forall_mem_cons.mp h
  refine List.forall_mem_cons.mpr ⟨hlibrary.shows (List.forall_mem_append.mpr ⟨proper_validatingHead, ?_⟩), ?_⟩
  · exact List.forall_mem_cons.mpr ⟨hpath, List.forall_mem_singleton.mpr (by decide : Bare "\n")⟩
  · exact fun spans hspans => hlibrary.shows (proper_told hmessages spans hspans)

variable (path) in
/-- A message is among the findings, under its number. -/
theorem exists_finding {m : String} (hm : m ∈ messages a) : ∃ i, [.plain (front i ++ m)] ∈ findings path a := by
  have hnumbered {ls : List String} (hl : m ∈ ls) : ∃ i, [.plain (front i ++ m)] ∈ numbered 1 ls := by
    obtain ⟨i, hi⟩ := List.mem_iff_getElem?.mp hl
    have hmem : (m, 1 + i) ∈ ls.zipIdx 1 := List.mem_zipIdx_iff_le_and_getElem?_sub.mpr (by simp [hi])
    exact ⟨1 + i, List.mem_map.mpr ⟨_, hmem, rfl⟩⟩
  rcases List.mem_append.mp hm with hm | hm
  · obtain ⟨i, hi⟩ := hnumbered hm
    have hinvalid : ¬a.valid = true := by
      rw [Jmx.Audit.valid, List.isEmpty_iff]
      intro hempty
      rw [hempty] at hm
      cases hm
    refine ⟨i, List.mem_cons_of_mem _ (List.mem_append_left _ ?_)⟩
    rw [verdict, if_neg hinvalid]
    exact List.mem_cons_of_mem _ (List.mem_cons_of_mem _ hi)
  · obtain ⟨i, hi⟩ := hnumbered hm
    have hadvice : ¬a.advice.isEmpty = true := by
      rw [List.isEmpty_iff]
      intro hempty
      rw [hempty] at hm
      cases hm
    refine ⟨i, List.mem_cons_of_mem _ (List.mem_append_right _ ?_)⟩
    rw [recommendations, if_neg hadvice]
    exact List.mem_cons_of_mem _ hi

theorem not_shows_findings (hlibrary : library.ReadsTags) {t : String} (ht : t ∈ path :: messages a)
    (hcloses : Closes t) : ¬∀ spans ∈ findings path a, library.Shows (markup spans) := by
  intro hall
  rcases List.mem_cons.mp ht with rfl | hm
  · refine hlibrary.raises proper_validatingHead (hcloses.append "\n") ?_
    have hheading := hall _ (List.mem_cons_self ..)
    rw [heading, markup_append] at hheading
    exact hheading
  · obtain ⟨i, hi⟩ := exists_finding path hm
    refine hlibrary.raises_first (hcloses.behind (bare_front i)) ?_
    have hnumbered := hall _ hi
    rwa [markup_plain] at hnumbered

theorem exit_of_validate (library : Renderer) (hargs : Arguments.request? args = some (.validate path))
    (hthere : isThere d path = true) (haudit : Jmx.PlanFile.audit d path = .ok a) :
    Ended library path a d (run library d args) := by
  have hnone : (Screen.shownOf library ((findings path a).map markup)).2 = none ↔
      ∀ spans ∈ findings path a, library.Shows (markup spans) := by
    rw [Screen.shownOf_eq_none_iff, List.forall_mem_map]
  rw [run_validate hargs hthere haudit]
  have hzero (P : Prop) [Decidable P] : (if P then 0 else 1) = 0 ↔ P := by simp
  constructor
  · rfl
  · exact (hzero _).trans ((and_congr_left' hnone).trans and_comm)
  · intro h
    exact if_neg fun hall => h (if_pos hall)
  · rfl
  · rfl
  · intro hlibrary h
    exact (hzero _).trans (and_iff_right (hnone.mpr (shows_findings hlibrary h)))
  · rintro hlibrary ⟨t, ht, hcloses⟩
    exact if_neg fun hall => not_shows_findings hlibrary ht hcloses (hnone.mp hall.1)
  · intro hlibrary h opening hopening
    have hproper := proper_told fun m hm => (h m hm).1
    have hall := shownOf_of_visible fun spans hspans =>
      hlibrary.sees (hproper spans hspans) (clear_told (fun m hm => (h m hm).2) spans hspans)
    have hfindings : Screen.shownOf library ((findings path a).map markup) =
        (opening ++ (told a).flatMap written, none) := by
      rw [findings, List.map_cons, Screen.shownOf, hopening]
      dsimp only
      rw [hall]
      rfl
    exact ⟨(hzero _).trans (and_iff_right (congrArg Prod.snd hfindings)), congrArg Prod.fst hfindings⟩

section Endless

open LoadPlan.Jmx (Block component stringProp boolProp)

def endlessGroup : Markup.Element :=
  component "ThreadGroup" "ThreadGroupGui" "Users" [stringProp "ThreadGroup.num_threads" "20",
    stringProp "ThreadGroup.ramp_time" "1", stringProp "LoopController.loops" "1"]

/-- The name of the loop is a closing tag. -/
def endlessLoop : Markup.Element :=
  component "LoopController" "LoopControlPanel" "[/b]" [boolProp "LoopController.continue_forever" true]

def endlessSampler : Markup.Element :=
  component "HTTPSamplerProxy" "HttpTestSampleGui" "Home" [stringProp "HTTPSampler.path" "/",
    stringProp "HTTPSampler.method" "GET", stringProp "HTTPSampler.domain" "localhost"]

/-- A valid plan with a loop that runs forever. -/
def endlessPlan : Markup.Element :=
  ⟨"jmeterTestPlan", [], "", [Block.tree [⟨component "TestPlan" "TestPlanGui" "Plan" [],
    [⟨endlessGroup, [⟨endlessLoop, [⟨endlessSampler, []⟩]⟩]⟩]⟩]]⟩

def endlessDisk : Disk :=
  ⟨[(["o"], .file (Text.Utf8.encode endlessPlan.document))], []⟩

theorem audit_endless : Jmx.PlanFile.audit endlessDisk "o" =
    .ok ⟨[], [.addTimers, .addAssertions, .endlessLoop "[/b]"]⟩ := by
  have hwrite : Jmx.PlanFile.write ⟨[], []⟩ (.ofString "o") endlessPlan = (endlessDisk, .ok ()) :=
    Build.write_to_empty endlessPlan
  rw [Jmx.PlanFile.audit, Jmx.PlanFile.read_of_readable (by decide) (by decide) hwrite]
  rfl

/-- Nothing is wrong with the plan, but there is an error over the advice on its loop. -/
theorem exit_of_validate_endless :
    let args := ["validate", "o"]
    Arguments.request? args = some (.validate "o") ∧ isThere endlessDisk "o" = true ∧
      (∃ a, Jmx.PlanFile.audit endlessDisk "o" = .ok a ∧ a.valid = true) ∧
      (run Tagged.renderer endlessDisk args).code = 1 := by
  intro args
  have hargs : Arguments.request? args = some (.validate "o") := rfl
  have hfile (content : Text.Utf8.Bytes) : isThere ⟨[(["o"], .file content)], []⟩ "o" = true := by cbv
  have hended := exit_of_validate Tagged.renderer hargs (hfile _) audit_endless
  have hadvice : Closes (Jmx.Advice.endlessLoop "[/b]").message :=
    ⟨"Loop '", "b", "' runs forever; make sure the test is stopped by duration or by hand", by decide, by simp, rfl⟩
  refine ⟨hargs, hfile _, ⟨_, audit_endless, rfl⟩, hended.closes Tagged.readsTags ⟨_, ?_, hadvice⟩⟩
  exact .tail _ (.tail _ (.tail _ (.head _)))

end Endless

end Command

end LoadPlan.Console
