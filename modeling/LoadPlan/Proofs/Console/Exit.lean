import LoadPlan.Proofs.Build.Footprint
import LoadPlan.Proofs.Build.Provenance
import LoadPlan.Proofs.Console.Tagged
import LoadPlan.Proofs.Inclusion.Lookup

/-! The exit code of the generate command, and what it leaves on the disk. Besides the build and the report,
it depends on whether all texts can be shown. -/
namespace LoadPlan

/-- Where a path led to a file it still does after another file is saved. -/
theorem Jmx.PlanFile.find_save {d after : Storage.Disk} {path other : Storage.Path} {content c : Text.Utf8.Bytes}
    {place : Storage.Location} (h : save d path content = (after, .ok ()))
    (hf : d.find other = .ok (.entry place (.file c))) (hne : after.fileAt? path ≠ after.fileAt? other) :
    after.find other = .ok (.entry place (.file c)) := by
  obtain ⟨made, hm, hw⟩ := save_eq_ok h
  have hmade := Storage.Disk.makeDirectories_extends d path.parent
  simp only [hm] at hmade
  obtain ⟨target, hh, rfl, hfind⟩ := Storage.Disk.write_eq_ok hw
  have hbefore := hmade.find hf
  have hplace : place ≠ target := by
    rintro rfl
    obtain ⟨hsize, hwalk⟩ := Storage.Disk.find_eq_ok_iff.mp hbefore
    have hboth : (made.put place (.file content)).find other = .ok (.entry place (.file content)) :=
      Storage.Disk.find_eq_ok_iff.mpr ⟨hsize, Storage.Disk.walk_put hh hwalk (.file place c)⟩
    simp [Storage.Disk.fileAt?, hfind, hboth] at hne
  exact Storage.Disk.find_put_of_ne hh hplace hbefore

namespace Console

open LoadPlan.Storage (Disk Path)

/-- The exit code of a command that ends early. -/
def Stop.code : Stop → Nat
  | .exit code => code
  | .crash _ => 1

namespace Running

/-- An action ends in order, or early with exit code 1, and leaves a disk. -/
structure Ends {α : Type} (m : Running α) (d : Disk) (done : α → Disk → Prop) (broken : Disk → Prop) :
    Prop where
  run : ∀ shown, match m.run ⟨d, shown⟩ with
    | (.ok a, s) => done a s.disk
    | (.error stop, s) => stop.code = 1 ∧ broken s.disk

/-- An action does no more than to show something, if this can be shown. -/
structure Shows (m : Running Unit) (P : Prop) : Prop where
  ends (d : Disk) : Ends m d (fun _ after => after = d ∧ P) (fun after => after = d ∧ ¬P)

variable {α β : Type} {m : Running α} {f : α → Running β} {d : Disk} {done : α → Disk → Prop}
  {last : β → Disk → Prop} {broken : Disk → Prop} {n : Running Unit} {g : Unit → Running β} {P Q : Prop}

theorem run_bind (m : Running α) (f : α → Running β) (s : Session) :
    (m >>= f).run s = match m.run s with
      | (.ok a, s) => (f a).run s
      | (.error stop, s) => (.error stop, s) := by
  simp only [bind, ExceptT.bind, ExceptT.run, ExceptT.mk, StateT.bind, ExceptT.bindCont]
  rcases m s with ⟨_ | _, s⟩ <;> rfl

namespace Ends

theorem ok {shown : List String} {a : α} {s : Session} (hm : Ends m d done broken)
    (hrun : m.run ⟨d, shown⟩ = (.ok a, s)) : done a s.disk := by
  have h := hm.run shown
  rwa [hrun] at h

theorem error {shown : List String} {stop : Stop} {s : Session} (hm : Ends m d done broken)
    (hrun : m.run ⟨d, shown⟩ = (.error stop, s)) : stop.code = 1 ∧ broken s.disk := by
  have h := hm.run shown
  rwa [hrun] at h

theorem bind (hm : Ends m d done broken) (hf : ∀ a mid, done a mid → Ends (f a) mid last broken) :
    Ends (m >>= f) d last broken := by
  refine ⟨fun shown => ?_⟩
  rw [run_bind]
  rcases hrun : m.run ⟨d, shown⟩ with ⟨stop | a, mid, more⟩
  · exact hm.error hrun
  · exact (hf a mid (hm.ok hrun)).run more

theorem mono {done' : α → Disk → Prop} {broken' : Disk → Prop} (hm : Ends m d done broken)
    (hdone : ∀ a after, done a after → done' a after) (hbroken : ∀ after, broken after → broken' after) :
    Ends m d done' broken' := by
  refine ⟨fun shown => ?_⟩
  rcases hrun : m.run ⟨d, shown⟩ with ⟨stop | a, after, more⟩
  · exact (hm.error hrun).imp_right (hbroken after)
  · exact hdone a after (hm.ok hrun)

theorem pure {a : α} (h : done a d) : Ends (pure a : Running α) d done broken :=
  ⟨fun _ => h⟩

theorem disk : Ends disk d (fun a after => a = d ∧ after = d) broken :=
  ⟨fun _ => ⟨rfl, rfl⟩⟩

theorem setDisk (d' : Disk) : Ends (setDisk d') d (fun _ after => after = d') broken :=
  ⟨fun _ => rfl⟩

theorem crash (c : Crash) (h : broken d) : Ends (crash c : Running α) d done broken :=
  ⟨fun _ => ⟨rfl, h⟩⟩

end Ends

namespace Shows

theorem display (ls : Except String (List String)) : Shows (display ls) (∃ shown, ls = .ok shown) := by
  refine ⟨fun d => ⟨fun shown => ?_⟩⟩
  cases ls with
  | ok ls => exact ⟨rfl, ls, rfl⟩
  | error message => exact ⟨rfl, rfl, nofun⟩

theorem pure : Shows (pure ()) True :=
  ⟨fun _ => .pure ⟨rfl, trivial⟩⟩

/-- Something is shown, and then comes the rest. -/
theorem next (hn : Shows n P) (hbroken : ¬P → broken d) (hg : P → Ends (g ()) d last broken) :
    Ends (n >>= g) d last broken := by
  refine ((hn.ends d).mono (fun _ _ h => h) ?_).bind ?_
  · rintro _ ⟨rfl, hnot⟩
    exact hbroken hnot
  · rintro _ _ ⟨rfl, hP⟩
    exact hg hP

theorem bind {n' : Running Unit} (hn : Shows n P) (hn' : Shows n' Q) : Shows (n >>= fun _ => n') (P ∧ Q) := by
  refine ⟨fun d => hn.next (fun hnot => ⟨rfl, fun hall => hnot hall.1⟩) fun hP => ?_⟩
  exact (hn'.ends d).mono (fun _ _ h => ⟨h.1, hP, h.2⟩) fun _ h => ⟨h.1, fun hall => h.2 hall.2⟩

theorem congr (hn : Shows n P) (hiff : P ↔ Q) : Shows n Q :=
  propext hiff ▸ hn

end Shows

variable {library : Renderer}

theorem exists_lines_iff {t : String} : (∃ shown, Screen.lines library t = .ok shown) ↔ library.Shows t := by
  unfold Screen.lines Renderer.Shows
  cases library.visible t <;> simp [Except.map]

theorem Shows.print (t : String) : Shows (print library t) (library.Shows t) :=
  (Shows.display _).congr exists_lines_iff

theorem Ends.fail (message : String) (h : broken d) : Ends (fail library message : Running α) d done broken :=
  (Shows.print _).next (fun _ => h) fun _ => ⟨fun _ => ⟨rfl, h⟩⟩

theorem Ends.failStorage (f : Storage.Failure) (h : broken d) :
    Ends (failStorage library f : Running α) d done broken := by
  unfold Running.failStorage
  split
  · exact .fail _ h
  · exact .crash _ h

end Running

namespace Command

open Running

variable {library : Renderer} {d built after : Disk} {s : Settings} {r : GenerateRequest} {p : Build.Product}
  {path : String}

/-- The settings that a request names are accepted. -/
def Accepted (d : Disk) (config : Option String) (s : Settings) : Prop :=
  match config with
  | none => s = .standard
  | some path => Settings.ofFile d path = .ok s

/-- What is shown before a build. -/
def headings (r : GenerateRequest) : List String :=
  [s!"[bold]Generating JMX file:[/bold] {r.output}", s!"[dim]  Input: {r.input}[/dim]\n"]

def tableHead : List String :=
  ["Kind", "Location", "Message"]

/-- All that is shown of a build can be shown: its summary, and the table of its diagnostics if there are any. -/
structure Presented (library : Renderer) (p : Build.Product) : Prop where
  summary : library.Shows (summaryText p)
  head : p.diagnostics ≠ [] → ∀ cell ∈ tableHead, library.Shows cell
  rows : ∀ g ∈ p.diagnostics, ∀ cell ∈ diagnosticRow g, library.Shows cell

/-- What is shown of a report that was written. -/
def reportNote (path : String) : String :=
  s!"\n[dim]Report exported to:[/dim] {path}"

/-- Where a report goes. An empty path asks for none. -/
def reportPath? (r : GenerateRequest) : Option String :=
  r.report.filter (· != "")

/-- All texts that are shown on the way can be shown. -/
structure Shown (library : Renderer) (r : GenerateRequest) (p : Build.Product) : Prop where
  headings : ∀ t ∈ headings r, library.Shows t
  product : Presented library p
  note : ∀ path ∈ reportPath? r, library.Shows (reportNote path)

/-- The report of a build with some settings is written to a file. -/
def Reports (s : Settings) (p : Build.Product) (path : String) (built after : Disk) : Prop :=
  ∃ report, Report.ofProduct? p s = some report ∧
    Jmx.PlanFile.save built (.ofString path) (Text.Utf8.encode (report.render 0)) = (after, .ok ())

/-- The report is written, if there is to be one. -/
def Filed (s : Settings) (r : GenerateRequest) (p : Build.Product) (built after : Disk) : Prop :=
  match reportPath? r with
  | none => after = built
  | some path => Reports s p path built after

/-- The build succeeds, and so does the writing of the report. -/
def Succeeds (d : Disk) (s : Settings) (r : GenerateRequest) (p : Build.Product) (after : Disk) : Prop :=
  ∃ built, Build.run d s r.input r.output = (built, .ok p) ∧ Filed s r p built after

theorem ends_settingsFrom {config : Option String} {broken : Disk → Prop} (h : Accepted d config s) :
    Ends (settingsFrom library config) d (fun a after => a = s ∧ after = d) broken := by
  cases config with
  | none =>
    obtain rfl := h
    exact .pure ⟨rfl, rfl⟩
  | some path =>
    refine Ends.disk.bind ?_
    rintro _ _ ⟨rfl, rfl⟩
    have hfile : Settings.ofFile _ path = .ok s := h
    simp only [hfile]
    exact .pure ⟨rfl, rfl⟩

theorem exists_mapM_iff {α β ε : Type} {f : α → Except ε β} {xs : List α} :
    (∃ ys, xs.mapM f = .ok ys) ↔ ∀ x ∈ xs, ∃ y, f x = .ok y := by
  induction xs with
  | nil => simp [pure, Except.pure]
  | cons x xs ih =>
    rw [List.forall_mem_cons, ← ih, List.mapM_cons]
    cases f x with
    | error e => simp [bind, Except.bind]
    | ok y => cases xs.mapM f <;> simp [bind, Except.bind, pure, Except.pure]

theorem exists_row_iff {cells : List String} :
    (∃ ls, Screen.row library cells = .ok ls) ↔ ∀ c ∈ cells, library.Shows c := by
  unfold Renderer.Shows
  rw [← exists_mapM_iff, Screen.row]
  cases cells.mapM library.visible <;> simp [Except.map]

theorem exists_table_iff {title : String} {head : List String} {rows : List (List String)} :
    (∃ ls, Screen.table library title head rows = .ok ls) ↔
      (∀ c ∈ head, library.Shows c) ∧ ∀ row ∈ rows, ∀ c ∈ row, library.Shows c := by
  simp only [← exists_row_iff]
  rw [← exists_mapM_iff, Screen.table]
  cases Screen.row library head with
  | error message => simp [bind, Except.bind]
  | ok shown => cases rows.mapM (Screen.row library) <;> simp [bind, Except.bind, pure, Except.pure]

theorem exists_panel_iff {title t : String} :
    (∃ ls, Screen.panel library title t = .ok ls) ↔ library.Shows t := by
  rw [← exists_lines_iff, Screen.panel]
  cases Screen.lines library t <;> simp [Except.map]

theorem shows_product (p : Build.Product) : Shows (showProduct library p) (Presented library p) := by
  have hpresented : Presented library p ↔ library.Shows (summaryText p) ∧
      (p.diagnostics ≠ [] → (∀ cell ∈ tableHead, library.Shows cell) ∧
        ∀ row ∈ p.diagnostics.map diagnosticRow, ∀ cell ∈ row, library.Shows cell) := by
    simp only [List.forall_mem_map]
    refine ⟨fun h => ⟨h.summary, fun hne => ⟨h.head hne, h.rows⟩⟩, fun h => ⟨h.1, fun hne => (h.2 hne).1, ?_⟩⟩
    exact fun g hg => (h.2 (List.ne_nil_of_mem hg)).2 g hg
  unfold showProduct
  refine (((Shows.display _).congr exists_panel_iff).bind ?_).congr hpresented.symm
  by_cases hempty : p.diagnostics = []
  · rw [if_neg (by simp [hempty])]
    exact Shows.pure.congr (by simp [hempty])
  · rw [if_pos (by simpa using hempty)]
    exact (Shows.display _).congr (exists_table_iff.trans (by simp [hempty, tableHead]))

theorem reports_iff {made : Disk} {report : Json} (hreport : Report.ofProduct? p s = some report)
    (hmade : built.makeDirectories (Path.ofString path).parent = (made, .ok ())) :
    Reports s p path built after ↔
      made.write (.ofString path) (Text.Utf8.encode (report.render 0)) = .ok after := by
  unfold Reports Jmx.PlanFile.save
  simp only [hreport, hmade, Option.some.injEq, exists_eq_left']
  cases made.write (.ofString path) (Text.Utf8.encode (report.render 0)) <;> simp

theorem ends_writeReport (p : Build.Product) (s : Settings) (path : String) (built : Disk) :
    Ends (writeReport library path p s) built
      (fun _ after => Reports s p path built after ∧ library.Shows (reportNote path))
      (fun _ => ∀ after, ¬(Reports s p path built after ∧ library.Shows (reportNote path))) := by
  refine Ends.disk.bind ?_
  rintro _ _ ⟨rfl, rfl⟩
  rename_i built
  rcases hmade : built.makeDirectories (Path.ofString path).parent with ⟨made, failure | ⟨⟩⟩
  · refine (Ends.setDisk made).bind fun _ _ _ => .failStorage _ ?_
    rintro after ⟨⟨report, -, hsave⟩, -⟩
    simp [Jmx.PlanFile.save, hmade] at hsave
  · refine (Ends.setDisk made).bind fun _ _ _ => ?_
    cases hreport : Report.ofProduct? p s with
    | none =>
      refine .crash _ ?_
      rintro after ⟨⟨report, h, -⟩, -⟩
      cases hreport.symm.trans h
    | some report =>
      simp only [reports_iff hreport hmade]
      cases hwrite : made.write (.ofString path) (Text.Utf8.encode (report.render 0)) with
      | error f =>
        refine .failStorage _ ?_
        rintro after ⟨h, -⟩
        cases h
      | ok written =>
        refine (Ends.setDisk written).bind fun _ mid hmid => ?_
        refine ((Shows.print _).ends mid).mono ?_ ?_
        · rintro _ after ⟨rfl, hnote⟩
          exact ⟨congrArg _ hmid.symm, hnote⟩
        · rintro _ ⟨-, hnote⟩ after ⟨-, h⟩
          exact hnote h

/-- What is asked for comes about on the way to some disk, and all that is shown then can be shown. -/
def Passes (library : Renderer) (d : Disk) (s : Settings) (r : GenerateRequest) (after : Disk) : Prop :=
  ∃ p, Succeeds d s r p after ∧ Shown library r p

/-- After the build nothing was written, as some text of it cannot be shown. -/
def Cut (library : Renderer) (d : Disk) (s : Settings) (r : GenerateRequest) (after : Disk) : Prop :=
  ∀ built p, Build.run d s r.input r.output = (built, .ok p) → (∀ t ∈ headings r, library.Shows t) →
    ¬Presented library p → after = built

theorem passes_iff (hrun : Build.run d s r.input r.output = (built, .ok p)) :
    Passes library d s r after ↔ Filed s r p built after ∧ Shown library r p := by
  constructor
  · rintro ⟨p', ⟨built', hrun', hfiled⟩, hshown⟩
    cases hrun.symm.trans hrun'
    exact ⟨hfiled, hshown⟩
  · rintro ⟨hfiled, hshown⟩
    exact ⟨p, ⟨built, hrun, hfiled⟩, hshown⟩

theorem cut_iff (hrun : Build.run d s r.input r.output = (built, .ok p)) :
    Cut library d s r after ↔ ((∀ t ∈ headings r, library.Shows t) → ¬Presented library p → after = built) := by
  refine ⟨fun h => h built p hrun, fun h built' p' hrun' => ?_⟩
  cases hrun.symm.trans hrun'
  exact h

theorem not_passes_of_error {e : Build.Error} (hrun : Build.run d s r.input r.output = (built, .error e)) :
    (∀ last, ¬Passes library d s r last) ∧ Cut library d s r after := by
  constructor
  · rintro last ⟨p, ⟨built', hrun', -⟩, -⟩
    cases hrun.symm.trans hrun'
  · intro built' p hrun'
    cases hrun.symm.trans hrun'

/-- What is done about the report after the build. -/
theorem report_eq (r : GenerateRequest) (p : Build.Product) (s : Settings) :
    (match r.report with
      | none => pure ()
      | some path => if path != "" then writeReport library path p s else pure ()) =
      match reportPath? r with
      | none => pure ()
      | some path => writeReport library path p s := by
  unfold reportPath?
  cases r.report with
  | none => rfl
  | some path =>
    by_cases hempty : path = ""
    · rw [hempty]
      rfl
    · have hsome : (path != "") = true := bne_iff_ne.mpr hempty
      simp only [Option.filter_some, hsome, if_true]

/-- If nothing passes, it is over after the build at the latest, or the report fails. -/
theorem ends_product (hheadings : ∀ t ∈ headings r, library.Shows t)
    (hrun : Build.run d s r.input r.output = (built, .ok p)) :
    Ends (do
        showProduct library p
        match r.report with
        | none => return ()
        | some path => if path != "" then writeReport library path p s) built
      (fun _ after => Passes library d s r after) (fun after => (∀ last, ¬Passes library d s r last) ∧ Cut library d s r after) := by
  simp only [passes_iff hrun, cut_iff hrun, report_eq]
  refine (shows_product p).next ?_ fun hproduct => ?_
  · exact fun hnot => ⟨fun last h => hnot h.2.product, fun _ _ => rfl⟩
  · unfold Filed
    cases hpath : reportPath? r with
    | none => exact .pure ⟨rfl, hheadings, hproduct, by rw [hpath]; exact nofun⟩
    | some path =>
      refine (ends_writeReport p s path built).mono ?_ ?_
      · rintro _ after ⟨hreports, hnote⟩
        refine ⟨hreports, hheadings, hproduct, ?_⟩
        rintro _ h
        cases hpath.symm.trans h
        exact hnote
      · intro _ hnone
        exact ⟨fun last h => hnone last ⟨h.1, h.2.note path hpath⟩, fun _ hnot => absurd hproduct hnot⟩

/-- Nothing but a text that cannot be shown stands between the build and the report that are asked for and
exit code 0. If such a text is shown after the build, no report is written. -/
theorem ends_generate (hinput : d.isFile (.ofString r.input) = .ok true) (hs : Accepted d r.config s) :
    Ends (generate library r) d (fun _ => Passes library d s r)
      (fun after => (∀ last, ¬Passes library d s r last) ∧ Cut library d s r after) := by
  have hheading : ∀ t ∈ headings r, ¬library.Shows t → (∀ last, ¬Passes library d s r last) ∧ Cut library d s r d := by
    intro t ht hnot
    refine ⟨?_, fun _ _ _ hall => absurd (hall t ht) hnot⟩
    rintro last ⟨p, -, hshown⟩
    exact hnot (hshown.headings t ht)
  unfold generate
  refine Ends.disk.bind ?_
  rintro _ d ⟨rfl, rfl⟩
  simp only [hinput]
  refine (ends_settingsFrom hs).bind ?_
  rintro settings d ⟨rfl, rfl⟩
  refine (Shows.print _).next (hheading _ (List.mem_cons_self ..)) fun hfirst => ?_
  refine (Shows.print _).next (hheading _ (List.mem_cons_of_mem _ (List.mem_cons_self ..))) fun hsecond => ?_
  refine Ends.disk.bind ?_
  rintro _ d ⟨rfl, rfl⟩
  rcases hrun : Build.run d settings r.input r.output with ⟨built, e | p⟩
  · have hfailed : (∀ last, ¬Passes library d settings r last) ∧ Cut library d settings r built := not_passes_of_error hrun
    refine (Ends.setDisk built).bind ?_
    rintro _ _ rfl
    cases e with
    | fault f => exact .crash _ hfailed
    | halved => exact .crash _ hfailed
    | missing path => exact .fail _ hfailed
    | malformed source => exact .fail _ hfailed
    | unwritable path failure => exact .fail _ hfailed
  · refine (Ends.setDisk built).bind ?_
    rintro _ _ rfl
    refine ends_product ?_ hrun
    simp only [headings, List.forall_mem_cons]
    exact ⟨hfirst, hsecond, List.forall_mem_nil _⟩

/-- The output holds the plan for the description, and the file of the report what was made and the settings.
Of two paths to one file, that of the report counts. -/
def Leaves (d : Disk) (s : Settings) (r : GenerateRequest) (p : Build.Product) (after : Disk) : Prop :=
  ∃ main draft, Description.ofFile d r.input = .ok main ∧ Build.draft d s r.input main = .ok draft ∧
    (∀ path ∈ reportPath? r, ∃ report, Report.ofProduct? p s = some report ∧
      after.read (.ofString path) = .ok (Text.Utf8.encode (report.render 0))) ∧
    ((∀ path ∈ reportPath? r, after.fileAt? (.ofString path) ≠ after.fileAt? (.ofString r.output)) →
      after.read (.ofString r.output) = .ok (Text.Utf8.encode draft.root.document))

theorem Succeeds.leaves (h : Succeeds d s r p after) : Leaves d s r p after := by
  obtain ⟨built, hrun, hreport⟩ := h
  obtain ⟨main, draft, hmain, hdraft, -, hwrite, -⟩ := Build.run_eq_ok_iff.mp hrun
  obtain ⟨place, -, hplan, -⟩ := Jmx.PlanFile.save_ok hwrite
  unfold Filed at hreport
  refine ⟨main, draft, hmain, hdraft, ?_⟩
  cases hpath : reportPath? r with
  | none =>
    rw [hpath] at hreport
    obtain rfl := hreport
    exact ⟨nofun, fun _ => by rw [Disk.read, hplan]⟩
  | some path =>
    rw [hpath] at hreport
    obtain ⟨report, hsome, hsave⟩ := hreport
    simp only [Option.mem_some_iff, forall_eq']
    obtain ⟨_, -, hfind, -⟩ := Jmx.PlanFile.save_ok hsave
    refine ⟨⟨report, hsome, by rw [Disk.read, hfind]⟩, fun hne => ?_⟩
    rw [Disk.read, Jmx.PlanFile.find_save hsave hplan hne]

/-- What comes from the paths and the description in the texts that are shown, outside of tags. -/
def exposed (r : GenerateRequest) (p : Build.Product) : List String :=
  r.output :: p.path :: (reportPath? r).toList ++ p.diagnostics.flatMap fun g => [g.place.label, g.problem.message]

/-- All that comes from them. The path of the input stands in tags. -/
def authored (r : GenerateRequest) (p : Build.Product) : List String :=
  r.input :: exposed r p

/-- What stands before the path of the output. -/
def headingHead : List Span :=
  [.styled "bold" "Generating JMX file:", .plain " "]

/-- What stands before the path of the report. -/
def noteHead : List Span :=
  [.plain "\n", .styled "dim" "Report exported to:", .plain " "]

theorem heading_eq (output : String) :
    s!"[bold]Generating JMX file:[/bold] {output}" = markup headingHead ++ output := by
  have hhead : "[bold]Generating JMX file:[/bold] " = markup headingHead := by decide
  rw [← hhead]
  rfl

theorem reportNote_eq (path : String) : reportNote path = markup noteHead ++ path := by
  have hhead : "\n[dim]Report exported to:[/dim] " = markup noteHead := by decide
  rw [← hhead]
  rfl

theorem proper_headingHead : ∀ s ∈ headingHead, s.Proper := by
  simp only [headingHead, List.forall_mem_cons]
  exact ⟨⟨by decide, by decide⟩, (by decide : Bare " "), List.forall_mem_nil _⟩

theorem proper_noteHead : ∀ s ∈ noteHead, s.Proper := by
  simp only [noteHead, List.forall_mem_cons]
  exact ⟨(by decide : Bare "\n"), ⟨by decide, by decide⟩, (by decide : Bare " "), List.forall_mem_nil _⟩

section Reading

variable (hlibrary : library.ReadsTags)
include hlibrary

/-- What is proper in front of a bare text makes it no less so. -/
theorem shows_behind {spans : List Span} {t : String} (h : ∀ s ∈ spans, s.Proper) (ht : Bare t) :
    library.Shows (markup spans ++ t) := by
  have hplain : ∀ s ∈ [Span.plain t], s.Proper := List.forall_mem_singleton.mpr ht
  have hshows := hlibrary.shows (List.forall_mem_append.mpr ⟨h, hplain⟩)
  rwa [markup_append, markup_plain] at hshows

theorem shows_headings (houtput : Bare r.output) (hinput : Bare r.input) : ∀ t ∈ headings r, library.Shows t := by
  have hform : s!"[dim]  Input: {r.input}[/dim]\n" =
      markup [.styled "dim" ("  Input: " ++ r.input), .plain "\n"] := by
    apply String.toList_injective
    simp [markup, Span.markup, toString]
  simp only [headings, List.forall_mem_cons]
  rw [heading_eq, hform]
  refine ⟨shows_behind hlibrary proper_headingHead houtput, hlibrary.shows ?_, List.forall_mem_nil _⟩
  simp only [List.forall_mem_cons]
  exact ⟨⟨by decide, (by decide : Bare "  Input: ").append hinput⟩, (by decide : Bare "\n"), List.forall_mem_nil _⟩

theorem shows_summary (hpath : Bare p.path) : library.Shows (summaryText p) := by
  have hform : summaryText p = markup (summaryHead ++ .plain p.path :: summaryRest p.counts) := by
    rw [summaryText_eq, markup_append]
    rfl
  rw [hform]
  refine hlibrary.shows (List.forall_mem_append.mpr ⟨proper_summaryHead, ?_⟩)
  exact List.forall_mem_cons.mpr ⟨hpath, proper_summaryRest p.counts⟩

theorem shows_row {g : Diagnostic} (hlabel : Bare g.place.label) (hmessage : Bare g.problem.message) :
    ∀ cell ∈ diagnosticRow g, library.Shows cell := by
  have hkind : library.Shows (markup [.styled (kindStyle g.problem.kind) g.problem.kind.name]) := by
    refine hlibrary.shows (List.forall_mem_singleton.mpr ?_)
    cases g.problem.kind <;> exact ⟨by decide, by decide⟩
  simp only [diagnosticRow, List.forall_mem_cons]
  refine ⟨?_, hlibrary.shows_bare hlabel, hlibrary.shows_bare hmessage, List.forall_mem_nil _⟩
  rwa [markup, markup, String.append_empty] at hkind

theorem shown_of_bare (h : ∀ t ∈ authored r p, Bare t) : Shown library r p := by
  simp only [authored, exposed, List.cons_append, List.forall_mem_cons, List.forall_mem_append,
    List.forall_mem_flatMap, Option.mem_toList] at h
  obtain ⟨hinput, houtput, hpath, hreport, hproduct⟩ := h
  have hhead : ∀ cell ∈ tableHead, Bare cell := by decide
  refine ⟨shows_headings hlibrary houtput hinput, ⟨shows_summary hlibrary hpath, ?_, ?_⟩, ?_⟩
  · exact fun _ cell hcell => hlibrary.shows_bare (hhead cell hcell)
  · intro g hg
    obtain ⟨hlabel, hmessage, -⟩ := hproduct g hg
    exact shows_row hlibrary hlabel hmessage
  · intro path hp
    rw [reportNote_eq]
    exact shows_behind hlibrary proper_noteHead (hreport path hp)

/-- Where one of the texts outside of tags closes a style, not all can be shown. -/
theorem not_shown_of_closes {t : String} (ht : t ∈ exposed r p) (hcloses : Closes t) : ¬Shown library r p := by
  intro hshown
  simp only [exposed, List.cons_append, List.mem_cons, List.mem_append, List.mem_flatMap, Option.mem_toList] at ht
  rcases ht with rfl | rfl | hpath | ⟨g, hg, ht⟩
  · refine hlibrary.raises proper_headingHead hcloses ?_
    rw [← heading_eq]
    exact hshown.headings _ (List.mem_cons_self ..)
  · refine hlibrary.raises proper_summaryHead (hcloses.append (markup (summaryRest p.counts))) ?_
    rw [← summaryText_eq]
    exact hshown.product.summary
  · refine hlibrary.raises proper_noteHead hcloses ?_
    rw [← reportNote_eq]
    exact hshown.note t hpath
  · refine hlibrary.raises_first hcloses (hshown.product.rows g hg t (List.mem_cons_of_mem _ ?_))
    simpa using ht

end Reading

/-- If the input is there and the settings are accepted, the exit code is 0 just if the build succeeds, the
report that is asked for can be written, and all texts that are shown on the way can be shown. If the plan is there
and what is to be said of it cannot be shown, nothing else is written. With a library that reads tags as documented
all can be shown if nothing in what comes from the paths and the description is read as a tag, and there is an
error if any of it closes a style. -/
theorem exit_of_generate (library : Renderer) {args : List String}
    (hargs : Arguments.request? args = some (.generate r)) (hinput : d.isFile (.ofString r.input) = .ok true)
    (hs : Accepted d r.config s) :
    let out := run library d args
    (out.code = 0 ↔ ∃ p after, Succeeds d s r p after ∧ Shown library r p) ∧
      (out.code = 0 → ∃ p, Succeeds d s r p out.disk ∧ Leaves d s r p out.disk) ∧
      (out.code ≠ 0 → out.code = 1 ∧ Cut library d s r out.disk) ∧
      (library.ReadsTags →
        ((∀ built p, Build.run d s r.input r.output = (built, .ok p) → ∀ t ∈ authored r p, Bare t) →
          (out.code = 0 ↔ ∃ p after, Succeeds d s r p after)) ∧
        ∀ built p, Build.run d s r.input r.output = (built, .ok p) → (∃ t ∈ exposed r p, Closes t) →
          out.code = 1) := by
  intro out
  have hends : Ends (generate library r) d _ _ := ends_generate hinput hs
  have hcases : out.code = 0 ∧ Passes library d s r out.disk ∨
      out.code = 1 ∧ (∀ last, ¬Passes library d s r last) ∧ Cut library d s r out.disk := by
    unfold out run
    simp only [hargs, perform]
    rcases hrun : (generate library r).run ⟨d, []⟩ with ⟨(code | crash) | ⟨⟩, session⟩
    · exact .inr (hends.error hrun)
    · exact .inr (hends.error hrun)
    · exact .inl ⟨rfl, hends.ok hrun⟩
  have hzero : out.code = 0 ↔ ∃ p after, Succeeds d s r p after ∧ Shown library r p := by
    obtain ⟨hcode, p, hp⟩ | ⟨hcode, hnone, -⟩ := hcases
    · exact iff_of_true hcode ⟨p, _, hp⟩
    · refine iff_of_false (by rw [hcode]; decide) ?_
      rintro ⟨p, last, hp⟩
      exact hnone last ⟨p, hp⟩
  have hone : out.code ≠ 0 → out.code = 1 ∧ Cut library d s r out.disk := by
    intro h
    obtain ⟨hcode, -⟩ | ⟨hcode, -, hcut⟩ := hcases
    · exact absurd hcode h
    · exact ⟨hcode, hcut⟩
  refine ⟨hzero, fun h => ?_, hone, fun hlibrary => ⟨fun hbare => hzero.trans ⟨?_, ?_⟩, ?_⟩⟩
  · obtain ⟨-, p, hp, -⟩ | ⟨hcode, -⟩ := hcases
    · exact ⟨p, hp, hp.leaves⟩
    · cases hcode.symm.trans h
  · rintro ⟨p, after, hp, -⟩
    exact ⟨p, after, hp⟩
  · rintro ⟨p, after, hp⟩
    have ⟨built, hrun, _⟩ := hp
    exact ⟨p, after, hp, shown_of_bare hlibrary (hbare built p hrun)⟩
  · rintro built p hrun ⟨t, ht, hcloses⟩
    refine (hone fun hcode => ?_).1
    obtain ⟨p', after, ⟨built', hrun', -⟩, hshown⟩ := hzero.mp hcode
    cases hrun.symm.trans hrun'
    exact not_shown_of_closes hlibrary ht hcloses hshown

def loopText : String := "<s><loop><forever>false</forever><count>[/b]</count></loop></s>"

/-- The number of rounds is a closing tag. -/
def loopDisk : Disk :=
  ⟨[(["m"], .file (Text.Utf8.encode loopText))], []⟩

def foreverNode : Description.Node := ⟨"forever", [], [], "false", 1, "m"⟩

def countNode : Description.Node := ⟨"count", [], [], "[/b]", 1, "m"⟩

def loopNode : Description.Node := ⟨"loop", [foreverNode, countNode], [], "false[/b]", 1, "m"⟩

def suiteNode : Description.Node := ⟨"s", [loopNode], [], "false[/b]", 1, "m"⟩

def loopRequest : GenerateRequest := ⟨"m", "o", none, some "r", false⟩

theorem ofFile_loop : Description.ofFile loopDisk "m" = .ok suiteNode := by
  cbv

theorem reported_loop : Build.reported loopDisk .standard suiteNode = [⟨.badCount "[/b]", ⟨"m", 1⟩⟩] :=
  rfl

theorem closes_loop : Closes (Problem.badCount "[/b]").message :=
  ⟨"Loop count '", "b", "' is not a number, using 0", by decide, by simp, rfl⟩

theorem run_loop :
    ∃ content p, Build.run loopDisk .standard "m" "o" = (loopDisk.put ["o"] (.file content), .ok p) := by
  have hincludes : Build.refusal? loopDisk .standard suiteNode = none := rfl
  have hfaults : Jmx.Layout.planFaults ⟨loopDisk, .standard, "m"⟩
      (Scenario.collected loopDisk .standard suiteNode) = [] := rfl
  obtain ⟨draft, hdraft⟩ : ∃ draft, Build.draft loopDisk .standard "m" suiteNode = .ok draft :=
    ⟨_, Build.draft_eq_ok_iff.mpr ⟨hincludes, Jmx.assemble_eq_ok_iff.mpr ⟨hfaults, rfl⟩⟩⟩
  have hthere : loopDisk.isDirectory ⟨"", []⟩ = .ok true := Disk.isDirectory_working rfl
  have hfree : loopDisk.find ⟨"", ["o"]⟩ = .ok (.free ["o"]) := Disk.find_of_free (by decide) (by decide) rfl
  have hpath : Path.ofString "o" = ⟨"", ["o"]⟩ := rfl
  have hwrite := Jmx.PlanFile.write_of_free draft.root hpath hthere hfree
  have hwhole : draft.halved = false := (Build.draft_halved hdraft).trans (Build.isHalved_of_whole _ rfl)
  exact ⟨_, _, Build.run_eq_ok_iff.mpr ⟨_, draft, ofFile_loop, hdraft, hwhole, hwrite, rfl⟩⟩

section Loop

variable {content : Text.Utf8.Bytes}
  (hrun : Build.run loopDisk .standard "m" "o" = (loopDisk.put ["o"] (.file content), .ok p))
include hrun

theorem mem_diagnostics_loop : ⟨.badCount "[/b]", ⟨"m", 1⟩⟩ ∈ p.diagnostics := by
  obtain ⟨main, hmain, hdiagnostics⟩ := Build.diagnostics_of_run (congrArg Prod.snd hrun)
  cases ofFile_loop.symm.trans hmain
  rw [hdiagnostics, reported_loop]
  exact List.mem_cons_self ..

theorem succeeds_loop : ∃ after, Succeeds loopDisk .standard loopRequest p after := by
  have hramp : Number.Integer.text? Settings.standard.rampTime = some "1" := by decide
  have hdepth : Number.Integer.text? Settings.standard.maxIncludeDepth = some "16" := by decide
  have hreport : ∃ report, Report.ofProduct? p .standard = some report := by
    unfold Report.ofProduct? Report.settings?
    rw [hramp, hdepth]
    exact ⟨_, rfl⟩
  obtain ⟨report, hreport⟩ := hreport
  have hthere : (loopDisk.put ["o"] (.file content)).isDirectory ⟨"", []⟩ = .ok true :=
    Disk.isDirectory_working rfl
  have hfree : (loopDisk.put ["o"] (.file content)).find ⟨"", ["r"]⟩ = .ok (.free ["r"]) :=
    Disk.find_of_free (by decide) (by decide) rfl
  exact ⟨_, _, hrun, report, hreport, Jmx.PlanFile.save_of_free _ rfl hthere hfree⟩

end Loop

/-- The report is there to be written, but a closing tag in the description ends the command. -/
theorem exit_of_generate_loop :
    let args := ["generate", "-i", "m", "-o", "o", "--export-report", "r"]
    let out := run Tagged.renderer loopDisk args
    Arguments.request? args = some (.generate loopRequest) ∧ loopDisk.isFile (.ofString "m") = .ok true ∧
      Accepted loopDisk none .standard ∧ (∃ p after, Succeeds loopDisk .standard loopRequest p after) ∧
      out.code = 1 ∧ out.disk.exists? (.ofString "r") = .ok false := by
  intro args out
  have hargs : Arguments.request? args = some (.generate loopRequest) := rfl
  have hinput : loopDisk.isFile (.ofString "m") = .ok true := by cbv
  obtain ⟨content, p, hrun⟩ := run_loop
  obtain ⟨after, hsucceeds⟩ := succeeds_loop hrun
  obtain ⟨-, -, hcut, hreads⟩ :=
    exit_of_generate Tagged.renderer hargs hinput (rfl : Accepted loopDisk none .standard)
  have hmessage : (Problem.badCount "[/b]").message ∈ exposed loopRequest p := by
    refine List.mem_append_right _ (List.mem_flatMap.mpr ⟨_, mem_diagnostics_loop hrun, ?_⟩)
    exact List.mem_cons_of_mem _ (List.mem_singleton_self _)
  have hcode : out.code = 1 := (hreads Tagged.readsTags).2 _ p hrun ⟨_, hmessage, closes_loop⟩
  have hheadings : ∀ t ∈ headings loopRequest, Tagged.renderer.Shows t :=
    shows_headings Tagged.readsTags (by decide) (by decide)
  have hpresented : ¬Presented Tagged.renderer p := by
    intro h
    refine Tagged.readsTags.raises_first closes_loop (h.rows _ (mem_diagnostics_loop hrun) _ ?_)
    exact List.mem_cons_of_mem _ (List.mem_cons_of_mem _ (List.mem_singleton_self _))
  have hdisk := (hcut (by rw [hcode]; decide)).2 _ p hrun hheadings hpresented
  refine ⟨hargs, hinput, rfl, ⟨p, after, hsucceeds⟩, hcode, ?_⟩
  rw [hdisk]
  cbv

end Command

end Console

end LoadPlan
